import ArithFrontEnd.Proofs.Grammar.Beginnings

/-!
# Every sentence has a leftmost derivation

A leftmost derivation splits where the sequence of symbols splits, and does not care for actions.
So a step of a derivation can be put in front of a leftmost derivation of what it leads to, at the
place of the nonterminal that is replaced.

## Main results

* `Grammar.Leftmost.append`, `Grammar.Leftmost.of_append` — leftmost derivations are put together
  and split.
* `Grammar.leftmost_withoutActions_iff` — actions do not matter.
* `Grammar.derives_iff_exists_leftmost` — **what derives a sentence derives it leftmost.**
* `Grammar.isSentence_iff` — the sentences by their leftmost derivations.
* `Grammar.Leftmost.nullable`, `Grammar.Leftmost.begins` — how leftmost derivations end and begin.
-/

namespace ArithFrontEnd
namespace Grammar

variable {g : Grammar} {u v w : List GrammarSymbol} {rs : List RuleId} {ts : List TerminalId}

theorem Leftmost.append {rs' : List RuleId} {ts' : List TerminalId} (hu : g.Leftmost u rs ts)
    (hv : g.Leftmost v rs' ts') : g.Leftmost (u ++ v) (rs ++ rs') (ts ++ ts') := by
  induction hu with
  | done => exact hv
  | terminal t _ ih => exact .terminal t ih
  | action a _ ih => exact .action a ih
  | expand found _ ih =>
    rw [List.append_assoc] at ih
    exact .expand found ih

/-- A leftmost derivation of two parts derives the first part and then the second. -/
theorem Leftmost.of_append (h : g.Leftmost (u ++ v) rs ts) :
    ∃ rs₁ rs₂ ts₁ ts₂, rs = rs₁ ++ rs₂ ∧ ts = ts₁ ++ ts₂ ∧ g.Leftmost u rs₁ ts₁ ∧
      g.Leftmost v rs₂ ts₂ := by
  generalize hw : u ++ v = w at h
  -- the second part is not touched before nothing is left of the first one
  induction h generalizing u with
  | done =>
    obtain ⟨rfl, rfl⟩ := List.append_eq_nil_iff.1 hw
    exact ⟨[], [], [], [], rfl, rfl, .done, .done⟩
  | @terminal t w rs ts hrest ih =>
    cases u with
    | nil =>
      obtain rfl : v = .terminal t :: w := hw
      exact ⟨[], rs, [], t :: ts, rfl, rfl, .done, .terminal t hrest⟩
    | cons s u =>
      obtain ⟨rfl, hw'⟩ := List.cons.inj hw
      obtain ⟨rs₁, rs₂, ts₁, ts₂, rfl, rfl, h₁, h₂⟩ := ih hw'
      exact ⟨rs₁, rs₂, t :: ts₁, ts₂, rfl, rfl, .terminal t h₁, h₂⟩
  | @action a w rs ts hrest ih =>
    cases u with
    | nil =>
      obtain rfl : v = .action a :: w := hw
      exact ⟨[], rs, [], ts, rfl, rfl, .done, .action a hrest⟩
    | cons s u =>
      obtain ⟨rfl, hw'⟩ := List.cons.inj hw
      obtain ⟨rs₁, rs₂, ts₁, ts₂, rfl, rfl, h₁, h₂⟩ := ih hw'
      exact ⟨rs₁, rs₂, ts₁, ts₂, rfl, rfl, .action a h₁, h₂⟩
  | @expand r rule w rs ts found hrest ih =>
    cases u with
    | nil =>
      obtain rfl : v = .nonterminal rule.left :: w := hw
      exact ⟨[], r :: rs, [], ts, rfl, rfl, .done, .expand found hrest⟩
    | cons s u =>
      obtain ⟨rfl, hw'⟩ := List.cons.inj hw
      have hsplit : (rule.right ++ u) ++ v = rule.right ++ w := by
        rw [List.append_assoc]
        exact congrArg (rule.right ++ ·) hw'
      obtain ⟨rs₁, rs₂, ts₁, ts₂, rfl, rfl, h₁, h₂⟩ := ih hsplit
      exact ⟨r :: rs₁, rs₂, ts₁, ts₂, rfl, rfl, .expand found h₁, h₂⟩

/-- Actions do not matter to a leftmost derivation. -/
theorem leftmost_withoutActions_iff : g.Leftmost (withoutActions w) rs ts ↔ g.Leftmost w rs ts := by
  induction w generalizing rs ts with
  | nil => exact Iff.rfl
  | cons s w ih =>
    cases s with
    | terminal t =>
      show g.Leftmost (.terminal t :: withoutActions w) rs ts ↔ _
      constructor
      · rintro (_ | ⟨-, hrest⟩)
        exact .terminal t (ih.1 hrest)
      · rintro (_ | ⟨-, hrest⟩)
        exact .terminal t (ih.2 hrest)
    | nonterminal n =>
      -- a rule brings its actions with it on both sides, and only what is after them differs
      show g.Leftmost ([.nonterminal n] ++ withoutActions w) rs ts ↔
        g.Leftmost ([.nonterminal n] ++ w) rs ts
      constructor
      · intro h
        obtain ⟨rs₁, rs₂, ts₁, ts₂, rfl, rfl, h₁, h₂⟩ := h.of_append
        exact h₁.append (ih.1 h₂)
      · intro h
        obtain ⟨rs₁, rs₂, ts₁, ts₂, rfl, rfl, h₁, h₂⟩ := h.of_append
        exact h₁.append (ih.2 h₂)
    | action a =>
      show g.Leftmost (withoutActions w) rs ts ↔ _
      constructor
      · intro h
        exact .action a (ih.1 h)
      · rintro (_ | _ | ⟨-, hrest⟩)
        exact ih.2 hrest

theorem leftmost_sentenceSymbols (ts : List TerminalId) :
    g.Leftmost (sentenceSymbols ts) [] ts := by
  induction ts with
  | nil => exact .done
  | cons t ts ih => exact .terminal t ih

/-- What derives a sequence with a leftmost derivation has a leftmost derivation. -/
theorem Derives.leftmost (h : g.Derives w v) (hv : g.Leftmost v rs ts) :
    ∃ rs', g.Leftmost w rs' ts := by
  induction h generalizing rs with
  | refl => exact ⟨rs, hv⟩
  | step before rule after mem _ ih =>
    -- the derivation of the right-hand side becomes one of the nonterminal in its place
    obtain ⟨rs₁, rs', ts₁, ts', rfl, rfl, h₁, h'⟩ := hv.of_append
    obtain ⟨rs₂, rs₃, ts₂, ts₃, rfl, rfl, h₂, h₃⟩ := h'.of_append
    obtain ⟨r, hr⟩ := List.mem_iff_getElem?.1 mem
    have hright : g.Leftmost rule.right rs₂ ts₂ := leftmost_withoutActions_iff.1 h₂
    exact ih (h₁.append (.expand hr (hright.append h₃)))

/-- A sequence derives a sentence just if it derives it leftmost. -/
theorem derives_iff_exists_leftmost :
    g.Derives (withoutActions w) (sentenceSymbols ts) ↔ ∃ rs, g.Leftmost w rs ts := by
  constructor
  · intro h
    obtain ⟨rs, hrs⟩ := h.leftmost (leftmost_sentenceSymbols ts)
    exact ⟨rs, leftmost_withoutActions_iff.1 hrs⟩
  · rintro ⟨rs, h⟩
    exact h.derives

/-- The sentences are what has a leftmost derivation from the start symbol. -/
theorem isSentence_iff : g.IsSentence ts ↔ ∃ rs, g.Leftmost [.nonterminal g.start] rs ts :=
  derives_iff_exists_leftmost (w := [.nonterminal g.start])

/-! ### How leftmost derivations end and begin -/

/-- A nonterminal in front is replaced by one of its rules. -/
theorem Leftmost.of_nonterminal {n : NonterminalId} (h : g.Leftmost (.nonterminal n :: w) rs ts) :
    ∃ r rule rs', rs = r :: rs' ∧ g.rules[r]? = some rule ∧ rule.left = n ∧
      g.Leftmost (rule.right ++ w) rs' ts := by
  cases h with
  | expand found rest => exact ⟨_, _, _, rfl, found, rfl, rest⟩

/-- What has a leftmost derivation of the empty sentence can be empty. -/
theorem Leftmost.nullable (h : g.Leftmost w rs []) : g.Nullable w := by
  generalize hts : [] = ts at h
  induction h with
  | done => exact .nil
  | terminal => cases hts
  | action a _ ih => exact .action a (ih hts)
  | expand found _ ih =>
    obtain ⟨hright, hrest⟩ := (ih hts).of_append
    exact .nonterminal (List.mem_of_getElem? found) hright hrest

/-- The first terminal of a sentence can come first in what has a leftmost derivation of it. -/
theorem Leftmost.begins {t : TerminalId} (h : g.Leftmost w rs (t :: ts)) : g.Begins t w := by
  generalize hts : t :: ts = sentence at h
  induction h with
  | done => cases hts
  | terminal u _ =>
    obtain ⟨rfl, -⟩ := List.cons.inj hts
    exact .terminal _
  | action a _ ih => exact .action a (ih hts)
  | expand found _ ih =>
    have mem := List.mem_of_getElem? found
    rcases begins_append_iff.1 (ih hts) with hright | ⟨hnull, hrest⟩
    · exact .rule mem hright _
    · exact .later (.nonterminal mem hnull .nil) hrest

end Grammar
end ArithFrontEnd
