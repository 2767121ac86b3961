import ArithFrontEnd.Analysis.Sets
import Mathlib.Algebra.Order.BigOperators.Group.List
import Mathlib.Algebra.Order.Ring.Nat
import Mathlib.Data.List.Forall2
import Mathlib.Data.List.Nodup
import Mathlib.Order.Monotone.Defs

/-!
# Passes that add to sets

The passes of the analysis only add to sets, and the sets are bounded.  Every pass that changes
something makes the sets larger in total, so that some pass within the bound changes nothing, and
the state that has been reached is closed under every step of a pass.

## Main definitions

* The orders of `TerminalSet` and `FirstSet` — inclusion.
* `FirstSet.weight` — the terminals of a set, and one more for the empty string.

## Main results

* `settle_fixed` — **passes that add to bounded sets reach a fixed point.**
* `foldl_fixed` — a pass that changes nothing does so at each of its steps.
-/

namespace ArithFrontEnd

/-! ### Inclusion -/

instance : PartialOrder TerminalSet where
  le s u := ∀ t, t ∈ s → t ∈ u
  le_refl _ _ h := h
  le_trans _ _ _ h₁ h₂ t ht := h₂ t (h₁ t ht)
  le_antisymm _ _ h₁ h₂ := TerminalSet.ext fun t => ⟨h₁ t, h₂ t⟩

instance : PartialOrder FirstSet where
  le a b := a.terminals ≤ b.terminals ∧ (a.nullable = true → b.nullable = true)
  le_refl _ := ⟨le_refl _, id⟩
  le_trans _ _ _ h₁ h₂ := ⟨le_trans h₁.1 h₂.1, h₂.2 ∘ h₁.2⟩
  le_antisymm a b h₁ h₂ := by
    have hterminals : a.terminals = b.terminals := le_antisymm h₁.1 h₂.1
    have hnullable : a.nullable = b.nullable := Bool.eq_iff_iff.2 ⟨h₁.2, h₂.2⟩
    cases a
    cases b
    simp_all

namespace TerminalSet

variable {s u : TerminalSet}

theorem nodup_ids (s : TerminalSet) : s.ids.Nodup :=
  s.ascending.imp fun hlt => Nat.ne_of_lt hlt

/-- A set within a list has at most as many elements. -/
theorem size_le_of_subset {ts : List TerminalId} (h : ∀ t, t ∈ s → t ∈ ts) : s.size ≤ ts.length :=
  s.nodup_ids.length_le_of_subset fun t ht => h t ht

theorem size_strictMono : StrictMono size := by
  intro s u hlt
  refine lt_of_le_of_ne (size_le_of_subset hlt.le) fun heq => hlt.not_ge ?_
  -- sets of one size are the same if one of them has the elements of the other
  have hperm := (List.subperm_of_subset s.nodup_ids hlt.le).perm_of_length_le heq.ge
  exact fun t ht => hperm.mem_iff.2 ht

theorem le_union_left (s u : TerminalSet) : s ≤ s.union u := fun _ ht => mem_union.2 (Or.inl ht)

theorem le_union_right (s u : TerminalSet) : u ≤ s.union u := fun _ ht => mem_union.2 (Or.inr ht)

end TerminalSet

namespace FirstSet

/-- The number of terminals, and one more for the empty string. -/
def weight (a : FirstSet) : Nat := a.terminals.size + a.nullable.toNat

theorem weight_strictMono : StrictMono weight := by
  intro a b hlt
  have hsize : a.terminals.size ≤ b.terminals.size :=
    TerminalSet.size_strictMono.monotone hlt.le.1
  have hnullable : a.nullable.toNat ≤ b.nullable.toNat := Bool.toNat_le_toNat hlt.le.2
  refine lt_of_le_of_ne (Nat.add_le_add hsize hnullable) fun heq => hlt.not_ge ?_
  unfold weight at heq
  have hterminals : a.terminals.size = b.terminals.size := by omega
  have hnull : b.nullable.toNat ≤ a.nullable.toNat := by omega
  have hle : b.terminals ≤ a.terminals := by
    rcases hlt.le.1.lt_or_eq with h | h
    · exact absurd hterminals (TerminalSet.size_strictMono h).ne
    · exact h.ge
  refine ⟨hle, fun hb => ?_⟩
  cases ha : a.nullable with
  | true => rfl
  | false => simp [ha, hb] at hnull

theorem le_union_left (a b : FirstSet) : a ≤ a.union b :=
  ⟨TerminalSet.le_union_left _ _, fun h => by simp [union, h]⟩

theorem le_union_right (a b : FirstSet) : b ≤ a.union b :=
  ⟨TerminalSet.le_union_right _ _, fun h => by simp [union, h]⟩

end FirstSet

namespace Analysis

/-! ### Steps that add to the sets of a list -/

variable {β ρ : Type}

theorem getD_modify {xs : List β} {i j : Nat} {f : β → β} {d : β} :
    (xs.modify i f).getD j d = if j = i ∧ j < xs.length then f (xs.getD j d) else xs.getD j d := by
  simp only [List.getD_eq_getElem?_getD, List.getElem?_modify]
  by_cases hlt : j < xs.length
  · by_cases heq : i = j
    · simp [heq, hlt]
    · simp [heq, Ne.symm heq]
  · simp [hlt]

variable [PartialOrder β]

theorem forall₂_modify {f : β → β} (hf : ∀ b, b ≤ f b) (xs : List β) (i : Nat) :
    List.Forall₂ (· ≤ ·) xs (xs.modify i f) := by
  rw [List.forall₂_iff_get]
  refine ⟨by simp, fun j hj hj' => ?_⟩
  simp only [List.get_eq_getElem, List.getElem_modify]
  split
  · exact hf _
  · exact le_refl _

theorem forall₂_trans {xs ys zs : List β} (h₁ : List.Forall₂ (· ≤ ·) xs ys)
    (h₂ : List.Forall₂ (· ≤ ·) ys zs) : List.Forall₂ (· ≤ ·) xs zs := by
  induction h₁ generalizing zs with
  | nil => exact h₂
  | cons hle _ ih =>
    obtain ⟨z, zs, hle', htail, rfl⟩ := List.forall₂_cons_left_iff.1 h₂
    exact .cons (le_trans hle hle') (ih htail)

theorem forall₂_antisymm {xs ys : List β} (h₁ : List.Forall₂ (· ≤ ·) xs ys)
    (h₂ : List.Forall₂ (· ≤ ·) ys xs) : xs = ys := by
  induction h₁ with
  | nil => rfl
  | cons hle _ ih =>
    obtain ⟨hle', htail⟩ := List.forall₂_cons.1 h₂
    rw [le_antisymm hle hle', ih htail]

/-- Steps that add to the sets add to them one after the other. -/
theorem forall₂_foldl {step : List β → ρ → List β}
    (hstep : ∀ xs r, List.Forall₂ (· ≤ ·) xs (step xs r)) (rs : List ρ) (xs : List β) :
    List.Forall₂ (· ≤ ·) xs (rs.foldl step xs) := by
  induction rs generalizing xs with
  | nil => exact List.forall₂_refl xs
  | cons r rs ih => exact forall₂_trans (hstep xs r) (ih (step xs r))

/-- If the steps change nothing together, none of them does. -/
theorem foldl_fixed {step : List β → ρ → List β}
    (hstep : ∀ xs r, List.Forall₂ (· ≤ ·) xs (step xs r)) {rs : List ρ} {xs : List β}
    (h : rs.foldl step xs = xs) : ∀ r ∈ rs, step xs r = xs := by
  induction rs with
  | nil => simp
  | cons r rs ih =>
    rw [List.foldl_cons] at h
    -- what the first step adds, the others would have to take away
    have hback := forall₂_foldl hstep rs (step xs r)
    rw [h] at hback
    have hr : step xs r = xs := forall₂_antisymm hback (hstep xs r)
    rw [hr] at h
    intro r' hr'
    rcases List.mem_cons.1 hr' with rfl | hmem
    · exact hr
    · exact ih h r' hmem

/-! ### Passes that reach a fixed point -/

/-- Sets that are added to are larger in total, unless nothing has been added. -/
theorem sum_lt_of_forall₂ {weight : β → Nat} (hweight : StrictMono weight) {xs ys : List β}
    (h : List.Forall₂ (· ≤ ·) xs ys) (hne : xs ≠ ys) :
    (xs.map weight).sum < (ys.map weight).sum := by
  induction h with
  | nil => exact absurd rfl hne
  | @cons x y xs ys hle htail ih =>
    simp only [List.map_cons, List.sum_cons]
    by_cases hrest : xs = ys
    · have hlt : x < y := lt_of_le_of_ne hle fun heq => hne (by rw [heq, hrest])
      rw [hrest]
      exact Nat.add_lt_add_right (hweight hlt) _
    · exact Nat.add_lt_add_of_le_of_lt (hweight.monotone hle) (ih hrest)

/-- Bounded sets are bounded in total. -/
theorem sum_weight_le {β : Type} {weight : β → Nat} {xs : List β} {most : Nat}
    (h : ∀ x ∈ xs, weight x ≤ most) : (xs.map weight).sum ≤ xs.length * most := by
  have hone : ∀ w ∈ xs.map weight, w ≤ most := by
    intro w hw
    obtain ⟨x, hx, rfl⟩ := List.mem_map.1 hw
    exact h x hx
  have hsum := List.sum_le_card_nsmul _ _ hone
  rwa [List.length_map, Nat.nsmul_eq_mul] at hsum

/-- Passes that add to bounded sets reach a fixed point, if as many are allowed as can be added. -/
theorem settle_fixed [DecidableEq β] {f : List β → List β} {weight : β → Nat} {P : List β → Prop}
    {most bound : Nat} {xs : List β} (hweight : StrictMono weight)
    (hgrow : ∀ xs, List.Forall₂ (· ≤ ·) xs (f xs)) (hkeep : ∀ xs, P xs → P (f xs))
    (hmost : ∀ xs, P xs → (xs.map weight).sum ≤ most) (hxs : P xs)
    (hbound : most < bound + (xs.map weight).sum) : f (settle f bound xs) = settle f bound xs := by
  induction bound generalizing xs with
  | zero => exact absurd (hmost xs hxs) (by omega)
  | succ bound ih =>
    rw [settle_succ]
    split
    · assumption
    · next hne =>
      -- a pass that changes something uses up one of the passes, and adds one at least
      have hlt := sum_lt_of_forall₂ hweight (hgrow xs) (Ne.symm hne)
      exact ih (hkeep xs hxs) (by omega)

end Analysis
end ArithFrontEnd
