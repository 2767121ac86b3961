import ArithFrontEnd.Arithmetic.Numeral
import ArithFrontEnd.Optimizer.Linearize
import Mathlib.Data.List.Nodup

/-!
# Fresh names

A node that needs a name of its own gets the name that messages use for it, with marks after it
until no name of the block is like it.  Such names are told apart by the number of their node,
whatever marks they have, and no operand can mistake them for a numeral.

## Main definitions

* `Dag.marked` — the text of a node with a number of marks.
* `IsFreshName` — names of that form.

## Main results

* `lookup_freshName` — a fresh name is not bound.
* `freshName_inj` — **different nodes have different fresh names.**
* `value?_freshName` — a fresh name is not a numeral.
-/

namespace ArithFrontEnd
namespace Dag

/-- The text of a node with marks after it. -/
def marked (name : String) (marks : Nat) : String :=
  name ++ String.ofList (List.replicate marks '\'')

@[simp] theorem marked_zero (name : String) : marked name 0 = name := by simp [marked]

theorem marked_succ (name : String) (marks : Nat) :
    marked name (marks + 1) = marked (name ++ "'") marks := by
  apply String.toList_inj.1
  simp [marked, String.toList_append, List.replicate_succ]

theorem toList_marked (name : String) (marks : Nat) :
    (marked name marks).toList = name.toList ++ List.replicate marks '\'' := by
  simp [marked, String.toList_append]

theorem marked_right_inj {name : String} {i j : Nat} (h : marked name i = marked name j) :
    i = j := by
  have hlen := congrArg (fun s => s.toList.length) h
  simpa [toList_marked] using hlen

/-- A marked name is the name with some marks. -/
theorem mark_eq_marked (taken : List String) (bound : Nat) (name : String) :
    ∃ marks, mark taken bound name = marked name marks := by
  induction bound generalizing name with
  | zero => exact ⟨0, by simp [mark]⟩
  | succ bound ih =>
    rw [mark]
    split
    · obtain ⟨marks, hmarks⟩ := ih (name ++ "'")
      exact ⟨marks + 1, by rw [hmarks, marked_succ]⟩
    · exact ⟨0, by simp⟩

/-- Marking ends in a name that is taken only if every shorter one is taken as well. -/
theorem mem_of_mark_mem {taken : List String} {bound : Nat} {name : String}
    (h : mark taken bound name ∈ taken) : ∀ marks ≤ bound, marked name marks ∈ taken := by
  induction bound generalizing name with
  | zero =>
    intro marks hle
    obtain rfl : marks = 0 := by omega
    simpa [mark] using h
  | succ bound ih =>
    rw [mark] at h
    split at h
    · next hcontains =>
      intro marks hle
      cases marks with
      | zero => simpa using hcontains
      | succ marks =>
        rw [marked_succ]
        exact ih h marks (by omega)
    · next hfree =>
      exact absurd (List.contains_iff_mem.2 h) hfree

/-- With as many marks allowed as there are names, a free one is found. -/
theorem mark_not_mem (taken : List String) (name : String) :
    mark taken taken.length name ∉ taken := by
  intro hmem
  -- otherwise there would be one more marked name than there are names
  have hall := mem_of_mark_mem hmem
  let candidates := (List.range (taken.length + 1)).map (marked name)
  have hnodup : candidates.Nodup :=
    List.nodup_range.map fun i j h => marked_right_inj h
  have hsub : candidates ⊆ taken := by
    intro x hx
    obtain ⟨marks, hmarks, rfl⟩ := List.mem_map.1 hx
    exact hall marks (by rw [List.mem_range] at hmarks; omega)
  have hlen := hnodup.length_le_of_subset hsub
  simp only [candidates, List.length_map, List.length_range] at hlen
  omega

/-- A bound name is among the taken ones. -/
theorem lookup_eq_none_of_not_mem {d : Dag} {name : String}
    (h : name ∉ d.bindings.map (·.1)) : d.lookup name = none := by
  rw [lookup, List.lookup_eq_none_iff]
  intro binding hmem
  exact bne_iff_ne.2 fun heq => h (List.mem_map.2 ⟨binding, hmem, heq.symm⟩)

/-- A fresh name is not bound. -/
theorem lookup_freshName (d : Dag) (id : NodeId) : d.lookup (d.freshName id) = none :=
  lookup_eq_none_of_not_mem (mark_not_mem (d.bindings.map (·.1)) (NodeId.text id))

theorem freshName_eq_marked (d : Dag) (id : NodeId) :
    ∃ marks, d.freshName id = marked (NodeId.text id) marks := mark_eq_marked ..

/-! ### The form of fresh names -/

theorem toList_nodeText (id : NodeId) : (NodeId.text id).toList = '$' :: Nat.toDigits 10 id := by
  have hdollar : (toString "$").toList = ['$'] := rfl
  simp [NodeId.text, String.toList_append, hdollar]

/-- The digits of a marked node text end where the marks begin. -/
theorem takeWhile_marked_nodeText (id : NodeId) (marks : Nat) :
    ((marked (NodeId.text id) marks).toList.drop 1).takeWhile Char.isDigit =
      Nat.toDigits 10 id := by
  rw [toList_marked, toList_nodeText, List.cons_append, List.drop_succ_cons, List.drop_zero,
    List.takeWhile_append_of_pos fun c hc => Nat.isDigit_of_mem_toDigits (by omega) (by omega) hc]
  cases marks with
  | zero => simp
  | succ marks => simp [List.replicate_succ, Char.isDigit]

theorem marked_nodeText_inj {i j : NodeId} {m n : Nat}
    (h : marked (NodeId.text i) m = marked (NodeId.text j) n) : i = j := by
  have hdigits : Nat.toDigits 10 i = Nat.toDigits 10 j := by
    rw [← takeWhile_marked_nodeText i m, h, takeWhile_marked_nodeText]
  have hvalue := congrArg (fun ds => Nat.ofDigitChars 10 ds 0) hdigits
  simpa using hvalue

/-- Different nodes have different fresh names. -/
theorem freshName_inj {d : Dag} {i j : NodeId} (h : d.freshName i = d.freshName j) : i = j := by
  obtain ⟨m, hm⟩ := d.freshName_eq_marked i
  obtain ⟨n, hn⟩ := d.freshName_eq_marked j
  exact marked_nodeText_inj (hm ▸ hn ▸ h)

/-- Reading digits stops at a character that is none. -/
theorem readDigits_cons_of_not_digit {negative : Bool} {v : Value} {c : Char} (cs : List Char)
    (hdigit : c.isDigit = false) :
    Numeral.readDigits negative v (c :: cs) = .error .invalidDigit := by
  rw [Numeral.readDigits, Numeral.digit?, hdigit]
  simp

/-- A text that begins with a character that is neither a sign nor a digit is no numeral. -/
theorem value?_eq_none_of_head {text : String} {c : Char} {cs : List Char}
    (htext : text.toList = c :: cs) (hplus : c ≠ '+') (hminus : c ≠ '-')
    (hdigit : c.isDigit = false) : Numeral.value? text = none := by
  have hread : Numeral.read text = .error .invalidDigit := by
    rw [Numeral.read, htext]
    split
    · contradiction
    · next heq => exact absurd (List.cons.inj heq).1 hplus
    · next heq => exact absurd (List.cons.inj heq).1 hminus
    · next heq => rw [← heq, readDigits_cons_of_not_digit cs hdigit]
  rw [Numeral.value?, hread]
  rfl

/-- A fresh name is not a numeral. -/
theorem value?_freshName (d : Dag) (id : NodeId) : Numeral.value? (d.freshName id) = none := by
  obtain ⟨marks, hmarks⟩ := d.freshName_eq_marked id
  have htext : (d.freshName id).toList =
      '$' :: (Nat.toDigits 10 id ++ List.replicate marks '\'') := by
    rw [hmarks, toList_marked, toList_nodeText, List.cons_append]
  exact value?_eq_none_of_head htext (by decide) (by decide) (by decide)

end Dag

/-- Names of the form `$n`, perhaps with marks after it. -/
def IsFreshName (name : String) : Prop :=
  ∃ (id : NodeId) (marks : Nat), name = Dag.marked (NodeId.text id) marks

theorem isFreshName_freshName (d : Dag) (id : NodeId) : IsFreshName (d.freshName id) := by
  obtain ⟨marks, hmarks⟩ := d.freshName_eq_marked id
  exact ⟨id, marks, hmarks⟩

end ArithFrontEnd
