import Mathlib.Data.List.Basic
import Mathlib.Data.List.Nodup

/-!
# First occurrences

`List.eraseDups` leaves of every element the first occurrence.  So what is left comes in the order
of first appearance, and each element once.

## Main results

* `eraseDups_induction` — what holds of the rest without the first element holds with it.
* `nodup_eraseDups`, `eraseDups_of_nodup` — each element is left once.
* `eraseDups_concat` — what comes last is left if it has not come before.
* `eraseDups_filter`, `eraseDups_map` — **elements are left out and renamed before or after.**
* `eraseDups_append_congr`, `eraseDups_flatMap_congr` — what is left of parts that are put together.
* `eraseDups_flatMap_replicate` — elements that are repeated in place.
* `takeWhile_ne_map` — what comes before the first occurrence of an element.
-/

namespace ArithFrontEnd

variable {α β : Type} [BEq α] [LawfulBEq α] [BEq β] [LawfulBEq β]

omit [LawfulBEq α] in
/-- The induction along first occurrences: the first element is taken out of the rest. -/
theorem eraseDups_induction {motive : List α → Prop} (nil : motive [])
    (cons : ∀ a l, motive (l.filter fun b => !b == a) → motive (a :: l)) : ∀ l, motive l
  | [] => nil
  | a :: l => cons a l (eraseDups_induction nil cons _)
termination_by l => l.length
decreasing_by exact Nat.lt_succ_of_le (List.length_filter_le _ l)

theorem nodup_eraseDups (l : List α) : l.eraseDups.Nodup := by
  induction l using eraseDups_induction with
  | nil => simp
  | cons a l ih =>
    rw [List.eraseDups_cons, List.nodup_cons]
    exact ⟨by simp, ih⟩

theorem eraseDups_of_nodup {l : List α} (h : l.Nodup) : l.eraseDups = l := by
  induction l with
  | nil => rfl
  | cons a l ih =>
    obtain ⟨hnot, hl⟩ := List.nodup_cons.1 h
    have hkeep : (l.filter fun b => !b == a) = l := by
      refine List.filter_eq_self.2 fun b hb => ?_
      have hne : b ≠ a := fun heq => hnot (heq ▸ hb)
      simpa using hne
    rw [List.eraseDups_cons, hkeep, ih hl]

/-- What comes last is left if it has not come before. -/
theorem eraseDups_concat {α : Type} [DecidableEq α] (l : List α) (a : α) :
    (l ++ [a]).eraseDups =
      if a ∈ l.eraseDups then l.eraseDups else l.eraseDups ++ [a] := by
  rw [List.eraseDups_append]
  by_cases h : a ∈ l <;> simp [h, List.removeAll, List.eraseDups_cons]

/-- Elements may be left out before or after. -/
theorem eraseDups_filter (p : α → Bool) (l : List α) :
    (l.filter p).eraseDups = l.eraseDups.filter p := by
  induction l using eraseDups_induction with
  | nil => rfl
  | cons a l ih =>
    rw [List.filter_filter] at ih
    rw [List.eraseDups_cons]
    by_cases ha : p a = true
    · rw [List.filter_cons_of_pos ha, List.filter_cons_of_pos ha, List.eraseDups_cons,
        List.filter_filter, ← ih]
      simp only [Bool.and_comm]
    · rw [List.filter_cons_of_neg ha, List.filter_cons_of_neg ha, ← ih]
      -- what is left out is no `a` anyway
      refine congrArg List.eraseDups (List.filter_congr fun b _ => ?_)
      by_cases hb : b = a
      · simp [hb, ha]
      · simp [hb]

/-- Of two lists one behind the other, what matters is what is left of each. -/
theorem eraseDups_append_congr {a a' b b' : List α} (ha : a.eraseDups = a'.eraseDups)
    (hb : b.eraseDups = b'.eraseDups) : (a ++ b).eraseDups = (a' ++ b').eraseDups := by
  have hmem : ∀ c, c ∈ a ↔ c ∈ a' := fun c => by
    rw [← List.mem_eraseDups, ha, List.mem_eraseDups]
  have hremove : b.removeAll a = b.filter fun c => !a.contains c := rfl
  have hremove' : b'.removeAll a' = b'.filter fun c => !a'.contains c := rfl
  rw [List.eraseDups_append, List.eraseDups_append, hremove, hremove', eraseDups_filter,
    eraseDups_filter, ha, hb]
  refine congrArg _ (List.filter_congr fun c _ => ?_)
  simp [hmem c]

theorem eraseDups_flatMap_congr {γ : Type} {l : List γ} {f g : γ → List α}
    (h : ∀ c ∈ l, (f c).eraseDups = (g c).eraseDups) :
    (l.flatMap f).eraseDups = (l.flatMap g).eraseDups := by
  induction l with
  | nil => rfl
  | cons c l ih =>
    rw [List.flatMap_cons, List.flatMap_cons]
    exact eraseDups_append_congr (h c List.mem_cons_self)
      (ih fun d hd => h d (List.mem_cons_of_mem c hd))

/-- An element that comes first may be repeated before each of the parts that follow. -/
theorem eraseDups_cons_flatMap {γ : Type} (a : α) (c : γ) (l : List γ) (f : γ → List α) :
    (a :: (c :: l).flatMap f).eraseDups = ((c :: l).flatMap fun d => a :: f d).eraseDups := by
  have hrest : ((l.flatMap fun d => a :: f d).filter fun b => !b == a) =
      (l.flatMap f).filter fun b => !b == a := by
    rw [List.filter_flatMap, List.filter_flatMap]
    exact List.flatMap_congr fun d _ => List.filter_cons_of_neg (by simp)
  rw [List.flatMap_cons, List.flatMap_cons, List.cons_append, List.eraseDups_cons,
    List.eraseDups_cons, List.filter_append, List.filter_append, hrest]

/-- Elements may be renamed before or after, if different ones stay different. -/
theorem eraseDups_map {f : α → β} {l : List α} (hf : ∀ a ∈ l, ∀ b ∈ l, f a = f b → a = b) :
    (l.map f).eraseDups = l.eraseDups.map f := by
  induction l using eraseDups_induction with
  | nil => rfl
  | cons a l ih =>
    have hmem : ∀ b ∈ l.filter fun b => !b == a, b ∈ a :: l := fun b hb =>
      List.mem_cons_of_mem a (List.mem_filter.1 hb).1
    have hfilter : l.filter ((fun c => !c == f a) ∘ f) = l.filter fun b => !b == a := by
      refine List.filter_congr fun b hb => ?_
      by_cases heq : b = a
      · simp [heq]
      · have hne : f b ≠ f a := fun h => heq (hf b (by simp [hb]) a (by simp) h)
        simp [heq, hne]
    rw [List.map_cons, List.eraseDups_cons, List.eraseDups_cons, List.map_cons, List.filter_map,
      hfilter, ih fun b hb c hc => hf b (hmem b hb) c (hmem c hc)]

/-- Of elements that are repeated in place, those are left that are there at all. -/
theorem eraseDups_flatMap_replicate {l : List α} (hl : l.Nodup) (count : α → Nat) :
    (l.flatMap fun a => List.replicate (count a) a).eraseDups = l.filter fun a => count a ≠ 0 := by
  induction l with
  | nil => rfl
  | cons a l ih =>
    obtain ⟨hnot, hl'⟩ := List.nodup_cons.1 hl
    rw [List.flatMap_cons]
    cases hcount : count a with
    | zero =>
      rw [List.replicate_zero, List.nil_append, ih hl', List.filter_cons_of_neg (by simp [hcount])]
    | succ n =>
      have hlater : ∀ b ∈ l.flatMap fun a => List.replicate (count a) a, b ≠ a := by
        rintro b hb rfl
        obtain ⟨c, hc, hbc⟩ := List.mem_flatMap.1 hb
        exact hnot (List.eq_of_mem_replicate hbc ▸ hc)
      have hrest : ((List.replicate n a ++ l.flatMap fun a => List.replicate (count a) a).filter
          fun b => !b == a) = l.flatMap fun a => List.replicate (count a) a := by
        rw [List.filter_append, List.filter_eq_nil_iff.2 fun b hb => ?_,
          List.filter_eq_self.2 fun b hb => ?_, List.nil_append]
        · simpa using hlater b hb
        · simpa using List.eq_of_mem_replicate hb
      rw [List.replicate_succ, List.cons_append, List.eraseDups_cons, hrest, ih hl',
        List.filter_cons_of_pos (by simp [hcount])]

/-- What comes before an element comes before it when all are renamed, if it is not confused with
others. -/
theorem takeWhile_ne_map {α β : Type} [DecidableEq α] [DecidableEq β] {f : α → β} {l : List α}
    {a : α} (hf : ∀ b ∈ l, f b = f a → b = a) :
    (l.map f).takeWhile (· ≠ f a) = (l.takeWhile (· ≠ a)).map f := by
  induction l with
  | nil => rfl
  | cons b l ih =>
    rw [List.map_cons, List.takeWhile_cons, List.takeWhile_cons,
      ih fun c hc => hf c (List.mem_cons_of_mem b hc)]
    by_cases hb : b = a
    · simp [hb]
    · have hne : f b ≠ f a := fun h => hb (hf b (by simp) h)
      simp [hb, hne]

end ArithFrontEnd
