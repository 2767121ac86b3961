import ArithFrontEnd.Grammar.Symbol

/-!
# Sets of terminals

A set of terminals is kept as the list of its numbers in ascending order, each once. So a set has
one representation, and equal sets are equal.

## Main definitions

* `TerminalSet` — the sets.
* `TerminalSet.insert`, `TerminalSet.union`, `TerminalSet.ofList` — how sets are made.

## Main results

* `TerminalSet.ext` — **sets with the same elements are equal**.
* `TerminalSet.mem_insert`, `TerminalSet.mem_union`, `TerminalSet.mem_ofList` — the elements of a
  set that has been made.
-/

namespace ArithFrontEnd

/-- A set of terminals. -/
structure TerminalSet where
  /-- The elements in ascending order. -/
  ids : List TerminalId
  /-- Every element is less than those after it. -/
  ascending : ids.Pairwise (· < ·)
  deriving DecidableEq, Repr

namespace TerminalSet

/-- Put a number into its place in an ascending list, unless it is there. -/
def insertId (t : TerminalId) : List TerminalId → List TerminalId
  | [] => [t]
  | u :: us => if t < u then t :: u :: us else if t = u then u :: us else u :: insertId t us

@[simp] theorem mem_insertId {t u : TerminalId} {ids : List TerminalId} :
    u ∈ insertId t ids ↔ u = t ∨ u ∈ ids := by
  induction ids with
  | nil => simp [insertId]
  | cons v vs ih =>
    unfold insertId
    split
    · simp
    · split
      · next h => subst h; simp
      · simp [ih, or_left_comm]

theorem pairwise_insertId {t : TerminalId} {ids : List TerminalId}
    (h : ids.Pairwise (· < ·)) : (insertId t ids).Pairwise (· < ·) := by
  induction ids with
  | nil => simp [insertId]
  | cons v vs ih =>
    obtain ⟨hv, hvs⟩ := List.pairwise_cons.1 h
    unfold insertId
    split
    · next lt =>
      refine List.pairwise_cons.2 ⟨fun w hw => ?_, h⟩
      rcases List.mem_cons.1 hw with rfl | hw
      · exact lt
      · exact Nat.lt_trans lt (hv w hw)
    · next not_lt =>
      split
      · exact h
      · next ne =>
        refine List.pairwise_cons.2 ⟨fun w hw => ?_, ih hvs⟩
        rcases mem_insertId.1 hw with rfl | hw
        · exact Nat.lt_of_le_of_ne (Nat.le_of_not_lt not_lt) (Ne.symm ne)
        · exact hv w hw

instance : Membership TerminalId TerminalSet := ⟨fun s t => t ∈ s.ids⟩

instance (t : TerminalId) (s : TerminalSet) : Decidable (t ∈ s) :=
  inferInstanceAs (Decidable (t ∈ s.ids))

theorem mem_def {t : TerminalId} {s : TerminalSet} : t ∈ s ↔ t ∈ s.ids := Iff.rfl

/-- The set without elements. -/
def empty : TerminalSet := ⟨[], List.Pairwise.nil⟩

/-- The set with one more element. -/
def insert (s : TerminalSet) (t : TerminalId) : TerminalSet :=
  ⟨insertId t s.ids, pairwise_insertId s.ascending⟩

/-- The set with the elements of a list as well. -/
def insertAll (s : TerminalSet) (ts : List TerminalId) : TerminalSet := ts.foldl insert s

/-- The elements of both sets. -/
def union (s u : TerminalSet) : TerminalSet := s.insertAll u.ids

/-- The set of the elements of a list. -/
def ofList (ts : List TerminalId) : TerminalSet := empty.insertAll ts

/-- The number of elements. -/
def size (s : TerminalSet) : Nat := s.ids.length

/-- The set has no elements. -/
def isEmpty (s : TerminalSet) : Bool := s.ids.isEmpty

@[simp] theorem not_mem_empty {t : TerminalId} : ¬ t ∈ empty := by simp [mem_def, empty]

@[simp] theorem mem_insert {t u : TerminalId} {s : TerminalSet} :
    u ∈ s.insert t ↔ u = t ∨ u ∈ s := mem_insertId

@[simp] theorem mem_insertAll {t : TerminalId} {s : TerminalSet} {ts : List TerminalId} :
    t ∈ s.insertAll ts ↔ t ∈ s ∨ t ∈ ts := by
  induction ts generalizing s with
  | nil => simp [insertAll]
  | cons u us ih =>
    have step : s.insertAll (u :: us) = (s.insert u).insertAll us := rfl
    rw [step, ih, mem_insert, List.mem_cons, or_assoc, or_left_comm]

@[simp] theorem mem_union {t : TerminalId} {s u : TerminalSet} :
    t ∈ s.union u ↔ t ∈ s ∨ t ∈ u := mem_insertAll

@[simp] theorem mem_ofList {t : TerminalId} {ts : List TerminalId} : t ∈ ofList ts ↔ t ∈ ts := by
  simp [ofList]

/-- Ascending lists with the same members are equal. -/
theorem eq_of_mem_iff {as bs : List TerminalId} (ha : as.Pairwise (· < ·))
    (hb : bs.Pairwise (· < ·)) (h : ∀ t, t ∈ as ↔ t ∈ bs) : as = bs := by
  induction as generalizing bs with
  | nil =>
    cases bs with
    | nil => rfl
    | cons b bs => exact absurd ((h b).2 List.mem_cons_self) List.not_mem_nil
  | cons a as ih =>
    cases bs with
    | nil => exact absurd ((h a).1 List.mem_cons_self) List.not_mem_nil
    | cons b bs =>
      obtain ⟨ha₁, ha₂⟩ := List.pairwise_cons.1 ha
      obtain ⟨hb₁, hb₂⟩ := List.pairwise_cons.1 hb
      have ab : a = b := by
        rcases List.mem_cons.1 ((h a).1 List.mem_cons_self) with e | m
        · exact e
        · rcases List.mem_cons.1 ((h b).2 List.mem_cons_self) with e | m'
          · exact e.symm
          · exact absurd (hb₁ a m) (Nat.lt_asymm (ha₁ b m'))
      subst ab
      refine congrArg _ (ih ha₂ hb₂ fun t => ⟨fun m => ?_, fun m => ?_⟩)
      · rcases List.mem_cons.1 ((h t).1 (List.mem_cons_of_mem _ m)) with e | m'
        · exact absurd (ha₁ t m) (e ▸ Nat.lt_irrefl _)
        · exact m'
      · rcases List.mem_cons.1 ((h t).2 (List.mem_cons_of_mem _ m)) with e | m'
        · exact absurd (hb₁ t m) (e ▸ Nat.lt_irrefl _)
        · exact m'

/-- Sets with the same elements are equal. -/
@[ext] theorem ext {s u : TerminalSet} (h : ∀ t, t ∈ s ↔ t ∈ u) : s = u := by
  obtain ⟨as, ha⟩ := s
  obtain ⟨bs, hb⟩ := u
  have eq : as = bs := eq_of_mem_iff ha hb h
  subst eq
  rfl

end TerminalSet

end ArithFrontEnd
