import ArithFrontEnd.Proofs.Arithmetic.NumeralText
import ArithFrontEnd.Proofs.Optimizer.Coherence
import ArithFrontEnd.Proofs.Optimizer.FreshNames

/-!
# The names that nodes are read under

When the block of a graph is written, a constant is read as a numeral, a value on entry under the
name itself or the name it is kept under, and an operator under its first name, or a fresh one if it
has none.  A node is read if a node that is computed needs it, or if it has a name.

## Main definitions

* `Dag.Owns` — the names of a node, its fresh name included.
* `Dag.IsRead` — the block reads the node.
* `Dag.neededBy` — the operands that some of the nodes need.

## Main results

* `Owns.unique` — **a name belongs to one node.**
* `owns_nameOf_operator`, `owns_of_surrogate?` — the names that are made up belong to their nodes.
* `operands_mem_needed` — what a node that is computed needs is needed.
-/

namespace ArithFrontEnd
namespace Dag

variable {d : Dag} {id : NodeId}

/-- A name of a node: it is bound to the node, or is the fresh name for it. -/
def Owns (d : Dag) (name : String) (id : NodeId) : Prop :=
  d.lookup name = some id ∨ name = d.freshName id

/-- A name belongs to one node. -/
theorem Owns.unique {name : String} {i j : NodeId} (hi : d.Owns name i) (hj : d.Owns name j) :
    i = j := by
  rcases hi with hi | rfl <;> rcases hj with hj | hj
  · exact Option.some.inj (hi.symm.trans hj)
  · rw [hj, lookup_freshName] at hi
    contradiction
  · rw [lookup_freshName] at hj
    contradiction
  · exact freshName_inj hj

/-- A name of a node is no numeral. -/
theorem Owns.value?_eq_none {name : String} {id : NodeId} (hd : d.Coherent) (h : d.Owns name id) :
    Numeral.value? name = none := by
  rcases h with h | rfl
  · exact hd.not_numeral h
  · exact value?_freshName d id

theorem Coherent.owns {name : String} {id : NodeId} (hd : d.Coherent) (h : name ∈ d.namesAt id) :
    d.Owns name id := Or.inl (hd.bound_of_named h)

/-- The block reads the node: another one needs it, or it has a name. -/
def IsRead (d : Dag) (id : NodeId) : Prop := id ∈ d.needed ∨ d.namesAt id ≠ []

theorem node?_of_valueAt? {value : NodeValue} (h : d.valueAt? id = some value) :
    d.node? id = some ⟨d.namesAt id, value, d.literalAt? id⟩ := by
  obtain ⟨node, hnode, rfl⟩ := Option.map_eq_some_iff.1 h
  simp [namesAt, literalAt?, hnode]

theorem surrogate?_constant {v : Value} (h : d.valueAt? id = some (.constant v))
    (needed : List NodeId) : d.surrogate? needed id = none := by
  simp [surrogate?, node?_of_valueAt? h]

theorem surrogate?_identifier {name : String} (h : d.valueAt? id = some (.identifier name))
    (needed : List NodeId) :
    d.surrogate? needed id =
      if d.isOverwritten needed id name (d.namesAt id)
      then some (d.snapshotName id (d.namesAt id)) else none := by
  rw [surrogate?, node?_of_valueAt? h]

theorem nameOf_constant {v : Value} (h : d.valueAt? id = some (.constant v))
    (needed : List NodeId) : d.nameOf needed id = (d.literalAt? id).getD v.text := by
  rw [nameOf, surrogate?_constant h, node?_of_valueAt? h]

/-- A constant is read as a numeral of its value. -/
theorem value?_nameOf_constant (hd : d.Coherent) {v : Value}
    (h : d.valueAt? id = some (.constant v)) (needed : List NodeId) :
    Numeral.value? (d.nameOf needed id) = some v := by
  rw [nameOf_constant h]
  cases hliteral : d.literalAt? id with
  | none => exact Numeral.value?_text v
  | some literal => exact hd.literal_value h hliteral

theorem nameOf_identifier {name : String} (h : d.valueAt? id = some (.identifier name))
    (needed : List NodeId) :
    d.nameOf needed id = (d.surrogate? needed id).getD name := by
  rw [nameOf, node?_of_valueAt? h]
  cases d.surrogate? needed id <;> rfl

/-- An operator that is read has a name of its own or stands in with a fresh one. -/
theorem firstName_operator {op : String} {left right : NodeId}
    (h : d.valueAt? id = some (.operator op left right)) (hread : d.IsRead id) :
    ((d.namesAt id).head? <|> d.surrogate? d.needed id) = some (d.nameOf d.needed id) := by
  have hnode := node?_of_valueAt? h
  cases hnames : d.namesAt id with
  | nil =>
    have hneeded : id ∈ d.needed := hread.resolve_right (by simp [hnames])
    simp [nameOf, surrogate?, hnode, hnames, hneeded]
  | cons first others => simp [nameOf, surrogate?, hnode, hnames]

/-- The name of an operator that is read is one of its names. -/
theorem owns_nameOf_operator (hd : d.Coherent) {op : String} {left right : NodeId}
    (h : d.valueAt? id = some (.operator op left right)) (hread : d.IsRead id) :
    d.Owns (d.nameOf d.needed id) id := by
  have hnode := node?_of_valueAt? h
  cases hnames : d.namesAt id with
  | nil =>
    have hneeded : id ∈ d.needed := hread.resolve_right (by simp [hnames])
    refine Or.inr ?_
    simp [nameOf, surrogate?, hnode, hnames, hneeded]
  | cons first others =>
    have hfirst : d.nameOf d.needed id = first := by simp [nameOf, surrogate?, hnode, hnames]
    rw [hfirst]
    exact hd.owns (by simp [hnames])

/-! ### Values on entry that are kept -/

/-- The name that a value on entry is kept under belongs to its node. -/
theorem owns_snapshotName (hd : d.Coherent) (id : NodeId) :
    d.Owns (d.snapshotName id (d.namesAt id)) id := by
  unfold snapshotName
  cases hnames : d.namesAt id with
  | nil => exact Or.inr rfl
  | cons first others =>
    simp only [List.head?_cons]
    split
    · exact Or.inr rfl
    · exact hd.owns (by simp [hnames])

theorem isInitiallyRead_iff {name : String} :
    d.isInitiallyRead name = true ↔ ∃ id, d.valueAt? id = some (.identifier name) := by
  rw [isInitiallyRead, List.any_eq_true]
  constructor
  · rintro ⟨node, hmem, hvalue⟩
    obtain ⟨id, hid⟩ := List.getElem?_of_mem hmem
    exact ⟨id, by simpa [valueAt?, node?, hid] using hvalue⟩
  · rintro ⟨id, h⟩
    exact ⟨_, List.mem_of_getElem? (node?_of_valueAt? h), by simp⟩

/-- The name that a value on entry is kept under is no name whose value on entry is read. -/
theorem snapshotName_ne_of_entry (hd : d.Coherent) {name : String} {j : NodeId}
    (h : d.valueAt? j = some (.identifier name)) (id : NodeId) :
    d.snapshotName id (d.namesAt id) ≠ name := by
  have hfresh : d.freshName id ≠ name := by
    rintro rfl
    exact hd.bound_of_entry h (lookup_freshName d id)
  unfold snapshotName
  split
  · split
    · exact hfresh
    · next hread =>
      rintro rfl
      exact hread (isInitiallyRead_iff.2 ⟨j, h⟩)
  · exact hfresh

theorem isOverwritten_iff {name : String} :
    d.isOverwritten d.needed id name (d.namesAt id) = true ↔
      d.IsRead id ∧ d.lookup name ≠ some id := by
  simp [isOverwritten, IsRead]

/-- A value on entry is kept if it is read and its name gets another value. -/
theorem surrogate?_eq_some_iff {name kept : String}
    (h : d.valueAt? id = some (.identifier name)) :
    d.surrogate? d.needed id = some kept ↔
      (d.IsRead id ∧ d.lookup name ≠ some id) ∧ d.snapshotName id (d.namesAt id) = kept := by
  rw [surrogate?_identifier h, ← isOverwritten_iff]
  split <;> simp [*]

/-- A value on entry that is that of its name to the end is not kept. -/
theorem surrogate?_eq_none_of_lookup {name : String}
    (h : d.valueAt? id = some (.identifier name)) (hlookup : d.lookup name = some id) :
    d.surrogate? d.needed id = none := by
  cases hkept : d.surrogate? d.needed id with
  | none => rfl
  | some kept => exact absurd hlookup ((surrogate?_eq_some_iff h).1 hkept).1.2

/-- A value on entry that is read and not kept is that of its name to the end. -/
theorem lookup_of_surrogate?_eq_none {name : String} (h : d.valueAt? id = some (.identifier name))
    (hread : d.IsRead id) (hnone : d.surrogate? d.needed id = none) : d.lookup name = some id := by
  by_contra hne
  have hkept := (surrogate?_eq_some_iff h).2 ⟨⟨hread, hne⟩, rfl⟩
  rw [hnone] at hkept
  contradiction

/-- The name that a value on entry is kept under belongs to its node. -/
theorem owns_of_surrogate? (hd : d.Coherent) {name kept : String}
    (h : d.valueAt? id = some (.identifier name)) (hkept : d.surrogate? d.needed id = some kept) :
    d.Owns kept id := ((surrogate?_eq_some_iff h).1 hkept).2 ▸ owns_snapshotName hd id

/-- A value on entry is kept under its first name, or a fresh one. -/
theorem head?_or_unbound_of_surrogate? {name kept : String}
    (h : d.valueAt? id = some (.identifier name)) (hkept : d.surrogate? d.needed id = some kept) :
    (d.namesAt id).head? = some kept ∨ d.lookup kept = none := by
  rw [← ((surrogate?_eq_some_iff h).1 hkept).2]
  unfold snapshotName
  split
  · next first hfirst =>
    split
    · exact Or.inr (lookup_freshName d id)
    · exact Or.inl hfirst
  · exact Or.inr (lookup_freshName d id)

/-- The name that a value on entry is kept under is no name whose value on entry is read. -/
theorem ne_of_surrogate? (hd : d.Coherent) {name kept other : String} {j : NodeId}
    (h : d.valueAt? id = some (.identifier name)) (hkept : d.surrogate? d.needed id = some kept)
    (hother : d.valueAt? j = some (.identifier other)) : kept ≠ other :=
  ((surrogate?_eq_some_iff h).1 hkept).2 ▸ snapshotName_ne_of_entry hd hother id

/-- What is kept is the value of a node on entry, under the name that stands in for the node. -/
theorem snapshot?_eq_some_iff {needed : List NodeId} {p : String × String} :
    d.snapshot? needed id = some p ↔
      d.valueAt? id = some (.identifier p.1) ∧ d.surrogate? needed id = some p.2 := by
  obtain ⟨name, kept⟩ := p
  cases hnode : d.node? id with
  | none => simp [snapshot?, valueAt?, hnode]
  | some node =>
    obtain ⟨names, value, literal⟩ := node
    cases value with
    | constant v => simp [snapshot?, valueAt?, hnode]
    | identifier other => simp [snapshot?, valueAt?, hnode, and_comm]
    | operator op left right => simp [snapshot?, valueAt?, hnode]

theorem mem_snapshots_iff {p : String × String} :
    p ∈ d.snapshots ↔ ∃ id, d.valueAt? id = some (.identifier p.1) ∧
      d.surrogate? d.needed id = some p.2 := by
  simp only [snapshots, List.mem_filterMap, List.mem_range, snapshot?_eq_some_iff]
  constructor
  · rintro ⟨id, -, h⟩
    exact ⟨id, h⟩
  · rintro ⟨id, h⟩
    exact ⟨id, lt_length_of_valueAt? h.1, h⟩

/-! ### Operands that are needed -/

/-- The operands that some of the nodes need; the last of them is looked at first. -/
def neededBy (d : Dag) : List NodeId → List NodeId
  | [] => []
  | id :: ids =>
    match d.valueAt? id with
    | some (.operator _ left right) =>
      if d.namesAt id = [] ∧ id ∉ d.neededBy ids then d.neededBy ids
      else left :: right :: d.neededBy ids
    | _ => d.neededBy ids

theorem needed_eq (d : Dag) : d.needed = d.neededBy d.order := by
  unfold needed
  induction d.order with
  | nil => rfl
  | cons id ids ih =>
    rw [List.foldr_cons, ih, neededBy]
    cases hnode : d.node? id with
    | none => simp [valueAt?, hnode]
    | some node =>
      obtain ⟨names, value, literal⟩ := node
      have hnames : d.namesAt id = names := by simp [namesAt, hnode]
      have hvalue : d.valueAt? id = some value := by simp [valueAt?, hnode]
      rw [hvalue, hnames]
      cases value with
      | constant v => rfl
      | identifier name => rfl
      | operator op left right => simp

/-- What is needed by a node is an operand of it, or is needed by a later node. -/
theorem mem_neededBy_cons {ids : List NodeId} {j : NodeId} (h : j ∈ d.neededBy (id :: ids)) :
    (∃ op left right, d.valueAt? id = some (.operator op left right) ∧ (j = left ∨ j = right)) ∨
      j ∈ d.neededBy ids := by
  rw [neededBy] at h
  split at h
  · next op left right hvalue =>
    split at h
    · exact Or.inr h
    · rcases List.mem_cons.1 h with hj | h
      · exact Or.inl ⟨op, left, right, hvalue, Or.inl hj⟩
      · rcases List.mem_cons.1 h with hj | h
        · exact Or.inl ⟨op, left, right, hvalue, Or.inr hj⟩
        · exact Or.inr h
  · exact Or.inr h

theorem neededBy_subset_cons (ids : List NodeId) : d.neededBy ids ⊆ d.neededBy (id :: ids) := by
  intro j hj
  rw [neededBy]
  split
  · split
    · exact hj
    · simp [hj]
  · exact hj

theorem neededBy_subset_append (before ids : List NodeId) :
    d.neededBy ids ⊆ d.neededBy (before ++ ids) := by
  induction before with
  | nil => exact fun _ hj => hj
  | cons i before ih => exact fun _ hj => neededBy_subset_cons _ (ih hj)

/-- Only later nodes need an operator. -/
theorem mem_neededBy_of_append (hd : d.Coherent) {before ids : List NodeId} {j : NodeId}
    (hbefore : ∀ i ∈ before, d.IsOperator i → i < j)
    (h : j ∈ d.neededBy (before ++ ids)) : j ∈ d.neededBy ids := by
  induction before with
  | nil => exact h
  | cons i before ih =>
    rcases mem_neededBy_cons h with ⟨op, left, right, hi, hoperand⟩ | hlater
    · have hij := hbefore i (by simp) ⟨op, left, right, hi⟩
      obtain ⟨hleft, hright⟩ := hd.operands_lt hi
      rcases hoperand with rfl | rfl
      · exact absurd hij (Nat.lt_asymm hleft)
      · exact absurd hij (Nat.lt_asymm hright)
    · exact ih (fun i hi => hbefore i (by simp [hi])) hlater

/-- The operands of an operator that is read are needed. -/
theorem operands_mem_needed (hd : d.Coherent) {op : String} {left right : NodeId}
    (hmem : id ∈ d.order) (h : d.valueAt? id = some (.operator op left right))
    (hread : d.IsRead id) : left ∈ d.needed ∧ right ∈ d.needed := by
  obtain ⟨before, ids, horder⟩ := List.append_of_mem hmem
  have hsorted := hd.order_sorted
  rw [horder] at hsorted
  have hoperator : d.IsOperator id := ⟨op, left, right, h⟩
  -- whether the operator is computed is decided when all that can need it has been looked at
  have hcomputed : ¬ (d.namesAt id = [] ∧ id ∉ d.neededBy ids) := by
    rintro ⟨hnames, hnot⟩
    have hneeded : id ∈ d.needed := hread.resolve_right fun hne => hne hnames
    rw [needed_eq, horder] at hneeded
    have hbefore : ∀ i ∈ before, d.IsOperator i → i < id := fun i hi hop =>
      (List.pairwise_append.1 hsorted).2.2 i hi id (by simp) hop hoperator
    rcases mem_neededBy_cons (mem_neededBy_of_append hd hbefore hneeded) with
      ⟨op', left', right', h', hself⟩ | hlater
    · obtain ⟨hleft, hright⟩ := hd.operands_lt h'
      rcases hself with rfl | rfl
      · exact Nat.lt_irrefl _ hleft
      · exact Nat.lt_irrefl _ hright
    · exact hnot hlater
  have hhere : left ∈ d.neededBy (id :: ids) ∧ right ∈ d.neededBy (id :: ids) := by
    rw [neededBy, h]
    simp [hcomputed]
  rw [needed_eq, horder]
  exact ⟨neededBy_subset_append before _ hhere.1, neededBy_subset_append before _ hhere.2⟩

end Dag
end ArithFrontEnd
