import ArithFrontEnd.Proofs.Optimizer.Emission
import ArithFrontEnd.Proofs.Optimizer.Sharing

/-!
# The results of an optimized block

The block of a graph writes the names that values on entry are kept under, and for each node that is
listed its names, but for one that it is read under anyway.  A name belongs to one node, so that no
name is written twice.

## Main definitions

* `Dag.keptAt`, `Dag.resultsAt` — the names that are written for a node, at the top of the block and
  by the instructions of the node.

## Main results

* `resultsAt_operator`, `resultsAt_leaf` — which names the instructions of a node write.
* `nodup_results` — **the block of a graph writes every name once.**
* `filter_results` — the results that belong to a node.
-/

namespace ArithFrontEnd
namespace Dag

variable {d : Dag} {id : NodeId} {name : String}

/-- The name that the value of a node on entry is kept under, if it is kept. -/
def keptAt (d : Dag) (id : NodeId) : List String :=
  ((d.snapshot? d.needed id).map (·.2)).toList

/-- The names that the instructions of a node write. -/
def resultsAt (d : Dag) (id : NodeId) : List String :=
  (d.instructions d.needed id).map (·.result)

theorem results_eq (d : Dag) : d.linearize.map (·.result) =
    (List.range d.nodes.length).flatMap d.keptAt ++ d.order.flatMap d.resultsAt := by
  rw [results_linearize, snapshots, List.map_filterMap, List.filterMap_eq_flatMap_toList]
  rfl

/-! ### The names that are written for a node -/

theorem mem_keptAt_iff : name ∈ d.keptAt id ↔
    ∃ other, d.valueAt? id = some (.identifier other) ∧ d.surrogate? d.needed id = some name := by
  simp only [keptAt, Option.mem_toList, Option.map_eq_some_iff, snapshot?_eq_some_iff]
  constructor
  · rintro ⟨⟨other, kept⟩, h, rfl⟩
    exact ⟨other, h⟩
  · rintro ⟨other, h⟩
    exact ⟨(other, name), h, rfl⟩

theorem keptAt_of_surrogate? {other : String} (h : d.valueAt? id = some (.identifier other))
    (hkept : d.surrogate? d.needed id = some name) : d.keptAt id = [name] := by
  have hsnapshot : d.snapshot? d.needed id = some (other, name) :=
    snapshot?_eq_some_iff.2 ⟨h, hkept⟩
  rw [keptAt, hsnapshot]
  rfl

theorem keptAt_of_not_entry {value : NodeValue} (h : d.valueAt? id = some value)
    (hvalue : ∀ name, value ≠ .identifier name) : d.keptAt id = [] := by
  refine List.eq_nil_iff_forall_not_mem.2 fun name hmem => ?_
  obtain ⟨other, hother, -⟩ := mem_keptAt_iff.1 hmem
  exact hvalue other (Option.some.inj (h.symm.trans hother))

theorem keptAt_of_surrogate?_eq_none (hnone : d.surrogate? d.needed id = none) :
    d.keptAt id = [] := by
  refine List.eq_nil_iff_forall_not_mem.2 fun name hmem => ?_
  obtain ⟨other, -, hkept⟩ := mem_keptAt_iff.1 hmem
  rw [hnone] at hkept
  contradiction

/-- An operator that is read writes all its names, or the one that is made up. -/
theorem resultsAt_operator {op : String} {left right : NodeId}
    (h : d.valueAt? id = some (.operator op left right)) :
    (d.IsRead id ∧ d.resultsAt id = d.nameOf d.needed id :: (d.namesAt id).drop 1) ∨
      (¬ d.IsRead id ∧ d.resultsAt id = []) := by
  rcases instructions_operator h with ⟨hread, heq⟩ | ⟨hread, heq⟩
  · exact Or.inl ⟨hread, by rw [resultsAt, heq, List.map_cons, map_result_copies]⟩
  · exact Or.inr ⟨hread, by rw [resultsAt, heq]; rfl⟩

/-- A node that is no operator writes its names, but for the first if it is read under it. -/
theorem resultsAt_leaf (hlt : id < d.nodes.length) (h : ¬ d.IsOperator id) :
    d.resultsAt id =
      if (d.namesAt id).head? = some (d.nameOf d.needed id) then (d.namesAt id).drop 1
      else d.namesAt id := by
  rw [resultsAt, instructions_leaf hlt h]
  cases d.namesAt id with
  | nil => rfl
  | cons first others =>
    simp only [List.map_append, map_result_copies, List.head?_cons, Option.some.injEq,
      eq_comm (a := first)]
    split <;> rfl

/-- A constant is read as a numeral, and writes all its names. -/
theorem resultsAt_constant (hd : d.Coherent) {v : Value} (h : d.valueAt? id = some (.constant v)) :
    d.resultsAt id = d.namesAt id := by
  have hop : ¬ d.IsOperator id := not_isOperator_of_valueAt? h (by simp)
  rw [resultsAt_leaf (lt_length_of_valueAt? h) hop, if_neg]
  intro hhead
  have hbound := hd.bound_of_named (List.mem_of_head? hhead)
  have hnumeral := value?_nameOf_constant hd h d.needed
  rw [hd.not_numeral hbound] at hnumeral
  contradiction

theorem owns_of_mem_keptAt (hd : d.Coherent) (h : name ∈ d.keptAt id) : d.Owns name id := by
  obtain ⟨other, hvalue, hkept⟩ := mem_keptAt_iff.1 h
  exact owns_of_surrogate? hd hvalue hkept

theorem owns_of_mem_resultsAt (hd : d.Coherent) (hlt : id < d.nodes.length)
    (h : name ∈ d.resultsAt id) : d.Owns name id := by
  by_cases hop : d.IsOperator id
  · obtain ⟨op, left, right, hvalue⟩ := hop
    rcases resultsAt_operator hvalue with ⟨hread, heq⟩ | ⟨-, heq⟩
    · rw [heq] at h
      rcases List.mem_cons.1 h with rfl | hmem
      · exact owns_nameOf_operator hd hvalue hread
      · exact hd.owns (List.mem_of_mem_drop hmem)
    · rw [heq] at h
      cases h
  · rw [resultsAt_leaf hlt hop] at h
    split at h
    · exact hd.owns (List.mem_of_mem_drop h)
    · exact hd.owns h

theorem nodup_resultsAt (hr : d.Reduced) (hlt : id < d.nodes.length) : (d.resultsAt id).Nodup := by
  have hnames := hr.names_nodup id
  by_cases hop : d.IsOperator id
  · obtain ⟨op, left, right, hvalue⟩ := hop
    rcases resultsAt_operator hvalue with ⟨hread, heq⟩ | ⟨-, heq⟩
    · have hfirst := firstName_operator hvalue hread
      rw [heq]
      cases hnil : d.namesAt id with
      | nil => simp
      | cons first others =>
        -- the first name is the one that the operator is read under
        rw [hnil] at hfirst hnames
        have hname : d.nameOf d.needed id = first := by simpa using hfirst.symm
        rwa [hname]
    · rw [heq]
      exact List.nodup_nil
  · rw [resultsAt_leaf hlt hop]
    split
    · exact hnames.drop
    · exact hnames

/-- The first result of a node that is no operator is not the name that the node is read under. -/
theorem head?_resultsAt_ne (hr : d.Reduced) (hlt : id < d.nodes.length) (h : ¬ d.IsOperator id) :
    (d.resultsAt id).head? ≠ some (d.nameOf d.needed id) := by
  rw [resultsAt_leaf hlt h]
  split
  · next hhead =>
    have hnames := hr.names_nodup id
    intro hname
    cases hnil : d.namesAt id with
    | nil => simp [hnil] at hhead
    | cons first others =>
      rw [hnil] at hhead hname hnames
      obtain rfl := Option.some.inj hhead
      exact (List.nodup_cons.1 hnames).1 (List.mem_of_head? hname)
  · next hhead => exact hhead

/-- A node that is no operator is copied to its only result, if it has one. -/
theorem instructions_eq_copies (hlt : id < d.nodes.length) (h : ¬ d.IsOperator id)
    (hone : (d.resultsAt id).length ≤ 1) :
    d.instructions d.needed id = copies (d.nameOf d.needed id) (d.resultsAt id) := by
  rw [resultsAt_leaf hlt h] at hone ⊢
  rw [instructions_leaf hlt h]
  cases hnames : d.namesAt id with
  | nil => rfl
  | cons first others =>
    rw [hnames] at hone
    simp only [List.head?_cons, Option.some.injEq, eq_comm (a := first)] at hone ⊢
    split
    · next heq => rw [heq]; rfl
    · next hne =>
      rw [if_neg hne] at hone
      have hothers : others = [] :=
        List.length_eq_zero_iff.1 (Nat.le_zero.1 (Nat.le_of_succ_le_succ hone))
      rw [hothers]
      rfl

/-- The name that a value on entry is kept under is not written again. -/
theorem not_mem_resultsAt_of_mem_keptAt (hd : d.Coherent) (hr : d.Reduced)
    (h : name ∈ d.keptAt id) :
    name ∉ d.resultsAt id := by
  obtain ⟨other, hvalue, hkept⟩ := mem_keptAt_iff.1 h
  have hleaf : ¬ d.IsOperator id := not_isOperator_of_valueAt? hvalue (by simp)
  have hname : d.nameOf d.needed id = name := by rw [nameOf_identifier hvalue, hkept]; rfl
  have hnames := hr.names_nodup id
  intro hmem
  rw [resultsAt_leaf (lt_length_of_valueAt? hvalue) hleaf, hname] at hmem
  rcases head?_or_unbound_of_surrogate? hvalue hkept with hhead | hunbound
  · rw [if_pos hhead] at hmem
    cases hnil : d.namesAt id with
    | nil => simp [hnil] at hhead
    | cons first others =>
      rw [hnil] at hhead hmem hnames
      obtain rfl : first = name := by simpa using hhead
      exact (List.nodup_cons.1 hnames).1 hmem
  · have hbound : name ∈ d.namesAt id := by
      split at hmem
      · exact List.mem_of_mem_drop hmem
      · exact hmem
    rw [hd.bound_of_named hbound] at hunbound
    contradiction

/-- A node that has not been assigned has no name but that of its own value on entry, under which it
is read. -/
theorem resultsAt_of_not_mem_order (hd : d.Coherent) (hlisted : d.Listed) (hr : d.Reduced)
    (hlt : id < d.nodes.length) (h : id ∉ d.order) : d.resultsAt id = [] := by
  have hleaf : ¬ d.IsOperator id := fun hop => h (hlisted id hop)
  rw [resultsAt_leaf hlt hleaf]
  cases hnames : d.namesAt id with
  | nil => simp
  | cons first others =>
    have hentry : ∀ name ∈ d.namesAt id, d.valueAt? id = some (.identifier name) :=
      fun name hname => (hd.ordered_of_named hname).resolve_left h
    have hmem : first ∈ d.namesAt id := by simp [hnames]
    have hvalue := hentry first hmem
    have hothers : others = [] := by
      have hnodup := hr.names_nodup id
      rw [hnames] at hnodup
      refine List.eq_nil_iff_forall_not_mem.2 fun name hname => ?_
      have hvalue' := hentry name (by simp [hnames, hname])
      obtain rfl := NodeValue.identifier.inj (Option.some.inj (hvalue.symm.trans hvalue'))
      exact (List.nodup_cons.1 hnodup).1 hname
    have hnone := surrogate?_eq_none_of_lookup hvalue (hd.bound_of_named hmem)
    have hname : d.nameOf d.needed id = first := by rw [nameOf_identifier hvalue, hnone]; rfl
    simp [hothers, hname]

/-! ### All results -/

/-- Names that belong to different nodes are different. -/
theorem nodup_flatMap_of_owns {ids : List NodeId} {names : NodeId → List String}
    (hids : ids.Nodup) (hnodup : ∀ id ∈ ids, (names id).Nodup)
    (howns : ∀ id ∈ ids, ∀ name ∈ names id, d.Owns name id) : (ids.flatMap names).Nodup := by
  refine List.nodup_flatMap.2 ⟨hnodup, hids.imp_of_mem fun hi hj hne => ?_⟩
  exact fun name hmem hmem' => hne ((howns _ hi name hmem).unique (howns _ hj name hmem'))

/-- Of names that belong to nodes, those that belong to one node are the names for that node. -/
theorem filter_flatMap_of_owns {ids : List NodeId} {names : NodeId → List String}
    (hids : ids.Nodup) (howns : ∀ id ∈ ids, ∀ name ∈ names id, d.Owns name id)
    {p : String → Bool} (hp : ∀ name ∈ ids.flatMap names, p name = true ↔ d.Owns name id) :
    (ids.flatMap names).filter p = if id ∈ ids then names id else [] := by
  induction ids with
  | nil => rfl
  | cons i ids ih =>
    obtain ⟨hi, hids'⟩ := List.nodup_cons.1 hids
    rw [List.flatMap_cons, List.filter_append,
      ih hids' (fun j hj => howns j (List.mem_cons_of_mem i hj))
        fun name hmem => hp name (by simp only [List.flatMap_cons, List.mem_append, hmem, or_true])]
    have hhere : ∀ name ∈ names i, p name = true ↔ i = id := by
      intro name hmem
      have howns' := howns i (by simp) name hmem
      rw [hp name (by simp [hmem])]
      exact ⟨howns'.unique, fun heq => heq ▸ howns'⟩
    by_cases heq : i = id
    · subst heq
      rw [List.filter_eq_self.2 fun name hmem => (hhere name hmem).2 rfl, if_neg hi]
      simp
    · rw [List.filter_eq_nil_iff.2 fun name hmem => mt (hhere name hmem).1 heq]
      simp [Ne.symm heq]

/-- The names that are written for a node are results, and belong to the node. -/
theorem mem_results_of_mem_keptAt (hd : d.Coherent) (h : name ∈ d.keptAt id) :
    name ∈ d.linearize.map (·.result) ∧ d.Owns name id := by
  obtain ⟨other, hvalue, -⟩ := mem_keptAt_iff.1 h
  refine ⟨?_, owns_of_mem_keptAt hd h⟩
  rw [results_eq]
  have hid := List.mem_range.2 (lt_length_of_valueAt? hvalue)
  exact List.mem_append_left _ (List.mem_flatMap.2 ⟨id, hid, h⟩)

theorem mem_results_of_mem_resultsAt (hd : d.Coherent) (hlisted : d.Listed) (hr : d.Reduced)
    (hlt : id < d.nodes.length) (h : name ∈ d.resultsAt id) :
    name ∈ d.linearize.map (·.result) ∧ d.Owns name id := by
  refine ⟨?_, owns_of_mem_resultsAt hd hlt h⟩
  have horder : id ∈ d.order := by
    by_contra hnot
    rw [resultsAt_of_not_mem_order hd hlisted hr hlt hnot] at h
    cases h
  rw [results_eq]
  exact List.mem_append_right _ (List.mem_flatMap.2 ⟨id, horder, h⟩)

/-- A name whose value on entry is kept is written. -/
theorem mem_results_of_surrogate? (hd : d.Coherent) (hr : d.Reduced) {kept : String}
    (h : d.valueAt? id = some (.identifier name)) (hkept : d.surrogate? d.needed id = some kept) :
    name ∈ d.linearize.map (·.result) := by
  obtain ⟨i, hi⟩ := Option.ne_none_iff_exists'.1 (hd.bound_of_entry h)
  refine (mem_results_of_lookup hd hi).resolve_right fun hvalue => ?_
  obtain rfl := hr.unique hvalue h
  exact ((surrogate?_eq_some_iff h).1 hkept).1.2 hi

theorem nodup_keptAt (d : Dag) (id : NodeId) : (d.keptAt id).Nodup := by
  unfold keptAt
  cases (d.snapshot? d.needed id).map (·.2) <;> simp

/-- No name is written for a node twice. -/
theorem nodup_keptAt_append_resultsAt (hd : d.Coherent) (hr : d.Reduced)
    (hlt : id < d.nodes.length) : (d.keptAt id ++ d.resultsAt id).Nodup := by
  refine List.nodup_append.2 ⟨nodup_keptAt d id, nodup_resultsAt hr hlt, ?_⟩
  rintro name hkept _ hresult rfl
  exact not_mem_resultsAt_of_mem_keptAt hd hr hkept hresult

/-- The block of a graph writes every name once. -/
theorem nodup_results (hd : d.Coherent) (hr : d.Reduced) :
    (d.linearize.map (·.result)).Nodup := by
  rw [results_eq]
  refine List.nodup_append.2 ⟨?_, ?_, ?_⟩
  · exact nodup_flatMap_of_owns List.nodup_range (fun id _ => nodup_keptAt d id)
      fun id _ name hmem => owns_of_mem_keptAt hd hmem
  · exact nodup_flatMap_of_owns hd.order_nodup (fun id hid => nodup_resultsAt hr (hd.order_lt hid))
      fun id hid name hmem => owns_of_mem_resultsAt hd (hd.order_lt hid) hmem
  · rintro name hmem _ hmem' rfl
    obtain ⟨i, -, hi⟩ := List.mem_flatMap.1 hmem
    obtain ⟨j, hj, hj'⟩ := List.mem_flatMap.1 hmem'
    obtain rfl := (owns_of_mem_keptAt hd hi).unique
      (owns_of_mem_resultsAt hd (hd.order_lt hj) hj')
    exact not_mem_resultsAt_of_mem_keptAt hd hr hi hj'

/-- The results that belong to a node are the name that its value on entry is kept under and those
that its instructions write. -/
theorem filter_results (hd : d.Coherent) (hlisted : d.Listed) (hr : d.Reduced)
    (hlt : id < d.nodes.length) {p : String → Bool}
    (hp : ∀ name ∈ d.linearize.map (·.result), p name = true ↔ d.Owns name id) :
    (d.linearize.map (·.result)).filter p = d.keptAt id ++ d.resultsAt id := by
  rw [results_eq] at hp ⊢
  rw [List.filter_append,
    filter_flatMap_of_owns List.nodup_range (fun i _ name hmem => owns_of_mem_keptAt hd hmem)
      fun name hmem => hp name (List.mem_append_left _ hmem),
    filter_flatMap_of_owns hd.order_nodup
      (fun i hi name hmem => owns_of_mem_resultsAt hd (hd.order_lt hi) hmem)
      fun name hmem => hp name (List.mem_append_right _ hmem), if_pos (List.mem_range.2 hlt)]
  split
  · rfl
  · next hnot => rw [resultsAt_of_not_mem_order hd hlisted hr hlt hnot]

end Dag
end ArithFrontEnd
