import ArithFrontEnd.Proofs.Optimizer.Results
import ArithFrontEnd.Proofs.Optimizer.Retracing
import ArithFrontEnd.Proofs.Optimizer.SingleAssignment

/-!
# How the graph of an optimized block is written

The graph of an optimized block retraces the graph that the block has been written for, and the
block assigns every name once.  So a node has as names the results that belong to what it stands
for, after its own name if it is a value on entry that an operator has read first.  It follows that
it is read under the name that it has been read under, that the same values on entry are kept at the
top, and that the instructions of a node write the names that they have written.

They are the same instructions if no value on entry is given to two names: of such a value the first
graph may have known an operator that the block does not have, and then it was copied from the name
itself, and not from the first copy.

## Main definitions

* `Dag.Rebuilt` — one graph is that of the block of another.
* `Dag.EntryOnce` — no value on entry is given to two names.

## Main results

* `Rebuilt.surrogate?_eq`, `Rebuilt.nameOf_eq` — **how nodes are read has not changed.**
* `Rebuilt.kept_eq`, `Rebuilt.snapshots_eq` — the same values on entry are kept.
* `Rebuilt.resultsAt_eq`, `Rebuilt.instructions_eq` — the instructions of a node.
-/

namespace ArithFrontEnd
namespace Dag

/-- The second graph is that of the block of the first. -/
structure Rebuilt (d g : Dag) (ids : List NodeId) : Prop
    extends Retraces d g ids (d.linearize.map (·.result)) where
  /-- The first graph is coherent. -/
  coherent : d.Coherent
  /-- Its operators are listed. -/
  listed : d.Listed
  /-- It says nothing twice. -/
  reduced : d.Reduced
  /-- The second graph is coherent. -/
  coherent' : g.Coherent
  /-- Its operators are listed. -/
  listed' : g.Listed
  /-- It says nothing twice. -/
  reduced' : g.Reduced
  /-- Its block assigns every name once. -/
  once : g.AssignsOnce (d.linearize.map (·.result))
  /-- It meets the nodes whose values on entry are kept first. -/
  kept : d.kept <+: ids

/-- The block of a graph has a graph. -/
theorem exists_rebuilt {d : Dag} (hd : d.Coherent) (hlisted : d.Listed) (hr : d.Reduced) :
    ∃ g ids, build d.linearize = .ok g ∧ Rebuilt d g ids := by
  obtain ⟨g, ids, hbuild, hkept, h⟩ := build_linearize hd hlisted hr
  obtain ⟨hg, hlisted', -⟩ := build_coherent hbuild
  exact ⟨g, ids, hbuild, h, hd, hlisted, hr, hg, hlisted', build_reduced hbuild,
    build_once (nodup_results hd hr) hbuild, hkept⟩

variable {d g : Dag} {ids : List NodeId} {j id : NodeId} {name : String}

/-- A node has had no name from entry if it stands for no value on entry, or if the name of that
value has been written. -/
theorem Own.eq_nil {done own : List String} (h : g.Own done j own)
    (hentry : ∀ name, g.valueAt? j = some (.identifier name) → name ∈ done) : own = [] := by
  rcases h with rfl | ⟨name, rfl, hnot, hvalue⟩
  · rfl
  · exact absurd (hentry name hvalue) hnot

/-- What is kept is kept for these nodes. -/
theorem snapshots_eq_filterMap (d : Dag) :
    d.snapshots = d.kept.filterMap (d.snapshot? d.needed) := by
  rw [kept, List.filterMap_filter, snapshots]
  refine List.filterMap_congr fun i _ => ?_
  cases d.snapshot? d.needed i <;> rfl

namespace Rebuilt

theorem lt_length (h : Rebuilt d g ids) (hj : ids[j]? = some id) : id < d.nodes.length := by
  obtain ⟨value, hvalue⟩ := h.exists_valueAt? hj
  obtain ⟨value', hvalue', -⟩ := h.value hj hvalue
  exact lt_length_of_valueAt? hvalue'

/-- A result is bound to the node that stands for the one that it belongs to. -/
theorem lookup_eq_some_iff (h : Rebuilt d g ids) (hj : ids[j]? = some id)
    (hmem : name ∈ d.linearize.map (·.result)) : g.lookup name = some j ↔ d.Owns name id := by
  obtain ⟨i, other, hi, hother, howns⟩ := h.written hmem
  rw [hi, Option.some.injEq]
  constructor
  · rintro rfl
    obtain rfl := Option.some.inj (hother.symm.trans hj)
    exact howns
  · intro howns'
    obtain rfl := howns.unique howns'
    exact Matches.getElem?_inj h.nodup hother hj

/-- The results that are bound to a node are those that belong to what it stands for. -/
theorem filter_lookup (h : Rebuilt d g ids) (hj : ids[j]? = some id) :
    (d.linearize.map (·.result)).filter (g.lookup · = some j) = d.keptAt id ++ d.resultsAt id := by
  refine filter_results h.coherent h.listed h.reduced (h.lt_length hj) fun name hmem => ?_
  simpa using h.lookup_eq_some_iff hj hmem

/-- A node has these results as names, after the name that it has had from entry. -/
theorem namesAt_eq (h : Rebuilt d g ids) (hj : ids[j]? = some id) :
    ∃ own, g.Own (d.linearize.map (·.result)) j own ∧
      g.namesAt j = own ++ (d.keptAt id ++ d.resultsAt id) := by
  obtain ⟨value, hvalue⟩ := h.exists_valueAt? hj
  obtain ⟨own, hown, hnames⟩ := h.once.names (lt_length_of_valueAt? hvalue)
  exact ⟨own, hown, by rw [hnames, h.filter_lookup hj]⟩

/-- A node that stands for no value on entry has the results of what it stands for as names. -/
theorem namesAt_of_not_entry (h : Rebuilt d g ids) (hj : ids[j]? = some id) {value : NodeValue}
    (hvalue : g.valueAt? j = some value) (hentry : ∀ name, value ≠ .identifier name) :
    g.namesAt j = d.resultsAt id := by
  obtain ⟨value', hid, hmatch⟩ := h.value hj hvalue
  have hentry' : ∀ name, value' ≠ .identifier name := by
    rintro name rfl
    cases hmatch
    exact hentry name rfl
  obtain ⟨own, hown, hnames⟩ := h.namesAt_eq hj
  have hnil : own = [] := hown.eq_nil fun other hother =>
    absurd (Option.some.inj (hvalue.symm.trans hother)) (hentry other)
  rw [hnames, hnil, keptAt_of_not_entry hid hentry', List.nil_append, List.nil_append]

/-! ### How values on entry are read -/

/-- A name that has its value on entry to the end has it in the second graph too. -/
theorem lookup_entry (h : Rebuilt d g ids) (hj : ids[j]? = some id)
    (hvalue : g.valueAt? j = some (.identifier name)) (hlookup : d.lookup name = some id) :
    g.lookup name = some j := by
  by_cases hmem : name ∈ d.linearize.map (·.result)
  · exact (h.lookup_eq_some_iff hj hmem).2 (Or.inl hlookup)
  · obtain ⟨value, hid, hmatch⟩ := h.value hj hvalue
    cases hmatch
    obtain ⟨i, hi⟩ := Option.ne_none_iff_exists'.1 (h.coherent'.bound_of_entry hvalue)
    have hi' := h.getElem?_of_matches h.reduced hid (.identifier name) (h.unwritten hmem hi)
    rw [hi, Matches.getElem?_inj h.nodup hi' hj]

/-- A value on entry that has been kept has the name that it has been kept under as first name. -/
theorem namesAt_of_kept (h : Rebuilt d g ids) (hj : ids[j]? = some id)
    (hvalue : g.valueAt? j = some (.identifier name)) {kept : String}
    (hkept : d.surrogate? d.needed id = some kept) : g.namesAt j = kept :: d.resultsAt id := by
  obtain ⟨value, hid, hmatch⟩ := h.value hj hvalue
  cases hmatch
  obtain ⟨own, hown, hnames⟩ := h.namesAt_eq hj
  have hnil : own = [] := hown.eq_nil fun other hother => by
    obtain rfl := NodeValue.identifier.inj (Option.some.inj (hvalue.symm.trans hother))
    exact mem_results_of_surrogate? h.coherent h.reduced hid hkept
  rw [hnames, hnil, keptAt_of_surrogate? hid hkept]
  rfl

/-- A value on entry is kept under the name that it has been kept under. -/
theorem surrogate?_of_kept (h : Rebuilt d g ids) (hj : ids[j]? = some id)
    (hvalue : g.valueAt? j = some (.identifier name)) {kept : String}
    (hkept : d.surrogate? d.needed id = some kept) : g.surrogate? g.needed j = some kept := by
  obtain ⟨value, hid, hmatch⟩ := h.value hj hvalue
  cases hmatch
  have hnames := h.namesAt_of_kept hj hvalue hkept
  have hlookup : g.lookup name ≠ some j := by
    intro hlookup
    obtain ⟨i, hi⟩ := Option.ne_none_iff_exists'.1 (h.coherent.bound_of_entry hid)
    have hmem := mem_results_of_surrogate? h.coherent h.reduced hid hkept
    have howns := (h.lookup_eq_some_iff hj hmem).1 hlookup
    exact ((surrogate?_eq_some_iff hid).1 hkept).1.2 (howns.unique (Or.inl hi) ▸ hi)
  have hread : ¬ g.isInitiallyRead kept = true := by
    rw [isInitiallyRead_iff]
    rintro ⟨i, hi⟩
    obtain ⟨other, hother⟩ := h.exists_getElem? hi
    obtain ⟨value, hvalue', hmatch⟩ := h.value hother hi
    cases hmatch
    exact ne_of_surrogate? h.coherent hid hkept hvalue' rfl
  refine (surrogate?_eq_some_iff hvalue).2 ⟨⟨Or.inr (by simp [hnames]), hlookup⟩, ?_⟩
  simp [snapshotName, hnames, hread]

/-- The same name stands in for a value on entry, or none does. -/
theorem surrogate?_eq (h : Rebuilt d g ids) (hj : ids[j]? = some id)
    (hvalue : g.valueAt? j = some (.identifier name)) :
    g.surrogate? g.needed j = d.surrogate? d.needed id := by
  rcases h.entry hj hvalue with hlookup | ⟨kept, hkept⟩
  · obtain ⟨value, hid, hmatch⟩ := h.value hj hvalue
    cases hmatch
    rw [surrogate?_eq_none_of_lookup hid hlookup,
      surrogate?_eq_none_of_lookup hvalue (h.lookup_entry hj hvalue hlookup)]
  · rw [hkept, h.surrogate?_of_kept hj hvalue hkept]

/-! ### How nodes are read -/

/-- What is kept at the top is what has been kept. -/
theorem snapshot?_eq (h : Rebuilt d g ids) (hj : ids[j]? = some id) :
    g.snapshot? g.needed j = d.snapshot? d.needed id := by
  obtain ⟨value, hvalue⟩ := h.exists_valueAt? hj
  obtain ⟨value', hvalue', hmatch⟩ := h.value hj hvalue
  refine Option.ext fun p => ?_
  rw [snapshot?_eq_some_iff, snapshot?_eq_some_iff, hvalue, hvalue']
  cases hmatch with
  | constant v => simp
  | identifier name => rw [h.surrogate?_eq hj hvalue]
  | operator hleft hright => simp

/-- An operator of the second graph has been computed by the block. -/
theorem resultsAt_operator (h : Rebuilt d g ids) (hj : ids[j]? = some id) {op op' : String}
    {left right l r : NodeId} (hvalue : g.valueAt? j = some (.operator op left right))
    (hid : d.valueAt? id = some (.operator op' l r)) :
    d.IsRead id ∧ d.resultsAt id = d.nameOf d.needed id :: (d.namesAt id).drop 1 := by
  rcases Dag.resultsAt_operator hid with hread | ⟨-, heq⟩
  · exact hread
  · -- the node is listed, so it has a result
    have hlisted := h.listed' j ⟨op, left, right, hvalue⟩
    rw [h.once.order, List.mem_eraseDups] at hlisted
    obtain ⟨name, hmem, hname⟩ := List.mem_filterMap.1 hlisted
    have hfilter := h.filter_lookup hj
    rw [keptAt_of_not_entry hid (by simp), heq, List.append_nil, List.filter_eq_nil_iff] at hfilter
    exact absurd (by simpa using hname) (hfilter name hmem)

/-- A node is read under the name that what it stands for has been read under. -/
theorem nameOf_eq (h : Rebuilt d g ids) (hj : ids[j]? = some id) :
    g.nameOf g.needed j = d.nameOf d.needed id := by
  obtain ⟨value, hvalue⟩ := h.exists_valueAt? hj
  obtain ⟨value', hid, hmatch⟩ := h.value hj hvalue
  cases hmatch with
  | constant v => rw [nameOf_constant hvalue, h.literal hj hvalue, Option.getD_some]
  | identifier name =>
    rw [nameOf_identifier hvalue, nameOf_identifier hid, h.surrogate?_eq hj hvalue]
  | operator hleft hright =>
    have hnames := h.namesAt_of_not_entry hj hvalue (by simp)
    rw [(h.resultsAt_operator hj hvalue hid).2] at hnames
    have hfirst := firstName_operator hvalue (Or.inr (by simp [hnames]))
    simpa [hnames] using hfirst.symm

/-- The nodes that are met and whose values on entry are kept are met first. -/
theorem filter_kept (h : Rebuilt d g ids) :
    ids.filter (fun id => (d.snapshot? d.needed id).isSome) = d.kept := by
  obtain ⟨rest, hrest⟩ := h.kept
  have hkept : d.kept.filter (fun id => (d.snapshot? d.needed id).isSome) = d.kept :=
    List.filter_eq_self.2 fun i hi => (List.mem_filter.1 hi).2
  -- no node that is met later is kept
  have hlater : rest.filter (fun id => (d.snapshot? d.needed id).isSome) = [] := by
    refine List.filter_eq_nil_iff.2 fun i hi hsome => ?_
    have hi' : i ∈ ids := hrest ▸ List.mem_append_right _ hi
    have hmem : i ∈ d.kept := List.mem_filter.2
      ⟨List.mem_range.2 (h.lt_length (List.getElem?_idxOf hi')), hsome⟩
    exact (List.nodup_append.1 (hrest ▸ h.nodup)).2.2 i hmem i hi rfl
  rw [← hrest, List.filter_append, hkept, hlater, List.append_nil]

/-- The nodes whose values on entry are kept are those for which they have been kept. -/
theorem kept_eq (h : Rebuilt d g ids) : g.kept = d.kept.map ids.idxOf := by
  have hrange : List.range g.nodes.length = ids.map ids.idxOf := by
    refine List.ext_getElem (by simp [h.length_eq]) fun j hj hj' => ?_
    rw [List.getElem_range, List.getElem_map, h.nodup.idxOf_getElem]
  rw [Dag.kept, hrange, List.filter_map, ← h.filter_kept]
  refine congrArg (List.map _) (List.filter_congr fun i hi => ?_)
  rw [Function.comp_apply, h.snapshot?_eq (List.getElem?_idxOf hi)]

/-- The values on entry that are kept are those that have been kept. -/
theorem snapshots_eq (h : Rebuilt d g ids) : g.snapshots = d.snapshots := by
  rw [snapshots_eq_filterMap, snapshots_eq_filterMap, h.kept_eq, List.filterMap_map]
  refine List.filterMap_congr fun i hi => h.snapshot?_eq (List.getElem?_idxOf ?_)
  exact h.kept.subset hi

/-! ### The instructions of nodes -/

/-- The instructions of a value on entry write what they have written. -/
theorem resultsAt_entry (h : Rebuilt d g ids) (hj : ids[j]? = some id)
    (hvalue : g.valueAt? j = some (.identifier name))
    (hid : d.valueAt? id = some (.identifier name)) : g.resultsAt j = d.resultsAt id := by
  have hop : ¬ g.IsOperator j := not_isOperator_of_valueAt? hvalue (by simp)
  have hop' : ¬ d.IsOperator id := not_isOperator_of_valueAt? hid (by simp)
  rw [resultsAt_leaf (lt_length_of_valueAt? hvalue) hop, h.nameOf_eq hj, nameOf_identifier hid]
  cases hkept : d.surrogate? d.needed id with
  | some kept => simp [h.namesAt_of_kept hj hvalue hkept]
  | none =>
    have hhead := head?_resultsAt_ne h.reduced (lt_length_of_valueAt? hid) hop'
    rw [nameOf_identifier hid, hkept, Option.getD_none] at hhead
    obtain ⟨own, hown, hnames⟩ := h.namesAt_eq hj
    rw [keptAt_of_surrogate?_eq_none hkept, List.nil_append] at hnames
    rw [Option.getD_none, hnames]
    rcases hown with rfl | ⟨other, rfl, -, hentry⟩
    · rw [List.nil_append, if_neg hhead]
    · -- the name from entry is the one that the node is read under
      obtain rfl := NodeValue.identifier.inj (Option.some.inj (hvalue.symm.trans hentry))
      simp

/-- The instructions of a node write what those of the node that it stands for have written. -/
theorem resultsAt_eq (h : Rebuilt d g ids) (hj : ids[j]? = some id) :
    g.resultsAt j = d.resultsAt id := by
  obtain ⟨value, hvalue⟩ := h.exists_valueAt? hj
  obtain ⟨value', hid, hmatch⟩ := h.value hj hvalue
  cases hmatch with
  | constant v =>
    rw [resultsAt_constant h.coherent' hvalue, h.namesAt_of_not_entry hj hvalue (by simp)]
  | identifier name => exact h.resultsAt_entry hj hvalue hid
  | operator hleft hright =>
    have hnames := h.namesAt_of_not_entry hj hvalue (by simp)
    obtain ⟨-, heq⟩ := h.resultsAt_operator hj hvalue hid
    rcases Dag.resultsAt_operator hvalue with ⟨-, heq'⟩ | ⟨hnot, -⟩
    · rw [heq', hnames, heq, h.nameOf_eq hj]
      rfl
    · exact absurd (Or.inr (by simp [hnames, heq])) hnot

end Rebuilt

/-- No value on entry is given to two names. -/
def EntryOnce (d : Dag) : Prop :=
  ∀ id name, d.valueAt? id = some (.identifier name) →
    (d.keptAt id ++ d.resultsAt id).length ≤ 1

/-- A value on entry that is kept is not given to another name. -/
theorem EntryOnce.resultsAt_eq_nil (h : d.EntryOnce) (hkept : d.keptAt id ≠ []) :
    d.resultsAt id = [] := by
  obtain ⟨name, hname⟩ := List.exists_mem_of_ne_nil _ hkept
  obtain ⟨other, hvalue, -⟩ := mem_keptAt_iff.1 hname
  have hone := h id other hvalue
  have hpos := List.length_pos_of_mem hname
  rw [List.length_append] at hone
  exact List.length_eq_zero_iff.1 (by omega)

namespace Rebuilt

/-- The instructions of a node that stands for no value on entry are those of the node that it
stands for. -/
theorem instructions_eq_of_not_entry (h : Rebuilt d g ids) (hj : ids[j]? = some id)
    {value : NodeValue} (hvalue : g.valueAt? j = some value)
    (hentry : ∀ name, value ≠ .identifier name) :
    g.instructions g.needed j = d.instructions d.needed id := by
  obtain ⟨value', hid, hmatch⟩ := h.value hj hvalue
  have hname := h.nameOf_eq hj
  have hnames := h.namesAt_of_not_entry hj hvalue hentry
  cases hmatch with
  | constant v =>
    have hop : ¬ g.IsOperator j := not_isOperator_of_valueAt? hvalue (by simp)
    have hop' : ¬ d.IsOperator id := not_isOperator_of_valueAt? hid (by simp)
    rw [instructions_leaf (lt_length_of_valueAt? hvalue) hop,
      instructions_leaf (h.lt_length hj) hop', hname, hnames, resultsAt_constant h.coherent hid]
  | identifier name => exact absurd rfl (hentry name)
  | operator hleft hright =>
    obtain ⟨hread, heq⟩ := h.resultsAt_operator hj hvalue hid
    have hread' : g.IsRead j := Or.inr (by simp [hnames, heq])
    have hinstructions := (instructions_operator hid).resolve_right fun hnot => hnot.1 hread
    have hinstructions' := (instructions_operator hvalue).resolve_right fun hnot => hnot.1 hread'
    rw [hinstructions.2, hinstructions'.2, h.nameOf_eq hleft, h.nameOf_eq hright, hname, hnames,
      heq]
    rfl

/-- The instructions of a node are those of the node that it stands for, as long as no value on
entry is given to two names. -/
theorem instructions_eq (h : Rebuilt d g ids) (honce : d.EntryOnce) (hj : ids[j]? = some id) :
    g.instructions g.needed j = d.instructions d.needed id := by
  obtain ⟨value, hvalue⟩ := h.exists_valueAt? hj
  by_cases hentry : ∃ name, value = .identifier name
  · obtain ⟨name, rfl⟩ := hentry
    obtain ⟨value', hid, hmatch⟩ := h.value hj hvalue
    cases hmatch
    have hop : ¬ g.IsOperator j := not_isOperator_of_valueAt? hvalue (by simp)
    have hop' : ¬ d.IsOperator id := not_isOperator_of_valueAt? hid (by simp)
    have hresults := h.resultsAt_eq hj
    have hone : (d.resultsAt id).length ≤ 1 := by
      have hone := honce id name hid
      rw [List.length_append] at hone
      exact Nat.le_trans (Nat.le_add_left _ _) hone
    rw [instructions_eq_copies (lt_length_of_valueAt? hvalue) hop (hresults ▸ hone),
      instructions_eq_copies (h.lt_length hj) hop' hone, h.nameOf_eq hj, hresults]
  · exact h.instructions_eq_of_not_entry hj hvalue (not_exists.1 hentry)

end Rebuilt

end Dag
end ArithFrontEnd
