import ArithFrontEnd.Proofs.Optimizer.Rebuilding

/-!
# The order of the nodes of an optimized block

The graph of an optimized block lists its nodes in the order in which the block writes their first
results.  These are the nodes whose values on entry are kept at the top, and then those for which
there are instructions, in the order of the first graph.

## Main results

* `eraseDups_written` — the nodes that a block writes, in order of their first results.
* `Rebuilt.order_eq` — **in this order the nodes of the second graph are listed.**
* `Rebuilt.flatMap_order` — what is done for each node of the second graph.
* `Rebuilt.perm_results`, `Rebuilt.length_linearize` — **both blocks write the same names.**
-/

namespace ArithFrontEnd
namespace Dag

variable {d g : Dag} {ids : List NodeId} {id : NodeId} {name : String}

theorem nodup_kept (d : Dag) : d.kept.Nodup := List.nodup_range.filter _

theorem mem_kept_iff : id ∈ d.kept ↔ d.keptAt id ≠ [] := by
  have hkept : (d.snapshot? d.needed id).isSome = true ↔ d.keptAt id ≠ [] := by
    unfold keptAt
    cases d.snapshot? d.needed id <;> simp
  rw [kept, List.mem_filter, hkept, List.mem_range, and_iff_right_iff_imp]
  intro hne
  obtain ⟨name, hname⟩ := List.exists_mem_of_ne_nil _ hne
  obtain ⟨other, hvalue, -⟩ := mem_keptAt_iff.1 hname
  exact lt_length_of_valueAt? hvalue

/-- The nodes that a block writes, in order of their first results: those whose values on entry are
kept, and those of the others that have instructions. -/
theorem eraseDups_written (hd : d.Coherent) : d.written.eraseDups =
    d.kept ++ d.order.filter fun id => id ∉ d.kept ∧ d.instructions d.needed id ≠ [] := by
  rw [written, List.eraseDups_append, eraseDups_of_nodup d.nodup_kept, List.removeAll,
    eraseDups_filter, eraseDups_flatMap_replicate hd.order_nodup, List.filter_filter]
  refine congrArg (d.kept ++ ·) (List.filter_congr fun id _ => ?_)
  simp

namespace Rebuilt

/-- A result is bound to the node at the place of the one that it belongs to. -/
theorem lookup_eq (h : Rebuilt d g ids) (hmem : name ∈ d.linearize.map (·.result))
    (howns : d.Owns name id) :
    g.lookup name = some (ids.idxOf id) ∧ ids[ids.idxOf id]? = some id := by
  obtain ⟨j, i, hj, hi, howns'⟩ := h.written hmem
  obtain rfl := howns'.unique howns
  obtain ⟨hlt, hget⟩ := List.getElem?_eq_some_iff.1 hi
  have hplace : ids.idxOf i = j := by rw [← hget, h.nodup.idxOf_getElem j hlt]
  rw [hplace]
  exact ⟨hj, hi⟩

/-- The results of instructions are bound to the nodes at the places of those that are written. -/
theorem lookup_of_writes (h : Rebuilt d g ids) {done : List String} {qs : List Quadruple}
    {js : List NodeId} (hqs : d.Writes done qs js)
    (hsub : qs.map (·.result) ⊆ d.linearize.map (·.result)) :
    (qs.map (·.result)).filterMap g.lookup = js.map ids.idxOf ∧
      ∀ i ∈ js, ids[ids.idxOf i]? = some i := by
  induction hqs with
  | nil done => simp
  | cons hq hqs ih =>
    rw [List.map_cons] at hsub ⊢
    obtain ⟨hfirst, hothers⟩ := List.cons_subset.1 hsub
    obtain ⟨hlookup, hplace⟩ := h.lookup_eq hfirst (hq.owns h.coherent)
    obtain ⟨hmap, hplaces⟩ := ih hothers
    rw [List.filterMap_cons_some hlookup, hmap]
    refine ⟨rfl, fun i hi => ?_⟩
    rcases List.mem_cons.1 hi with rfl | hi
    · exact hplace
    · exact hplaces i hi

/-- A node that is written has a place. -/
theorem getElem?_idxOf (h : Rebuilt d g ids) (hmem : id ∈ d.written) :
    ids[ids.idxOf id]? = some id :=
  (h.lookup_of_writes (linearize_writes h.coherent h.listed) (List.Subset.refl _)).2 id hmem

/-- Different nodes that are written have different places. -/
theorem idxOf_inj (h : Rebuilt d g ids) {i j : NodeId} (hi : i ∈ d.written) (hj : j ∈ d.written)
    (heq : ids.idxOf i = ids.idxOf j) : i = j := by
  have hplace := h.getElem?_idxOf hi
  rw [heq, h.getElem?_idxOf hj] at hplace
  exact (Option.some.inj hplace).symm

/-- The nodes are listed in the order of the first results of those that are written. -/
theorem order_eq (h : Rebuilt d g ids) : g.order = d.written.eraseDups.map ids.idxOf := by
  have hwrites := linearize_writes h.coherent h.listed
  rw [h.once.order, (h.lookup_of_writes hwrites (List.Subset.refl _)).1,
    eraseDups_map fun i hi j hj => h.idxOf_inj hi hj]

/-- What is done for each node of the second graph is done for each node of the first, if nothing is
done for nodes that are kept or have no instructions. -/
theorem flatMap_order {f f' : NodeId → List Quadruple} (h : Rebuilt d g ids)
    (heq : ∀ i ∈ d.written, f (ids.idxOf i) = f' i) (hkept : ∀ i ∈ d.kept, f' i = [])
    (hnil : ∀ i, d.instructions d.needed i = [] → f' i = []) :
    g.order.flatMap f = d.order.flatMap f' := by
  have hwritten : d.written.eraseDups.flatMap (f ∘ ids.idxOf) = d.written.eraseDups.flatMap f' :=
    List.flatMap_congr fun i hi => heq i (List.mem_eraseDups.1 hi)
  rw [h.order_eq, List.flatMap_map]
  refine hwritten.trans ?_
  rw [eraseDups_written h.coherent, List.flatMap_append, List.flatMap_eq_nil_iff.2 hkept,
    List.nil_append]
  -- what is left out of the order does nothing
  induction d.order with
  | nil => rfl
  | cons i order ih =>
    rw [List.flatMap_cons, ← ih, List.filter_cons]
    split
    · rw [List.flatMap_cons]
    · next hnot =>
      have hdone : f' i = [] := by
        by_cases hi : i ∈ d.kept
        · exact hkept i hi
        · exact hnil i (by simpa [hi] using hnot)
      rw [hdone, List.nil_append]

/-! ### What both blocks write -/

/-- Every node of the second graph stands for one. -/
theorem exists_place (h : Rebuilt d g ids) {j : NodeId} (hj : j < g.nodes.length) :
    ∃ id, ids[j]? = some id := by
  obtain ⟨value, hvalue⟩ := Dag.exists_valueAt? hj
  exact h.exists_getElem? hvalue

/-- The same names are kept for a node and for the one that it stands for. -/
theorem keptAt_eq (h : Rebuilt d g ids) {j : NodeId} (hj : ids[j]? = some id) :
    g.keptAt j = d.keptAt id := by rw [keptAt, keptAt, h.snapshot?_eq hj]

/-- A name that one block writes is written by the other. -/
theorem mem_results_iff (h : Rebuilt d g ids) :
    name ∈ g.linearize.map (·.result) ↔ name ∈ d.linearize.map (·.result) := by
  constructor
  · intro hmem
    rw [results_eq, List.mem_append, List.mem_flatMap, List.mem_flatMap] at hmem
    have hplace : ∃ j id, ids[j]? = some id ∧ name ∈ g.keptAt j ++ g.resultsAt j := by
      rcases hmem with ⟨j, hj, hname⟩ | ⟨j, hj, hname⟩
      · obtain ⟨id, hid⟩ := h.exists_place (List.mem_range.1 hj)
        exact ⟨j, id, hid, List.mem_append_left _ hname⟩
      · obtain ⟨id, hid⟩ := h.exists_place (h.coherent'.order_lt hj)
        exact ⟨j, id, hid, List.mem_append_right _ hname⟩
    obtain ⟨j, id, hj, hname⟩ := hplace
    rw [h.keptAt_eq hj, h.resultsAt_eq hj, ← h.filter_lookup hj] at hname
    exact (List.mem_filter.1 hname).1
  · intro hmem
    obtain ⟨j, id, hlookup, hj, howns⟩ := h.written hmem
    have hname : name ∈ g.keptAt j ++ g.resultsAt j := by
      rw [h.keptAt_eq hj, h.resultsAt_eq hj, ← h.filter_lookup hj]
      exact List.mem_filter.2 ⟨hmem, by simpa using hlookup⟩
    rcases List.mem_append.1 hname with hkept | hresult
    · exact (mem_results_of_mem_keptAt h.coherent' hkept).1
    · exact (mem_results_of_mem_resultsAt h.coherent' h.listed' h.reduced'
        (h.coherent'.lookup_lt hlookup) hresult).1

/-- Both blocks write the same names. -/
theorem perm_results (h : Rebuilt d g ids) :
    (g.linearize.map (·.result)).Perm (d.linearize.map (·.result)) :=
  (List.perm_ext_iff_of_nodup (nodup_results h.coherent' h.reduced')
    (nodup_results h.coherent h.reduced)).2 fun _ => h.mem_results_iff

/-- Both blocks have the same number of instructions. -/
theorem length_linearize (h : Rebuilt d g ids) : g.linearize.length = d.linearize.length := by
  simpa using h.perm_results.length_eq

end Rebuilt

end Dag
end ArithFrontEnd
