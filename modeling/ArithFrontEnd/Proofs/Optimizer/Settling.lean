import ArithFrontEnd.Proofs.Optimizer.EntryNames
import ArithFrontEnd.Proofs.Optimizer.WritingOrder

/-!
# Optimizing again and again

The graph of an optimized block lists its nodes in the order in which the block writes them, and
when that graph is written, they are written in the order in which they are listed.  So the third
graph lists its nodes as the second one does.  Then a value on entry is read by an operator first in
one of them exactly if it is in the other, and it has the same names in both.  So the third graph is
written as the second one is, and from the second time on the block stays as it is.

The second time may still change how a value on entry is copied to its names.  The operators are the
same at once.

## Main results

* `Dag.Rebuilt.filter_linearize` — **the second block has the operators of the first.**
* `Dag.Rebuilt.order_eq_of_rebuilt` — the third graph lists its nodes as the second one does.
* `Dag.Rebuilt.linearize_eq_of_rebuilt` — **the third block is the second.**
* `optimize_settles` — **what the optimizer has made twice it does not change.**
-/

namespace ArithFrontEnd
namespace Dag

variable {d g e : Dag} {ids places : List NodeId} {id j : NodeId} {name : String}

/-- Copies are no operators. -/
theorem filter_copies (source : String) (names : List String) :
    (copies source names).filter (·.op ≠ Quadruple.copyOp) = [] := by
  simp [copies, Quadruple.copy]

/-- The instructions of a node that is no operator are copies. -/
theorem filter_instructions_leaf (hlt : id < d.nodes.length) (h : ¬ d.IsOperator id) :
    (d.instructions d.needed id).filter (·.op ≠ Quadruple.copyOp) = [] := by
  rw [instructions_leaf hlt h]
  cases d.namesAt id with
  | nil => rfl
  | cons first others =>
    simp only [List.filter_append, filter_copies, List.append_nil]
    split
    · rfl
    · simp [Quadruple.copy]

/-- A node that is kept is no operator. -/
theorem not_isOperator_of_mem_kept (h : id ∈ d.kept) : ¬ d.IsOperator id := by
  obtain ⟨name, hname⟩ := List.exists_mem_of_ne_nil _ (mem_kept_iff.1 h)
  obtain ⟨other, hvalue, -⟩ := mem_keptAt_iff.1 hname
  exact not_isOperator_of_valueAt? hvalue (by simp)

/-- The operators of a block are those of the instructions of its nodes. -/
theorem filter_linearize_eq (d : Dag) : d.linearize.filter (·.op ≠ Quadruple.copyOp) =
    d.order.flatMap fun id =>
      (d.instructions d.needed id).filter (·.op ≠ Quadruple.copyOp) := by
  rw [linearize, List.filter_append, List.filter_eq_nil_iff.2, List.nil_append,
    List.filter_flatMap]
  -- what is copied before anything else
  intro q hq
  obtain ⟨p, -, rfl⟩ := List.mem_map.1 hq
  simp [Quadruple.copy]

namespace Rebuilt

/-- The instructions of a node apply the same operators. -/
theorem filter_instructions (h : Rebuilt d g ids) (hj : ids[j]? = some id) :
    (g.instructions g.needed j).filter (·.op ≠ Quadruple.copyOp) =
      (d.instructions d.needed id).filter (·.op ≠ Quadruple.copyOp) := by
  obtain ⟨value, hvalue⟩ := h.exists_valueAt? hj
  by_cases hentry : ∃ name, value = .identifier name
  · obtain ⟨name, rfl⟩ := hentry
    obtain ⟨value', hid, hmatch⟩ := h.value hj hvalue
    cases hmatch
    have hop : ¬ g.IsOperator j := not_isOperator_of_valueAt? hvalue (by simp)
    have hop' : ¬ d.IsOperator id := not_isOperator_of_valueAt? hid (by simp)
    rw [filter_instructions_leaf (lt_length_of_valueAt? hvalue) hop,
      filter_instructions_leaf (h.lt_length hj) hop']
  · rw [h.instructions_eq_of_not_entry hj hvalue (not_exists.1 hentry)]

/-- Both blocks apply the same operators, in the same order. -/
theorem filter_linearize (h : Rebuilt d g ids) :
    g.linearize.filter (·.op ≠ Quadruple.copyOp) =
      d.linearize.filter (·.op ≠ Quadruple.copyOp) := by
  rw [filter_linearize_eq, filter_linearize_eq]
  refine h.flatMap_order (fun i hi => h.filter_instructions (h.getElem?_idxOf hi))
    (fun i hi => ?_) fun i hnil => by rw [hnil]; rfl
  have hop := not_isOperator_of_mem_kept hi
  exact filter_instructions_leaf (List.mem_range.1 (List.mem_filter.1 hi).1) hop

/-! ### The order of the nodes -/

/-- The nodes are written in the order in which they are listed. -/
theorem eraseDups_written_eq (h : Rebuilt d g ids) : g.written.eraseDups = g.order := by
  rw [eraseDups_written h.coherent']
  have horder := h.order_eq
  rw [eraseDups_written h.coherent, List.map_append, ← h.kept_eq] at horder
  have hwritten : ∀ i ∈ d.order.filter fun i => i ∉ d.kept ∧ d.instructions d.needed i ≠ [],
      i ∈ d.written := fun i hi =>
    List.mem_eraseDups.1 (eraseDups_written h.coherent ▸ List.mem_append_right _ hi)
  rw [horder, List.filter_append, List.filter_eq_nil_iff.2, List.nil_append,
    List.filter_eq_self.2]
  · intro j hj
    obtain ⟨i, hi, rfl⟩ := List.mem_map.1 hj
    have hplace := h.getElem?_idxOf (hwritten i hi)
    have hi' : i ∉ d.kept ∧ d.instructions d.needed i ≠ [] := by
      simpa using (List.mem_filter.1 hi).2
    have hkept : ids.idxOf i ∉ g.kept := by
      rw [mem_kept_iff, h.keptAt_eq hplace, ← mem_kept_iff]
      exact hi'.1
    have hinstructions : g.instructions g.needed (ids.idxOf i) ≠ [] := by
      have hresults : d.resultsAt i ≠ [] := mt List.map_eq_nil_iff.1 hi'.2
      rw [← h.resultsAt_eq hplace] at hresults
      exact mt List.map_eq_nil_iff.2 hresults
    simp [hkept, hinstructions]
  · intro j hj
    simp [hj]

/-- The graph of the second block lists its nodes as the second graph does. -/
theorem order_eq_of_rebuilt (h : Rebuilt d g ids) (h' : Rebuilt g e places) :
    e.order = g.order.map places.idxOf := by
  rw [h'.order_eq, h.eraseDups_written_eq]

/-- A node that is listed has a place. -/
theorem getElem?_idxOf_of_mem_order (h : Rebuilt d g ids) (h' : Rebuilt g e places)
    (hj : j ∈ g.order) : places[places.idxOf j]? = some j :=
  h'.getElem?_idxOf (List.mem_eraseDups.1 (h.eraseDups_written_eq ▸ hj))

/-- What is listed before a node has not changed. -/
theorem before_eq (h : Rebuilt d g ids) (h' : Rebuilt g e places) (hj : j ∈ g.order) :
    e.before (places.idxOf j) = (g.before j).map places.idxOf := by
  have hmem : ∀ i ∈ g.order, i ∈ g.written := fun i hi =>
    List.mem_eraseDups.1 (h.eraseDups_written_eq ▸ hi)
  rw [before, before, h.order_eq_of_rebuilt h']
  exact takeWhile_ne_map fun i hi heq => h'.idxOf_inj (hmem i hi) (hmem j hj) heq

/-- An operator reads the nodes that it has read. -/
theorem isOperand_iff (h : Rebuilt d g ids) {reader reader' : NodeId} (hj : ids[j]? = some id)
    (hreader : ids[reader]? = some reader') : g.IsOperand j reader ↔ d.IsOperand id reader' := by
  have hsame : ∀ {l left : NodeId}, ids[l]? = some left → (j = l ↔ id = left) := by
    intro l left hl
    constructor
    · rintro rfl
      exact Option.some.inj (hj.symm.trans hl)
    · rintro rfl
      exact Matches.getElem?_inj h.nodup hj hl
  obtain ⟨value, hvalue⟩ := h.exists_valueAt? hreader
  obtain ⟨value', hvalue', hmatch⟩ := h.value hreader hvalue
  rw [IsOperand, IsOperand, hvalue, hvalue']
  cases hmatch with
  | constant v => simp
  | identifier name => simp
  | operator hleft hright =>
    simp only [Option.some.injEq, NodeValue.operator.injEq, and_assoc, exists_and_left,
      exists_eq_left', hsame hleft, hsame hright]

/-- A node is read first exactly if it has been. -/
theorem readFirst_iff (h : Rebuilt d g ids) (h' : Rebuilt g e places) (hj : j ∈ g.order) :
    e.ReadFirst (places.idxOf j) ↔ g.ReadFirst j := by
  have hplace := h.getElem?_idxOf_of_mem_order h' hj
  rw [ReadFirst, ReadFirst, h.before_eq h' hj]
  have hoperand : ∀ reader ∈ g.before j,
      (e.IsOperand (places.idxOf j) (places.idxOf reader) ↔ g.IsOperand j reader) := by
    intro reader hreader
    exact h'.isOperand_iff hplace
      (h.getElem?_idxOf_of_mem_order h' (mem_order_of_mem_before hreader))
  constructor
  · rintro ⟨_, hmem, hreads⟩
    obtain ⟨reader, hreader, rfl⟩ := List.mem_map.1 hmem
    exact ⟨reader, hreader, (hoperand reader hreader).1 hreads⟩
  · rintro ⟨reader, hreader, hreads⟩
    exact ⟨_, List.mem_map_of_mem hreader, (hoperand reader hreader).2 hreads⟩

/-! ### The names and instructions of nodes -/

open Classical in
/-- The names of a value on entry are those that are written, after its own name if an operator has
read it first and its name is not written. -/
theorem namesAt_entry (h : Rebuilt d g ids) (hj : ids[j]? = some id)
    (hvalue : g.valueAt? j = some (.identifier name))
    (hnamed : g.EntryNamed (d.linearize.map (·.result)) j) :
    g.namesAt j = (if name ∉ d.linearize.map (·.result) ∧ g.ReadFirst j then [name] else []) ++
      (d.keptAt id ++ d.resultsAt id) := by
  obtain ⟨own, hown, hnames⟩ := h.namesAt_eq hj
  rw [hnames]
  congr 1
  rcases hown with rfl | ⟨other, rfl, hnot, hother⟩
  · rw [if_neg]
    rintro ⟨hnot, hread⟩
    have hmem := (hnamed.named_iff hvalue hnot).2 hread
    rw [hnames, List.nil_append, ← h.filter_lookup hj] at hmem
    exact hnot (List.mem_filter.1 hmem).1
  · obtain rfl := NodeValue.identifier.inj (Option.some.inj (hvalue.symm.trans hother))
    rw [if_pos ⟨hnot, (hnamed.named_iff hvalue hnot).1 (by simp [hnames])⟩]

open Classical in
/-- The third graph writes a listed node as the second one does. -/
theorem instructions_eq_of_rebuilt (h : Rebuilt d g ids) (h' : Rebuilt g e places)
    (hnamed : ∀ j, g.EntryNamed (d.linearize.map (·.result)) j)
    (hnamed' : ∀ j, e.EntryNamed (g.linearize.map (·.result)) j) (hj : j ∈ g.order) :
    e.instructions e.needed (places.idxOf j) = g.instructions g.needed j := by
  have hplace := h.getElem?_idxOf_of_mem_order h' hj
  obtain ⟨value, hvalue⟩ := h'.exists_valueAt? hplace
  by_cases hentry : ∃ name, value = .identifier name
  · obtain ⟨name, rfl⟩ := hentry
    obtain ⟨value', hvalue', hmatch⟩ := h'.value hplace hvalue
    cases hmatch
    obtain ⟨id, hid⟩ := h.exists_getElem? hvalue'
    have hown : name ∉ g.linearize.map (·.result) ∧ e.ReadFirst (places.idxOf j) ↔
        name ∉ d.linearize.map (·.result) ∧ g.ReadFirst j := by
      rw [h.mem_results_iff, h.readFirst_iff h' hj]
    have hnames : e.namesAt (places.idxOf j) = g.namesAt j := by
      rw [h.namesAt_entry hid hvalue' (hnamed j), h'.namesAt_entry hplace hvalue (hnamed' _),
        h.keptAt_eq hid, h.resultsAt_eq hid, if_congr hown rfl rfl]
    have hop : ¬ e.IsOperator (places.idxOf j) := not_isOperator_of_valueAt? hvalue (by simp)
    have hop' : ¬ g.IsOperator j := not_isOperator_of_valueAt? hvalue' (by simp)
    rw [instructions_leaf (lt_length_of_valueAt? hvalue) hop,
      instructions_leaf (lt_length_of_valueAt? hvalue') hop', hnames, h'.nameOf_eq hplace]
  · exact h'.instructions_eq_of_not_entry hplace hvalue (not_exists.1 hentry)

/-- The third block is the second. -/
theorem linearize_eq_of_rebuilt (h : Rebuilt d g ids) (h' : Rebuilt g e places)
    (hnamed : ∀ j, g.EntryNamed (d.linearize.map (·.result)) j)
    (hnamed' : ∀ j, e.EntryNamed (g.linearize.map (·.result)) j) :
    e.linearize = g.linearize := by
  have hnodes : e.order.flatMap (e.instructions e.needed) =
      g.order.flatMap (g.instructions g.needed) := by
    rw [h.order_eq_of_rebuilt h', List.flatMap_map]
    exact List.flatMap_congr fun j hj => h.instructions_eq_of_rebuilt h' hnamed hnamed' hj
  rw [linearize, linearize, h'.snapshots_eq, hnodes]

end Rebuilt
end Dag

/-- The optimizer takes what it has made, and gives a block that does not change any more.  It is as
long, and applies the same operators in the same order. -/
theorem optimize_settles {quads out : List Quadruple} (h : optimize quads = .ok out) :
    ∃ again, optimize out = .ok again ∧ again.length = out.length ∧
      again.filter (·.op ≠ Quadruple.copyOp) = out.filter (·.op ≠ Quadruple.copyOp) ∧
      optimize again = .ok again := by
  unfold optimize at h
  cases hbuild : Dag.build quads with
  | error e => rw [hbuild] at h; cases h
  | ok d =>
    rw [hbuild] at h
    obtain rfl : d.linearize = out := Except.ok.inj h
    obtain ⟨hd, hlisted, -⟩ := Dag.build_coherent hbuild
    obtain ⟨g, ids, hagain, hg⟩ := Dag.exists_rebuilt hd hlisted (Dag.build_reduced hbuild)
    obtain ⟨e, places, hlast, he⟩ := Dag.exists_rebuilt hg.coherent' hg.listed' hg.reduced'
    refine ⟨g.linearize, by rw [optimize, hagain]; rfl, hg.length_linearize,
      hg.filter_linearize, ?_⟩
    have hsame := hg.linearize_eq_of_rebuilt he (Dag.build_entryNamed hagain)
      (Dag.build_entryNamed hlast)
    rw [optimize, hlast]
    exact congrArg Except.ok hsame

/-- On the second time the copies to `x` and `y` are chained, and then they stay. -/
theorem optimize_settles_chain :
    ∃ out, optimize [⟨"+", "a", "b", "T"⟩, .copy "a" "x", .copy "a" "y", .copy "1" "T"] = .ok out ∧
      ∃ again, optimize out = .ok again ∧ again ≠ out ∧ optimize again = .ok again := by
  have hout : optimize [⟨"+", "a", "b", "T"⟩, .copy "a" "x", .copy "a" "y", .copy "1" "T"] =
      .ok [.copy "a" "x", .copy "a" "y", .copy "1" "T"] := by decide +kernel
  obtain ⟨again, hagain, -, -, hlast⟩ := optimize_settles hout
  have hchain : optimize [.copy "a" "x", .copy "a" "y", .copy "1" "T"] =
      .ok [.copy "a" "x", .copy "x" "y", .copy "1" "T"] := by decide +kernel
  obtain rfl := Except.ok.inj (hchain.symm.trans hagain)
  exact ⟨_, hout, _, hagain, by simp [Quadruple.copy], hlast⟩

end ArithFrontEnd
