import ArithFrontEnd.Proofs.Optimizer.Settling
import ArithFrontEnd.Proofs.Optimizer.SymbolicSharing
import Mathlib.Data.List.Perm.Subperm

/-!
# Optimized blocks are minimal

The block of a graph applies an operator for every operator of the graph that is read, and for no
other.  An operator that is read occurs in what some result of the block stands for: it has a name,
or an operator needs it that is read itself and comes later.  So the operators that are applied are
the different operations that occur in the symbolic values of the results, each of them once.  A
block that has these symbolic values applies at least as many.

## Main definitions

* `operators`, `operationsIn` — the instructions that are no copies, and the different operations in
  what the results of a block stand for.
* `Dag.IsLive` — the node is an operator that is read.
* `Dag.computation?`, `Dag.operation?` — the instruction that computes a node, and the operation
  that it computes.
* `Minimal` — a block says what the results of another one stand for, and nothing twice.

## Main results

* `length_operationsIn_le` — a block applies at least the operators that its results are made of.
* `Dag.operations_perm` — **the operators that are read are those that results are made of.**
* `Dag.nameOf_inj` — **different nodes are read under different names.**
* `optimize_minimal` — **an optimized block is minimal.**
-/

namespace ArithFrontEnd

/-- The instructions of a block that are no copies. -/
def operators (quads : List Quadruple) : List Quadruple := quads.filter (·.op ≠ Quadruple.copyOp)

/-- The different operations that occur in what the results of a block stand for. -/
def operationsIn (s : SymbolicState) (quads : List Quadruple) : List SymbolicValue :=
  ((quads.map (·.result)).flatMap fun name => (s name).operations).eraseDups

theorem mem_operationsIn {s : SymbolicState} {quads : List Quadruple} {e : SymbolicValue} :
    e ∈ operationsIn s quads ↔ ∃ name ∈ quads.map (·.result), e ∈ (s name).operations := by
  rw [operationsIn, List.mem_eraseDups, List.mem_flatMap]

/-! ### Operations in symbolic values -/

/-- What occurs in an operation that occurs in an expression occurs in the expression. -/
theorem SymbolicValue.operations_subset {a e : SymbolicValue} (h : e ∈ a.operations) :
    e.operations ⊆ a.operations := by
  induction a with
  | constant v => cases h
  | initial name => cases h
  | operation op left right ihleft ihright =>
    rcases List.mem_cons.1 h with rfl | h
    · exact List.Subset.refl _
    · refine List.subset_cons_of_subset _ ?_
      rcases List.mem_append.1 h with h | h
      · exact List.subset_append_of_subset_left _ (ihleft h)
      · exact List.subset_append_of_subset_right _ (ihright h)

/-- A name that a block does not write stands for what it stood for. -/
theorem symbolicRun_of_not_mem {quads : List Quadruple} {s s' : SymbolicState} {name : String}
    (h : symbolicRun s quads = .ok s') (hname : name ∉ quads.map (·.result)) :
    s' name = s name := by
  induction quads generalizing s with
  | nil => rw [Except.ok.inj h]
  | cons q quads ih =>
    rw [List.map_cons, List.mem_cons, not_or] at hname
    rw [symbolicRun, Quadruple.symbolic] at h
    cases hvalue : q.symbolicValue s with
    | error e => rw [hvalue] at h; cases h
    | ok e =>
      rw [hvalue] at h
      rw [ih h hname.2, SymbolicState.set, if_neg hname.1]

/-- The operations in the value of an instruction are those of its operands, and for an operator one
more at most. -/
theorem Quadruple.operations_symbolicValue {q : Quadruple} {s : SymbolicState} {e : SymbolicValue}
    {known : List SymbolicValue} (h : q.symbolicValue s = .ok e)
    (hknown : ∀ name, (s name).operations ⊆ known) :
    ∃ more, more.length = (operators [q]).length ∧ e.operations ⊆ more ++ known := by
  have hoperand : ∀ text, (s.operand text).operations ⊆ known := by
    intro text
    unfold SymbolicState.operand
    split
    · exact List.nil_subset _
    · exact hknown text
  unfold Quadruple.symbolicValue at h
  split at h
  · next hcopy =>
    obtain rfl := Except.ok.inj h
    exact ⟨[], by simp [operators, hcopy], hoperand _⟩
  · next hop =>
    refine ⟨[e], by simp [operators, hop], ?_⟩
    unfold SymbolicValue.apply at h
    split at h
    · next o a b _ _ _ =>
      cases hv : o.apply a b with
      | error cause => rw [hv] at h; cases h
      | ok v =>
        rw [hv] at h
        obtain rfl := Except.ok.inj h
        exact List.nil_subset _
    · obtain rfl := Except.ok.inj h
      refine List.cons_subset.2 ⟨List.mem_cons_self, List.subset_cons_of_subset _ ?_⟩
      exact List.append_subset.2 ⟨hoperand _, hoperand _⟩

/-- Every operator of a block makes one operation that was not known, at most. -/
theorem exists_operations_of_symbolicRun {quads : List Quadruple} {s s' : SymbolicState}
    {known : List SymbolicValue} (h : symbolicRun s quads = .ok s')
    (hknown : ∀ name, (s name).operations ⊆ known) :
    ∃ all, all.length = (operators quads).length + known.length ∧
      ∀ name, (s' name).operations ⊆ all := by
  induction quads generalizing s known with
  | nil =>
    obtain rfl := Except.ok.inj h
    exact ⟨known, by simp [operators], hknown⟩
  | cons q quads ih =>
    rw [symbolicRun, Quadruple.symbolic] at h
    cases hvalue : q.symbolicValue s with
    | error e => rw [hvalue] at h; cases h
    | ok e =>
      rw [hvalue] at h
      obtain ⟨more, hmore, he⟩ := q.operations_symbolicValue hvalue hknown
      have hmoreKnown : ∀ name, (s.set q.result e name).operations ⊆ more ++ known := by
        intro name
        rw [SymbolicState.set]
        split
        · exact he
        · exact List.subset_append_of_subset_right _ (hknown name)
      obtain ⟨all, hall, hs'⟩ := ih h hmoreKnown
      refine ⟨all, ?_, hs'⟩
      have hcons : operators (q :: quads) = operators [q] ++ operators quads :=
        List.filter_append [q] quads
      rw [hall, hcons, List.length_append, List.length_append, hmore]
      omega

/-- A block applies at least as many operators as there are in what its results stand for. -/
theorem length_operationsIn_le {quads : List Quadruple} {s : SymbolicState}
    (h : symbolicRun .initial quads = .ok s) :
    (operationsIn s quads).length ≤ (operators quads).length := by
  obtain ⟨all, hall, hs⟩ :=
    exists_operations_of_symbolicRun h fun _ => List.nil_subset []
  have hsub : operationsIn s quads ⊆ all := fun e he => by
    obtain ⟨name, -, he⟩ := mem_operationsIn.1 he
    exact hs name he
  rw [List.length_nil, Nat.add_zero] at hall
  exact hall ▸ ((nodup_eraseDups _).subperm hsub).length_le

namespace Dag

variable {d : Dag} {s : SymbolicState} {quads : List Quadruple} {id i j : NodeId}

/-! ### Operators that are read -/

/-- The node is an operator that the block reads. -/
def IsLive (d : Dag) (id : NodeId) : Prop := d.IsOperator id ∧ d.IsRead id

/-- What is needed is an operand of an operator that has a name or is needed itself. -/
theorem exists_reader_of_mem_neededBy {ids : List NodeId} (h : id ∈ d.neededBy ids) :
    ∃ j op left right, d.valueAt? j = some (.operator op left right) ∧
      (id = left ∨ id = right) ∧ (j ∈ d.neededBy ids ∨ d.namesAt j ≠ []) := by
  induction ids with
  | nil => cases h
  | cons i ids ih =>
    by_cases hlater : id ∈ d.neededBy ids
    · obtain ⟨j, op, left, right, hj, hid, hread⟩ := ih hlater
      exact ⟨j, op, left, right, hj, hid, hread.imp_left fun hj => neededBy_subset_cons ids hj⟩
    · rw [neededBy] at h
      split at h
      · next op left right hi =>
        split at h
        · exact absurd h hlater
        · next hcomputed =>
          refine ⟨i, op, left, right, hi, ?_, ?_⟩
          · rcases List.mem_cons.1 h with rfl | h
            · exact Or.inl rfl
            · exact Or.inr ((List.mem_cons.1 h).resolve_right hlater)
          · rw [not_and_or, not_not] at hcomputed
            exact (hcomputed.imp_right fun hi => neededBy_subset_cons ids hi).symm
      · exact absurd h hlater

/-- What is needed is needed by an operator that is read. -/
theorem exists_reader (h : id ∈ d.needed) :
    ∃ j op left right, d.valueAt? j = some (.operator op left right) ∧
      (id = left ∨ id = right) ∧ d.IsRead j := by
  rw [needed_eq] at h
  obtain ⟨j, op, left, right, hj, hid, hread⟩ := exists_reader_of_mem_neededBy h
  exact ⟨j, op, left, right, hj, hid, by rwa [IsRead, needed_eq]⟩

/-- An operator that occurs in what a node unfolds to is read if the node is. -/
theorem Unfolds.exists_isLive {a e : SymbolicValue} (hd : d.Coherent) (hlisted : d.Listed)
    (h : d.Unfolds id a) (hread : d.IsRead id) (he : e ∈ a.operations) :
    ∃ j, d.IsLive j ∧ d.Unfolds j e := by
  induction h with
  | constant h => cases he
  | initial h => cases he
  | @operation id left right op a b h ha hb iha ihb =>
    have hop : d.IsOperator id := ⟨op, left, right, h⟩
    obtain ⟨hleft, hright⟩ := operands_mem_needed hd (hlisted id hop) h hread
    rcases List.mem_cons.1 he with rfl | he
    · exact ⟨id, ⟨hop, hread⟩, .operation h ha hb⟩
    · rcases List.mem_append.1 he with he | he
      · exact iha (Or.inl hleft) he
      · exact ihb (Or.inl hright) he

/-- An operator unfolds to an operation. -/
theorem IsOperator.mem_operations {e : SymbolicValue} (hop : d.IsOperator id)
    (h : d.Unfolds id e) : e ∈ e.operations := by
  obtain ⟨op, left, right, hid⟩ := hop
  cases h with
  | constant h => cases Option.some.inj (hid.symm.trans h)
  | initial h => cases Option.some.inj (hid.symm.trans h)
  | operation h ha hb => exact List.mem_cons_self

/-- The name of an operator is a result. -/
theorem mem_results_of_isOperator {name : String} (hs : symbolicRun .initial quads = .ok s)
    (h : d.Expresses s) (hop : d.IsOperator id) (hname : d.lookup name = some id) :
    name ∈ quads.map (·.result) := by
  by_contra hnot
  have hid := h.bound hname
  -- a name that is no result stands for its value on entry
  have hentry : s name = .initial name := symbolicRun_of_not_mem hs hnot
  have hmem := hop.mem_operations hid
  rw [hentry] at hmem
  cases hmem

/-- An operator that is read occurs in what some result stands for. -/
theorem IsLive.mem_operationsIn (hd : d.Coherent) (hs : symbolicRun .initial quads = .ok s)
    (h : d.Expresses s) {e : SymbolicValue} (hlive : d.IsLive id) (he : d.Unfolds id e) :
    e ∈ operationsIn s quads := by
  -- on the number of nodes that come later
  induction hn : d.nodes.length - id using Nat.strongRecOn generalizing id e with
  | _ n ih =>
    obtain ⟨hop, hneeded | hnamed⟩ := hlive
    · obtain ⟨j, op, left, right, hj, hid, hread⟩ := exists_reader hneeded
      obtain ⟨hleft, hright⟩ := hd.operands_lt hj
      obtain ⟨e', he'⟩ := exists_unfolds hd (lt_length_of_valueAt? hj)
      have hlt : id < j := by rcases hid with rfl | rfl <;> assumption
      have hmem := ih _ (hn ▸ Nat.sub_lt_sub_left he.lt_length hlt)
        ⟨⟨op, left, right, hj⟩, hread⟩ he' rfl
      have hsub : e ∈ e'.operations := by
        cases he' with
        | constant h => cases Option.some.inj (hj.symm.trans h)
        | initial h => cases Option.some.inj (hj.symm.trans h)
        | operation h ha hb =>
          obtain ⟨-, rfl, rfl⟩ := NodeValue.operator.inj (Option.some.inj (hj.symm.trans h))
          refine List.mem_cons_of_mem _ (List.mem_append.2 ?_)
          rcases hid with rfl | rfl
          · exact Or.inl (ha.unique he ▸ hop.mem_operations ha)
          · exact Or.inr (hb.unique he ▸ hop.mem_operations hb)
      obtain ⟨name, hname, hmem⟩ := ArithFrontEnd.mem_operationsIn.1 hmem
      exact ArithFrontEnd.mem_operationsIn.2
        ⟨name, hname, SymbolicValue.operations_subset hmem hsub⟩
    · obtain ⟨name, hname⟩ := List.exists_mem_of_ne_nil _ hnamed
      have hlookup := hd.bound_of_named hname
      refine ArithFrontEnd.mem_operationsIn.2
        ⟨name, mem_results_of_isOperator hs h hop hlookup, ?_⟩
      rw [(h.bound hlookup).unique he]
      exact hop.mem_operations he

/-- The operations in what results stand for are what the operators unfold to that are read. -/
theorem mem_operationsIn_iff (hbuild : build quads = .ok d)
    (hs : symbolicRun .initial quads = .ok s) (h : d.Expresses s) {e : SymbolicValue} :
    e ∈ operationsIn s quads ↔ ∃ id, d.IsLive id ∧ d.Unfolds id e := by
  obtain ⟨hd, hlisted, -⟩ := build_coherent hbuild
  refine ⟨fun he => ?_, fun ⟨id, hlive, he⟩ => hlive.mem_operationsIn hd hs h he⟩
  obtain ⟨name, hname, he⟩ := mem_operationsIn.1 he
  obtain ⟨q, hq, rfl⟩ := List.mem_map.1 hname
  obtain ⟨id, hid⟩ := Option.ne_none_iff_exists'.1 ((bound_iff hbuild _).2 ⟨q, hq, Or.inl rfl⟩)
  have hunfolds := h.bound hid
  rcases hd.named_or_entry hid with hnamed | hentry
  · exact hunfolds.exists_isLive hd hlisted (Or.inr (List.ne_nil_of_mem hnamed)) he
  · rw [hunfolds.unique (.initial hentry)] at he
    cases he

/-! ### The instructions that compute operators -/

/-- The instruction that computes a node, if the node is an operator that is read. -/
def computation? (d : Dag) (id : NodeId) : Option Quadruple :=
  ((d.instructions d.needed id).filter (·.op ≠ Quadruple.copyOp)).head?

/-- An operator that is read is computed by one instruction, and no other node is. -/
theorem filter_instructions_cases (hd : d.Coherent) (id : NodeId) :
    (∃ op left right, d.valueAt? id = some (.operator op left right) ∧ d.IsRead id ∧
        (d.instructions d.needed id).filter (·.op ≠ Quadruple.copyOp) =
          [⟨op, d.nameOf d.needed left, d.nameOf d.needed right, d.nameOf d.needed id⟩]) ∨
      (¬ d.IsLive id ∧ (d.instructions d.needed id).filter (·.op ≠ Quadruple.copyOp) = []) := by
  by_cases hop : d.IsOperator id
  · obtain ⟨op, left, right, h⟩ := hop
    rcases instructions_operator h with ⟨hread, heq⟩ | ⟨hread, heq⟩
    · refine Or.inl ⟨op, left, right, h, hread, ?_⟩
      rw [heq, List.filter_cons_of_pos (by simpa using hd.ne_copyOp h), filter_copies]
    · exact Or.inr ⟨fun hlive => hread hlive.2, by rw [heq, List.filter_nil]⟩
  · refine Or.inr ⟨fun hlive => hop hlive.1, ?_⟩
    by_cases hlt : id < d.nodes.length
    · exact filter_instructions_leaf hlt hop
    · have hnode : d.node? id = none := List.getElem?_eq_none (Nat.le_of_not_lt hlt)
      rw [instructions, hnode, List.filter_nil]

theorem computation?_eq_some_iff (hd : d.Coherent) {q : Quadruple} :
    d.computation? id = some q ↔
      ∃ op left right, d.valueAt? id = some (.operator op left right) ∧ d.IsRead id ∧
        q = ⟨op, d.nameOf d.needed left, d.nameOf d.needed right, d.nameOf d.needed id⟩ := by
  rw [computation?]
  rcases filter_instructions_cases hd id with ⟨op, left, right, h, hread, heq⟩ | ⟨hlive, heq⟩
  · rw [heq, List.head?_cons, Option.some.injEq]
    constructor
    · rintro rfl
      exact ⟨op, left, right, h, hread, rfl⟩
    · rintro ⟨op', left', right', h', -, rfl⟩
      obtain ⟨rfl, rfl, rfl⟩ := NodeValue.operator.inj (Option.some.inj (h.symm.trans h'))
      rfl
  · rw [heq, List.head?_nil]
    constructor
    · intro h
      cases h
    · rintro ⟨op, left, right, h, hread, -⟩
      exact absurd ⟨⟨op, left, right, h⟩, hread⟩ hlive

/-- The operators of the block of a graph compute the operators of the graph that are read. -/
theorem operators_linearize (hd : d.Coherent) :
    operators d.linearize = d.order.filterMap d.computation? := by
  rw [operators, filter_linearize_eq, List.filterMap_eq_flatMap_toList]
  refine List.flatMap_congr fun id _ => ?_
  rcases filter_instructions_cases hd id with ⟨_, _, _, _, _, heq⟩ | ⟨_, heq⟩
  · rw [computation?, heq]
    rfl
  · rw [computation?, heq]
    rfl

/-- The operation that a node unfolds to, if the node is an operator that is read. -/
def operation? (d : Dag) (id : NodeId) : Option SymbolicValue :=
  (d.computation? id).bind fun _ => d.symbolic? id

theorem operation?_eq_some_iff (hd : d.Coherent) {e : SymbolicValue} :
    d.operation? id = some e ↔ d.IsLive id ∧ d.Unfolds id e := by
  simp only [operation?, Option.bind_eq_some_iff, symbolic?_eq_some_iff hd,
    computation?_eq_some_iff hd]
  constructor
  · rintro ⟨-, ⟨op, left, right, hop, hread, -⟩, he⟩
    exact ⟨⟨⟨op, left, right, hop⟩, hread⟩, he⟩
  · rintro ⟨⟨⟨op, left, right, hop⟩, hread⟩, he⟩
    exact ⟨_, ⟨op, left, right, hop, hread, rfl⟩, he⟩

/-- The operators that are read are those that results are made of, each of them once. -/
theorem operations_perm (hbuild : build quads = .ok d) (hs : symbolicRun .initial quads = .ok s)
    (h : d.Expresses s) : (d.order.filterMap d.operation?).Perm (operationsIn s quads) := by
  obtain ⟨hd, hlisted, -⟩ := build_coherent hbuild
  have hnodup : (d.order.filterMap d.operation?).Nodup := by
    refine hd.order_nodup.filterMap fun i j e hi hj => ?_
    obtain ⟨-, hi⟩ := (operation?_eq_some_iff hd).1 hi
    obtain ⟨-, hj⟩ := (operation?_eq_some_iff hd).1 hj
    exact hi.injective (build_reduced hbuild) hj
  refine (List.perm_ext_iff_of_nodup hnodup (nodup_eraseDups _)).2 fun e => ?_
  rw [← operationsIn, mem_operationsIn_iff hbuild hs h, List.mem_filterMap]
  constructor
  · rintro ⟨id, -, he⟩
    exact ⟨id, (operation?_eq_some_iff hd).1 he⟩
  · rintro ⟨id, hlive, he⟩
    exact ⟨id, hlisted id hlive.1, (operation?_eq_some_iff hd).2 ⟨hlive, he⟩⟩

/-- The block of a graph applies as many operators as there are different operations in what the
results stand for. -/
theorem length_operators_linearize (hbuild : build quads = .ok d)
    (hs : symbolicRun .initial quads = .ok s) (h : d.Expresses s) :
    (operators d.linearize).length = (operationsIn s quads).length := by
  obtain ⟨hd, -, -⟩ := build_coherent hbuild
  rw [← (operations_perm hbuild hs h).length_eq, operators_linearize hd,
    List.length_filterMap_eq_countP, List.length_filterMap_eq_countP]
  refine List.countP_congr fun id hid => ?_
  obtain ⟨e, he⟩ := exists_unfolds hd (hd.order_lt hid)
  cases hq : d.computation? id <;> simp [operation?, hq, (symbolic?_eq_some_iff hd).2 he]

/-! ### The names that operands are read under -/

/-- The operands of an operator that is read are read. -/
theorem operands_isRead (hd : d.Coherent) (hlisted : d.Listed) {op : String}
    {left right : NodeId} (h : d.valueAt? id = some (.operator op left right))
    (hread : d.IsRead id) :
    (left < d.nodes.length ∧ d.IsRead left) ∧ (right < d.nodes.length ∧ d.IsRead right) := by
  have hlt := lt_length_of_valueAt? h
  obtain ⟨hltl, hltr⟩ := hd.operands_lt h
  obtain ⟨hleft, hright⟩ := operands_mem_needed hd (hlisted id ⟨op, left, right, h⟩) h hread
  exact ⟨⟨Nat.lt_trans hltl hlt, Or.inl hleft⟩, ⟨Nat.lt_trans hltr hlt, Or.inl hright⟩⟩

/-- A node that is read is read as a numeral if it is a constant, and else under a name that belongs
to it. -/
theorem nameOf_cases (hd : d.Coherent) (hid : id < d.nodes.length ∧ d.IsRead id) :
    (∃ v, d.valueAt? id = some (.constant v) ∧
        Numeral.value? (d.nameOf d.needed id) = some v) ∨
      d.Owns (d.nameOf d.needed id) id := by
  obtain ⟨hlt, hread⟩ := hid
  obtain ⟨value, hvalue⟩ := exists_valueAt? hlt
  cases value with
  | constant v => exact Or.inl ⟨v, hvalue, value?_nameOf_constant hd hvalue d.needed⟩
  | identifier name =>
    refine Or.inr ?_
    rw [nameOf_identifier hvalue]
    cases hkept : d.surrogate? d.needed id with
    | none => exact Or.inl (lookup_of_surrogate?_eq_none hvalue hread hkept)
    | some kept => exact owns_of_surrogate? hd hvalue hkept
  | operator op left right => exact Or.inr (owns_nameOf_operator hd hvalue hread)

/-- A node that is read as a numeral is a constant. -/
theorem valueAt?_of_value?_nameOf (hd : d.Coherent) (hid : id < d.nodes.length ∧ d.IsRead id)
    {v : Value} (h : Numeral.value? (d.nameOf d.needed id) = some v) :
    d.valueAt? id = some (.constant v) := by
  rcases nameOf_cases hd hid with ⟨w, hvalue, hw⟩ | howns
  · rwa [Option.some.inj (h.symm.trans hw)]
  · rw [howns.value?_eq_none hd] at h
    cases h

/-- Different nodes are read under different names. -/
theorem nameOf_inj (hd : d.Coherent) (hr : d.Reduced) (hi : i < d.nodes.length ∧ d.IsRead i)
    (hj : j < d.nodes.length ∧ d.IsRead j) (h : d.nameOf d.needed i = d.nameOf d.needed j) :
    i = j := by
  rcases nameOf_cases hd hi with ⟨v, hvalue, hv⟩ | howns
  · rw [h] at hv
    exact hr.unique hvalue (valueAt?_of_value?_nameOf hd hj hv)
  · rcases nameOf_cases hd hj with ⟨w, -, hw⟩ | howns'
    · rw [← h, howns.value?_eq_none hd] at hw
      cases hw
    · exact howns.unique (h ▸ howns')

/-! ### The whole block -/

/-- No two instructions of the block of a graph apply the same operator to the same operands. -/
theorem nodup_operators_linearize (hd : d.Coherent) (hlisted : d.Listed) (hr : d.Reduced) :
    ((operators d.linearize).map fun q => (q.op, q.operand1, q.operand2)).Nodup := by
  rw [operators_linearize hd, List.map_filterMap]
  refine hd.order_nodup.filterMap fun i j p hi hj => ?_
  obtain ⟨q, hq, rfl⟩ := Option.map_eq_some_iff.1 hi
  obtain ⟨q', hq', hsame⟩ := Option.map_eq_some_iff.1 hj
  obtain ⟨op, left, right, hvalue, hread, rfl⟩ := (computation?_eq_some_iff hd).1 hq
  obtain ⟨op', left', right', hvalue', hread', rfl⟩ := (computation?_eq_some_iff hd).1 hq'
  obtain ⟨rfl, hleft, hright⟩ : op' = op ∧ _ = _ ∧ _ = _ := by simpa using hsame
  obtain ⟨hreadl, hreadr⟩ := operands_isRead hd hlisted hvalue hread
  obtain ⟨hreadl', hreadr'⟩ := operands_isRead hd hlisted hvalue' hread'
  obtain rfl := nameOf_inj hd hr hreadl' hreadl hleft
  obtain rfl := nameOf_inj hd hr hreadr' hreadr hright
  exact hr.unique hvalue hvalue'

/-- No instruction of the block of a graph applies an operator of arithmetic to two numerals. -/
theorem not_literals_linearize (hd : d.Coherent) (hlisted : d.Listed) (hr : d.Reduced)
    {q : Quadruple} {op : BinaryOp} (hq : q ∈ d.linearize)
    (hop : BinaryOp.ofSymbol? q.op = some op) :
    Numeral.value? q.operand1 = none ∨ Numeral.value? q.operand2 = none := by
  have hcopy : q.op ≠ Quadruple.copyOp := by
    rintro heq
    rw [heq] at hop
    cases hop
  have hmem : q ∈ operators d.linearize := List.mem_filter.2 ⟨hq, by simpa using hcopy⟩
  rw [operators_linearize hd] at hmem
  obtain ⟨id, -, hcomputation⟩ := List.mem_filterMap.1 hmem
  obtain ⟨op', left, right, hvalue, hread, rfl⟩ := (computation?_eq_some_iff hd).1 hcomputation
  obtain ⟨hleft, hright⟩ := operands_isRead hd hlisted hvalue hread
  by_contra hnot
  obtain ⟨hnotl, hnotr⟩ := not_or.1 hnot
  obtain ⟨v, hv⟩ := Option.ne_none_iff_exists'.1 hnotl
  obtain ⟨w, hw⟩ := Option.ne_none_iff_exists'.1 hnotr
  -- both operands are constants, so that the operator has been folded
  have hfold := fold?_eq_some_iff.2
    ⟨hop, valueAt?_of_value?_nameOf hd hleft hv, valueAt?_of_value?_nameOf hd hright hw⟩
  rw [hr.not_folded hvalue] at hfold
  cases hfold

end Dag

/-- The block says what the results of another block stand for with as few operators as there can
be, and says nothing twice. -/
structure Minimal (quads : List Quadruple) (s : SymbolicState) (out : List Quadruple) : Prop where
  /-- No name is written twice. -/
  results_nodup : (out.map (·.result)).Nodup
  /-- There is an operator for each operation in what the results stand for. -/
  length_operators : (operators out).length = (operationsIn s quads).length
  /-- There are not more operators than in the other block. -/
  length_operators_le : (operators out).length ≤ (operators quads).length
  /-- No operator of arithmetic is applied to two numerals. -/
  not_literals {q : Quadruple} {op : BinaryOp} (hq : q ∈ out)
    (hop : BinaryOp.ofSymbol? q.op = some op) :
    Numeral.value? q.operand1 = none ∨ Numeral.value? q.operand2 = none
  /-- No operator is applied twice to the same operands. -/
  operators_nodup : ((operators out).map fun q => (q.op, q.operand1, q.operand2)).Nodup

/-- An optimized block is minimal: it applies the operators that its results are made of, each of
them once. -/
theorem optimize_minimal {quads out : List Quadruple} (h : optimize quads = .ok out) :
    ∃ s, symbolicRun .initial quads = .ok s ∧ Minimal quads s out := by
  unfold optimize at h
  cases hbuild : Dag.build quads with
  | error e => rw [hbuild] at h; cases h
  | ok d =>
    rw [hbuild] at h
    obtain rfl : d.linearize = out := Except.ok.inj h
    obtain ⟨hd, hlisted, -⟩ := Dag.build_coherent hbuild
    have hr := Dag.build_reduced hbuild
    obtain ⟨s, hs, hexpresses⟩ := Dag.build_expresses hbuild
    have hlength := Dag.length_operators_linearize hbuild hs hexpresses
    exact ⟨s, hs, {
      results_nodup := Dag.nodup_results hd hr
      length_operators := hlength
      length_operators_le := hlength ▸ length_operationsIn_le hs
      not_literals := fun hq hop => Dag.not_literals_linearize hd hlisted hr hq hop
      operators_nodup := Dag.nodup_operators_linearize hd hlisted hr }⟩

/-- A block that has a sum again from a copy of an operand, an operator whose result is lost, and
one that can be folded. -/
def fiveOperators : List Quadruple :=
  [⟨"+", "a", "b", "x"⟩, ⟨"-", "a", "b", "T"⟩, .copy "a" "t", ⟨"+", "t", "b", "y"⟩,
    ⟨"+", "2", "3", "T"⟩, ⟨"*", "x", "T", "a"⟩]

/-- Two of its five operators are left. -/
theorem optimize_minimal_fiveOperators :
    ∃ out s, optimize fiveOperators = .ok out ∧ symbolicRun .initial fiveOperators = .ok s ∧
      Minimal fiveOperators s out ∧
      operators out = [⟨"+", "t", "b", "x"⟩, ⟨"*", "x", "5", "a"⟩] := by
  have hout : optimize fiveOperators = .ok [.copy "a" "t", ⟨"+", "t", "b", "x"⟩, .copy "x" "y",
      .copy "5" "T", ⟨"*", "x", "5", "a"⟩] := by decide +kernel
  obtain ⟨s, hs, hminimal⟩ := optimize_minimal hout
  exact ⟨_, s, hout, hs, hminimal, rfl⟩

end ArithFrontEnd
