import ArithFrontEnd.Optimizer.Indexed
import ArithFrontEnd.Proofs.Optimizer.Sharing
import Mathlib.Data.List.Nodup
import Mathlib.Logic.Relation

/-!
# What the graph of a block looks like

A graph in which the parts tell the same story and nothing is said twice represents its block: all
names stand in different places and are bound to the nodes that have them, all nodes stand for
different values, and the order of assignment has every result, and every operator after the
operators that it is computed from.

A graph that is built with tables for its constants and operators is the same, and the tables have
exactly the constants and the operators of the graph.

## Main definitions

* `Dag.IsOperandOf` — the operands of an operator.
* `Dag.Canonical` — the graph represents a block.
* `IndexedDag.InSync` — the tables have what the graph has.

## Main results

* `operand_inSync`, `copySource_inSync`, `combine_inSync`, `add_inSync` — the tables stay in step
  with the graph, and the graph is the one that is built without them.
* `build_canonical` — **the graph of a block represents it, and can be built with tables.**
-/

namespace ArithFrontEnd
namespace Dag

variable {d : Dag} {quads : List Quadruple} {id i j : NodeId} {name : String}

/-- The first node is an operand of the second one. -/
def IsOperandOf (d : Dag) (i j : NodeId) : Prop :=
  ∃ op left right, d.valueAt? j = some (.operator op left right) ∧ (i = left ∨ i = right)

/-- The graph represents a block: the conditions that hold between its parts. -/
structure Canonical (d : Dag) (quads : List Quadruple) : Prop where
  /-- No name occurs twice in the nodes. -/
  names_nodup : (d.nodes.flatMap (·.names)).Nodup
  /-- A name is bound to the node that has it. -/
  lookup_of_mem {name : String} {id : NodeId} (h : name ∈ d.namesAt id) : d.lookup name = some id
  /-- The node that a name is bound to has the name, or stands for its value on entry. -/
  mem_or_entry {name : String} {id : NodeId} (h : d.lookup name = some id) :
    name ∈ d.namesAt id ∨ d.valueAt? id = some (.identifier name)
  /-- No numeral is bound. -/
  lookup_numeral {name : String} {v : Value} (h : Numeral.value? name = some v) :
    d.lookup name = none
  /-- Operands come before their operator. -/
  operand_lt {i j : NodeId} (h : d.IsOperandOf i j) : i < j
  /-- No two nodes stand for the same value. -/
  values_nodup : (d.nodes.map (·.value)).Nodup
  /-- No operator of arithmetic has two constants for its operands. -/
  not_constants {id : NodeId} {op : BinaryOp} {left right : NodeId}
    (h : d.valueAt? id = some (.operator op.symbol left right)) :
    d.constant? left = none ∨ d.constant? right = none
  /-- No node is assigned for the first time twice. -/
  order_nodup : d.order.Nodup
  /-- Every operator has been assigned. -/
  operator_mem {id : NodeId} (h : d.IsOperator id) : id ∈ d.order
  /-- An operator is assigned after the operators that it reaches through its operands. -/
  order_lt {i j : NodeId} (hi : d.IsOperator i) (hj : d.IsOperator j)
    (h : Relation.TransGen d.IsOperandOf i j) : d.order.idxOf i < d.order.idxOf j
  /-- The nodes that hold the results of the block have been assigned. -/
  result_mem {q : Quadruple} (h : q ∈ quads) : ∃ id ∈ d.order, q.result ∈ d.namesAt id

/-! ### The nodes of a graph -/

theorem namesAt_eq_getElem (h : id < d.nodes.length) : d.namesAt id = d.nodes[id].names := by
  simp [namesAt, node?, List.getElem?_eq_getElem h]

theorem valueAt?_eq_getElem (h : id < d.nodes.length) :
    d.valueAt? id = some d.nodes[id].value := by
  simp [valueAt?, node?, List.getElem?_eq_getElem h]

/-- A value is that of the new node or of an old one. -/
theorem valueAt?_push_eq_some_iff {node : Node} {value : NodeValue} :
    (d.push node).valueAt? id = some value ↔
      (id = d.nodes.length ∧ node.value = value) ∨ d.valueAt? id = some value := by
  rw [valueAt?_push]
  split
  · next hid =>
    have hnone : d.valueAt? id ≠ some value :=
      fun h => Nat.ne_of_lt (lt_length_of_valueAt? h) hid
    simp [hid ▸ hnone, hid]
  · next hid => simp [hid]

/-- A name that is bound where it stands, and stands there once, stands nowhere else. -/
theorem Coherent.names_nodup (hd : d.Coherent) (hr : d.Reduced) :
    (d.nodes.flatMap (·.names)).Nodup := by
  refine List.nodup_flatMap.2 ⟨fun node hnode => ?_, ?_⟩
  · obtain ⟨id, hid, rfl⟩ := List.getElem_of_mem hnode
    exact namesAt_eq_getElem hid ▸ hr.names_nodup id
  · refine List.pairwise_iff_getElem.2 fun i j hi hj hlt name hni hnj => ?_
    have hati : name ∈ d.namesAt i := namesAt_eq_getElem hi ▸ hni
    have hatj : name ∈ d.namesAt j := namesAt_eq_getElem hj ▸ hnj
    have heq : some i = some j := (hd.bound_of_named hati).symm.trans (hd.bound_of_named hatj)
    exact Nat.ne_of_lt hlt (Option.some.inj heq)

theorem Reduced.values_nodup (hr : d.Reduced) : (d.nodes.map (·.value)).Nodup := by
  refine List.pairwise_map.2 (List.pairwise_iff_getElem.2 fun i j hi hj hlt heq => ?_)
  refine Nat.ne_of_lt hlt (hr.unique (valueAt?_eq_getElem hi) ?_)
  rw [heq, valueAt?_eq_getElem hj]

theorem Reduced.not_constants (hr : d.Reduced) {op : BinaryOp} {left right : NodeId}
    (h : d.valueAt? id = some (.operator op.symbol left right)) :
    d.constant? left = none ∨ d.constant? right = none := by
  cases hleft : d.constant? left with
  | none => exact Or.inl rfl
  | some a =>
    cases hright : d.constant? right with
    | none => exact Or.inr rfl
    | some b =>
      have hfold : d.fold? op.symbol left right = some (op, a, b) :=
        fold?_eq_some_iff.2 ⟨BinaryOp.ofSymbol?_symbol op, constant?_eq_some_iff.1 hleft,
          constant?_eq_some_iff.1 hright⟩
      rw [hr.not_folded h] at hfold
      contradiction

/-! ### The order of assignment -/

theorem Coherent.isOperandOf_lt (hd : d.Coherent) (h : d.IsOperandOf i j) : i < j := by
  obtain ⟨op, left, right, hvalue, rfl | rfl⟩ := h
  · exact (hd.operands_lt hvalue).1
  · exact (hd.operands_lt hvalue).2

/-- What is reached through operands comes before. -/
theorem Coherent.lt_of_transGen (hd : d.Coherent) (h : Relation.TransGen d.IsOperandOf i j) :
    i < j := by
  induction h with
  | single h => exact hd.isOperandOf_lt h
  | tail _ h ih => exact Nat.lt_trans ih (hd.isOperandOf_lt h)

/-- Operators that have been assigned have their places in the order of their numbers. -/
theorem Coherent.idxOf_lt (hd : d.Coherent) (hlisted : d.Listed) (hi : d.IsOperator i)
    (hj : d.IsOperator j) (hlt : i < j) : d.order.idxOf i < d.order.idxOf j := by
  have hmi := List.idxOf_lt_length_of_mem (hlisted i hi)
  have hmj := List.idxOf_lt_length_of_mem (hlisted j hj)
  rcases Nat.lt_trichotomy (d.order.idxOf i) (d.order.idxOf j) with h | h | h
  · exact h
  · exact absurd ((List.idxOf_inj (hlisted i hi)).1 h) (Nat.ne_of_lt hlt)
  · have hsorted := List.pairwise_iff_getElem.1 hd.order_sorted _ _ hmj hmi h
    rw [List.getElem_idxOf, List.getElem_idxOf] at hsorted
    exact absurd (hsorted hj hi) (Nat.lt_asymm hlt)

/-! ### The results of a block -/

/-- The name stands in a node that has been assigned. -/
def Holds (d : Dag) (name : String) : Prop := ∃ id ∈ d.order, name ∈ d.namesAt id

variable {d' : Dag}

/-- Nodes that are added leave the names of the old ones. -/
theorem Holds.push (h : d.Holds name) (node : Node) : (d.push node).Holds name := by
  obtain ⟨id, hid, hname⟩ := h
  refine ⟨id, hid, ?_⟩
  rwa [namesAt_push, if_neg (Nat.ne_of_lt (lt_length_of_mem_namesAt hname))]

theorem Holds.intern {value : NodeValue} {literal : Option String} (h : d.Holds name)
    (hintern : d.intern value literal = (id, d')) : d'.Holds name := by
  obtain ⟨-, rfl⟩ | ⟨-, rfl, rfl⟩ := intern_cases hintern
  · exact h
  · exact h.push _

theorem Holds.resolve {text : String} {names : List String} (h : d.Holds name)
    (hresolve : d.resolve text names = (id, d')) : d'.Holds name := by
  obtain ⟨-, rfl⟩ | ⟨v, -, -, hv⟩ | ⟨-, -, rfl, rfl⟩ := resolve_cases hresolve
  · exact h
  · exact h.intern hv
  · exact h.push _

theorem Holds.combine {op : String} {left right : NodeId} (h : d.Holds name)
    (hcombine : d.combine op left right = .ok (id, d')) : d'.Holds name := by
  rcases combine_cases hcombine with ⟨-, -, -, v, -, -, -, -, hintern⟩ | ⟨-, hintern⟩
  · exact h.intern hintern
  · exact h.intern hintern

/-- A name that is given to a node stands in it, and the others stay where they are. -/
theorem holds_assign {other : String} (hid : id < d.nodes.length)
    (h : other = name ∨ d.Holds other) : (d.assign name id).Holds other := by
  by_cases heq : other = name
  · exact ⟨id, mem_order_assign.2 (Or.inr rfl), mem_namesAt_assign.2 (Or.inr ⟨heq, rfl, hid⟩)⟩
  · obtain ⟨j, hj, hother⟩ := h.resolve_left heq
    exact ⟨j, mem_order_assign.2 (Or.inl hj),
      mem_namesAt_assign.2 (Or.inl ⟨hother, fun hand => heq hand.1⟩)⟩

theorem holds_of_add {index : Nat} {q : Quadruple} {other : String} (hd : d.Coherent)
    (hlisted : d.Listed) (hadd : d.add index q = .ok d') (h : other = q.result ∨ d.Holds other) :
    d'.Holds other := by
  obtain ⟨-, ⟨-, -, id, d₁, hsource, rfl⟩ |
    ⟨hop, -, left, d₁, right, d₂, id, d₃, hleft, hright, hcombine, rfl⟩⟩ := add_cases hadd
  · obtain ⟨-, -, -, hid⟩ := resolve_coherent hd hlisted (by simp) hsource
    exact holds_assign hid (h.imp_right (·.resolve hsource))
  · obtain ⟨hd₁, hlisted₁, -, hlt₁⟩ := resolve_coherent hd hlisted (by simp) hleft
    obtain ⟨hd₂, hlisted₂, hext, hlt₂⟩ := resolve_coherent hd₁ hlisted₁ (by simp) hright
    obtain ⟨-, -, -, hid⟩ := combine_coherent hd₂ hlisted₂
      (Nat.lt_of_lt_of_le hlt₁ hext.length_le) hlt₂ hop hcombine
    exact holds_assign hid
      (h.imp_right fun hother => ((hother.resolve hleft).resolve hright).combine hcombine)

theorem holds_of_addAll {index : Nat} {other : String} (hd : d.Coherent) (hlisted : d.Listed)
    (haddAll : d.addAll index quads = .ok d')
    (h : (∃ q ∈ quads, other = q.result) ∨ d.Holds other) : d'.Holds other := by
  induction quads generalizing d index with
  | nil =>
    obtain rfl := Except.ok.inj haddAll
    simpa using h
  | cons q quads ih =>
    obtain ⟨d₁, hadd, haddAll⟩ := addAll_cons_eq_ok_iff.1 haddAll
    obtain ⟨hd₁, hlisted₁, -⟩ := add_coherent hd hlisted hadd
    refine ih hd₁ hlisted₁ haddAll ?_
    rcases h with ⟨q', hq', hresult⟩ | hother
    · rcases List.mem_cons.1 hq' with rfl | hrest
      · exact Or.inr (holds_of_add hd hlisted hadd (Or.inl hresult))
      · exact Or.inl ⟨q', hrest, hresult⟩
    · exact Or.inr (holds_of_add hd hlisted hadd (Or.inr hother))

/-- The graph of a block represents it. -/
theorem canonical_of_build (h : build quads = .ok d) : d.Canonical quads := by
  obtain ⟨hd, hlisted, -⟩ := build_coherent h
  have hr := build_reduced h
  exact {
    names_nodup := hd.names_nodup hr
    lookup_of_mem := hd.bound_of_named
    mem_or_entry := hd.named_or_entry
    lookup_numeral := fun hv => by
      refine Option.eq_none_iff_forall_ne_some.2 fun id hid => ?_
      rw [hd.not_numeral hid] at hv
      contradiction
    operand_lt := hd.isOperandOf_lt
    values_nodup := hr.values_nodup
    not_constants := hr.not_constants
    order_nodup := hd.order_nodup
    operator_mem := hlisted _
    order_lt := fun hi hj hreach => hd.idxOf_lt hlisted hi hj (hd.lt_of_transGen hreach)
    result_mem := fun hq =>
      holds_of_addAll empty_coherent empty_listed h (Or.inl ⟨_, hq, rfl⟩) }

end Dag

namespace IndexedDag

variable {d d' : IndexedDag} {id : NodeId}

/-- The tables have the constants and the operators of the graph. -/
structure InSync (d : IndexedDag) : Prop where
  /-- The table of constants has the nodes of constants. -/
  constants_lookup {v : Value} {id : NodeId} :
    d.constants.lookup v = some id ↔ d.dag.valueAt? id = some (.constant v)
  /-- The table of operators has the nodes of operators. -/
  operators_lookup {op : String} {left right id : NodeId} :
    d.operators.lookup (op, left, right) = some id ↔
      d.dag.valueAt? id = some (.operator op left right)

theorem empty_inSync : empty.InSync where
  constants_lookup := by simp [empty, Dag.valueAt?, Dag.node?, Dag.empty]
  operators_lookup := by simp [empty, Dag.valueAt?, Dag.node?, Dag.empty]

/-- The tables stay in step while no constant and no operator comes or goes. -/
theorem InSync.congr (hd : d.InSync) {dag : Dag}
    (h : ∀ id value, (∀ name, value ≠ .identifier name) →
      (dag.valueAt? id = some value ↔ d.dag.valueAt? id = some value)) :
    InSync { d with dag := dag } where
  constants_lookup := hd.constants_lookup.trans (h _ _ (by simp)).symm
  operators_lookup := hd.operators_lookup.trans (h _ _ (by simp)).symm

/-- A node of a value that is new leaves the tables in step if it is entered where it belongs. -/
theorem InSync.push (hd : d.InSync) {node : Node} (hdag : d'.dag = d.dag.push node)
    (hnew : ∀ id, d.dag.valueAt? id ≠ some node.value)
    (hconstants : ∀ v, d'.constants.lookup v =
      if node.value = .constant v then some d.next else d.constants.lookup v)
    (hoperators : ∀ op left right, d'.operators.lookup (op, left, right) =
      if node.value = .operator op left right then some d.next
      else d.operators.lookup (op, left, right)) : d'.InSync where
  constants_lookup {v id} := by
    rw [hconstants, hdag, Dag.valueAt?_push_eq_some_iff]
    split
    · next hvalue => simp [hvalue, hvalue ▸ hnew id, next, eq_comm]
    · next hvalue => simp [hvalue, hd.constants_lookup]
  operators_lookup {op left right id} := by
    rw [hoperators, hdag, Dag.valueAt?_push_eq_some_iff]
    split
    · next hvalue => simp [hvalue, hvalue ▸ hnew id, next, eq_comm]
    · next hvalue => simp [hvalue, hd.operators_lookup]

/-- A constant that is looked up is found where a search finds it, and is entered when it is new. -/
theorem constant_inSync (hd : d.InSync) (v : Value) (literal : Option String) :
    ∃ id d', d.constant v literal = (id, d') ∧
      d.dag.intern (.constant v) literal = (id, d'.dag) ∧ d'.InSync := by
  obtain ⟨id, dag, hintern⟩ : ∃ id dag, d.dag.intern (.constant v) literal = (id, dag) :=
    ⟨_, _, rfl⟩
  rw [hintern]
  obtain ⟨hid, rfl⟩ | ⟨hnew, rfl, rfl⟩ := Dag.intern_cases hintern
  · refine ⟨id, d, ?_, rfl, hd⟩
    rw [constant, hd.constants_lookup.2 hid]
  · have hnone : d.constants.lookup v = none :=
      Option.eq_none_iff_forall_ne_some.2 fun id hid => hnew id (hd.constants_lookup.1 hid)
    refine ⟨_, _, by rw [constant, hnone], rfl, hd.push rfl hnew (fun w => ?_) fun _ _ _ => ?_⟩
    · simp only [Dag.lookup_cons, NodeValue.constant.injEq, eq_comm]
    · rw [if_neg (by simp)]
      rfl

/-- The same for an operator. -/
theorem operator_inSync (hd : d.InSync) (op : String) (left right : NodeId) :
    ∃ id d', d.operator op left right = (id, d') ∧
      d.dag.intern (.operator op left right) none = (id, d'.dag) ∧ d'.InSync := by
  obtain ⟨id, dag, hintern⟩ : ∃ id dag, d.dag.intern (.operator op left right) none = (id, dag) :=
    ⟨_, _, rfl⟩
  rw [hintern]
  obtain ⟨hid, rfl⟩ | ⟨hnew, rfl, rfl⟩ := Dag.intern_cases hintern
  · refine ⟨id, d, ?_, rfl, hd⟩
    rw [operator, hd.operators_lookup.2 hid]
  · have hnone : d.operators.lookup (op, left, right) = none :=
      Option.eq_none_iff_forall_ne_some.2 fun id hid => hnew id (hd.operators_lookup.1 hid)
    refine ⟨_, _, by rw [operator, hnone], rfl, hd.push rfl hnew (fun w => ?_) fun _ _ _ => ?_⟩
    · rw [if_neg (by simp)]
      rfl
    · simp only [Dag.lookup_cons, NodeValue.operator.injEq, Prod.mk.injEq, eq_comm]

/-- An operand has a node already, or it gets one that stands for its value on entry and has its
name. -/
theorem operand_cases (hd : d.InSync) (text : String) :
    (∃ id d', d.operand text = ((id, false), d') ∧ d'.InSync ∧
        ∀ names, d.dag.resolve text names = (id, d'.dag)) ∨
      (∃ d', d.operand text = ((d.next, true), d') ∧ d'.InSync ∧
        d'.dag = d.dag.enter text [text] ∧
        ∀ names, d.dag.resolve text names = (d.next, d.dag.enter text names)) := by
  unfold operand Dag.resolve
  cases d.dag.lookup text with
  | some id => exact Or.inl ⟨id, d, rfl, hd, fun _ => rfl⟩
  | none =>
    cases Numeral.value? text with
    | some v =>
      obtain ⟨id, d', hconstant, hintern, hd'⟩ := constant_inSync hd v (some text)
      exact Or.inl ⟨id, d', by simp only [hconstant], hd', fun _ => hintern⟩
    | none =>
      refine Or.inr ⟨_, rfl, hd.congr fun id value hvalue => ?_, rfl, fun _ => rfl⟩
      refine Dag.valueAt?_push_eq_some_iff.trans (or_iff_right ?_)
      exact fun hnew => hvalue text hnew.2.symm

theorem operand_inSync (hd : d.InSync) (text : String) :
    ∃ id fresh d', d.operand text = ((id, fresh), d') ∧ d.dag.operand text = (id, d'.dag) ∧
      d'.InSync := by
  rcases operand_cases hd text with ⟨id, d', hoperand, hd', hresolve⟩ |
    ⟨d', hoperand, hd', hdag, hresolve⟩
  · exact ⟨id, false, d', hoperand, hresolve [text], hd'⟩
  · exact ⟨d.next, true, d', hoperand, hdag ▸ hresolve [text], hd'⟩

/-- A node that has entered with a name and has lost it is one that has entered without. -/
theorem clear_enter {text : String} (hdag : d'.dag = d.dag.enter text [text]) :
    (d'.clear d.next).dag = d.dag.enter text [] := by
  simp [clear, hdag, Dag.enter, Dag.push, next, List.modify_eq_take_drop]

theorem clear_inSync (hd : d.InSync) (id : NodeId) : (d.clear id).InSync := by
  refine hd.congr fun other value _ => ?_
  simp only [Dag.valueAt?, Dag.node?, List.getElem?_modify, Option.map_eq_map, Option.map_map]
  rw [Option.map_congr]
  intro node _
  simp only [Function.comp]
  split <;> rfl

theorem copySource_inSync (hd : d.InSync) (text : String) :
    ∃ id d', d.copySource text = (id, d') ∧ d.dag.copySource text = (id, d'.dag) ∧ d'.InSync := by
  rcases operand_cases hd text with ⟨id, d', hoperand, hd', hresolve⟩ |
    ⟨d', hoperand, hd', hdag, hresolve⟩
  · exact ⟨id, d', by simp [copySource, hoperand], hresolve [], hd'⟩
  · refine ⟨d.next, d'.clear d.next, by simp [copySource, hoperand], ?_, ?_⟩
    · exact clear_enter hdag ▸ hresolve []
    · exact clear_inSync hd' d.next

theorem combine_inSync (hd : d.InSync) (op : String) (left right : NodeId) :
    (∃ cause, d.combine op left right = .error cause ∧
        d.dag.combine op left right = .error cause) ∨
      ∃ id d', d.combine op left right = .ok (id, d') ∧
        d.dag.combine op left right = .ok (id, d'.dag) ∧ d'.InSync := by
  unfold combine Dag.combine
  cases d.dag.fold? op left right with
  | none =>
    obtain ⟨id, d', hoperator, hintern, hd'⟩ := operator_inSync hd op left right
    exact Or.inr ⟨id, d', by simp only [hoperator], by simp only [hintern], hd'⟩
  | some folded =>
    obtain ⟨op, a, b⟩ := folded
    dsimp only
    cases op.apply a b with
    | error cause => exact Or.inl ⟨cause, rfl, rfl⟩
    | ok v =>
      obtain ⟨id, d', hconstant, hintern, hd'⟩ := constant_inSync hd v none
      exact Or.inr ⟨id, d', by simp only [Except.map, hconstant],
        by simp only [Except.map, hintern], hd'⟩

theorem assign_inSync (hd : d.InSync) (name : String) (id : NodeId) : (d.assign name id).InSync :=
  hd.congr fun _ _ _ => by rw [Dag.valueAt?_assign]

/-- An instruction does the same to a graph with tables and to one without, and the tables stay in
step. -/
theorem add_inSync (hd : d.InSync) (index : Nat) (q : Quadruple) :
    (∃ e, d.add index q = .error e ∧ d.dag.add index q = .error e) ∨
      ∃ d', d.add index q = .ok d' ∧ d.dag.add index q = .ok d'.dag ∧ d'.InSync := by
  unfold add Dag.add
  cases q.malformed? with
  | some what => exact Or.inl ⟨_, rfl, rfl⟩
  | none =>
    dsimp only
    split
    · obtain ⟨id, d₁, hsource, hdag, hd₁⟩ := copySource_inSync hd q.operand1
      exact Or.inr ⟨d₁.assign q.result id, by simp only [hsource], by simp only [hdag]; rfl,
        assign_inSync hd₁ _ _⟩
    · obtain ⟨left, _, d₁, hleft, hdag₁, hd₁⟩ := operand_inSync hd q.operand1
      obtain ⟨right, _, d₂, hright, hdag₂, hd₂⟩ := operand_inSync hd₁ q.operand2
      simp only [hleft, hdag₁, hright, hdag₂]
      rcases combine_inSync hd₂ q.op left right with
        ⟨cause, hcombine, hdag₃⟩ | ⟨id, d₃, hcombine, hdag₃, hd₃⟩
      · simp only [hcombine, hdag₃]
        exact Or.inl ⟨_, rfl, rfl⟩
      · simp only [hcombine, hdag₃]
        exact Or.inr ⟨_, rfl, rfl, assign_inSync hd₃ _ _⟩

/-- A block does the same to a graph with tables and to one without. -/
theorem addAll_inSync (hd : d.InSync) (index : Nat) (quads : List Quadruple) :
    (∃ e, d.addAll index quads = .error e ∧ d.dag.addAll index quads = .error e) ∨
      ∃ d', d.addAll index quads = .ok d' ∧ d.dag.addAll index quads = .ok d'.dag ∧ d'.InSync := by
  induction quads generalizing d index with
  | nil => exact Or.inr ⟨d, rfl, rfl, hd⟩
  | cons q quads ih =>
    unfold addAll Dag.addAll
    rcases add_inSync hd index q with ⟨e, hadd, hdag⟩ | ⟨d₁, hadd, hdag, hd₁⟩
    · rw [hadd, hdag]
      exact Or.inl ⟨e, rfl, rfl⟩
    · rw [hadd, hdag]
      exact ih hd₁ (index + 1)

end IndexedDag

namespace Dag

/-- The graph of a block represents it, and it is the one that is built with tables, which have its
constants and its operators. -/
theorem build_canonical {quads : List Quadruple} {d : Dag} (h : build quads = .ok d) :
    d.Canonical quads ∧
      ∃ indexed, IndexedDag.build quads = .ok indexed ∧ indexed.dag = d ∧ indexed.InSync := by
  refine ⟨canonical_of_build h, ?_⟩
  rcases IndexedDag.addAll_inSync IndexedDag.empty_inSync 0 quads with
    ⟨e, -, hdag⟩ | ⟨indexed, hindexed, hdag, hsync⟩
  · exact absurd (hdag.symm.trans h) (by simp)
  · exact ⟨indexed, hindexed, Except.ok.inj (hdag.symm.trans h), hsync⟩

/-- A block in which names are passed on and assigned again, a sum is found again under the copy of
an operand, a product is folded, and its value is met again as a numeral. -/
def reassigned : List Quadruple :=
  [⟨"+", "a", "b", "x"⟩, .copy "a" "t", .copy "x" "a", ⟨"+", "t", "b", "y"⟩, ⟨"*", "2", "3", "c"⟩,
    .copy "6" "k", ⟨"/", "y", "c", "z"⟩, .copy "u" "w", .copy "t" "x"]

/-- The quotient is assigned after the sum that it reaches, and the two ways to write six have one
node, which the table has too. -/
theorem build_canonical_reassigned :
    ∃ d indexed, build reassigned = .ok d ∧ d.Canonical reassigned ∧
      IndexedDag.build reassigned = .ok indexed ∧ indexed.dag = d ∧ indexed.InSync ∧
      d.order.idxOf 2 < d.order.idxOf 6 ∧ indexed.constants.lookup 6 = some 5 := by
  obtain ⟨d, hd, hsum, hquotient, hsix⟩ : ∃ d, build reassigned = .ok d ∧
      d.valueAt? 2 = some (.operator "+" 0 1) ∧ d.valueAt? 6 = some (.operator "/" 2 5) ∧
      d.valueAt? 5 = some (.constant 6) := ⟨_, rfl, rfl, rfl, rfl⟩
  obtain ⟨hcanonical, indexed, hindexed, hdag, hsync⟩ := build_canonical hd
  refine ⟨d, indexed, hd, hcanonical, hindexed, hdag, hsync, ?_, ?_⟩
  · exact hcanonical.order_lt ⟨_, _, _, hsum⟩ ⟨_, _, _, hquotient⟩
      (.single ⟨_, _, _, hquotient, Or.inl rfl⟩)
  · rw [hsync.constants_lookup, hdag, hsix]

end Dag
end ArithFrontEnd
