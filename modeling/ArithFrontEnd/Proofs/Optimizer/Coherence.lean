import ArithFrontEnd.Proofs.Optimizer.Nodes

/-!
# Coherent graphs

The parts of a graph tell the same story.  A name is in the list of the node that it is bound to,
and in no other; it is missing there only if it stands for its value on entry.  Operands come before
the operators that use them, and operators are assigned in the order in which they were made.

An operator is not listed between its making and its assignment, so that every node is listed is
kept apart from the rest.

## Main definitions

* `Dag.Coherent` — the invariant of a graph.
* `Dag.Listed`, `Dag.ListedBut` — every operator has been assigned; every operator but one.
* `Dag.Extends` — one graph has the nodes and the bindings of another.

## Main results

* `resolve_coherent`, `combine_coherent`, `assign_coherent` — what the parts of an instruction keep.
* `add_coherent`, `build_coherent` — **a block has a coherent graph.**
-/

namespace ArithFrontEnd
namespace Dag

/-- The parts of a graph agree with each other. -/
structure Coherent (d : Dag) : Prop where
  /-- A name is bound to the node that has it. -/
  bound_of_named {name : String} {id : NodeId} (h : name ∈ d.namesAt id) : d.lookup name = some id
  /-- A name that its node does not have stands for its value on entry. -/
  named_or_entry {name : String} {id : NodeId} (h : d.lookup name = some id) :
    name ∈ d.namesAt id ∨ d.valueAt? id = some (.identifier name)
  /-- A name with a value on entry is bound. -/
  bound_of_entry {name : String} {id : NodeId} (h : d.valueAt? id = some (.identifier name)) :
    d.lookup name ≠ none
  /-- No numeral is bound. -/
  not_numeral {name : String} {id : NodeId} (h : d.lookup name = some id) :
    Numeral.value? name = none
  /-- Operands come before their operator. -/
  operands_lt {id : NodeId} {op : String} {left right : NodeId}
    (h : d.valueAt? id = some (.operator op left right)) : left < id ∧ right < id
  /-- A copy is no operator. -/
  ne_copyOp {id : NodeId} {op : String} {left right : NodeId}
    (h : d.valueAt? id = some (.operator op left right)) : op ≠ Quadruple.copyOp
  /-- A constant is written as a numeral of its value. -/
  literal_value {id : NodeId} {v : Value} {literal : String}
    (h : d.valueAt? id = some (.constant v)) (hliteral : d.literalAt? id = some literal) :
    Numeral.value? literal = some v
  /-- The nodes that have been assigned are nodes. -/
  order_lt {id : NodeId} (h : id ∈ d.order) : id < d.nodes.length
  /-- A node is assigned for the first time once. -/
  order_nodup : d.order.Nodup
  /-- Operators are assigned in the order of their numbers. -/
  order_sorted : d.order.Pairwise fun i j => d.IsOperator i → d.IsOperator j → i < j
  /-- A name is assigned, or its node stands for its own value on entry. -/
  ordered_of_named {name : String} {id : NodeId} (h : name ∈ d.namesAt id) :
    id ∈ d.order ∨ d.valueAt? id = some (.identifier name)

/-- A bound name stands for a node of the graph. -/
theorem Coherent.lookup_lt {d : Dag} (hd : d.Coherent) {name : String} {id : NodeId}
    (h : d.lookup name = some id) : id < d.nodes.length := by
  rcases hd.named_or_entry h with hname | hentry
  · exact lt_length_of_mem_namesAt hname
  · exact lt_length_of_valueAt? hentry

/-- A name that is given to a node leaves the one that had it, if there is one. -/
theorem Coherent.namesAt_assign {d : Dag} (hd : d.Coherent) {j : NodeId}
    (hj : j < d.nodes.length) (name : String) (id : NodeId) : (d.assign name id).namesAt j =
      (d.namesAt j).filter (· ≠ name) ++ if j = id then [name] else [] := by
  rw [Dag.namesAt_assign hj]
  split
  · rfl
  · next hold =>
    have hnot : name ∉ d.namesAt j := fun hmem => hold (hd.bound_of_named hmem)
    rw [List.filter_eq_self.2]
    intro other hother
    have hne : other ≠ name := fun heq => hnot (heq ▸ hother)
    simp [hne]

theorem ne_of_lookup {d : Dag} {name text : String} {id : NodeId} (h : d.lookup name = some id)
    (hunbound : d.lookup text = none) : name ≠ text := by
  rintro rfl
  rw [hunbound] at h
  contradiction

/-- Every operator but perhaps this one has been assigned, and this one is the last node. -/
def ListedBut (d : Dag) (id : NodeId) : Prop :=
  ∀ j, d.IsOperator j → j ∈ d.order ∨ (j = id ∧ j + 1 = d.nodes.length)

/-- Every operator has been assigned. -/
def Listed (d : Dag) : Prop := ∀ j, d.IsOperator j → j ∈ d.order

theorem Listed.listedBut {d : Dag} (h : d.Listed) (id : NodeId) : d.ListedBut id :=
  fun j hj => Or.inl (h j hj)

/-- One graph has the nodes and the bindings of another. -/
structure Extends (d d' : Dag) : Prop where
  /-- No node is lost. -/
  length_le : d.nodes.length ≤ d'.nodes.length
  /-- The old nodes stand for what they stood for. -/
  valueAt?_eq {id : NodeId} (h : id < d.nodes.length) : d'.valueAt? id = d.valueAt? id
  /-- The old bindings are still there. -/
  lookup_eq {name : String} {id : NodeId} (h : d.lookup name = some id) : d'.lookup name = some id

theorem Extends.refl (d : Dag) : Extends d d := ⟨Nat.le_refl _, fun _ => rfl, id⟩

theorem Extends.trans {d₁ d₂ d₃ : Dag} (h₁ : Extends d₁ d₂) (h₂ : Extends d₂ d₃) :
    Extends d₁ d₃ where
  length_le := Nat.le_trans h₁.length_le h₂.length_le
  valueAt?_eq hlt := by
    rw [h₂.valueAt?_eq (Nat.lt_of_lt_of_le hlt h₁.length_le), h₁.valueAt?_eq hlt]
  lookup_eq h := h₂.lookup_eq (h₁.lookup_eq h)

theorem extends_push (d : Dag) (node : Node) : Extends d (d.push node) where
  length_le := by simp
  valueAt?_eq hlt := by rw [valueAt?_push, if_neg (Nat.ne_of_lt hlt)]
  lookup_eq h := h

theorem extends_enter {d : Dag} {text : String} (names : List String)
    (hunbound : d.lookup text = none) : Extends d (d.enter text names) where
  length_le := by simp
  valueAt?_eq hlt := by rw [valueAt?_enter, if_neg (Nat.ne_of_lt hlt)]
  lookup_eq h := by rw [lookup_enter, if_neg (ne_of_lookup h hunbound), h]

/-- The node that is found or made for a value stands for it. -/
theorem valueAt?_of_intern {d d' : Dag} {id : NodeId} {value : NodeValue} {literal : Option String}
    (h : d.intern value literal = (id, d')) : d'.valueAt? id = some value ∧ Extends d d' := by
  obtain ⟨hj, rfl⟩ | ⟨-, rfl, rfl⟩ := intern_cases h
  · exact ⟨hj, Extends.refl _⟩
  · exact ⟨by simp, extends_push _ _⟩

/-- A node below the old length is an operator exactly if it was one. -/
theorem Extends.isOperator_iff {d d' : Dag} (h : Extends d d') {id : NodeId}
    (hlt : id < d.nodes.length) : d'.IsOperator id ↔ d.IsOperator id := by
  simp only [IsOperator, h.valueAt?_eq hlt]

/-- The order of assignment stays sorted when nodes are added. -/
theorem Coherent.order_sorted_of_extends {d d' : Dag} (hd : d.Coherent) (h : Extends d d') :
    d.order.Pairwise fun i j => d'.IsOperator i → d'.IsOperator j → i < j := by
  refine hd.order_sorted.imp_of_mem fun hi hj hlt oi oj => ?_
  exact hlt ((h.isOperator_iff (hd.order_lt hi)).1 oi) ((h.isOperator_iff (hd.order_lt hj)).1 oj)

/-! ### Nodes that are added -/

theorem empty_coherent : empty.Coherent where
  bound_of_named h := by simp [namesAt, node?, empty] at h
  named_or_entry h := by simp [lookup, empty] at h
  bound_of_entry h := by simp [valueAt?, node?, empty] at h
  not_numeral h := by simp [lookup, empty] at h
  operands_lt h := by simp [valueAt?, node?, empty] at h
  ne_copyOp h := by simp [valueAt?, node?, empty] at h
  literal_value h := by simp [valueAt?, node?, empty] at h
  order_lt h := by simp [empty] at h
  order_nodup := List.nodup_nil
  order_sorted := List.Pairwise.nil
  ordered_of_named h := by simp [namesAt, node?, empty] at h

theorem empty_listed : empty.Listed := by
  rintro j ⟨op, left, right, h⟩
  simp [valueAt?, node?, empty] at h

/-- A node without names that is no value on entry can be added. -/
theorem push_coherent {d : Dag} (hd : d.Coherent) {value : NodeValue} {literal : Option String}
    (hentry : ∀ name, value ≠ .identifier name)
    (hoperator : ∀ op left right, value = .operator op left right →
      (left < d.nodes.length ∧ right < d.nodes.length) ∧ op ≠ Quadruple.copyOp)
    (hliteral : ∀ v text, value = .constant v → literal = some text →
      Numeral.value? text = some v) :
    (d.push ⟨[], value, literal⟩).Coherent where
  bound_of_named {name id} h := by
    rw [namesAt_push] at h
    split at h
    · simp at h
    · exact hd.bound_of_named h
  named_or_entry {name id} h := by
    have hold := hd.named_or_entry h
    have hne : id ≠ d.nodes.length := Nat.ne_of_lt (hd.lookup_lt h)
    rwa [namesAt_push, valueAt?_push, if_neg hne, if_neg hne]
  bound_of_entry {name id} h := by
    rw [valueAt?_push] at h
    split at h
    · exact absurd (Option.some.inj h) (hentry name)
    · exact hd.bound_of_entry h
  not_numeral h := hd.not_numeral h
  operands_lt {id op left right} h := by
    rw [valueAt?_push] at h
    split at h
    · next heq => exact heq ▸ (hoperator op left right (Option.some.inj h)).1
    · exact hd.operands_lt h
  ne_copyOp {id op left right} h := by
    rw [valueAt?_push] at h
    split at h
    · exact (hoperator op left right (Option.some.inj h)).2
    · exact hd.ne_copyOp h
  literal_value {id v text} h htext := by
    rw [valueAt?_push] at h
    rw [literalAt?_push] at htext
    split at h
    · next heq =>
      rw [if_pos heq] at htext
      exact hliteral v text (Option.some.inj h) htext
    · next hne =>
      rw [if_neg hne] at htext
      exact hd.literal_value h htext
  order_lt {id} h := by
    have hlt := hd.order_lt h
    rw [length_push]
    exact Nat.lt_succ_of_lt hlt
  order_nodup := hd.order_nodup
  order_sorted := hd.order_sorted_of_extends (extends_push d _)
  ordered_of_named {name id} h := by
    rw [namesAt_push] at h
    split at h
    · simp at h
    · next hne =>
      rw [valueAt?_push, if_neg hne]
      exact hd.ordered_of_named h

/-- A name can enter the block if it is not bound, and its node may have it or not. -/
theorem enter_coherent {d : Dag} (hd : d.Coherent) {text : String} {names : List String}
    (hunbound : d.lookup text = none) (hvalue : Numeral.value? text = none)
    (hnames : ∀ name ∈ names, name = text) : (d.enter text names).Coherent where
  bound_of_named {name id} h := by
    rw [namesAt_enter] at h
    rw [lookup_enter]
    split at h
    · next heq => rw [if_pos (hnames name h), heq]
    · have hbound := hd.bound_of_named h
      rw [if_neg (ne_of_lookup hbound hunbound), hbound]
  named_or_entry {name id} h := by
    rw [lookup_enter] at h
    split at h
    · next heq =>
      refine Or.inr ?_
      rw [valueAt?_enter, if_pos (Option.some.inj h).symm, heq]
    · have hold := hd.named_or_entry h
      have hne : id ≠ d.nodes.length := Nat.ne_of_lt (hd.lookup_lt h)
      rwa [namesAt_enter, valueAt?_enter, if_neg hne, if_neg hne]
  bound_of_entry {name id} h := by
    rw [valueAt?_enter] at h
    rw [lookup_enter]
    split
    · simp
    · next hne =>
      split at h
      · exact absurd (NodeValue.identifier.inj (Option.some.inj h)).symm hne
      · exact hd.bound_of_entry h
  not_numeral {name id} h := by
    rw [lookup_enter] at h
    split at h
    · next heq => rwa [heq]
    · exact hd.not_numeral h
  operands_lt {id op left right} h := by
    rw [valueAt?_enter] at h
    split at h
    · cases h
    · exact hd.operands_lt h
  ne_copyOp {id op left right} h := by
    rw [valueAt?_enter] at h
    split at h
    · cases h
    · exact hd.ne_copyOp h
  literal_value {id v literal} h hliteral := by
    rw [valueAt?_enter] at h
    rw [literalAt?_enter] at hliteral
    split at h
    · cases h
    · next hne =>
      rw [if_neg hne] at hliteral
      exact hd.literal_value h hliteral
  order_lt {id} h := by
    have hlt := hd.order_lt h
    rw [length_enter]
    exact Nat.lt_succ_of_lt hlt
  order_nodup := hd.order_nodup
  order_sorted := hd.order_sorted_of_extends (extends_enter names hunbound)
  ordered_of_named {name id} h := by
    rw [namesAt_enter] at h
    rw [valueAt?_enter]
    split at h
    · next heq => exact Or.inr (by rw [if_pos heq, hnames name h])
    · next hne =>
      rw [if_neg hne]
      exact hd.ordered_of_named h

/-- What is added to a graph in which every operator is listed leaves at most itself to be
listed. -/
theorem Listed.push {d : Dag} (h : d.Listed) (node : Node) :
    (d.push node).ListedBut d.nodes.length := by
  rintro j ⟨op, left, right, hj⟩
  rw [valueAt?_push] at hj
  split at hj
  · next heq => exact Or.inr ⟨heq, by rw [length_push, heq]⟩
  · exact Or.inl (h j ⟨op, left, right, hj⟩)

theorem Listed.push_of_not_operator {d : Dag} (h : d.Listed) {node : Node}
    (hnode : ∀ op left right, node.value ≠ .operator op left right) : (d.push node).Listed := by
  rintro j ⟨op, left, right, hj⟩
  rw [valueAt?_push] at hj
  split at hj
  · exact absurd (Option.some.inj hj) (hnode op left right)
  · exact h j ⟨op, left, right, hj⟩

theorem Listed.enter {d : Dag} (h : d.Listed) (text : String) (names : List String) :
    (d.enter text names).Listed := by
  rintro j ⟨op, left, right, hj⟩
  rw [valueAt?_enter] at hj
  split at hj
  · cases hj
  · exact h j ⟨op, left, right, hj⟩

/-! ### The parts of an instruction -/

/-- Resolving an operand keeps a graph coherent, and gives a node of it. -/
theorem resolve_coherent {d d' : Dag} {text : String} {names : List String} {id : NodeId}
    (hd : d.Coherent) (hlisted : d.Listed) (hnames : ∀ name ∈ names, name = text)
    (h : d.resolve text names = (id, d')) :
    d'.Coherent ∧ d'.Listed ∧ Extends d d' ∧ id < d'.nodes.length := by
  obtain ⟨hlookup, rfl⟩ | ⟨v, hunbound, hvalue, hv⟩ | ⟨hunbound, hvalue, rfl, rfl⟩ :=
    resolve_cases h
  · exact ⟨hd, hlisted, Extends.refl _, hd.lookup_lt hlookup⟩
  · obtain ⟨hj, rfl⟩ | ⟨-, rfl, rfl⟩ := intern_cases hv
    · exact ⟨hd, hlisted, Extends.refl _, lt_length_of_valueAt? hj⟩
    · refine ⟨push_coherent hd (by simp) (by simp) ?_, hlisted.push_of_not_operator (by simp),
        extends_push _ _, by simp⟩
      rintro w s hw hs
      rw [← Option.some.inj hs, hvalue, NodeValue.constant.inj hw]
  · exact ⟨enter_coherent hd hunbound hvalue hnames, hlisted.enter text names,
      extends_enter names hunbound, by simp⟩

/-- An operand that is no numeral is bound once it is resolved. -/
theorem lookup_resolve_ne_none {d d' : Dag} {text : String} {names : List String} {id : NodeId}
    (h : d.resolve text names = (id, d')) (hvalue : Numeral.value? text = none) :
    d'.lookup text ≠ none := by
  obtain ⟨hlookup, rfl⟩ | ⟨v, -, hv, -⟩ | ⟨-, -, rfl, rfl⟩ := resolve_cases h
  · simp [hlookup]
  · rw [hvalue] at hv
    contradiction
  · simp

/-- Finding or making the node of a value without a name keeps a graph coherent. -/
theorem intern_coherent {d d' : Dag} {value : NodeValue} {id : NodeId}
    (hd : d.Coherent) (hlisted : d.Listed) (hentry : ∀ name, value ≠ .identifier name)
    (hoperator : ∀ op left right, value = .operator op left right →
      (left < d.nodes.length ∧ right < d.nodes.length) ∧ op ≠ Quadruple.copyOp)
    (h : d.intern value none = (id, d')) :
    d'.Coherent ∧ d'.ListedBut id ∧ Extends d d' ∧ id < d'.nodes.length := by
  obtain ⟨hj, rfl⟩ | ⟨-, rfl, rfl⟩ := intern_cases h
  · exact ⟨hd, hlisted.listedBut _, Extends.refl _, lt_length_of_valueAt? hj⟩
  · exact ⟨push_coherent hd hentry hoperator (by simp), hlisted.push _, extends_push _ _, by simp⟩

theorem combine_coherent {d d' : Dag} {op : String} {left right id : NodeId}
    (hd : d.Coherent) (hlisted : d.Listed) (hleft : left < d.nodes.length)
    (hright : right < d.nodes.length) (hop : op ≠ Quadruple.copyOp)
    (h : d.combine op left right = .ok (id, d')) :
    d'.Coherent ∧ d'.ListedBut id ∧ Extends d d' ∧ id < d'.nodes.length := by
  rcases combine_cases h with ⟨-, -, -, v, -, -, -, -, hintern⟩ | ⟨-, hintern⟩
  · exact intern_coherent hd hlisted (by simp) (by simp) hintern
  · refine intern_coherent hd hlisted (by simp) ?_ hintern
    rintro op' left' right' heq
    obtain ⟨rfl, rfl, rfl⟩ := NodeValue.operator.inj heq
    exact ⟨⟨hleft, hright⟩, hop⟩

theorem isOperator_assign {d : Dag} {name : String} {id j : NodeId} :
    (d.assign name id).IsOperator j ↔ d.IsOperator j := by simp only [IsOperator, valueAt?_assign]

/-- The order of assignment stays sorted when a node is assigned: an operator that is new to the
order is the last node of all. -/
theorem Coherent.order_sorted_assign {d : Dag} (hd : d.Coherent) {id : NodeId}
    (hlisted : d.ListedBut id) (name : String) : (d.assign name id).order.Pairwise fun i j =>
      (d.assign name id).IsOperator i → (d.assign name id).IsOperator j → i < j := by
  simp only [isOperator_assign]
  rw [order_assign]
  split
  · exact hd.order_sorted
  · next hnew =>
    refine List.pairwise_append.2 ⟨hd.order_sorted, List.pairwise_singleton _ _, ?_⟩
    intro i hi j hj hopi hopj
    obtain rfl := List.mem_singleton.1 hj
    rcases hlisted j hopj with hmem | ⟨-, hlast⟩
    · exact absurd hmem hnew
    · have hlt := hd.order_lt hi
      rw [← hlast] at hlt
      refine Nat.lt_of_le_of_ne (Nat.le_of_lt_succ hlt) ?_
      rintro rfl
      exact hnew hi

/-- Giving a node to a name keeps a graph coherent. -/
theorem assign_coherent {d : Dag} {name : String} {id : NodeId} (hd : d.Coherent)
    (hlisted : d.ListedBut id) (hid : id < d.nodes.length) (hname : Numeral.value? name = none) :
    (d.assign name id).Coherent where
  bound_of_named {other j} h := by
    rw [lookup_assign]
    rcases mem_namesAt_assign.1 h with ⟨hmem, hkept⟩ | ⟨heq, rfl, -⟩
    · have hne : other ≠ name := fun heq => hkept ⟨heq, heq ▸ hd.bound_of_named hmem⟩
      rw [if_neg hne, hd.bound_of_named hmem]
    · rw [if_pos heq]
  named_or_entry {other j} h := by
    rw [lookup_assign] at h
    rw [valueAt?_assign]
    split at h
    · next heq =>
      obtain rfl := Option.some.inj h
      exact Or.inl (mem_namesAt_assign.2 (Or.inr ⟨heq, rfl, hid⟩))
    · next hne =>
      -- a name loses its place only when it is given to another node
      rcases hd.named_or_entry h with hmem | hentry
      · exact Or.inl (mem_namesAt_assign.2 (Or.inl ⟨hmem, fun hand => hne hand.1⟩))
      · exact Or.inr hentry
  bound_of_entry {other j} h := by
    rw [valueAt?_assign] at h
    rw [lookup_assign]
    split
    · simp
    · exact hd.bound_of_entry h
  not_numeral {other j} h := by
    rw [lookup_assign] at h
    split at h
    · next heq => rwa [heq]
    · exact hd.not_numeral h
  operands_lt {j op left right} h := by
    rw [valueAt?_assign] at h
    exact hd.operands_lt h
  ne_copyOp {j op left right} h := by
    rw [valueAt?_assign] at h
    exact hd.ne_copyOp h
  literal_value {j v literal} h hliteral := by
    rw [valueAt?_assign] at h
    rw [literalAt?_assign] at hliteral
    exact hd.literal_value h hliteral
  order_lt {j} h := by
    rw [length_assign]
    rcases mem_order_assign.1 h with hmem | rfl
    · exact hd.order_lt hmem
    · exact hid
  order_nodup := by
    rw [order_assign]
    split
    · exact hd.order_nodup
    · next hnew =>
      refine List.nodup_append.2 ⟨hd.order_nodup, List.pairwise_singleton _ _, ?_⟩
      rintro j hj i hi rfl
      exact hnew (List.mem_singleton.1 hi ▸ hj)
  order_sorted := hd.order_sorted_assign hlisted name
  ordered_of_named {other j} h := by
    rw [valueAt?_assign]
    rcases mem_namesAt_assign.1 h with ⟨hmem, -⟩ | ⟨-, rfl, -⟩
    · rcases hd.ordered_of_named hmem with horder | hentry
      · exact Or.inl (mem_order_assign.2 (Or.inl horder))
      · exact Or.inr hentry
    · exact Or.inl (mem_order_assign.2 (Or.inr rfl))

/-- Giving a node to a name lists the node. -/
theorem ListedBut.assign {d : Dag} {id : NodeId} (h : d.ListedBut id) (name : String) :
    (d.assign name id).Listed := by
  intro j hj
  rcases h j (isOperator_assign.1 hj) with hmem | ⟨heq, -⟩
  · exact mem_order_assign.2 (Or.inl hmem)
  · exact mem_order_assign.2 (Or.inr heq)

/-! ### Instructions and blocks -/

/-- A name is bound. -/
def Bound (d : Dag) (name : String) : Prop := d.lookup name ≠ none

theorem Extends.bound {d d' : Dag} (h : Extends d d') {name : String} (hbound : d.Bound name) :
    d'.Bound name := by
  obtain ⟨id, hid⟩ := Option.ne_none_iff_exists'.1 hbound
  simp [Bound, h.lookup_eq hid]

theorem Bound.assign {d : Dag} {name : String} (h : d.Bound name) (other : String) (id : NodeId) :
    (d.assign other id).Bound name := by
  unfold Bound
  rw [lookup_assign]
  split
  · simp
  · exact h

end Dag

/-- The name occurs in a block, as an operand or as a result. -/
def Occurs (name : String) (quads : List Quadruple) : Prop :=
  ∃ q ∈ quads, name = q.operand1 ∨ name = q.operand2 ∨ name = q.result

namespace Dag

/-- After an instruction a graph is coherent, and the names of the instruction are bound. -/
theorem add_coherent {d d' : Dag} {index : Nat} {q : Quadruple} (hd : d.Coherent)
    (hlisted : d.Listed) (h : d.add index q = .ok d') :
    d'.Coherent ∧ d'.Listed ∧ (∀ name, d.Bound name → d'.Bound name) ∧
      ∀ name, Occurs name [q] → name ≠ "" → Numeral.value? name = none → d'.Bound name := by
  obtain ⟨hresult, ⟨-, hempty, id, d₁, hsource, rfl⟩ |
    ⟨hop, -, left, d₁, right, d₂, id, d₃, hleft, hright, hcombine, rfl⟩⟩ := add_cases h
  · obtain ⟨hd₁, hlisted₁, hext, hid⟩ := resolve_coherent hd hlisted (by simp) hsource
    refine ⟨assign_coherent hd₁ (hlisted₁.listedBut id) hid hresult,
      (hlisted₁.listedBut id).assign q.result,
      fun name hbound => (hext.bound hbound).assign _ _, ?_⟩
    rintro name ⟨q', hq', hoccurs⟩ hne hvalue
    obtain rfl : q' = q := by simpa using hq'
    rcases hoccurs with rfl | rfl | rfl
    · exact Bound.assign (lookup_resolve_ne_none hsource hvalue) _ _
    · exact absurd hempty hne
    · simp [Bound]
  · obtain ⟨hd₁, hlisted₁, hext₁, hlt⟩ := resolve_coherent hd hlisted (by simp) hleft
    obtain ⟨hd₂, hlisted₂, hext₂, hlt₂⟩ := resolve_coherent hd₁ hlisted₁ (by simp) hright
    obtain ⟨hd₃, hlisted₃, hext₃, hid⟩ := combine_coherent hd₂ hlisted₂
      (Nat.lt_of_lt_of_le hlt hext₂.length_le) hlt₂ hop hcombine
    refine ⟨assign_coherent hd₃ hlisted₃ hid hresult, hlisted₃.assign q.result, fun name hbound =>
      (((hext₁.trans hext₂).trans hext₃).bound hbound).assign _ _, ?_⟩
    rintro name ⟨q', hq', hoccurs⟩ hne hvalue
    obtain rfl : q' = q := by simpa using hq'
    rcases hoccurs with rfl | rfl | rfl
    · exact ((hext₂.trans hext₃).bound (lookup_resolve_ne_none hleft hvalue)).assign _ _
    · exact (hext₃.bound (lookup_resolve_ne_none hright hvalue)).assign _ _
    · simp [Bound]

theorem addAll_coherent {d d' : Dag} {index : Nat} {quads : List Quadruple} (hd : d.Coherent)
    (hlisted : d.Listed) (h : d.addAll index quads = .ok d') :
    d'.Coherent ∧ d'.Listed ∧ (∀ name, d.Bound name → d'.Bound name) ∧
      ∀ name, Occurs name quads → name ≠ "" → Numeral.value? name = none → d'.Bound name := by
  induction quads generalizing d index with
  | nil =>
    obtain rfl := Except.ok.inj h
    exact ⟨hd, hlisted, fun _ hbound => hbound, fun _ ⟨_, hq, _⟩ => by simp at hq⟩
  | cons q quads ih =>
    obtain ⟨d₁, hadd, h⟩ := addAll_cons_eq_ok_iff.1 h
    obtain ⟨hd₁, hlisted₁, hkeep, hnew⟩ := add_coherent hd hlisted hadd
    obtain ⟨hd', hlisted', hkeep', hnew'⟩ := ih hd₁ hlisted₁ h
    refine ⟨hd', hlisted', fun name hbound => hkeep' name (hkeep name hbound), ?_⟩
    rintro name ⟨q', hq', hoccurs⟩ hne hvalue
    rcases List.mem_cons.1 hq' with rfl | hmem
    · exact hkeep' name (hnew name ⟨q', by simp, hoccurs⟩ hne hvalue)
    · exact hnew' name ⟨q', hmem, hoccurs⟩ hne hvalue

/-- A block has a coherent graph in which every operator has been assigned and every name of the
block is bound. -/
theorem build_coherent {quads : List Quadruple} {d : Dag} (h : build quads = .ok d) :
    d.Coherent ∧ d.Listed ∧
      ∀ name, Occurs name quads → name ≠ "" → Numeral.value? name = none → d.Bound name := by
  obtain ⟨hd, hlisted, -, hbound⟩ := addAll_coherent empty_coherent empty_listed h
  exact ⟨hd, hlisted, hbound⟩

end Dag
end ArithFrontEnd
