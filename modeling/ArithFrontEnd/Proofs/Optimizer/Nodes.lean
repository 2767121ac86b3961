import ArithFrontEnd.Optimizer.Linearize

/-!
# The nodes of a graph, one operation at a time

The operations that make up an instruction change a graph in three ways: a node is added at the end,
a name enters the block with a node for its value, and a name is given to a node.  What each of them
does to the values, the names and the written constants of the nodes is said here once, and what an
operation can do at all is said by a lemma with one case for each outcome.

## Main definitions

* `Dag.valueAt?`, `Dag.namesAt`, `Dag.literalAt?` — what the node of a number holds.
* `Dag.push`, `Dag.enter` — a graph with one more node, and with one for a name that enters.

## Main results

* `intern_cases`, `resolve_cases`, `combine_cases`, `add_cases` — **what an operation can do.**
-/

namespace ArithFrontEnd
namespace Dag

/-- What the node of a number stands for. -/
def valueAt? (d : Dag) (id : NodeId) : Option NodeValue := (d.node? id).map (·.value)

/-- The names of the node of a number. -/
def namesAt (d : Dag) (id : NodeId) : List String := ((d.node? id).map (·.names)).getD []

/-- How the constant of the node of a number was written first. -/
def literalAt? (d : Dag) (id : NodeId) : Option String := (d.node? id).bind (·.literal)

/-- The node of this number stands for an operator. -/
def IsOperator (d : Dag) (id : NodeId) : Prop :=
  ∃ op left right, d.valueAt? id = some (.operator op left right)

theorem not_isOperator_of_valueAt? {d : Dag} {id : NodeId} {value : NodeValue}
    (h : d.valueAt? id = some value) (hvalue : ∀ op left right, value ≠ .operator op left right) :
    ¬ d.IsOperator id := by
  rintro ⟨op, left, right, hop⟩
  exact hvalue op left right (Option.some.inj (h.symm.trans hop))

/-- The graph with one more node. -/
def push (d : Dag) (node : Node) : Dag := { d with nodes := d.nodes ++ [node] }

/-- The graph in which a name has entered: there is a node for its value on entry. -/
def enter (d : Dag) (text : String) (names : List String) : Dag :=
  { d.push ⟨names, .identifier text, none⟩ with bindings := (text, d.nodes.length) :: d.bindings }

theorem lt_length_of_valueAt? {d : Dag} {id : NodeId} {value : NodeValue}
    (h : d.valueAt? id = some value) : id < d.nodes.length := by
  obtain ⟨node, hnode, -⟩ := Option.map_eq_some_iff.1 h
  exact (List.getElem?_eq_some_iff.1 hnode).1

theorem lt_length_of_mem_namesAt {d : Dag} {id : NodeId} {name : String}
    (h : name ∈ d.namesAt id) : id < d.nodes.length := by
  unfold namesAt node? at h
  by_cases hlt : id < d.nodes.length
  · exact hlt
  · rw [List.getElem?_eq_none (Nat.le_of_not_lt hlt)] at h
    simp at h

theorem exists_valueAt? {d : Dag} {id : NodeId} (h : id < d.nodes.length) :
    ∃ value, d.valueAt? id = some value :=
  ⟨d.nodes[id].value, by simp [valueAt?, node?, List.getElem?_eq_getElem h]⟩

/-! ### One more node -/

theorem node?_push (d : Dag) (node : Node) (id : NodeId) :
    (d.push node).node? id = if id = d.nodes.length then some node else d.node? id := by
  unfold push node?
  rcases Nat.lt_trichotomy id d.nodes.length with hlt | heq | hgt
  · rw [List.getElem?_append_left hlt, if_neg (Nat.ne_of_lt hlt)]
  · subst heq
    simp
  · rw [if_neg (Nat.ne_of_gt hgt), List.getElem?_eq_none (Nat.le_of_lt hgt),
      List.getElem?_eq_none (by simpa using Nat.succ_le_of_lt hgt)]

@[simp] theorem valueAt?_push (d : Dag) (node : Node) (id : NodeId) :
    (d.push node).valueAt? id = if id = d.nodes.length then some node.value else d.valueAt? id := by
  rw [valueAt?, node?_push]
  split <;> rfl

@[simp] theorem namesAt_push (d : Dag) (node : Node) (id : NodeId) :
    (d.push node).namesAt id = if id = d.nodes.length then node.names else d.namesAt id := by
  rw [namesAt, node?_push]
  split <;> rfl

@[simp] theorem literalAt?_push (d : Dag) (node : Node) (id : NodeId) :
    (d.push node).literalAt? id =
      if id = d.nodes.length then node.literal else d.literalAt? id := by
  rw [literalAt?, node?_push]
  split <;> rfl

@[simp] theorem length_push (d : Dag) (node : Node) :
    (d.push node).nodes.length = d.nodes.length + 1 := by simp [push]

@[simp] theorem lookup_push (d : Dag) (node : Node) (name : String) :
    (d.push node).lookup name = d.lookup name := rfl

@[simp] theorem order_push (d : Dag) (node : Node) : (d.push node).order = d.order := rfl

/-! ### A name that enters -/

@[simp] theorem valueAt?_enter (d : Dag) (text : String) (names : List String) (id : NodeId) :
    (d.enter text names).valueAt? id =
      if id = d.nodes.length then some (.identifier text) else d.valueAt? id :=
  valueAt?_push d ⟨names, .identifier text, none⟩ id

@[simp] theorem namesAt_enter (d : Dag) (text : String) (names : List String) (id : NodeId) :
    (d.enter text names).namesAt id = if id = d.nodes.length then names else d.namesAt id :=
  namesAt_push d ⟨names, .identifier text, none⟩ id

@[simp] theorem literalAt?_enter (d : Dag) (text : String) (names : List String) (id : NodeId) :
    (d.enter text names).literalAt? id = if id = d.nodes.length then none else d.literalAt? id :=
  literalAt?_push d ⟨names, .identifier text, none⟩ id

@[simp] theorem length_enter (d : Dag) (text : String) (names : List String) :
    (d.enter text names).nodes.length = d.nodes.length + 1 :=
  length_push d ⟨names, .identifier text, none⟩

@[simp] theorem order_enter (d : Dag) (text : String) (names : List String) :
    (d.enter text names).order = d.order := rfl

theorem lookup_cons {α β : Type} [BEq α] [LawfulBEq α] [DecidableEq α] (key other : α) (value : β)
    (entries : List (α × β)) : ((key, value) :: entries).lookup other =
      if other = key then some value else entries.lookup other := by
  rw [List.lookup_cons]
  by_cases h : other = key
  · simp [h]
  · have hbeq : (other == key) = false := by simpa using h
    simp [h, hbeq]

@[simp] theorem lookup_enter (d : Dag) (text : String) (names : List String) (name : String) :
    (d.enter text names).lookup name =
      if name = text then some d.nodes.length else d.lookup name :=
  lookup_cons text name d.nodes.length d.bindings

/-! ### A name that is given to a node -/

theorem node?_unname (d : Dag) (name : String) (id : NodeId) :
    (d.unname name).node? id = (d.node? id).map fun node =>
      if d.lookup name = some id then { node with names := node.names.filter (· ≠ name) }
      else node := by
  unfold unname
  cases hold : d.lookup name with
  | none => simp
  | some old =>
    simp only [node?, List.getElem?_modify, Option.some.injEq]
    by_cases h : old = id <;> simp [h]

theorem node?_bind (d : Dag) (name : String) (id other : NodeId) :
    (d.bind name id).node? other = (d.node? other).map fun node =>
      if other = id then { node with names := node.names ++ [name] } else node := by
  simp only [bind, node?, List.getElem?_modify, eq_comm (a := other)]
  by_cases h : id = other <;> simp [h]

@[simp] theorem valueAt?_assign (d : Dag) (name : String) (id other : NodeId) :
    (d.assign name id).valueAt? other = d.valueAt? other := by
  simp only [valueAt?, assign, node?_bind, node?_unname, Option.map_map]
  congr 1
  funext node
  simp only [Function.comp]
  split <;> split <;> rfl

@[simp] theorem literalAt?_assign (d : Dag) (name : String) (id other : NodeId) :
    (d.assign name id).literalAt? other = d.literalAt? other := by
  simp only [literalAt?, assign, node?_bind, node?_unname, Option.map_map]
  cases d.node? other with
  | none => rfl
  | some node =>
    simp only [Option.map_some, Option.bind_some, Function.comp]
    split <;> split <;> rfl

/-- A name is taken from the node that held its value, and put at the end of the names of another
one. -/
theorem namesAt_assign {d : Dag} {j : NodeId} (hj : j < d.nodes.length) (name : String)
    (id : NodeId) : (d.assign name id).namesAt j =
      (if d.lookup name = some j then (d.namesAt j).filter (· ≠ name) else d.namesAt j) ++
        if j = id then [name] else [] := by
  have hnode : d.node? j = some d.nodes[j] := List.getElem?_eq_getElem hj
  simp only [namesAt, assign, node?_bind, node?_unname, hnode, Option.map_some, Option.getD_some]
  split <;> split <;> simp

/-- A name is given to a node, and taken from the one that held its value. -/
theorem mem_namesAt_assign {d : Dag} {name other : String} {id j : NodeId} :
    other ∈ (d.assign name id).namesAt j ↔
      (other ∈ d.namesAt j ∧ ¬ (other = name ∧ d.lookup name = some j)) ∨
        (other = name ∧ j = id ∧ j < d.nodes.length) := by
  by_cases hlt : j < d.nodes.length
  · have htaken : (other ∈ if d.lookup name = some j then (d.namesAt j).filter (· ≠ name)
        else d.namesAt j) ↔ other ∈ d.namesAt j ∧ ¬ (other = name ∧ d.lookup name = some j) := by
      split <;> simp [*]
    have hput : (other ∈ if j = id then [name] else []) ↔ other = name ∧ j = id := by
      split <;> simp [*]
    rw [namesAt_assign hlt, List.mem_append, htaken, hput]
    simp only [hlt, and_true]
  · have hnode : d.node? j = none := List.getElem?_eq_none (Nat.le_of_not_lt hlt)
    simp [namesAt, assign, node?_bind, node?_unname, hnode, hlt]

theorem lookup_unname (d : Dag) (name other : String) :
    (d.unname name).lookup other = d.lookup other := by
  unfold unname
  split <;> rfl

@[simp] theorem lookup_assign (d : Dag) (name other : String) (id : NodeId) :
    (d.assign name id).lookup other = if other = name then some id else d.lookup other := by
  rw [assign, ← d.lookup_unname name other]
  exact lookup_cons name other id (d.unname name).bindings

@[simp] theorem length_assign (d : Dag) (name : String) (id : NodeId) :
    (d.assign name id).nodes.length = d.nodes.length := by
  simp only [assign, bind, List.length_modify]
  unfold unname
  split <;> simp

theorem order_assign (d : Dag) (name : String) (id : NodeId) :
    (d.assign name id).order = if id ∈ d.order then d.order else d.order ++ [id] := by
  have hunname : (d.unname name).order = d.order := by
    unfold unname
    split <;> rfl
  simp only [assign, bind, hunname, List.contains_iff_mem]

theorem mem_order_assign {d : Dag} {name : String} {id j : NodeId} :
    j ∈ (d.assign name id).order ↔ j ∈ d.order ∨ j = id := by
  rw [order_assign]
  split
  · next hmem =>
    constructor
    · exact Or.inl
    · rintro (h | rfl)
      · exact h
      · exact hmem
  · simp

/-! ### What an operation can do -/

/-- A value is found, or a node for it is added at the end. -/
theorem intern_cases {d d' : Dag} {value : NodeValue} {literal : Option String} {id : NodeId}
    (h : d.intern value literal = (id, d')) :
    (d.valueAt? id = some value ∧ d' = d) ∨
      ((∀ j, d.valueAt? j ≠ some value) ∧ id = d.nodes.length ∧
        d' = d.push ⟨[], value, literal⟩) := by
  unfold intern at h
  cases hfind : d.find? value with
  | some j =>
    rw [hfind] at h
    obtain ⟨rfl, rfl⟩ := Prod.mk.inj h
    obtain ⟨hlt, heq, -⟩ := List.findIdx?_eq_some_iff_getElem.1 hfind
    refine Or.inl ⟨?_, rfl⟩
    simpa [valueAt?, node?, List.getElem?_eq_getElem hlt] using heq
  | none =>
    rw [hfind] at h
    obtain ⟨rfl, rfl⟩ := Prod.mk.inj h
    refine Or.inr ⟨fun j hj => ?_, rfl, rfl⟩
    obtain ⟨node, hnode, hvalue⟩ := Option.map_eq_some_iff.1 hj
    have hne := List.findIdx?_eq_none_iff.1 hfind node (List.mem_of_getElem? hnode)
    simp [hvalue] at hne

/-- An operand is bound, a numeral, or a name that enters the block. -/
theorem resolve_cases {d d' : Dag} {text : String} {names : List String} {id : NodeId}
    (h : d.resolve text names = (id, d')) :
    (d.lookup text = some id ∧ d' = d) ∨
      (∃ v, d.lookup text = none ∧ Numeral.value? text = some v ∧
        d.intern (.constant v) (some text) = (id, d')) ∨
      (d.lookup text = none ∧ Numeral.value? text = none ∧ id = d.nodes.length ∧
        d' = d.enter text names) := by
  unfold resolve at h
  cases hlookup : d.lookup text with
  | some j =>
    rw [hlookup] at h
    obtain ⟨rfl, rfl⟩ := Prod.mk.inj h
    exact Or.inl ⟨rfl, rfl⟩
  | none =>
    rw [hlookup] at h
    cases hvalue : Numeral.value? text with
    | some v =>
      rw [hvalue] at h
      exact Or.inr (Or.inl ⟨v, rfl, rfl, h⟩)
    | none =>
      rw [hvalue] at h
      obtain ⟨rfl, rfl⟩ := Prod.mk.inj h
      exact Or.inr (Or.inr ⟨rfl, rfl, rfl, rfl⟩)

theorem constant?_eq_some_iff {d : Dag} {id : NodeId} {v : Value} :
    d.constant? id = some v ↔ d.valueAt? id = some (.constant v) := by
  unfold constant? valueAt? Node.constant?
  cases d.node? id with
  | none => simp
  | some node =>
    obtain ⟨names, value, literal⟩ := node
    cases value <;> simp

/-- Folding asks for an operator that is known and for two constants. -/
theorem fold?_eq_some_iff {d : Dag} {op : String} {left right : NodeId} {o : BinaryOp}
    {a b : Value} :
    d.fold? op left right = some (o, a, b) ↔ BinaryOp.ofSymbol? op = some o ∧
      d.valueAt? left = some (.constant a) ∧ d.valueAt? right = some (.constant b) := by
  simp only [← constant?_eq_some_iff]
  unfold fold?
  cases BinaryOp.ofSymbol? op <;> cases d.constant? left <;> cases d.constant? right <;> simp

/-- An operator between constants is computed, and any other one is a value of its own. -/
theorem combine_cases {d d' : Dag} {op : String} {left right id : NodeId}
    (h : d.combine op left right = .ok (id, d')) :
    (∃ o a b v, BinaryOp.ofSymbol? op = some o ∧ d.valueAt? left = some (.constant a) ∧
        d.valueAt? right = some (.constant b) ∧ o.apply a b = .ok v ∧
        d.intern (.constant v) none = (id, d')) ∨
      (d.fold? op left right = none ∧ d.intern (.operator op left right) none = (id, d')) := by
  unfold combine at h
  split at h
  · next o a b hfold =>
    obtain ⟨hop, ha, hb⟩ := fold?_eq_some_iff.1 hfold
    cases hv : o.apply a b with
    | error e => rw [hv] at h; cases h
    | ok v =>
      rw [hv] at h
      exact Or.inl ⟨o, a, b, v, hop, ha, hb, hv, Except.ok.inj h⟩
  · next hfold => exact Or.inr ⟨hfold, Except.ok.inj h⟩

end Dag

/-- A quadruple is an instruction if no part of it is missing, its result is no numeral, and it has
a second operand exactly if it is no copy. -/
theorem Quadruple.malformed?_eq_none_iff {q : Quadruple} :
    q.malformed? = none ↔ q.op ≠ "" ∧ q.operand1 ≠ "" ∧ q.result ≠ "" ∧
      Numeral.value? q.result = none ∧ (q.operand2 = "" ↔ q.op = copyOp) := by
  unfold malformed? Numeral.isNumeral
  by_cases hop : q.op = ""
  · simp [hop]
  by_cases hfirst : q.operand1 = ""
  · simp [hop, hfirst]
  by_cases hresult : q.result = ""
  · simp [hop, hfirst, hresult]
  cases hvalue : Numeral.value? q.result with
  | some v => simp [hop, hfirst, hresult]
  | none =>
    have hne : copyOp ≠ "" := by decide
    by_cases hsecond : q.operand2 = "" <;> by_cases hcopy : q.op = copyOp <;>
      simp [hop, hfirst, hresult, hsecond, hcopy, hne]

namespace Dag

/-- Only an instruction is accepted. -/
theorem malformed?_of_add {d d' : Dag} {index : Nat} {q : Quadruple}
    (h : d.add index q = .ok d') : q.malformed? = none := by
  unfold add at h
  cases hmal : q.malformed? with
  | some what => rw [hmal] at h; cases h
  | none => rfl

/-- An instruction that is accepted is a copy or an operator between two operands. -/
theorem add_cases {d d' : Dag} {index : Nat} {q : Quadruple} (h : d.add index q = .ok d') :
    Numeral.value? q.result = none ∧
      ((q.op = Quadruple.copyOp ∧ q.operand2 = "" ∧ ∃ id d₁,
          d.copySource q.operand1 = (id, d₁) ∧ d' = d₁.assign q.result id) ∨
        (q.op ≠ Quadruple.copyOp ∧ q.operand2 ≠ "" ∧ ∃ left d₁ right d₂ id d₃,
          d.operand q.operand1 = (left, d₁) ∧ d₁.operand q.operand2 = (right, d₂) ∧
          d₂.combine q.op left right = .ok (id, d₃) ∧ d' = d₃.assign q.result id)) := by
  have hmal := malformed?_of_add h
  obtain ⟨-, -, -, hresult, hoperands⟩ := Quadruple.malformed?_eq_none_iff.1 hmal
  refine ⟨hresult, ?_⟩
  unfold add at h
  rw [hmal] at h
  dsimp only at h
  by_cases hoperand : q.operand2 = ""
  · rw [if_pos hoperand] at h
    exact Or.inl ⟨hoperands.1 hoperand, hoperand, _, _, rfl, (Except.ok.inj h).symm⟩
  · rw [if_neg hoperand] at h
    split at h
    · cases h
    · next id d₃ hcombine =>
      exact Or.inr ⟨mt hoperands.2 hoperand, hoperand, _, _, _, _, id, d₃, rfl, rfl, hcombine,
        (Except.ok.inj h).symm⟩

theorem add_copy {d d' : Dag} {q : Quadruple} {id : NodeId} (index : Nat)
    (hmal : q.malformed? = none) (hsecond : q.operand2 = "")
    (hsource : d.copySource q.operand1 = (id, d')) :
    d.add index q = .ok (d'.assign q.result id) := by
  unfold add
  simp only [hmal, if_pos hsecond, hsource]

theorem add_operator_eq {d d₁ d₂ : Dag} {q : Quadruple} {left right : NodeId} (index : Nat)
    (hmal : q.malformed? = none) (hsecond : q.operand2 ≠ "")
    (hleft : d.operand q.operand1 = (left, d₁)) (hright : d₁.operand q.operand2 = (right, d₂)) :
    d.add index q =
      match d₂.combine q.op left right with
      | .error cause => .error (.fold index q cause)
      | .ok (id, d₃) => .ok (d₃.assign q.result id) := by
  cases hcombine : d₂.combine q.op left right with
  | error cause => simp only [add, hmal, if_neg hsecond, hleft, hright, hcombine]
  | ok found => simp only [add, hmal, if_neg hsecond, hleft, hright, hcombine]

theorem add_operator {d d₁ d₂ d₃ : Dag} {q : Quadruple} {left right id : NodeId} (index : Nat)
    (hmal : q.malformed? = none) (hsecond : q.operand2 ≠ "")
    (hleft : d.operand q.operand1 = (left, d₁)) (hright : d₁.operand q.operand2 = (right, d₂))
    (hcombine : d₂.combine q.op left right = .ok (id, d₃)) :
    d.add index q = .ok (d₃.assign q.result id) := by
  rw [add_operator_eq index hmal hsecond hleft hright, hcombine]

/-- A block is added if its first instruction is and the others are to what comes of it. -/
theorem addAll_cons_eq_ok_iff {d d' : Dag} {index : Nat} {q : Quadruple} {qs : List Quadruple} :
    d.addAll index (q :: qs) = .ok d' ↔
      ∃ d₁, d.add index q = .ok d₁ ∧ d₁.addAll (index + 1) qs = .ok d' := by
  rw [addAll]
  cases d.add index q with
  | error e => simp
  | ok d₁ => simp

/-- A block is added part by part. -/
theorem addAll_append (d : Dag) (index : Nat) (qs rs : List Quadruple) :
    d.addAll index (qs ++ rs) =
      match d.addAll index qs with
      | .ok d => d.addAll (index + qs.length) rs
      | .error e => .error e := by
  induction qs generalizing d index with
  | nil => rfl
  | cons q qs ih =>
    rw [List.cons_append, addAll, addAll, List.length_cons]
    cases d.add index q with
    | error e => rfl
    | ok d' =>
      have shift : index + (qs.length + 1) = index + 1 + qs.length := by omega
      rw [shift]
      exact ih d' (index + 1)

/-- A block whose beginning has no graph has none. -/
theorem exists_build_of_prefix {quads qs : List Quadruple} {d : Dag} (h : build quads = .ok d)
    (hqs : qs <+: quads) : ∃ d, build qs = .ok d := by
  obtain ⟨rest, rfl⟩ := hqs
  rw [build, addAll_append] at h
  unfold build
  cases hbuild : empty.addAll 0 qs with
  | error e => rw [hbuild] at h; cases h
  | ok d => exact ⟨d, rfl⟩

end Dag
end ArithFrontEnd
