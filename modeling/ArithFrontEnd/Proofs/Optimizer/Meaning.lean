import ArithFrontEnd.Proofs.Optimizer.Coherence
import ArithFrontEnd.Quadruple.Execution
import Mathlib.Logic.Function.Basic

/-!
# What a graph says about a run

While a block is run its graph can be read as a record of the run.  Every node has a value: that of
its constant, the one its name has on entry, or what its operator makes of the values of two nodes.
A name that is bound stands for the value of its node, and any other name for what it stood for on
entry.

## Main definitions

* `NodeValue.Denotes`, `Dag.Valuation` — the values of nodes.
* `Represents` — a graph with values for its nodes tells what an environment holds.

## Main results

* `add_represents` — an instruction that is run and added to the graph keeps the two together.
* `build_represents` — **the graph of a block represents the environment after the block.**
-/

namespace ArithFrontEnd

/-- What stands in a node has this value, given the environment on entry and the values of nodes. -/
def NodeValue.Denotes (I : Interpretation) (entry : Environment) (val : NodeId → Value) :
    NodeValue → Value → Prop
  | .constant v, w => w = v
  | .identifier name, w => w = entry name
  | .operator op left right, w => I.apply op (val left) (val right) = .ok w

/-- What stands in a node has one value. -/
theorem NodeValue.Denotes.unique {I : Interpretation} {entry : Environment} {val : NodeId → Value}
    {value : NodeValue} {v w : Value} (hv : value.Denotes I entry val v)
    (hw : value.Denotes I entry val w) : v = w := by
  cases value with
  | constant u => exact Eq.trans hv (Eq.symm hw)
  | identifier name => exact Eq.trans hv (Eq.symm hw)
  | operator op left right => exact Except.ok.inj (Eq.trans (Eq.symm hv) hw)

/-- The values of the nodes of a graph fit together. -/
def Dag.Valuation (I : Interpretation) (entry : Environment) (d : Dag) (val : NodeId → Value) :
    Prop :=
  ∀ id value, d.valueAt? id = some value → value.Denotes I entry val (val id)

/-- A graph with values for its nodes tells what the names stand for. -/
structure Represents (I : Interpretation) (entry env : Environment) (d : Dag)
    (val : NodeId → Value) : Prop where
  /-- The values of the nodes fit together. -/
  valuation : d.Valuation I entry val
  /-- A bound name stands for the value of its node. -/
  bound {name : String} {id : NodeId} (h : d.lookup name = some id) : env name = val id
  /-- Any other name stands for what it stood for on entry. -/
  unbound {name : String} (h : d.lookup name = none) : env name = entry name

namespace Dag

variable {I : Interpretation} {entry env : Environment} {d d' : Dag} {val : NodeId → Value}

theorem empty_represents (I : Interpretation) (entry : Environment) (val : NodeId → Value) :
    Represents I entry entry empty val where
  valuation id value h := by simp [valueAt?, node?, empty] at h
  bound h := by simp [lookup, empty] at h
  unbound _ := rfl

/-- A value for one more node does not change what the nodes before it denote. -/
theorem denotes_update (hd : d.Coherent) {id : NodeId} {value : NodeValue}
    (hvalue : d.valueAt? id = some value) {w : Value} (v : Value)
    (h : value.Denotes I entry val w) :
    value.Denotes I entry (Function.update val d.nodes.length v) w := by
  cases value with
  | constant u => exact h
  | identifier name => exact h
  | operator op left right =>
    obtain ⟨hleft, hright⟩ := hd.operands_lt hvalue
    have hid := lt_length_of_valueAt? hvalue
    have hl : left ≠ d.nodes.length := Nat.ne_of_lt (Nat.lt_trans hleft hid)
    have hr : right ≠ d.nodes.length := Nat.ne_of_lt (Nat.lt_trans hright hid)
    show I.apply op (Function.update val d.nodes.length v left)
      (Function.update val d.nodes.length v right) = .ok w
    rw [Function.update_of_ne hl, Function.update_of_ne hr]
    exact h

/-- The values of the nodes still fit together with one for a node that is added. -/
theorem valuation_push (hd : d.Coherent) (h : d.Valuation I entry val) {node : Node} {w : Value}
    (hw : node.value.Denotes I entry (Function.update val d.nodes.length w) w) :
    (d.push node).Valuation I entry (Function.update val d.nodes.length w) := by
  intro id value hvalue
  rw [valueAt?_push] at hvalue
  split at hvalue
  · next heq =>
    obtain rfl := Option.some.inj hvalue
    rw [heq, Function.update_self]
    exact hw
  · next hne =>
    rw [Function.update_of_ne hne]
    exact denotes_update hd hvalue w (h id value hvalue)

/-- Finding or making the node of a value gives a node with that value. -/
theorem intern_represents (hd : d.Coherent) (h : Represents I entry env d val) {value : NodeValue}
    {literal : Option String} {id : NodeId} {w : Value} (hw : value.Denotes I entry val w)
    (hbefore : ∀ op left right, value = .operator op left right →
      left < d.nodes.length ∧ right < d.nodes.length)
    (hintern : d.intern value literal = (id, d')) :
    ∃ val', Represents I entry env d' val' ∧ val' id = w ∧
      ∀ j < d.nodes.length, val' j = val j := by
  obtain ⟨hj, rfl⟩ | ⟨-, rfl, rfl⟩ := intern_cases hintern
  · exact ⟨val, h, (h.valuation id value hj).unique hw, fun _ _ => rfl⟩
  · have hnode : value.Denotes I entry (Function.update val d.nodes.length w) w := by
      cases value with
      | constant u => exact hw
      | identifier name => exact hw
      | operator op left right =>
        obtain ⟨hleft, hright⟩ := hbefore op left right rfl
        show I.apply op (Function.update val d.nodes.length w left)
          (Function.update val d.nodes.length w right) = .ok w
        rw [Function.update_of_ne (Nat.ne_of_lt hleft), Function.update_of_ne (Nat.ne_of_lt hright)]
        exact hw
    refine ⟨Function.update val d.nodes.length w,
      ⟨valuation_push hd h.valuation hnode, fun {name j} hlookup => ?_, h.unbound⟩, by simp,
      fun j hj => Function.update_of_ne (Nat.ne_of_lt hj) ..⟩
    rw [Function.update_of_ne (Nat.ne_of_lt (hd.lookup_lt hlookup)), h.bound hlookup]

/-- An operand resolves to a node with the value of the operand. -/
theorem resolve_represents (hd : d.Coherent) (h : Represents I entry env d val) {text : String}
    {names : List String} {id : NodeId} (hresolve : d.resolve text names = (id, d')) :
    ∃ val', Represents I entry env d' val' ∧ val' id = env.operand text ∧
      ∀ j < d.nodes.length, val' j = val j := by
  obtain ⟨hlookup, rfl⟩ | ⟨v, -, hvalue, heq⟩ | ⟨hunbound, hvalue, rfl, rfl⟩ :=
    resolve_cases hresolve
  · refine ⟨val, h, ?_, fun _ _ => rfl⟩
    rw [Environment.operand, hd.not_numeral hlookup, Option.getD_none, h.bound hlookup]
  · rw [Environment.operand, hvalue, Option.getD_some]
    have hdenotes : (NodeValue.constant v).Denotes I entry val v := rfl
    exact intern_represents hd h hdenotes (by simp) heq
  · rw [Environment.operand, hvalue, Option.getD_none, h.unbound hunbound]
    refine ⟨Function.update val d.nodes.length (entry text),
      ⟨valuation_push hd h.valuation rfl, fun {name j} hlookup => ?_, fun {name} hlookup => ?_⟩,
      by simp, fun j hj => Function.update_of_ne (Nat.ne_of_lt hj) ..⟩
    · rw [lookup_enter] at hlookup
      split at hlookup
      · next hname =>
        obtain rfl := Option.some.inj hlookup
        rw [Function.update_self, hname, h.unbound hunbound]
      · rw [Function.update_of_ne (Nat.ne_of_lt (hd.lookup_lt hlookup)), h.bound hlookup]
    · rw [lookup_enter] at hlookup
      split at hlookup
      · contradiction
      · exact h.unbound hlookup

/-- An operator that has a value gives a node with that value. -/
theorem combine_represents (hd : d.Coherent) (h : Represents I entry env d val) {op : String}
    {left right id : NodeId} {v : Value} (hleft : left < d.nodes.length)
    (hright : right < d.nodes.length) (hv : I.apply op (val left) (val right) = .ok v)
    (hcombine : d.combine op left right = .ok (id, d')) :
    ∃ val', Represents I entry env d' val' ∧ val' id = v := by
  rcases combine_cases hcombine with ⟨o, a, b, w, ho, ha, hb, hw, hintern⟩ | ⟨-, hintern⟩
  · -- the constant that folding gives is the one that running gives
    have hva : val left = a := h.valuation left _ ha
    have hvb : val right = b := h.valuation right _ hb
    have hwv : w = v := by
      rw [Interpretation.apply, ho, hva, hvb] at hv
      dsimp only at hv
      rw [hw] at hv
      exact Except.ok.inj hv
    have hdenotes : (NodeValue.constant w).Denotes I entry val v := hwv.symm
    obtain ⟨val', h', hid, -⟩ := intern_represents hd h hdenotes (by simp) hintern
    exact ⟨val', h', hid⟩
  · have hdenotes : (NodeValue.operator op left right).Denotes I entry val v := hv
    have hbefore : ∀ o i j, NodeValue.operator op left right = .operator o i j →
        i < d.nodes.length ∧ j < d.nodes.length := by
      rintro _ _ _ heq
      obtain ⟨-, rfl, rfl⟩ := NodeValue.operator.inj heq
      exact ⟨hleft, hright⟩
    obtain ⟨val', h', hid, -⟩ := intern_represents hd h hdenotes hbefore hintern
    exact ⟨val', h', hid⟩

/-- Giving a node to a name goes with setting the name to the value of the node. -/
theorem assign_represents (h : Represents I entry env d val) (name : String) (id : NodeId) :
    Represents I entry (env.set name (val id)) (d.assign name id) val where
  valuation j value hvalue := h.valuation j value (by rwa [valueAt?_assign] at hvalue)
  bound {other j} hlookup := by
    rw [lookup_assign] at hlookup
    split at hlookup
    · next heq => rw [heq, Environment.set_self, Option.some.inj hlookup]
    · next hne => rw [Environment.set_of_ne _ _ hne, h.bound hlookup]
  unbound {other} hlookup := by
    rw [lookup_assign] at hlookup
    split at hlookup
    · contradiction
    · next hne => rw [Environment.set_of_ne _ _ hne, h.unbound hlookup]

/-! ### Instructions and blocks -/

/-- An instruction that can be run gives its result the value that it computes. -/
theorem execute_eq_ok {q : Quadruple} {env' : Environment} (h : q.execute I env = .ok env') :
    ∃ v, q.value I env = .ok v ∧ env' = env.set q.result v := by
  unfold Quadruple.execute at h
  split at h
  · next v hv => exact ⟨v, hv, (Except.ok.inj h).symm⟩
  · cases h

/-- An instruction that is run and added to the graph keeps the two together. -/
theorem add_represents {index : Nat} {q : Quadruple} {env' : Environment} (hd : d.Coherent)
    (hlisted : d.Listed) (h : Represents I entry env d val) (hadd : d.add index q = .ok d')
    (hrun : q.execute I env = .ok env') : ∃ val', Represents I entry env' d' val' := by
  obtain ⟨v, hv, rfl⟩ := execute_eq_ok hrun
  obtain ⟨-, ⟨hop, -, id, d₁, hsource, rfl⟩ |
    ⟨hop, -, left, d₁, right, d₂, id, d₃, hleft, hright, hcombine, rfl⟩⟩ := add_cases hadd
  · rw [Quadruple.value, if_pos hop] at hv
    obtain ⟨val', h', hid, -⟩ := resolve_represents hd h hsource
    refine ⟨val', ?_⟩
    rw [← Except.ok.inj hv, ← hid]
    exact assign_represents h' q.result id
  · rw [Quadruple.value, if_neg hop] at hv
    obtain ⟨hd₁, hlisted₁, -, hlt⟩ := resolve_coherent hd hlisted (by simp) hleft
    obtain ⟨hd₂, -, hext, hlt₂⟩ := resolve_coherent hd₁ hlisted₁ (by simp) hright
    obtain ⟨val₁, h₁, hval₁, -⟩ := resolve_represents hd h hleft
    obtain ⟨val₂, h₂, hval₂, hkeep⟩ := resolve_represents hd₁ h₁ hright
    rw [← hval₁, ← hval₂, ← hkeep left hlt] at hv
    obtain ⟨val₃, h₃, hval₃⟩ := combine_represents hd₂ h₂
      (Nat.lt_of_lt_of_le hlt hext.length_le) hlt₂ hv hcombine
    refine ⟨val₃, ?_⟩
    rw [← hval₃]
    exact assign_represents h₃ q.result id

theorem addAll_represents {index start : Nat} {quads : List Quadruple} {after : Environment}
    (hd : d.Coherent) (hlisted : d.Listed) (h : Represents I entry env d val)
    (hadd : d.addAll index quads = .ok d') (hrun : runFrom I start env quads = .ok after) :
    ∃ val', Represents I entry after d' val' := by
  induction quads generalizing d env val index start with
  | nil =>
    obtain rfl := Except.ok.inj hadd
    obtain rfl := Except.ok.inj hrun
    exact ⟨val, h⟩
  | cons q quads ih =>
    obtain ⟨d₁, hq, hadd⟩ := addAll_cons_eq_ok_iff.1 hadd
    obtain ⟨env₁, he, hrun⟩ := runFrom_cons_eq_ok_iff.1 hrun
    obtain ⟨hd₁, hlisted₁, -⟩ := add_coherent hd hlisted hq
    obtain ⟨val₁, h₁⟩ := add_represents hd hlisted h hq he
    exact ih hd₁ hlisted₁ h₁ hadd hrun

/-- The graph of a block that can be run represents the environment after the block. -/
theorem build_represents {quads : List Quadruple} {after : Environment}
    (hbuild : build quads = .ok d) (hrun : run I entry quads = .ok after) :
    ∃ val, Represents I entry after d val :=
  addAll_represents empty_coherent empty_listed (empty_represents I entry fun _ => 0) hbuild hrun

end Dag
end ArithFrontEnd
