import ArithFrontEnd.Optimizer.Symbolic
import ArithFrontEnd.Proofs.Optimizer.Coherence

/-!
# What a graph says about symbolic values

The expression that a name stands for after a block is found in the graph of the block: it is the
one that the node of the name unfolds to.  Names that are not bound stand for their values on entry.

## Main definitions

* `Dag.Unfolds` — a node unfolds to an expression.
* `Dag.Expresses` — the nodes of names unfold to the expressions that the names stand for.

## Main results

* `add_expresses` — what an instruction keeps.
* `build_expresses` — **the graph of a block expresses the symbolic values after the block.**
-/

namespace ArithFrontEnd
namespace Dag

/-- The node unfolds to the expression. -/
inductive Unfolds (d : Dag) : NodeId → SymbolicValue → Prop
  | constant {id : NodeId} {v : Value} (h : d.valueAt? id = some (.constant v)) :
      Unfolds d id (.constant v)
  | initial {id : NodeId} {name : String} (h : d.valueAt? id = some (.identifier name)) :
      Unfolds d id (.initial name)
  | operation {id left right : NodeId} {op : String} {a b : SymbolicValue}
      (h : d.valueAt? id = some (.operator op left right)) (ha : Unfolds d left a)
      (hb : Unfolds d right b) : Unfolds d id (.operation op a b)

/-- The nodes of names unfold to what the names stand for. -/
structure Expresses (d : Dag) (s : SymbolicState) : Prop where
  /-- The node of a bound name unfolds to the expression of the name. -/
  bound {name : String} {id : NodeId} (h : d.lookup name = some id) : d.Unfolds id (s name)
  /-- Any other name stands for its value on entry. -/
  unbound {name : String} (h : d.lookup name = none) : s name = .initial name

variable {d d' : Dag} {s : SymbolicState}

theorem Unfolds.lt_length {id : NodeId} {e : SymbolicValue} (h : d.Unfolds id e) :
    id < d.nodes.length := by
  cases h with
  | constant h => exact lt_length_of_valueAt? h
  | initial h => exact lt_length_of_valueAt? h
  | operation h => exact lt_length_of_valueAt? h

/-- A node still unfolds to the same expression when nodes are added. -/
theorem Unfolds.mono {id : NodeId} {e : SymbolicValue} (hext : Extends d d')
    (h : d.Unfolds id e) : d'.Unfolds id e := by
  induction h with
  | constant h => exact .constant ((hext.valueAt?_eq (lt_length_of_valueAt? h)).trans h)
  | initial h => exact .initial ((hext.valueAt?_eq (lt_length_of_valueAt? h)).trans h)
  | operation h ha hb iha ihb =>
    exact .operation ((hext.valueAt?_eq (lt_length_of_valueAt? h)).trans h) iha ihb

theorem Unfolds.assign {id : NodeId} {e : SymbolicValue} (h : d.Unfolds id e) (name : String)
    (other : NodeId) : (d.assign name other).Unfolds id e := by
  induction h with
  | constant h => exact .constant (by rwa [valueAt?_assign])
  | initial h => exact .initial (by rwa [valueAt?_assign])
  | operation h ha hb iha ihb => exact .operation (by rwa [valueAt?_assign]) iha ihb

/-- A node unfolds to one expression. -/
theorem Unfolds.unique {id : NodeId} {e e' : SymbolicValue} (h : d.Unfolds id e)
    (h' : d.Unfolds id e') : e = e' := by
  induction h generalizing e' with
  | constant h =>
    cases h' with
    | constant h' => rw [NodeValue.constant.inj (Option.some.inj (h.symm.trans h'))]
    | initial h' => cases Option.some.inj (h.symm.trans h')
    | operation h' => cases Option.some.inj (h.symm.trans h')
  | initial h =>
    cases h' with
    | constant h' => cases Option.some.inj (h.symm.trans h')
    | initial h' => rw [NodeValue.identifier.inj (Option.some.inj (h.symm.trans h'))]
    | operation h' => cases Option.some.inj (h.symm.trans h')
  | operation h ha hb iha ihb =>
    cases h' with
    | constant h' => cases Option.some.inj (h.symm.trans h')
    | initial h' => cases Option.some.inj (h.symm.trans h')
    | operation h' ha' hb' =>
      obtain ⟨rfl, rfl, rfl⟩ := NodeValue.operator.inj (Option.some.inj (h.symm.trans h'))
      rw [iha ha', ihb hb']

/-- A node unfolds to a constant if it stands for the constant. -/
theorem Unfolds.constant_iff {id : NodeId} {v : Value} :
    d.Unfolds id (.constant v) ↔ d.valueAt? id = some (.constant v) := by
  constructor
  · rintro ⟨h⟩
    exact h
  · exact .constant

theorem empty_expresses : empty.Expresses .initial where
  bound h := by simp [lookup, empty] at h
  unbound _ := rfl

/-! ### The parts of an instruction -/

/-- Finding or making the node of a value that is no value on entry. -/
theorem intern_expresses (h : d.Expresses s) {value : NodeValue} {literal : Option String}
    {id : NodeId} (hintern : d.intern value literal = (id, d')) :
    d'.Expresses s ∧ Extends d d' ∧ d'.valueAt? id = some value := by
  obtain ⟨hj, rfl⟩ | ⟨-, rfl, rfl⟩ := intern_cases hintern
  · exact ⟨h, Extends.refl _, hj⟩
  · have hext := extends_push d ⟨[], value, literal⟩
    exact ⟨⟨fun hlookup => (h.bound hlookup).mono hext, h.unbound⟩, hext, by simp⟩

/-- An operand resolves to a node that unfolds to the expression of the operand. -/
theorem resolve_expresses (hd : d.Coherent) (h : d.Expresses s) {text : String}
    {names : List String} {id : NodeId} (hresolve : d.resolve text names = (id, d')) :
    d'.Expresses s ∧ Extends d d' ∧ d'.Unfolds id (s.operand text) := by
  obtain ⟨hlookup, rfl⟩ | ⟨v, -, hvalue, heq⟩ | ⟨hunbound, hvalue, rfl, rfl⟩ :=
    resolve_cases hresolve
  · rw [SymbolicState.operand, hd.not_numeral hlookup]
    exact ⟨h, Extends.refl _, h.bound hlookup⟩
  · obtain ⟨h', hext, hid⟩ := intern_expresses h heq
    rw [SymbolicState.operand, hvalue]
    exact ⟨h', hext, .constant hid⟩
  · have hext := extends_enter names hunbound
    have hentry : (d.enter text names).Unfolds d.nodes.length (s text) := by
      rw [h.unbound hunbound]
      exact .initial (by simp)
    rw [SymbolicState.operand, hvalue]
    refine ⟨⟨fun {name id} hlookup => ?_, fun {name} hlookup => ?_⟩, hext, hentry⟩
    · rw [lookup_enter] at hlookup
      split at hlookup
      · next hname =>
        obtain rfl := Option.some.inj hlookup
        rwa [hname]
      · exact (h.bound hlookup).mono hext
    · rw [lookup_enter] at hlookup
      split at hlookup
      · contradiction
      · exact h.unbound hlookup

/-- An operator gives a node that unfolds to the operation, computed if it is one between
constants. -/
theorem combine_expresses (h : d.Expresses s) {op : String} {left right id : NodeId}
    {a b : SymbolicValue} (ha : d.Unfolds left a) (hb : d.Unfolds right b)
    (hcombine : d.combine op left right = .ok (id, d')) :
    ∃ e, SymbolicValue.apply op a b = .ok e ∧ d'.Expresses s ∧ d'.Unfolds id e := by
  rcases combine_cases hcombine with ⟨o, v, w, u, ho, hv, hw, hu, hintern⟩ | ⟨hfold, hintern⟩
  · obtain ⟨h', -, hid⟩ := intern_expresses h hintern
    obtain rfl := ha.unique (.constant hv)
    obtain rfl := hb.unique (.constant hw)
    refine ⟨.constant u, ?_, h', .constant hid⟩
    unfold SymbolicValue.apply
    rw [ho]
    dsimp only
    rw [hu]
    rfl
  · obtain ⟨h', hext, hid⟩ := intern_expresses h hintern
    refine ⟨.operation op a b, ?_, h', .operation hid (ha.mono hext) (hb.mono hext)⟩
    unfold SymbolicValue.apply
    split
    · next o v w ho =>
      have hfold' := fold?_eq_some_iff.2
        ⟨ho, Unfolds.constant_iff.1 ha, Unfolds.constant_iff.1 hb⟩
      rw [hfold] at hfold'
      contradiction
    · rfl

/-- Giving a node to a name goes with letting the name stand for what the node unfolds to. -/
theorem assign_expresses (h : d.Expresses s) {id : NodeId} {e : SymbolicValue}
    (hid : d.Unfolds id e) (name : String) : (d.assign name id).Expresses (s.set name e) where
  bound {other j} hlookup := by
    rw [lookup_assign] at hlookup
    unfold SymbolicState.set
    split at hlookup
    · next heq =>
      obtain rfl := Option.some.inj hlookup
      rw [if_pos heq]
      exact hid.assign name _
    · next hne =>
      rw [if_neg hne]
      exact (h.bound hlookup).assign name id
  unbound {other} hlookup := by
    rw [lookup_assign] at hlookup
    unfold SymbolicState.set
    split at hlookup
    · contradiction
    · next hne => rw [if_neg hne, h.unbound hlookup]

/-! ### Instructions and blocks -/

/-- An instruction that is added to the graph has a symbolic value, and the graph expresses it. -/
theorem add_expresses {index : Nat} {q : Quadruple} (hd : d.Coherent) (hlisted : d.Listed)
    (h : d.Expresses s) (hadd : d.add index q = .ok d') :
    ∃ s', q.symbolic s = .ok s' ∧ d'.Expresses s' := by
  obtain ⟨-, ⟨hop, -, id, d₁, hsource, rfl⟩ |
    ⟨hop, -, left, d₁, right, d₂, id, d₃, hleft, hright, hcombine, rfl⟩⟩ := add_cases hadd
  · obtain ⟨h', -, hid⟩ := resolve_expresses hd h hsource
    refine ⟨s.set q.result (s.operand q.operand1), ?_, assign_expresses h' hid q.result⟩
    rw [Quadruple.symbolic, Quadruple.symbolicValue, if_pos hop]
    rfl
  · obtain ⟨hd₁, -⟩ := resolve_coherent hd hlisted (by simp) hleft
    obtain ⟨h₁, -, ha⟩ := resolve_expresses hd h hleft
    obtain ⟨h₂, hext, hb⟩ := resolve_expresses hd₁ h₁ hright
    obtain ⟨e, he, h₃, hid⟩ := combine_expresses h₂ (ha.mono hext) hb hcombine
    refine ⟨s.set q.result e, ?_, assign_expresses h₃ hid q.result⟩
    rw [Quadruple.symbolic, Quadruple.symbolicValue, if_neg hop, he]
    rfl

theorem addAll_expresses {index : Nat} {quads : List Quadruple} (hd : d.Coherent)
    (hlisted : d.Listed) (h : d.Expresses s) (hadd : d.addAll index quads = .ok d') :
    ∃ s', symbolicRun s quads = .ok s' ∧ d'.Expresses s' := by
  induction quads generalizing d s index with
  | nil =>
    obtain rfl := Except.ok.inj hadd
    exact ⟨s, rfl, h⟩
  | cons q quads ih =>
    obtain ⟨d₁, hq, hadd⟩ := addAll_cons_eq_ok_iff.1 hadd
    obtain ⟨hd₁, hlisted₁, -⟩ := add_coherent hd hlisted hq
    obtain ⟨s₁, hs₁, h₁⟩ := add_expresses hd hlisted h hq
    obtain ⟨s', hs', h'⟩ := ih hd₁ hlisted₁ h₁ hadd
    refine ⟨s', ?_, h'⟩
    rw [symbolicRun, hs₁]
    exact hs'

/-- The graph of a block expresses the symbolic values after the block. -/
theorem build_expresses {quads : List Quadruple} (h : build quads = .ok d) :
    ∃ s, symbolicRun .initial quads = .ok s ∧ d.Expresses s :=
  addAll_expresses empty_coherent empty_listed empty_expresses h

end Dag
end ArithFrontEnd
