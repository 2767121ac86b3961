import ArithFrontEnd.Optimizer.Constants
import ArithFrontEnd.Optimizer.Linearize
import ArithFrontEnd.Proofs.Optimizer.Coherence
import ArithFrontEnd.Quadruple.Execution

/-!
# Which blocks are refused

A graph knows a name if it is bound to the node of a constant.  It knows what can be known without a
graph, by propagating constants through the instructions, because an operand is resolved to a node
that is a constant exactly if its value is known, and an operator is folded exactly if those of its
operands are.  So a block is refused where propagation says that it must be.

What is known holds whenever the block is run, and so a block that is refused because of an
operation cannot be run past it.

## Main definitions

* `Dag.knowledge` — what a graph knows of names.
* `Accepted` — no instruction of a block is refused.
* `Knowledge.HoldsIn` — an environment is as it is known.

## Main results

* `knowledge_of_add`, `knowledge_of_build` — a graph knows what propagation says.
* `add_eq_error_iff` — an instruction is refused.
* `HoldsIn.learn`, `holdsIn_propagate` — what is known holds in a run.
* `optimize_eq_error_iff` — **when, where and why a block is refused.**
-/

namespace ArithFrontEnd

/-- A quadruple that is no instruction is found to be none. -/
theorem Quadruple.isMalformed_iff {q : Quadruple} : q.IsMalformed ↔ q.malformed? ≠ none := by
  rw [Ne, malformed?_eq_none_iff, Option.eq_none_iff_forall_ne_some]
  unfold IsMalformed
  grind

/-- An operation can be folded if it is one of arithmetic and both values are known. -/
theorem Quadruple.folding?_eq_some_iff {k : Knowledge} {q : Quadruple} {op : BinaryOp}
    {a b : Value} : q.folding? k = some (op, a, b) ↔ BinaryOp.ofSymbol? q.op = some op ∧
      k.operand q.operand1 = some a ∧ k.operand q.operand2 = some b := by
  unfold folding?
  cases BinaryOp.ofSymbol? q.op <;> cases k.operand q.operand1 <;>
    cases k.operand q.operand2 <;> simp

namespace Dag

variable {d d' : Dag} {quads : List Quadruple} {id : NodeId} {index : Nat} {q : Quadruple}

/-- What a graph knows of names: the constants that they are bound to. -/
def knowledge (d : Dag) : Knowledge := fun name => (d.lookup name).bind d.constant?

theorem constant?_of_valueAt? {value : NodeValue} (h : d.valueAt? id = some value)
    (hvalue : ∀ v, value ≠ .constant v) : d.constant? id = none := by
  refine Option.eq_none_iff_forall_ne_some.2 fun v hv => ?_
  rw [constant?_eq_some_iff, h] at hv
  exact hvalue v (Option.some.inj hv)

theorem constant?_congr (h : d'.valueAt? id = d.valueAt? id) : d'.constant? id = d.constant? id :=
  Option.ext fun v => by rw [constant?_eq_some_iff, constant?_eq_some_iff, h]

/-- A graph with more nodes and the same names knows the same. -/
theorem knowledge_congr (hd : d.Coherent) (hext : Extends d d')
    (hlookup : ∀ name, d'.lookup name = d.lookup name) : d'.knowledge = d.knowledge := by
  funext name
  rw [knowledge, knowledge, hlookup]
  cases hname : d.lookup name with
  | none => rfl
  | some id => exact constant?_congr (hext.valueAt?_eq (hd.lookup_lt hname))

/-- Nothing is known of a name that enters. -/
theorem knowledge_enter (hd : d.Coherent) {text : String} (names : List String)
    (hunbound : d.lookup text = none) : (d.enter text names).knowledge = d.knowledge := by
  funext name
  rw [knowledge, knowledge, lookup_enter]
  split
  · next heq =>
    subst heq
    rw [hunbound]
    exact constant?_of_valueAt? ((valueAt?_enter ..).trans (if_pos rfl)) (by simp)
  · cases hname : d.lookup name with
    | none => rfl
    | some id =>
      exact constant?_congr ((extends_enter names hunbound).valueAt?_eq (hd.lookup_lt hname))

theorem knowledge_intern (hd : d.Coherent) {value : NodeValue} {literal : Option String}
    (h : d.intern value literal = (id, d')) : d'.knowledge = d.knowledge := by
  refine knowledge_congr hd (valueAt?_of_intern h).2 fun name => ?_
  obtain ⟨-, rfl⟩ | ⟨-, rfl, rfl⟩ := intern_cases h
  · rfl
  · rfl

/-- An operand is resolved to a constant exactly if its value is known, and nothing else is
learned. -/
theorem knowledge_resolve (hd : d.Coherent) {text : String} {names : List String}
    (h : d.resolve text names = (id, d')) :
    d'.knowledge = d.knowledge ∧ d'.constant? id = d.knowledge.operand text := by
  obtain ⟨hlookup, rfl⟩ | ⟨v, -, hvalue, hv⟩ | ⟨hunbound, hvalue, rfl, rfl⟩ := resolve_cases h
  · refine ⟨rfl, ?_⟩
    rw [Knowledge.operand, hd.not_numeral hlookup, knowledge, hlookup, Option.bind_some]
  · refine ⟨knowledge_intern hd hv, ?_⟩
    rw [Knowledge.operand, hvalue, constant?_eq_some_iff]
    exact (valueAt?_of_intern hv).1
  · refine ⟨knowledge_enter hd names hunbound, ?_⟩
    rw [Knowledge.operand, hvalue, knowledge, hunbound]
    exact constant?_of_valueAt? ((valueAt?_enter ..).trans (if_pos rfl)) (by simp)

theorem knowledge_assign (d : Dag) (name : String) (id : NodeId) :
    (d.assign name id).knowledge = d.knowledge.set name (d.constant? id) := by
  funext other
  have hconstant (j : NodeId) : (d.assign name id).constant? j = d.constant? j :=
    constant?_congr (valueAt?_assign d name id j)
  rw [knowledge, lookup_assign, Knowledge.set]
  split
  · exact hconstant id
  · rw [knowledge, funext hconstant]

/-- The operands of an operator are resolved to nodes that can be folded exactly if their values are
known. -/
theorem fold?_of_operands {d₁ d₂ : Dag} {left right : NodeId} (hd : d.Coherent)
    (hlisted : d.Listed) (hleft : d.operand q.operand1 = (left, d₁))
    (hright : d₁.operand q.operand2 = (right, d₂)) :
    d₂.fold? q.op left right = q.folding? d.knowledge ∧ d₂.knowledge = d.knowledge ∧
      d₂.Coherent := by
  obtain ⟨hd₁, hlisted₁, -, hlt⟩ := resolve_coherent hd hlisted (by simp) hleft
  obtain ⟨hd₂, -, hext, -⟩ := resolve_coherent hd₁ hlisted₁ (by simp) hright
  obtain ⟨hknown₁, ha⟩ := knowledge_resolve hd hleft
  obtain ⟨hknown₂, hb⟩ := knowledge_resolve hd₁ hright
  rw [hknown₁] at hknown₂ hb
  have ha₂ : d₂.constant? left = d.knowledge.operand q.operand1 :=
    (constant?_congr (hext.valueAt?_eq hlt)).trans ha
  refine ⟨Option.ext fun ⟨o, a, b⟩ => ?_, hknown₂, hd₂⟩
  rw [fold?_eq_some_iff, Quadruple.folding?_eq_some_iff, ← constant?_eq_some_iff,
    ← constant?_eq_some_iff, ha₂, hb]

/-- After an instruction a graph knows what the instruction lets one learn. -/
theorem knowledge_of_add (hd : d.Coherent) (hlisted : d.Listed) (h : d.add index q = .ok d') :
    d'.knowledge = q.learn d.knowledge := by
  unfold Quadruple.learn Quadruple.known?
  obtain ⟨-, ⟨hcopy, -, id, d₁, hsource, rfl⟩ |
    ⟨hcopy, -, left, d₁, right, d₂, id, d₃, hleft, hright, hcombine, rfl⟩⟩ := add_cases h
  · obtain ⟨hknown, hconstant⟩ := knowledge_resolve hd hsource
    rw [knowledge_assign, hknown, hconstant, if_pos hcopy]
  · obtain ⟨hfold, hknown, hd₂⟩ := fold?_of_operands hd hlisted hleft hright
    rw [knowledge_assign, if_neg hcopy, ← hfold, ← hknown]
    rcases combine_cases hcombine with ⟨o, a, b, v, ho, ha, hb, hv, hintern⟩ | ⟨hnone, hintern⟩
    · rw [knowledge_intern hd₂ hintern, fold?_eq_some_iff.2 ⟨ho, ha, hb⟩]
      have hconstant : d₃.constant? id = some v :=
        constant?_eq_some_iff.2 (valueAt?_of_intern hintern).1
      simp only [hconstant, hv, Except.toOption]
    · rw [knowledge_intern hd₂ hintern, hnone]
      rw [constant?_of_valueAt? (valueAt?_of_intern hintern).1 (by simp)]

/-- An operator is refused if it is folded and has no result. -/
theorem combine_eq_error_iff {op : String} {left right : NodeId} {cause : OperationError} :
    d.combine op left right = .error cause ↔
      ∃ o a b, d.fold? op left right = some (o, a, b) ∧ o.apply a b = .error cause := by
  unfold combine
  cases d.fold? op left right with
  | none => simp
  | some folded =>
    obtain ⟨o, a, b⟩ := folded
    constructor
    · intro h
      refine ⟨o, a, b, rfl, ?_⟩
      cases hv : o.apply a b with
      | error e => simpa [hv, Except.map] using h
      | ok v => simp [hv, Except.map] at h
    · rintro ⟨o', a', b', heq, hcause⟩
      obtain ⟨rfl, rfl, rfl⟩ : o = o' ∧ a = a' ∧ b = b' := by simpa using heq
      simp [hcause, Except.map]

/-- An instruction is refused for what a graph knows. -/
theorem add_eq_error_iff (hd : d.Coherent) (hlisted : d.Listed) {e : OptimizeError} :
    d.add index q = .error e ↔ q.Refused d.knowledge index e := by
  cases hmal : q.malformed? with
  | some what =>
    have hq : q.IsMalformed := Quadruple.isMalformed_iff.2 (by simp [hmal])
    simp only [add, hmal, Except.error.injEq]
    constructor
    · rintro rfl
      exact .malformed hq hmal
    · intro h
      cases h with
      | malformed _ hwhat => rw [Option.some.inj (hmal.symm.trans hwhat)]
      | fold hnot => exact absurd hq hnot
  | none =>
    have hq : ¬ q.IsMalformed := fun h => Quadruple.isMalformed_iff.1 h hmal
    obtain ⟨-, -, -, -, hoperands⟩ := Quadruple.malformed?_eq_none_iff.1 hmal
    have hrefused : q.Refused d.knowledge index e ↔ ∃ o a b cause,
        q.folding? d.knowledge = some (o, a, b) ∧ o.apply a b = .error cause ∧
          .fold index q cause = e := by
      constructor
      · intro h
        cases h with
        | malformed h => exact absurd h hq
        | fold _ hop ha hb hcause =>
          have hofSymbol := BinaryOp.ofSymbol?_eq_some_iff.2 hop
          exact ⟨_, _, _, _, Quadruple.folding?_eq_some_iff.2 ⟨hofSymbol, ha, hb⟩, hcause, rfl⟩
      · rintro ⟨o, a, b, cause, hfolding, hcause, rfl⟩
        obtain ⟨hop, ha, hb⟩ := Quadruple.folding?_eq_some_iff.1 hfolding
        exact .fold hq (BinaryOp.ofSymbol?_eq_some_iff.1 hop) ha hb hcause
    rw [hrefused]
    by_cases hsecond : q.operand2 = ""
    · rw [add_copy index hmal hsecond rfl]
      refine iff_of_false (by simp) ?_
      rintro ⟨o, a, b, -, hfolding, -, -⟩
      obtain ⟨hop, -, -⟩ := Quadruple.folding?_eq_some_iff.1 hfolding
      rw [hoperands.1 hsecond] at hop
      contradiction
    · obtain ⟨hfold, -, -⟩ := fold?_of_operands hd hlisted (q := q) rfl rfl
      rw [← hfold, add_operator_eq index hmal hsecond rfl rfl]
      constructor
      · intro h
        split at h
        · next cause hcombine =>
          obtain ⟨o, a, b, hfolding, hcause⟩ := combine_eq_error_iff.1 hcombine
          exact ⟨o, a, b, cause, hfolding, hcause, Except.error.inj h⟩
        · cases h
      · rintro ⟨o, a, b, cause, hfolding, hcause, rfl⟩
        rw [combine_eq_error_iff.2 ⟨o, a, b, hfolding, hcause⟩]

theorem exists_add_eq_error {e : OptimizeError} (h : d.addAll index quads = .error e) :
    ∃ front q rest d', quads = front ++ q :: rest ∧ d.addAll index front = .ok d' ∧
      d'.add (index + front.length) q = .error e := by
  induction quads generalizing d index with
  | nil => cases h
  | cons q quads ih =>
    rw [addAll] at h
    cases hadd : d.add index q with
    | error e' =>
      rw [hadd] at h
      exact ⟨[], q, quads, d, rfl, rfl, hadd.trans h⟩
    | ok d₁ =>
      rw [hadd] at h
      obtain ⟨front, q', rest, d', rfl, hfront, hq'⟩ := ih h
      have shift : index + (front.length + 1) = index + 1 + front.length := by omega
      refine ⟨q :: front, q', rest, d', rfl, addAll_cons_eq_ok_iff.2 ⟨d₁, hadd, hfront⟩, ?_⟩
      rwa [List.length_cons, shift]

/-- A block is refused where the first of its instructions is refused. -/
theorem addAll_eq_error_iff {e : OptimizeError} : d.addAll index quads = .error e ↔
    ∃ front q rest d', quads = front ++ q :: rest ∧ d.addAll index front = .ok d' ∧
      d'.add (index + front.length) q = .error e := by
  refine ⟨exists_add_eq_error, ?_⟩
  rintro ⟨front, q, rest, d', rfl, hfront, hq⟩
  rw [addAll_append, hfront]
  dsimp only
  rw [addAll, hq]

theorem knowledge_of_addAll (hd : d.Coherent) (hlisted : d.Listed)
    (h : d.addAll index quads = .ok d') :
    d'.knowledge = quads.foldl Quadruple.learn d.knowledge := by
  induction quads generalizing d index with
  | nil =>
    obtain rfl := Except.ok.inj h
    rfl
  | cons q quads ih =>
    obtain ⟨d₁, hadd, h⟩ := addAll_cons_eq_ok_iff.1 h
    obtain ⟨hd₁, hlisted₁, -⟩ := add_coherent hd hlisted hadd
    rw [ih hd₁ hlisted₁ h, knowledge_of_add hd hlisted hadd, List.foldl_cons]

/-- The graph of a block knows what propagation says. -/
theorem knowledge_of_build (h : build quads = .ok d) : d.knowledge = propagate quads :=
  knowledge_of_addAll empty_coherent empty_listed h

/-- A block is refused where propagation says so of an instruction, and the ones before it have a
graph. -/
theorem build_eq_error_iff {e : OptimizeError} : build quads = .error e ↔
    ∃ front q rest, quads = front ++ q :: rest ∧ (∃ d, build front = .ok d) ∧
      q.Refused (propagate front) front.length e := by
  have hadd {front : List Quadruple} {q : Quadruple} {d : Dag} (hd : build front = .ok d) :
      d.add (0 + front.length) q = .error e ↔ q.Refused (propagate front) front.length e := by
    obtain ⟨hcoherent, hlisted, -⟩ := build_coherent hd
    rw [Nat.zero_add, add_eq_error_iff hcoherent hlisted, knowledge_of_build hd]
  rw [build, addAll_eq_error_iff]
  constructor
  · rintro ⟨front, q, rest, d, hquads, hd, hq⟩
    exact ⟨front, q, rest, hquads, ⟨d, hd⟩, (hadd hd).1 hq⟩
  · rintro ⟨front, q, rest, hquads, ⟨d, hd⟩, hq⟩
    exact ⟨front, q, rest, d, hquads, hd, (hadd hd).2 hq⟩

end Dag

/-- No instruction of the block is refused for what is known before it. -/
def Accepted (quads : List Quadruple) : Prop :=
  ∀ front q rest, quads = front ++ q :: rest →
    ∀ e, ¬ q.Refused (propagate front) front.length e

/-- A block is accepted if it has a graph. -/
theorem accepted_iff {quads : List Quadruple} : Accepted quads ↔ ∃ d, Dag.build quads = .ok d := by
  constructor
  · intro h
    cases hbuild : Dag.build quads with
    | ok d => exact ⟨d, rfl⟩
    | error e =>
      obtain ⟨front, q, rest, hquads, -, hq⟩ := Dag.build_eq_error_iff.1 hbuild
      exact absurd hq (h front q rest hquads e)
  · rintro ⟨d, hd⟩ front q rest rfl e hq
    have hfront := Dag.exists_build_of_prefix hd (List.prefix_append front _)
    have herror := Dag.build_eq_error_iff.2 ⟨front, q, rest, rfl, hfront, hq⟩
    cases hd.symm.trans herror

/-! ### What is known in a run -/

namespace Knowledge

variable {k : Knowledge} {I : Interpretation} {env env' : Environment} {quads : List Quadruple}

/-- The names stand for the values that are known of them. -/
def HoldsIn (k : Knowledge) (env : Environment) : Prop := ∀ name v, k name = some v → env name = v

theorem HoldsIn.operand (h : k.HoldsIn env) {text : String} {v : Value}
    (hv : k.operand text = some v) : env.operand text = v := by
  unfold Knowledge.operand at hv
  unfold Environment.operand
  cases hvalue : Numeral.value? text with
  | some w =>
    rw [hvalue] at hv
    exact Option.some.inj hv
  | none =>
    rw [hvalue] at hv
    exact h text v hv

/-- What is known of the result of an instruction is its value. -/
theorem HoldsIn.value_eq (h : k.HoldsIn env) {q : Quadruple} {v : Value}
    (hv : q.known? k = some v) : q.value I env = .ok v := by
  unfold Quadruple.known? at hv
  unfold Quadruple.value
  split at hv
  · next hcopy => rw [if_pos hcopy, h.operand hv]
  · next hcopy =>
    rw [if_neg hcopy]
    split at hv
    · next op a b hfolding =>
      obtain ⟨hop, ha, hb⟩ := Quadruple.folding?_eq_some_iff.1 hfolding
      rw [h.operand ha, h.operand hb, Interpretation.apply, hop]
      cases happly : op.apply a b with
      | error e => simp [happly, Except.toOption] at hv
      | ok w => simpa [happly, Except.toOption] using hv
    · contradiction

/-- What is learned from an instruction holds when it has been run. -/
theorem HoldsIn.learn (h : k.HoldsIn env) {q : Quadruple} (hrun : q.execute I env = .ok env') :
    (q.learn k).HoldsIn env' := by
  intro name v hv
  unfold Quadruple.learn Knowledge.set at hv
  unfold Quadruple.execute at hrun
  cases hvalue : q.value I env with
  | error e => rw [hvalue] at hrun; cases hrun
  | ok w =>
    rw [hvalue] at hrun
    obtain rfl := Except.ok.inj hrun
    split at hv
    · next hname =>
      rw [hname, Environment.set_self]
      exact Except.ok.inj (hvalue.symm.trans (h.value_eq hv))
    · next hname =>
      rw [Environment.set_of_ne _ _ hname]
      exact h name v hv

theorem HoldsIn.foldl_learn {start : Nat} (h : k.HoldsIn env)
    (hrun : runFrom I start env quads = .ok env') :
    (quads.foldl Quadruple.learn k).HoldsIn env' := by
  induction quads generalizing k env start with
  | nil =>
    obtain rfl := Except.ok.inj hrun
    exact h
  | cons q quads ih =>
    obtain ⟨env₁, hq, hrun⟩ := runFrom_cons_eq_ok_iff.1 hrun
    exact ih (h.learn hq) hrun

/-- What is known after a block holds when it has been run, wherever it was started. -/
theorem holdsIn_propagate (hrun : run I env quads = .ok env') : (propagate quads).HoldsIn env' :=
  HoldsIn.foldl_learn (fun _ _ h => by cases h) hrun

end Knowledge

/-- An operation that is refused cannot be run. -/
theorem Quadruple.Refused.execute_eq {k : Knowledge} {index i : Nat} {q q' : Quadruple}
    {cause : OperationError} {env : Environment} (h : q.Refused k index (.fold i q' cause))
    (hk : k.HoldsIn env) (I : Interpretation) : q.execute I env = .error (.operation cause) := by
  cases h with
  | fold hq hop ha hb hcause =>
    have hofSymbol := BinaryOp.ofSymbol?_eq_some_iff.2 hop
    have hcopy : q.op ≠ copyOp := by
      intro hcopy
      rw [hcopy] at hofSymbol
      contradiction
    rw [execute, value, if_neg hcopy, hk.operand ha, hk.operand hb, Interpretation.apply,
      hofSymbol]
    simp only [hcause]

/-- A block is refused exactly where the first of its instructions is refused that is none or has no
result for what constant propagation knows before it.  If it is refused because of an operation,
then a run that comes to this instruction stops there for the same reason. -/
theorem optimize_eq_error_iff (quads : List Quadruple) :
    (∀ e, optimize quads = .error e ↔ ∃ front q rest, quads = front ++ q :: rest ∧
      Accepted front ∧ q.Refused (propagate front) front.length e) ∧
    ∀ index q cause, optimize quads = .error (.fold index q cause) →
      ∀ I env after, run I env (quads.take index) = .ok after →
        run I env quads = .error ⟨index, .operation cause⟩ := by
  have hrefused (e : OptimizeError) : optimize quads = .error e ↔ ∃ front q rest,
      quads = front ++ q :: rest ∧ Accepted front ∧ q.Refused (propagate front) front.length e := by
    have hbuild : optimize quads = .error e ↔ Dag.build quads = .error e := by
      unfold optimize
      cases Dag.build quads <;> simp [Except.map]
    simp only [hbuild, Dag.build_eq_error_iff, accepted_iff]
  refine ⟨hrefused, fun index q cause h I env after hrun => ?_⟩
  obtain ⟨front, q', rest, rfl, -, hq⟩ := (hrefused _).1 h
  obtain ⟨rfl, rfl⟩ : front.length = index ∧ q' = q := by
    cases hq
    exact ⟨rfl, rfl⟩
  rw [List.take_left] at hrun
  have hexecute := hq.execute_eq (Knowledge.holdsIn_propagate hrun) I
  rw [run_append, hrun]
  simp only [runFrom, hexecute]

/-- A block that divides by zero.  The divisor is the result of a product and comes through a copy,
and the dividend has been forgotten and is known again. -/
def dividing : List Quadruple :=
  [.copy "7" "a", ⟨"*", "a", "0", "z"⟩, .copy "u" "a", ⟨"/", "a", "2", "x"⟩, .copy "z" "w",
    .copy "5" "a", ⟨"/", "a", "w", "y"⟩, ⟨"!", "", "", "7"⟩]

/-- The block is refused at the division and not at the quadruple after it, and it cannot be run. -/
theorem optimize_dividing :
    optimize dividing = .error (.fold 6 ⟨"/", "a", "w", "y"⟩ .divisionByZero) ∧
      (∃ front q rest, dividing = front ++ q :: rest ∧ Accepted front ∧
        q.Refused (propagate front) front.length (.fold 6 ⟨"/", "a", "w", "y"⟩ .divisionByZero)) ∧
      run (fun _ _ _ => none) (fun _ => 1) dividing = .error ⟨6, .operation .divisionByZero⟩ := by
  have h : optimize dividing = .error (.fold 6 ⟨"/", "a", "w", "y"⟩ .divisionByZero) := rfl
  obtain ⟨hrefused, hrun⟩ := optimize_eq_error_iff dividing
  exact ⟨h, (hrefused _).1 h, hrun _ _ _ h _ _ _ rfl⟩

end ArithFrontEnd
