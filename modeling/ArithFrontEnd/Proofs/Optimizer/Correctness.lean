import ArithFrontEnd.Proofs.Optimizer.Emission
import ArithFrontEnd.Proofs.Optimizer.Meaning

/-!
# An optimized block does what the block does

The block of a graph writes a name once the value of its node is known, and from then on the name
has that value.  A name that has not been written still has its value on entry.  In the end every
name of the block has the value of the node that it is bound to, which is what it stands for after
the block itself.

## Main definitions

* `Settled` — the names that have been written have the values of their nodes, the others what they
  had on entry.
* `Settles` — instructions that can be run and write the values of nodes.
* `Introduced` — names that an optimized block writes and the block does not have.

## Main results

* `Settled.operand_eq` — how the value of a node is read is read as that value.
* `Dag.Writes.settles`, `Dag.linearize_settles` — instructions that give names the values of nodes
  can be run, those of the block of a graph among them.
* `run_optimize` — **an optimized block can be run where the block can, and leaves every name with
  the same value, the names that it introduces apart.**
-/

namespace ArithFrontEnd

variable {I : Interpretation} {entry env : Environment} {d : Dag} {val : NodeId → Value}

/-- The names that have been written have the values of their nodes, the others what they had on
entry. -/
structure Settled (entry : Environment) (d : Dag) (val : NodeId → Value) (done : List String)
    (env : Environment) : Prop where
  /-- A name that has been written has the value of its node. -/
  written {name : String} (h : name ∈ done) : ∃ id, d.Owns name id ∧ env name = val id
  /-- Any other name has the value it had on entry. -/
  unwritten {name : String} (h : name ∉ done) : env name = entry name

namespace Settled

theorem nil (entry : Environment) (d : Dag) (val : NodeId → Value) :
    Settled entry d val [] entry where
  written h := by cases h
  unwritten _ := rfl

/-- A name has the value of its node if it has been written. -/
theorem eq_of_written {done : List String} {name : String} {id : NodeId}
    (h : Settled entry d val done env) (howns : d.Owns name id) (hmem : name ∈ done) :
    env name = val id := by
  obtain ⟨j, hj, heq⟩ := h.written hmem
  rw [heq, hj.unique howns]

/-- How the value of a node is read is read as that value. -/
theorem operand_eq {done : List String} {text : String} {id : NodeId} (hd : d.Coherent)
    (hval : d.Valuation I entry val) (h : Settled entry d val done env)
    (hreads : d.Reads done text id) : env.operand text = val id := by
  cases hreads with
  | numeral hvalue htext =>
    have hv : val id = _ := hval id _ hvalue
    rw [Environment.operand, htext, Dag.value?_nameOf_constant hd hvalue, Option.getD_some, hv]
  | written howns hmem =>
    rw [Environment.operand, howns.value?_eq_none hd, Option.getD_none]
    exact h.eq_of_written howns hmem
  | entry hvalue hlookup =>
    rw [Environment.operand, hd.not_numeral hlookup, Option.getD_none]
    by_cases hmem : text ∈ done
    · exact h.eq_of_written (Or.inl hlookup) hmem
    · have hentry : val id = entry text := hval id _ hvalue
      rw [h.unwritten hmem, hentry]

/-- One more name can be written with the value of its node. -/
theorem set {done : List String} {name : String} {id : NodeId} (h : Settled entry d val done env)
    (howns : d.Owns name id) : Settled entry d val (done ++ [name]) (env.set name (val id)) where
  written {other} hmem := by
    by_cases heq : other = name
    · exact ⟨id, heq ▸ howns, by rw [heq, Environment.set_self]⟩
    · rw [Environment.set_of_ne _ _ heq]
      exact h.written ((List.mem_append.1 hmem).resolve_right (by simpa using heq))
  unwritten {other} hmem := by
    have hmem' : other ∉ done ∧ other ≠ name := by simpa using hmem
    rw [Environment.set_of_ne _ _ hmem'.2, h.unwritten hmem'.1]

end Settled

/-! ### Instructions that write the values of nodes -/

/-- Once these names are written, the instructions can be run and write more of them. -/
def Settles (I : Interpretation) (entry : Environment) (d : Dag) (val : NodeId → Value)
    (done : List String) (qs : List Quadruple) : Prop :=
  ∀ start env, Settled entry d val done env →
    ∃ env', runFrom I start env qs = .ok env' ∧
      Settled entry d val (done ++ qs.map (·.result)) env'

variable {done : List String}

theorem settles_nil : Settles I entry d val done [] :=
  fun _ env h => ⟨env, rfl, by simpa using h⟩

/-- An instruction that gives a name the value of its node may come before others. -/
theorem settles_cons {q : Quadruple} {qs : List Quadruple} {id : NodeId}
    (hvalue : ∀ env, Settled entry d val done env → q.value I env = .ok (val id))
    (howns : d.Owns q.result id) (hqs : Settles I entry d val (done ++ [q.result]) qs) :
    Settles I entry d val done (q :: qs) := by
  intro start env henv
  obtain ⟨env', hrun, h⟩ := hqs (start + 1) _ (henv.set howns)
  refine ⟨env', ?_, ?_⟩
  · rw [runFrom, Quadruple.execute, hvalue env henv]
    exact hrun
  · rwa [List.map_cons, List.append_cons]

theorem value_copy (I : Interpretation) (env : Environment) (source result : String) :
    (Quadruple.copy source result).value I env = .ok (env.operand source) := rfl

namespace Dag

/-- An instruction that gives the value of a node to a name computes that value. -/
theorem Computes.value_eq {q : Quadruple} {id : NodeId} (hd : d.Coherent)
    (hval : d.Valuation I entry val) (hq : d.Computes done q id)
    (h : Settled entry d val done env) : q.value I env = .ok (val id) := by
  cases hq with
  | @keep name kept _ hvalue hkept hnot =>
    obtain ⟨j, hj⟩ := Option.ne_none_iff_exists'.1 (hd.bound_of_entry hvalue)
    have hentry : val id = entry name := hval id _ hvalue
    rw [value_copy, Environment.operand, hd.not_numeral hj, Option.getD_none, h.unwritten hnot,
      hentry]
  | copy htext howns => rw [value_copy, h.operand_eq hd hval htext]
  | operator hvalue hleft hright howns =>
    rw [Quadruple.value, if_neg (hd.ne_copyOp hvalue), h.operand_eq hd hval hleft,
      h.operand_eq hd hval hright]
    exact hval id _ hvalue

/-- Instructions that give names the values of nodes can be run. -/
theorem Writes.settles {qs : List Quadruple} {ids : List NodeId} (hd : d.Coherent)
    (hval : d.Valuation I entry val) (h : d.Writes done qs ids) :
    Settles I entry d val done qs := by
  induction h with
  | nil done => exact settles_nil
  | cons hq hqs ih => exact settles_cons (fun env henv => hq.value_eq hd hval henv) (hq.owns hd) ih

theorem linearize_settles (hd : d.Coherent) (hlisted : d.Listed) (hval : d.Valuation I entry val) :
    Settles I entry d val [] d.linearize := (linearize_writes hd hlisted).settles hd hval

/-- Where the block of a graph has been run, a bound name has the value of its node. -/
theorem eq_of_lookup {env : Environment} (hd : d.Coherent) (hval : d.Valuation I entry val)
    (h : Settled entry d val (d.linearize.map (·.result)) env) {name : String} {id : NodeId}
    (hlookup : d.lookup name = some id) : env name = val id := by
  by_cases hwritten : name ∈ d.linearize.map (·.result)
  · exact h.eq_of_written (Or.inl hlookup) hwritten
  · have hvalue := (mem_results_of_lookup hd hlookup).resolve_left hwritten
    have hentry : val id = entry name := hval id _ hvalue
    rw [h.unwritten hwritten, hentry]

end Dag

/-! ### The optimizer -/

/-- The optimized block writes this name, which is `$n` with marks, and the block does not have
it. -/
def Introduced (quads out : List Quadruple) (name : String) : Prop :=
  IsFreshName name ∧ ¬ Occurs name quads ∧ ∃ q ∈ out, q.result = name

/-- A block that is run has the effect that its optimized block has, except for the names that the
optimized block introduces. -/
theorem run_optimize {quads out : List Quadruple} {after : Environment}
    (hout : optimize quads = .ok out) (hrun : run I entry quads = .ok after) :
    ∃ after', run I entry out = .ok after' ∧
      ∀ name, ¬ Introduced quads out name → after' name = after name := by
  unfold optimize at hout
  cases hbuild : Dag.build quads with
  | error e => rw [hbuild] at hout; cases hout
  | ok d =>
    rw [hbuild] at hout
    obtain rfl : d.linearize = out := Except.ok.inj hout
    obtain ⟨hd, hlisted, hbound⟩ := Dag.build_coherent hbuild
    obtain ⟨val, hval⟩ := Dag.build_represents hbuild hrun
    obtain ⟨after', hrun', h⟩ :=
      Dag.linearize_settles hd hlisted hval.valuation 0 entry (Settled.nil entry d val)
    refine ⟨after', hrun', fun name hname => ?_⟩
    cases hlookup : d.lookup name with
    | some id => rw [Dag.eq_of_lookup hd hval.valuation h hlookup, hval.bound hlookup]
    | none =>
      rw [hval.unbound hlookup]
      refine h.unwritten fun hmem => hname ?_
      -- a name that is written and not bound is a fresh one
      obtain ⟨id, hlookup' | rfl, -⟩ := h.written hmem
      · rw [hlookup] at hlookup'
        contradiction
      · have hne : d.freshName id ≠ "" := by
          obtain ⟨marks, hmarks⟩ := d.freshName_eq_marked id
          intro hempty
          have hlist := congrArg String.toList (hmarks.symm.trans hempty)
          simp [Dag.toList_marked, Dag.toList_nodeText] at hlist
        refine ⟨isFreshName_freshName d id, fun hoccurs => ?_, List.mem_map.1 hmem⟩
        exact hbound _ hoccurs hne (Dag.value?_freshName d id) hlookup

/-- Two names are swapped by way of a third before an operator without a known meaning is applied
to them, and the optimized block keeps the value of `b` on entry under a fresh name. -/
theorem run_optimize_swap :
    ∃ after', run (fun _ a b => some (a - b)) (fun name => if name = "a" then 1 else 5)
        [.copy "a" "t", .copy "b" "$1", .copy "t" "b", .copy "$1" "a", ⟨"mod", "$1", "t", "x"⟩] =
          .ok after' ∧
      after' "a" = 5 ∧ after' "b" = 1 ∧ after' "x" = 4 := by
  have hout : optimize
      [.copy "a" "t", .copy "b" "a", .copy "t" "b", ⟨"mod", "a", "b", "x"⟩] = .ok
        [.copy "a" "t", .copy "b" "$1", .copy "t" "b", .copy "$1" "a",
          ⟨"mod", "$1", "t", "x"⟩] := by
    decide +kernel
  obtain ⟨after', hrun', h⟩ :=
    run_optimize (I := fun _ a b => some (a - b)) hout
      (rfl : run _ (fun name => if name = "a" then 1 else 5) _ = _)
  refine ⟨after', hrun', ?_, ?_, ?_⟩
  · rw [h "a" fun hname => hname.2.1 ⟨.copy "b" "a", by simp, by decide⟩]
    rfl
  · rw [h "b" fun hname => hname.2.1 ⟨.copy "t" "b", by simp, by decide⟩]
    rfl
  · rw [h "x" fun hname => hname.2.1 ⟨⟨"mod", "a", "b", "x"⟩, by simp, by decide⟩]
    rfl

end ArithFrontEnd
