import ArithFrontEnd.Proofs.Optimizer.Coherence

/-!
# Graphs in which nothing is said twice

Equal values share a node, an operator that can be folded has been folded, and no name is listed
twice.  The names and the operators of a graph are those of instructions, so none of them is empty.

## Main definitions

* `Dag.Reduced` — the invariant.

## Main results

* `resolve_reduced`, `combine_reduced`, `assign_reduced` — what the parts of an instruction keep.
* `build_reduced` — **nothing is said twice in the graph of a block.**
-/

namespace ArithFrontEnd
namespace Dag

/-- Nothing is said twice in the graph. -/
structure Reduced (d : Dag) : Prop where
  /-- Different nodes stand for different values. -/
  unique {i j : NodeId} {value : NodeValue} (hi : d.valueAt? i = some value)
    (hj : d.valueAt? j = some value) : i = j
  /-- No operator is left that can be folded. -/
  not_folded {id : NodeId} {op : String} {left right : NodeId}
    (h : d.valueAt? id = some (.operator op left right)) : d.fold? op left right = none
  /-- No operator is empty. -/
  op_ne_empty {id : NodeId} {op : String} {left right : NodeId}
    (h : d.valueAt? id = some (.operator op left right)) : op ≠ ""
  /-- The names of a node are different. -/
  names_nodup (id : NodeId) : (d.namesAt id).Nodup
  /-- No name is empty. -/
  name_ne_empty {name : String} {id : NodeId} (h : d.lookup name = some id) : name ≠ ""

variable {d d' : Dag}

/-- Whether an operator can be folded depends on the values of its operands. -/
theorem fold?_congr {left right : NodeId} (hleft : d'.valueAt? left = d.valueAt? left)
    (hright : d'.valueAt? right = d.valueAt? right) (op : String) :
    d'.fold? op left right = d.fold? op left right := by
  refine Option.ext fun ⟨o, a, b⟩ => ?_
  rw [fold?_eq_some_iff, fold?_eq_some_iff, hleft, hright]

/-- Operators that could not be folded still cannot when nodes are added. -/
theorem Reduced.not_folded_of_extends (hr : d.Reduced) (hd : d.Coherent) (h : Extends d d')
    {id : NodeId} {op : String} {left right : NodeId}
    (hvalue : d.valueAt? id = some (.operator op left right)) : d'.fold? op left right = none := by
  have hid := lt_length_of_valueAt? hvalue
  obtain ⟨hleft, hright⟩ := hd.operands_lt hvalue
  rw [fold?_congr (h.valueAt?_eq (Nat.lt_trans hleft hid))
    (h.valueAt?_eq (Nat.lt_trans hright hid)), hr.not_folded hvalue]

theorem empty_reduced : empty.Reduced where
  unique h := by simp [valueAt?, node?, empty] at h
  not_folded h := by simp [valueAt?, node?, empty] at h
  op_ne_empty h := by simp [valueAt?, node?, empty] at h
  names_nodup id := by simp [namesAt, node?, empty]
  name_ne_empty h := by simp [lookup, empty] at h

/-- A value that no node stands for can be added. -/
theorem unique_push (hr : d.Reduced) (node : Node)
    (hnew : ∀ id, d.valueAt? id ≠ some node.value) {i j : NodeId} {value : NodeValue}
    (hi : (d.push node).valueAt? i = some value) (hj : (d.push node).valueAt? j = some value) :
    i = j := by
  rw [valueAt?_push] at hi hj
  split at hi
  · next hlast =>
    obtain rfl := Option.some.inj hi
    split at hj
    · next hlast' => rw [hlast, hlast']
    · exact absurd hj (hnew j)
  · split at hj
    · obtain rfl := Option.some.inj hj
      exact absurd hi (hnew i)
    · exact hr.unique hi hj

/-- A new node without names that is no value on entry can be added. -/
theorem push_reduced (hd : d.Coherent) (hr : d.Reduced) {value : NodeValue}
    {literal : Option String} (hnew : ∀ id, d.valueAt? id ≠ some value)
    (hoperator : ∀ op left right, value = .operator op left right →
      (left < d.nodes.length ∧ right < d.nodes.length) ∧ d.fold? op left right = none ∧ op ≠ "") :
    (d.push ⟨[], value, literal⟩).Reduced where
  unique hi hj := unique_push hr _ hnew hi hj
  not_folded {id op left right} h := by
    rw [valueAt?_push] at h
    split at h
    · obtain ⟨⟨hleft, hright⟩, hfold, -⟩ := hoperator op left right (Option.some.inj h)
      have hext := extends_push d ⟨[], value, literal⟩
      rw [fold?_congr (hext.valueAt?_eq hleft) (hext.valueAt?_eq hright), hfold]
    · exact hr.not_folded_of_extends hd (extends_push d _) h
  op_ne_empty {id op left right} h := by
    rw [valueAt?_push] at h
    split at h
    · exact (hoperator op left right (Option.some.inj h)).2.2
    · exact hr.op_ne_empty h
  names_nodup id := by
    rw [namesAt_push]
    split
    · exact List.nodup_nil
    · exact hr.names_nodup id
  name_ne_empty h := hr.name_ne_empty h

/-- A name can enter the block if it is not bound. -/
theorem enter_reduced (hd : d.Coherent) (hr : d.Reduced) {text : String} {names : List String}
    (hunbound : d.lookup text = none) (htext : text ≠ "") (hnames : names.Nodup) :
    (d.enter text names).Reduced where
  unique hi hj := unique_push hr ⟨names, .identifier text, none⟩
    (fun _ hid => hd.bound_of_entry hid hunbound) hi hj
  not_folded {id op left right} h := by
    rw [valueAt?_enter] at h
    split at h
    · cases h
    · exact hr.not_folded_of_extends hd (extends_enter names hunbound) h
  op_ne_empty {id op left right} h := by
    rw [valueAt?_enter] at h
    split at h
    · cases h
    · exact hr.op_ne_empty h
  names_nodup id := by
    rw [namesAt_enter]
    split
    · exact hnames
    · exact hr.names_nodup id
  name_ne_empty {name id} h := by
    rw [lookup_enter] at h
    split at h
    · next heq => rwa [heq]
    · exact hr.name_ne_empty h

/-! ### The parts of an instruction -/

/-- Finding or making the node of a value that is no value on entry keeps a graph reduced. -/
theorem intern_reduced (hd : d.Coherent) (hr : d.Reduced) {value : NodeValue}
    {literal : Option String} {id : NodeId}
    (hoperator : ∀ op left right, value = .operator op left right →
      (left < d.nodes.length ∧ right < d.nodes.length) ∧ d.fold? op left right = none ∧ op ≠ "")
    (h : d.intern value literal = (id, d')) : d'.Reduced := by
  obtain ⟨-, rfl⟩ | ⟨hnew, rfl, rfl⟩ := intern_cases h
  · exact hr
  · exact push_reduced hd hr hnew hoperator

theorem resolve_reduced (hd : d.Coherent) (hr : d.Reduced) {text : String} {names : List String}
    {id : NodeId} (htext : text ≠ "") (hnames : names.Nodup)
    (h : d.resolve text names = (id, d')) : d'.Reduced := by
  obtain ⟨-, rfl⟩ | ⟨v, -, -, hv⟩ | ⟨hunbound, -, rfl, rfl⟩ := resolve_cases h
  · exact hr
  · exact intern_reduced hd hr (by simp) hv
  · exact enter_reduced hd hr hunbound htext hnames

theorem combine_reduced (hd : d.Coherent) (hr : d.Reduced) {op : String} {left right id : NodeId}
    (hleft : left < d.nodes.length) (hright : right < d.nodes.length) (hop : op ≠ "")
    (h : d.combine op left right = .ok (id, d')) : d'.Reduced := by
  rcases combine_cases h with ⟨-, -, -, v, -, -, -, -, hintern⟩ | ⟨hfold, hintern⟩
  · exact intern_reduced hd hr (by simp) hintern
  · refine intern_reduced hd hr ?_ hintern
    rintro op' left' right' heq
    obtain ⟨rfl, rfl, rfl⟩ := NodeValue.operator.inj heq
    exact ⟨⟨hleft, hright⟩, hfold, hop⟩

/-- Giving a node to a name keeps a graph reduced: the name leaves the node that had it. -/
theorem assign_reduced (hd : d.Coherent) (hr : d.Reduced) {name : String} (hname : name ≠ "")
    (id : NodeId) : (d.assign name id).Reduced where
  unique {i j value} hi hj := by
    rw [valueAt?_assign] at hi hj
    exact hr.unique hi hj
  not_folded {j op left right} h := by
    rw [valueAt?_assign] at h
    rw [fold?_congr (valueAt?_assign d name id left) (valueAt?_assign d name id right),
      hr.not_folded h]
  op_ne_empty {j op left right} h := by
    rw [valueAt?_assign] at h
    exact hr.op_ne_empty h
  names_nodup j := by
    by_cases hlt : j < d.nodes.length
    · rw [hd.namesAt_assign hlt]
      split
      · exact List.nodup_append.2 ⟨(hr.names_nodup j).filter _, by simp, by simp⟩
      · rw [List.append_nil]
        exact (hr.names_nodup j).filter _
    · have hnone : (d.assign name id).namesAt j = [] := by
        refine List.eq_nil_iff_forall_not_mem.2 fun other hother => hlt ?_
        have hlt' := lt_length_of_mem_namesAt hother
        rwa [length_assign] at hlt'
      rw [hnone]
      exact List.nodup_nil
  name_ne_empty {other j} h := by
    rw [lookup_assign] at h
    split at h
    · next heq => rwa [heq]
    · exact hr.name_ne_empty h

/-! ### Instructions and blocks -/

theorem add_reduced {index : Nat} {q : Quadruple} (hd : d.Coherent) (hlisted : d.Listed)
    (hr : d.Reduced) (h : d.add index q = .ok d') : d'.Reduced := by
  obtain ⟨hop, hfirst, hresult, -, hoperands⟩ :=
    Quadruple.malformed?_eq_none_iff.1 (malformed?_of_add h)
  obtain ⟨-, ⟨-, -, id, d₁, hsource, rfl⟩ |
    ⟨hcopy, hsecond, left, d₁, right, d₂, id, d₃, hleft, hright, hcombine, rfl⟩⟩ := add_cases h
  · obtain ⟨hd₁, -⟩ := resolve_coherent hd hlisted (by simp) hsource
    exact assign_reduced hd₁ (resolve_reduced hd hr hfirst List.nodup_nil hsource) hresult id
  · obtain ⟨hd₁, hlisted₁, -, hlt⟩ := resolve_coherent hd hlisted (by simp) hleft
    obtain ⟨hd₂, hlisted₂, hext, hlt₂⟩ := resolve_coherent hd₁ hlisted₁ (by simp) hright
    have hr₁ := resolve_reduced hd hr hfirst (by simp) hleft
    have hr₂ := resolve_reduced hd₁ hr₁ hsecond (by simp) hright
    have hlt₁ := Nat.lt_of_lt_of_le hlt hext.length_le
    obtain ⟨hd₃, -⟩ := combine_coherent hd₂ hlisted₂ hlt₁ hlt₂ hcopy hcombine
    exact assign_reduced hd₃ (combine_reduced hd₂ hr₂ hlt₁ hlt₂ hop hcombine) hresult id

theorem addAll_reduced {index : Nat} {quads : List Quadruple} (hd : d.Coherent)
    (hlisted : d.Listed) (hr : d.Reduced) (h : d.addAll index quads = .ok d') : d'.Reduced := by
  induction quads generalizing d index with
  | nil =>
    obtain rfl := Except.ok.inj h
    exact hr
  | cons q quads ih =>
    obtain ⟨d₁, hadd, h⟩ := addAll_cons_eq_ok_iff.1 h
    obtain ⟨hd₁, hlisted₁, -⟩ := add_coherent hd hlisted hadd
    exact ih hd₁ hlisted₁ (add_reduced hd hlisted hr hadd) h

/-- The graph of a block says nothing twice. -/
theorem build_reduced {quads : List Quadruple} (h : build quads = .ok d) : d.Reduced :=
  addAll_reduced empty_coherent empty_listed empty_reduced h

end Dag
end ArithFrontEnd
