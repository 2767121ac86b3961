import ArithFrontEnd.Proofs.Optimizer.Sharing
import ArithFrontEnd.Proofs.Optimizer.Unfolding

/-!
# Symbolic values and their nodes

The graph of a block holds the symbolic values of names with their common parts shared.  Every node
unfolds to an expression, and different nodes unfold to different expressions, so that two names are
bound to the same node exactly if they stand for the same expression.  The names that are bound are
those of the block.

## Main definitions

* `Quadruple.HasName` — a name is written or read by an instruction.
* `Dag.Shares` — the graph holds the symbolic values after a block, each expression once.

## Main results

* `Unfolds.injective` — **different nodes unfold to different expressions.**
* `symbolic?_eq_some_iff` — what a node unfolds to is computed along the nodes.
* `build_shares` — **the graph of a block shares the symbolic values after the block.**
-/

namespace ArithFrontEnd

/-- The name is the result of an instruction, or an operand that is no numeral. -/
def Quadruple.HasName (q : Quadruple) (name : String) : Prop :=
  name = q.result ∨ (name = q.operand1 ∨ name = q.operand2 ∧ q.operand2 ≠ "") ∧
    Numeral.value? name = none

namespace Dag

variable {d d' : Dag} {s : SymbolicState} {quads : List Quadruple} {id i j : NodeId}

/-! ### The expressions of nodes -/

/-- Different nodes unfold to different expressions: the values that they stand for are different as
soon as their operands are. -/
theorem Unfolds.injective {e : SymbolicValue} (hr : d.Reduced) (hi : d.Unfolds i e)
    (hj : d.Unfolds j e) : i = j := by
  induction hi generalizing j with
  | constant hi => exact hr.unique hi (Unfolds.constant_iff.1 hj)
  | initial hi =>
    cases hj with
    | initial hj => exact hr.unique hi hj
  | operation hi ha hb iha ihb =>
    cases hj with
    | operation hj ha' hb' =>
      obtain rfl := iha ha'
      obtain rfl := ihb hb'
      exact hr.unique hi hj

/-- What a node unfolds to is known once this is known of the nodes before it. -/
theorem exists_symbolic? {value : NodeValue} {before : List SymbolicValue} (hd : d.Coherent)
    (hvalue : d.valueAt? id = some value) (hlength : before.length = id)
    (hbefore : ∀ i e, before[i]? = some e → d.Unfolds i e) :
    ∃ e, value.symbolic? before = some e ∧ d.Unfolds id e := by
  cases value with
  | constant v => exact ⟨_, rfl, .constant hvalue⟩
  | identifier name => exact ⟨_, rfl, .initial hvalue⟩
  | operator op left right =>
    obtain ⟨hleft, hright⟩ := hd.operands_lt hvalue
    have ha := List.getElem?_eq_getElem (hlength ▸ hleft : left < before.length)
    have hb := List.getElem?_eq_getElem (hlength ▸ hright : right < before.length)
    refine ⟨_, ?_, .operation hvalue (hbefore _ _ ha) (hbefore _ _ hb)⟩
    rw [NodeValue.symbolic?, ha, hb]

/-- The expressions of the nodes that are left can be found from those of the nodes before them. -/
theorem exists_symbolicNodes? {done nodes : List Node} {before : List SymbolicValue}
    (hd : d.Coherent) (hnodes : d.nodes = done ++ nodes) (hlength : before.length = done.length)
    (hbefore : ∀ i e, before[i]? = some e → d.Unfolds i e) :
    ∃ all, symbolicNodes? before nodes = some all ∧ all.length = d.nodes.length ∧
      ∀ i e, all[i]? = some e → d.Unfolds i e := by
  induction nodes generalizing done before with
  | nil => exact ⟨before, rfl, by simp [hnodes, hlength], hbefore⟩
  | cons node nodes ih =>
    have hvalue : d.valueAt? done.length = some node.value := by simp [valueAt?, node?, hnodes]
    obtain ⟨e, he, hunfolds⟩ := exists_symbolic? hd hvalue hlength hbefore
    rw [symbolicNodes?, he]
    have hrest : d.nodes = (done ++ [node]) ++ nodes := by simp [hnodes]
    refine ih hrest (by simp [hlength]) fun i e' hi => ?_
    -- the expression that has been found is that of the next node
    rcases Nat.lt_trichotomy i before.length with hlt | rfl | hgt
    · rw [List.getElem?_append_left hlt] at hi
      exact hbefore i e' hi
    · obtain rfl : e = e' := by simpa using hi
      exact hlength ▸ hunfolds
    · rw [List.getElem?_eq_none (by simpa using Nat.succ_le_of_lt hgt)] at hi
      contradiction

/-- The expressions of all nodes can be found. -/
theorem exists_symbolicValues? (hd : d.Coherent) :
    ∃ all, d.symbolicValues? = some all ∧ all.length = d.nodes.length ∧
      ∀ i e, all[i]? = some e → d.Unfolds i e :=
  exists_symbolicNodes? hd (List.nil_append d.nodes).symm List.length_nil (by simp)

/-- The expression that is found for a node is the one that it unfolds to. -/
theorem symbolic?_eq_some_iff {e : SymbolicValue} (hd : d.Coherent) :
    d.symbolic? id = some e ↔ d.Unfolds id e := by
  obtain ⟨all, hall, hlength, hunfolds⟩ := exists_symbolicValues? hd
  have hsymbolic : d.symbolic? id = all[id]? := by rw [symbolic?, hall, Option.bind_some]
  rw [hsymbolic]
  refine ⟨hunfolds id e, fun h => ?_⟩
  have hid := List.getElem?_eq_getElem (hlength ▸ h.lt_length : id < all.length)
  rw [hid, (hunfolds id _ hid).unique h]

/-- Every node unfolds to an expression. -/
theorem exists_unfolds (hd : d.Coherent) (hlt : id < d.nodes.length) : ∃ e, d.Unfolds id e := by
  obtain ⟨all, -, hlength, hunfolds⟩ := exists_symbolicValues? hd
  exact ⟨_, hunfolds id _ (List.getElem?_eq_getElem (hlength ▸ hlt))⟩

/-! ### The names that are bound -/

theorem bound_of_intern {value : NodeValue} {literal : Option String} {name : String}
    (h : d.intern value literal = (id, d')) (hbound : d'.Bound name) : d.Bound name := by
  obtain ⟨-, rfl⟩ | ⟨-, rfl, rfl⟩ := intern_cases h
  · exact hbound
  · exact hbound

/-- An operand is the only name that can be bound when it is resolved, and only if it is no
numeral. -/
theorem bound_of_resolve {text name : String} {names : List String}
    (h : d.resolve text names = (id, d')) (hbound : d'.Bound name) :
    d.Bound name ∨ name = text ∧ Numeral.value? name = none := by
  obtain ⟨-, rfl⟩ | ⟨v, -, -, heq⟩ | ⟨-, hvalue, rfl, rfl⟩ := resolve_cases h
  · exact Or.inl hbound
  · exact Or.inl (bound_of_intern heq hbound)
  · by_cases hname : name = text
    · exact Or.inr ⟨hname, hname ▸ hvalue⟩
    · rw [Bound, lookup_enter, if_neg hname] at hbound
      exact Or.inl hbound

theorem bound_of_combine {op name : String} {left right : NodeId}
    (h : d.combine op left right = .ok (id, d')) (hbound : d'.Bound name) : d.Bound name := by
  rcases combine_cases h with ⟨-, -, -, v, -, -, -, -, hintern⟩ | ⟨-, hintern⟩
  · exact bound_of_intern hintern hbound
  · exact bound_of_intern hintern hbound

theorem bound_of_assign {name other : String} (hbound : (d.assign other id).Bound name) :
    d.Bound name ∨ name = other := by
  rw [Bound, lookup_assign] at hbound
  split at hbound
  · next heq => exact Or.inr heq
  · exact Or.inl hbound

/-- An instruction binds no names but its own. -/
theorem bound_of_add {index : Nat} {q : Quadruple} {name : String} (h : d.add index q = .ok d')
    (hbound : d'.Bound name) : d.Bound name ∨ q.HasName name := by
  obtain ⟨-, ⟨-, -, id, d₁, hsource, rfl⟩ |
    ⟨-, hsecond, left, d₁, right, d₂, id, d₃, hleft, hright, hcombine, rfl⟩⟩ := add_cases h
  · rcases bound_of_assign hbound with hbound | hresult
    · refine (bound_of_resolve hsource hbound).imp_right fun ⟨hname, hvalue⟩ => ?_
      exact Or.inr ⟨Or.inl hname, hvalue⟩
    · exact Or.inr (Or.inl hresult)
  · rcases bound_of_assign hbound with hbound | hresult
    · rcases bound_of_resolve hright (bound_of_combine hcombine hbound) with
        hbound | ⟨hname, hvalue⟩
      · refine (bound_of_resolve hleft hbound).imp_right fun ⟨hname, hvalue⟩ => ?_
        exact Or.inr ⟨Or.inl hname, hvalue⟩
      · exact Or.inr (Or.inr ⟨Or.inr ⟨hname, hsecond⟩, hvalue⟩)
    · exact Or.inr (Or.inl hresult)

theorem bound_of_addAll {index : Nat} {name : String} (h : d.addAll index quads = .ok d')
    (hbound : d'.Bound name) : d.Bound name ∨ ∃ q ∈ quads, q.HasName name := by
  induction quads generalizing d index with
  | nil =>
    obtain rfl := Except.ok.inj h
    exact Or.inl hbound
  | cons q quads ih =>
    obtain ⟨d₁, hadd, h⟩ := addAll_cons_eq_ok_iff.1 h
    rcases ih h with hold | ⟨q', hq', hname⟩
    · refine (bound_of_add hadd hold).imp_right fun hname => ?_
      exact ⟨q, List.mem_cons_self, hname⟩
    · exact Or.inr ⟨q', List.mem_cons_of_mem q hq', hname⟩

/-- The instructions of a block that has a graph are well formed. -/
theorem malformed?_of_addAll {index : Nat} (h : d.addAll index quads = .ok d') :
    ∀ q ∈ quads, q.malformed? = none := by
  induction quads generalizing d index with
  | nil => simp
  | cons q quads ih =>
    obtain ⟨d₁, hadd, h⟩ := addAll_cons_eq_ok_iff.1 h
    exact List.forall_mem_cons.2 ⟨malformed?_of_add hadd, ih h⟩

/-- The names of a block are bound in its graph, and no others. -/
theorem bound_iff (h : build quads = .ok d) (name : String) :
    d.Bound name ↔ ∃ q ∈ quads, q.HasName name := by
  constructor
  · intro hbound
    refine (bound_of_addAll h hbound).resolve_left fun hempty => hempty ?_
    simp [lookup, empty]
  · rintro ⟨q, hq, hname⟩
    obtain ⟨-, -, hoccurs⟩ := build_coherent h
    obtain ⟨-, hfirst, hresult, hnumeral, -⟩ :=
      Quadruple.malformed?_eq_none_iff.1 (malformed?_of_addAll h q hq)
    rcases hname with rfl | ⟨rfl | ⟨rfl, hsecond⟩, hvalue⟩
    · exact hoccurs _ ⟨q, hq, by simp⟩ hresult hnumeral
    · exact hoccurs _ ⟨q, hq, by simp⟩ hfirst hvalue
    · exact hoccurs _ ⟨q, hq, by simp⟩ hsecond hvalue

/-! ### The graph of a block -/

/-- The graph holds the symbolic values of names after a block, and every expression once. -/
structure Shares (d : Dag) (quads : List Quadruple) (s : SymbolicState) : Prop where
  /-- The names that are bound are those of the block. -/
  bound_iff (name : String) : (∃ id, d.lookup name = some id) ↔ ∃ q ∈ quads, q.HasName name
  /-- The node of a name unfolds to what the name stands for. -/
  symbolic?_of_lookup {name : String} {id : NodeId} (h : d.lookup name = some id) :
    d.symbolic? id = some (s name)
  /-- Every node unfolds to an expression. -/
  exists_symbolic? {id : NodeId} (h : id < d.nodes.length) : ∃ e, d.symbolic? id = some e
  /-- Different nodes unfold to different expressions. -/
  symbolic?_inj {i j : NodeId} {e : SymbolicValue} (hi : d.symbolic? i = some e)
    (hj : d.symbolic? j = some e) : i = j
  /-- Names are bound to the same node exactly if they stand for the same expression. -/
  lookup_eq_iff {name other : String} {id : NodeId} (h : d.lookup name = some id) :
    d.lookup name = d.lookup other ↔ s name = s other

/-- A name that is bound stands for the same expression as another one exactly if both are bound to
the same node. -/
theorem Expresses.lookup_eq_iff (h : d.Expresses s) (hd : d.Coherent) (hr : d.Reduced)
    {name other : String} (hname : d.lookup name = some id) :
    d.lookup name = d.lookup other ↔ s name = s other := by
  have hid := h.bound hname
  constructor
  · intro heq
    exact hid.unique (h.bound (heq.symm.trans hname))
  · intro heq
    cases hother : d.lookup other with
    | some j =>
      rw [heq] at hid
      rw [hname, hid.injective hr (h.bound hother)]
    | none =>
      -- an expression in which `other` is read would have it bound
      rw [heq, h.unbound hother] at hid
      cases hid with
      | initial hvalue => exact absurd hother (hd.bound_of_entry hvalue)

/-- The graph of a block shares the symbolic values after the block, and every beginning of the
block has a graph. -/
theorem build_shares (h : build quads = .ok d) :
    (∃ s, symbolicRun .initial quads = .ok s ∧ d.Shares quads s) ∧
      ∀ qs, qs <+: quads → ∃ d, build qs = .ok d := by
  obtain ⟨hd, -, -⟩ := build_coherent h
  have hr := build_reduced h
  obtain ⟨s, hs, hexpresses⟩ := build_expresses h
  refine ⟨⟨s, hs, ?_⟩, fun qs => exists_build_of_prefix h⟩
  exact {
    bound_iff := fun name => Option.ne_none_iff_exists'.symm.trans (bound_iff h name)
    symbolic?_of_lookup := fun hname => (symbolic?_eq_some_iff hd).2 (hexpresses.bound hname)
    exists_symbolic? := fun hlt =>
      (exists_unfolds hd hlt).imp fun _ => (symbolic?_eq_some_iff hd).2
    symbolic?_inj := fun hi hj =>
      ((symbolic?_eq_some_iff hd).1 hi).injective hr ((symbolic?_eq_some_iff hd).1 hj)
    lookup_eq_iff := fun hname => hexpresses.lookup_eq_iff hd hr hname }

/-- A block in which `a + b` is computed again after `a` has got another value, from a copy of the
old one. -/
def againFromCopy : List Quadruple :=
  [⟨"+", "a", "b", "x"⟩, .copy "a" "t", .copy "x" "a", ⟨"+", "t", "b", "y"⟩, ⟨"+", "a", "2", "z"⟩]

/-- The same expression is found again under another name of its operand, and it is the operand of
what is computed from the new value of `a`. -/
theorem build_shares_againFromCopy :
    ∃ d s, build againFromCopy = .ok d ∧ symbolicRun .initial againFromCopy = .ok s ∧
      d.Shares againFromCopy s ∧ d.lookup "x" = d.lookup "y" ∧
      s "z" = .operation "+" (.operation "+" (.initial "a") (.initial "b")) (.constant 2) := by
  obtain ⟨d, hd⟩ : ∃ d, build againFromCopy = .ok d := ⟨_, rfl⟩
  obtain ⟨⟨s, hs, hshares⟩, -⟩ := build_shares hd
  obtain ⟨s', hs', hx, hz⟩ : ∃ s', symbolicRun .initial againFromCopy = .ok s' ∧ s' "x" = s' "y" ∧
      s' "z" = .operation "+" (.operation "+" (.initial "a") (.initial "b")) (.constant 2) :=
    ⟨_, rfl, rfl, rfl⟩
  obtain rfl := Except.ok.inj (hs'.symm.trans hs)
  obtain ⟨id, hid⟩ := (hshares.bound_iff "x").2 ⟨_, List.mem_cons_self, Or.inl rfl⟩
  exact ⟨d, s', hd, hs, hshares, (hshares.lookup_eq_iff hid).2 hx, hz⟩

end Dag
end ArithFrontEnd
