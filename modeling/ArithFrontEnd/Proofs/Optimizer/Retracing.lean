import ArithFrontEnd.Proofs.Optimizer.Emission
import ArithFrontEnd.Proofs.Optimizer.Sharing

/-!
# The graph of an optimized block

When the block that has been written for a graph is made into a graph again, the new graph retraces
the old one: each of its nodes stands for what one node of the old graph stands for, and a name that
has been written is bound to the node that it belongs to.  Nothing is folded and nothing is found
wrong on the way, so that an optimized block always has a graph.

## Main definitions

* `Matches` — two values are the same, given which nodes stand for the same.
* `Dag.Mirrors` — the nodes of one graph stand for nodes of another.
* `Dag.Retraces` — one graph is that of a block that has written some names of the other.

## Main results

* `Retraces.resolve`, `Retraces.combine`, `Retraces.assign` — the parts of an instruction.
* `Retraces.writes` — instructions that give names the values of nodes retrace the graph.
* `build_linearize` — **the block of a graph has a graph, which retraces the first.**
-/

namespace ArithFrontEnd

/-- What stands in two nodes is the same.  The operands of the first node are compared through a
list of the nodes that the nodes of its graph stand for. -/
inductive Matches (ids : List NodeId) : NodeValue → NodeValue → Prop
  | constant (v : Value) : Matches ids (.constant v) (.constant v)
  | identifier (name : String) : Matches ids (.identifier name) (.identifier name)
  | operator {op : String} {l r left right : NodeId} (hleft : ids[l]? = some left)
      (hright : ids[r]? = some right) : Matches ids (.operator op l r) (.operator op left right)

namespace Matches

variable {ids more : List NodeId} {value value' other : NodeValue}

theorem getElem?_mono {j id : NodeId} (hpre : ids <+: more) (h : ids[j]? = some id) :
    more[j]? = some id := by
  obtain ⟨last, rfl⟩ := hpre
  rw [List.getElem?_append_left (List.getElem?_eq_some_iff.1 h).1, h]

theorem mono (h : Matches ids value value') (hpre : ids <+: more) : Matches more value value' := by
  cases h with
  | constant v => exact .constant v
  | identifier name => exact .identifier name
  | operator hleft hright =>
    exact .operator (getElem?_mono hpre hleft) (getElem?_mono hpre hright)

theorem right_unique (h : Matches ids value value') (h' : Matches ids value other) :
    value' = other := by
  cases h with
  | constant v => cases h'; rfl
  | identifier name => cases h'; rfl
  | operator hleft hright =>
    cases h' with
    | operator hleft' hright' =>
      rw [Option.some.inj (hleft.symm.trans hleft'), Option.some.inj (hright.symm.trans hright')]

theorem getElem?_inj (hnodup : ids.Nodup) {i j id : NodeId} (hi : ids[i]? = some id)
    (hj : ids[j]? = some id) : i = j := by
  obtain ⟨hlt, heq⟩ := List.getElem?_eq_some_iff.1 hi
  obtain ⟨hlt', heq'⟩ := List.getElem?_eq_some_iff.1 hj
  exact hnodup.getElem_inj_iff.1 (heq.trans heq'.symm)

theorem left_unique (hnodup : ids.Nodup) (h : Matches ids value value')
    (h' : Matches ids other value') : value = other := by
  cases h with
  | constant v => cases h'; rfl
  | identifier name => cases h'; rfl
  | operator hleft hright =>
    cases h' with
    | operator hleft' hright' =>
      rw [getElem?_inj hnodup hleft hleft', getElem?_inj hnodup hright hright']

end Matches

namespace Dag

/-- The nodes of one graph stand for these nodes of another, one for one, and constants are written
as the block of the other graph reads them.  Values on entry are such as that block reads. -/
structure Mirrors (d g : Dag) (ids : List NodeId) : Prop where
  /-- Every node stands for one. -/
  length_eq : ids.length = g.nodes.length
  /-- Different nodes stand for different ones. -/
  nodup : ids.Nodup
  /-- A node stands for what the other one stands for. -/
  value {j id : NodeId} {value : NodeValue} (hj : ids[j]? = some id)
    (h : g.valueAt? j = some value) :
    ∃ value', d.valueAt? id = some value' ∧ Matches ids value value'
  /-- A constant is written as the block reads it. -/
  literal {j id : NodeId} {v : Value} (hj : ids[j]? = some id)
    (h : g.valueAt? j = some (.constant v)) : g.literalAt? j = some (d.nameOf d.needed id)
  /-- A value on entry is that of its name to the end, or kept under another name. -/
  entry {j id : NodeId} {name : String} (hj : ids[j]? = some id)
    (h : g.valueAt? j = some (.identifier name)) :
    d.lookup name = some id ∨ ∃ kept, d.surrogate? d.needed id = some kept

/-- The graph is that of a block that has written these names of the other one. -/
structure Retraces (d g : Dag) (ids : List NodeId) (done : List String) : Prop
    extends Mirrors d g ids where
  /-- A name that has been written is bound to the node that it belongs to. -/
  written {name : String} (h : name ∈ done) :
    ∃ j id, g.lookup name = some j ∧ ids[j]? = some id ∧ d.Owns name id
  /-- Any other name that is bound stands for its value on entry. -/
  unwritten {name : String} {j : NodeId} (hnot : name ∉ done) (h : g.lookup name = some j) :
    g.valueAt? j = some (.identifier name)

/-- The nodes that have been met when this one is met. -/
def meet (ids : List NodeId) (id : NodeId) : List NodeId := if id ∈ ids then ids else ids ++ [id]

theorem prefix_meet (ids : List NodeId) (id : NodeId) : ids <+: meet ids id := by
  unfold meet
  split
  · exact List.prefix_rfl
  · exact List.prefix_append ids [id]

variable {d g g' : Dag} {ids : List NodeId} {done : List String} {id : NodeId}

namespace Mirrors

theorem exists_getElem? (h : Mirrors d g ids) {j : NodeId} {value : NodeValue}
    (hj : g.valueAt? j = some value) : ∃ id, ids[j]? = some id := by
  have hlt := lt_length_of_valueAt? hj
  rw [← h.length_eq] at hlt
  exact ⟨ids[j], List.getElem?_eq_getElem hlt⟩

theorem exists_valueAt? (h : Mirrors d g ids) {j : NodeId} (hj : ids[j]? = some id) :
    ∃ value, g.valueAt? j = some value := by
  have hlt := (List.getElem?_eq_some_iff.1 hj).1
  rw [h.length_eq] at hlt
  exact Dag.exists_valueAt? hlt

/-- A node that stands for what another one stands for stands for that one. -/
theorem getElem?_of_matches (hr : d.Reduced) (h : Mirrors d g ids) {value value' : NodeValue}
    {j : NodeId} (hid : d.valueAt? id = some value') (hmatch : Matches ids value value')
    (hj : g.valueAt? j = some value) : ids[j]? = some id := by
  obtain ⟨i, hi⟩ := h.exists_getElem? hj
  obtain ⟨other, hother, hmatch'⟩ := h.value hi hj
  rw [hi, hr.unique hid (hmatch.right_unique hmatch' ▸ hother)]

/-- A node that nothing stands for has not been met. -/
theorem not_mem_of_matches (h : Mirrors d g ids) {value value' : NodeValue}
    (hid : d.valueAt? id = some value') (hmatch : Matches ids value value')
    (hnew : ∀ j, g.valueAt? j ≠ some value) : id ∉ ids := by
  intro hmem
  obtain ⟨j, hj⟩ := List.getElem?_of_mem hmem
  obtain ⟨other, hother⟩ := h.exists_valueAt? hj
  obtain ⟨value'', hvalue'', hmatch'⟩ := h.value hj hother
  obtain rfl := Option.some.inj (hid.symm.trans hvalue'')
  exact hnew j (hmatch.left_unique h.nodup hmatch' ▸ hother)

/-- One more node can stand for a node that has not been met. -/
theorem push (h : Mirrors d g ids) {node : Node} {value : NodeValue} (hnew : id ∉ ids)
    (hvalue : d.valueAt? id = some value) (hmatch : Matches ids node.value value)
    (hliteral : ∀ v, node.value = .constant v → node.literal = some (d.nameOf d.needed id))
    (hentry : ∀ name, node.value = .identifier name →
      d.lookup name = some id ∨ ∃ kept, d.surrogate? d.needed id = some kept) :
    Mirrors d (g.push node) (ids ++ [id]) := by
  have hpre : ids <+: ids ++ [id] := List.prefix_append ids [id]
  have hcases : ∀ {j i : NodeId}, (ids ++ [id])[j]? = some i →
      (j = g.nodes.length ∧ i = id) ∨ (j ≠ g.nodes.length ∧ ids[j]? = some i) := by
    intro j i hj
    rw [← h.length_eq]
    rw [List.getElem?_append] at hj
    split at hj
    · next hlt => exact Or.inr ⟨Nat.ne_of_lt hlt, hj⟩
    · next hle =>
      obtain ⟨hzero, heq⟩ := List.getElem?_eq_some_iff.1 hj
      have hle' := Nat.sub_eq_zero_iff_le.1 (Nat.lt_one_iff.1 hzero)
      exact Or.inl ⟨Nat.le_antisymm hle' (Nat.le_of_not_lt hle), by simpa using heq.symm⟩
  refine ⟨by simp [h.length_eq], ?_, fun {j i w} hj hw => ?_, fun {j i v} hj hv => ?_,
    fun {j i name} hj hv => ?_⟩
  · refine List.nodup_append.2 ⟨h.nodup, by simp, ?_⟩
    rintro i hi _ hmem rfl
    exact hnew (List.mem_singleton.1 hmem ▸ hi)
  · rw [valueAt?_push] at hw
    rcases hcases hj with ⟨hlast, rfl⟩ | ⟨hne, hj'⟩
    · rw [if_pos hlast] at hw
      exact ⟨value, hvalue, Option.some.inj hw ▸ hmatch.mono hpre⟩
    · rw [if_neg hne] at hw
      obtain ⟨other, hother, hmatch'⟩ := h.value hj' hw
      exact ⟨other, hother, hmatch'.mono hpre⟩
  · rw [valueAt?_push] at hv
    rw [literalAt?_push]
    rcases hcases hj with ⟨hlast, rfl⟩ | ⟨hne, hj'⟩
    · rw [if_pos hlast] at hv ⊢
      exact hliteral v (Option.some.inj hv)
    · rw [if_neg hne] at hv ⊢
      exact h.literal hj' hv
  · rw [valueAt?_push] at hv
    rcases hcases hj with ⟨hlast, rfl⟩ | ⟨hne, hj'⟩
    · rw [if_pos hlast] at hv
      exact hentry name (Option.some.inj hv)
    · rw [if_neg hne] at hv
      exact h.entry hj' hv

end Mirrors

namespace Retraces

theorem empty (d : Dag) : Retraces d .empty [] [] where
  length_eq := rfl
  nodup := List.nodup_nil
  value hj := by simp at hj
  literal hj := by simp at hj
  entry hj := by simp at hj
  written h := by cases h
  unwritten _ h := by simp [lookup, Dag.empty] at h

/-! ### The parts of an instruction -/

/-- Finding or making the node of a value leads to a node that stands for the node of the value. -/
theorem intern (hr : d.Reduced) (h : Retraces d g ids done) (hg : g.Coherent)
    {value value' : NodeValue} (literal : Option String) (hid : d.valueAt? id = some value')
    (hmatch : Matches ids value value') (hentry : ∀ name, value ≠ .identifier name)
    (hliteral : ∀ v, value = .constant v → literal = some (d.nameOf d.needed id)) :
    ∃ j g', g.intern value literal = (j, g') ∧ Retraces d g' (meet ids id) done ∧
      (meet ids id)[j]? = some id := by
  obtain ⟨j, g', heq⟩ : ∃ j g', g.intern value literal = (j, g') := ⟨_, _, rfl⟩
  refine ⟨j, g', heq, ?_⟩
  obtain ⟨hj, rfl⟩ | ⟨hnew, rfl, rfl⟩ := intern_cases heq
  · have hmet := h.getElem?_of_matches hr hid hmatch hj
    rw [meet, if_pos (List.mem_of_getElem? hmet)]
    exact ⟨h, hmet⟩
  · have hnot := h.not_mem_of_matches hid hmatch hnew
    rw [meet, if_neg hnot]
    refine ⟨⟨h.push hnot hid hmatch hliteral fun name hname =>
      absurd hname (hentry name), fun {name} hmem => ?_, fun {name j} hunwritten hj => ?_⟩, ?_⟩
    · obtain ⟨j, i, hj, hi, howns⟩ := h.written hmem
      exact ⟨j, i, hj, Matches.getElem?_mono (List.prefix_append ids [id]) hi, howns⟩
    · rw [valueAt?_push, if_neg (Nat.ne_of_lt (hg.lookup_lt hj)), h.unwritten hunwritten hj]
    · simp [← h.length_eq]

/-- A name that has not been written is read as its value on entry. -/
theorem resolve_entry (hd : d.Coherent) (hr : d.Reduced) (h : Retraces d g ids done)
    (hg : g.Coherent) {text : String} (names : List String)
    (hid : d.valueAt? id = some (.identifier text))
    (hentry : d.lookup text = some id ∨ ∃ kept, d.surrogate? d.needed id = some kept)
    (hnot : text ∉ done) :
    ∃ j g', g.resolve text names = (j, g') ∧ Retraces d g' (meet ids id) done ∧
      (meet ids id)[j]? = some id := by
  have hmatch : Matches ids (.identifier text) (.identifier text) := .identifier text
  obtain ⟨j, g', heq⟩ : ∃ j g', g.resolve text names = (j, g') := ⟨_, _, rfl⟩
  refine ⟨j, g', heq, ?_⟩
  obtain ⟨hj, rfl⟩ | ⟨v, -, hv, -⟩ | ⟨hunbound, -, rfl, rfl⟩ := resolve_cases heq
  · have hmet := h.getElem?_of_matches hr hid hmatch (h.unwritten hnot hj)
    rw [meet, if_pos (List.mem_of_getElem? hmet)]
    exact ⟨h, hmet⟩
  · obtain ⟨j, hj⟩ := Option.ne_none_iff_exists'.1 (hd.bound_of_entry hid)
    rw [hd.not_numeral hj] at hv
    contradiction
  · have hnew := h.not_mem_of_matches hid hmatch fun j hj => hg.bound_of_entry hj hunbound
    rw [meet, if_neg hnew]
    have hmirrors : Mirrors d (g.push ⟨names, .identifier text, none⟩) (ids ++ [id]) := by
      refine h.push hnew hid hmatch (by simp) fun name hname => ?_
      rwa [← NodeValue.identifier.inj hname]
    refine ⟨⟨⟨hmirrors.1, hmirrors.2, hmirrors.3, hmirrors.4, hmirrors.5⟩,
      fun {name} hmem => ?_, fun {name j} hunwritten hj => ?_⟩, ?_⟩
    · obtain ⟨j, i, hj, hi, howns⟩ := h.written hmem
      refine ⟨j, i, ?_, Matches.getElem?_mono (List.prefix_append ids [id]) hi, howns⟩
      rw [lookup_enter, if_neg (ne_of_lookup hj hunbound), hj]
    · rw [lookup_enter] at hj
      rw [valueAt?_enter]
      split at hj
      · next hname => rw [if_pos (Option.some.inj hj).symm, hname]
      · rw [if_neg (Nat.ne_of_lt (hg.lookup_lt hj)), h.unwritten hunwritten hj]
    · simp [← h.length_eq]

/-- A name that has been written leads to the node that it belongs to. -/
theorem resolve_written (h : Retraces d g ids done) {text : String} (names : List String)
    (howns : d.Owns text id) (hmem : text ∈ done) :
    ∃ j g', g.resolve text names = (j, g') ∧ Retraces d g' (meet ids id) done ∧
      (meet ids id)[j]? = some id := by
  obtain ⟨j, i, hj, hi, howns'⟩ := h.written hmem
  obtain rfl := howns'.unique howns
  refine ⟨j, g, by rw [resolve, hj], ?_⟩
  rw [meet, if_pos (List.mem_of_getElem? hi)]
  exact ⟨h, hi⟩

/-- How the value of a node is read leads to a node that stands for it. -/
theorem resolve (hd : d.Coherent) (hr : d.Reduced) (h : Retraces d g ids done) (hg : g.Coherent)
    {text : String} (names : List String) (hreads : d.Reads done text id) :
    ∃ j g', g.resolve text names = (j, g') ∧ Retraces d g' (meet ids id) done ∧
      (meet ids id)[j]? = some id := by
  cases hreads with
  | @numeral v hid htext =>
    have hvalue : Numeral.value? text = some v := htext ▸ value?_nameOf_constant hd hid d.needed
    have hunbound : g.lookup text = none := by
      by_contra hne
      obtain ⟨j, hj⟩ := Option.ne_none_iff_exists'.1 hne
      rw [hg.not_numeral hj] at hvalue
      contradiction
    obtain ⟨j, g', heq, h', hj⟩ := h.intern hr hg (some text) hid (.constant v) (by simp)
      fun _ _ => by rw [htext]
    exact ⟨j, g', by rw [Dag.resolve, hunbound, hvalue]; exact heq, h', hj⟩
  | written howns hmem => exact h.resolve_written names howns hmem
  | entry hid hlookup =>
    by_cases hmem : text ∈ done
    · exact h.resolve_written names (Or.inl hlookup) hmem
    · exact h.resolve_entry hd hr hg names hid (Or.inl hlookup) hmem

/-- An operator leads to a node that stands for the node of the operator: what has not been folded
is not folded now. -/
theorem combine (hr : d.Reduced) (h : Retraces d g ids done) (hg : g.Coherent) {op : String}
    {l r left right : NodeId} (hid : d.valueAt? id = some (.operator op left right))
    (hleft : ids[l]? = some left) (hright : ids[r]? = some right) :
    ∃ j g', g.combine op l r = .ok (j, g') ∧ Retraces d g' (meet ids id) done ∧
      (meet ids id)[j]? = some id := by
  have hconstant : ∀ {j i : NodeId} {v : Value}, ids[j]? = some i →
      g.valueAt? j = some (.constant v) → d.valueAt? i = some (.constant v) := by
    intro j i v hj hv
    obtain ⟨value, hvalue, hmatch⟩ := h.value hj hv
    cases hmatch
    exact hvalue
  have hfold : g.fold? op l r = none := by
    by_contra hne
    obtain ⟨⟨o, a, b⟩, hfold⟩ := Option.ne_none_iff_exists'.1 hne
    obtain ⟨ho, ha, hb⟩ := fold?_eq_some_iff.1 hfold
    have hfold' := fold?_eq_some_iff.2 ⟨ho, hconstant hleft ha, hconstant hright hb⟩
    rw [hr.not_folded hid] at hfold'
    contradiction
  obtain ⟨j, g', heq, h', hj⟩ := h.intern hr hg none hid (.operator hleft hright)
    (by simp) (by simp)
  exact ⟨j, g', by rw [Dag.combine, hfold, heq], h', hj⟩

/-- Giving a node to a name that belongs to what it stands for writes the name. -/
theorem assign (h : Retraces d g ids done) {name : String} {j : NodeId} (hj : ids[j]? = some id)
    (howns : d.Owns name id) : Retraces d (g.assign name j) ids (done ++ [name]) where
  length_eq := by rw [length_assign, h.length_eq]
  nodup := h.nodup
  value hi hvalue := h.value hi (by rwa [valueAt?_assign] at hvalue)
  literal hi hvalue := by
    rw [valueAt?_assign] at hvalue
    rw [literalAt?_assign, h.literal hi hvalue]
  entry hi hvalue := h.entry hi (by rwa [valueAt?_assign] at hvalue)
  written {other} hmem := by
    rw [lookup_assign]
    by_cases heq : other = name
    · exact ⟨j, id, if_pos heq, hj, heq ▸ howns⟩
    · rw [if_neg heq]
      exact h.written ((List.mem_append.1 hmem).resolve_right (by simpa using heq))
  unwritten {other i} hnot hi := by
    have hnot' : other ∉ done ∧ other ≠ name := by simpa using hnot
    rw [lookup_assign, if_neg hnot'.2] at hi
    rw [valueAt?_assign, h.unwritten hnot'.1 hi]

end Retraces

/-! ### Instructions and blocks -/

theorem Owns.ne_empty {name : String} (hr : d.Reduced) (h : d.Owns name id) : name ≠ "" := by
  rcases h with hlookup | rfl
  · exact hr.name_ne_empty hlookup
  · obtain ⟨marks, hmarks⟩ := d.freshName_eq_marked id
    intro hempty
    have hlist := congrArg String.toList (hmarks.symm.trans hempty)
    simp [toList_marked, toList_nodeText] at hlist

theorem Reads.ne_empty {text : String} (hd : d.Coherent) (hr : d.Reduced)
    (h : d.Reads done text id) : text ≠ "" := by
  cases h with
  | @numeral v hid htext =>
    have hvalue : Numeral.value? text = some v := htext ▸ value?_nameOf_constant hd hid d.needed
    have hnone : Numeral.value? "" = none := by decide
    rintro rfl
    rw [hnone] at hvalue
    contradiction
  | written howns hmem => exact howns.ne_empty hr
  | entry hid hlookup => exact hr.name_ne_empty hlookup

namespace Retraces

/-- A copy from where the value of a node is found to a name of the node. -/
theorem copy (hd : d.Coherent) (hr : d.Reduced) {text name : String} (index : Nat)
    (htext : text ≠ "") (howns : d.Owns name id)
    (hresolve : ∃ j g', g.resolve text [] = (j, g') ∧ Retraces d g' (meet ids id) done ∧
      (meet ids id)[j]? = some id) :
    ∃ g', g.add index (.copy text name) = .ok g' ∧
      Retraces d g' (meet ids id) (done ++ [name]) := by
  obtain ⟨j, g', heq, h', hj⟩ := hresolve
  refine ⟨g'.assign name j, ?_, h'.assign hj howns⟩
  have hop : Quadruple.copyOp ≠ "" := by decide
  have hmal : (Quadruple.copy text name).malformed? = none :=
    Quadruple.malformed?_eq_none_iff.2
      ⟨hop, htext, howns.ne_empty hr, howns.value?_eq_none hd, iff_of_true rfl rfl⟩
  exact add_copy index hmal rfl heq

/-- An instruction that gives the value of a node to a name of the node. -/
theorem computes (hd : d.Coherent) (hr : d.Reduced) (h : Retraces d g ids done) (hg : g.Coherent)
    (hlisted : g.Listed) {q : Quadruple} (index : Nat) (hq : d.Computes done q id) :
    ∃ g' ids', g.add index q = .ok g' ∧ ids <+: ids' ∧
      Retraces d g' ids' (done ++ [q.result]) := by
  cases hq with
  | keep hid hkept hnot =>
    obtain ⟨j, hj⟩ := Option.ne_none_iff_exists'.1 (hd.bound_of_entry hid)
    obtain ⟨g', heq, h'⟩ := copy hd hr index (hr.name_ne_empty hj)
      (owns_of_surrogate? hd hid hkept) (h.resolve_entry hd hr hg [] hid (Or.inr ⟨_, hkept⟩) hnot)
    exact ⟨g', _, heq, prefix_meet ids id, h'⟩
  | copy htext howns =>
    obtain ⟨g', heq, h'⟩ := copy hd hr index (htext.ne_empty hd hr) howns
      (h.resolve hd hr hg [] htext)
    exact ⟨g', _, heq, prefix_meet ids id, h'⟩
  | @operator op left right name i j _ hid hleft hright howns =>
    obtain ⟨l, g₁, hl, h₁, hli⟩ := h.resolve hd hr hg [left] hleft
    obtain ⟨hg₁, hlisted₁, -⟩ := resolve_coherent hg hlisted (by simp) hl
    obtain ⟨r, g₂, hr', h₂, hrj⟩ := h₁.resolve hd hr hg₁ [right] hright
    obtain ⟨hg₂, -⟩ := resolve_coherent hg₁ hlisted₁ (by simp) hr'
    have hpre := prefix_meet (meet ids i) j
    obtain ⟨k, g₃, hk, h₃, hkid⟩ := h₂.combine hr hg₂ hid (Matches.getElem?_mono hpre hli) hrj
    refine ⟨g₃.assign name k, _, ?_, ?_, h₃.assign hkid howns⟩
    · have hsecond := hright.ne_empty hd hr
      have hmal : (⟨op, left, right, name⟩ : Quadruple).malformed? = none :=
        Quadruple.malformed?_eq_none_iff.2 ⟨hr.op_ne_empty hid, hleft.ne_empty hd hr,
          howns.ne_empty hr, howns.value?_eq_none hd, iff_of_false hsecond (hd.ne_copyOp hid)⟩
      exact add_operator index hmal hsecond hl hr' hk
    · exact (prefix_meet ids i).trans (hpre.trans (prefix_meet _ id))

/-- Instructions that give names the values of nodes. -/
theorem writes (hd : d.Coherent) (hr : d.Reduced) {qs : List Quadruple} {js : List NodeId}
    (hqs : d.Writes done qs js) (index : Nat) (h : Retraces d g ids done) (hg : g.Coherent)
    (hlisted : g.Listed) :
    ∃ g' ids', g.addAll index qs = .ok g' ∧ ids <+: ids' ∧
      Retraces d g' ids' (done ++ qs.map (·.result)) := by
  induction hqs generalizing g ids index with
  | nil done => exact ⟨g, ids, rfl, List.prefix_rfl, by simpa using h⟩
  | cons hq hqs ih =>
    obtain ⟨g₁, ids₁, hadd, hpre, h₁⟩ := h.computes hd hr hg hlisted index hq
    obtain ⟨hg₁, hlisted₁, -⟩ := add_coherent hg hlisted hadd
    obtain ⟨g', ids', hall, hpre', h'⟩ := ih (index + 1) h₁ hg₁ hlisted₁
    exact ⟨g', ids', addAll_cons_eq_ok_iff.2 ⟨g₁, hadd, hall⟩, hpre.trans hpre', by simpa using h'⟩

/-- The copies at the top meet the nodes whose values they keep, in order. -/
theorem snapshots (hd : d.Coherent) (hr : d.Reduced) {js : List NodeId} (hnodup : js.Nodup)
    (hids : ∀ j ∈ js, j ∉ ids) (hdone : ∀ name ∈ done, ∀ j, d.valueAt? j ≠ some (.identifier name))
    (index : Nat) (h : Retraces d g ids done) (hg : g.Coherent) (hlisted : g.Listed) :
    ∃ g', g.addAll index
        ((js.filterMap (d.snapshot? d.needed)).map fun (name, kept) => .copy name kept) = .ok g' ∧
      Retraces d g' (ids ++ js.filter fun j => (d.snapshot? d.needed j).isSome)
        (done ++ (js.filterMap (d.snapshot? d.needed)).map (·.2)) := by
  induction js generalizing g ids done index with
  | nil => exact ⟨g, rfl, by simpa using h⟩
  | cons j js ih =>
    obtain ⟨hj, hnodup'⟩ := List.nodup_cons.1 hnodup
    cases hsnapshot : d.snapshot? d.needed j with
    | none =>
      rw [List.filterMap_cons_none hsnapshot, List.filter_cons_of_neg (by simp [hsnapshot])]
      exact ih hnodup' (fun i hi => hids i (List.mem_cons_of_mem j hi)) hdone index h hg hlisted
    | some p =>
      obtain ⟨name, kept⟩ := p
      obtain ⟨hvalue, hkept⟩ := snapshot?_eq_some_iff.1 hsnapshot
      obtain ⟨i, hi⟩ := Option.ne_none_iff_exists'.1 (hd.bound_of_entry hvalue)
      obtain ⟨g₁, hadd, h₁⟩ := copy hd hr index (hr.name_ne_empty hi)
        (owns_of_surrogate? hd hvalue hkept) (h.resolve_entry hd hr hg [] hvalue
          (Or.inr ⟨kept, hkept⟩) fun hmem => hdone name hmem j hvalue)
      obtain ⟨hg₁, hlisted₁, -⟩ := add_coherent hg hlisted hadd
      rw [meet, if_neg (hids j (by simp))] at h₁
      have hids' : ∀ i ∈ js, i ∉ ids ++ [j] := by
        intro i hi hmem
        rcases List.mem_append.1 hmem with hold | hnew
        · exact hids i (List.mem_cons_of_mem j hi) hold
        · exact hj (List.mem_singleton.1 hnew ▸ hi)
      have hdone' : ∀ other ∈ done ++ [kept], ∀ i, d.valueAt? i ≠ some (.identifier other) := by
        intro other hother i hvalue'
        rcases List.mem_append.1 hother with hold | hnew
        · exact hdone other hold i hvalue'
        · exact ne_of_surrogate? hd hvalue hkept hvalue' (List.mem_singleton.1 hnew).symm
      obtain ⟨g', hall, h'⟩ := ih hnodup' hids' hdone' (index + 1) h₁ hg₁ hlisted₁
      refine ⟨g', ?_, ?_⟩
      · rw [List.filterMap_cons_some hsnapshot, List.map_cons]
        exact addAll_cons_eq_ok_iff.2 ⟨g₁, hadd, hall⟩
      · rw [List.filterMap_cons_some hsnapshot, List.filter_cons_of_pos (by simp [hsnapshot])]
        simpa using h'

end Retraces

/-- The block of a graph has a graph, which retraces the first.  The nodes that it meets first are
those whose values on entry are kept. -/
theorem build_linearize (hd : d.Coherent) (hlisted : d.Listed) (hr : d.Reduced) :
    ∃ g ids, build d.linearize = .ok g ∧ d.kept <+: ids ∧
      Retraces d g ids (d.linearize.map (·.result)) := by
  obtain ⟨g₁, hadd, h₁⟩ := (Retraces.empty d).snapshots hd hr List.nodup_range (by simp) (by simp)
    0 empty_coherent empty_listed
  obtain ⟨hg₁, hlisted₁, -⟩ := addAll_coherent empty_coherent empty_listed hadd
  have hwrites : d.Writes (d.snapshots.map (·.2)) (d.order.flatMap (d.instructions d.needed)) _ :=
    order_writes hd hlisted (List.nil_append _).symm (fun p hp => List.mem_map.2 ⟨p, hp, rfl⟩)
      fun id hid => by cases hid
  obtain ⟨g, ids, hall, hpre, h⟩ := Retraces.writes hd hr hwrites
    (0 + (d.snapshots.map fun (name, kept) => Quadruple.copy name kept).length) h₁ hg₁ hlisted₁
  refine ⟨g, ids, ?_, hpre, ?_⟩
  · rw [build, linearize, addAll_append, snapshots, hadd]
    exact hall
  · rw [results_linearize, ← List.map_flatMap]
    exact h

end Dag
end ArithFrontEnd
