import ArithFrontEnd.Proofs.Lists.FirstOccurrences
import ArithFrontEnd.Proofs.Optimizer.Coherence

/-!
# Blocks that assign every name once

In a block whose results are different names, a name keeps the node that it is given to.  So the
names of a node are the results that are bound to it, in the order in which they are written, and
the nodes are listed in the order of their first results.  Before its results a value on entry has
its own name if an operator was the first to read it, and the name has not been written.

## Main definitions

* `Dag.Own` — the name that a node has had from entry.
* `Dag.AssignsOnce` — what the graph of such a block looks like.

## Main results

* `assign_once`, `add_once` — what an instruction keeps.
* `build_once` — **the graph of a block that assigns every name once.**
-/

namespace ArithFrontEnd
namespace Dag

/-- These are the names that a node has had from entry: none, or the name whose value on entry it
is, which is not one of the results. -/
def Own (d : Dag) (done : List String) (id : NodeId) (own : List String) : Prop :=
  own = [] ∨ ∃ name, own = [name] ∧ name ∉ done ∧ d.valueAt? id = some (.identifier name)

/-- The graph of a block that has given these names their only values. -/
structure AssignsOnce (d : Dag) (done : List String) : Prop where
  /-- A result is bound. -/
  bound {name : String} (h : name ∈ done) : d.lookup name ≠ none
  /-- Any other name that is bound stands for its value on entry. -/
  entry {name : String} {id : NodeId} (hnot : name ∉ done) (h : d.lookup name = some id) :
    d.valueAt? id = some (.identifier name)
  /-- The names of a node are the results that are bound to it, after the one it has had from
  entry. -/
  names {id : NodeId} (h : id < d.nodes.length) :
    ∃ own, d.Own done id own ∧ d.namesAt id = own ++ done.filter (d.lookup · = some id)
  /-- The nodes are listed in the order of their first results. -/
  order : d.order = (done.filterMap d.lookup).eraseDups

variable {d d' : Dag} {done : List String}

theorem empty_once : empty.AssignsOnce [] where
  bound h := by cases h
  entry _ h := by simp [lookup, empty] at h
  names h := by simp [empty] at h
  order := rfl

/-- Nodes and names that are added change nothing, as long as a name that is new stands for its
value on entry. -/
theorem AssignsOnce.of_extends (h : d.AssignsOnce done) (hd : d.Coherent) (hext : Extends d d')
    (horder : d'.order = d.order)
    (hnames : ∀ id < d.nodes.length, d'.namesAt id = d.namesAt id)
    (hlookup : ∀ name id, d'.lookup name = some id →
      d.lookup name = some id ∨ d'.valueAt? id = some (.identifier name))
    (hown : ∀ id < d'.nodes.length, ¬ id < d.nodes.length → d'.Own done id (d'.namesAt id)) :
    d'.AssignsOnce done := by
  have hsame : ∀ name ∈ done, d'.lookup name = d.lookup name := by
    intro name hmem
    obtain ⟨id, hid⟩ := Option.ne_none_iff_exists'.1 (h.bound hmem)
    rw [hext.lookup_eq hid, hid]
  have hfilter : ∀ id, done.filter (d'.lookup · = some id) = done.filter (d.lookup · = some id) :=
    fun id => List.filter_congr fun name hmem => by rw [hsame name hmem]
  refine ⟨fun {name} hmem => ?_, fun {name id} hnot hid => ?_, fun {id} hlt => ?_, ?_⟩
  · rw [hsame name hmem]
    exact h.bound hmem
  · rcases hlookup name id hid with hold | hvalue
    · rw [hext.valueAt?_eq (hd.lookup_lt hold), h.entry hnot hold]
    · exact hvalue
  · rw [hfilter]
    by_cases hold : id < d.nodes.length
    · rw [hnames id hold]
      obtain ⟨own, hown, heq⟩ := h.names hold
      exact ⟨own, by rwa [Own, hext.valueAt?_eq hold], heq⟩
    · -- a node that is new holds no result
      refine ⟨d'.namesAt id, hown id hlt hold, ?_⟩
      have hnone : done.filter (d.lookup · = some id) = [] := by
        refine List.filter_eq_nil_iff.2 fun name _ hbound => hold ?_
        exact hd.lookup_lt (by simpa using hbound)
      rw [hnone, List.append_nil]
  · rw [horder, h.order]
    exact congrArg List.eraseDups (List.filterMap_congr hsame).symm

theorem push_once (hd : d.Coherent) (h : d.AssignsOnce done) (value : NodeValue)
    (literal : Option String) : (d.push ⟨[], value, literal⟩).AssignsOnce done := by
  refine h.of_extends hd (extends_push d _) rfl (fun id hlt => ?_) (fun name id hid => Or.inl hid)
    fun id hlt hnew => Or.inl ?_
  · rw [namesAt_push, if_neg (Nat.ne_of_lt hlt)]
  · rw [length_push] at hlt
    rw [namesAt_push, if_pos (Nat.le_antisymm (Nat.le_of_lt_succ hlt) (Nat.le_of_not_lt hnew))]

theorem enter_once (hd : d.Coherent) (h : d.AssignsOnce done) {text : String}
    {names : List String} (hunbound : d.lookup text = none) (hnames : names = [] ∨ names = [text]) :
    (d.enter text names).AssignsOnce done := by
  refine h.of_extends hd (extends_enter names hunbound) rfl (fun id hlt => ?_)
    (fun name id hid => ?_) fun id hlt hnew => ?_
  · rw [namesAt_enter, if_neg (Nat.ne_of_lt hlt)]
  · rw [lookup_enter] at hid
    split at hid
    · next heq =>
      refine Or.inr ?_
      rw [valueAt?_enter, if_pos (Option.some.inj hid).symm, heq]
    · exact Or.inl hid
  · rw [length_enter] at hlt
    have hlast := Nat.le_antisymm (Nat.le_of_lt_succ hlt) (Nat.le_of_not_lt hnew)
    rw [namesAt_enter, if_pos hlast]
    refine hnames.imp_right fun heq => ⟨text, heq, fun hmem => h.bound hmem hunbound, ?_⟩
    rw [valueAt?_enter, if_pos hlast]

/-! ### The parts of an instruction -/

theorem intern_once (hd : d.Coherent) (h : d.AssignsOnce done) {value : NodeValue}
    {literal : Option String} {id : NodeId} (hintern : d.intern value literal = (id, d')) :
    d'.AssignsOnce done := by
  obtain ⟨-, rfl⟩ | ⟨-, rfl, rfl⟩ := intern_cases hintern
  · exact h
  · exact push_once hd h value literal

theorem resolve_once (hd : d.Coherent) (h : d.AssignsOnce done) {text : String}
    {names : List String} {id : NodeId} (hnames : names = [] ∨ names = [text])
    (hresolve : d.resolve text names = (id, d')) : d'.AssignsOnce done := by
  obtain ⟨-, rfl⟩ | ⟨v, -, -, heq⟩ | ⟨hunbound, -, rfl, rfl⟩ := resolve_cases hresolve
  · exact h
  · exact intern_once hd h heq
  · exact enter_once hd h hunbound hnames

theorem combine_once (hd : d.Coherent) (h : d.AssignsOnce done) {op : String}
    {left right id : NodeId} (hcombine : d.combine op left right = .ok (id, d')) :
    d'.AssignsOnce done := by
  rcases combine_cases hcombine with ⟨-, -, -, v, -, -, -, -, hintern⟩ | ⟨-, hintern⟩
  · exact intern_once hd h hintern
  · exact intern_once hd h hintern

/-- A new result joins the names of its node, and its node the order. -/
theorem assign_once (hd : d.Coherent) (h : d.AssignsOnce done) {name : String} {id : NodeId}
    (hnew : name ∉ done) : (d.assign name id).AssignsOnce (done ++ [name]) := by
  have hne : ∀ other ∈ done, other ≠ name := fun other hother heq => hnew (heq ▸ hother)
  have hsame : ∀ other ∈ done, (d.assign name id).lookup other = d.lookup other :=
    fun other hother => by rw [lookup_assign, if_neg (hne other hother)]
  refine ⟨fun {other} hmem => ?_, fun {other j} hnot hj => ?_, fun {j} hj => ?_, ?_⟩
  · rw [lookup_assign]
    split
    · simp
    · next hother => exact h.bound ((List.mem_append.1 hmem).resolve_right (by simpa using hother))
  · have hnot' : other ∉ done ∧ other ≠ name := by simpa using hnot
    rw [lookup_assign, if_neg hnot'.2] at hj
    rw [valueAt?_assign, h.entry hnot'.1 hj]
  · rw [length_assign] at hj
    obtain ⟨own, hown, hnames⟩ := h.names hj
    -- the name that is given away may have been the one from entry
    refine ⟨own.filter (· ≠ name), ?_, ?_⟩
    · rcases hown with rfl | ⟨other, rfl, hnot, hvalue⟩
      · exact Or.inl rfl
      · by_cases heq : other = name
        · exact Or.inl (by simp [heq])
        · refine Or.inr ⟨other, by simp [heq], by simp [hnot, heq], ?_⟩
          rw [valueAt?_assign, hvalue]
    · have hkeep : (done.filter (d.lookup · = some j)).filter (· ≠ name) =
          done.filter (d.lookup · = some j) := by
        refine List.filter_eq_self.2 fun other hother => ?_
        simpa using hne other (List.mem_filter.1 hother).1
      have hfilter : done.filter ((d.assign name id).lookup · = some j) =
          done.filter (d.lookup · = some j) :=
        List.filter_congr fun other hother => by rw [hsame other hother]
      rw [hd.namesAt_assign hj, hnames, List.filter_append, hkeep, List.filter_append, hfilter,
        List.append_assoc]
      by_cases hid : j = id
      · simp [hid]
      · simp [hid, Ne.symm hid]
  · have hlast : [name].filterMap (d.assign name id).lookup = [id] := by simp
    rw [order_assign, List.filterMap_append, List.filterMap_congr hsame, hlast, eraseDups_concat,
      h.order]

/-! ### Instructions and blocks -/

theorem add_once {index : Nat} {q : Quadruple} (hd : d.Coherent) (hlisted : d.Listed)
    (h : d.AssignsOnce done) (hnew : q.result ∉ done) (hadd : d.add index q = .ok d') :
    d'.AssignsOnce (done ++ [q.result]) := by
  obtain ⟨-, ⟨-, -, id, d₁, hsource, rfl⟩ |
    ⟨hop, -, left, d₁, right, d₂, id, d₃, hleft, hright, hcombine, rfl⟩⟩ := add_cases hadd
  · obtain ⟨hd₁, -⟩ := resolve_coherent hd hlisted (by simp) hsource
    exact assign_once hd₁ (resolve_once hd h (Or.inl rfl) hsource) hnew
  · obtain ⟨hd₁, hlisted₁, -, hlt⟩ := resolve_coherent hd hlisted (by simp) hleft
    obtain ⟨hd₂, hlisted₂, hext, hlt₂⟩ := resolve_coherent hd₁ hlisted₁ (by simp) hright
    obtain ⟨hd₃, -⟩ := combine_coherent hd₂ hlisted₂ (Nat.lt_of_lt_of_le hlt hext.length_le) hlt₂
      hop hcombine
    have h₁ := resolve_once hd h (Or.inr rfl) hleft
    have h₂ := resolve_once hd₁ h₁ (Or.inr rfl) hright
    exact assign_once hd₃ (combine_once hd₂ h₂ hcombine) hnew

theorem addAll_once {index : Nat} {quads : List Quadruple} (hd : d.Coherent)
    (hlisted : d.Listed) (h : d.AssignsOnce done)
    (hnodup : (done ++ quads.map (·.result)).Nodup) (hadd : d.addAll index quads = .ok d') :
    d'.AssignsOnce (done ++ quads.map (·.result)) := by
  induction quads generalizing d done index with
  | nil =>
    obtain rfl := Except.ok.inj hadd
    simpa using h
  | cons q quads ih =>
    obtain ⟨d₁, hq, hadd⟩ := addAll_cons_eq_ok_iff.1 hadd
    obtain ⟨hd₁, hlisted₁, -⟩ := add_coherent hd hlisted hq
    have hnew : q.result ∉ done := fun hmem =>
      (List.nodup_append.1 hnodup).2.2 _ hmem _ (by simp) rfl
    rw [List.map_cons, List.append_cons] at hnodup ⊢
    exact ih hd₁ hlisted₁ (add_once hd hlisted h hnew hq) hnodup hadd

/-- The graph of a block that assigns every name once. -/
theorem build_once {quads : List Quadruple} (hnodup : (quads.map (·.result)).Nodup)
    (h : build quads = .ok d) : d.AssignsOnce (quads.map (·.result)) :=
  addAll_once empty_coherent empty_listed empty_once hnodup h

end Dag
end ArithFrontEnd
