import ArithFrontEnd.Proofs.Optimizer.Coherence
import Mathlib.Data.List.TakeWhile

/-!
# Names from entry

A name that a block does not assign stands for its value on entry throughout.  The node of that
value has the name only if an operator has met it first: a copy that meets it makes a node without
the name.  So it can be told from the order of the nodes whether the node has the name.  It has it
if an operator that reads the node is listed before the node, and has it not if the node was listed
by the copy that made it.

Between the making of a node for an operand and the assignment of the operator, the node has a name
that nothing listed accounts for.  Such nodes are kept apart until the operator is assigned.

## Main definitions

* `Dag.ReadFirst` — an operator that reads the node is listed before it.
* `Dag.EntryNamed` — the node has the name of its value on entry if it is read first.
* `Dag.EntriesNamed` — this holds of all nodes but those that an operator is about to read.

## Main results

* `resolve_entriesNamed`, `assign_entriesNamed`, `add_entriesNamed` — what an instruction keeps.
* `build_entryNamed` — **which values on entry have their names in the graph of a block.**
-/

namespace ArithFrontEnd
namespace Dag

/-- This node is an operator that reads the other one. -/
def IsOperand (d : Dag) (id reader : NodeId) : Prop :=
  ∃ op left right, d.valueAt? reader = some (.operator op left right) ∧ (id = left ∨ id = right)

/-- The nodes that are listed before a node; they are all that are listed if the node is not. -/
def before (d : Dag) (id : NodeId) : List NodeId := d.order.takeWhile (· ≠ id)

/-- An operator that reads the node is listed before it. -/
def ReadFirst (d : Dag) (id : NodeId) : Prop := ∃ reader ∈ d.before id, d.IsOperand id reader

/-- If the node stands for the value on entry of a name that is not among the results, it has the
name exactly if an operator has read it first, and that is so if it is not listed. -/
structure EntryNamed (d : Dag) (done : List String) (id : NodeId) : Prop where
  /-- The node has the name exactly if an operator has read it first. -/
  named_iff {name : String} (h : d.valueAt? id = some (.identifier name)) (hnot : name ∉ done) :
    name ∈ d.namesAt id ↔ d.ReadFirst id
  /-- A node that is not listed has been made for an operator. -/
  unlisted {name : String} (h : d.valueAt? id = some (.identifier name)) (hnot : name ∉ done)
    (horder : id ∉ d.order) : d.ReadFirst id

/-- The node has been made for an operator that has not been assigned. -/
def AwaitsReader (d : Dag) (done : List String) (id : NodeId) : Prop :=
  id ∉ d.order ∧
    ∀ name, d.valueAt? id = some (.identifier name) → name ∉ done → name ∈ d.namesAt id

/-- Whether nodes have the names of their values on entry is told by the order, but for these
nodes. -/
def EntriesNamed (d : Dag) (done : List String) (awaiting : List NodeId) : Prop :=
  ∀ id, d.EntryNamed done id ∨ (id ∈ awaiting ∧ d.AwaitsReader done id)

variable {d d' : Dag} {done : List String} {awaiting : List NodeId} {id : NodeId}

/-- Of a node that stands for no value on entry nothing is said. -/
theorem entryNamed_of_not_entry (h : ∀ name, d.valueAt? id ≠ some (.identifier name)) :
    d.EntryNamed done id :=
  ⟨fun hvalue => absurd hvalue (h _), fun hvalue => absurd hvalue (h _)⟩

theorem EntriesNamed.mono {more : List NodeId} (h : d.EntriesNamed done awaiting)
    (hsub : awaiting ⊆ more) : d.EntriesNamed done more :=
  fun id => (h id).imp_right fun ⟨hmem, hawaits⟩ => ⟨hsub hmem, hawaits⟩

theorem empty_entriesNamed : empty.EntriesNamed [] [] := fun id =>
  Or.inl (entryNamed_of_not_entry fun name => by simp [valueAt?, node?, empty])

/-! ### The nodes before a node -/

theorem mem_order_of_mem_before {reader : NodeId} (h : reader ∈ d.before id) : reader ∈ d.order :=
  (List.takeWhile_sublist _).mem h

/-- Before a listed node nothing is listed later. -/
theorem before_assign_of_mem (h : id ∈ d.order) (name : String) (k : NodeId) :
    (d.assign name k).before id = d.before id := by
  unfold before
  rw [order_assign]
  split
  · rfl
  · rw [List.takeWhile_append, if_neg]
    intro hall
    have hself := (List.takeWhile_prefix _).eq_of_length hall
    have hne := List.takeWhile_eq_self_iff.1 hself id h
    simp at hne

theorem isOperand_assign {name : String} {k reader : NodeId} :
    (d.assign name k).IsOperand id reader ↔ d.IsOperand id reader := by
  simp only [IsOperand, valueAt?_assign]

/-- What is read first among listed nodes does not change when a node is listed. -/
theorem readFirst_assign_of_mem (h : id ∈ d.order) (name : String) (k : NodeId) :
    (d.assign name k).ReadFirst id ↔ d.ReadFirst id := by
  simp only [ReadFirst, before_assign_of_mem h, isOperand_assign]

/-- A node that is not listed is read first if it has been, or if an operator that reads it is
listed. -/
theorem readFirst_assign_of_not_mem (h : id ∉ d.order) {name : String} {k : NodeId}
    (hread : d.ReadFirst id ∨ k ≠ id ∧ d.IsOperand id k) : (d.assign name k).ReadFirst id := by
  have hbefore : d.order <+: (d.assign name k).before id ∧
      (k ≠ id → k ∈ (d.assign name k).before id) := by
    have hall : ∀ reader ∈ d.order, decide (reader ≠ id) = true := fun reader hreader => by
      have hne : reader ≠ id := fun heq => h (heq ▸ hreader)
      simpa using hne
    unfold before
    rw [order_assign]
    split
    · next hk =>
      rw [List.takeWhile_eq_self_iff.2 hall]
      exact ⟨List.prefix_rfl, fun _ => hk⟩
    · rw [List.takeWhile_append_of_pos hall]
      exact ⟨List.prefix_append _ _, fun hne => by simp [hne]⟩
  rcases hread with ⟨reader, hreader, hoperand⟩ | ⟨hne, hoperand⟩
  · exact ⟨reader, hbefore.1.mem (mem_order_of_mem_before hreader), isOperand_assign.2 hoperand⟩
  · exact ⟨k, hbefore.2 hne, isOperand_assign.2 hoperand⟩

/-! ### Nodes and names that are added -/

/-- What is read first does not change when nodes are added. -/
theorem readFirst_iff_of_extends (hd : d.Coherent) (hext : Extends d d')
    (horder : d'.order = d.order) : d'.ReadFirst id ↔ d.ReadFirst id := by
  unfold ReadFirst before
  rw [horder]
  refine exists_congr fun reader => and_congr_right fun hmem => ?_
  have hlt := hd.order_lt (mem_order_of_mem_before hmem)
  unfold IsOperand
  rw [hext.valueAt?_eq hlt]

/-- Nothing that is said of a node changes when nodes are added. -/
theorem EntriesNamed.of_extends (h : d.EntriesNamed done awaiting) (hd : d.Coherent)
    (hext : Extends d d') (horder : d'.order = d.order) (hlt : id < d.nodes.length)
    (hnames : d'.namesAt id = d.namesAt id) :
    d'.EntryNamed done id ∨ (id ∈ awaiting ∧ d'.AwaitsReader done id) := by
  have hvalue := hext.valueAt?_eq hlt
  have hread : d'.ReadFirst id ↔ d.ReadFirst id := readFirst_iff_of_extends hd hext horder
  rcases h id with hnamed | ⟨hmem, hnot, hawaits⟩
  · refine Or.inl ⟨fun {name} hentry hdone => ?_, fun {name} hentry hdone hnot => ?_⟩
    · rw [hnames, hread, hnamed.named_iff (hvalue ▸ hentry) hdone]
    · exact hread.2 (hnamed.unlisted (hvalue ▸ hentry) hdone (horder ▸ hnot))
  · refine Or.inr ⟨hmem, horder ▸ hnot, fun name hentry hdone => ?_⟩
    rw [hnames]
    exact hawaits name (hvalue ▸ hentry) hdone

theorem push_entriesNamed (hd : d.Coherent) (h : d.EntriesNamed done awaiting) {value : NodeValue}
    (hentry : ∀ name, value ≠ .identifier name) (literal : Option String) :
    (d.push ⟨[], value, literal⟩).EntriesNamed done awaiting := by
  intro id
  by_cases hlt : id < d.nodes.length
  · refine h.of_extends hd (extends_push d _) rfl hlt ?_
    rw [namesAt_push, if_neg (Nat.ne_of_lt hlt)]
  · refine Or.inl (entryNamed_of_not_entry fun name hvalue => ?_)
    rw [valueAt?_push] at hvalue
    split at hvalue
    · exact hentry name (Option.some.inj hvalue)
    · exact hlt (lt_length_of_valueAt? hvalue)

theorem intern_entriesNamed (hd : d.Coherent) (h : d.EntriesNamed done awaiting)
    {value : NodeValue} (hentry : ∀ name, value ≠ .identifier name) {literal : Option String}
    (hintern : d.intern value literal = (id, d')) : d'.EntriesNamed done awaiting := by
  obtain ⟨-, rfl⟩ | ⟨-, rfl, rfl⟩ := intern_cases hintern
  · exact h
  · exact push_entriesNamed hd h hentry literal

/-- The old nodes when a name enters. -/
theorem enter_entriesNamed (hd : d.Coherent) (h : d.EntriesNamed done awaiting) {text : String}
    (names : List String) (hunbound : d.lookup text = none) (hne : id ≠ d.nodes.length) :
    (d.enter text names).EntryNamed done id ∨
      (id ∈ awaiting ∧ (d.enter text names).AwaitsReader done id) := by
  by_cases hlt : id < d.nodes.length
  · refine h.of_extends hd (extends_enter names hunbound) rfl hlt ?_
    rw [namesAt_enter, if_neg hne]
  · refine Or.inl (entryNamed_of_not_entry fun name hvalue => ?_)
    rw [valueAt?_enter, if_neg hne] at hvalue
    exact hlt (lt_length_of_valueAt? hvalue)

/-! ### The parts of an instruction -/

/-- An operand of an operator that enters has its name, and awaits the operator. -/
theorem resolve_entriesNamed (hd : d.Coherent) (h : d.EntriesNamed done awaiting) {text : String}
    (hresolve : d.resolve text [text] = (id, d')) : d'.EntriesNamed done (id :: awaiting) := by
  obtain ⟨-, rfl⟩ | ⟨v, -, -, heq⟩ | ⟨hunbound, -, rfl, rfl⟩ := resolve_cases hresolve
  · exact h.mono (List.subset_cons_self _ _)
  · exact (intern_entriesNamed hd h (by simp) heq).mono (List.subset_cons_self _ _)
  · intro i
    by_cases hi : i = d.nodes.length
    · refine Or.inr ⟨by simp [hi], fun hmem => ?_, fun name hvalue _ => ?_⟩
      · exact Nat.lt_irrefl _ (hi ▸ hd.order_lt hmem)
      · rw [valueAt?_enter, if_pos hi] at hvalue
        rw [namesAt_enter, if_pos hi, NodeValue.identifier.inj (Option.some.inj hvalue)]
        simp
    · exact (enter_entriesNamed hd h [text] hunbound hi).imp_right fun ⟨hmem, hawaits⟩ =>
        ⟨List.mem_cons_of_mem _ hmem, hawaits⟩

theorem mem_namesAt_assign_of_ne {name other : String} {k : NodeId} (hne : other ≠ name) :
    other ∈ (d.assign name k).namesAt id ↔ other ∈ d.namesAt id := by
  rw [mem_namesAt_assign]
  simp [hne]

/-- What is said of a node stays when a name is given to some node. -/
theorem EntryNamed.assign (h : d.EntryNamed done id) (name : String) (k : NodeId) :
    (d.assign name k).EntryNamed (done ++ [name]) id := by
  refine ⟨fun {other} hvalue hnot => ?_, fun {other} hvalue hnot horder => ?_⟩
  · obtain ⟨hdone, hne⟩ : other ∉ done ∧ other ≠ name := by simpa using hnot
    rw [valueAt?_assign] at hvalue
    rw [mem_namesAt_assign_of_ne hne]
    by_cases horder : id ∈ d.order
    · rw [readFirst_assign_of_mem horder, h.named_iff hvalue hdone]
    · have hread := h.unlisted hvalue hdone horder
      exact iff_of_true ((h.named_iff hvalue hdone).2 hread)
        (readFirst_assign_of_not_mem horder (Or.inl hread))
  · obtain ⟨hdone, -⟩ : other ∉ done ∧ other ≠ name := by simpa using hnot
    rw [valueAt?_assign] at hvalue
    have horder' : id ∉ d.order := fun hmem => horder (mem_order_assign.2 (Or.inl hmem))
    exact readFirst_assign_of_not_mem horder' (Or.inl (h.unlisted hvalue hdone horder'))

/-- The operator that is assigned has read the nodes that await it. -/
theorem AwaitsReader.assign (h : d.AwaitsReader done id) {k : NodeId} (name : String)
    (hreads : ∀ other, d.valueAt? id = some (.identifier other) → d.IsOperand id k) :
    (d.assign name k).EntryNamed (done ++ [name]) id := by
  have hread : ∀ other, d.valueAt? id = some (.identifier other) →
      (d.assign name k).ReadFirst id := by
    intro other hvalue
    refine readFirst_assign_of_not_mem h.1 (Or.inr ⟨?_, hreads other hvalue⟩)
    rintro rfl
    obtain ⟨op, left, right, hop, -⟩ := hreads other hvalue
    rw [hvalue] at hop
    cases hop
  refine ⟨fun {other} hvalue hnot => ?_, fun {other} hvalue _ _ => ?_⟩
  · obtain ⟨hdone, hne⟩ : other ∉ done ∧ other ≠ name := by simpa using hnot
    rw [valueAt?_assign] at hvalue
    exact iff_of_true ((mem_namesAt_assign_of_ne hne).2 (h.2 other hvalue hdone))
      (hread other hvalue)
  · rw [valueAt?_assign] at hvalue
    exact hread other hvalue

theorem assign_entriesNamed (h : d.EntriesNamed done awaiting) {k : NodeId}
    (hreads : ∀ id ∈ awaiting, ∀ other, d.valueAt? id = some (.identifier other) →
      d.IsOperand id k)
    (name : String) : (d.assign name k).EntriesNamed (done ++ [name]) [] := by
  intro id
  rcases h id with hnamed | ⟨hmem, hawaits⟩
  · exact Or.inl (hnamed.assign name k)
  · exact Or.inl (hawaits.assign name (hreads id hmem))

/-- A name that enters with a copy is no name of its node, and the node is listed at once. -/
theorem enter_assign_entryNamed (hd : d.Coherent) {text : String} (hunbound : d.lookup text = none)
    (name : String) :
    ((d.enter text []).assign name d.nodes.length).EntryNamed (done ++ [name]) d.nodes.length := by
  have hlisted : d.nodes.length ∈ ((d.enter text []).assign name d.nodes.length).order :=
    mem_order_assign.2 (Or.inr rfl)
  refine ⟨fun {other} hvalue hnot => ?_, fun _ _ hnot => absurd hlisted hnot⟩
  obtain ⟨-, hne⟩ : other ∉ done ∧ other ≠ name := by simpa using hnot
  rw [mem_namesAt_assign_of_ne hne, namesAt_enter, if_pos rfl]
  refine iff_of_false (by simp) ?_
  rintro ⟨reader, hreader, hoperand⟩
  obtain ⟨op, left, right, hop, hid⟩ := isOperand_assign.1 hoperand
  -- a reader is an old operator, and its operands are old
  have hold : reader < d.nodes.length := by
    rcases mem_order_assign.1 (mem_order_of_mem_before hreader) with hmem | rfl
    · exact hd.order_lt hmem
    · rw [valueAt?_enter, if_pos rfl] at hop
      cases hop
  rw [(extends_enter [] hunbound).valueAt?_eq hold] at hop
  obtain ⟨hleft, hright⟩ := hd.operands_lt hop
  rcases hid with heq | heq
  · exact Nat.lt_irrefl _ (Nat.lt_trans (heq ▸ hleft) hold)
  · exact Nat.lt_irrefl _ (Nat.lt_trans (heq ▸ hright) hold)

theorem copy_entriesNamed (hd : d.Coherent) (h : d.EntriesNamed done []) {text : String}
    (hresolve : d.resolve text [] = (id, d')) (name : String) :
    (d'.assign name id).EntriesNamed (done ++ [name]) [] := by
  obtain ⟨-, rfl⟩ | ⟨v, -, -, heq⟩ | ⟨hunbound, -, rfl, rfl⟩ := resolve_cases hresolve
  · exact assign_entriesNamed h (by simp) name
  · exact assign_entriesNamed (intern_entriesNamed hd h (by simp) heq) (by simp) name
  · intro i
    by_cases hi : i = d.nodes.length
    · exact Or.inl (hi ▸ enter_assign_entryNamed hd hunbound name)
    · rcases enter_entriesNamed hd h [] hunbound hi with hnamed | ⟨hmem, -⟩
      · exact Or.inl (hnamed.assign name _)
      · cases hmem

/-- An operator that is not folded reads its operands, and operands that are constants have no value
on entry. -/
theorem combine_entriesNamed (hd : d.Coherent) {op : String} {left right k : NodeId}
    (h : d.EntriesNamed done [right, left]) (hcombine : d.combine op left right = .ok (k, d'))
    (name : String) : (d'.assign name k).EntriesNamed (done ++ [name]) [] := by
  have hoperands : ∀ id ∈ [right, left], id = left ∨ id = right := by simp
  rcases combine_cases hcombine with ⟨-, a, b, v, -, hleft, hright, -, hintern⟩ | ⟨-, hintern⟩
  · obtain ⟨-, hext⟩ := valueAt?_of_intern hintern
    have hconstant : ∀ id ∈ [right, left], ∃ v, d'.valueAt? id = some (.constant v) := by
      intro id hmem
      rcases hoperands id hmem with rfl | rfl
      · exact ⟨a, by rw [hext.valueAt?_eq (lt_length_of_valueAt? hleft), hleft]⟩
      · exact ⟨b, by rw [hext.valueAt?_eq (lt_length_of_valueAt? hright), hright]⟩
    refine assign_entriesNamed (intern_entriesNamed hd h (by simp) hintern) ?_ name
    intro id hmem other hvalue
    obtain ⟨w, hw⟩ := hconstant id hmem
    rw [hvalue] at hw
    cases hw
  · obtain ⟨hk, -⟩ := valueAt?_of_intern hintern
    refine assign_entriesNamed (intern_entriesNamed hd h (by simp) hintern) ?_ name
    intro id hmem _ _
    exact ⟨op, left, right, hk, hoperands id hmem⟩

/-! ### Instructions and blocks -/

theorem add_entriesNamed {index : Nat} {q : Quadruple} (hd : d.Coherent) (hlisted : d.Listed)
    (h : d.EntriesNamed done []) (hadd : d.add index q = .ok d') :
    d'.EntriesNamed (done ++ [q.result]) [] := by
  obtain ⟨-, ⟨-, -, id, d₁, hsource, rfl⟩ |
    ⟨-, -, left, d₁, right, d₂, id, d₃, hleft, hright, hcombine, rfl⟩⟩ := add_cases hadd
  · exact copy_entriesNamed hd h hsource q.result
  · obtain ⟨hd₁, hlisted₁, -⟩ := resolve_coherent hd hlisted (by simp) hleft
    obtain ⟨hd₂, -⟩ := resolve_coherent hd₁ hlisted₁ (by simp) hright
    have h₁ := resolve_entriesNamed hd h hleft
    have h₂ := resolve_entriesNamed hd₁ h₁ hright
    exact combine_entriesNamed hd₂ h₂ hcombine q.result

theorem addAll_entriesNamed {index : Nat} {quads : List Quadruple} (hd : d.Coherent)
    (hlisted : d.Listed) (h : d.EntriesNamed done []) (hadd : d.addAll index quads = .ok d') :
    d'.EntriesNamed (done ++ quads.map (·.result)) [] := by
  induction quads generalizing d done index with
  | nil =>
    obtain rfl := Except.ok.inj hadd
    simpa using h
  | cons q quads ih =>
    obtain ⟨d₁, hq, hadd⟩ := addAll_cons_eq_ok_iff.1 hadd
    obtain ⟨hd₁, hlisted₁, -⟩ := add_coherent hd hlisted hq
    rw [List.map_cons, List.append_cons]
    exact ih hd₁ hlisted₁ (add_entriesNamed hd hlisted h hq) hadd

/-- In the graph of a block a value on entry whose name is not assigned has the name exactly if an
operator has read it first. -/
theorem build_entryNamed {quads : List Quadruple} (h : build quads = .ok d) (id : NodeId) :
    d.EntryNamed (quads.map (·.result)) id :=
  (addAll_entriesNamed empty_coherent empty_listed empty_entriesNamed h id).resolve_right
    fun hmem => nomatch hmem.1

end Dag
end ArithFrontEnd
