import ArithFrontEnd.Proofs.Optimizer.Naming

/-!
# What the block of a graph computes

The block of a graph is a sequence of instructions each of which gives the value of a node to one of
its names.  The copies at the top keep the values on entry that are read after their names have been
assigned; no name that they write is read on entry.  Then the nodes are computed in the order of
their first assignment.  An operand that is an operator has a smaller number, so it comes before the
operators that need it, and has been computed.

## Main definitions

* `Dag.Reads` — a text is how the value of a node is read once some names are written.
* `Dag.Computes`, `Dag.Writes` — an instruction, and instructions, that give names the values of
  nodes.
* `Dag.kept`, `Dag.written` — the nodes whose values are kept at the top, and those that the
  instructions of the block compute.

## Main results

* `nameOf_reads` — **a node that is read is read under its name.**
* `snapshots_write`, `instructions_write`, `linearize_writes` — **every instruction of the block of
  a graph gives the value of a node to a name of the node.**
-/

namespace ArithFrontEnd
namespace Dag

variable {d : Dag} {id : NodeId} {done : List String}

/-! ### Instructions that give names the values of nodes -/

/-- The text is how the value of the node is read once these names are written: the constant as it
is written, a name of the node that is written, or the name whose value it is from entry to end. -/
inductive Reads (d : Dag) (done : List String) : String → NodeId → Prop
  | numeral {text : String} {id : NodeId} {v : Value} (h : d.valueAt? id = some (.constant v))
      (htext : text = d.nameOf d.needed id) : Reads d done text id
  | written {name : String} {id : NodeId} (howns : d.Owns name id) (h : name ∈ done) :
      Reads d done name id
  | entry {name : String} {id : NodeId} (h : d.valueAt? id = some (.identifier name))
      (hlookup : d.lookup name = some id) : Reads d done name id

theorem Reads.mono {more : List String} {text : String} (h : d.Reads done text id)
    (hsub : done ⊆ more) : d.Reads more text id := by
  cases h with
  | numeral h htext => exact .numeral h htext
  | written howns h => exact .written howns (hsub h)
  | entry h hlookup => exact .entry h hlookup

/-- Once these names are written, the instruction gives the value of the node to one of its names:
it keeps a value on entry under the name that stands in for it, or copies the value, or applies an
operator. -/
inductive Computes (d : Dag) (done : List String) : Quadruple → NodeId → Prop
  | keep {name kept : String} {id : NodeId} (h : d.valueAt? id = some (.identifier name))
      (hkept : d.surrogate? d.needed id = some kept) (hnot : name ∉ done) :
      Computes d done (.copy name kept) id
  | copy {text name : String} {id : NodeId} (htext : d.Reads done text id)
      (howns : d.Owns name id) : Computes d done (.copy text name) id
  | operator {op left right name : String} {i j id : NodeId}
      (h : d.valueAt? id = some (.operator op i j)) (hleft : d.Reads done left i)
      (hright : d.Reads done right j) (howns : d.Owns name id) :
      Computes d done ⟨op, left, right, name⟩ id

theorem Computes.owns {q : Quadruple} (hd : d.Coherent) (h : d.Computes done q id) :
    d.Owns q.result id := by
  cases h with
  | keep h hkept => exact owns_of_surrogate? hd h hkept
  | copy htext howns => exact howns
  | operator h hleft hright howns => exact howns

/-- Once these names are written, the instructions give the values of these nodes to their
results. -/
inductive Writes (d : Dag) : List String → List Quadruple → List NodeId → Prop
  | nil (done : List String) : Writes d done [] []
  | cons {done : List String} {q : Quadruple} {qs : List Quadruple} {id : NodeId}
      {ids : List NodeId} (h : d.Computes done q id) (hqs : Writes d (done ++ [q.result]) qs ids) :
      Writes d done (q :: qs) (id :: ids)

theorem Writes.append {qs rs : List Quadruple} {ids js : List NodeId} (h : d.Writes done qs ids)
    (hrs : d.Writes (done ++ qs.map (·.result)) rs js) :
    d.Writes done (qs ++ rs) (ids ++ js) := by
  induction h with
  | nil done => simpa using hrs
  | cons h hqs ih => exact .cons h (ih (by simpa using hrs))

/-- The value of a node can be copied from where it is read to its names. -/
theorem writes_copies {source : String} {names : List String} (hsource : d.Reads done source id)
    (hnames : ∀ name ∈ names, d.Owns name id) :
    d.Writes done (copies source names) (List.replicate names.length id) := by
  induction names generalizing done with
  | nil => exact .nil done
  | cons name names ih =>
    refine .cons (.copy hsource (hnames name (by simp))) ?_
    exact ih (hsource.mono (by simp)) fun other hother => hnames other (by simp [hother])

theorem length_copies (source : String) (names : List String) :
    (copies source names).length = names.length := List.length_map _

theorem map_result_copies (source : String) (names : List String) :
    (copies source names).map (·.result) = names := by
  simp [copies, Quadruple.copy, Function.comp_def]

/-- A node that is read is read under its name, once the values on entry are kept and the node has
been computed if it is an operator. -/
theorem nameOf_reads (hd : d.Coherent) (hread : d.IsRead id) (hlt : id < d.nodes.length)
    (hkept : ∀ p ∈ d.snapshots, p.2 ∈ done)
    (hdone : d.IsOperator id → d.nameOf d.needed id ∈ done) :
    d.Reads done (d.nameOf d.needed id) id := by
  obtain ⟨value, hvalue⟩ := exists_valueAt? hlt
  cases value with
  | constant v => exact .numeral hvalue rfl
  | identifier name =>
    rw [nameOf_identifier hvalue]
    cases hkeep : d.surrogate? d.needed id with
    | some kept =>
      exact .written (owns_of_surrogate? hd hvalue hkeep)
        (hkept (name, kept) (mem_snapshots_iff.2 ⟨id, hvalue, hkeep⟩))
    | none => exact .entry hvalue (lookup_of_surrogate?_eq_none hvalue hread hkeep)
  | operator op left right =>
    exact .written (owns_nameOf_operator hd hvalue hread) (hdone ⟨op, left, right, hvalue⟩)

/-! ### The values on entry that are kept -/

/-- The values on entry that are kept can be copied one after the other: no copy writes a name whose
value on entry is read. -/
theorem snapshots_write {ids : List NodeId} (hd : d.Coherent)
    (hdone : ∀ name ∈ done, ∀ id, d.valueAt? id ≠ some (.identifier name)) :
    d.Writes done ((ids.filterMap (d.snapshot? d.needed)).map fun (name, kept) => .copy name kept)
      (ids.filter fun id => (d.snapshot? d.needed id).isSome) := by
  -- what has been written so far is nothing that is still to be copied
  induction ids generalizing done with
  | nil => exact .nil done
  | cons id ids ih =>
    cases hsnapshot : d.snapshot? d.needed id with
    | none =>
      rw [List.filterMap_cons_none hsnapshot, List.filter_cons_of_neg (by simp [hsnapshot])]
      exact ih hdone
    | some p =>
      obtain ⟨name, kept⟩ := p
      obtain ⟨hvalue, hkept⟩ := snapshot?_eq_some_iff.1 hsnapshot
      rw [List.filterMap_cons_some hsnapshot, List.filter_cons_of_pos (by simp [hsnapshot]),
        List.map_cons]
      refine .cons (.keep hvalue hkept fun hmem => hdone name hmem id hvalue) (ih ?_)
      intro other hother j hj
      rcases List.mem_append.1 hother with hmem | hmem
      · exact hdone other hmem j hj
      · exact ne_of_surrogate? hd hvalue hkept hj (List.mem_singleton.1 hmem).symm

/-- The names that the values on entry are kept under are written first. -/
theorem map_result_snapshots (ps : List (String × String)) :
    (ps.map fun (name, kept) => Quadruple.copy name kept).map (·.result) = ps.map (·.2) := by
  simp [Quadruple.copy, Function.comp_def]

/-! ### The instructions of a node -/

/-- The operators that have been assigned before a node and are read have been computed. -/
def Computed (d : Dag) (before : List NodeId) (done : List String) : Prop :=
  ∀ id ∈ before, d.IsOperator id → d.IsRead id → d.nameOf d.needed id ∈ done

/-- An operator with a smaller number than another one was assigned before it. -/
theorem Coherent.mem_of_lt {before ids : List NodeId} {i j : NodeId} (hd : d.Coherent)
    (hlisted : d.Listed) (horder : d.order = before ++ j :: ids) (hi : d.IsOperator i)
    (hj : d.IsOperator j) (hlt : i < j) : i ∈ before := by
  have hmem := hlisted i hi
  have hsorted := hd.order_sorted
  rw [horder] at hmem hsorted
  rcases List.mem_append.1 hmem with hbefore | hafter
  · exact hbefore
  · rcases List.mem_cons.1 hafter with rfl | hlater
    · exact absurd hlt (Nat.lt_irrefl _)
    · have hsuffix := (List.pairwise_append.1 hsorted).2.1
      have hgt := (List.pairwise_cons.1 hsuffix).1 i hlater hj hi
      exact absurd hlt (Nat.lt_asymm hgt)

/-- The instructions of an operator that is read compute it into its name and copy it from there;
an operator that is not read is not computed. -/
theorem instructions_operator {id : NodeId} {op : String} {left right : NodeId}
    (h : d.valueAt? id = some (.operator op left right)) :
    (d.IsRead id ∧ d.instructions d.needed id =
        ⟨op, d.nameOf d.needed left, d.nameOf d.needed right, d.nameOf d.needed id⟩ ::
          copies (d.nameOf d.needed id) ((d.namesAt id).drop 1)) ∨
      (¬ d.IsRead id ∧ d.instructions d.needed id = []) := by
  have hnode := node?_of_valueAt? h
  by_cases hread : d.IsRead id
  · refine Or.inl ⟨hread, ?_⟩
    rw [instructions, hnode]
    simp only [firstName_operator h hread]
  · refine Or.inr ⟨hread, ?_⟩
    obtain ⟨hneeded, hnames⟩ := not_or.1 hread
    rw [instructions, hnode]
    simp [surrogate?, hnode, hneeded, not_not.1 hnames]

/-- The instructions of a node that is no operator copy it from where it is read. -/
theorem instructions_leaf {id : NodeId} (hlt : id < d.nodes.length) (h : ¬ d.IsOperator id) :
    d.instructions d.needed id =
      match d.namesAt id with
      | [] => []
      | first :: others =>
        (if d.nameOf d.needed id = first then [] else [.copy (d.nameOf d.needed id) first]) ++
          copies first others := by
  obtain ⟨value, hvalue⟩ := exists_valueAt? hlt
  rw [instructions, node?_of_valueAt? hvalue]
  cases value with
  | operator op left right => exact absurd ⟨op, left, right, hvalue⟩ h
  | constant v => cases d.namesAt id <;> rfl
  | identifier name => cases d.namesAt id <;> rfl

/-- The instructions of a node write its names, but for the one that a leaf is read under. -/
theorem mem_results_instructions {id : NodeId} {name : String} (h : name ∈ d.namesAt id) :
    name ∈ (d.instructions d.needed id).map (·.result) ∨
      (¬ d.IsOperator id ∧ name = d.nameOf d.needed id) := by
  have hlt := lt_length_of_mem_namesAt h
  by_cases hop : d.IsOperator id
  · obtain ⟨op, left, right, hvalue⟩ := hop
    have hread : d.IsRead id := Or.inr (List.ne_nil_of_mem h)
    rcases instructions_operator hvalue with ⟨-, heq⟩ | ⟨hnot, -⟩
    · have hfirst := firstName_operator hvalue hread
      rw [heq, List.map_cons, map_result_copies]
      cases hnames : d.namesAt id with
      | nil => rw [hnames] at h; cases h
      | cons first others =>
        rw [hnames] at h hfirst
        have hfirst' : first = d.nameOf d.needed id := by simpa using hfirst
        -- the operator is computed into the first name and copied to the others
        rcases List.mem_cons.1 h with rfl | hother
        · exact Or.inl (by simp [← hfirst'])
        · exact Or.inl (by simp [hother])
    · exact absurd hread hnot
  · rw [instructions_leaf hlt hop]
    cases hnames : d.namesAt id with
    | nil => rw [hnames] at h; cases h
    | cons first others =>
      rw [hnames] at h
      rw [List.map_append, map_result_copies]
      -- the first name is not copied to itself
      rcases List.mem_cons.1 h with rfl | hother
      · by_cases heq : d.nameOf d.needed id = name
        · exact Or.inr ⟨hop, heq.symm⟩
        · simp [heq, Quadruple.copy]
      · exact Or.inl (by simp [hother])

/-- The instructions of a node give its value to its names, once the operators before it are
computed. -/
theorem instructions_write {before ids : List NodeId} (hd : d.Coherent) (hlisted : d.Listed)
    (horder : d.order = before ++ id :: ids) (hkept : ∀ p ∈ d.snapshots, p.2 ∈ done)
    (hdone : d.Computed before done) :
    d.Writes done (d.instructions d.needed id)
      (List.replicate (d.instructions d.needed id).length id) := by
  have hmem : id ∈ d.order := by simp [horder]
  have hlt := hd.order_lt hmem
  by_cases hop : d.IsOperator id
  · obtain ⟨op, left, right, hvalue⟩ := hop
    rcases instructions_operator hvalue with ⟨hread, heq⟩ | ⟨-, heq⟩
    · have howns := owns_nameOf_operator hd hvalue hread
      -- an operand that is an operator was assigned before this one
      have hoperand : ∀ j, j < id → j ∈ d.needed → d.Reads done (d.nameOf d.needed j) j := by
        intro j hj hneeded
        refine nameOf_reads hd (Or.inl hneeded) (Nat.lt_trans hj hlt) hkept fun hjop => ?_
        have hbefore := hd.mem_of_lt hlisted horder hjop ⟨op, left, right, hvalue⟩ hj
        exact hdone j hbefore hjop (Or.inl hneeded)
      obtain ⟨hleft, hright⟩ := hd.operands_lt hvalue
      obtain ⟨hneedl, hneedr⟩ := operands_mem_needed hd hmem hvalue hread
      rw [heq, List.length_cons, length_copies, List.replicate_succ]
      refine .cons (.operator hvalue (hoperand _ hleft hneedl) (hoperand _ hright hneedr) howns) ?_
      exact writes_copies (.written howns (by simp)) fun name hname =>
        hd.owns (List.mem_of_mem_drop hname)
    · rw [heq]
      exact .nil done
  · rw [instructions_leaf hlt hop]
    cases hnames : d.namesAt id with
    | nil => exact .nil done
    | cons first others =>
      have hreads : d.Reads done (d.nameOf d.needed id) id :=
        nameOf_reads hd (Or.inr (by simp [hnames])) hlt hkept fun h => absurd h hop
      have howns : ∀ name ∈ first :: others, d.Owns name id := fun name hname =>
        hd.owns (hnames ▸ hname)
      have hothers : ∀ name ∈ others, d.Owns name id := fun name hname =>
        howns name (List.mem_cons_of_mem _ hname)
      dsimp only
      split
      · next heq =>
        rw [heq] at hreads
        rw [List.nil_append, length_copies]
        exact writes_copies hreads hothers
      · rw [List.singleton_append, List.length_cons, length_copies, List.replicate_succ]
        refine .cons (.copy hreads (howns first (by simp))) ?_
        exact writes_copies (.written (howns first (by simp)) (by simp [Quadruple.copy])) hothers

/-- The instructions of a node compute it if it is an operator that is read. -/
theorem Computed.append {before : List NodeId} {done : List String} {id : NodeId}
    (h : d.Computed before done) :
    d.Computed (before ++ [id]) (done ++ (d.instructions d.needed id).map (·.result)) := by
  intro j hj hop hread
  rcases List.mem_append.1 hj with hmem | hmem
  · exact List.mem_append_left _ (h j hmem hop hread)
  · obtain rfl := List.mem_singleton.1 hmem
    obtain ⟨op, left, right, hvalue⟩ := hop
    rcases instructions_operator hvalue with ⟨-, heq⟩ | ⟨hnot, -⟩
    · rw [heq]
      simp
    · exact absurd hread hnot

/-! ### The whole block -/

/-- The nodes whose values on entry are kept at the top of the block. -/
def kept (d : Dag) : List NodeId :=
  (List.range d.nodes.length).filter fun id => (d.snapshot? d.needed id).isSome

/-- The nodes whose values the instructions of the block give to their results. -/
def written (d : Dag) : List NodeId :=
  d.kept ++ d.order.flatMap fun id => List.replicate (d.instructions d.needed id).length id

/-- The nodes can be computed in the order of their first assignment. -/
theorem order_writes {before ids : List NodeId} (hd : d.Coherent) (hlisted : d.Listed)
    (horder : d.order = before ++ ids) (hkept : ∀ p ∈ d.snapshots, p.2 ∈ done)
    (hdone : d.Computed before done) :
    d.Writes done (ids.flatMap (d.instructions d.needed))
      (ids.flatMap fun id => List.replicate (d.instructions d.needed id).length id) := by
  induction ids generalizing before done with
  | nil => exact .nil done
  | cons id ids ih =>
    rw [List.flatMap_cons, List.flatMap_cons]
    -- the node that comes next joins those that have been computed
    refine (instructions_write hd hlisted horder hkept hdone).append ?_
    exact ih (by rw [horder, List.append_cons]) (fun p hp => List.mem_append_left _ (hkept p hp))
      hdone.append

/-- Every instruction of the block of a graph gives the value of a node to a name of the node. -/
theorem linearize_writes (hd : d.Coherent) (hlisted : d.Listed) :
    d.Writes [] d.linearize d.written := by
  refine (snapshots_write hd (by simp)).append ?_
  rw [List.nil_append, map_result_snapshots]
  refine order_writes hd hlisted (List.nil_append _).symm (fun p hp => ?_) ?_
  · exact List.mem_map.2 ⟨p, hp, rfl⟩
  · intro id hid
    cases hid

/-- The results of the block are the names that the values on entry are kept under, and those that
the instructions of the nodes write. -/
theorem results_linearize (d : Dag) : d.linearize.map (·.result) =
    d.snapshots.map (·.2) ++
      d.order.flatMap fun id => (d.instructions d.needed id).map (·.result) := by
  rw [linearize, List.map_append, map_result_snapshots, List.map_flatMap]

/-- A bound name is written, or stands for its value on entry. -/
theorem mem_results_of_lookup (hd : d.Coherent) {name : String} (h : d.lookup name = some id) :
    name ∈ d.linearize.map (·.result) ∨ d.valueAt? id = some (.identifier name) := by
  rw [results_linearize, List.mem_append, List.mem_flatMap]
  rcases hd.named_or_entry h with hname | hvalue
  · rcases hd.ordered_of_named hname with horder | hvalue
    · rcases mem_results_instructions hname with hmem | ⟨hleaf, heq⟩
      · exact Or.inl (Or.inr ⟨id, horder, hmem⟩)
      -- the name that a leaf is read under is kept at the top, or that of its own value on entry
      · obtain ⟨value, hvalue⟩ := exists_valueAt? (hd.lookup_lt h)
        cases value with
        | constant v =>
          have hnumeral := value?_nameOf_constant hd hvalue d.needed
          rw [← heq, hd.not_numeral h] at hnumeral
          contradiction
        | identifier other =>
          rw [nameOf_identifier hvalue] at heq
          cases hkept : d.surrogate? d.needed id with
          | none =>
            rw [hkept, Option.getD_none] at heq
            exact Or.inr (heq ▸ hvalue)
          | some kept =>
            rw [hkept, Option.getD_some] at heq
            subst heq
            exact Or.inl (Or.inl (List.mem_map.2
              ⟨(other, name), mem_snapshots_iff.2 ⟨id, hvalue, hkept⟩, rfl⟩))
        | operator op left right => exact absurd ⟨op, left, right, hvalue⟩ hleaf
    · exact Or.inr hvalue
  · exact Or.inr hvalue

end Dag
end ArithFrontEnd
