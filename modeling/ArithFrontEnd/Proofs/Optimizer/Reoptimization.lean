import ArithFrontEnd.Proofs.Optimizer.Unfolding
import ArithFrontEnd.Proofs.Optimizer.WritingOrder

/-!
# Optimizing an optimized block

The graph of an optimized block lists the nodes whose values on entry are kept before all others.
If no value on entry is given to two names, these nodes have nothing left to write, and the block
that is written is the block again.

Otherwise it may be another one.  A value on entry is then copied from its own name to all the names
that have it, or from the first of them to the others, and the copies come where the first one is.

## Main definitions

* `HoldsEntryOnce` — no two names that a block assigns stand for the same value on entry.

## Main results

* `Dag.Rebuilt.linearize_eq` — the block that is written is the block again.
* `optimize_optimized` — **an optimized block that does not give a value on entry to two names is
  not changed when it is optimized again.**
* `optimize_not_idempotent` — **another one may be.**
-/

namespace ArithFrontEnd
namespace Dag

variable {d g : Dag} {ids : List NodeId}

namespace Rebuilt

/-- The nodes are written as they have been written, as long as no value on entry is given to two
names. -/
theorem flatMap_instructions_eq (h : Rebuilt d g ids) (honce : d.EntryOnce) :
    g.order.flatMap (g.instructions g.needed) = d.order.flatMap (d.instructions d.needed) := by
  refine h.flatMap_order (fun i hi => h.instructions_eq honce (h.getElem?_idxOf hi))
    (fun i hi => ?_) fun _ hnil => hnil
  -- a node that is kept has nothing left to write
  exact List.map_eq_nil_iff.1 (honce.resultsAt_eq_nil (mem_kept_iff.1 hi))

/-- The block of the second graph is the block that it has been made from, as long as no value on
entry is given to two names. -/
theorem linearize_eq (h : Rebuilt d g ids) (honce : d.EntryOnce) : g.linearize = d.linearize := by
  rw [linearize, linearize, h.snapshots_eq, h.flatMap_instructions_eq honce]

end Rebuilt
end Dag

/-! ### The optimizer -/

/-- No two names that the block assigns stand in the end for the value that one name had on
entry. -/
def HoldsEntryOnce (quads : List Quadruple) : Prop :=
  ∀ s, symbolicRun .initial quads = .ok s → ∀ name, ∀ x ∈ quads.map (·.result),
    ∀ y ∈ quads.map (·.result), s x = .initial name → s y = .initial name → x = y

/-- Two names for the value of a node on entry are two results with that value. -/
theorem Dag.Rebuilt.entryOnce {d g : Dag} {ids : List NodeId} (h : Rebuilt d g ids)
    (hbuild : build d.linearize = .ok g) (honce : HoldsEntryOnce d.linearize) : d.EntryOnce := by
  obtain ⟨s, hs, hexpresses⟩ := build_expresses hbuild
  intro id name hvalue
  have hlt := lt_length_of_valueAt? hvalue
  have hwritten : ∀ x ∈ d.keptAt id ++ d.resultsAt id,
      x ∈ d.linearize.map (·.result) ∧ s x = .initial name := by
    intro x hx
    have hresult : x ∈ d.linearize.map (·.result) ∧ d.Owns x id := by
      rcases List.mem_append.1 hx with hmem | hmem
      · exact mem_results_of_mem_keptAt h.coherent hmem
      · exact mem_results_of_mem_resultsAt h.coherent h.listed h.reduced hlt hmem
    -- the node that the name is bound to stands for the same value on entry
    obtain ⟨hlookup, hplace⟩ := h.lookup_eq hresult.1 hresult.2
    obtain ⟨value, hvalue'⟩ := h.exists_valueAt? hplace
    obtain ⟨value', hid, hmatch⟩ := h.value hplace hvalue'
    obtain rfl := Option.some.inj (hvalue.symm.trans hid)
    cases hmatch
    exact ⟨hresult.1, (hexpresses.bound hlookup).unique (.initial hvalue')⟩
  have hnodup := nodup_keptAt_append_resultsAt h.coherent h.reduced hlt
  rcases hlist : d.keptAt id ++ d.resultsAt id with _ | ⟨x, _ | ⟨y, names⟩⟩
  · simp
  · simp
  · rw [hlist] at hwritten hnodup
    obtain ⟨hx, hsx⟩ := hwritten x (by simp)
    obtain ⟨hy, hsy⟩ := hwritten y (by simp)
    obtain rfl := honce s hs name x hx y hy hsx hsy
    simp at hnodup

/-- An optimized block that does not give a value on entry to two names is not changed when it is
optimized again. -/
theorem optimize_optimized {quads out : List Quadruple} (hout : optimize quads = .ok out)
    (honce : HoldsEntryOnce out) : optimize out = .ok out := by
  unfold optimize at hout
  cases hbuild : Dag.build quads with
  | error e => rw [hbuild] at hout; cases hout
  | ok d =>
    rw [hbuild] at hout
    obtain rfl : d.linearize = out := Except.ok.inj hout
    obtain ⟨hd, hlisted, -⟩ := Dag.build_coherent hbuild
    obtain ⟨g, ids, hagain, h⟩ := Dag.exists_rebuilt hd hlisted (Dag.build_reduced hbuild)
    rw [optimize, hagain]
    exact congrArg Except.ok (h.linearize_eq (h.entryOnce hagain honce))

/-- A counter is raised and copied, and the value that it had on entry is kept under one name. -/
theorem optimize_optimized_increment :
    HoldsEntryOnce [.copy "i" "$0", ⟨"+", "$0", "1", "i"⟩, .copy "i" "x"] ∧
      optimize [.copy "i" "$0", ⟨"+", "$0", "1", "i"⟩, .copy "i" "x"] =
        .ok [.copy "i" "$0", ⟨"+", "$0", "1", "i"⟩, .copy "i" "x"] := by
  have hout : optimize [⟨"+", "i", "1", "i"⟩, .copy "i" "x"] =
      .ok [.copy "i" "$0", ⟨"+", "$0", "1", "i"⟩, .copy "i" "x"] := by decide +kernel
  have hvalues : (symbolicRun .initial
      [.copy "i" "$0", ⟨"+", "$0", "1", "i"⟩, .copy "i" "x"]).map (fun s => (s "i", s "x")) =
        .ok (.operation "+" (.initial "i") (.constant 1),
          .operation "+" (.initial "i") (.constant 1)) := by decide +kernel
  have honce : HoldsEntryOnce [.copy "i" "$0", ⟨"+", "$0", "1", "i"⟩, .copy "i" "x"] := by
    intro s hs name x hx y hy hsx hsy
    rw [hs] at hvalues
    obtain ⟨hi, hcopy⟩ := Prod.mk.inj (Except.ok.inj hvalues)
    -- the name that the value on entry is kept under is the only one with such a value
    have honly : ∀ z ∈ ["$0", "i", "x"], s z = .initial name → z = "$0" := by
      intro z hz hsz
      rcases List.mem_cons.1 hz with rfl | hz
      · rfl
      rcases List.mem_cons.1 hz with rfl | hz
      · rw [hi] at hsz
        cases hsz
      · obtain rfl := List.mem_singleton.1 hz
        rw [hcopy] at hsz
        cases hsz
    rw [honly x hx hsx, honly y hy hsy]
  exact ⟨honce, optimize_optimized hout honce⟩

/-- An optimized block may still change when it is optimized again.  The operator that reads `a` is
not computed in the end, so that on the second time `a` is met in a copy first. -/
theorem optimize_not_idempotent :
    ¬ ∀ quads out, optimize quads = .ok out → optimize out = .ok out := by
  intro h
  have honce : optimize [⟨"+", "a", "b", "T"⟩, .copy "a" "x", .copy "a" "y", .copy "1" "T"] =
      .ok [.copy "a" "x", .copy "a" "y", .copy "1" "T"] := by decide +kernel
  have htwice : optimize [.copy "a" "x", .copy "a" "y", .copy "1" "T"] =
      .ok [.copy "a" "x", .copy "x" "y", .copy "1" "T"] := by decide +kernel
  have hsame := Except.ok.inj (htwice.symm.trans (h _ _ honce))
  simp [Quadruple.copy] at hsame

end ArithFrontEnd
