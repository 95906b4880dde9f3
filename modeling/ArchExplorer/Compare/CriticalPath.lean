import ArchExplorer.Deg.GoldenLength
import ArchExplorer.Core.GoldenLength

/-!
# The existence of a critical path

The path is read off the distances while they are positive, in both backends. It has a first and a
last vertex only if some dependence between instructions takes time, so that the completion of an
empty path fails on a single instruction, or on a program without dependences.
-/

namespace ArchExplorer.Deg

open ArchExplorer.Lib

variable {insts window : List RiscvInstruction} {s s' : O3Graph} {rest : List TraceLine} {fuel : ℕ}

/-- Some dependence between instructions takes time. -/
def O3Graph.Costly (s : O3Graph) : Prop :=
  ∃ u ∈ s.graph.keys, ∃ e ∈ s.outgoing u, u.instSeq ≠ e.child.instSeq ∧ 0 < e.cost

/-- The core of the longest path is not empty, and it is completed to a path from the fetch of the
first to the commit of the last of `n` instructions. -/
structure FindsPath (fuel n : ℕ) (s : O3Graph) : Prop where
  core : ∃ core s', (longestPathCore fuel).run s = (.ok core, s') ∧ core ≠ []
  path : ∃ path s', (longestPath fuel).run s = (.ok path, s') ∧ path.IsChain s'.Joined ∧
    (∃ u, path.head? = some u ∧ u.type = .f1 ∧ u.instSeq = 1) ∧
    ∃ v, path.getLast? = some v ∧ v.type = .c ∧ v.instSeq = n

section Induced

variable (h : Built False insts window rest s)
  (hev : Evolves insts (InducedEdge insts (·.type ≠ .c)) False s s') (hne : insts ≠ [])
  (hfuel : 13 * (insts.length + 1) < fuel)
include h hev hne hfuel

lemma Built.findsPath (hcostly : s.Costly) : FindsPath fuel insts.length s' := by
  obtain ⟨u, hu, e, he, -, hpos⟩ := hcostly
  have hn := h.numbered
  have hready := h.ready hne hev
  have hown := h.good.keys u hu
  have hjoined : s.Joined u e.child := List.mem_map_of_mem he
  have hjoined' := hev.joined hn hown hjoined
  have hcost : 0 < s'.cost u e.child := by rwa [hev.cost_eq hn hown hjoined, h.cost_eq hown he]
  have hcard := (hready.good.card_verts_le hn).trans_lt hfuel
  constructor
  · obtain ⟨core, s₁, hrun, -, hcore⟩ := (longestPathCore_wp hn hready.good hready.tight
      (fun u hu => hready.cost_nonneg hu) hown hjoined' hcost hcard hfuel).returns
    obtain ⟨_, _, _, rfl, -⟩ := hcore.first
    exact ⟨_, s₁, hrun, List.cons_ne_nil _ _⟩
  · obtain ⟨path, s₁, hrun, -, hpath, -⟩ :=
      (longestPath_wp hready hown hjoined' hcost hfuel).returns
    obtain ⟨source, hsource, hhead⟩ := hpath.source
    obtain ⟨sink, hsink, hlast⟩ := hpath.sink
    exact ⟨path, s₁, hrun, hpath.isChain,
      ⟨source, hhead, hsource.type_eq, hsource.instSeq_eq⟩,
      sink, hlast, hsink.type_eq, hsink.instSeq_eq⟩

/-- If no dependence takes time, all distances are zero and the core is empty. -/
lemma Built.core_eq_nil (hfree : ¬s.Costly) :
    ∃ s₁, (longestPathCore fuel).run s' = (.ok [], s₁) := by
  have hn := h.numbered
  have hready := h.ready hne hev
  have hzero (u v : Vertex) (hu : Owned insts u) : ¬0 < s'.cost u v := by
    intro hpos
    rcases hready.cost_cases hu v with hzero | ⟨e, he, rfl, hcost, hc⟩
    · exact absurd hpos (by rw [hzero]; exact lt_irrefl _)
    · obtain ⟨es, hes, hnew⟩ := hev.outgoing hn hu
      rw [hes] at he
      rcases List.mem_append.mp he with he | he
      · have hkey := h.good.mem_keys_of_mem_children hn hu (List.mem_map_of_mem he)
        exact hfree ⟨u, hkey, e, he, hc.instSeq_lt.ne, hcost ▸ hpos⟩
      · rw [hcost, (hnew e he).virtual.cost_eq] at hpos
        exact absurd hpos (lt_irrefl _)
  obtain ⟨inst, hi⟩ := List.exists_mem_of_ne_nil insts hne
  have hown : Owned insts (completeStage inst) := .of_mem hi completeStage_mem
  have hkey := hready.good.mem_keys_of_mem_children hn hown
    (List.mem_map_of_mem (hready.hasNext _ hown _ nextStage_completeStage))
  obtain ⟨core, s₁, hrun, -, topo, dist, htopo, hfilled, hcore⟩ := (longestPathCore_extracted hn
    hready.good hready.tight (fun u hu => hready.cost_nonneg hu) hkey
    ((hready.good.card_verts_le hn).trans_lt hfuel) hfuel).returns
  cases hcore with
  | free _ => exact ⟨s₁, hrun⟩
  | path hback hpos _ hfirst hcore =>
    obtain ⟨u, w, r, rfl, -, hcost⟩ :=
      (hfilled.core hn hready.good htopo hback hpos hfirst hcore).first
    exact absurd hcost (hzero u w ((hfilled.core hn hready.good htopo hback hpos hfirst
      hcore).owned u List.mem_cons_self))

lemma Built.findsPath_iff_costly : FindsPath fuel insts.length s' ↔ s.Costly := by
  refine ⟨fun hfinds => ?_, h.findsPath hev hne hfuel⟩
  by_contra hfree
  obtain ⟨core, s₁, hrun, hcore⟩ := hfinds.core
  obtain ⟨s₂, hrun'⟩ := h.core_eq_nil hev hne hfuel hfree
  rw [hrun'] at hrun
  cases hrun
  exact hcore rfl

end Induced

end ArchExplorer.Deg

namespace ArchExplorer.Core

open ArchExplorer.Lib

variable {insts : List RiscvInstruction} {first last : RiscvInstruction} {s s' : Graph}

/-- Some dependence between instructions takes time. -/
def Graph.Costly (s : Graph) : Prop := ∃ e ∈ s.skewEdges, 0 < e.cost

/-- The core of the critical path is not empty, and it is completed to a path from the fetch of the
first to the commit of the last of `n` instructions. -/
structure FindsPath (nx : Networkx) (n : ℕ) (s : Graph) : Prop where
  core : ∃ core, dagLongestPath nx s = .ok core ∧ core ≠ []
  path : ∃ path s', (longestPath nx).run s = (.ok (), s') ∧ s'.criticalPath = some path ∧
    s'.graph.IsPath (uniqueName 1 .f1) (uniqueName n .commit) path

section Induced

variable (nx : Networkx) (h : Modelled False insts s) (hgrown : Grown False insts s s')
  (hp : Paced s'.graph)

include h hgrown in
/-- The analysis adds no edge that takes time. -/
lemma Grown.costly_iff :
    (∃ k e, s'.graph.edges.get? k = some e ∧ 0 < e.cost) ↔ s.Costly := by
  constructor
  · rintro ⟨k, e, hk, hpos⟩
    rcases hgrown.new hk with hk | hzero
    · refine ⟨e, mem_skewEdges.mpr ⟨⟨k, hk⟩, fun hseq => ?_⟩, hpos⟩
      exact hpos.ne' ((h.linked.edge hk).2.2.within hseq)
    · exact absurd hzero hpos.ne'
  · rintro ⟨e, he, hpos⟩
    obtain ⟨⟨k, hk⟩, -⟩ := mem_skewEdges.mp he
    exact ⟨k, e, hgrown.kept hk, hpos⟩

include hgrown hp in
/-- The core is read off the distances of a graph that has nodes. -/
lemma Grown.extracted (hfirst : insts.getLast? = some first) :
    ∃ core, dagLongestPath nx s' = .ok core ∧ Extracted s'.graph core := by
  have hkey : (nodeF1 first).name ∈ s'.graph.nodes.keys := Dict.mem_keys_of_get?
    (hgrown.modelled.located.found first (List.mem_of_getLast? hfirst) _ nodeF1_mem)
  exact dagLongestPath_returns nx hgrown.modelled hp (List.ne_nil_of_mem hkey)

include h hgrown hp in
/-- If no dependence takes time, the core is empty. -/
lemma Grown.core_eq_nil (hfirst : insts.getLast? = some first) (hfree : ¬s.Costly) :
    dagLongestPath nx s' = .ok [] := by
  obtain ⟨core, hcore, hextracted⟩ := hgrown.extracted nx hp hfirst
  cases hextracted with
  | free _      => exact hcore
  | core hpos _ => exact absurd ((hgrown.costly_iff h).mp hpos) hfree

include h hgrown hp in
lemma Grown.findsPath_iff_costly (hd : Descending insts) (hfirst : insts.getLast? = some first)
    (hlast : insts.head? = some last) (hone : first.seq = 1)
    (hcount : s.bottleneck = constructBottleneck) :
    FindsPath nx last.seq s' ↔ s.Costly := by
  constructor
  · rintro ⟨⟨core, hcore, hne⟩, -⟩
    by_contra hfree
    rw [hgrown.core_eq_nil nx h hp hfirst hfree] at hcore
    cases hcore
    exact hne rfl
  · rw [← hgrown.costly_iff h]
    intro hpos
    obtain ⟨core, hcore, hextracted⟩ := hgrown.extracted nx hp hfirst
    obtain ⟨path, s₁, hrun, hgrown₁, hpath⟩ :=
      longestPathImpl_returns nx hgrown.modelled hp hd hfirst hlast hpos
    have hb : Counted s₁.bottleneck := by
      rw [hgrown₁.bottleneck_eq, hgrown.bottleneck_eq, hcount]
      exact counted_constructBottleneck
    obtain ⟨d, haccumulate, -⟩ :=
      accumulate_returns { s₁ with criticalPath := some path } path hb hpath.chain
    refine ⟨⟨core, hcore, ?_⟩, path, { s₁ with criticalPath := some path, bottleneck := d }, ?_,
      rfl, ?_⟩
    · cases hextracted with
      | core _ hcore => exact hcore.ne_nil
      | free hfree   =>
        obtain ⟨k, e, hk, hcost⟩ := hpos
        exact absurd hcost (not_lt.mpr (hfree k e hk))
    · rw [longestPath, Exec.run_bind_ok hrun, Exec.run_bind_ok (Exec.run_modify _ s₁)]
      exact haccumulate
    · have hends : uniqueName 1 .f1 = (nodeF1 first).name := by rw [Node.name, ← hone]; rfl
      rw [hends]
      exact hpath

end Induced

end ArchExplorer.Core

namespace ArchExplorer.Compare

open ArchExplorer.Lib

/-- In both backends a critical path is found for exactly those traces in which some dependence
between instructions takes time: the induced graph of the C++ backend, and that of the Python
backend for all virtual edges that its threads may have added. -/
theorem findsPath_iff (trace : List Deg.TraceLine) (hne : trace ≠ []) (nx : Core.Networkx)
    (trace' : List Core.TraceLine) (hne' : trace' ≠ []) :
    (∃ s s₁, (Deg.modelSteps trace.length).run (.init trace) = (.ok (), s) ∧
      Deg.constructInducedGraph.run s = (.ok (), s₁) ∧
      ∀ fuel, 13 * (trace.length + 1) < fuel →
        (Deg.FindsPath fuel trace.length s₁ ↔ s.Costly)) ∧
    ∃ g threads, (Core.constructGraph trace').run .init = (.ok (), g) ∧
      g.virtualEdgeCalls = .ok threads ∧
      ∀ calls ⊆ threads, ∃ g₁, (Core.constructInducedGraph calls).run g = (.ok (), g₁) ∧
        (Core.FindsPath nx trace'.length g₁ ↔ g.Costly) := by
  constructor
  · obtain ⟨s, hrun, h⟩ := (Deg.Built.init (V := False) trace).modelSteps trace.length
    obtain ⟨_, s₁, hrun₁, hev⟩ :=
      (Deg.constructInducedGraph_wp h.numbered h.good h.endsIn).returns
    refine ⟨s, s₁, hrun, hrun₁, fun fuel hfuel => ?_⟩
    have hlen : (Deg.readAll [] (trace.take trace.length)).length = trace.length := by
      rw [List.take_length, Deg.length_readAll, List.length_nil, Nat.zero_add]
    have hnil : Deg.readAll [] (trace.take trace.length) ≠ [] := by
      rw [← List.length_pos_iff, hlen, List.length_pos_iff]
      exact hne
    rw [← hlen] at hfuel
    have hiff := h.findsPath_iff_costly hev hnil hfuel
    rwa [hlen] at hiff
  · obtain ⟨g, hrun, hg⟩ := Core.constructGraph_returns trace'
    have hd := Core.descending_stream trace'
    have hnil : (Core.instructionStream trace').reverse ≠ [] := by
      rw [Ne, List.reverse_eq_nil_iff, ← List.length_eq_zero_iff]
      simpa [Core.instructionStream] using hne'
    obtain ⟨threads, hthreads, hlinkable⟩ := hg.virtualEdgeCalls hd hnil
    obtain ⟨first, hfirst, hone⟩ := Core.getLast?_stream hnil
    obtain ⟨last, hlast, hlen⟩ := Core.head?_stream hnil
    have hm := hg.modelled (T := False) False.elim hd
    refine ⟨g, threads, hrun, hthreads, fun calls hcalls => ?_⟩
    obtain ⟨g₁, hrun₁, hgrown, hp⟩ := Core.constructInducedGraph_returns
      (fun c hc => hlinkable c (hcalls hc)) hm (hg.paced hd)
    refine ⟨g₁, hrun₁, ?_⟩
    rw [← hlen]
    exact hgrown.findsPath_iff_costly nx hm hp hd hfirst hlast hone hg.bottleneck_eq

/-- Two dependent additions, and a mispredicted branch. -/
theorem findsPath_iff_two :
    (∃ s, Deg.FindsPath 100 2 s) ∧ ∃ g, Core.FindsPath .choice 2 g := by
  obtain ⟨⟨s, s₁, hrun, -, hs⟩, g, threads, hrun', -, hg⟩ :=
    findsPath_iff [Deg.addAt 1 [1] 5, Deg.addAt 4 [5] 6] (by simp) .choice Core.branchTrace
      (by simp [Core.branchTrace])
  have hcostly : ((Deg.modelSteps 2).run
      (.init [Deg.addAt 1 [1] 5, Deg.addAt 4 [5] 6])).2.Costly := by
    unfold Deg.O3Graph.Costly
    decide +kernel
  have hcostly' : ((Core.constructGraph Core.branchTrace).run .init).2.Costly := by
    unfold Core.Graph.Costly
    decide +kernel
  change (Deg.modelSteps 2).run _ = _ at hrun
  rw [hrun] at hcostly
  rw [hrun'] at hcostly'
  obtain ⟨g₁, -, hfinds⟩ := hg threads (List.Subset.refl _)
  exact ⟨⟨s₁, (hs 100 (by decide)).mpr hcostly⟩, g₁, hfinds.mpr hcostly'⟩

/-- On a single addition both backends read off an empty core, whose first vertex does not exist. -/
theorem findsPath_single :
    (∃ s, s = (Deg.constructInducedGraph.run
        ((Deg.modelSteps 1).run (.init [Deg.addAt 1 [1] 5])).2).2 ∧
      ((Deg.longestPathCore 40).run s).1 = .ok [] ∧
      ((Deg.longestPath 40).run s).1 = .error .outOfBounds) ∧
    ∃ g, (Core.constructGraph [Core.lineAt 0 "add" "IntAlu"]).run .init = (.ok (), g) ∧
      g.virtualEdgeCalls = .ok [] ∧
      ∀ nx, Core.dagLongestPath nx g = .ok [] ∧
        ((Core.longestPath nx).run g).1 = .error (.indexError "list index out of range") := by
  constructor
  · exact ⟨_, rfl, by decide +kernel, by decide +kernel⟩
  · obtain ⟨g, hrun, hg⟩ := Core.constructGraph_returns [Core.lineAt 0 "add" "IntAlu"]
    have hd := Core.descending_stream [Core.lineAt 0 "add" "IntAlu"]
    have hm := hg.modelled (T := False) False.elim hd
    have hfree : ¬((Core.constructGraph [Core.lineAt 0 "add" "IntAlu"]).run .init).2.Costly := by
      unfold Core.Graph.Costly
      decide +kernel
    have hcalls : ((Core.constructGraph [Core.lineAt 0 "add" "IntAlu"]).run
        .init).2.virtualEdgeCalls = .ok [] := by
      decide +kernel
    rw [hrun] at hfree hcalls
    refine ⟨g, hrun, hcalls, fun nx => ?_⟩
    have hcore : Core.dagLongestPath nx g = .ok [] :=
      (Core.Grown.refl hm).core_eq_nil nx hm (hg.paced hd) rfl hfree
    refine ⟨hcore, ?_⟩
    have himpl : (Core.longestPathImpl nx).run g =
        (.error (.indexError "list index out of range"), g) := by
      rw [Core.longestPathImpl, Exec.run_bind_ok (Exec.run_get g), hcore]
      rfl
    rw [Core.longestPath, Exec.run_bind_error himpl]

end ArchExplorer.Compare
