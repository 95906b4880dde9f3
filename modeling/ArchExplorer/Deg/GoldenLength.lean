import ArchExplorer.Deg.MaximalCost
import ArchExplorer.Deg.Profiling
import ArchExplorer.Deg.Window

/-!
# The golden length

A run on a trace that is shorter than the window analyzes the whole graph once. If the completions
are dated by `complete`, some dependence has a cost and no edge goes back in time, the analysis
succeeds: its path leads from the first fetch to the last commit, and its length is the time between
the two, all of which is charged to bottlenecks.
-/

namespace ArchExplorer.Deg

open ArchExplorer.Lib

variable {insts instWindow : List RiscvInstruction} {s s' : O3Graph} {u v : Vertex}
  {e : OutgoingEdge}
  {rest trace : List TraceLine} {fuel : ℕ}

/-- What an analysis yields unless an edge goes back in time. -/
structure Succeeds (insts : List RiscvInstruction) (s : O3Graph) (a : Analysis) : Prop where
  path : CriticalPath insts s a.path
  profile : AllEdges insts Forward s → ∀ source sink, a.path.head? = some source →
    a.path.getLast? = some sink → Profile source sink a.report

/-- With enough fuel the longest path is found and all of its edges are there. -/
lemma longestPath_wp (h : Ready insts s) (hu : Owned insts u) (hjoined : s.Joined u v)
    (hpos : 0 < s.cost u v) (hfuel : 13 * (insts.length + 1) < fuel) :
    (longestPath fuel).wp
      (fun path s' => Evolves insts VirtualEdge True s s' ∧ CriticalPath insts s' path ∧
        IsPath insts s' path)
      (fun _ _ => False) s := by
  have hn := h.numbered
  rw [longestPath, Exec.wp_bind]
  refine (longestPathImpl_wp hfuel h hu hjoined hpos
    ((h.good.card_verts_le hn).trans_lt hfuel)).mono ?_ fun _ _ h => h
  rintro path s₁ ⟨hev, hpath⟩
  obtain ⟨source, hsource, hhead⟩ := hpath.source
  have hp : IsPath insts s₁ path := by
    refine ⟨?_, hpath.isChain⟩
    cases path with
    | nil => cases hhead
    | cons x path =>
      obtain rfl : x = source := by simpa using hhead
      exact (hev.good hn h.good).owned_of_isChain hsource.owned hpath.isChain
  rw [Exec.wp_bind]
  refine (pathEdges_wp hn hp .refl).mono ?_ fun _ _ h => h
  intro _ s₂ hreads
  -- reading the path has not changed the edges
  have hchain := Evolves.isChain hn hreads hp.owned hp.isChain
  rw [Exec.wp_pure]
  exact ⟨hev.trans (Evolves.mono hreads (fun _ _ h => h.elim) id),
    ⟨hchain, hpath.source, hpath.sink⟩, hp.owned, hchain⟩

/-- The analysis of a graph with a costly dependence can fail only if an edge goes back in time. -/
lemma analyzeWindow_wp (h : Built False insts instWindow rest s) (ht : ∀ inst ∈ insts, Timed inst)
    (hu : Owned insts u) (he : e ∈ s.outgoing u) (hpos : 0 < e.cost)
    (hfuel : 13 * (insts.length + 1) < fuel) :
    (analyzeWindow fuel).wp (fun a s' => Succeeds insts s' a)
      (fun _ s' => ¬AllEdges insts Forward s') s := by
  have hn := h.numbered
  have hnil : insts ≠ [] := List.ne_nil_of_mem hu.1
  rw [analyzeWindow, Exec.wp_bind]
  refine (constructInducedGraph_wp hn h.good h.endsIn).mono ?_ fun _ _ h => h.elim
  intro _ s₁ hev₁
  have hready := h.ready hnil hev₁
  have hjoined : s.Joined u e.child := List.mem_map_of_mem he
  have hcost : 0 < s₁.cost u e.child := by
    rw [hev₁.cost_eq hn hu hjoined]
    rwa [h.cost_eq hu he]
  have hw₁ : AllEdges insts WeightIsTime s₁ := by
    intro w hw e' he'
    rcases hready.kinds w hw e' he' with hk | hk
    · exact hk.weightIsTime (ht w.inst hw.1)
    · exact EdgeKind.weightIsTime (V := True) (.virtual trivial hk.virtual) (ht w.inst hw.1)
  rw [Exec.wp_bind]
  refine (longestPath_wp hready hu (hev₁.joined hn hu hjoined) hcost hfuel).mono ?_
    fun _ _ h => h.elim
  rintro path s₂ ⟨hev₂, hpath, hp⟩
  obtain ⟨source, hsource, hhead⟩ := hpath.source
  obtain ⟨sink, hsink, hlast⟩ := hpath.sink
  have hw₂ : AllEdges insts WeightIsTime s₂ := by
    refine hev₂.allEdges hn (fun w e' he' => ?_) hw₁
    cases he'
    rfl
  rw [Exec.wp_bind]
  refine (profilingCriticalPath_wp (hready.toHasChains.evolves hev₂) hp hw₂ hsource hsink hhead
    hlast).mono ?_ ?_
  · rintro r s₃ ⟨hreads, hprofile⟩
    refine ⟨⟨Evolves.isChain hn hreads hp.owned hp.isChain, hpath.source, hpath.sink⟩, ?_⟩
    intro hf source' sink' hhead' hlast'
    obtain rfl : source = source' := by simpa [hhead] using hhead'
    obtain rfl : sink = sink' := by simpa [hlast] using hlast'
    exact hprofile ((hreads.allEdges_iff hn).mp hf)
  · rintro _ s₃ ⟨hreads, hno⟩ hf
    exact hno ((hreads.allEdges_iff hn).mp hf)

/-- On a trace that is shorter than the window, with stores and loads that complete with their
memory access and with a dependence between instructions that has a cost, the run succeeds if no
edge of the graph it builds goes back in time: its only analysis returns a path of the graph from
the first fetch to the last commit whose length is the time between them, and the counters of the
report add up to this length. -/
theorem run_goldenLength (trace : List TraceLine) (w fuel : ℕ) (hne : trace ≠ [])
    (hlt : trace.length < w)
    (hstore : ∀ line ∈ trace, line.isStore = true → line.complete = line.memory)
    (hload : ∀ line ∈ trace, line.isLoad = true → line.complete = line.completeMemory)
    (hcross : ∃ u ∈ ((modelSteps trace.length).run (.init trace)).2.graph.keys,
      ∃ e ∈ ((modelSteps trace.length).run (.init trace)).2.outgoing u,
        u.instSeq ≠ e.child.instSeq ∧ 0 < e.cost)
    (hfuel : 13 * (trace.length + 1) < fuel)
    (hforward : ∀ u ∈ (run w fuel trace).2.o3.graph.keys,
      ∀ e ∈ (run w fuel trace).2.o3.outgoing u, u.timing ≤ e.child.timing) :
    (run w fuel trace).1 = .ok () ∧
    ∃ s a, (run w fuel trace).2.calls = [s] ∧
      (analyzeWindow fuel).run s = (.ok a, (run w fuel trace).2.o3) ∧
      a.path.IsChain (run w fuel trace).2.o3.Joined ∧
      ∃ source sink, a.path.head? = some source ∧ source.type = .f1 ∧ source.instSeq = 1 ∧
        a.path.getLast? = some sink ∧ sink.type = .c ∧ sink.instSeq = trace.length ∧
        a.report.length = delay source.timing sink.timing ∧ a.report.total = a.report.length := by
  obtain ⟨s, hsteps, hb, hrun⟩ := run_of_length_lt hne hlt fuel
  rw [hsteps] at hcross
  obtain ⟨u, hu, e, he, -, hpos⟩ := hcross
  have hlen : (readAll [] trace).length = trace.length := by
    rw [length_readAll, List.length_nil, Nat.zero_add]
  have htimed : ∀ inst ∈ readAll [] trace, Timed inst := by
    intro inst hi
    have hline : inst.toTraceLine ∈ trace := (mem_readAll hi).resolve_left (by simp)
    exact timed_iff.mpr ⟨hstore _ hline, hload _ hline⟩
  rw [← hlen] at hfuel
  have hwp := analyzeWindow_wp hb htimed (hb.good.keys u hu) he hpos hfuel
  -- the edges of the last graph, as the invariant speaks about them
  have hev := analyzeWindow_evolves hb.numbered hb.good (by rw [hb.stream_eq]) fuel
  have hgood := hev.good hb.numbered hb.good
  rw [hrun] at hforward ⊢
  have hall : AllEdges (readAll [] trace) Forward ((analyzeWindow fuel).run s).2 := by
    intro x hx e' he'
    refine hforward x ?_ e' he'
    exact hgood.mem_keys_of_mem_children hb.numbered hx (List.mem_map_of_mem he')
  rcases hanalyze : (analyzeWindow fuel).run s with ⟨error | a, s'⟩ <;>
    rw [Exec.wp, hanalyze] at hwp <;> rw [hanalyze] at hall
  · exact absurd hall hwp
  · obtain ⟨source, hsource, hhead⟩ := hwp.path.source
    obtain ⟨sink, hsink, hlast⟩ := hwp.path.sink
    have hprofile := hwp.profile hall source sink hhead hlast
    exact ⟨rfl, s, a, rfl, hanalyze, hwp.path.isChain, source, sink, hhead, hsource.type_eq,
      hsource.instSeq_eq, hlast, hsink.type_eq, hsink.instSeq_eq.trans hlen, hprofile.length_eq,
      hprofile.total_eq⟩

/-- Two additions, the second of which needs the result of the first one. -/
theorem run_goldenLength_two :
    (run window 100 [addAt 1 [1] 5, addAt 4 [5] 6]).1 = .ok () :=
  (run_goldenLength [addAt 1 [1] 5, addAt 4 [5] 6] window 100 (by simp) (by decide) (by decide)
    (by decide) (by decide +kernel) (by decide) (by decide +kernel)).1

end ArchExplorer.Deg
