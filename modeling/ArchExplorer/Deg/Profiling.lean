import ArchExplorer.Deg.CriticalPath
import ArchExplorer.Deg.WeightIsTime

/-!
# Profiling the critical path

Every edge of a path in the graph is charged to one bottleneck. If the weights are elapsed times and
no edge goes back in time, they add up to the time between the two ends, which is what the profiler
asserts.
-/

namespace ArchExplorer.Deg

open ArchExplorer.Lib

variable {insts : List RiscvInstruction} {s s' s₁ : O3Graph} {u v : Vertex} {e : OutgoingEdge}
  {path : List Vertex}

/-- The weight of the first edge from `u` to `v`. -/
def O3Graph.weight (s : O3Graph) (u v : Vertex) : Latency :=
  ((s.outgoing u).find? (·.child = v)).elim 0 (·.weight)

/-- A path of stages of the trace. -/
structure IsPath (insts : List RiscvInstruction) (s : O3Graph) (path : List Vertex) : Prop where
  owned : ∀ v ∈ path, Owned insts v
  isChain : path.IsChain s.Joined

lemma IsPath.tail (h : IsPath insts s (u :: path)) : IsPath insts s path :=
  ⟨fun v hv => h.owned v (List.mem_cons_of_mem _ hv), h.isChain.tail⟩

section Walk

variable (hn : Numbered insts)
include hn

/-- Looking up the edge of a step. -/
lemma IsPath.getOutgoingEdge_wp (h : IsPath insts s (u :: v :: path)) (hreads : Reads insts s s₁) :
    (getOutgoingEdge u v).wp
      (fun e s' => s.weight u v = e.weight ∧ Reads insts s s') (fun _ _ => False) s₁ := by
  have hu := h.owned u List.mem_cons_self
  have hjoined := (hreads.joined_iff hn hu).mpr (List.isChain_cons_cons.mp h.isChain).1
  refine (Deg.getOutgoingEdge_wp hjoined).mono ?_ fun _ _ h => h
  rintro e _ ⟨he, rfl⟩
  rw [hreads.outgoing hn hu] at he
  refine ⟨?_, hreads.trans (Reads.touchGraph hu)⟩
  rw [O3Graph.weight, he]
  rfl

lemma pathEdges_wp (h : IsPath insts s path) (hreads : Reads insts s s₁) :
    (pathEdges path).wp (fun _ s' => Reads insts s s') (fun _ _ => False) s₁ := by
  induction path generalizing s₁ with
  | nil => exact hreads
  | cons u path ih =>
    cases path with
    | nil => exact hreads
    | cons v path =>
      rw [pathEdges, Exec.wp_bind]
      refine (h.getOutgoingEdge_wp hn hreads).mono ?_ fun _ _ h => h
      rintro e s₂ ⟨-, hreads₂⟩
      rw [Exec.wp_bind]
      exact (ih h.tail hreads₂).mono (fun _ _ h => h) fun _ _ h => h

/-- The counters and the length grow by the weights of the path. -/
lemma profileLoop_wp (h : IsPath insts s path) (hreads : Reads insts s s₁)
    (report : BottleneckReport) (length : Latency) :
    (profileLoop path report length).wp
      (fun r s' => Reads insts s s' ∧ r.1.total = report.total + walkSum s.weight path ∧
        r.2 = length + walkSum s.weight path)
      (fun _ _ => False) s₁ := by
  induction path generalizing s₁ report length with
  | nil => exact ⟨hreads, (add_zero _).symm, (add_zero _).symm⟩
  | cons u path ih =>
    cases path with
    | nil => exact ⟨hreads, (add_zero _).symm, (add_zero _).symm⟩
    | cons v path =>
      rw [profileLoop, Exec.wp_bind]
      refine (h.getOutgoingEdge_wp hn hreads).mono ?_ fun _ _ h => h
      rintro e s₂ ⟨hweight, hreads₂⟩
      rw [matchName_repr]
      refine (ih h.tail hreads₂ _ _).mono ?_ fun _ _ h => h
      rintro r s₃ ⟨hreads₃, htotal, hlength⟩
      refine ⟨hreads₃, ?_, ?_⟩
      · rw [htotal, BottleneckReport.total_incr, walkSum_cons_cons, hweight, add_assoc]
      · rw [hlength, walkSum_cons_cons, hweight, add_assoc]

lemma reportEdges_wp (h : IsPath insts s path) (hreads : Reads insts s s₁) :
    (reportEdges path).wp (fun _ s' => Reads insts s s') (fun _ _ => False) s₁ := by
  induction path generalizing s₁ with
  | nil => exact hreads
  | cons u path ih =>
    cases path with
    | nil => exact hreads
    | cons v path =>
      rw [reportEdges, Exec.wp_bind]
      refine (h.getOutgoingEdge_wp hn hreads).mono ?_ fun _ _ h => h
      rintro e s₂ ⟨-, hreads₂⟩
      rw [Exec.wp_bind]
      exact (ih h.tail hreads₂).mono (fun _ _ h => h) fun _ _ h => h

end Walk

/-- Every registered name has its row. -/
lemma reportBottlenecks_ok (report : BottleneckReport) :
    ∃ rows, reportBottlenecks report registerBottlenecks = .ok rows := by
  have hrows (bs : List Bottleneck) :
      ∃ rows, reportBottlenecks report (bs.map Bottleneck.repr) = .ok rows := by
    induction bs with
    | nil => exact ⟨[], rfl⟩
    | cons b bs ih =>
      obtain ⟨rows, hrows⟩ := ih
      refine ⟨(b.repr, report.get b) :: rows, ?_⟩
      rw [reportBottlenecks] at hrows ⊢
      rw [List.map_cons, List.mapM_cons, hrows, matchName_repr]
      rfl
  exact hrows Bottleneck.all

lemma generateReport_wp (hn : Numbered insts) (h : IsPath insts s path)
    (hreads : Reads insts s s₁) (report : BottleneckReport) :
    (generateReport report path).wp (fun _ s' => Reads insts s s') (fun _ _ => False) s₁ := by
  rw [generateReport, Exec.wp_bind]
  refine (reportEdges_wp hn h hreads).mono ?_ fun _ _ h => h
  intro rows s₂ hreads₂
  obtain ⟨bottlenecks, hok⟩ := reportBottlenecks_ok report
  rw [hok, Exec.wp_bind]
  exact hreads₂

/-! ### The golden length -/

/-- The edge does not go back in time. -/
def Forward (u : Vertex) (e : OutgoingEdge) : Prop := u.timing ≤ e.child.timing

lemma delay_of_le {a b : UInt64} (h : a ≤ b) : delay a b = (b.toNat : ℤ) - a.toNat := by
  have hle : a.toNat ≤ b.toNat := UInt64.le_iff_toNat_le.mp h
  rw [delay, UInt64.toNat_sub_of_le b a h]
  exact Int.ofNat_sub hle

lemma Reads.allEdges_iff {R : Vertex → OutgoingEdge → Prop} (hn : Numbered insts)
    (h : Reads insts s s') : AllEdges insts R s' ↔ AllEdges insts R s := by
  constructor
  · intro hall u hu e he
    exact hall u hu e (by rwa [h.outgoing hn hu])
  · intro hall u hu e he
    exact hall u hu e (by rwa [h.outgoing hn hu] at he)

/-- The time that a step takes. -/
lemma weight_eq_sub (hw : AllEdges insts WeightIsTime s) (hf : AllEdges insts Forward s)
    (hu : Owned insts u) (h : s.Joined u v) :
    s.weight u v = (v.timing.toNat : ℤ) - u.timing.toNat := by
  obtain ⟨e, _, -, hfind, -⟩ := (getOutgoingEdge_wp h).returns
  have hmem := List.mem_of_find?_eq_some hfind
  have hchild := List.find?_some hfind
  rw [decide_eq_true_eq] at hchild
  subst hchild
  rw [O3Graph.weight, hfind, Option.elim_some, hw u hu e hmem]
  exact delay_of_le (hf u hu e hmem)

/-- The weights of a path add up to the time between its ends. -/
lemma IsPath.walkSum_eq (hp : IsPath insts s path)
    (hw : AllEdges insts WeightIsTime s) (hf : AllEdges insts Forward s) {source sink : Vertex}
    (hsource : path.head? = some source) (hsink : path.getLast? = some sink) :
    walkSum s.weight path = delay source.timing sink.timing := by
  cases path with
  | nil => cases hsource
  | cons x path =>
    obtain rfl : x = source := by simpa using hsource
    have hsteps : (x :: path).IsChain fun u v =>
        s.weight u v = (v.timing.toNat : ℤ) - u.timing.toNat :=
      hp.isChain.imp_of_mem_imp fun u v hu _ huv => weight_eq_sub hw hf (hp.owned u hu) huv
    have hle : x.timing ≤ sink.timing := by
      apply UInt64.le_iff_toNat_le.mpr
      refine le_of_isChain (t := fun v => v.timing.toNat) ?_ hsink
      refine hp.isChain.imp_of_mem_imp fun u v hu _ huv => ?_
      obtain ⟨e, he, rfl⟩ := List.mem_map.mp huv
      exact UInt64.le_iff_toNat_le.mp (hf u (hp.owned u hu) e he)
    rw [delay_of_le hle]
    exact walkSum_telescope (t := fun v => (v.timing.toNat : ℤ)) hsteps hsink

/-- What the profiler reports on a path that takes the time between its ends. -/
structure Profile (source sink : Vertex) (report : BottleneckReport) : Prop where
  length_eq : report.length = delay source.timing sink.timing
  total_eq : report.total = report.length

/-- The assertion of the profiler can fail only if an edge goes back in time. -/
lemma profilingCriticalPath_wp (h : HasChains insts s) (hp : IsPath insts s path)
    (hw : AllEdges insts WeightIsTime s) {source sink : Vertex} (hsource : IsSource insts source)
    (hsink : IsSink insts sink) (hhead : path.head? = some source)
    (hlast : path.getLast? = some sink) :
    (profilingCriticalPath path).wp
      (fun r s' => Reads insts s s' ∧ (AllEdges insts Forward s → Profile source sink r.1))
      (fun _ s' => Reads insts s s' ∧ ¬AllEdges insts Forward s) s := by
  have hn := h.numbered
  rw [profilingCriticalPath, Exec.wp_bind]
  refine (profileLoop_wp hn hp .refl {} 0).mono ?_ fun _ _ h => h.elim
  rintro ⟨report, length⟩ s₁ ⟨hreads, htotal, hlength⟩
  rw [BottleneckReport.total_default, zero_add] at htotal
  rw [zero_add] at hlength
  rw [Exec.wp_bind]
  refine (getSinkVertex_wp (h.evolves hreads)).mono ?_ fun _ _ h => h.elim
  rintro sink' s₂ ⟨hsink', rfl⟩
  rw [Exec.wp_bind]
  refine (getSourceVertex_wp (h.evolves hreads)).mono ?_ fun _ _ h => h.elim
  rintro source' s₃ ⟨hsource', rfl⟩
  -- the two ends are the ends of the path
  obtain rfl : sink' = sink := hsink'.owned.eq hn hsink.owned
    (hsink'.type_eq.trans hsink.type_eq.symm) (hsink'.instSeq_eq.trans hsink.instSeq_eq.symm)
  obtain rfl : source' = source := hsource'.owned.eq hn hsource.owned
    (hsource'.type_eq.trans hsource.type_eq.symm)
    (hsource'.instSeq_eq.trans hsource.instSeq_eq.symm)
  have hgolden (hf : AllEdges insts Forward s) : delay source'.timing sink'.timing = length :=
    (hp.walkSum_eq hw hf hhead hlast).symm.trans hlength.symm
  dsimp only
  split_ifs with hne
  · exact ⟨hreads, fun hf => hne (hgolden hf)⟩
  · rw [Exec.wp_bind]
    refine (generateReport_wp hn hp hreads _).mono ?_ fun _ _ h => h.elim
    intro file s₄ hreads₄
    refine ⟨hreads₄, fun hf => ⟨(hgolden hf).symm, ?_⟩⟩
    exact htotal.trans hlength.symm

end ArchExplorer.Deg
