import ArchExplorer.Lib.Scan
import ArchExplorer.Deg.Induced
import ArchExplorer.Deg.Window

/-!
# The virtual edges

Each of the two passes that construct the induced graph connects the ends of the edges between
instructions to the next tails of such edges: to all of those that are next in time, and to the one
that is next in program order. The passes search from the current position of an ordered map on and
stop at the first entry that fails; no candidate is missed, because an edge leads neither backwards
in time nor to an earlier instruction.
-/

namespace ArchExplorer.Deg

open ArchExplorer.Lib

variable {s s' : O3Graph} {u v w : Vertex} {e : OutgoingEdge}

/-! ### What the passes are for -/

/-- `e` leads from `u` to another instruction. -/
def O3Graph.Cross (s : O3Graph) (u : Vertex) (e : OutgoingEdge) : Prop :=
  u ∈ s.graph.keys ∧ e ∈ s.outgoing u ∧ u.instSeq ≠ e.child.instSeq

/-- An edge to another instruction starts at `u`. -/
def O3Graph.Tail (s : O3Graph) (u : Vertex) : Prop := ∃ e, s.Cross u e

/-- An edge between instructions starts or ends at `v`. -/
def O3Graph.Endpoint (s : O3Graph) (v : Vertex) : Prop :=
  ∃ u e, s.Cross u e ∧ (v = u ∨ v = e.child)

/-- `w` belongs to a later instruction than `v` and is not earlier in time. -/
def Later (v w : Vertex) : Prop := v.timing ≤ w.timing ∧ v.instSeq < w.instSeq

instance : Decidable (Later v w) := inferInstanceAs (Decidable (_ ∧ _))

/-- `w` is one of the vertices in `T` that are next to `v` in time. -/
def TimingNext : (Vertex → Prop) → Vertex → Vertex → Prop :=
  Scan.Nearest Later fun w w' => w.timing ≤ w'.timing

/-- `w` is the vertex in `T` that is next to `v` in program order. -/
def InstSeqNext : (Vertex → Prop) → Vertex → Vertex → Prop :=
  Scan.Nearest Later fun w w' =>
    w.instSeq < w'.instSeq ∨ w.instSeq = w'.instSeq ∧ w.timing ≤ w'.timing

/-- Of the vertices in `T`, `v` has the first stage of its instruction and its time. -/
def Leads : (Vertex → Prop) → Vertex → Prop :=
  Scan.First (fun u v => u.instSeq = v.instSeq ∧ u.timing = v.timing)
    fun u v => u.type.num ≤ v.type.num

/-- An edge from another instruction ends at `v`. -/
def O3Graph.Head (s : O3Graph) (v : Vertex) : Prop := ∃ u e, s.Cross u e ∧ v = e.child

/-- The ordered maps compare the tails by their instructions and times, and of the tails that they
do not tell apart they keep the one that comes first in the graph. -/
def O3Graph.Kept (s : O3Graph) : Vertex → Prop := Leads s.Tail

/-- A vertex from which the passes search. -/
def O3Graph.Source (s : O3Graph) (v : Vertex) : Prop := s.Kept v ∨ s.Head v

/-- The graph has a vertex `v`. -/
def O3Graph.Mentions (s : O3Graph) (v : Vertex) : Prop :=
  v ∈ s.graph.keys ∨ ∃ u, v ∈ s.children u

/-- A vertex is known by its stage and its instruction. -/
def O3Graph.Coherent (s : O3Graph) : Prop :=
  ∀ u v, s.Mentions u → s.Mentions v → vertexCompare u v = .eq → u = v

/-- The edges between instructions lead to later instructions and not backwards in time. -/
def O3Graph.Forward (s : O3Graph) : Prop :=
  ∀ u e, s.Cross u e → u.instSeq < e.child.instSeq ∧ u.timing ≤ e.child.timing

/-- The tails of an instruction differ in their times. -/
def O3Graph.DistinctTails (s : O3Graph) : Prop :=
  ∀ u v, s.Tail u → s.Tail v → u.instSeq = v.instSeq → u.timing = v.timing → u = v

/-- The virtual edge from `v` to `w`. -/
def virtualEdge (v w : Vertex) : OutgoingEdge := ⟨w, delay v.timing w.timing, 0, .virtual⟩

/-- The edges of `s'` are those of `s`, and behind them a virtual edge for each pair in `R` that
was not joined before. -/
def AddsExactly (R : Vertex → Vertex → Prop) (s s' : O3Graph) : Prop :=
  ∀ v, s.Mentions v → ∃ es, s'.outgoing v = s.outgoing v ++ es ∧ es.Nodup ∧
    ∀ e, e ∈ es ↔ ∃ w, R v w ∧ w ∉ s.children v ∧ e = virtualEdge v w

/-! ### The calls of a pass -/

/-- The entries of the skewed edges. -/
abbrev Skewed := List (Vertex × List OutgoingEdge)

/-- The calls with `vertex` as their parent. -/
def callsFrom (targets : Vertex → Skewed → List Vertex) (vertex : Vertex) (l : Skewed) :
    List (Vertex × Vertex) :=
  (targets vertex l).map fun w => (vertex, w)

/-- The calls of `addVirtualEdge` in a pass. -/
def passCalls (targets : Vertex → Skewed → List Vertex) : Skewed → List (Vertex × Vertex)
  | []            => []
  | entry :: rest =>
    callsFrom targets entry.1 (entry :: rest) ++
      entry.2.flatMap (fun edge => callsFrom targets edge.child (entry :: rest)) ++
      passCalls targets rest

/-- The children of the calls of `addViaTiming`. -/
def timingTargets (vertex : Vertex) (l : Skewed) : List Vertex :=
  (Scan.nextInTime (fun entry => entry.1.timing.toNat)
    (fun entry => vertex.instSeq < entry.1.instSeq) vertex.timing.toNat l).map Prod.fst

/-- The child of the call of `addViaInstSeq`. -/
def instSeqTargets (vertex : Vertex) (l : Skewed) : List Vertex :=
  (l.find? fun entry => Later vertex entry.1).toList.map Prod.fst

/-- Make the calls of a list. -/
def addVirtualEdges (calls : List (Vertex × Vertex)) : DegM Unit :=
  forM calls fun call => addVirtualEdge call.1 call.2

lemma addVirtualEdges_cons (call : Vertex × Vertex) (calls : List (Vertex × Vertex)) :
    addVirtualEdges (call :: calls) = (do addVirtualEdge call.1 call.2; addVirtualEdges calls) :=
  List.forM_cons

lemma addVirtualEdges_append (l l' : List (Vertex × Vertex)) :
    addVirtualEdges (l ++ l') = (do addVirtualEdges l; addVirtualEdges l') :=
  haveI := Exec.lawfulMonad (ε := DegError) (σ := O3Graph)
  List.forM_append

lemma addSameTiming_eq (vertex : Vertex) (t : UInt64) (l : Skewed) :
    addSameTiming vertex t l = addVirtualEdges ((l.takeWhile fun entry =>
      vertex.instSeq < entry.1.instSeq ∧ t.toNat = entry.1.timing.toNat).map
        fun entry => (vertex, entry.1)) := by
  induction l with
  | nil => rfl
  | cons entry l ih =>
    obtain ⟨u, es⟩ := entry
    rw [addSameTiming]
    split_ifs with h
    · rw [List.takeWhile_cons_of_pos (by simp [h.1, h.2]), List.map_cons, addVirtualEdges_cons, ih]
    · rw [List.takeWhile_cons_of_neg (by simpa [UInt64.toNat_inj] using h)]
      rfl

lemma addViaTiming_eq (vertex : Vertex) (l : Skewed) :
    addViaTiming vertex l = addVirtualEdges (callsFrom timingTargets vertex l) := by
  induction l with
  | nil => rfl
  | cons entry l ih =>
    obtain ⟨u, es⟩ := entry
    rw [addViaTiming, callsFrom, timingTargets, Scan.nextInTime]
    simp only [decide_eq_true_eq, ← UInt64.le_iff_toNat_le]
    split_ifs with h
    · rw [List.map_cons, List.map_cons, addVirtualEdges_cons, addSameTiming_eq, List.map_map]
      rfl
    · exact ih

lemma addViaInstSeq_eq (vertex : Vertex) (l : Skewed) :
    addViaInstSeq vertex l = addVirtualEdges (callsFrom instSeqTargets vertex l) := by
  induction l with
  | nil => rfl
  | cons entry l ih =>
    obtain ⟨u, es⟩ := entry
    rw [addViaInstSeq, callsFrom, instSeqTargets, List.find?_cons]
    by_cases h : Later vertex u
    · have := Exec.lawfulMonad (ε := DegError) (σ := O3Graph)
      rw [if_pos h.symm]
      simp [h, addVirtualEdges]
    · rw [if_neg fun h' => h h'.symm, ih]
      simp [h, callsFrom, instSeqTargets]

/-- A pass whose searches are given by the children of their calls. -/
lemma forSuffixes_eq {targets : Vertex → Skewed → List Vertex} {add : Vertex → Skewed → DegM Unit}
    (hadd : ∀ vertex l, add vertex l = addVirtualEdges (callsFrom targets vertex l)) (l : Skewed) :
    forSuffixes (fun entry rest => do
      add entry.1 (entry :: rest)
      forM entry.2 fun edge => add edge.child (entry :: rest)) l =
      addVirtualEdges (passCalls targets l) := by
  have := Exec.lawfulMonad (ε := DegError) (σ := O3Graph)
  have hforM : ∀ (l : Skewed) (es : List OutgoingEdge),
      (forM es fun edge => add edge.child l) =
        addVirtualEdges (es.flatMap fun edge => callsFrom targets edge.child l) := by
    intro l es
    induction es with
    | nil => rfl
    | cons edge es ih =>
      rw [List.forM_cons, List.flatMap_cons, addVirtualEdges_append, ih, hadd]
  induction l with
  | nil => rfl
  | cons entry rest ih =>
    rw [forSuffixes, passCalls, addVirtualEdges_append, addVirtualEdges_append, hadd, hforM, ih]

lemma run_viaTiming : addVirtualEdgeViaTiming.run s =
    (addVirtualEdges (passCalls timingTargets (skewedEdges edgeTimingCompare s).toList)).run s := by
  rw [addVirtualEdgeViaTiming, Exec.run_bind_ok (Exec.run_get s), ← forSuffixes_eq addViaTiming_eq]
  rfl

lemma run_viaInstSeq : addVirtualEdgeViaInstSeq.run s =
    (addVirtualEdges
      (passCalls instSeqTargets (skewedEdges edgeInstSeqCompare s).toList)).run s := by
  rw [addVirtualEdgeViaInstSeq, Exec.run_bind_ok (Exec.run_get s),
    ← forSuffixes_eq addViaInstSeq_eq]
  rfl

lemma mem_callsFrom {targets : Vertex → Skewed → List Vertex} {l : Skewed} :
    (v, w) ∈ callsFrom targets u l ↔ v = u ∧ w ∈ targets u l := by
  simp [callsFrom, eq_comm, and_comm]

/-- A call is made for an end of an edge and a target in the entries from this edge on. -/
lemma mem_passCalls {targets : Vertex → Skewed → List Vertex} {l : Skewed} :
    (v, w) ∈ passCalls targets l ↔ ∃ before entry rest, l = before ++ entry :: rest ∧
      (v = entry.1 ∨ ∃ e ∈ entry.2, v = e.child) ∧ w ∈ targets v (entry :: rest) := by
  induction l with
  | nil => simp [passCalls]
  | cons entry rest ih =>
    rw [passCalls, List.mem_append, List.mem_append, mem_callsFrom, List.mem_flatMap, ih]
    constructor
    · rintro ((⟨rfl, hw⟩ | ⟨e, he, hw⟩) | ⟨before, entry', rest', rfl, hv, hw⟩)
      · exact ⟨[], entry, rest, rfl, .inl rfl, hw⟩
      · obtain ⟨rfl, hw'⟩ := mem_callsFrom.mp hw
        exact ⟨[], entry, rest, rfl, .inr ⟨e, he, rfl⟩, hw'⟩
      · exact ⟨entry :: before, entry', rest', rfl, hv, hw⟩
    · rintro ⟨_ | ⟨_, before⟩, entry', rest', heq, hv, hw⟩
      · obtain ⟨rfl, rfl⟩ := List.cons.inj heq
        refine .inl (hv.imp (fun h => ⟨h, h ▸ hw⟩) ?_)
        rintro ⟨e, he, rfl⟩
        exact ⟨e, he, mem_callsFrom.mpr ⟨rfl, hw⟩⟩
      · obtain ⟨rfl, rfl⟩ := List.cons.inj heq
        exact .inr ⟨before, entry', rest', rfl, hv, hw⟩

/-! ### The effect of the calls -/

/-- `s'` has the vertices of `s`. -/
def SameVertices (s s' : O3Graph) : Prop := ∀ v, s'.Mentions v ↔ s.Mentions v

lemma O3Graph.Coherent.congr (hc : s.Coherent) (h : SameVertices s s') : s'.Coherent :=
  fun u v hu hv => hc u v ((h u).mp hu) ((h v).mp hv)

lemma O3Graph.outgoing_connect_eq (u v : Vertex) (e : OutgoingEdge) :
    (s.connect u e).outgoing v =
      if vertexCompare u v = .eq then s.outgoing v ++ [e] else s.outgoing v :=
  ListMap.entry_push

lemma O3Graph.mentions_connect (hu : s.Mentions u) (he : s.Mentions e.child) :
    SameVertices s (s.connect u e) := by
  intro v
  constructor
  · rintro (hv | ⟨x, hv⟩)
    · rcases OrdMap.mem_keys_update hv with rfl | hv
      exacts [hu, .inl hv]
    · rw [O3Graph.children, outgoing_connect_eq] at hv
      split_ifs at hv with hcmp
      · rw [List.map_append, List.mem_append] at hv
        rcases hv with hv | hv
        · exact .inr ⟨x, hv⟩
        · rwa [List.mem_singleton.mp hv]
      · exact .inr ⟨x, hv⟩
  · rintro (hv | ⟨x, hv⟩)
    · exact .inl (OrdMap.mem_keys_update_of_mem hv)
    · refine .inr ⟨x, ?_⟩
      rw [O3Graph.children, outgoing_connect_eq]
      split_ifs
      · rw [List.map_append]
        exact List.mem_append_left _ hv
      · exact hv

lemma O3Graph.mentions_touchGraph (hu : s.Mentions u) : SameVertices s (s.touchGraph u) := by
  intro v
  constructor
  · rintro (hv | ⟨x, hv⟩)
    · rcases OrdMap.mem_keys_touch hv with rfl | hv
      exacts [hu, .inl hv]
    · exact .inr ⟨x, by rwa [children_touchGraph] at hv⟩
  · rintro (hv | ⟨x, hv⟩)
    · exact .inl (OrdMap.mem_keys_touch_of_mem hv)
    · exact .inr ⟨x, by rwa [children_touchGraph]⟩

lemma children_eq_of_outgoing {es : List OutgoingEdge}
    (h : s'.outgoing v = s.outgoing v ++ es) :
    s'.children v = s.children v ++ es.map (·.child) := by
  rw [O3Graph.children, h, List.map_append]
  rfl

lemma AddsExactly.refl : AddsExactly (fun _ _ => False) s s :=
  fun _ _ => ⟨[], by simp, List.nodup_nil, by simp⟩

lemma AddsExactly.trans {R R' : Vertex → Vertex → Prop} {s₁ s₂ : O3Graph}
    (h₁ : AddsExactly R s s₁) (hsame : SameVertices s s₁) (h₂ : AddsExactly R' s₁ s₂) :
    AddsExactly (fun v w => R v w ∨ R' v w) s s₂ := by
  intro v hv
  obtain ⟨es₁, hout₁, hnodup₁, hmem₁⟩ := h₁ v hv
  obtain ⟨es₂, hout₂, hnodup₂, hmem₂⟩ := h₂ v ((hsame v).mpr hv)
  have hchild {w : Vertex} : w ∈ s₁.children v ↔ w ∈ s.children v ∨ w ∈ es₁.map (·.child) := by
    rw [children_eq_of_outgoing hout₁, List.mem_append]
  have hes₁ {w : Vertex} : w ∈ es₁.map (·.child) ↔ R v w ∧ w ∉ s.children v := by
    rw [List.mem_map]
    constructor
    · rintro ⟨e, he, rfl⟩
      obtain ⟨w, hR, hw, rfl⟩ := (hmem₁ e).mp he
      exact ⟨hR, hw⟩
    · rintro ⟨hR, hw⟩
      exact ⟨virtualEdge v w, (hmem₁ _).mpr ⟨w, hR, hw, rfl⟩, rfl⟩
  refine ⟨es₁ ++ es₂, by rw [hout₂, hout₁, List.append_assoc], ?_, fun e => ?_⟩
  · refine List.nodup_append.mpr ⟨hnodup₁, hnodup₂, ?_⟩
    rintro e he e' he' rfl
    obtain ⟨w, -, hw, rfl⟩ := (hmem₂ e).mp he'
    exact hw (hchild.mpr (.inr (List.mem_map_of_mem he)))
  · rw [List.mem_append, hmem₁, hmem₂]
    constructor
    · rintro (⟨w, hR, hw, rfl⟩ | ⟨w, hR, hw, rfl⟩)
      · exact ⟨w, .inl hR, hw, rfl⟩
      · exact ⟨w, .inr hR, fun h => hw (hchild.mpr (.inl h)), rfl⟩
    · rintro ⟨w, hR, hw, rfl⟩
      by_cases hw₁ : R v w
      · exact .inl ⟨w, hw₁, hw, rfl⟩
      · refine .inr ⟨w, hR.resolve_left hw₁, fun h => ?_, rfl⟩
        rcases hchild.mp h with h | h
        exacts [hw h, hw₁ (hes₁.mp h).1]

/-- One call. -/
lemma addVirtualEdge_adds (hc : s.Coherent) (hv : s.Mentions v) (hw : s.Mentions w)
    (hne : v ≠ w) : (addVirtualEdge v w).wp (fun _ s' => SameVertices s s' ∧
      AddsExactly (fun v' w' => v' = v ∧ w' = w) s s') (fun _ _ => False) s := by
  rw [addVirtualEdge, if_neg hne, Exec.wp_bind, wp_ifExistEdge]
  have htouch := O3Graph.mentions_touchGraph hv
  by_cases hvw : w ∈ s.children v
  · simp only [hvw, decide_true, if_true]
    refine ⟨htouch, fun x _ => ⟨[], by simp, List.nodup_nil, ?_⟩⟩
    simp only [List.not_mem_nil, false_iff]
    rintro e ⟨_, ⟨rfl, rfl⟩, hnew, -⟩
    exact hnew hvw
  · simp only [hvw, decide_false, Bool.false_eq_true, if_false]
    have hconnect := O3Graph.mentions_connect (e := virtualEdge v w) ((htouch v).mpr hv)
      ((htouch w).mpr hw)
    refine ⟨fun x => (hconnect x).trans (htouch x), fun x hx => ?_⟩
    have hout := O3Graph.outgoing_connect_eq (s := s.touchGraph v) v x (virtualEdge v w)
    rw [outgoing_touchGraph] at hout
    by_cases hcmp : vertexCompare v x = .eq
    · obtain rfl := hc v x hv hx hcmp
      rw [if_pos hcmp] at hout
      refine ⟨[virtualEdge v w], hout, List.nodup_singleton _, fun e => ?_⟩
      rw [List.mem_singleton]
      constructor
      · rintro rfl
        exact ⟨w, ⟨rfl, rfl⟩, hvw, rfl⟩
      · rintro ⟨_, ⟨-, rfl⟩, -, rfl⟩
        rfl
    · rw [if_neg hcmp] at hout
      refine ⟨[], by rw [List.append_nil]; exact hout, List.nodup_nil, ?_⟩
      simp only [List.not_mem_nil, false_iff]
      rintro e ⟨_, ⟨rfl, -⟩, -⟩
      exact hcmp Std.ReflCmp.compare_self

/-- The calls of a list. -/
lemma addVirtualEdges_adds {calls : List (Vertex × Vertex)} (hc : s.Coherent)
    (hcalls : ∀ call ∈ calls, s.Mentions call.1 ∧ s.Mentions call.2 ∧ call.1 ≠ call.2) :
    (addVirtualEdges calls).wp (fun _ s' => SameVertices s s' ∧
      AddsExactly (fun v w => (v, w) ∈ calls) s s') (fun _ _ => False) s := by
  induction calls generalizing s with
  | nil => exact ⟨fun _ => Iff.rfl, by simpa using AddsExactly.refl⟩
  | cons call calls ih =>
    obtain ⟨⟨hv, hw, hne⟩, hrest⟩ := List.forall_mem_cons.mp hcalls
    rw [addVirtualEdges_cons, Exec.wp_bind]
    refine (addVirtualEdge_adds hc hv hw hne).mono (fun _ s₁ h₁ => ?_) fun _ _ h => h
    obtain ⟨hsame, hadds⟩ := h₁
    refine (ih (hc.congr hsame) fun c hc' => ?_).mono (fun _ s₂ h₂ => ?_) fun _ _ h => h
    · obtain ⟨hv, hw, hne⟩ := hrest c hc'
      exact ⟨(hsame _).mpr hv, (hsame _).mpr hw, hne⟩
    · refine ⟨fun x => (h₂.1 x).trans (hsame x), ?_⟩
      simpa [Prod.ext_iff] using hadds.trans hsame h₂.2

/-! ### The order of the entries -/

lemma edgeTimingCompare_eq_lt : edgeTimingCompare u v = .lt ↔
    u.timing.toNat < v.timing.toNat ∨
      u.timing.toNat = v.timing.toNat ∧ u.instSeq < v.instSeq := by
  simp only [edgeTimingCompare, compareLex, compareOn, Ordering.then_eq_lt, Std.compare_eq_lt,
    Std.compare_eq_iff_eq, UInt64.lt_iff_toNat_lt, UInt64.toNat_inj]

lemma edgeInstSeqCompare_eq_lt : edgeInstSeqCompare u v = .lt ↔
    u.instSeq < v.instSeq ∨ u.instSeq = v.instSeq ∧ u.timing.toNat < v.timing.toNat := by
  simp only [edgeInstSeqCompare, compareLex, compareOn, Ordering.then_eq_lt,
    Nat.compare_eq_eq, Std.compare_eq_lt, UInt64.lt_iff_toNat_lt]

lemma later_iff : Later v w ↔ v.timing.toNat ≤ w.timing.toNat ∧ v.instSeq < w.instSeq := by
  rw [Later, UInt64.le_iff_toNat_le]

/-- The vertices of the entries. -/
def InEntries (l : Skewed) (v : Vertex) : Prop := v ∈ l.map Prod.fst

lemma mem_timingTargets {l : Skewed}
    (hl : l.Pairwise fun a b => edgeTimingCompare a.1 b.1 = .lt) :
    w ∈ timingTargets v l ↔ TimingNext (InEntries l) v w := by
  have hsorted : Scan.SortedBy (fun entry : Vertex × List OutgoingEdge => entry.1.timing.toNat)
      (fun entry => v.instSeq < entry.1.instSeq) l := by
    refine hl.imp fun {a b} hab => ?_
    rw [edgeTimingCompare_eq_lt] at hab
    simp only [decide_eq_true_eq]
    omega
  simp only [timingTargets, List.mem_map, Scan.mem_nextInTime_iff hsorted, decide_eq_true_eq,
    TimingNext, Scan.Nearest, InEntries, later_iff, UInt64.le_iff_toNat_le]
  constructor
  · rintro ⟨entry, ⟨hmem, htime, hseq, hleast⟩, rfl⟩
    refine ⟨⟨entry, hmem, rfl⟩, ⟨htime, hseq⟩, ?_⟩
    rintro _ ⟨entry', hmem', rfl⟩ hlater
    exact hleast entry' hmem' hlater.1 hlater.2
  · rintro ⟨⟨entry, hmem, rfl⟩, ⟨htime, hseq⟩, hleast⟩
    exact ⟨entry, ⟨hmem, htime, hseq, fun c hc h₁ h₂ => hleast c.1 ⟨c, hc, rfl⟩ ⟨h₁, h₂⟩⟩, rfl⟩

lemma mem_instSeqTargets {l : Skewed}
    (hl : l.Pairwise fun a b => edgeInstSeqCompare a.1 b.1 = .lt) :
    w ∈ instSeqTargets v l ↔ InstSeqNext (InEntries l) v w := by
  simp only [instSeqTargets, List.mem_map, Option.mem_toList]
  constructor
  · rintro ⟨entry, hfind, rfl⟩
    obtain ⟨hmem, hlater, hleast⟩ := Scan.least_of_find? hl hfind
    refine ⟨List.mem_map_of_mem hmem, of_decide_eq_true hlater, ?_⟩
    intro x hx hx'
    obtain ⟨entry', hmem', rfl⟩ := List.mem_map.mp hx
    rcases hleast entry' hmem' (decide_eq_true hx') with rfl | hlt
    · exact .inr ⟨rfl, UInt64.le_refl _⟩
    · rw [edgeInstSeqCompare_eq_lt] at hlt
      rw [UInt64.le_iff_toNat_le]
      omega
  · rintro ⟨hw, hlater, hleast⟩
    obtain ⟨entry, hmem, rfl⟩ := List.mem_map.mp hw
    obtain ⟨a, ha⟩ : ∃ a, l.find? (fun entry => Later v entry.1) = some a := by
      rw [← Option.isSome_iff_exists, List.find?_isSome]
      exact ⟨entry, hmem, decide_eq_true hlater⟩
    obtain ⟨hamem, halater, haleast⟩ := Scan.least_of_find? hl ha
    refine ⟨a, ha, ?_⟩
    rcases haleast entry hmem (decide_eq_true hlater) with rfl | hlt
    · rfl
    · have := hleast a.1 (List.mem_map_of_mem hamem) (of_decide_eq_true halater)
      rw [edgeInstSeqCompare_eq_lt] at hlt
      rw [UInt64.le_iff_toNat_le] at this
      omega

/-! ### The entries of the skewed edges -/

/-- The edges between instructions with their tails. -/
def O3Graph.crossPairs (s : O3Graph) : List (Vertex × OutgoingEdge) :=
  s.graph.toList.flatMap fun entry =>
    (entry.2.filter fun edge => entry.1.instSeq ≠ edge.child.instSeq).map (Prod.mk entry.1)

lemma mem_crossPairs : (u, e) ∈ s.crossPairs ↔ s.Cross u e := by
  simp only [O3Graph.crossPairs, List.mem_flatMap, List.mem_map, List.mem_filter,
    decide_eq_true_eq]
  constructor
  · rintro ⟨⟨_, es⟩, hentry, _, ⟨he, hne⟩, heq⟩
    obtain ⟨rfl, rfl⟩ := Prod.mk.inj heq
    obtain ⟨hkey, rfl⟩ := ListMap.mem_toList.mp hentry
    exact ⟨hkey, he, hne⟩
  · rintro ⟨hkey, he, hne⟩
    exact ⟨(u, s.outgoing u), ListMap.mem_toList.mpr ⟨hkey, rfl⟩, e, ⟨he, hne⟩, rfl⟩

instance : Decidable s.Forward :=
  decidable_of_iff (∀ p ∈ s.crossPairs,
      p.1.instSeq < p.2.child.instSeq ∧ p.1.timing ≤ p.2.child.timing)
    ⟨fun h u e he => h (u, e) (mem_crossPairs.mpr he),
      fun h p hp => h p.1 p.2 (mem_crossPairs.mp hp)⟩

instance : Decidable s.DistinctTails :=
  decidable_of_iff (∀ p ∈ s.crossPairs, ∀ p' ∈ s.crossPairs, p.1.instSeq = p'.1.instSeq →
      p.1.timing = p'.1.timing → p.1 = p'.1)
    ⟨fun h _ _ ⟨e, he⟩ ⟨e', he'⟩ =>
        h (_, e) (mem_crossPairs.mpr he) (_, e') (mem_crossPairs.mpr he'),
      fun h p hp p' hp' => h _ _ ⟨p.2, mem_crossPairs.mp hp⟩ ⟨p'.2, mem_crossPairs.mp hp'⟩⟩

lemma mem_map_fst : v ∈ s.crossPairs.map Prod.fst ↔ s.Tail v := by
  simp only [List.mem_map, Prod.exists, mem_crossPairs, O3Graph.Tail]
  exact ⟨fun ⟨_, e, he, rfl⟩ => ⟨e, he⟩, fun ⟨e, he⟩ => ⟨v, e, he, rfl⟩⟩

lemma mem_map_child : v ∈ s.crossPairs.map (fun p => p.2.child) ↔ s.Head v := by
  simp only [List.mem_map, Prod.exists, mem_crossPairs, O3Graph.Head, eq_comm]

lemma skewedEdges_eq (cmp : Vertex → Vertex → Ordering) :
    skewedEdges cmp s = ListMap.collect cmp s.crossPairs := by
  simp only [skewedEdges, ListMap.collect, O3Graph.crossPairs, List.foldl_flatMap, List.foldl_map,
    List.foldl_filter, decide_eq_true_eq]

lemma pairwise_crossPairs :
    s.crossPairs.Pairwise fun p q => p.1 = q.1 ∨ vertexCompare p.1 q.1 = .lt := by
  have hsorted : s.graph.toList.Pairwise fun a b => vertexCompare a.1 b.1 = .lt :=
    Std.TreeMap.ordered_keys_toList
  refine List.pairwise_flatMap.mpr ⟨fun entry _ => ?_, hsorted.imp fun {a b} hab p hp q hq => ?_⟩
  · exact List.pairwise_map.mpr (List.pairwise_of_forall fun _ _ => .inl rfl)
  · obtain ⟨e, -, rfl⟩ := List.mem_map.mp hp
    obtain ⟨o, -, rfl⟩ := List.mem_map.mp hq
    exact .inr hab

/-- The stages of an instruction are ordered by their numbers. -/
lemma num_lt_of_compare (h : vertexCompare u v = .lt) (hseq : u.instSeq = v.instSeq) :
    u.type.num < v.type.num := by
  simpa [vertexCompare, compareLex, compareOn, hseq, Ordering.then_eq_lt,
    Nat.compare_eq_lt] using h

/-- The key of an entry is the first of the tails that the map does not tell apart. -/
lemma mem_keys_skewedEdges {cmp : Vertex → Vertex → Ordering} [Std.TransCmp cmp]
    (hcmp : ∀ u v, cmp u v = .eq ↔ u.instSeq = v.instSeq ∧ u.timing = v.timing) :
    u ∈ (skewedEdges cmp s).keys ↔ s.Kept u := by
  rw [skewedEdges_eq, ListMap.mem_keys_collect]
  constructor
  · rintro ⟨p, hfind, rfl⟩
    obtain ⟨hp, -, hfirst⟩ := Scan.least_of_find? pairwise_crossPairs hfind
    refine ⟨⟨p.2, mem_crossPairs.mp hp⟩, fun x ⟨e, hx⟩ hsame => ?_⟩
    have hle := hfirst (x, e) (mem_crossPairs.mpr hx) (decide_eq_true ((hcmp _ _).mpr hsame))
    rcases hle with rfl | heq | hlt
    · exact le_rfl
    · exact (congrArg (·.type.num) heq).le
    · exact (num_lt_of_compare hlt hsame.1.symm).le
  · rintro ⟨⟨e, hu⟩, hlead⟩
    obtain ⟨p, hp⟩ : ∃ p, s.crossPairs.find? (fun p => cmp p.1 u = .eq) = some p := by
      rw [← Option.isSome_iff_exists, List.find?_isSome]
      exact ⟨(u, e), mem_crossPairs.mpr hu, decide_eq_true Std.ReflCmp.compare_self⟩
    refine ⟨p, hp, ?_⟩
    obtain ⟨hmem, heq, hfirst⟩ := Scan.least_of_find? pairwise_crossPairs hp
    have hsame := (hcmp _ _).mp (of_decide_eq_true heq)
    have hle := hlead p.1 ⟨p.2, mem_crossPairs.mp hmem⟩ hsame
    rcases hfirst (u, e) (mem_crossPairs.mpr hu) (decide_eq_true Std.ReflCmp.compare_self) with
      rfl | heq' | hlt
    · rfl
    · exact heq'
    · exact absurd (num_lt_of_compare hlt hsame.1) (not_lt.mpr hle)

/-- What a pass knows about the entries of the skewed edges. -/
structure SkewedList (s : O3Graph) (cmp : Vertex → Vertex → Ordering) (l : Skewed) : Prop where
  sorted : l.Pairwise fun a b => cmp a.1 b.1 = .lt
  kept : ∀ u, InEntries l u ↔ s.Kept u
  edges : ∀ entry ∈ l, ∀ e, e ∈ entry.2 ↔
    ∃ u, s.Cross u e ∧ u.instSeq = entry.1.instSeq ∧ u.timing = entry.1.timing

lemma skewedList {cmp : Vertex → Vertex → Ordering} [Std.TransCmp cmp]
    (hcmp : ∀ u v, cmp u v = .eq ↔ u.instSeq = v.instSeq ∧ u.timing = v.timing) :
    SkewedList s cmp (skewedEdges cmp s).toList := by
  refine ⟨Std.TreeMap.ordered_keys_toList, fun u => ?_, ?_⟩
  · rw [InEntries, Std.TreeMap.map_fst_toList_eq_keys, mem_keys_skewedEdges hcmp]
  · rintro ⟨u, es⟩ hentry e
    obtain ⟨-, rfl⟩ := ListMap.mem_toList.mp hentry
    simp only [skewedEdges_eq, ListMap.entry_collect, List.mem_map, List.mem_filter,
      decide_eq_true_eq, hcmp]
    constructor
    · rintro ⟨p, ⟨hp, hsame⟩, rfl⟩
      exact ⟨p.1, mem_crossPairs.mp hp, hsame⟩
    · rintro ⟨x, hx, hsame⟩
      exact ⟨(x, e), ⟨mem_crossPairs.mpr hx, hsame⟩, rfl⟩

/-- Among the vertices of an instruction and a time there is a first one. -/
lemma exists_leads {T : Vertex → Prop} (h : T v) :
    ∃ u, Leads T u ∧ u.instSeq = v.instSeq ∧ u.timing = v.timing := by
  obtain ⟨u, ⟨hu, hsame⟩, hmin⟩ := (measure fun u : Vertex => u.type.num).wf.has_min
    {u | T u ∧ u.instSeq = v.instSeq ∧ u.timing = v.timing} ⟨v, h, rfl, rfl⟩
  refine ⟨u, ⟨hu, fun x hx hxu => not_lt.mp (hmin x ⟨hx, ?_⟩)⟩, hsame⟩
  exact ⟨hxu.1.trans hsame.1, hxu.2.trans hsame.2⟩

/-- An end of an edge is not before its tail. -/
lemma O3Graph.Forward.le (hf : s.Forward) (he : s.Cross u e) :
    u.instSeq ≤ e.child.instSeq ∧ u.timing.toNat ≤ e.child.timing.toNat := by
  obtain ⟨hseq, htime⟩ := hf u e he
  exact ⟨hseq.le, UInt64.le_iff_toNat_le.mp htime⟩

/-- The calls of a pass, whose entries before the current one are not later than its ends. -/
lemma SkewedList.mem_passCalls_iff {cmp : Vertex → Vertex → Ordering}
    {le : Vertex → Vertex → Prop} {l : Skewed}
    {targets : Vertex → Skewed → List Vertex} (hl : SkewedList s cmp l) (hf : s.Forward)
    (htargets : ∀ {v w l}, (l.Pairwise fun a b => cmp a.1 b.1 = .lt) →
      (w ∈ targets v l ↔ Scan.Nearest Later le (InEntries l) v w))
    (hbefore : ∀ {u x v}, cmp x u = .lt → u.instSeq ≤ v.instSeq →
      u.timing.toNat ≤ v.timing.toNat → ¬Later v x) :
    (v, w) ∈ passCalls targets l ↔ s.Source v ∧ Scan.Nearest Later le s.Kept v w := by
  have hends {entry : Vertex × List OutgoingEdge} (hentry : entry ∈ l)
      (hv : v = entry.1 ∨ ∃ e ∈ entry.2, v = e.child) :
      entry.1.instSeq ≤ v.instSeq ∧ entry.1.timing.toNat ≤ v.timing.toNat := by
    rcases hv with rfl | ⟨e, he, rfl⟩
    · exact ⟨le_rfl, le_rfl⟩
    · obtain ⟨u, hu, hseq, htime⟩ := (hl.edges entry hentry e).mp he
      rw [← hseq, ← htime]
      exact hf.le hu
  -- the entries from the current one on are all tails that matter
  have hsuffix {before : Skewed} {entry : Vertex × List OutgoingEdge} {rest : Skewed}
      (heq : l = before ++ entry :: rest) (hv : v = entry.1 ∨ ∃ e ∈ entry.2, v = e.child) :
      w ∈ targets v (entry :: rest) ↔ Scan.Nearest Later le s.Kept v w := by
    have hsorted := List.pairwise_append.mp (heq ▸ hl.sorted)
    rw [htargets hsorted.2.1]
    refine Scan.nearest_congr fun x hx => ?_
    rw [← hl.kept, heq, InEntries, InEntries, List.map_append, List.mem_append]
    refine ⟨.inr, fun h => h.resolve_left fun hxb => ?_⟩
    obtain ⟨b, hb, rfl⟩ := List.mem_map.mp hxb
    obtain ⟨hseq, htime⟩ := hends (by simp [heq]) hv
    exact hbefore (hsorted.2.2 b hb entry List.mem_cons_self) hseq htime hx
  rw [mem_passCalls]
  constructor
  · rintro ⟨before, entry, rest, heq, hv, hw⟩
    have hentry : entry ∈ l := by simp [heq]
    refine ⟨?_, (hsuffix heq hv).mp hw⟩
    rcases hv with rfl | ⟨e, he, rfl⟩
    · exact .inl ((hl.kept _).mp (List.mem_map_of_mem hentry))
    · obtain ⟨u, hu, -⟩ := (hl.edges entry hentry e).mp he
      exact .inr ⟨u, e, hu, rfl⟩
  · rintro ⟨hv, hw⟩
    obtain ⟨entry, hentry, hv⟩ : ∃ entry ∈ l, v = entry.1 ∨ ∃ e ∈ entry.2, v = e.child := by
      rcases hv with hv | ⟨u, e, he, rfl⟩
      · obtain ⟨entry, hentry, rfl⟩ := List.mem_map.mp ((hl.kept v).mpr hv)
        exact ⟨entry, hentry, .inl rfl⟩
      · obtain ⟨x, hx, hseq, htime⟩ := exists_leads (T := s.Tail) ⟨e, he⟩
        obtain ⟨entry, hentry, rfl⟩ := List.mem_map.mp ((hl.kept x).mpr hx)
        exact ⟨entry, hentry, .inr ⟨e, (hl.edges entry hentry e).mpr
          ⟨u, he, hseq.symm, htime.symm⟩, rfl⟩⟩
    obtain ⟨before, rest, heq⟩ := List.append_of_mem hentry
    exact ⟨before, entry, rest, heq, hv, (hsuffix heq hv).mpr hw⟩

/-! ### The passes -/

lemma O3Graph.Tail.mentions (h : s.Tail v) : s.Mentions v := .inl h.choose_spec.1

lemma O3Graph.Endpoint.mentions (h : s.Endpoint v) : s.Mentions v := by
  obtain ⟨u, e, ⟨hkey, he, -⟩, rfl | rfl⟩ := h
  · exact .inl hkey
  · exact .inr ⟨u, List.mem_map_of_mem he⟩

lemma O3Graph.Kept.tail (h : s.Kept v) : s.Tail v := h.1

lemma O3Graph.Tail.endpoint (h : s.Tail v) : s.Endpoint v := ⟨v, h.choose, h.choose_spec, .inl rfl⟩

lemma O3Graph.Head.endpoint (h : s.Head v) : s.Endpoint v := by
  obtain ⟨u, e, he, hv⟩ := h
  exact ⟨u, e, he, .inr hv⟩

lemma O3Graph.Source.endpoint (h : s.Source v) : s.Endpoint v :=
  h.elim (fun h => h.tail.endpoint) O3Graph.Head.endpoint

/-- A pass that connects the ends that it knows to the nearest tails that it knows. -/
lemma pass_adds {le : Vertex → Vertex → Prop} {calls : List (Vertex × Vertex)} (hc : s.Coherent)
    (hcalls : ∀ v w, (v, w) ∈ calls ↔ s.Source v ∧ Scan.Nearest Later le s.Kept v w) :
    ∃ s', (addVirtualEdges calls).run s = (.ok (), s') ∧ SameVertices s s' ∧
      AddsExactly (fun v w => s.Source v ∧ Scan.Nearest Later le s.Kept v w) s s' := by
  have hmentions : ∀ call ∈ calls, s.Mentions call.1 ∧ s.Mentions call.2 ∧ call.1 ≠ call.2 := by
    rintro ⟨v, w⟩ hcall
    obtain ⟨hv, hw, hlater, -⟩ := (hcalls v w).mp hcall
    exact ⟨hv.endpoint.mentions, hw.tail.mentions,
      fun heq => hlater.2.ne (congrArg Vertex.instSeq heq)⟩
  obtain ⟨_, s', hrun, hsame, hadds⟩ := (addVirtualEdges_adds hc hmentions).returns
  simp only [hcalls] at hadds
  exact ⟨s', hrun, hsame, hadds⟩

section Passes

variable (hc : s.Coherent) (hf : s.Forward)
include hc hf

lemma viaTiming_adds : ∃ s', addVirtualEdgeViaTiming.run s = (.ok (), s') ∧ SameVertices s s' ∧
    AddsExactly (fun v w => s.Source v ∧ TimingNext s.Kept v w) s s' := by
  rw [run_viaTiming]
  have hl : SkewedList s edgeTimingCompare (skewedEdges edgeTimingCompare s).toList := by
    refine skewedList fun u v => ?_
    simp only [edgeTimingCompare, compareLex, compareOn, Ordering.then_eq_eq,
      Std.compare_eq_iff_eq]
    exact and_comm
  refine pass_adds hc fun v w => hl.mem_passCalls_iff hf mem_timingTargets ?_
  intro u x v hlt hseq htime hlater
  rw [edgeTimingCompare_eq_lt] at hlt
  rw [later_iff] at hlater
  omega

lemma viaInstSeq_adds : ∃ s', addVirtualEdgeViaInstSeq.run s = (.ok (), s') ∧ SameVertices s s' ∧
    AddsExactly (fun v w => s.Source v ∧ InstSeqNext s.Kept v w) s s' := by
  rw [run_viaInstSeq]
  have hl : SkewedList s edgeInstSeqCompare (skewedEdges edgeInstSeqCompare s).toList := by
    refine skewedList fun u v => ?_
    simp only [edgeInstSeqCompare, compareLex, compareOn, Ordering.then_eq_eq,
      Std.compare_eq_iff_eq]
  refine pass_adds hc fun v w => hl.mem_passCalls_iff hf mem_instSeqTargets ?_
  intro u x v hlt hseq htime hlater
  rw [edgeInstSeqCompare_eq_lt] at hlt
  rw [later_iff] at hlater
  omega

end Passes

/-- Tails that differ in their times are all kept. -/
lemma O3Graph.DistinctTails.kept_eq (hd : s.DistinctTails) : s.Kept = s.Tail := by
  funext v
  refine propext ⟨O3Graph.Kept.tail, fun hv => ⟨hv, fun u hu hsame => ?_⟩⟩
  rw [hd u v hu hv hsame.1 hsame.2]

lemma O3Graph.DistinctTails.source_eq (hd : s.DistinctTails) : s.Source = s.Endpoint := by
  funext v
  refine propext ⟨O3Graph.Source.endpoint, ?_⟩
  rintro ⟨u, e, he, rfl | rfl⟩
  · exact .inl (hd.kept_eq ▸ ⟨e, he⟩)
  · exact .inr ⟨u, e, he, rfl⟩

/-! ### Both passes -/

/-- The tails that the second pass finds: an endpoint with a later tail has got a virtual edge,
which leads to another instruction as well. -/
def O3Graph.SecondTail (s : O3Graph) (v : Vertex) : Prop :=
  s.Tail v ∨ s.Endpoint v ∧ ∃ w, s.Tail w ∧ Later v w

lemma AddsExactly.mem_outgoing {R : Vertex → Vertex → Prop} (h : AddsExactly R s s')
    (hv : s.Mentions v) (hR : R v w) (hnew : w ∉ s.children v) :
    virtualEdge v w ∈ s'.outgoing v := by
  obtain ⟨es, hout, -, hmem⟩ := h v hv
  rw [hout]
  exact List.mem_append_right _ ((hmem _).mpr ⟨w, hR, hnew, rfl⟩)

/-- A vertex that is later than `v` stands for another one of its instruction and time. -/
lemma Later.congr (h : Later v w) (hseq : u.instSeq = w.instSeq) (htime : u.timing = w.timing) :
    Later v u := by
  rw [Later, hseq, htime]
  exact h

section First

variable {s₁ : O3Graph} (hc : s.Coherent) (hsame : SameVertices s s₁)
  (hadds : AddsExactly (fun v w => s.Source v ∧ TimingNext s.Kept v w) s s₁)
include hc hsame hadds

end First

lemma O3Graph.SecondTail.endpoint (h : s.SecondTail v) : s.Endpoint v :=
  h.elim O3Graph.Tail.endpoint And.left

/-- The tails that the ordered map of the second pass keeps. -/
def O3Graph.SecondKept (s : O3Graph) : Vertex → Prop := Leads s.SecondTail

/-- A vertex from which the second pass searches. -/
def O3Graph.SecondSource (s : O3Graph) (v : Vertex) : Prop :=
  s.SecondKept v ∨ s.Head v ∨ ∃ u, s.Source u ∧ TimingNext s.Kept u v

instance : Scan.Enumerated s.Tail := ⟨_, fun _ => mem_map_fst⟩

instance : Scan.Enumerated s.Head := ⟨_, fun _ => mem_map_child⟩

lemma O3Graph.endpoint_iff : s.Tail v ∨ s.Head v ↔ s.Endpoint v := by
  refine ⟨fun h => h.elim O3Graph.Tail.endpoint O3Graph.Head.endpoint, ?_⟩
  rintro ⟨u, e, he, rfl | rfl⟩
  exacts [.inl ⟨e, he⟩, .inr ⟨u, e, he, rfl⟩]

instance : Scan.Enumerated s.Endpoint :=
  have := Scan.Enumerated.union s.Tail s.Head
  ⟨_, fun v => (this.mem_list v).trans O3Graph.endpoint_iff⟩

instance {T : Vertex → Prop} [Scan.Enumerated T] : Scan.Enumerated (Leads T) :=
  inferInstanceAs (Scan.Enumerated (Scan.First _ _ T))

instance : Scan.Enumerated s.Kept := inferInstanceAs (Scan.Enumerated (Leads s.Tail))

instance : Scan.Enumerated s.Source := Scan.Enumerated.union s.Kept s.Head

instance {T : Vertex → Prop} [Scan.Enumerated T] : Decidable (TimingNext T v w) :=
  inferInstanceAs (Decidable (Scan.Nearest _ _ T v w))

instance {T : Vertex → Prop} [Scan.Enumerated T] : Decidable (InstSeqNext T v w) :=
  inferInstanceAs (Decidable (Scan.Nearest _ _ T v w))

instance : Scan.Enumerated s.SecondTail :=
  have := Scan.Enumerated.filter s.Endpoint fun v => ∃ w, s.Tail w ∧ Later v w
  Scan.Enumerated.union s.Tail _

instance : Scan.Enumerated s.SecondKept := inferInstanceAs (Scan.Enumerated (Leads s.SecondTail))

instance : DecidablePred s.Tail := Scan.Enumerated.decidableMem s.Tail

instance : DecidablePred s.Head := Scan.Enumerated.decidableMem s.Head

instance : DecidablePred s.Kept := Scan.Enumerated.decidableMem s.Kept

instance : DecidablePred s.Source := fun v => inferInstanceAs (Decidable (s.Kept v ∨ s.Head v))

instance : DecidablePred s.SecondKept := Scan.Enumerated.decidableMem s.SecondKept

instance : DecidablePred s.SecondSource := fun v =>
  inferInstanceAs (Decidable (s.SecondKept v ∨ s.Head v ∨ ∃ u, s.Source u ∧ TimingNext s.Kept u v))

/-! ### Exactness -/

/-- The weight of a virtual edge is the time that it bridges. -/
lemma weight_virtualEdge (h : Later v w) :
    (virtualEdge v w).weight = w.timing.toNat - v.timing.toNat ∧ 0 ≤ (virtualEdge v w).weight := by
  have hle := UInt64.le_iff_toNat_le.mp h.1
  have hsub : (w.timing - v.timing).toNat = w.timing.toNat - v.timing.toNat :=
    UInt64.toNat_sub_of_le _ _ h.1
  simp only [virtualEdge, delay, hsub]
  exact ⟨Nat.cast_sub hle, Int.natCast_nonneg _⟩

/-- On a graph whose edges between instructions lead to later instructions, never backwards in time,
and from tails that differ in their times, each pass connects every endpoint to the nearest tails
and to nothing else, with edges that weigh the time between the two vertices. -/
theorem virtualEdges_exact (s : O3Graph) (hc : s.Coherent) (hf : s.Forward)
    (hd : s.DistinctTails) :
    (∃ s', addVirtualEdgeViaTiming.run s = (.ok (), s') ∧
      AddsExactly (fun v w => s.Endpoint v ∧ TimingNext s.Tail v w) s s') ∧
    (∃ s', addVirtualEdgeViaInstSeq.run s = (.ok (), s') ∧
      AddsExactly (fun v w => s.Endpoint v ∧ InstSeqNext s.Tail v w) s s') ∧
    ∀ v w, TimingNext s.Tail v w ∨ InstSeqNext s.Tail v w →
      (virtualEdge v w).weight = w.timing.toNat - v.timing.toNat ∧
        0 ≤ (virtualEdge v w).weight := by
  obtain ⟨s₁, hrun₁, -, hadds₁⟩ := viaTiming_adds hc hf
  obtain ⟨s₂, hrun₂, -, hadds₂⟩ := viaInstSeq_adds hc hf
  rw [hd.source_eq, hd.kept_eq] at hadds₁ hadds₂
  refine ⟨⟨s₁, hrun₁, hadds₁⟩, ⟨s₂, hrun₂, hadds₂⟩, fun v w h => weight_virtualEdge ?_⟩
  rcases h with ⟨-, hlater, -⟩ | ⟨-, hlater, -⟩ <;> exact hlater

/-- The vertices of a graph that has been built are stages of the trace. -/
lemma Good.coherent {insts : List RiscvInstruction} (hn : Numbered insts) (hg : Good insts s) :
    s.Coherent := by
  have hown {v : Vertex} (hv : s.Mentions v) : Owned insts v := by
    rcases hv with hv | ⟨u, hv⟩
    · exact hg.keys v hv
    · obtain ⟨e, he, rfl⟩ := List.mem_map.mp hv
      obtain ⟨x, hx, hcmp⟩ := OrdMap.exists_mem_keys (ListMap.mem_of_mem_entry he)
      have heq : s.outgoing x = s.outgoing u := Std.TreeMap.getD_congr hcmp
      exact (hg.child x (hg.keys x hx) e (heq ▸ he)).1
  exact fun u v hu hv => ((hown hu).compare_eq_iff hn (hown hv)).mp

/-- An addition that is fetched in cycle `t`, has its operands in cycle `issue` and is committed in
program order. -/
def addFrom (t issue : UInt64) (src : List Int) (dst : Int) : TraceLine :=
  { addAt t src dst with
    blockFromRob := 0
    blockFromRf := 0
    blockFromIq := 0
    blockFromLq := 0
    blockFromSq := 0
    insertReadyList := issue
    issue := issue
    complete := issue + 1
    commitHead := 30 + t
    commit := 30 + t }

/-- Three additions, each with one that waits for it. The second pair is executed behind the
third. -/
def threePairs : List TraceLine :=
  [addFrom 1 6 [1] 5, addFrom 2 8 [5] 6, addFrom 3 20 [1] 7, addFrom 4 24 [7] 9,
    addFrom 5 12 [1] 8, addFrom 6 14 [8] 10]

/-- The second pair is next in program order and the third one in time. -/
theorem virtualEdges_exact_pairs : ∃ s, s = ((modelSteps 6).run (.init threePairs)).2 ∧
    s.Forward ∧ s.DistinctTails ∧
    (∃ s', addVirtualEdgeViaTiming.run s = (.ok (), s') ∧
      AddsExactly (fun v w => s.Endpoint v ∧ TimingNext s.Tail v w) s s' ∧
      virtualEdge (issueStage ⟨addFrom 1 6 [1] 5, 1⟩) (issueStage ⟨addFrom 5 12 [1] 8, 5⟩) ∈
        s'.outgoing (issueStage ⟨addFrom 1 6 [1] 5, 1⟩)) ∧
    ∃ s', addVirtualEdgeViaInstSeq.run s = (.ok (), s') ∧
      AddsExactly (fun v w => s.Endpoint v ∧ InstSeqNext s.Tail v w) s s' ∧
      virtualEdge (issueStage ⟨addFrom 1 6 [1] 5, 1⟩) (issueStage ⟨addFrom 3 20 [1] 7, 3⟩) ∈
        s'.outgoing (issueStage ⟨addFrom 1 6 [1] 5, 1⟩) := by
  obtain ⟨s, hrun, h⟩ := (Built.init (V := False) threePairs).modelSteps 6
  have hf : ((modelSteps 6).run (.init threePairs)).2.Forward := by decide +kernel
  have hd : ((modelSteps 6).run (.init threePairs)).2.DistinctTails := by decide +kernel
  have htail : ((modelSteps 6).run (.init threePairs)).2.Tail
      (issueStage ⟨addFrom 1 6 [1] 5, 1⟩) := by decide +kernel
  have htiming : TimingNext ((modelSteps 6).run (.init threePairs)).2.Tail
      (issueStage ⟨addFrom 1 6 [1] 5, 1⟩) (issueStage ⟨addFrom 5 12 [1] 8, 5⟩) := by decide +kernel
  have hseq : InstSeqNext ((modelSteps 6).run (.init threePairs)).2.Tail
      (issueStage ⟨addFrom 1 6 [1] 5, 1⟩) (issueStage ⟨addFrom 3 20 [1] 7, 3⟩) := by decide +kernel
  have hnew : ∀ i ∈ [⟨addFrom 5 12 [1] 8, 5⟩, ⟨addFrom 3 20 [1] 7, 3⟩], issueStage i ∉
      ((modelSteps 6).run (.init threePairs)).2.children (issueStage ⟨addFrom 1 6 [1] 5, 1⟩) := by
    decide +kernel
  rw [hrun] at hf hd htail htiming hseq hnew ⊢
  obtain ⟨⟨s₁, hrun₁, hadds₁⟩, ⟨s₂, hrun₂, hadds₂⟩, -⟩ :=
    virtualEdges_exact s (h.good.coherent h.numbered) hf hd
  refine ⟨s, rfl, hf, hd, ⟨s₁, hrun₁, hadds₁, ?_⟩, s₂, hrun₂, hadds₂, ?_⟩
  · exact hadds₁.mem_outgoing htail.mentions ⟨htail.endpoint, htiming⟩ (hnew _ (by simp))
  · exact hadds₂.mem_outgoing htail.mentions ⟨htail.endpoint, hseq⟩ (hnew _ (by simp))

end ArchExplorer.Deg
