import ArchExplorer.Compare.Interaction
import ArchExplorer.Core.VirtualEdges
import ArchExplorer.Deg.VirtualEdges

/-!
# The induced graphs

Both analyses connect the ends of the edges between instructions to the next tails in time and in
program order. The C++ analysis does so in two passes over the graph, and the virtual edges of the
first pass are edges between instructions for the second one. The Python analysis searches the edges
of the original graph both times, so that its results differ if an end that has got a virtual edge
comes before the next tail. They also differ on ties: the ordered maps of the C++ analysis keep one
of the tails of an instruction that have the same time, and search from this one only.
-/

namespace ArchExplorer.Compare

open ArchExplorer.Lib

variable {insts : List Deg.RiscvInstruction} {s s' : Deg.O3Graph} {g g' : Core.Graph}
  {v w : Deg.Vertex}

/-! ### Graphs with the same edges between instructions -/

/-- The nodes that are joined by edges between instructions. -/
def skewed (s : Deg.O3Graph) : List (Core.Node × Core.Node) :=
  s.crossPairs.map fun p => (node p.1, node p.2.child)

def skewedP (g : Core.Graph) : List (Core.Node × Core.Node) :=
  g.skewEdges.map fun e => (e.u, e.v)

/-- The edges between instructions join the same nodes. -/
def SameSkewed (s : Deg.O3Graph) (g : Core.Graph) : Prop :=
  skewed s ⊆ skewedP g ∧ skewedP g ⊆ skewed s

/-- No edge goes back in time. -/
def AllForward (s : Deg.O3Graph) : Prop :=
  ∀ u ∈ s.graph.keys, ∀ e ∈ s.outgoing u, u.timing ≤ e.child.timing

lemma later_node : Core.Later (node v) (node w) ↔ Deg.Later v w := by
  rw [Core.Later, Deg.later_iff]
  exact and_congr Int.ofNat_le Iff.rfl

lemma SameSkewed.cross (h : SameSkewed s g) {u : Deg.Vertex} {e : Deg.OutgoingEdge}
    (he : s.Cross u e) : ∃ e' ∈ g.skewEdges, e'.u = node u ∧ e'.v = node e.child := by
  obtain ⟨e', he', heq⟩ := List.mem_map.mp
    (h.1 (List.mem_map_of_mem (Deg.mem_crossPairs.mpr he)))
  exact ⟨e', he', (Prod.mk.inj heq).1, (Prod.mk.inj heq).2⟩

lemma SameSkewed.skew (h : SameSkewed s g) {e : Core.Edge} (he : e ∈ g.skewEdges) :
    ∃ u o, s.Cross u o ∧ e.u = node u ∧ e.v = node o.child := by
  obtain ⟨p, hp, heq⟩ := List.mem_map.mp (h.2 (List.mem_map_of_mem he))
  exact ⟨p.1, p.2, Deg.mem_crossPairs.mp hp, (Prod.mk.inj heq).1.symm, (Prod.mk.inj heq).2.symm⟩

lemma SameSkewed.tail_iff (h : SameSkewed s g) {n : Core.Node} :
    Core.TailIn g.skewEdges n ↔ ∃ x, s.Tail x ∧ node x = n := by
  constructor
  · rintro ⟨e, he, rfl⟩
    obtain ⟨u, o, hcross, hu, -⟩ := h.skew he
    exact ⟨u, ⟨o, hcross⟩, hu.symm⟩
  · rintro ⟨x, ⟨e, he⟩, rfl⟩
    obtain ⟨e', he', hu, -⟩ := h.cross he
    exact ⟨e', he', hu⟩

lemma SameSkewed.endpoint (h : SameSkewed s g) (hv : s.Endpoint v) :
    Core.EndpointIn g.skewEdges (node v) := by
  obtain ⟨u, e, he, hv⟩ := hv
  obtain ⟨e', he', hu, hv'⟩ := h.cross he
  refine ⟨e', he', ?_⟩
  rcases hv with rfl | rfl
  exacts [.inl hu.symm, .inr hv'.symm]

/-- The edges along the stages of an instruction are edges of the trace. -/
lemma chainEdges_subset {i : Deg.RiscvInstruction} (hi : i ∈ insts) :
    Deg.chainEdges (Deg.stages i) ⊆ Deg.traceEdges insts := by
  induction insts with
  | nil => simp at hi
  | cons j past ih =>
    intro e he
    rw [Deg.traceEdges, List.append_assoc]
    rcases List.mem_cons.mp hi with rfl | hi
    · exact List.mem_append_right _ (List.mem_append_left _ he)
    · exact List.mem_append_left _ (ih hi he)

lemma isChain_of_chainEdges {l : List Deg.Vertex}
    (h : ∀ e ∈ Deg.chainEdges l, e.1.timing ≤ e.2.child.timing) :
    l.IsChain fun u v => u.timing.toNat ≤ v.timing.toNat := by
  match l with
  | []          => exact .nil
  | [_]         => exact .singleton _
  | u :: v :: l =>
    rw [Deg.chainEdges, List.forall_mem_cons] at h
    exact .cons_cons (UInt64.le_iff_toNat_le.mp h.1) (isChain_of_chainEdges h.2)

lemma node_in (hv : Deg.Owned insts v) : (node v).In (insts.map inst) := by
  refine ⟨inst v.inst, List.mem_map_of_mem hv.1, ?_⟩
  rw [← map_stages]
  exact List.mem_map_of_mem hv.2

/-- The stages of an instruction have the same order in both graphs. -/
lemma rank_node_le_iff (hn : Deg.Numbered insts) (hu : Deg.Owned insts v) (hv : Deg.Owned insts w)
    (hseq : v.instSeq = w.instSeq) : (node v).rank ≤ (node w).rank ↔ v.type.num ≤ w.type.num := by
  have hinst : v.inst = w.inst := hu.inst_eq hn hv hseq
  have hnum := Deg.stages_sorted w.inst
  have hrank := Core.pairwise_rank (inst w.inst)
  rw [← map_stages, List.pairwise_map] at hrank
  let R (u v : Deg.Vertex) : Prop := (node u).rank ≤ (node v).rank ↔ u.type.num ≤ v.type.num
  -- both lists are sorted, so that the two orders agree in either direction
  have hup : (Deg.stages w.inst).Pairwise R := (hnum.and hrank).imp fun huv =>
    iff_of_true huv.2.le huv.1.le
  have hdown : (Deg.stages w.inst).Pairwise (flip R) := (hnum.and hrank).imp fun huv =>
    iff_of_false huv.2.not_ge huv.1.not_ge
  have hrefl : ∀ u ∈ Deg.stages w.inst, R u u := fun u _ => iff_of_true le_rfl le_rfl
  exact hup.forall_of_forall_of_flip hrefl hdown (hinst ▸ hu.2) hv.2

section Trace

variable (hn : Deg.Numbered insts) (hgood : Deg.Good insts s)
include hgood

lemma owned_endpoint (hv : s.Endpoint v) : Deg.Owned insts v := by
  obtain ⟨u, e, ⟨hu, he, -⟩, rfl | rfl⟩ := hv
  · exact hgood.keys v hu
  · exact (hgood.child u (hgood.keys u hu) e he).1

lemma AllForward.forward (hf : AllForward s) : s.Forward := by
  rintro u e ⟨hu, he, hne⟩
  refine ⟨lt_of_le_of_ne ?_ hne, hf u hu e he⟩
  exact Deg.Vertex.instSeq_le_of_rank_lt (hgood.child u (hgood.keys u hu) e he).2

include hn

/-- A vertex with an edge has an entry of its own. -/
lemma mem_keys_of_outgoing {u : Deg.Vertex} {e : Deg.OutgoingEdge} (hu : Deg.Owned insts u)
    (he : e ∈ s.outgoing u) : u ∈ s.graph.keys := by
  obtain ⟨x, hx, hcmp⟩ := OrdMap.exists_mem_keys (ListMap.mem_of_mem_entry he)
  rwa [← ((hgood.keys x hx).compare_eq_iff hn hu).mp hcmp]

/-- The stages of an instruction are in the order of their times. -/
lemma AllForward.pairwise_stages (hf : AllForward s) (hl : Deg.Listed insts s)
    {i : Deg.RiscvInstruction} (hi : i ∈ insts) :
    (Deg.stages i).Pairwise fun u v => u.timing.toNat ≤ v.timing.toNat := by
  have hedges : ∀ e ∈ Deg.chainEdges (Deg.stages i), e.1.timing ≤ e.2.child.timing := by
    intro e he
    have hown : Deg.Owned insts e.1 := .of_mem hi (Deg.mem_chainEdges he).1
    have hmem : e.2 ∈ s.outgoing e.1 := by
      rw [hl e.1 hown, List.mem_map]
      exact ⟨e, List.mem_filter.mpr ⟨chainEdges_subset hi he, by simp⟩, rfl⟩
    exact hf e.1 (mem_keys_of_outgoing hn hgood hown hmem) e.2 hmem
  have : IsTrans Deg.Vertex fun u v => u.timing.toNat ≤ v.timing.toNat :=
    ⟨fun _ _ _ => le_trans⟩
  exact List.isChain_iff_pairwise.mp (isChain_of_chainEdges hedges)

section Same

variable (hs : SameSkewed s g)
include hs

/-- A node of an endpoint is next in time exactly if the vertex is. -/
lemma SameSkewed.timestampNext_iff (hw : s.Endpoint w) :
    Core.TimestampNext (Core.TailIn g.skewEdges) (node v) (node w) ↔
      Deg.TimingNext s.Tail v w := by
  refine Scan.nearest_map (fun _ _ => later_node) (fun x y => ?_) (fun _ => hs.tail_iff)
    fun x hx => node_inj hn (owned_endpoint hgood hx.endpoint) (owned_endpoint hgood hw)
  exact Int.ofNat_le.trans UInt64.le_iff_toNat_le.symm

/-- Of the tails with one time both analyses find the first one in program order. -/
lemma SameSkewed.leads_iff (n : Core.Node) :
    Core.Leads (Core.TailIn g.skewEdges) n ↔ ∃ x, s.Kept x ∧ node x = n := by
  have hsame (x y : Deg.Vertex) : (node x).seq = (node y).seq ∧
      (node x).timestamp = (node y).timestamp ↔ x.instSeq = y.instSeq ∧ x.timing = y.timing :=
    and_congr Iff.rfl cast_toNat_inj
  refine Scan.first_map hsame (fun x y hx hy hsame => ?_) (fun _ => hs.tail_iff) n
  exact rank_node_le_iff hn (owned_endpoint hgood hx.endpoint) (owned_endpoint hgood hy.endpoint)
    hsame.1.symm

lemma SameSkewed.seqNext_iff (hw : s.Endpoint w) :
    Core.SeqNext (Core.Leads (Core.TailIn g.skewEdges)) (node v) (node w) ↔
      Deg.InstSeqNext s.Kept v w := by
  refine Scan.nearest_map (fun _ _ => later_node) (fun x y => ?_) (hs.leads_iff hn hgood)
    fun x hx => node_inj hn (owned_endpoint hgood hx.tail.endpoint) (owned_endpoint hgood hw)
  exact or_congr Iff.rfl (and_congr Iff.rfl (Int.ofNat_le.trans UInt64.le_iff_toNat_le.symm))

variable (hg : Core.Constructed (insts.map inst) g)
include hg

/-- The Python analysis lists its edges between instructions in the order of the instructions. -/
lemma SameSkewed.inOrder (hl : Deg.Listed insts s) (hf : AllForward s) :
    Core.InOrder g.skewEdges := by
  refine hg.inOrder (descending_map hn) (fun j hj => ?_) fun e he => ?_
  · obtain ⟨i, hi, rfl⟩ := List.mem_map.mp hj
    rw [← map_stages, List.pairwise_map]
    exact (hf.pairwise_stages hn hgood hl hi).imp Int.ofNat_le.mpr
  · obtain ⟨u, o, hcross, hu, hv⟩ := hs.skew he
    rw [hu, hv]
    exact Int.ofNat_le.mpr (UInt64.le_iff_toNat_le.mp (hf.forward hgood u o hcross).2)

/-- Endpoints of different instructions are joined in both graphs or in none. -/
lemma SameSkewed.adj_iff (hv : s.Endpoint v) (hw : s.Endpoint w) (hne : v.instSeq ≠ w.instSeq) :
    g.graph.Adj (node v).name (node w).name ↔ w ∈ s.children v := by
  have hov := owned_endpoint hgood hv
  have how := owned_endpoint hgood hw
  rw [DiGraph.adj_iff]
  constructor
  · rintro ⟨e, he⟩
    obtain ⟨hmem, hkey⟩ := hg.mem_traceEdges he
    obtain ⟨heu, hev⟩ := Core.owned_traceEdges (descending_map hn) hmem
    have hu : e.u = node v := hg.located.name_inj heu (node_in hov) (Prod.mk.inj hkey).1.symm
    have hv' : e.v = node w := hg.located.name_inj hev (node_in how) (Prod.mk.inj hkey).2.symm
    obtain ⟨x, o, ⟨hx, ho, -⟩, hxu, hov'⟩ := hs.skew (Core.mem_skewEdges.mpr ⟨⟨_, he⟩, by
      rw [hu, hv']
      exact hne⟩)
    have hox := hgood.keys x hx
    rw [node_inj hn hov hox (hu.symm.trans hxu), node_inj hn how (hgood.child x hox o ho).1
      (hv'.symm.trans hov')]
    exact List.mem_map_of_mem ho
  · intro hchild
    obtain ⟨o, ho, rfl⟩ := List.mem_map.mp hchild
    obtain ⟨e, he, hu, hv'⟩ := hs.cross ⟨mem_keys_of_outgoing hn hgood hov ho, ho, hne⟩
    obtain ⟨⟨k, hk⟩, -⟩ := Core.mem_skewEdges.mp he
    have hkey := (hg.mem_traceEdges hk).2
    rw [hu, hv'] at hkey
    exact ⟨e, hkey ▸ hk⟩

/-- The edges between endpoints that the Python analysis adds. -/
lemma SameSkewed.adj_induced {calls calls' : List Core.Call} (hperm : calls'.Perm calls)
    (hlink : ∀ c ∈ calls, Core.Linkable (insts.map inst) c)
    (hcalls : ∀ v w, Core.EndpointIn g.skewEdges v → Core.EndpointIn g.skewEdges w →
      ((v, w) ∈ calls ↔ Core.TimestampNext (Core.TailIn g.skewEdges) v w ∨
        Core.SeqNext (Core.Leads (Core.TailIn g.skewEdges)) v w))
    (hrun : (Core.constructInducedGraph calls').run g = (.ok (), g'))
    (hv : s.Endpoint v) (hw : s.Endpoint w) :
    g'.graph.Adj (node v).name (node w).name ↔ g.graph.Adj (node v).name (node w).name ∨
      Deg.TimingNext s.Tail v w ∨ Deg.InstSeqNext s.Kept v w := by
  rw [Core.adj_constructInducedGraph hrun, ← hs.timestampNext_iff hn hgood hw,
    ← hs.seqNext_iff hn hgood hw, ← hcalls _ _ (hs.endpoint hv) (hs.endpoint hw)]
  refine or_congr_right ⟨?_, fun hcall => ⟨_, hperm.mem_iff.mpr hcall, ?_, rfl, rfl⟩⟩
  · rintro ⟨c, hc, -, hcv, hcw⟩
    have hc' := hperm.mem_iff.mp hc
    have hlink' := hlink c hc'
    rwa [← hg.located.name_inj hlink'.left (node_in (owned_endpoint hgood hv)) hcv,
      ← hg.located.name_inj hlink'.right (node_in (owned_endpoint hgood hw)) hcw]
  · have hlater : Core.Later (node v) (node w) := by
      rcases (hcalls _ _ (hs.endpoint hv) (hs.endpoint hw)).mp hcall with h | h <;> exact h.2.1
    exact decide_eq_false fun h => hlater.2.ne h.1

/-- What the Python analysis adds between endpoints, whatever the order of its calls. -/
lemma SameSkewed.constructInducedGraph (hl : Deg.Listed insts s) (hcross : s.crossPairs ≠ [])
    (hf : AllForward s) :
    ∃ calls, g.virtualEdgeCalls = .ok calls ∧ ∀ calls', calls'.Perm calls →
      ∃ g', (Core.constructInducedGraph calls').run g = (.ok (), g') ∧
        ∀ v w, s.Endpoint v → s.Endpoint w →
          (g'.graph.Adj (node v).name (node w).name ↔ g.graph.Adj (node v).name (node w).name ∨
            Deg.TimingNext s.Tail v w ∨ Deg.InstSeqNext s.Kept v w) := by
  have hne : insts.map inst ≠ [] := by
    obtain ⟨p, rest, heq⟩ := List.exists_cons_of_ne_nil hcross
    have hp : s.Cross p.1 p.2 := Deg.mem_crossPairs.mp (heq ▸ List.mem_cons_self)
    exact List.ne_nil_of_mem (List.mem_map_of_mem (hgood.keys p.1 hp.1).1)
  have hdesc := descending_map hn
  have horder := hs.inOrder hn hgood hg hl hf
  obtain ⟨calls, hcalls, hlink, hmem⟩ := hg.mem_virtualEdgeCalls hdesc hne horder
  refine ⟨calls, hcalls, fun calls' hperm => ?_⟩
  obtain ⟨g', hrun, -⟩ := Core.constructInducedGraph_returns (T := False)
    (fun c hc => hlink c (hperm.mem_iff.mp hc)) (hg.modelled False.elim hdesc) (hg.paced hdesc)
  exact ⟨g', hrun, fun v w => hs.adj_induced hn hgood hg hperm hlink hmem hrun⟩

end Same

end Trace

/-! ### When the analyses agree -/

/-- Where both analyses join the same vertices. -/
structure SameNext (s : Deg.O3Graph) : Prop where
  /-- A tail that is next in time is kept by the ordered map, which searches from `v`. -/
  ties : ∀ v w, s.Endpoint v → Deg.TimingNext s.Tail v w →
    w ∈ s.children v ∨ s.Source v ∧ s.Kept w
  /-- The next tail in program order is found by one of the two C++ passes. -/
  next : ∀ v w, s.Endpoint v → Deg.InstSeqNext s.Kept v w →
    w ∈ s.children v ∨ s.Source v ∧ Deg.TimingNext s.Kept v w ∨
      s.SecondSource v ∧ Deg.InstSeqNext s.SecondKept v w
  /-- The second C++ pass stops at nothing but tails of the graph. -/
  stops : ∀ v w, s.SecondSource v → Deg.InstSeqNext s.SecondKept v w →
    w ∈ s.children v ∨ s.Tail w

lemma secondKept_tail (h : s.SecondKept v) (ht : s.Tail v) : s.Kept v :=
  ⟨ht, fun u hu => h.2 u (.inl hu)⟩

/-- The second pass searches from no vertex that the first one leaves out. -/
lemma source_of_secondSource (h : s.SecondSource v) : s.Source v := by
  rcases h with hkept | hhead | ⟨u, -, hv⟩
  · rcases hkept.1 with ht | ⟨⟨u, e, he, rfl | rfl⟩, -⟩
    · exact .inl (secondKept_tail hkept ht)
    · exact .inl (secondKept_tail hkept ⟨e, he⟩)
    · exact .inr ⟨u, e, he, rfl⟩
  · exact .inr hhead
  · exact .inl hv.1

/-- Only ends and tails have to be looked at. -/
lemma sameNext_iff_listed : (∀ v, s.Endpoint v →
      (∀ w, s.Tail w → Deg.TimingNext s.Tail v w → w ∈ s.children v ∨ s.Source v ∧ s.Kept w) ∧
      (∀ w, s.Kept w → Deg.InstSeqNext s.Kept v w → w ∈ s.children v ∨
        s.Source v ∧ Deg.TimingNext s.Kept v w ∨
          s.SecondSource v ∧ Deg.InstSeqNext s.SecondKept v w) ∧
      ∀ w, s.SecondKept w → s.SecondSource v → Deg.InstSeqNext s.SecondKept v w →
        w ∈ s.children v ∨ s.Tail w) ↔ SameNext s := by
  constructor
  · intro h
    refine ⟨fun v w hv hw => (h v hv).1 w hw.1 hw, fun v w hv hw => (h v hv).2.1 w hw.1 hw,
      fun v w hv hw => ?_⟩
    exact (h v (source_of_secondSource hv).endpoint).2.2 w hw.1 hv hw
  · intro h v hv
    exact ⟨fun w _ => h.ties v w hv, fun w _ => h.next v w hv, fun w _ => h.stops v w⟩

set_option synthInstance.maxSize 512 in
instance : Decidable (SameNext s) :=
  decidable_of_iff _ sameNext_iff_listed

/-- The graph of a trace. -/
def graph (trace : List Deg.TraceLine) : Deg.O3Graph :=
  ((Deg.modelSteps trace.length).run (.init trace)).2

instance : Decidable (SameSkewed s g) := inferInstanceAs (Decidable (_ ∧ _))

instance : Decidable (AllForward s) := inferInstanceAs (Decidable (∀ u ∈ _, ∀ e ∈ _, _))

end ArchExplorer.Compare
