import ArchExplorer.Deg.Search

/-!
# The critical path

The core of the longest path is completed to a path from the first fetch to the last commit. The
searches for its two ends fail only where a virtual edge can be entered instead.
-/

namespace ArchExplorer.Deg

open ArchExplorer.Lib Relation

variable {insts : List RiscvInstruction} {inst : RiscvInstruction} {s s' s₁ : O3Graph}
  {u v : Vertex} {e : OutgoingEdge}

/-! ### The induced graph -/

/-- The graph holds the chains of the instructions and the number of the last one. -/
structure HasChains (insts : List RiscvInstruction) (s : O3Graph) : Prop where
  numbered : Numbered insts
  good : Good insts s
  ne_nil : insts ≠ []
  hasNext : ∀ u, Owned insts u → ∀ v, nextStage u = some v → stageEdge u v ∈ s.outgoing u
  instSeq_eq : s.instStream.instSeq = insts.length

lemma HasChains.evolves {Q : Vertex → OutgoingEdge → Prop} {P : Prop} (h : HasChains insts s)
    (hev : Evolves insts Q P s s') : HasChains insts s' where
  numbered := h.numbered
  good := hev.good h.numbered h.good
  ne_nil := h.ne_nil
  hasNext := fun u hu v hv => by
    obtain ⟨es, hes, -⟩ := hev.outgoing h.numbered hu
    rw [hes]
    exact List.mem_append_left _ (h.hasNext u hu v hv)
  instSeq_eq := by rw [hev.instStream, h.instSeq_eq]

/-- The graph in which the longest path is searched. -/
structure Ready (insts : List RiscvInstruction) (s : O3Graph) : Prop
    extends HasChains insts s where
  tight : Tight s
  kinds : AllEdges insts
    (fun u e => EdgeKind False u e ∨ InducedEdge insts (·.type ≠ .c) u e) s
  chained : Chained insts s

lemma Built.ready {window : List RiscvInstruction} {rest : List TraceLine}
    (h : Built False insts window rest s) (hne : insts ≠ [])
    (hev : Evolves insts (InducedEdge insts (·.type ≠ .c)) False s s') : Ready insts s' where
  toHasChains := HasChains.evolves ⟨h.numbered, h.good, hne, h.hasNext, by rw [h.stream_eq]⟩ hev
  tight := hev.tight h.numbered h.good (h.fresh id).1
  kinds := hev.allEdges h.numbered (fun _ _ => .inr) fun u hu e he => .inl (h.kinds u hu e he)
  chained := hev.chained h.numbered (fun _ _ he => he.instSeq_lt) (h.fresh id).2

/-- The edge whose cost is read. -/
lemma O3Graph.cost_cases (s : O3Graph) (u v : Vertex) :
    s.cost u v = 0 ∨ ∃ e ∈ s.outgoing u, e.child = v ∧ s.cost u v = e.cost := by
  unfold O3Graph.cost
  cases hfind : (s.outgoing u).find? (·.child = v) with
  | none   => exact .inl rfl
  | some e =>
    have hchild := List.find?_some hfind
    rw [decide_eq_true_eq] at hchild
    exact .inr ⟨e, List.mem_of_find?_eq_some hfind, hchild, rfl⟩

lemma CrossEdge.cost_nonneg (h : CrossEdge u e) : 0 ≤ e.cost := by
  cases h <;> exact Int.natCast_nonneg _

/-- Only edges between instructions have a cost. -/
lemma Ready.cost_cases (h : Ready insts s) (hu : Owned insts u) (v : Vertex) :
    s.cost u v = 0 ∨ ∃ e ∈ s.outgoing u, e.child = v ∧ s.cost u v = e.cost ∧ CrossEdge u e := by
  rcases s.cost_cases u v with hzero | ⟨e, he, rfl, hcost⟩
  · exact .inl hzero
  · rcases h.kinds u hu e he with hkind | hinduced
    · cases hkind with
      | stage hv     => exact .inl hcost
      | cross hc     => exact .inr ⟨e, he, rfl, hcost, hc⟩
      | virtual hV _ => exact hV.elim
    · exact .inl (hcost.trans hinduced.virtual.cost_eq)

lemma Ready.cost_nonneg (h : Ready insts s) (hu : Owned insts u) (v : Vertex) :
    0 ≤ s.cost u v := by
  rcases h.cost_cases hu v with hzero | ⟨e, -, -, hcost, hc⟩
  · rw [hzero]
  · rw [hcost]
    exact hc.cost_nonneg

/-- Dependences between instructions start after the first fetch stage, and end before the
completion. -/
lemma CrossEdge.types (h : CrossEdge u e) :
    u.type ≠ .f1 ∧ e.child.type ≠ .p ∧ e.child.type ≠ .mp ∧ e.child.type ≠ .c := by
  have hissue (i : RiscvInstruction) : (issueStage i).type ≠ .f1 ∧ (issueStage i).type ≠ .p ∧
      (issueStage i).type ≠ .mp ∧ (issueStage i).type ≠ .c := by
    unfold issueStage
    split_ifs <;> simp [single]
  have hcomplete (i : RiscvInstruction) : (completeStage i).type ≠ .f1 := by
    unfold completeStage
    split_ifs <;> simp [single]
  cases h with
  | miss b hlt   => exact ⟨hcomplete _, by simp [firstStage, single]⟩
  | rename b hlt => simp [renameStage, single]
  | issue b hlt  => exact ⟨(hissue _).1, (hissue _).2⟩

lemma vertexCompare_lt (h : u.type.num < v.type.num) : vertexCompare u v = .lt := by
  simp [vertexCompare, compareLex, compareOn, Nat.compare_eq_lt.mpr h]

/-- The last vertex of the core: a commit, or the completion of the last instruction, is reached at
no cost from the stage before it, and so it is not the first vertex with the largest distance. -/
lemma Ready.last_type (h : Ready insts s) (hv : Owned insts v)
    (hlast : ∃ p ∈ s.parents v, s.cost p v ≠ 0 ∨ vertexCompare p v ≠ .lt) :
    v.type ≠ .c ∧ (v.instSeq = insts.length → v.type ≠ .p ∧ v.type ≠ .mp) := by
  obtain ⟨p, hp, hpv⟩ := hlast
  have hop := h.good.owned_of_mem_parents hv hp
  have hchild := (h.good.mem_parents_iff hop hv).mp hp
  -- it suffices that all edges into such a vertex belong to the chain
  suffices hno : ¬∀ e ∈ s.outgoing p, e.child = v →
      ∃ w, nextStage p = some w ∧ e = stageEdge p w by
    have hkind (e : OutgoingEdge) (he : e ∈ s.outgoing p)
        (hcross : ¬CrossEdge p e) (hinduced : ¬InducedEdge insts (·.type ≠ .c) p e) :
        ∃ w, nextStage p = some w ∧ e = stageEdge p w := by
      rcases h.kinds p hop e he with hk | hk
      · cases hk with
        | stage hw     => exact ⟨_, hw, rfl⟩
        | cross hc     => exact absurd hc hcross
        | virtual hV _ => exact hV.elim
      · exact absurd hk hinduced
    refine ⟨fun hc => hno ?_, fun hseq => ⟨fun hp => hno ?_, fun hmp => hno ?_⟩⟩
    · rintro e he rfl
      exact hkind e he (fun h => h.types.2.2.2 hc) fun h => h.ends.2 hc
    · rintro e he rfl
      exact hkind e he (fun h => h.types.2.1 hp) fun h => absurd h.child_lt (by omega)
    · rintro e he rfl
      exact hkind e he (fun h => h.types.2.2.1 hmp) fun h => absurd h.child_lt (by omega)
  intro hall
  rcases hpv with hcost | hcmp
  · rcases s.cost_cases p v with hzero | ⟨e, he, hev, heq⟩
    · exact hcost hzero
    · obtain ⟨w, -, rfl⟩ := hall e he hev
      exact hcost heq
  · obtain ⟨e, he, hev⟩ := List.mem_map.mp hchild
    obtain ⟨w, hw, rfl⟩ := hall e he hev
    obtain rfl : w = v := hev
    exact hcmp (vertexCompare_lt (rel_of_nextIn (stages_sorted p.inst).isChain hw))

/-! ### The ends of the path -/

/-- The first vertex of a path: the first stage of the first instruction. -/
structure IsSource (insts : List RiscvInstruction) (v : Vertex) : Prop where
  owned : Owned insts v
  instSeq_eq : v.instSeq = 1
  type_eq : v.type = .f1

/-- The last vertex of a path: the commit of the last instruction. -/
structure IsSink (insts : List RiscvInstruction) (v : Vertex) : Prop where
  owned : Owned insts v
  instSeq_eq : v.instSeq = insts.length
  type_eq : v.type = .c

lemma IsSource.rank_eq (h : IsSource insts v) : v.rank = 13 := by
  rw [Vertex.rank, h.instSeq_eq, h.type_eq]
  rfl

lemma HasChains.mem_keys (h : HasChains insts s) (hi : inst ∈ insts) (hu : u ∈ stages inst)
    (hc : u.type ≠ .c) : u ∈ s.graph.keys := by
  have hown : Owned insts u := .of_mem hi hu
  obtain ⟨v, -, hv, -⟩ := exists_nextStage hu hc
  exact h.good.mem_keys_of_mem_children h.numbered hown
    (List.mem_map_of_mem (h.hasNext u hown v hv))

/-- The first key of the graph is the first stage of the first instruction. -/
lemma getSourceVertex_wp (h : HasChains insts s) :
    getSourceVertex.wp (fun v s' => IsSource insts v ∧ s' = s) (fun _ _ => False) s := by
  have hlen : 0 < insts.length := List.length_pos_iff.mpr h.ne_nil
  obtain ⟨inst, hi, hseq⟩ := h.numbered.exists_instSeq Nat.one_pos hlen
  have hkey : firstStage inst ∈ s.graph.keys :=
    h.mem_keys hi firstStage_mem (by simp [firstStage, single])
  have hsorted : s.graph.keys.Pairwise (vertexCompare · · = .lt) := Std.TreeMap.ordered_keys
  rw [getSourceVertex, Exec.wp_bind, Exec.wp_get]
  cases hkeys : s.graph.keys with
  | nil => simp [hkeys] at hkey
  | cons v rest =>
    have hov := h.good.keys v (hkeys ▸ List.mem_cons_self)
    have hpos := (hov.instSeq_mem h.numbered).1
    have hv : v.instSeq = 1 ∧ v.type = .f1 := by
      rw [hkeys] at hkey hsorted
      rcases List.mem_cons.mp hkey with rfl | hmem
      · exact ⟨by simpa [firstStage, single] using hseq, rfl⟩
      · -- no vertex compares below the first stage
        have hlt := (List.pairwise_cons.mp hsorted).1 _ hmem
        have hnum : (firstStage inst).type.num = 0 := rfl
        have hseq' : (firstStage inst).instSeq = 1 := by simpa [firstStage, single] using hseq
        simp only [vertexCompare, compareLex, compareOn, hnum, hseq',
          Ordering.then_eq_lt, Nat.compare_eq_lt, Nat.not_lt_zero, false_or] at hlt
        omega
    simp only [hv, and_self, if_true, Exec.wp_pure, and_true]
    exact ⟨hov, hv.1, hv.2⟩

/-- The commit of the last instruction is found as the child of an edge. -/
lemma getSinkVertex_wp (h : HasChains insts s) :
    getSinkVertex.wp (fun v s' => IsSink insts v ∧ s' = s) (fun _ _ => False) s := by
  have hlen : 0 < insts.length := List.length_pos_iff.mpr h.ne_nil
  obtain ⟨inst, hi, hseq⟩ := h.numbered.exists_instSeq hlen le_rfl
  have hown : Owned insts (completeStage inst) := .of_mem hi completeStage_mem
  have hedge := h.hasNext _ hown _ nextStage_completeStage
  have hkey := h.good.mem_keys_of_mem_children h.numbered hown (List.mem_map_of_mem hedge)
  rw [getSinkVertex, Exec.wp_bind, Exec.wp_get, h.instSeq_eq]
  split
  · rename_i e hfind
    obtain ⟨⟨w, es⟩, hentry, he⟩ := List.mem_flatMap.mp (List.mem_of_find?_eq_some hfind)
    have hprop := List.find?_some hfind
    rw [decide_eq_true_eq] at hprop
    obtain ⟨hw, hes⟩ := ListMap.mem_toList.mp hentry
    have hchild : e ∈ s.outgoing w := by rwa [O3Graph.outgoing, ← hes]
    exact ⟨⟨(h.good.child w (h.good.keys w hw) e hchild).1, hprop.1, hprop.2⟩, rfl⟩
  · rename_i hnone
    have hno := List.find?_eq_none.mp hnone (stageEdge (completeStage inst) (commitStage inst))
      (List.mem_flatMap.mpr ⟨_, ListMap.mem_toList.mpr ⟨hkey, rfl⟩, hedge⟩)
    rw [decide_eq_true_eq] at hno
    exact absurd ⟨hseq, rfl⟩ hno

/-! ### Walks that persist -/

/-- A walk from a stage of the trace consists of such stages. -/
lemma Good.owned_of_isChain (hg : Good insts s) {l : List Vertex} (hu : Owned insts u)
    (h : (u :: l).IsChain s.Joined) : ∀ w ∈ u :: l, Owned insts w := by
  induction l generalizing u with
  | nil =>
    intro w hw
    rwa [List.mem_singleton.mp hw]
  | cons v l ih =>
    obtain ⟨huv, hrest⟩ := List.isChain_cons_cons.mp h
    intro w hw
    rcases List.mem_cons.mp hw with rfl | hw
    · exact hu
    · exact ih (hg.owned_of_mem_children hu huv).1 hrest w hw

lemma Evolves.isChain {Q : Vertex → OutgoingEdge → Prop} {P : Prop} {l : List Vertex}
    (hn : Numbered insts) (hev : Evolves insts Q P s s') (hl : ∀ v ∈ l, Owned insts v)
    (h : l.IsChain s.Joined) : l.IsChain s'.Joined :=
  h.imp_of_mem_imp fun u _ hu _ huv => hev.joined hn (hl u hu) huv

lemma PathTo.evolves {Q : Vertex → OutgoingEdge → Prop} {P : Prop} {path : List Vertex}
    (hn : Numbered insts) (hg : Good insts s) (hev : Evolves insts Q P s s') (hu : Owned insts u)
    (h : PathTo s u v path) : PathTo s' u v path := by
  refine ⟨h.head, hev.isChain hn ?_ h.isChain⟩
  obtain ⟨hhead, hchain⟩ := h
  cases path with
  | nil => cases hhead
  | cons x path =>
    obtain rfl : x = u := by simpa using hhead
    exact hg.owned_of_isChain hu hchain

/-! ### Head and tail -/

/-- The edge that may be entered at the head of the path. -/
def HeadEdge (u : Vertex) (e : OutgoingEdge) : Prop := VirtualEdge u e ∧ u.rank ≤ 13

section Ends

variable {fuel : ℕ} (hfuel : 13 * (insts.length + 1) < fuel)
include hfuel

/-- The path can be started with the first fetch. -/
lemma pathHead_wp (h : HasChains insts s) (hu : Owned insts u) (hf1 : u.type ≠ .f1) :
    (pathHead fuel u).wp
      (fun path s' => Evolves insts HeadEdge True s s' ∧
        ∃ source, IsSource insts source ∧ PathTo s' source u path)
      (fun _ _ => False) s := by
  have hn := h.numbered
  rw [pathHead, Exec.wp_bind]
  refine (getSourceVertex_wp h).mono ?_ fun _ _ h => h
  rintro source s₀ ⟨hsource, rfl⟩
  rw [Exec.wp_bind]
  refine (ifExistPath_wp hn h.good hsource.owned hfuel .refl).mono ?_ fun _ _ h => h
  rintro found s₁ ⟨hreads, hfound⟩
  have hev₁ : Evolves insts HeadEdge True s₀ s₁ := hreads.mono (fun _ _ h => h.elim) id
  split_ifs with htrue
  · -- what the breadth-first search has found, the depth-first search finds as well
    rw [Exec.wp_bind]
    refine (findPath_wp hn h.good fuel hsource.owned (by omega) hreads).mono ?_ fun _ _ h => h
    rintro (- | path) s₂ ⟨hreads₂, hfinds⟩
    · exact absurd (hfound.mp htrue).transGen (hfinds.2 rfl)
    · refine ⟨hreads₂.mono (fun _ _ h => h.elim) id, source, hsource, ?_⟩
      exact (hfinds.1 path rfl).evolves hn h.good hreads₂ hsource.owned
  · have hlt : source.rank < u.rank := by
      rw [hsource.rank_eq]
      have hpos := (hu.instSeq_mem hn).1
      have hnum : u.type.num ≠ 0 := fun h => hf1 (VertexType.num_injective h)
      unfold Vertex.rank
      omega
    rw [Exec.wp_bind]
    refine (addVirtualEdge_wp (Q := HeadEdge) (P := True) hn hsource.owned hu hlt fun e he _ =>
      ⟨he, hsource.rank_eq.le⟩).mono ?_ fun _ _ h => h
    rintro _ s₂ ⟨hev₂, hedge⟩
    exact ⟨hev₁.trans hev₂, source, hsource, .single hedge⟩

omit hfuel in
/-- Only the completion is connected to the commit. -/
lemma nextStage_type_c (h : nextStage u = some v) (hv : v.type = .c) :
    u.type = .p ∨ u.type = .mp := by
  have hall : (stages u.inst).IsChain fun u v => v.type = .c → u.type = .p ∨ u.type = .mp := by
    unfold stages innerStages fetchStages dispatchStages issueStage memoryStages completeStage
    split_ifs <;> simp [single, decodeStage, renameStage, commitStage]
  exact rel_of_nextIn hall h hv

omit hfuel in
/-- In the last instruction the sink is found. -/
lemma found_last (h : HasChains insts s) {sink : Vertex} (hsink : IsSink insts sink)
    (hu : Owned insts u) (hc : u.type ≠ .c) (hseq : u.instSeq = insts.length)
    (hp : u.type ≠ .p ∧ u.type ≠ .mp) (hchain : ChainedFrom insts u.rank s) :
    s.Found u sink := by
  have hn := h.numbered
  have hnot : ¬s.Joined u sink := by
    intro hjoined
    obtain ⟨e, he, hchild⟩ := List.mem_map.mp hjoined
    rw [outgoing_last hn h.good hu hseq hchain, Option.mem_toList, Option.map_eq_some_iff] at he
    obtain ⟨v, hv, rfl⟩ := he
    obtain rfl : v = sink := hchild
    rcases nextStage_type_c hv hsink.type_eq with hup | hump
    · exact hp.1 hup
    · exact hp.2 hump
  exact hit_last hn h.good hsink.owned hsink.type_eq hsink.instSeq_eq (13 * (insts.length + 1) + 1)
    hu hc hseq hchain hnot [] (by simp) (by omega)

/-- A path from the last vertex of the core to the sink. -/
lemma findTail_wp (h : HasChains insts s) {sink : Vertex} (hsink : IsSink insts sink)
    (hu : Owned insts u) (hc : u.type ≠ .c)
    (hp : u.instSeq = insts.length → u.type ≠ .p ∧ u.type ≠ .mp)
    (hchain : ChainedFrom insts u.rank s) :
    (findTail fuel u sink).wp
      (fun r s' => Evolves insts VirtualEdge True s s' ∧
        ∃ path, r = some path ∧ PathTo s' u sink path)
      (fun _ _ => False) s := by
  have hn := h.numbered
  have hle := (hu.instSeq_mem hn).2
  rw [findTail, Exec.wp_bind]
  refine (ifExistPath_wp hn h.good hu hfuel .refl).mono ?_ fun _ _ h => h
  rintro found s₁ ⟨hreads, hfound⟩
  have hev₁ : Evolves insts VirtualEdge True s s₁ := hreads.mono (fun _ _ h => h.elim) id
  cases found with
  | true =>
    refine (findPath_wp hn h.good fuel hu (by omega) hreads).mono ?_ fun _ _ h => h
    rintro (- | path) s₂ ⟨hreads₂, hfinds⟩
    · exact absurd (hfound.mp rfl).transGen (hfinds.2 rfl)
    · refine ⟨hreads₂.mono (fun _ _ h => h.elim) id, path, rfl, ?_⟩
      exact (hfinds.1 path rfl).evolves hn h.good hreads₂ hu
  | false =>
    -- if no path is reported, the last vertex belongs to an earlier instruction
    have hlt : u.instSeq < sink.instSeq := by
      rw [hsink.instSeq_eq]
      refine hle.lt_of_ne fun heq => ?_
      exact Bool.false_ne_true (hfound.mpr (found_last h hsink hu hc heq (hp heq) hchain))
    have hchain₁ := hchain.evolves hn hreads fun _ _ h => h.elim
    refine (fromCToSink_wp hn hsink.owned fuel hu hc hlt hchain₁ (by omega)).mono ?_
      fun _ _ h => h
    rintro r s₂ ⟨hev₂, hpath⟩
    exact ⟨hev₁.trans hev₂, hpath⟩

/-- The path can be ended with the last commit. -/
lemma pathTail_wp (h : HasChains insts s) (hu : Owned insts u) (hc : u.type ≠ .c)
    (hp : u.instSeq = insts.length → u.type ≠ .p ∧ u.type ≠ .mp)
    (hchain : ChainedFrom insts u.rank s) :
    (pathTail fuel u).wp
      (fun path s' => Evolves insts VirtualEdge True s s' ∧ (u :: path).IsChain s'.Joined ∧
        ∃ sink, IsSink insts sink ∧ path.getLast? = some sink)
      (fun _ _ => False) s := by
  rw [pathTail, Exec.wp_bind]
  refine (getSinkVertex_wp h).mono ?_ fun _ _ h => h
  rintro sink s₀ ⟨hsink, rfl⟩
  rw [Exec.wp_bind]
  refine (findTail_wp hfuel h hsink hu hc hp hchain).mono ?_ fun _ _ h => h
  rintro _ s₁ ⟨hev, path, rfl, hpath⟩
  obtain ⟨hhead, hwalk⟩ := hpath
  cases path with
  | nil => cases hhead
  | cons x path =>
    obtain rfl : x = u := by simpa using hhead
    exact ⟨hev, hwalk, sink, hsink, by simp⟩

/-- A path from the first fetch to the last commit. -/
structure CriticalPath (insts : List RiscvInstruction) (s : O3Graph) (path : List Vertex) :
    Prop where
  isChain : path.IsChain s.Joined
  source : ∃ source, IsSource insts source ∧ path.head? = some source
  sink : ∃ sink, IsSink insts sink ∧ path.getLast? = some sink

/-- With enough fuel the longest path is found if some edge has a cost. -/
lemma longestPathImpl_wp (h : Ready insts s) (hu : Owned insts u) (hjoined : s.Joined u v)
    (hpos : 0 < s.cost u v) (hcard : s.verts.card < fuel) :
    (longestPathImpl fuel).wp
      (fun path s' => Evolves insts VirtualEdge True s s' ∧ CriticalPath insts s' path)
      (fun _ _ => False) s := by
  have hn := h.numbered
  rw [longestPathImpl, Exec.wp_bind]
  refine (longestPathCore_wp hn h.good h.tight (fun u hu => h.cost_nonneg hu) hu hjoined hpos
    hcard hfuel).mono ?_ fun _ _ h => h
  rintro core s₁ ⟨hreads, hcore⟩
  obtain ⟨first, second, rest, rfl, -, hfirst⟩ := hcore.first
  -- the first vertex starts a dependence between instructions
  have hof := hcore.owned first List.mem_cons_self
  have hf1 : first.type ≠ .f1 := by
    rcases h.cost_cases hof second with hzero | ⟨e, -, -, -, hc⟩
    · rw [hzero] at hfirst
      exact absurd hfirst (lt_irrefl _)
    · exact hc.types.1
  have hchains₁ : HasChains insts s₁ := h.toHasChains.evolves hreads
  rw [Exec.wp_bind]
  refine (pathHead_wp hfuel hchains₁ hof hf1).mono ?_ fun _ _ h => h
  rintro head s₂ ⟨hev₂, source, hsource, hhead⟩
  -- the last vertex of the core
  set core := first :: second :: rest with hcore_eq
  have hne : core ≠ [] := List.cons_ne_nil _ _
  have hlast : (head ++ core).getLast (by simp [hne]) = core.getLast hne :=
    List.getLast_append_of_ne_nil _ hne
  have hmem := List.getLast_mem hne
  have hob := hcore.owned _ hmem
  obtain ⟨hbc, hbp⟩ := h.last_type hob (hcore.last _ (List.getLast?_eq_getLast_of_ne_nil hne))
  have hrank : 13 < (core.getLast hne).rank := by
    obtain ⟨p, hp, -⟩ := hcore.last _ (List.getLast?_eq_getLast_of_ne_nil hne)
    have hop := h.good.owned_of_mem_parents hob hp
    have hlt := (h.good.owned_of_mem_children hop ((h.good.mem_parents_iff hop hob).mp hp)).2
    have hpos := (hop.instSeq_mem hn).1
    unfold Vertex.rank at hlt ⊢
    omega
  have hchain₂ : ChainedFrom insts (core.getLast hne).rank s₂ := by
    refine ((h.chained.from _).evolves hn hreads fun _ _ h => h.elim).evolves hn hev₂ ?_
    exact fun u e he hle => absurd he.2 (by omega)
  rw [Exec.wp_bind, hlast]
  refine (pathTail_wp hfuel (hchains₁.evolves hev₂) hob hbc hbp hchain₂).mono ?_ fun _ _ h => h
  rintro tail s₃ ⟨hev₃, htail, sink, hsink, hsinklast⟩
  have hev₁₂ : Evolves insts VirtualEdge True s₁ s₂ := hev₂.mono (fun _ _ h => h.1) id
  have hevs : Evolves insts VirtualEdge True s s₃ :=
    (Evolves.mono hreads (fun _ _ h => h.elim) id).trans (hev₁₂.trans hev₃)
  -- the three parts overlap in the first and in the last vertex of the core
  have hcore₃ : core.IsChain s₃.Joined := hevs.isChain hn hcore.owned hcore.isChain
  have hhead₃ : PathTo s₃ source first head :=
    hhead.evolves hn (hchains₁.evolves hev₂).good hev₃ hsource.owned
  have hpath : (head ++ core).IsChain s₃.Joined := by
    have hcore' : ([first] ++ (second :: rest)).IsChain s₃.Joined := hcore₃
    have hoverlap := hhead₃.isChain.append_overlap hcore' (List.cons_ne_nil _ _)
    rwa [List.append_assoc] at hoverlap
  refine ⟨hevs, ?_, ⟨source, hsource, ?_⟩, ⟨sink, hsink, ?_⟩⟩
  · obtain ⟨hstep, hrest⟩ := List.isChain_cons.mp htail
    refine hpath.append hrest fun x hx y hy => ?_
    have hx' : core.getLast hne = x := by
      rw [List.getLast?_append_of_ne_nil _ hne, List.getLast?_eq_getLast_of_ne_nil hne] at hx
      simpa using hx
    exact hx' ▸ hstep y hy
  · rw [List.append_assoc, List.head?_append, hhead.head]
    rfl
  · rw [List.getLast?_append, hsinklast]
    rfl

end Ends

end ArchExplorer.Deg
