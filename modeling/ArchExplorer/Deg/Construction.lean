import ArchExplorer.Deg.Invariant
import ArchExplorer.Deg.Run

/-!
# The graph after the construction

`Built V insts window rest s` describes the graph after the chains of `insts` have been entered:
besides the chains it holds only edges between different instructions, each of one of the three
kinds of `CrossEdge`, and virtual edges if `V` holds. Modelling an instruction cannot fail on such a
graph and yields the next one.
-/

namespace ArchExplorer.Deg

open ArchExplorer.Lib

variable {insts window : List RiscvInstruction} {inst i j : RiscvInstruction} {s s' : O3Graph}
  {u v : Vertex} {e : OutgoingEdge} {rest : List TraceLine} {V : Prop}

/-- The dependences between instructions: a mispredicted branch delays the next fetch, and a busy
resource delays the renaming or the issue of a later instruction. -/
inductive CrossEdge : Vertex → OutgoingEdge → Prop
  | miss {i j : RiscvInstruction} (b : Bottleneck) (hlt : i.instSeq < j.instSeq) :
      CrossEdge (completeStage i) ⟨firstStage j, delay i.complete j.fetchCacheLine,
        delay i.complete j.fetchCacheLine, b⟩
  | rename {i j : RiscvInstruction} (b : Bottleneck) (hlt : i.instSeq < j.instSeq) :
      CrossEdge (renameStage i) ⟨renameStage j, delay i.rename j.rename,
        delay i.rename j.rename, b⟩
  | issue {i j : RiscvInstruction} (b : Bottleneck) (hlt : i.instSeq < j.instSeq) :
      CrossEdge (issueStage i) ⟨issueStage j, delay i.issue j.issue, delay i.issue j.issue, b⟩

@[simp] lemma issueStage_instSeq : (issueStage i).instSeq = i.instSeq :=
  (mem_stages issueStage_mem).2

@[simp] lemma issueStage_inst : (issueStage i).inst = i := (mem_stages issueStage_mem).1

@[simp] lemma completeStage_instSeq : (completeStage i).instSeq = i.instSeq :=
  (mem_stages completeStage_mem).2

@[simp] lemma completeStage_inst : (completeStage i).inst = i := (mem_stages completeStage_mem).1

lemma CrossEdge.instSeq_lt (h : CrossEdge u e) : u.instSeq < e.child.instSeq := by
  cases h with
  | miss b hlt   => simpa [firstStage, single] using hlt
  | rename b hlt => simpa [renameStage, single] using hlt
  | issue b hlt  => simpa using hlt

/-- The edges that `addVirtualEdge` enters. -/
inductive VirtualEdge : Vertex → OutgoingEdge → Prop
  | intro {u v : Vertex} (hlt : u.rank < v.rank) :
      VirtualEdge u ⟨v, delay u.timing v.timing, 0, .virtual⟩

/-- The edges of the graph. There are virtual ones only if the graph has been analyzed, which `V`
says. -/
inductive EdgeKind (V : Prop) : Vertex → OutgoingEdge → Prop
  | stage {u v : Vertex} (h : nextStage u = some v) : EdgeKind V u (stageEdge u v)
  | cross {u : Vertex} {e : OutgoingEdge} (h : CrossEdge u e) : EdgeKind V u e
  | virtual {u : Vertex} {e : OutgoingEdge} (hV : V) (h : VirtualEdge u e) : EdgeKind V u e

/-- The graph after the chains of `insts` have been entered; `rest` is still to be read. -/
structure Built (V : Prop) (insts window : List RiscvInstruction) (rest : List TraceLine)
    (s : O3Graph) : Prop where
  numbered : Numbered insts
  good : Good insts s
  kinds : AllEdges insts (EdgeKind V) s
  hasNext : ∀ u, Owned insts u → ∀ v, nextStage u = some v → stageEdge u v ∈ s.outgoing u
  fresh : ¬V → Tight s ∧ Chained insts s
  stream_eq : s.instStream = ⟨rest, insts.length⟩
  window_eq : s.instWindow = window

lemma Built.init (trace : List TraceLine) : Built V [] [] trace (.init trace) where
  numbered := trivial
  good := .init trace
  kinds := fun u hu => absurd hu.1 (by simp)
  hasNext := fun u hu => absurd hu.1 (by simp)
  fresh := fun _ => ⟨by simp [Tight, O3Graph.init], fun u hu => absurd hu.1 (by simp)⟩
  stream_eq := rfl
  window_eq := rfl

lemma Built.evolves {Q : Vertex → OutgoingEdge → Prop} {P : Prop}
    (h : Built V insts window rest s) (he : Evolves insts Q P s s')
    (hQ : ∀ u e, Q u e → EdgeKind V u e) (hfresh : ¬V → Tight s' ∧ Chained insts s') :
    Built V insts window rest s' where
  numbered := h.numbered
  good := he.good h.numbered h.good
  kinds := he.allEdges h.numbered hQ h.kinds
  hasNext := fun u hu v hv => by
    obtain ⟨es, hes, -⟩ := he.outgoing h.numbered hu
    rw [hes]
    exact List.mem_append_left _ (h.hasNext u hu v hv)
  fresh := hfresh
  stream_eq := by rw [he.instStream, h.stream_eq]
  window_eq := by rw [he.instWindow, h.window_eq]

lemma Built.connect (h : Built V insts window rest s) (hu : Owned insts u)
    (he : Owned insts e.child) (hc : CrossEdge u e) :
    Built V insts window rest (s.connect u e) := by
  have hev : Evolves insts CrossEdge False s (s.connect u e) :=
    .step (.connect hu he (Vertex.rank_lt_of_instSeq_lt hc.instSeq_lt) hc)
  refine h.evolves hev (fun _ _ => .cross) fun hV => ?_
  exact ⟨hev.tight h.numbered h.good (h.fresh hV).1,
    hev.chained h.numbered (fun _ _ => CrossEdge.instSeq_lt) (h.fresh hV).2⟩

/-! ### Looking up vertices -/

/-- The table holds every stage but the commit under its own key. -/
lemma Built.lookup_stage (h : Built V insts window rest s) (hi : i ∈ insts) (hu : u ∈ stages i)
    (hc : u.type ≠ .c) : s.instToVertex.lookup (hashInst i u.type) = some u := by
  have hui := (mem_stages hu).1
  have hown : Owned insts u := .of_mem hi hu
  obtain ⟨v, -, hv, -⟩ := exists_nextStage hu hc
  have hne : s.outgoing u ≠ [] := List.ne_nil_of_mem (h.hasNext u hown v hv)
  have hmem := h.good.lookup_complete u hown hne
  obtain ⟨w, hw⟩ := Option.isSome_iff_exists.mp (AList.lookup_isSome.mpr hmem)
  obtain ⟨hwo, hkey⟩ := h.good.lookup_sound _ w hw
  obtain ⟨hseq, htype⟩ := hashInst_inj hkey
  rw [← hui, hw, hown.eq h.numbered hwo htype (by rw [hown.instSeq_eq, hwo.instSeq_eq, hseq])]

/-- A stage that an instruction does not have is not in the table. -/
lemma Built.lookup_none {type : VertexType} (h : Built V insts window rest s) (hi : i ∈ insts)
    (ht : ∀ u ∈ stages i, u.type ≠ type) : s.instToVertex.lookup (hashInst i type) = none := by
  cases hw : s.instToVertex.lookup (hashInst i type) with
  | none   => rfl
  | some w =>
    obtain ⟨hwo, hkey⟩ := h.good.lookup_sound _ w hw
    obtain ⟨hseq, htype⟩ := hashInst_inj hkey
    have hwi : w.inst = i := h.numbered.eq_of_instSeq hwo.1 hi hseq.symm
    exact absurd htype.symm (ht w (hwi ▸ hwo.2))

lemma Built.getVertex_stage (h : Built V insts window rest s) (hi : i ∈ insts) (hu : u ∈ stages i)
    (hc : u.type ≠ .c) : (getVertexFromInst i u.type).run s = (.ok u, s) := by
  simp [getVertexFromInst, Exec.run_bind, h.lookup_stage hi hu hc]

lemma Built.getVertex_r (h : Built V insts window rest s) (hi : i ∈ insts) :
    (getVertexFromInst i .r).run s = (.ok (renameStage i), s) :=
  h.getVertex_stage hi renameStage_mem (by simp [renameStage, single])

lemma Built.getVertex_f1 (h : Built V insts window rest s) (hi : i ∈ insts) :
    (getVertexFromInst i .f1).run s = (.ok (firstStage i), s) :=
  h.getVertex_stage hi firstStage_mem (by simp [firstStage, single])

/-- The issue stage is found under its own key or as a merged stage. -/
lemma Built.getVertex_i (h : Built V insts window rest s) (hi : i ∈ insts) :
    (getVertexFromInst i .i).run s = (.ok (issueStage i), s) := by
  by_cases hd : i.dispatch = i.issue
  · have htype : (issueStage i).type = .di := by simp [issueStage, hd]
    have hnone := h.lookup_none hi fun u hu => type_ne_i hd hu
    have hsome := h.lookup_stage hi issueStage_mem (by simp [htype])
    rw [htype] at hsome
    simp [getVertexFromInst, Exec.run_bind, hnone, mergedKey, hsome]
  · have htype : (issueStage i).type = .i := by simp [issueStage, hd, single]
    rw [← htype]
    exact h.getVertex_stage hi issueStage_mem (by simp [htype])

/-- The completion stage is found under its own key or as a merged stage. -/
lemma Built.getVertex_p (h : Built V insts window rest s) (hi : i ∈ insts) :
    (getVertexFromInst i .p).run s = (.ok (completeStage i), s) := by
  by_cases hm : Merged i
  · have htype : (completeStage i).type = .mp := by simp [completeStage, hm]
    have hnone := h.lookup_none hi fun u hu => type_ne_p hm hu
    have hsome := h.lookup_stage hi completeStage_mem (by simp [htype])
    rw [htype] at hsome
    simp [getVertexFromInst, Exec.run_bind, hnone, mergedKey, hsome]
  · have htype : (completeStage i).type = .p := by simp [completeStage, hm, single]
    rw [← htype]
    exact h.getVertex_stage hi completeStage_mem (by simp [htype])

/-! ### Edges between instructions -/

/-- What the dependences of a new instruction do to the graph. -/
def Extends (x : DegM Unit) (inst : RiscvInstruction) (insts : List RiscvInstruction) : Prop :=
  ∀ (V : Prop) rest s, Built V (inst :: insts) insts rest s →
    x.wp (fun _ => Built V (inst :: insts) insts rest) (fun _ _ => False) s

lemma Built.instSeq_lt (h : Built V (inst :: insts) window rest s) (hi : i ∈ insts) :
    i.instSeq < inst.instSeq := by
  have := h.numbered.1
  have := h.numbered.2.instSeq_mem hi
  omega

lemma extends_skip : Extends (pure ()) inst insts := fun V rest s h => by simpa using h

lemma extends_ite {p : Prop} [Decidable p] {x : DegM Unit} (h : Extends x inst insts) :
    Extends (if p then x else pure ()) inst insts := by
  split_ifs
  · exact h
  · exact extends_skip

/-- Connecting the renaming stages of an instruction of the window and of the new one. -/
lemma extends_rename (hi : i ∈ insts) (b : Bottleneck) :
    Extends (do
      let r' ← getVertexFromInst i .r
      let r ← getVertexFromInst inst .r
      fromRToR b r' r) inst insts := by
  intro V rest s h
  rw [Exec.wp_bind, Exec.wp_iff_of_run (h.getVertex_r (List.mem_cons_of_mem _ hi)), Exec.wp_bind,
    Exec.wp_iff_of_run (h.getVertex_r List.mem_cons_self)]
  exact h.connect (.of_mem (List.mem_cons_of_mem _ hi) renameStage_mem)
    (.of_mem List.mem_cons_self renameStage_mem) (.rename b (h.instSeq_lt hi))

/-- Connecting the issue stages of an instruction of the window and of the new one. -/
lemma extends_issue (hi : i ∈ insts) (b : Latency → Bottleneck) :
    Extends (do
      let i' ← getVertexFromInst i .i
      let i ← getVertexFromInst inst .i
      fromIToI b i' i) inst insts := by
  intro V rest s h
  rw [Exec.wp_bind, Exec.wp_iff_of_run (h.getVertex_i (List.mem_cons_of_mem _ hi)), Exec.wp_bind,
    Exec.wp_iff_of_run (h.getVertex_i List.mem_cons_self)]
  simp only [fromIToI, issueStage_inst]
  exact h.connect (.of_mem (List.mem_cons_of_mem _ hi) issueStage_mem)
    (.of_mem List.mem_cons_self issueStage_mem) (.issue _ (h.instSeq_lt hi))

lemma extends_connectRename (dep : RiscvInstruction → Bool) (b : Bottleneck) :
    Extends (connectRenameVia getVertexFromInst inst dep (fromRToR b)) inst insts := by
  intro V rest s h
  rw [connectRenameVia, Exec.wp_bind, Exec.wp_get, h.window_eq]
  cases hf : insts.find? dep with
  | none   => exact extends_skip V rest s h
  | some i => exact extends_rename (List.mem_of_find?_eq_some hf) b V rest s h

lemma extends_missBp (hne : insts ≠ []) :
    Extends (modelMissBpInteractionImpl inst) inst insts := by
  intro V rest s h
  rw [modelMissBpInteractionImpl, missBpVia, Exec.wp_bind, Exec.wp_get, h.window_eq]
  cases insts with
  | nil => exact absurd rfl hne
  | cons prev insts =>
    dsimp only
    split_ifs
    · have hprev : prev ∈ inst :: prev :: insts := by simp
      rw [Exec.wp_bind, Exec.wp_iff_of_run (h.getVertex_p hprev), Exec.wp_bind,
        Exec.wp_iff_of_run (h.getVertex_f1 List.mem_cons_self)]
      simp only [fromPToF1, completeStage_inst]
      exact h.connect (.of_mem hprev completeStage_mem) (.of_mem List.mem_cons_self firstStage_mem)
        (.miss _ (h.instSeq_lt List.mem_cons_self))
    · exact h

lemma extends_rob : Extends (modelRobInteractionImpl inst) inst insts :=
  extends_ite (extends_connectRename _ _)

lemma extends_lq : Extends (modelLqInteractionImpl inst) inst insts :=
  extends_ite (extends_connectRename _ _)

lemma extends_sq : Extends (modelSqInteractionImpl inst) inst insts :=
  extends_ite (extends_connectRename _ _)

lemma extends_iq : Extends (modelIqInteractionImpl inst) inst insts :=
  extends_ite (extends_connectRename _ _)

/-- The order asserted by the register dependences holds for older instructions, and what is found
is one of them. -/
lemma findRfDep_ok {l : List RiscvInstruction} (hl : ∀ i ∈ l, i.instSeq < inst.instSeq) :
    ∃ r, findRfDep inst l = .ok r ∧ ∀ i, r = some i → i ∈ l := by
  induction l with
  | nil => exact ⟨none, rfl, by simp⟩
  | cons i l ih =>
    obtain ⟨r, hr, hmem⟩ := ih fun j hj => hl j (List.mem_cons_of_mem _ hj)
    simp only [findRfDep, warDep, if_pos (hl i List.mem_cons_self), bind, Except.bind]
    split_ifs
    · exact ⟨some i, rfl, by simp⟩
    · exact ⟨r, hr, fun j hj => List.mem_cons_of_mem _ (hmem j hj)⟩

lemma extends_rf : Extends (modelRfInteractionImpl inst) inst insts := by
  refine extends_ite fun V rest s h => ?_
  obtain ⟨r, hr, hmem⟩ := findRfDep_ok fun i hi => h.instSeq_lt hi
  rw [Exec.wp_bind, Exec.wp_get, h.window_eq, hr, Exec.wp_bind, Exec.wp_ofExcept_ok]
  cases r with
  | none   => exact h
  | some i =>
    have hi : i ∈ insts := hmem i rfl
    have hr' := h.getVertex_r (List.mem_cons_of_mem _ hi)
    have hr := h.getVertex_r List.mem_cons_self
    by_cases hint : inst.useIntRf = true
    · simpa [hint, fromRToRRf] using extends_rename hi .intRF V rest s h
    · by_cases hfp : inst.useFpRf = true
      · simpa [hint, hfp, fromRToRRf] using extends_rename hi .fpRF V rest s h
      · simpa [hint, hfp, Exec.wp_iff_of_run hr', Exec.wp_iff_of_run hr] using h

lemma extends_fuLoop {l : List RiscvInstruction} (hl : ∀ i ∈ l, i ∈ insts) :
    Extends (fuLoopVia getVertexFromInst inst l) inst insts := by
  induction l with
  | nil => exact extends_skip
  | cons i l ih =>
    have hi : i ∈ insts := hl i List.mem_cons_self
    have hrest := ih fun j hj => hl j (List.mem_cons_of_mem _ hj)
    intro V rest s h
    rw [fuLoopVia]
    split_ifs
    · cases fuBottleneck inst with
      | some b => exact extends_issue hi (fun _ => b) V rest s h
      | none   =>
        rw [Exec.wp_bind, Exec.wp_iff_of_run (h.getVertex_i (List.mem_cons_of_mem _ hi)),
          Exec.wp_bind, Exec.wp_iff_of_run (h.getVertex_i List.mem_cons_self)]
        exact hrest V rest s h
    · exact hrest V rest s h

lemma extends_fu : Extends (modelFuInteractionImpl inst) inst insts := by
  refine extends_ite fun V rest s h => ?_
  rw [Exec.wp_bind, Exec.wp_get, h.window_eq]
  exact extends_fuLoop (fun i hi => hi) V rest s h

/-- The inner loop can only select the instruction it was started for. -/
lemma rawInner_ok (hi : i.instSeq < inst.instSeq) (size k n : ℕ) (t : UInt64)
    (dep : Option RiscvInstruction) :
    ∃ n' t' dep', rawInner inst i size k n t dep = .ok (n', t', dep') ∧
      (dep' = dep ∨ dep' = some i) := by
  induction k generalizing n t dep with
  | zero => exact ⟨n, t, dep, rfl, .inl rfl⟩
  | succ k ih =>
    simp only [rawInner, rawDep, if_pos hi, bind, Except.bind]
    split_ifs
    · obtain ⟨n', t', dep', heq, hdep⟩ := ih (n + 1) (resultTick i) (some i)
      exact ⟨n', t', dep', heq, .inr (hdep.elim id id)⟩
    · exact ih (n + 1) t dep
    · exact ⟨n, t, dep, rfl, .inl rfl⟩

lemma rawOuter_ok (hw : ∀ i ∈ window, i.instSeq < inst.instSeq) (const k n : ℕ) (t : UInt64)
    (dep : Option RiscvInstruction)
    (hdep : ∀ i, dep = some i → i ∈ window ∧ inst.src.contains i.dst = true) :
    ∃ r, rawOuter inst const window k n t dep = .ok r ∧
      ∀ i, r = some i → i ∈ window ∧ inst.src.contains i.dst = true := by
  induction k generalizing n t dep with
  | zero => exact ⟨dep, rfl, hdep⟩
  | succ k ih =>
    -- the end of an iteration
    have hend (n' : ℕ) (t' : UInt64) (dep' : Option RiscvInstruction)
        (hdep' : ∀ i, dep' = some i → i ∈ window ∧ inst.src.contains i.dst = true) :
        ∃ r, (if dep'.isSome then pure dep' else rawOuter inst const window k (n' + 1) t' dep') =
          Except.ok r ∧ ∀ i, r = some i → i ∈ window ∧ inst.src.contains i.dst = true := by
      split_ifs
      · exact ⟨dep', rfl, hdep'⟩
      · exact ih (n' + 1) t' dep' hdep'
    rw [rawOuter]
    cases hn : window[n]? with
    | none   => exact ⟨dep, rfl, hdep⟩
    | some i =>
      have hi : i ∈ window := List.mem_of_getElem? hn
      simp only [rawDep, if_pos (hw i hi), bind, Except.bind]
      split_ifs with hraw
      · obtain ⟨n', t', dep', heq, hd⟩ := rawInner_ok (hw i hi) window.length const n t dep
        rw [heq]
        refine hend n' t' dep' ?_
        rcases hd with rfl | rfl
        · exact hdep
        · intro j hj
          exact (Option.some_inj.mp hj) ▸ ⟨hi, hraw⟩
      · exact hend n t dep hdep

lemma extends_raw (const : ℕ) : Extends (modelRawInteractionImpl inst const) inst insts := by
  refine extends_ite fun V rest s h => ?_
  rw [Exec.wp_bind, Exec.wp_get, h.window_eq]
  obtain ⟨r, hr, hmem⟩ := rawOuter_ok (fun i hi => h.instSeq_lt hi) const (insts.length + 1) 0 0
    none (by simp)
  simp only [hr, Exec.wp_bind, Exec.wp_ofExcept_ok]
  cases r with
  | none   => exact h
  | some i =>
    by_cases hl : i.isLoad = true
    · simpa [hl, fromIToIDcache] using extends_issue (hmem i rfl).1 dcacheBottleneck V rest s h
    · simpa [hl, fromIToIRaw] using extends_issue (hmem i rfl).1 (fun _ => .raw) V rest s h

lemma extends_bind {x y : DegM Unit} (hx : Extends x inst insts) (hy : Extends y inst insts) :
    Extends (do x; y) inst insts := by
  intro V rest s h
  rw [Exec.wp_bind]
  exact (hx V rest s h).mono (fun _ s' h' => hy V rest s' h') fun _ _ h' => h'

lemma extends_interactionImpl : Extends (modelInteractionImpl inst) inst insts := by
  intro V rest s h
  rw [modelInteractionImpl, interactionImplVia, Exec.wp_bind, Exec.wp_get, h.window_eq]
  split_ifs with hne
  · exact h
  · exact extends_bind (extends_missBp hne) (extends_bind extends_rob (extends_bind extends_lq
      (extends_bind extends_sq (extends_bind extends_rf (extends_bind extends_iq
        (extends_bind extends_fu (extends_raw rawConst))))))) V rest s h

/-! ### Modelling an instruction -/

/-- The chain of an instruction: one edge from each of its vertices to the next one. -/
lemma outgoing_connectChain (hn : Numbered insts) (s : O3Graph) {l : List Vertex} (hnodup : l.Nodup)
    (hl : ∀ v ∈ l, Owned insts v) (hv : Owned insts v) :
    (s.connectChain l).outgoing v =
      s.outgoing v ++ ((nextIn l v).map (stageEdge v)).toList := by
  match l with
  | []          => simp [O3Graph.connectChain, nextIn]
  | [u]         => simp [nextIn]
  | u :: w :: l =>
    have hu : Owned insts u := hl u (by simp)
    rw [O3Graph.connectChain_cons_cons, outgoing_connectChain hn _ (List.nodup_cons.mp hnodup).2
      (fun x hx => hl x (List.mem_cons_of_mem _ hx)) hv, outgoing_connect hn hu hv,
      nextIn_cons_cons]
    split_ifs with huv
    · -- `u` does not occur again
      subst huv
      rw [nextIn_eq_none (List.nodup_cons.mp hnodup).1]
      simp
    · rfl

lemma connectChain_evolves (s : O3Graph) {l : List Vertex} (hl : ∀ v ∈ l, Owned insts v)
    (hsorted : l.Pairwise fun u v => u.type.num < v.type.num)
    (hseq : ∀ u ∈ l, ∀ v ∈ l, u.instSeq = v.instSeq) :
    Evolves insts (fun u e => e.child.instSeq = u.instSeq) False s (s.connectChain l) := by
  match l with
  | []          => exact .refl
  | [u]         => exact .refl
  | u :: w :: l =>
    rw [O3Graph.connectChain_cons_cons]
    have huw : u.instSeq = w.instSeq := hseq u (by simp) w (by simp)
    have hnum : u.type.num < w.type.num := (List.pairwise_cons.mp hsorted).1 w (by simp)
    have hstep : Step insts (fun u e => e.child.instSeq = u.instSeq) False s
        (s.connect u (stageEdge u w)) :=
      .connect (hl u (by simp)) (hl w (by simp)) (Vertex.rank_lt_of_num_lt huw hnum) huw.symm
    refine .trans (.step hstep) ?_
    exact connectChain_evolves _ (fun x hx => hl x (List.mem_cons_of_mem _ hx))
      (List.pairwise_cons.mp hsorted).2
      fun x hx y hy => hseq x (List.mem_cons_of_mem _ hx) y (List.mem_cons_of_mem _ hy)

/-- Entering the chain of the instruction that was read last. -/
lemma Built.model (h : Built V insts window rest s) (hi : inst.instSeq = insts.length + 1)
    (rest' : List TraceLine) :
    Built V (inst :: insts) window rest'
      ({ s with instStream := ⟨rest', insts.length + 1⟩ }.connectChain (stages inst)) := by
  have hn : Numbered (inst :: insts) := ⟨hi, h.numbered⟩
  have hown (v : Vertex) (hv : v ∈ stages inst) : Owned (inst :: insts) v :=
    .of_mem List.mem_cons_self hv
  have hg : Good (inst :: insts) { s with instStream := ⟨rest', insts.length + 1⟩ } := by
    obtain ⟨hk, hpk, hc, hp, ht, hls, hlc⟩ := h.good.cons h.numbered hi
    exact ⟨hk, hpk, hc, hp, ht, hls, hlc⟩
  have hev : Evolves (inst :: insts) (fun u e => e.child.instSeq = u.instSeq) False
      { s with instStream := ⟨rest', insts.length + 1⟩ }
      ({ s with instStream := ⟨rest', insts.length + 1⟩ }.connectChain (stages inst)) :=
    connectChain_evolves _ hown (stages_sorted inst)
      fun u hu v hv => (mem_stages hu).2.trans (mem_stages hv).2.symm
  -- a stage of the new instruction has no older edges; an older stage gets no new ones
  have hcases (u : Vertex) (hu : Owned (inst :: insts) u) :
      s.outgoing u = [] ∧ u ∈ stages inst ∨ Owned insts u ∧ u ∉ stages inst := by
    rcases List.mem_cons.mp hu.1 with hui | hui
    · refine .inl ⟨h.good.outgoing_eq_nil h.numbered ?_, hui ▸ hu.2⟩
      rw [hu.instSeq_eq, hui, hi]
      omega
    · refine .inr ⟨⟨hui, hu.2⟩, fun hmem => ?_⟩
      have := h.numbered.instSeq_mem hui
      rw [(mem_stages hmem).1] at this
      omega
  have hout (u : Vertex) (hu : Owned (inst :: insts) u) :
      ({ s with instStream := ⟨rest', insts.length + 1⟩ }.connectChain (stages inst)).outgoing u =
        s.outgoing u ++ ((nextIn (stages inst) u).map (stageEdge u)).toList :=
    outgoing_connectChain hn _ (stages_nodup inst) hown hu
  refine ⟨hn, hev.good hn hg, ?_, ?_, fun hV => ⟨hev.tight hn hg (h.fresh hV).1, ?_⟩, ?_, ?_⟩
  · intro u hu e he
    rw [hout u hu] at he
    rcases hcases u hu with ⟨hnil, hmem⟩ | ⟨hu, hmem⟩
    · rw [hnil, List.nil_append, Option.mem_toList, Option.map_eq_some_iff] at he
      obtain ⟨v, hv, rfl⟩ := he
      exact .stage (by rw [nextStage, (mem_stages hmem).1, hv])
    · rw [nextIn_eq_none hmem, Option.map_none, Option.toList_none, List.append_nil] at he
      exact h.kinds u hu e he
  · intro u hu v hv
    rw [hout u hu]
    rcases hcases u hu with ⟨hnil, hmem⟩ | ⟨hu, hmem⟩
    · rw [nextStage, (mem_stages hmem).1] at hv
      simp [hv]
    · exact List.mem_append_left _ (h.hasNext u hu v hv)
  · intro u hu
    rw [hout u hu]
    rcases hcases u hu with ⟨hnil, hmem⟩ | ⟨hu, hmem⟩
    · rw [hnil, List.nil_append, nextStage, (mem_stages hmem).1]
      cases hv : nextIn (stages inst) u with
      | none   => rfl
      | some v =>
        have hseq : v.instSeq = u.instSeq := by
          rw [(mem_stages hmem).2, (mem_stages (List.mem_of_mem_tail (mem_of_nextIn hv).2)).2]
        simp [stageEdge, hseq]
    · rw [nextIn_eq_none hmem, Option.map_none, Option.toList_none, List.append_nil,
        (h.fresh hV).2 u hu]
  · rw [hev.instStream, List.length_cons]
  · rw [hev.instWindow]
    exact h.window_eq

/-- Modelling the instruction that was read last. -/
lemma Built.modelInst (h : Built V insts insts rest s) (inst : RiscvInstruction)
    (hi : inst.instSeq = insts.length + 1) (rest' : List TraceLine) :
    (modelInst inst).wp (fun _ => Built V (inst :: insts) (inst :: insts) rest') (fun _ _ => False)
      { s with instStream := ⟨rest', insts.length + 1⟩ } := by
  have hmodel : (Deg.model inst).run { s with instStream := ⟨rest', insts.length + 1⟩ } = _ :=
    model_eq hi.symm
  rw [Deg.modelInst, Exec.wp_bind, Exec.wp_iff_of_run hmodel, modelInteraction, interactionVia,
    Exec.wp_bind]
  refine (extends_interactionImpl V rest' _ (h.model hi rest')).mono ?_ fun _ _ h' => h'
  intro _ s' h'
  exact ⟨h'.numbered, ⟨h'.good.keys, h'.good.predKeys, h'.good.child, h'.good.parent,
    h'.good.transpose, h'.good.lookup_sound, h'.good.lookup_complete⟩, h'.kinds, h'.hasNext,
    h'.fresh, h'.stream_eq, by simp [h'.window_eq]⟩

/-! ### Any number of instructions -/

/-- The instructions read after `insts` when the lines `trace` follow, the newest one first. -/
def readAll (insts : List RiscvInstruction) : List TraceLine → List RiscvInstruction
  | []            => insts
  | line :: trace => readAll (⟨line, insts.length + 1⟩ :: insts) trace

lemma nextInst_run {line : TraceLine} (h : Built V insts insts (line :: rest) s) :
    nextInst.run s =
      (.ok (some ⟨line, insts.length + 1⟩), { s with instStream := ⟨rest, insts.length + 1⟩ }) := by
  simp [nextInst, RiscvInstructionStream.next, h.stream_eq]

lemma nextInst_run_nil (h : Built V insts insts [] s) : nextInst.run s = (.ok none, s) := by
  simp only [nextInst, Exec.run_modifyGet, RiscvInstructionStream.next, h.stream_eq]
  rw [← h.stream_eq]

/-- Any number of instructions can be modelled. -/
lemma Built.modelSteps (h : Built V insts insts rest s) (n : ℕ) :
    ∃ s', (modelSteps n).run s = (.ok (), s') ∧
      Built V (readAll insts (rest.take n)) (readAll insts (rest.take n)) (rest.drop n) s' := by
  induction n generalizing insts rest s with
  | zero => exact ⟨s, rfl, by simpa [readAll] using h⟩
  | succ n ih =>
    cases rest with
    | nil =>
      refine ⟨s, ?_, by simpa [readAll] using h⟩
      rw [Deg.modelSteps, Exec.run_bind_ok (nextInst_run_nil h)]
      rfl
    | cons line rest =>
      obtain ⟨_, s₁, hrun, h₁⟩ := (h.modelInst ⟨line, insts.length + 1⟩ rfl rest).returns
      obtain ⟨s₂, hrun₂, h₂⟩ := ih h₁
      refine ⟨s₂, ?_, by simpa [readAll] using h₂⟩
      rw [Deg.modelSteps, Exec.run_bind_ok (nextInst_run h)]
      exact (Exec.run_bind_ok hrun _).trans hrun₂

lemma length_readAll (insts : List RiscvInstruction) (trace : List TraceLine) :
    (readAll insts trace).length = insts.length + trace.length := by
  induction trace generalizing insts with
  | nil => rfl
  | cons line trace ih =>
    rw [readAll, ih, List.length_cons, List.length_cons]
    omega

lemma subset_readAll (insts : List RiscvInstruction) (trace : List TraceLine) :
    insts ⊆ readAll insts trace := by
  induction trace generalizing insts with
  | nil => exact List.Subset.refl _
  | cons line trace ih => exact List.Subset.trans (List.subset_cons_self _ _) (ih _)

/-- Every instruction that was read stands in the trace. -/
lemma mem_readAll {insts : List RiscvInstruction} {trace : List TraceLine}
    (h : inst ∈ readAll insts trace) : inst ∈ insts ∨ inst.toTraceLine ∈ trace := by
  induction trace generalizing insts with
  | nil => exact .inl h
  | cons line trace ih =>
    rcases ih h with h | h
    · rcases List.mem_cons.mp h with rfl | h
      · exact .inr List.mem_cons_self
      · exact .inl h
    · exact .inr (List.mem_cons_of_mem _ h)

/-- Every line of the trace is read. -/
lemma exists_mem_readAll (insts : List RiscvInstruction) {trace : List TraceLine}
    {line : TraceLine} (h : line ∈ trace) :
    ∃ inst ∈ readAll insts trace, inst.toTraceLine = line := by
  induction trace generalizing insts with
  | nil => simp at h
  | cons line' trace ih =>
    rcases List.mem_cons.mp h with rfl | h
    · refine ⟨⟨line, insts.length + 1⟩, ?_, rfl⟩
      exact subset_readAll _ trace List.mem_cons_self
    · exact ih _ h

end ArchExplorer.Deg
