import ArchExplorer.Deg.Construction

/-!
# The edges of a trace

`traceEdges` lists the edges of a trace as a function of the instructions alone, each with the
vertex that it leaves and in the order in which they are entered. The construction enters exactly
these edges, so that the entry of a vertex lists its edges in this order.
-/

namespace ArchExplorer.Deg

open ArchExplorer.Lib

variable {insts past : List RiscvInstruction} {inst i j prev : RiscvInstruction} {s : O3Graph}
  {u v : Vertex} {rest : List TraceLine} {V : Prop}

/-! ### The edges as lists -/

/-- The edges between consecutive vertices of a list. -/
def chainEdges : List Vertex → List (Vertex × OutgoingEdge)
  | u :: v :: l => (u, stageEdge u v) :: chainEdges (v :: l)
  | _           => []

/-- The edge from a mispredicted branch to the next fetch. -/
def missBpEdges (past : List RiscvInstruction) (inst : RiscvInstruction) :
    List (Vertex × OutgoingEdge) :=
  match past.head? with
  | some prev =>
    let weight := delay prev.complete inst.fetchCacheLine
    if prev.isControl ∧ prev.complete < inst.fetchCacheLine then
      [(completeStage prev, ⟨firstStage inst, weight, weight, .bpMiss⟩)]
    else []
  | none      => []

/-- The edge between the renaming stages of two instructions. -/
def renameEdge (bottleneck : Bottleneck) (prev inst : RiscvInstruction) : Vertex × OutgoingEdge :=
  let weight := delay prev.rename inst.rename
  (renameStage prev, ⟨renameStage inst, weight, weight, bottleneck⟩)

/-- The edge between the issue stages of two instructions. -/
def issueEdge (bottleneck : Bottleneck) (prev inst : RiscvInstruction) : Vertex × OutgoingEdge :=
  let weight := delay prev.issue inst.issue
  (issueStage prev, ⟨issueStage inst, weight, weight, bottleneck⟩)

/-- The edge from the newest instruction that meets a condition. -/
def resourceEdges (bottleneck : Bottleneck) (dep : RiscvInstruction → Bool)
    (past : List RiscvInstruction) (inst : RiscvInstruction) : List (Vertex × OutgoingEdge) :=
  match past.find? dep with
  | some prev => [renameEdge bottleneck prev inst]
  | none      => []

def robEdges (past : List RiscvInstruction) (inst : RiscvInstruction) :
    List (Vertex × OutgoingEdge) :=
  if inst.blockFromRob ≠ 0 then resourceEdges .rob (fun prev => prev.rob = inst.rob) past inst
  else []

def lqEdges (past : List RiscvInstruction) (inst : RiscvInstruction) :
    List (Vertex × OutgoingEdge) :=
  if inst.blockFromLq ≠ 0 ∧ inst.isLoad then
    resourceEdges .lq (fun prev => prev.lq = inst.lq) past inst
  else []

def sqEdges (past : List RiscvInstruction) (inst : RiscvInstruction) :
    List (Vertex × OutgoingEdge) :=
  if inst.blockFromSq ≠ 0 ∧ inst.isStore then
    resourceEdges .sq (fun prev => prev.sq = inst.sq) past inst
  else []

/-- Two instructions write the same register, or the older one reads what the newer one writes. -/
def rfConflict (inst prev : RiscvInstruction) : Bool :=
  prev.src.contains inst.dst || wrwDep inst prev

/-- The register file to which a conflict is charged. -/
def rfBottleneck (inst : RiscvInstruction) : Option Bottleneck :=
  if inst.useIntRf then some .intRF
  else if inst.useFpRf then some .fpRF
  else none

def rfEdges (past : List RiscvInstruction) (inst : RiscvInstruction) :
    List (Vertex × OutgoingEdge) :=
  if inst.blockFromRf ≠ 0 then
    match rfBottleneck inst, past.find? (rfConflict inst) with
    | some bottleneck, some prev => [renameEdge bottleneck prev inst]
    | _,               _         => []
  else []

def iqEdges (past : List RiscvInstruction) (inst : RiscvInstruction) :
    List (Vertex × OutgoingEdge) :=
  if inst.blockFromIq ≠ 0 then resourceEdges .iq (fun prev => prev.iq = inst.iq) past inst
  else []

/-- `prev` occupies the functional unit when `inst` could be issued. -/
def fuConflict (inst prev : RiscvInstruction) : Bool :=
  prev.fu = inst.fu ∧ prev.issue < inst.issue ∧
    (inst.isLoad ∧ inst.issue ≤ prev.completeMemory ∨ inst.issue ≤ prev.complete)

def fuEdges (past : List RiscvInstruction) (inst : RiscvInstruction) :
    List (Vertex × OutgoingEdge) :=
  if inst.insertReadyList < inst.issue then
    match fuBottleneck inst, past.find? (fuConflict inst) with
    | some bottleneck, some prev => [issueEdge bottleneck prev inst]
    | _,               _         => []
  else []

/-- The bottleneck of an edge from a producer. -/
def rawBottleneck (inst dep : RiscvInstruction) : Bottleneck :=
  if dep.isLoad then dcacheBottleneck (delay dep.issue inst.issue) else .raw

def rawEdges (past : List RiscvInstruction) (inst : RiscvInstruction) :
    List (Vertex × OutgoingEdge) :=
  if inst.dispatch < inst.insertReadyList then
    match rawOuter inst rawConst past (past.length + 1) 0 0 none with
    | .ok (some dep) => [issueEdge (rawBottleneck inst dep) dep inst]
    | _              => []
  else []

/-- The edges that lead from earlier instructions to `inst`. -/
def interactionEdges (past : List RiscvInstruction) (inst : RiscvInstruction) :
    List (Vertex × OutgoingEdge) :=
  missBpEdges past inst ++ robEdges past inst ++ lqEdges past inst ++ sqEdges past inst ++
    rfEdges past inst ++ iqEdges past inst ++ fuEdges past inst ++ rawEdges past inst

/-- The edges of a trace whose newest instruction comes first. -/
def traceEdges : List RiscvInstruction → List (Vertex × OutgoingEdge)
  | []           => []
  | inst :: past => traceEdges past ++ chainEdges (stages inst) ++ interactionEdges past inst

/-! ### Entering a list of edges -/

/-- The graph with the listed edges entered. -/
def O3Graph.connectAll (s : O3Graph) (es : List (Vertex × OutgoingEdge)) : O3Graph :=
  es.foldl (fun s e => s.connect e.1 e.2) s

lemma O3Graph.connectAll_append (s : O3Graph) (es es' : List (Vertex × OutgoingEdge)) :
    s.connectAll (es ++ es') = (s.connectAll es).connectAll es' := List.foldl_append

lemma connectChain_eq (s : O3Graph) (l : List Vertex) :
    s.connectChain l = s.connectAll (chainEdges l) := by
  match l with
  | []          => rfl
  | [_]         => rfl
  | u :: v :: l => exact connectChain_eq (s.connect u (stageEdge u v)) (v :: l)

/-- The listed edges are appended to the entry of the vertex that they leave. -/
lemma outgoing_connectAll (hn : Numbered insts) (s : O3Graph) {es : List (Vertex × OutgoingEdge)}
    (hes : ∀ e ∈ es, Owned insts e.1) (hu : Owned insts u) :
    (s.connectAll es).outgoing u = s.outgoing u ++ (es.filter (·.1 = u)).map (·.2) := by
  induction es generalizing s with
  | nil => simp [O3Graph.connectAll]
  | cons e es ih =>
    obtain ⟨he, hes⟩ := List.forall_mem_cons.mp hes
    have := ih (s.connect e.1 e.2) hes
    rw [outgoing_connect hn he hu] at this
    rw [show s.connectAll (e :: es) = (s.connect e.1 e.2).connectAll es from rfl, this,
      List.filter_cons]
    by_cases heu : e.1 = u <;> simp [heu]

/-! ### The dependences of an instruction -/

/-- On the graph of `past` and the chain of `inst`, the computation enters the listed edges. -/
def Enters (past : List RiscvInstruction) (inst : RiscvInstruction) (x : DegM Unit)
    (es : List (Vertex × OutgoingEdge)) : Prop :=
  ∀ (V : Prop) rest s, Built V (inst :: past) past rest s → x.run s = (.ok (), s.connectAll es)

lemma Enters.bind {x y : DegM Unit} {es es' : List (Vertex × OutgoingEdge)}
    (hx : Enters past inst x es) (hext : Extends x inst past) (hy : Enters past inst y es') :
    Enters past inst (x >>= fun _ => y) (es ++ es') := by
  intro V rest s h
  have hrun := hx V rest s h
  have h' : Built V (inst :: past) past rest (s.connectAll es) :=
    (Exec.wp_iff_of_run hrun).mp (hext V rest s h)
  rw [Exec.run_bind_ok hrun, hy V rest _ h', O3Graph.connectAll_append]

/-- A computation that runs under a condition. -/
lemma Enters.when {c : Prop} [Decidable c] {x : DegM Unit} {es : List (Vertex × OutgoingEdge)}
    (h : Enters past inst x es) :
    Enters past inst (if c then x else pure ()) (if c then es else []) := by
  split_ifs
  · exact h
  · exact fun _ _ _ _ => rfl

lemma enters_rename (hi : i ∈ past) (b : Bottleneck) :
    Enters past inst (do
      let r' ← getVertexFromInst i .r
      let r ← getVertexFromInst inst .r
      fromRToR b r' r) [renameEdge b i inst] := by
  intro V rest s h
  rw [Exec.run_bind_ok (h.getVertex_r (List.mem_cons_of_mem _ hi)),
    Exec.run_bind_ok (h.getVertex_r List.mem_cons_self)]
  rfl

lemma enters_issue (hi : i ∈ past) (b : Latency → Bottleneck) :
    Enters past inst (do
      let i' ← getVertexFromInst i .i
      let i ← getVertexFromInst inst .i
      fromIToI b i' i) [issueEdge (b (delay i.issue inst.issue)) i inst] := by
  intro V rest s h
  rw [Exec.run_bind_ok (h.getVertex_i (List.mem_cons_of_mem _ hi)),
    Exec.run_bind_ok (h.getVertex_i List.mem_cons_self)]
  simp only [fromIToI, issueStage_inst]
  rfl

lemma enters_missBp (hne : past ≠ []) :
    Enters past inst (modelMissBpInteractionImpl inst) (missBpEdges past inst) := by
  intro V rest s h
  rw [modelMissBpInteractionImpl, missBpVia, Exec.run_bind_ok (Exec.run_get s), h.window_eq]
  obtain ⟨prev, past, rfl⟩ := List.exists_cons_of_ne_nil hne
  simp only [missBpEdges, List.head?_cons]
  split_ifs
  · have hprev : prev ∈ inst :: prev :: past := by simp
    rw [Exec.run_bind_ok (h.getVertex_p hprev),
      Exec.run_bind_ok (h.getVertex_f1 List.mem_cons_self)]
    simp only [fromPToF1, completeStage_inst]
    rfl
  · rfl

lemma enters_resource (b : Bottleneck) (dep : RiscvInstruction → Bool) :
    Enters past inst (connectRenameVia getVertexFromInst inst dep (fromRToR b))
      (resourceEdges b dep past inst) := by
  intro V rest s h
  rw [connectRenameVia, Exec.run_bind_ok (Exec.run_get s), h.window_eq, resourceEdges]
  cases hf : past.find? dep with
  | none   => rfl
  | some i => exact enters_rename (List.mem_of_find?_eq_some hf) b V rest s h

/-- All instructions of the past come before `inst`. -/
def Older (past : List RiscvInstruction) (inst : RiscvInstruction) : Prop :=
  ∀ prev ∈ past, prev.instSeq < inst.instSeq

lemma findRfDep_eq (h : Older past inst) :
    findRfDep inst past = .ok (past.find? (rfConflict inst)) := by
  induction past with
  | nil => rfl
  | cons prev past ih =>
    obtain ⟨hprev, hpast⟩ := List.forall_mem_cons.mp h
    have hwar : warDep inst prev = .ok (prev.src.contains inst.dst) := if_pos hprev
    rw [findRfDep, hwar, List.find?_cons]
    change (if rfConflict inst prev = true then _ else _) = _
    cases rfConflict inst prev with
    | true  => rfl
    | false => exact ih hpast

lemma enters_rf (ho : Older past inst) :
    Enters past inst (modelRfInteractionImpl inst) (rfEdges past inst) := by
  refine Enters.when fun V rest s h => ?_
  rw [Exec.run_bind_ok (Exec.run_get s), h.window_eq, findRfDep_eq ho,
    Exec.run_bind_ok (Exec.run_ofExcept _ s), rfBottleneck]
  cases hf : past.find? (rfConflict inst) with
  | none   => split_ifs <;> rfl
  | some i =>
    have hi := List.mem_of_find?_eq_some hf
    have hr' := h.getVertex_r (List.mem_cons_of_mem inst hi)
    have hr := h.getVertex_r List.mem_cons_self
    split_ifs with hint hfp
    · exact enters_rename hi .intRF V rest s h
    · exact enters_rename hi .fpRF V rest s h
    · -- the vertices are looked up but not connected
      change (getVertexFromInst i .r >>= _).run s = _
      rw [Exec.run_bind_ok hr', Exec.run_bind_ok hr]
      rfl

/-- The loop stops at the first conflict, unless the instruction uses no functional unit. -/
lemma enters_fuLoop {l : List RiscvInstruction} (hl : ∀ i ∈ l, i ∈ past) :
    Enters past inst (fuLoopVia getVertexFromInst inst l)
      (match fuBottleneck inst, l.find? (fuConflict inst) with
        | some b, some prev => [issueEdge b prev inst]
        | _,      _         => []) := by
  induction l with
  | nil => cases fuBottleneck inst <;> exact fun _ _ _ _ => rfl
  | cons i l ih =>
    have hi : i ∈ past := hl i List.mem_cons_self
    have ih := ih fun j hj => hl j (List.mem_cons_of_mem _ hj)
    intro V rest s h
    rw [fuLoopVia, List.find?_cons]
    by_cases hconf : i.fu = inst.fu ∧ i.issue < inst.issue ∧
        (inst.isLoad = true ∧ inst.issue ≤ i.completeMemory ∨ inst.issue ≤ i.complete)
    · have hfu : fuConflict inst i = true := decide_eq_true hconf
      rw [if_pos hconf, hfu]
      cases hb : fuBottleneck inst with
      | some b => exact enters_issue hi (fun _ => b) V rest s h
      | none   =>
        rw [Exec.run_bind_ok (h.getVertex_i (List.mem_cons_of_mem _ hi)),
          Exec.run_bind_ok (h.getVertex_i List.mem_cons_self)]
        rw [hb] at ih
        simpa using ih V rest s h
    · have hfu : fuConflict inst i = false := decide_eq_false hconf
      rw [if_neg hconf, hfu]
      exact ih V rest s h

lemma enters_fu : Enters past inst (modelFuInteractionImpl inst) (fuEdges past inst) := by
  refine Enters.when fun V rest s h => ?_
  rw [Exec.run_bind_ok (Exec.run_get s), h.window_eq]
  exact enters_fuLoop (fun i hi => hi) V rest s h

lemma enters_raw (ho : Older past inst) :
    Enters past inst (modelRawInteractionImpl inst rawConst) (rawEdges past inst) := by
  refine Enters.when fun V rest s h => ?_
  rw [Exec.run_bind_ok (Exec.run_get s), h.window_eq]
  obtain ⟨r, hr, hmem⟩ := rawOuter_ok ho rawConst (past.length + 1) 0 0 none (by simp)
  change (Exec.ofExcept (rawOuter inst rawConst past (past.length + 1) 0 0 none) >>= _).run s = _
  rw [hr, Exec.run_bind_ok (Exec.run_ofExcept _ s)]
  cases r with
  | none   => rfl
  | some i =>
    simp only [rawBottleneck]
    split_ifs with hl
    · exact enters_issue (hmem i rfl).1 dcacheBottleneck V rest s h
    · exact enters_issue (hmem i rfl).1 (fun _ => .raw) V rest s h

lemma interactionEdges_nil : interactionEdges [] inst = [] := by
  simp [interactionEdges, missBpEdges, robEdges, lqEdges, sqEdges, rfEdges, iqEdges, fuEdges,
    rawEdges, resourceEdges, rawOuter]

/-- The dependences of an instruction, one after the other. -/
lemma enters_interaction (ho : Older past inst) :
    Enters past inst (modelInteractionImpl inst) (interactionEdges past inst) := by
  intro V rest s h
  rw [modelInteractionImpl, interactionImplVia, Exec.run_bind_ok (Exec.run_get s), h.window_eq]
  split_ifs with hne
  · rw [hne, interactionEdges_nil]
    rfl
  · have hall := Enters.bind (enters_missBp hne) (extends_missBp hne) <|
      Enters.bind (Enters.when (enters_resource _ _)) extends_rob <|
      Enters.bind (Enters.when (enters_resource _ _)) extends_lq <|
      Enters.bind (Enters.when (enters_resource _ _)) extends_sq <|
      Enters.bind (enters_rf ho) extends_rf <|
      Enters.bind (Enters.when (enters_resource _ _)) extends_iq <|
      Enters.bind enters_fu extends_fu (enters_raw ho)
    simp only [interactionEdges, List.append_assoc]
    exact hall V rest s h

/-! ### The ends of the edges -/

/-- The edges that lead from earlier instructions to `inst`. -/
inductive Dependence (past : List RiscvInstruction) (inst : RiscvInstruction) :
    Vertex × OutgoingEdge → Prop
  | miss {prev : RiscvInstruction} (hprev : prev ∈ past)
      (hlt : prev.complete < inst.fetchCacheLine) :
      Dependence past inst (completeStage prev, ⟨firstStage inst,
        delay prev.complete inst.fetchCacheLine, delay prev.complete inst.fetchCacheLine, .bpMiss⟩)
  | rename {prev : RiscvInstruction} (hprev : prev ∈ past) (b : Bottleneck) :
      Dependence past inst (renameEdge b prev inst)
  | issue {prev : RiscvInstruction} (hprev : prev ∈ past) (b : Bottleneck) :
      Dependence past inst (issueEdge b prev inst)

variable {e : Vertex × OutgoingEdge}

lemma dependence_missBp : ∀ e ∈ missBpEdges past inst, Dependence past inst e := by
  unfold missBpEdges
  cases past with
  | nil => simp
  | cons prev past =>
    simp only [List.head?_cons]
    split_ifs with h
    · simpa using Dependence.miss List.mem_cons_self h.2
    · simp

lemma dependence_resource (b : Bottleneck) (dep : RiscvInstruction → Bool) :
    ∀ e ∈ resourceEdges b dep past inst, Dependence past inst e := by
  unfold resourceEdges
  cases h : past.find? dep with
  | none      => simp
  | some prev => simpa using Dependence.rename (List.mem_of_find?_eq_some h) b

/-- The edge of a register conflict. -/
lemma exists_of_mem_rfEdges (he : e ∈ rfEdges past inst) :
    ∃ b, ∃ prev ∈ past, rfConflict inst prev = true ∧ e = renameEdge b prev inst := by
  unfold rfEdges at he
  split_ifs at he
  · split at he
    next b prev _ hfind =>
      exact ⟨b, prev, List.mem_of_find?_eq_some hfind, List.find?_some hfind,
        List.mem_singleton.mp he⟩
    next => cases he
  · cases he

lemma dependence_rf : ∀ e ∈ rfEdges past inst, Dependence past inst e := by
  intro e he
  obtain ⟨b, prev, hprev, -, rfl⟩ := exists_of_mem_rfEdges he
  exact .rename hprev b

lemma dependence_fu : ∀ e ∈ fuEdges past inst, Dependence past inst e := by
  unfold fuEdges
  split_ifs
  · cases fuBottleneck inst with
    | none   => simp
    | some b =>
      cases h : past.find? (fuConflict inst) with
      | none      => simp
      | some prev => simpa using Dependence.issue (List.mem_of_find?_eq_some h) b
  · simp

/-- The edge from a producer. -/
lemma exists_of_mem_rawEdges (ho : Older past inst) (he : e ∈ rawEdges past inst) :
    ∃ b, ∃ prev ∈ past, inst.src.contains prev.dst = true ∧ e = issueEdge b prev inst := by
  unfold rawEdges at he
  obtain ⟨r, hr, hmem⟩ := rawOuter_ok ho rawConst (past.length + 1) 0 0 none (by simp)
  rw [hr] at he
  split_ifs at he
  · cases r with
    | none      => cases he
    | some prev => exact ⟨_, prev, (hmem prev rfl).1, (hmem prev rfl).2, List.mem_singleton.mp he⟩
  · cases he

lemma dependence_raw (ho : Older past inst) : ∀ e ∈ rawEdges past inst, Dependence past inst e := by
  intro e he
  obtain ⟨b, prev, hprev, -, rfl⟩ := exists_of_mem_rawEdges ho he
  exact .issue hprev b

lemma dependence_interaction (ho : Older past inst) :
    ∀ e ∈ interactionEdges past inst, Dependence past inst e := by
  have hwhen : ∀ {c : Prop} [Decidable c] {es : List (Vertex × OutgoingEdge)},
      (∀ e ∈ es, Dependence past inst e) →
      ∀ e ∈ (if c then es else []), Dependence past inst e := by
    intro c _ es hes
    split_ifs
    · exact hes
    · simp
  simp only [interactionEdges, List.forall_mem_append]
  exact ⟨⟨⟨⟨⟨⟨⟨dependence_missBp, hwhen (dependence_resource _ _)⟩,
    hwhen (dependence_resource _ _)⟩, hwhen (dependence_resource _ _)⟩, dependence_rf⟩,
    hwhen (dependence_resource _ _)⟩, dependence_fu⟩, dependence_raw ho⟩

/-- A dependence leads from a stage of the past to a stage of the instruction. -/
lemma Dependence.ends (h : Dependence past inst e) :
    Owned past e.1 ∧ e.2.child ∈ stages inst := by
  cases h with
  | miss hprev _   => exact ⟨.of_mem hprev completeStage_mem, firstStage_mem⟩
  | rename hprev _ => exact ⟨.of_mem hprev renameStage_mem, renameStage_mem⟩
  | issue hprev _  => exact ⟨.of_mem hprev issueStage_mem, issueStage_mem⟩

lemma mem_chainEdges {l : List Vertex} (h : e ∈ chainEdges l) : e.1 ∈ l ∧ e.2.child ∈ l := by
  match l with
  | []          => simp [chainEdges] at h
  | [_]         => simp [chainEdges] at h
  | u :: v :: l =>
    rcases List.mem_cons.mp h with rfl | h
    · exact ⟨by simp, by simp [stageEdge]⟩
    · exact ⟨List.mem_cons_of_mem _ (mem_chainEdges h).1,
        List.mem_cons_of_mem _ (mem_chainEdges h).2⟩

lemma Numbered.older (hn : Numbered (inst :: past)) : Older past inst := by
  intro prev hprev
  have := hn.2.instSeq_mem hprev
  have := hn.1
  omega

lemma owned_traceEdges (hn : Numbered insts) (h : e ∈ traceEdges insts) :
    Owned insts e.1 ∧ Owned insts e.2.child := by
  induction insts with
  | nil => simp [traceEdges] at h
  | cons inst past ih =>
    rw [traceEdges, List.append_assoc, List.mem_append, List.mem_append] at h
    rcases h with h | h | h
    · exact ⟨(ih hn.2 h).1.cons, (ih hn.2 h).2.cons⟩
    · obtain ⟨hu, hv⟩ := mem_chainEdges h
      exact ⟨.of_mem List.mem_cons_self hu, .of_mem List.mem_cons_self hv⟩
    · obtain ⟨hu, hv⟩ := (dependence_interaction hn.older e h).ends
      exact ⟨hu.cons, .of_mem List.mem_cons_self hv⟩

/-! ### The edges after the construction -/

/-- The entry of each vertex lists its edges among `es` in the order in which they were entered. -/
def Lists (insts : List RiscvInstruction) (es : List (Vertex × OutgoingEdge)) (s : O3Graph) :
    Prop :=
  ∀ u, Owned insts u → s.outgoing u = (es.filter (·.1 = u)).map (·.2)

/-- The graph holds the edges of the instructions. -/
def Listed (insts : List RiscvInstruction) (s : O3Graph) : Prop := Lists insts (traceEdges insts) s

lemma Lists.connectAll {es es' : List (Vertex × OutgoingEdge)} (h : Lists insts es s)
    (hn : Numbered insts) (hes : ∀ e ∈ es', Owned insts e.1) :
    Lists insts (es ++ es') (s.connectAll es') := by
  intro u hu
  rw [outgoing_connectAll hn _ hes hu, h u hu, List.filter_append, List.map_append]

/-- A stage of the next instruction has no edges yet. -/
lemma Listed.cons (h : Listed past s) (hb : Built V past past rest s)
    (hn : Numbered (inst :: past)) : Lists (inst :: past) (traceEdges past) s := by
  intro u hu
  rcases List.mem_cons.mp hu.1 with hui | hui
  · have hlt : past.length < u.instSeq := by
      rw [hu.instSeq_eq, hui, hn.1]
      omega
    rw [hb.good.outgoing_eq_nil hn.2 hlt, List.filter_eq_nil_iff.mpr, List.map_nil]
    intro e he heu
    obtain rfl : e.1 = u := by simpa using heu
    have := (owned_traceEdges hn.2 he).1.instSeq_mem hn.2
    omega
  · exact h u ⟨hui, hu.2⟩

/-- Entering the chain of the instruction that was read last. -/
lemma Listed.model (h : Listed past s) (hb : Built V past past rest s)
    (hi : inst.instSeq = past.length + 1) (rest' : List TraceLine) :
    Lists (inst :: past) (traceEdges past ++ chainEdges (stages inst))
      ({ s with instStream := ⟨rest', past.length + 1⟩ }.connectChain (stages inst)) := by
  have hn : Numbered (inst :: past) := ⟨hi, hb.numbered⟩
  have hs : Lists (inst :: past) (traceEdges past)
      { s with instStream := ⟨rest', past.length + 1⟩ } := h.cons hb hn
  rw [connectChain_eq]
  exact hs.connectAll hn fun e he => .of_mem List.mem_cons_self (mem_chainEdges he).1

/-- Modelling the instruction that was read last enters its edges. -/
lemma Listed.modelInst (h : Listed past s) (inst : RiscvInstruction)
    (hb : Built V past past rest s) (hi : inst.instSeq = past.length + 1) (rest' : List TraceLine) :
    ∃ s', (modelInst inst).run { s with instStream := ⟨rest', past.length + 1⟩ } = (.ok (), s') ∧
      Listed (inst :: past) s' := by
  have hn : Numbered (inst :: past) := ⟨hi, hb.numbered⟩
  let s₁ := { s with instStream := ⟨rest', past.length + 1⟩ }.connectChain (stages inst)
  have hmodel : (Deg.model inst).run { s with instStream := ⟨rest', past.length + 1⟩ } =
    (.ok (), s₁) := model_eq hi.symm
  have hrun := enters_interaction hn.older V rest' s₁ (hb.model hi rest')
  let s₂ := s₁.connectAll (interactionEdges past inst)
  have hs₂ : Lists (inst :: past) (traceEdges (inst :: past)) s₂ :=
    (h.model hb hi rest').connectAll hn
      fun e he => (dependence_interaction hn.older e he).ends.1.cons
  refine ⟨{ s₂ with instWindow := inst :: s₂.instWindow }, ?_, hs₂⟩
  rw [Deg.modelInst, Exec.run_bind_ok hmodel]
  exact Exec.run_bind_ok hrun _

lemma Listed.modelSteps (h : Listed insts s) (hb : Built V insts insts rest s) (n : ℕ) :
    ∃ s', (modelSteps n).run s = (.ok (), s') ∧ Listed (readAll insts (rest.take n)) s' := by
  induction n generalizing insts rest s with
  | zero => exact ⟨s, rfl, by simpa [readAll] using h⟩
  | succ n ih =>
    cases rest with
    | nil =>
      refine ⟨s, ?_, by simpa [readAll] using h⟩
      rw [Deg.modelSteps, Exec.run_bind_ok (nextInst_run_nil hb)]
      rfl
    | cons line rest =>
      obtain ⟨s₁, hrun, h₁⟩ := h.modelInst ⟨line, insts.length + 1⟩ hb rfl rest
      have hb₁ := (Exec.wp_iff_of_run hrun).mp (hb.modelInst ⟨line, insts.length + 1⟩ rfl rest)
      obtain ⟨s₂, hrun₂, h₂⟩ := ih h₁ hb₁
      refine ⟨s₂, ?_, by simpa [readAll] using h₂⟩
      rw [Deg.modelSteps, Exec.run_bind_ok (nextInst_run hb)]
      exact (Exec.run_bind_ok hrun _).trans hrun₂

/-- The graph of the first lines of a trace holds their edges. -/
lemma listed_append (trace rest : List TraceLine) :
    ∃ s, (modelSteps trace.length).run (.init (trace ++ rest)) = (.ok (), s) ∧
      Built False (readAll [] trace) (readAll [] trace) rest s ∧ Listed (readAll [] trace) s := by
  have hb : Built False [] [] (trace ++ rest) (.init (trace ++ rest)) := Built.init _
  have hl : Listed [] (.init (trace ++ rest)) := fun u hu => absurd hu.1 (by simp)
  obtain ⟨s, hrun, hs⟩ := hl.modelSteps hb trace.length
  obtain ⟨s', hrun', hs'⟩ := hb.modelSteps trace.length
  obtain rfl : s = s' := congrArg Prod.snd (hrun.symm.trans hrun')
  exact ⟨s, hrun, by simpa using hs', by simpa using hs⟩

/-- The graph of a whole trace holds the edges of the trace. -/
theorem listed_trace (trace : List TraceLine) :
    ∃ s, (modelSteps trace.length).run (.init trace) = (.ok (), s) ∧
      Built False (readAll [] trace) (readAll [] trace) [] s ∧ Listed (readAll [] trace) s := by
  simpa using listed_append trace []

/-! ### Vertices and edges of the graph -/

/-- A vertex of the graph: it has an entry in one of the two maps. -/
def O3Graph.HasVertex (s : O3Graph) (v : Vertex) : Prop := v ∈ s.graph.keys ∨ v ∈ s.pred.keys

/-- An edge of the graph and the vertex that it leaves. -/
def O3Graph.HasEdge (s : O3Graph) (u : Vertex) (e : OutgoingEdge) : Prop :=
  u ∈ s.graph.keys ∧ e ∈ s.outgoing u

lemma Built.mem_graph_keys (h : Built V insts past rest s) (hu : Owned insts u) {o : OutgoingEdge}
    (ho : o ∈ s.outgoing u) : u ∈ s.graph.keys := by
  obtain ⟨w, hw, hcmp⟩ := OrdMap.exists_mem_keys (ListMap.mem_of_mem_entry ho)
  rwa [← ((h.good.keys w hw).compare_eq_iff h.numbered hu).mp hcmp]

/-- The vertices of the graph are the stages of the instructions. -/
lemma Built.hasVertex_iff (h : Built V insts past rest s) : s.HasVertex v ↔ Owned insts v := by
  refine ⟨fun hv => hv.elim (h.good.keys v) (h.good.predKeys v), fun hv => ?_⟩
  by_cases hc : v.type = .c
  · -- the commit has a parent
    have hcommit : commitStage v.inst = v := eq_of_mem_stages commitStage_mem hv.2 hc.symm
    have hp : Owned insts (completeStage v.inst) := .of_mem hv.1 completeStage_mem
    have hchild : v ∈ s.children (completeStage v.inst) :=
      List.mem_map.mpr ⟨_, h.hasNext _ hp _ nextStage_completeStage, hcommit⟩
    have hparent : completeStage v.inst ∈ s.parents v := by
      rw [← List.count_pos_iff, h.good.transpose _ _ hp hv]
      exact List.count_pos_iff.mpr hchild
    obtain ⟨p, hp, -⟩ := List.mem_map.mp hparent
    obtain ⟨w, hw, hcmp⟩ := OrdMap.exists_mem_keys (ListMap.mem_of_mem_entry hp)
    obtain rfl := ((h.good.predKeys w hw).compare_eq_iff h.numbered hv).mp hcmp
    exact .inr hw
  · obtain ⟨w, -, hw, -⟩ := exists_nextStage hv.2 hc
    exact .inl (h.mem_graph_keys hv (h.hasNext v hv w hw))

/-- The edges of the graph are the listed ones. -/
lemma Lists.hasEdge_iff {es : List (Vertex × OutgoingEdge)} (hl : Lists insts es s)
    (h : Built V insts past rest s) (hes : ∀ e ∈ es, Owned insts e.1) {o : OutgoingEdge} :
    s.HasEdge u o ↔ (u, o) ∈ es := by
  have hmem (hu : Owned insts u) : o ∈ s.outgoing u ↔ (u, o) ∈ es := by
    rw [hl u hu]
    simp only [List.mem_map, List.mem_filter, decide_eq_true_eq, Prod.exists]
    exact ⟨fun ⟨_, _, ⟨he, hu⟩, ho⟩ => hu ▸ ho ▸ he, fun he => ⟨u, o, ⟨he, rfl⟩, rfl⟩⟩
  constructor
  · rintro ⟨hu, ho⟩
    exact (hmem (h.good.keys u hu)).mp ho
  · intro he
    have hu := hes _ he
    exact ⟨h.mem_graph_keys hu ((hmem hu).mpr he), (hmem hu).mpr he⟩

end ArchExplorer.Deg
