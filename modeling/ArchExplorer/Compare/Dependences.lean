import ArchExplorer.Compare.Chain

/-!
# The dependences of an instruction in the two analyses

Both analyses search the history of an instruction in the same way. `deps` lists the earlier
instructions that are found, each with the stages that are joined and the cause. The lists of the
two analyses differ in one entry only: the C++ analysis does not charge a register conflict of a
multiplication or division of floating point numbers.
-/

namespace ArchExplorer.Compare

open ArchExplorer.Lib

variable {i p : Deg.RiscvInstruction} {past : List Deg.RiscvInstruction}

/-! ### Causes -/

/-- The stages that a dependence joins. -/
inductive Kind where
  | miss
  | rename
  | issue
  deriving DecidableEq

/-- The cause of a dependence: a resource that is charged, or a producer of an operand. -/
inductive Cause where
  | resource (b : Deg.Bottleneck)
  | producer
  deriving DecidableEq

/-- The stage of the earlier instruction. -/
def source : Kind → Deg.RiscvInstruction → Deg.Vertex
  | .miss,   p => Deg.completeStage p
  | .rename, p => Deg.renameStage p
  | .issue,  p => Deg.issueStage p

/-- The stage of the later instruction. -/
def target : Kind → Deg.RiscvInstruction → Deg.Vertex
  | .miss,   i => Deg.firstStage i
  | .rename, i => Deg.renameStage i
  | .issue,  i => Deg.issueStage i

/-- The tick from which the delay is counted. -/
def early : Kind → Deg.RiscvInstruction → UInt64
  | .miss,   p => p.complete
  | .rename, p => p.rename
  | .issue,  p => p.issue

/-- The tick to which the delay is counted. -/
def late : Kind → Deg.RiscvInstruction → UInt64
  | .miss,   i => i.fetchCacheLine
  | .rename, i => i.rename
  | .issue,  i => i.issue

/-- An earlier instruction, the stages that are joined and the cause. -/
abbrev Dep := (Kind × Deg.RiscvInstruction) × Cause

/-- The bottleneck in the C++ analysis. -/
def cause (i p : Deg.RiscvInstruction) : Cause → Deg.Bottleneck
  | .resource b => b
  | .producer   => Deg.rawBottleneck i p

/-- The bottleneck in the Python analysis. -/
def causeP (i p : Deg.RiscvInstruction) : Cause → Core.Bottleneck
  | .resource b => btnk b
  | .producer   => Core.rawBottleneck (inst i) (inst p)

/-- The edge of the C++ analysis. -/
def depEdge (i : Deg.RiscvInstruction) (d : Dep) : Deg.Vertex × Deg.OutgoingEdge :=
  (source d.1.1 d.1.2, ⟨target d.1.1 i, Deg.delay (early d.1.1 d.1.2) (late d.1.1 i),
    Deg.delay (early d.1.1 d.1.2) (late d.1.1 i), cause i d.1.2 d.2⟩)

/-- The edge of the Python analysis. -/
def depEdgeP (i : Deg.RiscvInstruction) (d : Dep) : Core.Edge :=
  Core.skewEdge (node (source d.1.1 d.1.2)) (node (target d.1.1 i))
    ((late d.1.1 i).toNat - (early d.1.1 d.1.2).toNat) (causeP i d.1.2 d.2)

/-! ### The searches -/

/-- The entry for the instruction that a search found, if there was a search. -/
def found (c : Prop) [Decidable c] (k : Kind) (t : Cause) (o : Option Deg.RiscvInstruction) :
    List Dep :=
  if c then (o.map fun p => ((k, p), t)).toList else []

def missDep (past : List Deg.RiscvInstruction) (i : Deg.RiscvInstruction) : List Dep :=
  match past.head? with
  | some p =>
    found (p.isControl ∧ p.complete < i.fetchCacheLine) .miss (.resource .bpMiss) (some p)
  | none   => []

def robDep (past : List Deg.RiscvInstruction) (i : Deg.RiscvInstruction) : List Dep :=
  found (i.blockFromRob ≠ 0) .rename (.resource .rob) (past.find? fun p => p.rob = i.rob)

def lqDep (past : List Deg.RiscvInstruction) (i : Deg.RiscvInstruction) : List Dep :=
  found (i.blockFromLq ≠ 0 ∧ i.isLoad) .rename (.resource .lq) (past.find? fun p => p.lq = i.lq)

def sqDep (past : List Deg.RiscvInstruction) (i : Deg.RiscvInstruction) : List Dep :=
  found (i.blockFromSq ≠ 0 ∧ i.isStore) .rename (.resource .sq) (past.find? fun p => p.sq = i.sq)

/-- A register conflict, charged to `rf`. -/
def rfDep (rf : Option Deg.Bottleneck) (past : List Deg.RiscvInstruction)
    (i : Deg.RiscvInstruction) : List Dep :=
  rf.toList.flatMap fun b =>
    found (i.blockFromRf ≠ 0) .rename (.resource b) (past.find? (Deg.rfConflict i))

def iqDep (past : List Deg.RiscvInstruction) (i : Deg.RiscvInstruction) : List Dep :=
  found (i.blockFromIq ≠ 0) .rename (.resource .iq) (past.find? fun p => p.iq = i.iq)

def fuDep (past : List Deg.RiscvInstruction) (i : Deg.RiscvInstruction) : List Dep :=
  (Deg.fuBottleneck i).toList.flatMap fun b =>
    found (i.insertReadyList < i.issue) .issue (.resource b) (past.find? (Deg.fuConflict i))

/-- The instruction that the search for a producer selects. -/
def producer (past : List Deg.RiscvInstruction) (i : Deg.RiscvInstruction) :
    Option Deg.RiscvInstruction :=
  match Deg.rawOuter i Deg.rawConst past (past.length + 1) 0 0 none with
  | .ok dep  => dep
  | .error _ => none

def rawDep (past : List Deg.RiscvInstruction) (i : Deg.RiscvInstruction) : List Dep :=
  found (i.dispatch < i.insertReadyList) .issue .producer (producer past i)

/-- The dependences that are found before the register conflict. -/
def frontDeps (past : List Deg.RiscvInstruction) (i : Deg.RiscvInstruction) : List Dep :=
  missDep past i ++ robDep past i ++ lqDep past i ++ sqDep past i

/-- The dependences that are found after the register conflict. -/
def backDeps (past : List Deg.RiscvInstruction) (i : Deg.RiscvInstruction) : List Dep :=
  iqDep past i ++ fuDep past i ++ rawDep past i

/-- The dependences in the order in which they are found. -/
def deps (rf : Option Deg.Bottleneck) (past : List Deg.RiscvInstruction)
    (i : Deg.RiscvInstruction) : List Dep :=
  frontDeps past i ++ rfDep rf past i ++ backDeps past i

/-- The register file to which the Python analysis charges a conflict. -/
def rfBottleneckP (i : Deg.RiscvInstruction) : Option Deg.Bottleneck :=
  if i.useFpMultDiv then some .fpRF else Deg.rfBottleneck i

/-! ### The edges of the C++ analysis -/

lemma map_found_resource (c : Prop) [Decidable c] (b : Deg.Bottleneck)
    (dep : Deg.RiscvInstruction → Bool) :
    (found c .rename (.resource b) (past.find? dep)).map (depEdge i) =
      if c then Deg.resourceEdges b dep past i else [] := by
  unfold found Deg.resourceEdges
  split_ifs
  · cases past.find? dep <;> rfl
  · rfl

lemma map_missDep : (missDep past i).map (depEdge i) = Deg.missBpEdges past i := by
  unfold missDep Deg.missBpEdges found
  cases past.head? with
  | none   => rfl
  | some p =>
    dsimp only
    split_ifs <;> rfl

lemma map_rfDep : (rfDep (Deg.rfBottleneck i) past i).map (depEdge i) = Deg.rfEdges past i := by
  unfold rfDep Deg.rfEdges found
  cases Deg.rfBottleneck i <;> cases past.find? (Deg.rfConflict i) <;> split_ifs <;> rfl

lemma map_fuDep : (fuDep past i).map (depEdge i) = Deg.fuEdges past i := by
  unfold fuDep Deg.fuEdges found
  cases Deg.fuBottleneck i <;> cases past.find? (Deg.fuConflict i) <;> split_ifs <;> rfl

lemma map_rawDep : (rawDep past i).map (depEdge i) = Deg.rawEdges past i := by
  unfold rawDep producer Deg.rawEdges found
  split_ifs
  · rcases Deg.rawOuter i Deg.rawConst past (past.length + 1) 0 0 none with e | (_ | p) <;> rfl
  · rfl

lemma map_deps : (deps (Deg.rfBottleneck i) past i).map (depEdge i) =
    Deg.interactionEdges past i := by
  simp only [deps, frontDeps, backDeps, List.map_append, map_missDep, robDep, lqDep, sqDep, iqDep,
    map_found_resource, map_rfDep, map_fuDep, map_rawDep, List.append_assoc, Deg.interactionEdges,
    Deg.robEdges, Deg.lqEdges, Deg.sqEdges, Deg.iqEdges]

/-! ### The edges of the Python analysis -/

lemma cast_toNat_ne_zero {x : UInt64} : (x.toNat : ℤ) ≠ 0 ↔ x ≠ 0 := by
  rw [ne_eq, ne_eq, ← cast_toNat_inj]
  rfl

lemma cast_toNat_lt {x y : UInt64} : (x.toNat : ℤ) < y.toNat ↔ x < y := by
  rw [Nat.cast_lt, UInt64.lt_iff_toNat_lt]

lemma cast_toNat_le {x y : UInt64} : (x.toNat : ℤ) ≤ y.toNat ↔ x ≤ y := by
  rw [Nat.cast_le, UInt64.le_iff_toNat_le]

lemma find?_map_inst {q : Core.RiscvInstruction → Bool} {q' : Deg.RiscvInstruction → Bool}
    (h : ∀ p, q (inst p) = q' p) : (past.map inst).find? q = (past.find? q').map inst := by
  rw [List.find?_map]
  exact congrArg (fun q => (past.find? q).map inst) (funext h)

lemma map_found_resourceP (c : Prop) [Decidable c] (b : Deg.Bottleneck)
    {q : Core.RiscvInstruction → Bool} {q' : Deg.RiscvInstruction → Bool}
    (h : ∀ p, q (inst p) = q' p) :
    (found c .rename (.resource b) (past.find? q')).map (depEdgeP i) =
      if c then Core.resourceEdges (btnk b) q (past.map inst) (inst i) else [] := by
  unfold found Core.resourceEdges
  rw [find?_map_inst h]
  split_ifs
  · cases past.find? q' <;> rfl
  · rfl

lemma map_missDepP :
    (missDep past i).map (depEdgeP i) = Core.missBpEdges (past.map inst) (inst i) := by
  unfold missDep Core.missBpEdges found
  rw [List.head?_map]
  cases past.head? with
  | none   => rfl
  | some p =>
    have hiff : (inst p).isControl = true ∧ (inst p).complete < (inst i).fetchCacheLine ↔
        p.isControl = true ∧ p.complete < i.fetchCacheLine :=
      and_congr (by rw [show (inst p).isControl = p.isControl from isControl_line _]) cast_toNat_lt
    simp only [Option.map_some, hiff]
    split_ifs
    · simp only [Option.toList_some, List.map_cons, List.map_nil]
      rw [← node_completeStage]
      rfl
    · rfl

lemma rfConflict_inst : Core.rfConflict (inst i) (inst p) = Deg.rfConflict i p := rfl

lemma rfBottleneck_inst : Core.rfBottleneck (inst i) = (rfBottleneckP i).map btnk := by
  have hfp : (inst i).useFpRf = (i.useFpRf || i.useFpMultDiv) := useFpRf_line _
  have hint : (inst i).useIntRf = i.useIntRf := useIntRf_line _
  unfold Core.rfBottleneck rfBottleneckP Deg.rfBottleneck
  rw [hfp, hint]
  unfold Deg.TraceLine.useFpMultDiv Deg.TraceLine.useFpRf Deg.TraceLine.useIntRf
  cases i.instType <;> rfl

lemma map_rfDepP : (rfDep (rfBottleneckP i) past i).map (depEdgeP i) =
    Core.rfEdges (past.map inst) (inst i) := by
  have hblock : (inst i).blockFromRf ≠ 0 ↔ i.blockFromRf ≠ 0 := cast_toNat_ne_zero
  unfold rfDep Core.rfEdges found
  simp only [hblock, rfBottleneck_inst, find?_map_inst fun p => rfConflict_inst (i := i) (p := p)]
  cases rfBottleneckP i <;> cases past.find? (Deg.rfConflict i) <;> split_ifs <;> rfl

lemma fuConflict_inst : Core.fuConflict (inst i) (inst p) = Deg.fuConflict i p := by
  have hload : (inst i).isLoad = i.isLoad := isLoad_line _
  have hfu : (inst i).fu = (inst p).fu ↔ p.fu = i.fu := idText_inj.trans eq_comm
  have hissue : (inst p).issue < (inst i).issue ↔ p.issue < i.issue := cast_toNat_lt
  have hmem : (inst i).issue ≤ (inst p).completeMemory ↔ i.issue ≤ p.completeMemory :=
    cast_toNat_le
  have hcomplete : (inst i).issue ≤ (inst p).complete ↔ i.issue ≤ p.complete := cast_toNat_le
  simp only [Core.fuConflict, Deg.fuConflict, hload, hfu, hissue, hmem, hcomplete]

lemma fuBottleneck_inst : Core.fuBottleneck (inst i) = (Deg.fuBottleneck i).map btnk := by
  have halu : (inst i).useIntAlu = i.useIntAlu := useIntAlu_line _
  have hmult : (inst i).useIntMultDiv = i.useIntMultDiv := useIntMultDiv_line _
  have hfp : (inst i).useFpAlu = i.useFpAlu := useFpAlu_line _
  have hfpMult : (inst i).useFpMultDiv = i.useFpMultDiv := useFpMultDiv_line _
  have hport : (inst i).useRdWrPort = i.useRdWrPort := useRdWrPort_line _
  unfold Core.fuBottleneck Deg.fuBottleneck
  rw [halu, hmult, hfp, hfpMult, hport]
  split_ifs <;> rfl

lemma depEdgeP_issue (t : Cause) :
    depEdgeP i ((.issue, p), t) = Core.issueEdge (causeP i p t) (inst p) (inst i) := by
  rw [Core.issueEdge, ← node_issueStage, ← node_issueStage]
  rfl

lemma map_fuDepP : (fuDep past i).map (depEdgeP i) = Core.fuEdges (past.map inst) (inst i) := by
  have hready : (inst i).insertReadyList < (inst i).issue ↔ i.insertReadyList < i.issue :=
    cast_toNat_lt
  unfold fuDep Core.fuEdges found
  simp only [hready, fuBottleneck_inst, find?_map_inst fun p => fuConflict_inst (i := i) (p := p)]
  cases Deg.fuBottleneck i with
  | none   => split_ifs <;> rfl
  | some b =>
    cases past.find? (Deg.fuConflict i) with
    | none   => split_ifs <;> rfl
    | some p =>
      split_ifs
      · exact congrArg (fun e => [e]) (depEdgeP_issue _)
      · rfl

/-! ### The search for a producer -/

lemma resultCycle_inst : Core.resultCycle (inst p) = (Deg.resultTick p).toNat := by
  unfold Core.resultCycle Deg.resultTick
  rw [isLoad_inst]
  split_ifs <;> rfl

/-- The inner loops do the same. -/
lemma rawInner_inst (hp : p.instSeq < i.instSeq) (size k n : ℕ) (t : UInt64)
    (dep : Option Deg.RiscvInstruction) {r : ℕ × UInt64 × Option Deg.RiscvInstruction}
    (h : Deg.rawInner i p size k n t dep = .ok r) :
    Core.rawInner (inst i) (inst p) size k n t.toNat (dep.map inst) =
      .ok (r.1, r.2.1.toNat, r.2.2.map inst) := by
  have hraw : Core.rawDep (inst i) (inst p) = .ok (i.src.contains p.dst) := if_pos hp
  have hraw' : Deg.rawDep i p = .ok (i.src.contains p.dst) := if_pos hp
  induction k generalizing n t dep with
  | zero =>
    obtain rfl : (n, t, dep) = r := Except.ok.inj h
    rfl
  | succ k ih =>
    rw [Deg.rawInner, hraw'] at h
    rw [Core.rawInner, hraw, resultCycle_inst]
    simp only [ok_bind, cast_toNat_lt] at h ⊢
    split_ifs at h ⊢ with hn hc
    · exact ih _ _ (some p) h
    · exact ih _ _ dep h
    · obtain rfl : (n, t, dep) = r := Except.ok.inj h
      rfl

/-- The outer loops do the same. -/
lemma rawOuter_inst (ho : Deg.Older past i) (const m n : ℕ) (t : UInt64)
    (dep : Option Deg.RiscvInstruction) {r : Option Deg.RiscvInstruction}
    (h : Deg.rawOuter i const past m n t dep = .ok r) :
    Core.rawOuter (inst i) const (past.map inst) m n t.toNat (dep.map inst) =
      .ok (r.map inst) := by
  induction m generalizing n t dep with
  | zero =>
    obtain rfl : dep = r := Except.ok.inj h
    rfl
  | succ m ih =>
    rw [Deg.rawOuter] at h
    rw [Core.rawOuter, List.getElem?_map]
    cases hget : past[n]? with
    | none   =>
      rw [hget] at h
      obtain rfl : dep = r := Except.ok.inj h
      rfl
    | some p =>
      have hp := ho p (List.mem_of_getElem? hget)
      have hraw : Core.rawDep (inst i) (inst p) = .ok (i.src.contains p.dst) := if_pos hp
      have hraw' : Deg.rawDep i p = .ok (i.src.contains p.dst) := if_pos hp
      rw [hget] at h
      simp only [Option.map_some, hraw, hraw', ok_bind, List.length_map] at h ⊢
      -- the end of an iteration
      have hend (q : ℕ × UInt64 × Option Deg.RiscvInstruction)
          (h : (if q.2.2.isSome = true then pure q.2.2
            else Deg.rawOuter i const past m (q.1 + 1) q.2.1 q.2.2) = Except.ok r) :
          (if (q.2.2.map inst).isSome = true then pure (q.2.2.map inst)
            else Core.rawOuter (inst i) const (past.map inst) m (q.1 + 1) q.2.1.toNat
              (q.2.2.map inst)) = Except.ok (r.map inst) := by
        rw [Option.isSome_map]
        split_ifs at h ⊢
        · obtain rfl : q.2.2 = r := Except.ok.inj h
          rfl
        · exact ih _ _ _ h
      split_ifs at h ⊢ with hc
      · obtain ⟨n', t', dep', heq, -⟩ := Deg.rawInner_ok hp past.length const n t dep
        rw [heq] at h
        rw [rawInner_inst hp _ _ _ _ _ heq]
        exact hend (n', t', dep') h
      · exact hend (n, t, dep) h

lemma map_rawDepP (ho : Deg.Older past i) :
    (rawDep past i).map (depEdgeP i) = Core.rawEdges (past.map inst) (inst i) := by
  have hready : (inst i).dispatch < (inst i).insertReadyList ↔ i.dispatch < i.insertReadyList :=
    cast_toNat_lt
  obtain ⟨r, hr, -⟩ := Deg.rawOuter_ok ho Deg.rawConst (past.length + 1) 0 0 none (by simp)
  have hr' : Core.rawOuter (inst i) Core.rawConst (past.map inst) ((past.map inst).length + 1) 0 0
      none = .ok (r.map inst) := by
    rw [List.length_map]
    exact rawOuter_inst ho _ _ _ _ _ hr
  unfold rawDep producer Core.rawEdges found
  rw [hr, hr']
  simp only [hready]
  split_ifs
  · cases r with
    | none   => rfl
    | some p => exact congrArg (fun e => [e]) (depEdgeP_issue _)
  · rfl

lemma map_depsP (ho : Deg.Older past i) : (deps (rfBottleneckP i) past i).map (depEdgeP i) =
    Core.interactionEdges (past.map inst) (inst i) := by
  have hrob : (inst i).blockFromRob ≠ 0 ↔ i.blockFromRob ≠ 0 := cast_toNat_ne_zero
  have hlq : (inst i).blockFromLq ≠ 0 ↔ i.blockFromLq ≠ 0 := cast_toNat_ne_zero
  have hsq : (inst i).blockFromSq ≠ 0 ↔ i.blockFromSq ≠ 0 := cast_toNat_ne_zero
  have hiq : (inst i).blockFromIq ≠ 0 ↔ i.blockFromIq ≠ 0 := cast_toNat_ne_zero
  simp only [deps, frontDeps, backDeps, List.map_append, map_missDepP, robDep, lqDep, sqDep, iqDep,
    map_rfDepP, map_fuDepP, map_rawDepP ho, List.append_assoc, Core.interactionEdges,
    Core.robEdges, Core.lqEdges, Core.sqEdges, Core.iqEdges, hrob, hlq, hsq, hiq, isLoad_inst,
    isStore_inst]
  rw [map_found_resourceP _ _ (q := fun p => p.rob = (inst i).rob) fun p => ?_,
    map_found_resourceP _ _ (q := fun p => p.lq = (inst i).lq) fun p => ?_,
    map_found_resourceP _ _ (q := fun p => p.sq = (inst i).sq) fun p => ?_,
    map_found_resourceP _ _ (q := fun p => (inst i).iq = p.iq) fun p => ?_]
  · rfl
  · exact decide_eq_decide.mpr (idText_inj.trans eq_comm)
  · exact decide_eq_decide.mpr idText_inj
  · exact decide_eq_decide.mpr idText_inj
  · exact decide_eq_decide.mpr idText_inj

/-! ### The entries -/

variable {rf : Option Deg.Bottleneck} {d : Dep}

lemma mem_found {c : Prop} [Decidable c] {k : Kind} {t : Cause} {o : Option Deg.RiscvInstruction} :
    d ∈ found c k t o ↔ c ∧ ∃ p, o = some p ∧ d = ((k, p), t) := by
  unfold found
  split_ifs with hc
  · cases o <;> simp [hc]
  · simp [hc]

/-- What the entries are. -/
lemma mem_deps (h : d ∈ deps rf past i) :
    (∃ p, past.head? = some p ∧ d = ((.miss, p), .resource .bpMiss)) ∨
    (∃ k b q p, past.find? q = some p ∧ d = ((k, p), .resource b)) ∨
    ∃ p, producer past i = some p ∧ d = ((.issue, p), .producer) := by
  have hfind {c : Prop} [Decidable c] {k : Kind} {b : Deg.Bottleneck}
      {q : Deg.RiscvInstruction → Bool} (h : d ∈ found c k (.resource b) (past.find? q)) :
      ∃ k b q p, past.find? q = some p ∧ d = ((k, p), .resource b) := by
    obtain ⟨-, p, hp, rfl⟩ := mem_found.mp h
    exact ⟨k, b, q, p, hp, rfl⟩
  simp only [deps, frontDeps, backDeps, List.mem_append] at h
  rcases h with (((((h | h) | h) | h) | h) | (h | h) | h)
  · unfold missDep at h
    cases hpast : past.head? with
    | none   => simp [hpast] at h
    | some p =>
      rw [hpast] at h
      obtain ⟨-, p', hp, rfl⟩ := mem_found.mp h
      exact .inl ⟨p', hp, rfl⟩
  · exact .inr (.inl (hfind h))
  · exact .inr (.inl (hfind h))
  · exact .inr (.inl (hfind h))
  · obtain ⟨b, -, h⟩ := List.mem_flatMap.mp h
    exact .inr (.inl (hfind h))
  · exact .inr (.inl (hfind h))
  · obtain ⟨b, -, h⟩ := List.mem_flatMap.mp h
    exact .inr (.inl (hfind h))
  · obtain ⟨-, p, hp, rfl⟩ := mem_found.mp h
    exact .inr (.inr ⟨p, hp, rfl⟩)

/-- All dependences are on earlier instructions. -/
lemma mem_past_of_mem_deps (ho : Deg.Older past i) (h : d ∈ deps rf past i) : d.1.2 ∈ past := by
  rcases mem_deps h with ⟨p, hp, rfl⟩ | ⟨_, _, q, p, hp, rfl⟩ | ⟨p, hp, rfl⟩
  · exact List.mem_of_mem_head? hp
  · exact List.mem_of_find?_eq_some hp
  · obtain ⟨r, hr, hmem⟩ := Deg.rawOuter_ok ho Deg.rawConst (past.length + 1) 0 0 none (by simp)
    rw [producer, hr] at hp
    exact (hmem p hp).1

/-- A producer is joined at the issue. -/
lemma kind_of_producer {k : Kind × Deg.RiscvInstruction}
    (h : (k, Cause.producer) ∈ deps rf past i) : k.1 = .issue := by
  rcases mem_deps h with ⟨_, -, heq⟩ | ⟨_, _, _, _, _, heq⟩ | ⟨_, -, heq⟩
  · cases heq
  · cases heq
  · cases heq
    rfl

lemma found_sublist (c : Prop) [Decidable c] (k : Kind) (t : Cause)
    (o : Option Deg.RiscvInstruction) : ((found c k t o).map Prod.snd).Sublist [t] := by
  unfold found
  split_ifs
  · cases o <;> simp
  · simp

lemma flatMap_found_sublist (c : Prop) [Decidable c] (k : Kind) (o : Option Deg.RiscvInstruction)
    (b : Option Deg.Bottleneck) :
    ((b.toList.flatMap fun b => found c k (.resource b) o).map Prod.snd).Sublist
      (b.toList.map .resource) := by
  cases b with
  | none   => simp
  | some b => simpa using found_sublist c k (.resource b) o

lemma missDep_sublist : ((missDep past i).map Prod.snd).Sublist [.resource .bpMiss] := by
  unfold missDep
  cases past.head? with
  | none   => simp
  | some p => exact found_sublist _ _ _ _

/-- The causes of the dependences, if all searches find an instruction. -/
def causes (rf : Option Deg.Bottleneck) (i : Deg.RiscvInstruction) : List Cause :=
  [.resource .bpMiss] ++ [.resource .rob] ++ [.resource .lq] ++ [.resource .sq] ++
    rf.toList.map .resource ++ ([.resource .iq] ++ (Deg.fuBottleneck i).toList.map .resource ++
    [.producer])

lemma deps_sublist : ((deps rf past i).map Prod.snd).Sublist (causes rf i) := by
  simp only [deps, frontDeps, backDeps, List.map_append, causes]
  exact ((((missDep_sublist.append (found_sublist _ _ _ _)).append (found_sublist _ _ _ _)).append
    (found_sublist _ _ _ _)).append (flatMap_found_sublist _ _ _ _)).append
    (((found_sublist _ _ _ _).append (flatMap_found_sublist _ _ _ _)).append
      (found_sublist _ _ _ _))

/-- The register files that can be charged. -/
lemma rfBottleneck_mem : Deg.rfBottleneck i ∈ [none, some .intRF, some .fpRF] := by
  unfold Deg.rfBottleneck
  split_ifs <;> simp

lemma rfBottleneckP_mem : rfBottleneckP i ∈ [none, some .intRF, some .fpRF] := by
  unfold rfBottleneckP
  split_ifs
  · simp
  · exact rfBottleneck_mem

lemma fuBottleneck_mem : Deg.fuBottleneck i ∈
    [some .intALU, some .intMultDiv, some .fpAlu, some .fpMultDiv, some .rdWrPort, none] := by
  unfold Deg.fuBottleneck
  split_ifs <;> simp

/-- No two causes are the same, and none of the resources can be charged for a producer. -/
lemma causes_nodup (hrf : rf ∈ [none, some .intRF, some .fpRF]) : (causes rf i).Nodup ∧
    ∀ b, Cause.resource b ∈ causes rf i → b ≠ .base ∧ b ≠ .dcacheMiss ∧ b ≠ .raw := by
  have hfu := fuBottleneck_mem (i := i)
  unfold causes
  generalize Deg.fuBottleneck i = fu at hfu
  simp only [List.mem_cons, List.not_mem_nil, or_false] at hrf hfu
  rcases hrf with rfl | rfl | rfl <;> rcases hfu with rfl | rfl | rfl | rfl | rfl | rfl <;>
    simp

lemma deps_nodup (hrf : rf ∈ [none, some .intRF, some .fpRF]) :
    ((deps rf past i).map Prod.snd).Nodup := deps_sublist.nodup (causes_nodup hrf).1

/-- Causes of one dependence are told apart by their bottlenecks. -/
lemma cause_inj {t t' : Cause} (ht : ∃ rf ∈ [none, some .intRF, some .fpRF], t ∈ causes rf i)
    (ht' : ∃ rf ∈ [none, some .intRF, some .fpRF], t' ∈ causes rf i)
    (h : cause i p t = cause i p t') : t = t' := by
  have hraw : Deg.rawBottleneck i p = .base ∨ Deg.rawBottleneck i p = .dcacheMiss ∨
      Deg.rawBottleneck i p = .raw := by
    unfold Deg.rawBottleneck Deg.dcacheBottleneck
    split_ifs <;> simp
  obtain ⟨rf, hrf, ht⟩ := ht
  obtain ⟨rf', hrf', ht'⟩ := ht'
  cases t with
  | resource b =>
    cases t' with
    | resource b' => exact congrArg Cause.resource h
    | producer    =>
      obtain ⟨h₁, h₂, h₃⟩ := (causes_nodup hrf).2 b ht
      rw [show b = Deg.rawBottleneck i p from h] at h₁ h₂ h₃
      tauto
  | producer   =>
    cases t' with
    | resource b' =>
      obtain ⟨h₁, h₂, h₃⟩ := (causes_nodup hrf').2 b' ht'
      rw [show b' = Deg.rawBottleneck i p from h.symm] at h₁ h₂ h₃
      tauto
    | producer    => rfl

end ArchExplorer.Compare
