import ArchExplorer.Core.Construction
import ArchExplorer.Deg.Edges
import ArchExplorer.Trace.Agreement

/-!
# One record in two languages

The record of an instruction as the C++ analysis holds it, and the record of the same instruction as
the Python analysis holds it. These are the two records of a printed line on which the decoders
agree. Vertices, edges and bottlenecks are carried over likewise, so that the graphs of the two
analyses can be compared.
-/

namespace ArchExplorer.Compare

open ArchExplorer.Lib
open ArchExplorer.Lib.Text

/-! ### Records -/

/-- The cycle counts of a record. -/
def cycle (t : Deg.Tick) : Core.Cycle where
  fetchCacheLine := t.fetchCacheLine.toNat
  processCacheCompletion := t.processCacheCompletion.toNat
  fetch := t.fetch.toNat
  decodeSortInsts := t.decodeSortInsts.toNat
  decode := t.decode.toNat
  renameSortInsts := t.renameSortInsts.toNat
  blockFromRob := t.blockFromRob.toNat
  blockFromRf := t.blockFromRf.toNat
  blockFromIq := t.blockFromIq.toNat
  blockFromLq := t.blockFromLq.toNat
  blockFromSq := t.blockFromSq.toNat
  rename := t.rename.toNat
  dispatch := t.dispatch.toNat
  insertReadyList := t.insertReadyList.toNat
  issue := t.issue.toNat
  memory := t.memory.toNat
  complete := t.complete.toNat
  completeMemory := t.completeMemory.toNat
  commitHead := t.commitHead.toNat
  commit := t.commit.toNat

/-- The text of the id of a resource. -/
def idText (id : ℤ) : String := String.ofList (ofInt id)

/-- The record of the Python analysis for a record of the C++ analysis. -/
def line (a : Deg.TraceLine) : Core.TraceLine where
  toCycle := cycle a.toTick
  inst := a.inst
  instType := a.instType.name
  rob := idText a.rob
  lq := idText a.lq
  sq := idText a.sq
  iq := idText a.iq
  fu := idText a.fu
  src := a.src
  dst := a.dst

lemma idText_inj {m n : ℤ} : idText m = idText n ↔ m = n := by
  refine ⟨fun h => ?_, congrArg idText⟩
  have hm := read_ofInt m
  rw [String.ofList_injective h, read_ofInt n] at hm
  exact (Option.some.inj hm).symm

/-- The numbered record. -/
def inst (i : Deg.RiscvInstruction) : Core.RiscvInstruction := ⟨line i.toTraceLine, i.instSeq⟩

/-! ### The records of the decoders -/

section Decoders

open ArchExplorer.Trace

variable {a : Deg.TraceLine} {b : Core.TraceLine}

lemma read_idText (id : ℤ) : read (idText id).toList = some id := by
  rw [idText, String.toList_ofList, read_ofInt]

/-- The record agrees with its original in the sense of the decoders. -/
lemma agree_line (a : Deg.TraceLine) : Agree a (line a) where
  inst := rfl
  instType := rfl
  stamps := rfl
  rob := read_idText a.rob
  lq := read_idText a.lq
  sq := read_idText a.sq
  iq := read_idText a.iq
  fu := read_idText a.fu
  src := rfl
  dst := rfl

lemma cycle_eq_of_toList {c d : Core.Cycle} (h : c.toList = d.toList) : c = d := by
  cases c
  cases d
  simpa [Core.Cycle.toList] using h

/-- The ids of a printed line are written without blanks and without zeros in front. -/
lemma idText_of_parsed {flags : Gem5.DebugFlags} {i : Gem5.DynInst} {h : Printable i}
    (ha : Constructed (Trace.line flags i h) a) (hb : Parsed (Trace.line flags i h) b) :
    b.rob = idText a.rob ∧ b.lq = idText a.lq ∧ b.sq = idText a.sq ∧ b.iq = idText a.iq ∧
      b.fu = idText a.fu := by
  have hid {s : String} {id n : ℤ} (hs : s = .ofList (number [' '] blank_isSpace n).body)
      (hn : id = (number [' '] blank_isSpace n).value) : s = idText id := by
    rw [hs, hn, value_number]
    exact congrArg String.ofList (Numeral.body_ofInt _ _ n)
  exact ⟨hid hb.rob ha.rob, hid hb.lq ha.lq, hid hb.sq ha.sq, hid hb.iq ha.iq, hid hb.fu ha.fu⟩

/-- On a line that the simulator prints the decoders agree if and only if the record of the parser
is the one of the constructor, carried over. -/
theorem agree_iff_eq_inst (flags : Gem5.DebugFlags) (i : Gem5.DynInst) (hdeg : flags.deg = true)
    (hprinted : Printed flags i) (hframed : Framed flags i) (h : Printable i) (seq : ℕ)
    {a : Deg.RiscvInstruction} {b : Core.RiscvInstruction}
    (ha : Deg.RiscvInstruction.ofLine (i.logLine flags) seq = .ok a)
    (hb : Core.RiscvInstruction.parse seq (i.dumpTimestamp flags) = .ok b) :
    Agree a.toTraceLine b.toTraceLine ↔ b = inst a := by
  rw [logLine_eq_text hdeg hframed h, ofLine_text] at ha
  rw [dumpTimestamp_of_printed hprinted, logLine_eq_text hdeg hframed h,
    parse_text _ _ (.inr rfl)] at hb
  obtain ⟨a', ha', ha⟩ := bind_eq_ok ha
  obtain ⟨b', hb', hb⟩ := bind_eq_ok hb
  cases ha
  cases hb
  constructor
  · intro hagree
    obtain ⟨hrob, hlq, hsq, hiq, hfu⟩ :=
      idText_of_parsed (constructed_of_ok ha') (parsed_of_ok hb')
    have hcycle : b'.toCycle = cycle a'.toTick := cycle_eq_of_toList hagree.stamps.symm
    have hline : b' = line a' := by
      cases b'
      simp only [line, Core.TraceLine.mk.injEq]
      exact ⟨hcycle, hagree.inst.symm, hagree.instType.symm, hrob, hlq, hsq, hiq, hfu,
        hagree.src.symm, hagree.dst.symm⟩
    rw [hline, inst]
  · intro heq
    obtain rfl : b' = line a' := congrArg Core.RiscvInstruction.toTraceLine heq
    exact agree_line a'

end Decoders

/-- The two analyses read a trace as the same sequence of instructions. -/
lemma reverse_instructionStream (trace : List Deg.TraceLine) :
    (Core.instructionStream (trace.map line)).reverse = (Deg.readAll [] trace).map inst := by
  have hgen : ∀ insts : List Deg.RiscvInstruction,
      (((trace.map line).zipIdx (insts.length + 1)).map
        fun p => (⟨p.1, p.2⟩ : Core.RiscvInstruction)).reverse ++ insts.map inst =
        (Deg.readAll insts trace).map inst := by
    induction trace with
    | nil => simp [Deg.readAll]
    | cons a trace ih =>
      intro insts
      rw [Deg.readAll, ← ih]
      simp [inst]
  simpa [Core.instructionStream] using hgen []

section Predicates

variable (a : Deg.TraceLine)

lemma instType_line : (line a).instType = a.instType.name := rfl

@[simp] lemma isLoad_line : (line a).isLoad = a.isLoad := by
  rw [Core.TraceLine.isLoad, instType_line]
  unfold Deg.TraceLine.isLoad
  cases a.instType <;> decide

@[simp] lemma isStore_line : (line a).isStore = a.isStore := by
  rw [Core.TraceLine.isStore, instType_line]
  unfold Deg.TraceLine.isStore
  cases a.instType <;> decide

@[simp] lemma isControl_line : (line a).isControl = a.isControl := by
  simp [Core.TraceLine.isControl, Deg.TraceLine.isControl, Core.RiscvInstructionType.ctrl, line,
    Bool.or_assoc]

@[simp] lemma useIntRf_line : (line a).useIntRf = a.useIntRf := by
  rw [Core.TraceLine.useIntRf, instType_line]
  unfold Deg.TraceLine.useIntRf
  cases a.instType <;> decide

/-- The C++ analysis does not count the multiplications and divisions among the users of the
register file for floating point numbers. -/
lemma useFpRf_line : (line a).useFpRf = (a.useFpRf || a.useFpMultDiv) := by
  rw [Core.TraceLine.useFpRf, instType_line]
  unfold Deg.TraceLine.useFpRf Deg.TraceLine.useFpMultDiv
  cases a.instType <;> decide

@[simp] lemma useIntAlu_line : (line a).useIntAlu = a.useIntAlu := by
  rw [Core.TraceLine.useIntAlu, instType_line]
  unfold Deg.TraceLine.useIntAlu
  cases a.instType <;> decide

@[simp] lemma useIntMultDiv_line : (line a).useIntMultDiv = a.useIntMultDiv := by
  rw [Core.TraceLine.useIntMultDiv, instType_line]
  unfold Deg.TraceLine.useIntMultDiv
  cases a.instType <;> decide

@[simp] lemma useFpAlu_line : (line a).useFpAlu = a.useFpAlu := by
  rw [Core.TraceLine.useFpAlu, instType_line]
  unfold Deg.TraceLine.useFpAlu
  cases a.instType <;> decide

@[simp] lemma useFpMultDiv_line : (line a).useFpMultDiv = a.useFpMultDiv := by
  rw [Core.TraceLine.useFpMultDiv, instType_line]
  unfold Deg.TraceLine.useFpMultDiv
  cases a.instType <;> decide

@[simp] lemma useRdWrPort_line : (line a).useRdWrPort = a.useRdWrPort := by
  rw [Core.TraceLine.useRdWrPort, instType_line]
  unfold Deg.TraceLine.useRdWrPort
  cases a.instType <;> decide

end Predicates

/-! ### Vertices and edges -/

/-- The stage of a vertex. -/
def stage : Deg.VertexType → Core.PipelineStage
  | .f1  => .f1
  | .f2  => .f2
  | .f   => .fetch
  | .f2f => .f2f
  | .d   => .decode
  | .r   => .rename
  | .ds  => .dispatch
  | .i   => .issue
  | .di  => .di
  | .m   => .memory
  | .p   => .complete
  | .mp  => .mp
  | .c   => .commit

lemma stage_injective : Function.Injective stage := by
  intro s t h
  cases s <;> cases t <;> first | rfl | cases h

/-- The node of a vertex: the same stage of the same instruction at the same time. -/
def node (v : Deg.Vertex) : Core.Node := ⟨stage v.type, (v.timing.toNat, v.instSeq)⟩

/-- The class of a bottleneck. -/
def btnk : Deg.Bottleneck → Core.Bottleneck
  | .base       => .base
  | .icacheMiss => .icacheMiss
  | .dcacheMiss => .dcacheMiss
  | .bpMiss     => .bpMiss
  | .rob        => .rob
  | .lq         => .lq
  | .sq         => .sq
  | .intRF      => .intRF
  | .fpRF       => .fpRF
  | .iq         => .iq
  | .intALU     => .intAlu
  | .intMultDiv => .intMultDiv
  | .fpAlu      => .fpAlu
  | .fpMultDiv  => .fpMultDiv
  | .rdWrPort   => .rdWrPort
  | .raw        => .raw
  | .virtual    => .virtual

lemma btnk_injective : Function.Injective btnk := by
  intro b c h
  cases b <;> cases c <;> first | rfl | cases h

/-- The edge `e.2` out of the vertex `e.1`. -/
def edge (e : Deg.Vertex × Deg.OutgoingEdge) : Core.Edge :=
  ⟨node e.1, node e.2.child, e.2.weight, e.2.cost, btnk e.2.bottleneck⟩

/-! ### Delays -/

/-- A delay that does not wrap around. -/
lemma delay_eq_sub {early late : UInt64} (h : early ≤ late) :
    Deg.delay early late = (late.toNat : ℤ) - early.toNat := by
  rw [Deg.delay, UInt64.toNat_sub_of_le _ _ h, Nat.cast_sub (UInt64.le_iff_toNat_le.mp h)]

/-- A delay on machine words is the difference exactly if it does not wrap around. -/
lemma delay_eq_sub_iff {early late : UInt64} :
    Deg.delay early late = (late.toNat : ℤ) - early.toNat ↔ early ≤ late := by
  refine ⟨fun h => ?_, delay_eq_sub⟩
  have h : ((late - early).toNat : ℤ) = late.toNat - early.toNat := h
  rw [UInt64.le_iff_toNat_le]
  omega

lemma icacheBottleneck_eq (w : ℤ) : btnk (Deg.icacheBottleneck w) = Core.icacheBottleneck w := by
  rw [Deg.icacheBottleneck, apply_ite btnk]
  rfl

lemma dcacheBottleneck_eq (w : ℤ) : btnk (Deg.dcacheBottleneck w) = Core.dcacheBottleneck w := by
  rw [Deg.dcacheBottleneck, apply_ite btnk]
  rfl

end ArchExplorer.Compare
