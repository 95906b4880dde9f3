import ArchExplorer.Gem5.DumpTimestamp
import ArchExplorer.Trace.Decoders

/-!
# The trace of the simulator

The lines that the simulator prints are lines of the trace format, and both decoders recover what
was printed.
-/

namespace ArchExplorer.Trace

open ArchExplorer.Lib
open ArchExplorer.Lib.Text
open ArchExplorer.Gem5

variable {flags : DebugFlags} {i : DynInst}

/-- There is no colon in the texts that are printed of an instruction: the name of the processor,
the symbol, the disassembled instruction and the names of its flags. -/
structure Printable (i : DynInst) : Prop where
  name : ':' ∉ i.name
  symbol : ∀ p ∈ i.symbol, ':' ∉ p.1
  disassembly : ':' ∉ i.disassembly
  flags : ':' ∉ i.flags

/-- The mode of the instruction is one that is printed. -/
def Printed (flags : DebugFlags) (i : DynInst) : Prop :=
  if i.inUserMode then flags.execUser = true else flags.execKernel = true

/-- The parts of a line that can be left out are printed: the tick and the name of the processor by
the logger, the thread and the operation class by the printer. -/
structure Framed (flags : DebugFlags) (i : DynInst) : Prop where
  ticks : flags.fmtTicksOff = false
  when : i.when ≠ DynInst.maxTick
  name : i.name ≠ []
  thread : flags.execThread = true
  opClass : flags.execOpClass = true

/-! ### The fields -/

lemma colon_notMem_toDigits {b n : ℕ} (hb : 1 < b) : ':' ∉ Nat.toDigits b n := by
  induction n using Nat.strong_induction_on with
  | h n ih =>
    have hdigit : ∀ d : ℕ, ':' ≠ d.digitChar := fun d => (Nat.digitChar_ne ':' (by decide)).symm
    rw [Nat.toDigits_eq_if hb]
    split_ifs with hlt
    · rw [List.mem_singleton]
      exact hdigit n
    · rw [List.mem_append, List.mem_singleton]
      rintro (h | h)
      · exact ih (n / b) (Nat.div_lt_self (by omega) hb) h
      · exact hdigit _ h

lemma colon_notMem_padLeft {w : ℕ} {s : Text} (h : ':' ∉ s) : ':' ∉ padLeft w s := by
  rw [padLeft, List.mem_append, List.mem_replicate]
  rintro (⟨-, hc⟩ | hc)
  exacts [absurd hc (by decide), h hc]

lemma colon_notMem_padRight {w : ℕ} {s : Text} (h : ':' ∉ s) : ':' ∉ padRight w s := by
  rw [padRight, List.mem_append, List.mem_replicate]
  rintro (hc | ⟨-, hc⟩)
  exacts [h hc, absurd hc (by decide)]

lemma colon_notMem_ofNat (n : ℕ) : ':' ∉ ofNat n := colon_notMem_toDigits (by decide)

lemma colon_notMem_hex (n : ℕ) : ':' ∉ hex n := colon_notMem_toDigits (by decide)

lemma colon_notMem_hexBase (n : ℕ) : ':' ∉ hexBase n := by
  rw [hexBase]
  split_ifs
  · decide
  · rw [List.mem_append]
    rintro (h | h)
    exacts [absurd h (by decide), colon_notMem_hex n h]

lemma colon_notMem_hexFill (n : ℕ) : ':' ∉ hexFill n := by
  rw [hexFill, List.mem_append, List.mem_append, List.mem_replicate]
  rintro (h | ⟨-, h⟩ | h)
  exacts [absurd h (by decide), absurd h (by decide), colon_notMem_hex n h]

lemma colon_notMem_symbolText (flags : DebugFlags) (h : Printable i) :
    ':' ∉ i.symbolText flags := by
  rw [DynInst.symbolText]
  split_ifs
  · cases hsym : i.symbol with
    | none => exact List.not_mem_nil
    | some p =>
      obtain ⟨sym, delta⟩ := p
      have hname : ':' ∉ sym := h.symbol (sym, delta) hsym
      have hat : ':' ∉ " @".toList := by decide
      dsimp only
      split_ifs
      · simp only [List.mem_append, hat, hname, or_self, not_false_eq_true]
      · have hplus : ':' ≠ '+' := by decide
        simp only [List.mem_append, List.mem_cons, hat, hname, hplus, colon_notMem_ofNat, or_self,
          not_false_eq_true]
  · exact List.not_mem_nil

lemma colon_notMem_microText (i : DynInst) : ':' ∉ i.microText := by
  rw [DynInst.microText]
  split
  · rw [List.mem_cons]
    rintro (h | h)
    exacts [absurd h (by decide), colon_notMem_padLeft (colon_notMem_ofNat _) h]
  · decide

lemma colon_notMem_resultText (flags : DebugFlags) (h : Printable i) :
    ':' ∉ i.resultText flags := by
  -- every part is empty, or a key without a colon and a text without one
  have hpart (b : Bool) (key : String) (t : Text) (hkey : ':' ∉ key.toList) (ht : ':' ∉ t) :
      ':' ∉ if b then key.toList ++ t else [] := by
    split_ifs
    · rw [List.mem_append, not_or]
      exact ⟨hkey, ht⟩
    · exact List.not_mem_nil
  have hfalse := hpart (flags.execResult && !i.predicate) "Predicated False" [] (by decide)
    (by simp)
  have hflags := hpart flags.execFlags "  flags=(" (i.flags ++ [')']) (by decide)
    (by simp [h.flags])
  rw [List.append_nil] at hfalse
  rw [DynInst.resultText]
  simp only [List.mem_append, not_or, List.append_assoc] at hflags ⊢
  refine ⟨hfalse, ?_, ?_, ?_, ?_, hflags⟩
  · split
    exacts [hpart _ " D=" _ (by decide) (colon_notMem_hexFill _), List.not_mem_nil]
  · split
    exacts [hpart _ " A=0x" _ (by decide) (colon_notMem_hex _), List.not_mem_nil]
  · split
    exacts [hpart _ "  FetchSeq=" _ (by decide) (colon_notMem_ofNat _), List.not_mem_nil]
  · split
    exacts [hpart _ "  CPSeq=" _ (by decide) (colon_notMem_ofNat _), List.not_mem_nil]

/-- The thread and, before it, the address space. -/
def threadText (flags : DebugFlags) (i : DynInst) : Text :=
  (if flags.execAsid then 'A' :: ofNat i.asid ++ [' '] else []) ++ 'T' :: ofNat i.threadId

lemma colon_notMem_threadText (flags : DebugFlags) (i : DynInst) : ':' ∉ threadText flags i := by
  have hA : ':' ≠ 'A' := by decide
  have hT : ':' ≠ 'T' := by decide
  have hblank : ':' ≠ ' ' := by decide
  rw [threadText]
  split_ifs <;> simp [hA, hT, hblank, colon_notMem_ofNat]

/-! ### The line -/

lemma blank_isSpace : ∀ c ∈ [' '], isSpace c = true := by simp [isSpace]

lemma nil_isSpace : ∀ c ∈ ([] : Text), isSpace c = true := by simp

/-- A number of the trace, with `behind` behind it. -/
def number (behind : Text) (h : ∀ c ∈ behind, isSpace c = true) (n : ℤ) : Numeral :=
  .ofInt [] behind nil_isSpace h n

/-- A field of the trace. -/
def keyed {α : Type} (key : String) (value : α)
    (h : ':' ∉ key.toList ∧ '=' ∉ key.toList) : Keyed α where
  key := ' ' :: key.toList
  value := value
  key_colon := by simpa using h.1
  key_equals := by simpa using h.2

def registerList (behind : Text) (h : ∀ c ∈ behind, isSpace c = true) (rs : List UInt16) :
    Registers where
  numerals := rs.map fun r => number [] nil_isSpace r.toNat
  behind := behind
  behind_blank := h

lemma stamps_keys (m : MetaInfo) :
    ∀ p ∈ m.stamps, ':' ∉ p.1.toList ∧ '=' ∉ p.1.toList := by
  have hkeys : ∀ key ∈ m.stamps.map Prod.fst, ':' ∉ key.toList ∧ '=' ∉ key.toList := by
    simp only [MetaInfo.stamps, List.map_cons, List.map_nil]
    decide
  exact fun p hp => hkeys p.1 (List.mem_map_of_mem hp)

lemma ticks_length_line (m : MetaInfo) : (m.stamps.pmap
    (fun p hp => keyed p.1 (number [' '] blank_isSpace p.2.toNat) hp)
    (stamps_keys m)).length = 20 := by
  simp [MetaInfo.stamps]

lemma ticks_unsigned_line (m : MetaInfo) : ∀ t ∈ m.stamps.pmap
    (fun p hp => keyed p.1 (number [' '] blank_isSpace p.2.toNat) hp) (stamps_keys m),
    t.value.sign ≠ some true := by
  intro t ht
  obtain ⟨p, hp, rfl⟩ := List.mem_pmap.mp ht
  have hnonneg : ¬((p.2.toNat : ℤ) < 0) := by omega
  simp [keyed, number, Numeral.ofInt, hnonneg]

/-- The line of an instruction. -/
def line (flags : DebugFlags) (i : DynInst) (h : Printable i) : Line where
  when := padLeft 7 (ofNat i.when.toNat)
  name := ' ' :: i.name
  thread := ' ' :: threadText flags i ++ [' ']
  pc := ' ' :: hexBase i.instAddr.toNat ++ i.symbolText flags ++ i.microText ++ [' ']
  mnemonic := ' ' :: padRight 26 i.disassembly ++ [' ']
  opClass := ' ' :: i.opClass.name.toList ++ [' ']
  data := ' ' :: i.resultText flags ++ [' ']
  ticks := i.metaInfo.stamps.pmap
    (fun p hp => keyed p.1 (number [' '] blank_isSpace p.2.toNat) hp) (stamps_keys i.metaInfo)
  rob := keyed "ROB" (number [' '] blank_isSpace i.metaInfo.rob.toInt) (by decide)
  lq := keyed "LQ" (number [' '] blank_isSpace i.metaInfo.lq.toInt) (by decide)
  sq := keyed "SQ" (number [' '] blank_isSpace i.metaInfo.sq.toInt) (by decide)
  iq := keyed "IQ" (number [' '] blank_isSpace i.metaInfo.iq.toInt) (by decide)
  fu := keyed "FU" (number [' '] blank_isSpace i.metaInfo.fu.toInt) (by decide)
  src := keyed "SRC" (registerList [' '] blank_isSpace i.src) (by decide)
  dst := keyed "DST" (registerList [] nil_isSpace i.dst) (by decide)
  plain_colon := by
    have hclass : ':' ∉ i.opClass.name.toList := by cases i.opClass <;> decide
    have hblank : ':' ≠ ' ' := by decide
    simp only [List.mem_cons, List.not_mem_nil, or_false, forall_eq_or_imp, forall_eq,
      List.cons_append, List.mem_append, hblank, h.name, hclass, colon_notMem_threadText,
      colon_notMem_hexBase, colon_notMem_symbolText flags h, colon_notMem_microText,
      colon_notMem_padRight h.disassembly, colon_notMem_resultText flags h,
      colon_notMem_padLeft (colon_notMem_ofNat _), or_self, not_false_eq_true, and_self]
  plain_ne := by
    simp only [List.mem_cons, List.not_mem_nil, or_false, forall_eq_or_imp, forall_eq,
      List.cons_append, ne_eq, reduceCtorEq, not_false_eq_true, and_self]
  ticks_length := ticks_length_line i.metaInfo
  ticks_unsigned := ticks_unsigned_line i.metaInfo

lemma src_line (flags : DebugFlags) (h : Printable i) :
    (line flags i h).src.value = registerList [' '] blank_isSpace i.src := rfl

lemma dst_line (flags : DebugFlags) (h : Printable i) :
    (line flags i h).dst.value = registerList [] nil_isSpace i.dst := rfl

lemma text_number (behind : Text) (h : ∀ c ∈ behind, isSpace c = true) (n : ℤ) :
    (number behind h n).text = ofInt n ++ behind := by
  rw [number, Numeral.text_ofInt, List.nil_append]

lemma text_registerList (behind : Text) (h : ∀ c ∈ behind, isSpace c = true) (rs : List UInt16) :
    (registerList behind h rs).text = registers rs ++ behind := by
  have hmap : rs.map (Numeral.text ∘ fun r => number [] nil_isSpace r.toNat) =
      rs.map fun r => ofNat r.toNat := by
    apply List.map_congr_left
    intro r _
    rw [Function.comp_apply, text_number, ofInt_natCast, List.append_nil]
  rw [Registers.text, Numeral.list, registerList, List.map_map, hmap]
  rfl

/-- The blank before each text can be moved behind it. -/
lemma flatten_cons_blank {α : Type} (f : α → Text) (l : List α) (rest : Text) :
    (l.map fun a => ' ' :: f a).flatten ++ ' ' :: rest =
      ' ' :: ((l.map fun a => f a ++ [' ']).flatten ++ rest) := by
  induction l with
  | nil => rfl
  | cons a l ih =>
    rw [List.map_cons, List.map_cons, List.flatten_cons, List.flatten_cons, List.append_assoc,
      List.append_assoc, List.append_assoc, ih]
    rfl

lemma text_keyed_number (key : String) (n : ℤ) (h : ':' ∉ key.toList ∧ '=' ∉ key.toList) :
    (keyed key (number [' '] blank_isSpace n) h).text [] =
      ' ' :: key.toList ++ '=' :: ofInt n ++ [' '] := by
  have htext : Written.text (number [' '] blank_isSpace n) = ofInt n ++ [' '] := text_number _ _ n
  rw [Keyed.text, keyed, htext]
  simp only [List.append_assoc, List.cons_append, List.append_nil]

/-- The ticks of the line and what is printed of them. -/
lemma ticks_text (flags : DebugFlags) (h : Printable i) :
    (line flags i h).ticks.map (Keyed.text · []) = i.metaInfo.stamps.map fun p =>
      ' ' :: p.1.toList ++ '=' :: ofNat p.2.toNat ++ [' '] := by
  rw [line, List.map_pmap]
  simp only [text_keyed_number, ofInt_natCast, List.pmap_eq_map]

/-- An instruction whose mode is printed has a line in the trace. -/
lemma dumpTimestamp_of_printed (h : Printed flags i) :
    i.dumpTimestamp flags = i.logLine flags ++ ['\n'] := by
  rw [Printed] at h
  rw [DynInst.dumpTimestamp]
  split_ifs at h with hmode <;> simp [hmode, h]

/-- The logger writes the line, if no part of it is left out. -/
theorem logLine_eq_text (hdeg : flags.deg = true) (hf : Framed flags i) (h : Printable i) :
    i.logLine flags = (line flags i h).text := by
  have hregs : ∀ b hb rs, Written.text (registerList b hb rs) = registers rs ++ b :=
    text_registerList
  have hnum : ∀ n, Written.text (number [' '] blank_isSpace n) = ofInt n ++ [' '] :=
    text_number [' '] blank_isSpace
  have hstamps : i.stampsText = (i.metaInfo.stamps.map fun p =>
      ' ' :: (':' :: ' ' :: p.1.toList ++ '=' :: ofNat p.2.toNat)).flatten := by
    rw [DynInst.stampsText]
    rfl
  have hticks : (((line flags i h).ticks.map (Keyed.text · [])).map (':' :: ·)).flatten =
      (i.metaInfo.stamps.map fun p =>
        (':' :: ' ' :: p.1.toList ++ '=' :: ofNat p.2.toNat) ++ [' ']).flatten := by
    rw [ticks_text, List.map_map]
    rfl
  rw [Line.text, Line.fields, Line.rest, join_eq_flatten, List.map_append, List.map_append,
    List.flatten_append, List.flatten_append, hticks]
  simp only [DynInst.logLine, DynInst.message, DynInst.degText, hdeg, hstamps, hf.ticks, hf.when,
    hf.name, hf.thread, hf.opClass, ne_eq, not_false_eq_true, decide_true, Bool.not_false,
    Bool.and_self, if_true, keyField, sep, line, threadText, Keyed.text, keyed, hregs, hnum,
    List.map_cons, List.map_nil, List.flatten_cons, List.flatten_nil, List.append_assoc,
    List.cons_append, List.nil_append, List.append_nil]
  rw [flatten_cons_blank]
  simp only [List.cons_append, List.append_assoc]

/-! ### The number of fields -/

/-- The registers that are recorded by one number, `-1` for none. -/
def recorded (d : ℤ) : List ℤ := if d = -1 then [] else [d]

lemma setInstType_name (inst : Text) {line : Text} {t : Deg.InstType}
    (h : strip isSpace line = t.name.toList) : Deg.setInstType inst line = .ok t := by
  have hfind : Deg.InstType.all.find? (fun u => u.name.toList = t.name.toList) = some t := by
    cases t <;> decide
  rw [Deg.setInstType, h, hfind]

lemma strip_opClass (t : Deg.InstType) :
    strip isSpace (' ' :: t.name.toList ++ [' ']) = t.name.toList := by
  have htrim : Trimmed isSpace t.name.toList := by cases t <;> decide
  have hne : t.name.toList ≠ [] := by cases t <;> decide
  exact strip_append_append blank_isSpace blank_isSpace htrim hne

@[simp] lemma value_number (behind : Text) (h : ∀ c ∈ behind, isSpace c = true) (n : ℤ) :
    (number behind h n).value = n := Numeral.value_ofInt _ _ n

lemma toInt_int32 (x : Int32) : toInt x.toInt = .ok x.toInt :=
  if_pos ⟨x.le_toInt, x.toInt_lt⟩

lemma toInt_uint16 (r : UInt16) : toInt r.toNat = .ok (r.toNat : ℤ) := by
  have hlt : r.toNat < 2 ^ 16 := r.toNat_lt
  exact if_pos (by constructor <;> omega)

lemma ticks_value (flags : DebugFlags) (h : Printable i) :
    (line flags i h).ticks.map (fun t => t.value.value) =
      i.metaInfo.stamps.map fun p => (p.2.toNat : ℤ) := by
  rw [line, List.map_pmap]
  simp only [keyed, value_number, List.pmap_eq_map]

lemma values_registerList (behind : Text) (h : ∀ c ∈ behind, isSpace c = true)
    (rs : List UInt16) :
    (registerList behind h rs).numerals.map Numeral.value = rs.map fun r => (r.toNat : ℤ) := by
  simp [registerList, Function.comp_def]

/-- A stamp that was printed is a number of cycles. -/
lemma toStamp_uint64 (t : UInt64) : toStamp t.toNat = .ok (t / Deg.cyclePerTick) := by
  have hlt : ((t.toNat : ℤ)).natAbs < 2 ^ 64 := t.toNat_lt
  have hof : UInt64.ofInt (t.toNat : ℤ) = t :=
    UInt64.toNat_inj.mp (toNat_ofInt_natCast t.toNat_lt)
  rw [toStamp, if_pos hlt, hof]

/-- The constructor accepts every printed line. -/
lemma construct_line (flags : DebugFlags) (h : Printable i) :
    ∃ a, construct (line flags i h) = .ok a := by
  have htype : Deg.setInstType (Deg.setInst (line flags i h).mnemonic) (line flags i h).opClass =
      .ok i.opClass := setInstType_name _ (strip_opClass i.opClass)
  have hstamps : ((line flags i h).ticks.mapM fun t => toStamp t.value.value) =
      .ok (i.metaInfo.stamps.map fun p => p.2 / Deg.cyclePerTick) := by
    rw [show (fun t : Keyed Numeral => toStamp t.value.value) =
      toStamp ∘ fun t => t.value.value from rfl, ← List.mapM_map, ticks_value]
    apply mapM_eq_ok
    rw [List.forall₂_map_left_iff, List.forall₂_map_right_iff, List.forall₂_same]
    exact fun p _ => toStamp_uint64 p.2
  have hsrc : ((line flags i h).src.value.numerals.map Numeral.value).mapM toInt =
      .ok (i.src.map fun r => (r.toNat : ℤ)) := by
    rw [src_line, values_registerList]
    apply mapM_eq_ok
    rw [List.forall₂_map_left_iff, List.forall₂_map_right_iff, List.forall₂_same]
    exact fun r _ => toInt_uint16 r
  have hdst : ∃ d, toDst (line flags i h).dst.value = .ok d := by
    rw [dst_line]
    cases hd : i.dst with
    | nil => exact ⟨-1, rfl⟩
    | cons r rs =>
      refine ⟨r.toNat, ?_⟩
      simp only [toDst, registerList, List.map_cons, value_number]
      exact toInt_uint16 r
  have hid : ∀ (key : String) (x : Int32) hkey,
      toInt (keyed key (number [' '] blank_isSpace x.toInt) hkey).value.value = .ok x.toInt := by
    intro key x hkey
    rw [keyed, value_number, toInt_int32]
  obtain ⟨d, hdst⟩ := hdst
  rw [construct, htype, hstamps, hsrc, hdst]
  simp only [line, hid, ok_bind]
  exact ⟨_, rfl⟩

/-- The cycles of all ticks are doubles. -/
def Representable (i : DynInst) : Prop :=
  ∀ p ∈ i.metaInfo.stamps, toDouble ((p.2.toNat / 1000 : ℕ) : ℚ) = (p.2.toNat / 1000 : ℕ)

/-- All ticks are multiples of a cycle. -/
def Aligned (i : DynInst) : Prop := ∀ p ∈ i.metaInfo.stamps, 1000 ∣ p.2.toNat

/-- The quotient of a tick that is a multiple of a cycle. -/
lemma quotient_of_dvd {t : ℕ} (h : 1000 ∣ t) : (((t : ℤ) : ℚ) / 1000) = (t / 1000 : ℕ) := by
  obtain ⟨k, rfl⟩ := h
  rw [Nat.mul_div_cancel_left k (by norm_num)]
  push_cast
  field_simp

/-- The cycles of a tick are parsed if and only if they are a double. -/
lemma tickToCycle_iff {t : UInt64} (hdvd : 1000 ∣ t.toNat) :
    Core.tickToCycle t.toNat = .ok ((t.toNat / 1000 : ℕ) : ℤ) ↔
      toDouble ((t.toNat / 1000 : ℕ) : ℚ) = (t.toNat / 1000 : ℕ) := by
  have hint := toDouble_intCast_iff ((t.toNat / 1000 : ℕ) : ℤ)
  rw [Int.cast_natCast] at hint
  rw [Core.tickToCycle, quotient_of_dvd hdvd]
  constructor
  · intro h
    split_ifs at h
    exact hint.mp (Except.ok.inj h)
  · intro h
    have hlt : |toDouble ((t.toNat / 1000 : ℕ) : ℚ)| < 2 ^ 1024 := by
      have hsmall : t.toNat / 1000 < 2 ^ 64 := by
        have := t.toNat_lt
        omega
      rw [h, abs_of_nonneg (Nat.cast_nonneg _)]
      calc ((t.toNat / 1000 : ℕ) : ℚ) < 2 ^ 64 := by exact_mod_cast hsmall
        _ ≤ 2 ^ 1024 := by gcongr <;> norm_num
    rw [if_neg (not_le.mpr hlt), hint.mpr h]
    rfl

/-- The stamps of a line as they are parsed. -/
lemma stamps_forall₂_iff {h : Printable i} {cs : List ℤ} :
    List.Forall₂ (fun t c => Core.tickToCycle t.value.value = .ok c) (line flags i h).ticks cs ↔
      List.Forall₂ (fun p c => Core.tickToCycle p.2.toNat = .ok c) i.metaInfo.stamps cs := by
  rw [← List.forall₂_map_left_iff (f := fun t : Keyed Numeral => t.value.value)
    (R := fun t c => Core.tickToCycle t = .ok c), ticks_value, List.forall₂_map_left_iff]

lemma mapM_tickToCycle (flags : DebugFlags) (h : Printable i) (ha : Aligned i)
    (hr : Representable i) :
    ((line flags i h).ticks.mapM fun t => Core.tickToCycle t.value.value) =
      .ok (i.metaInfo.stamps.map fun p => ((p.2.toNat / 1000 : ℕ) : ℤ)) := by
  apply mapM_eq_ok
  rw [stamps_forall₂_iff, List.forall₂_map_right_iff, List.forall₂_same]
  exact fun p hp => (tickToCycle_iff (ha p hp)).mpr (hr p hp)

/-- The parser accepts a printed line with at most one destination register. -/
lemma parse_line (flags : DebugFlags) (h : Printable i) (ha : Aligned i) (hr : Representable i)
    (hdst : i.dst.length ≤ 1) : ∃ b, parse (line flags i h) = .ok b := by
  have hread : ∃ d, readDst (line flags i h).dst.value.numerals = .ok d := by
    rw [dst_line, registerList]
    match hd : i.dst, hdst with
    | [], _  => exact ⟨-1, rfl⟩
    | [r], _ => exact ⟨_, rfl⟩
  obtain ⟨d, hread⟩ := hread
  rw [parse, mapM_tickToCycle flags h ha hr, hread]
  exact ⟨_, rfl⟩

/-- Up to `2 ^ 53` cycles are doubles. -/
lemma representable_of_lt (h : ∀ p ∈ i.metaInfo.stamps, p.2.toNat / 1000 < 2 ^ 53) :
    Representable i := by
  intro p hp
  have hq : ((p.2.toNat / 1000 : ℕ) : ℚ) = ((p.2.toNat / 1000 : ℕ) : ℤ) / 2 ^ 0 := by
    rw [pow_zero, div_one, Int.cast_natCast]
  refine toDouble_eq_self_of_lt hq (n := 53) ?_ (by norm_num) (by norm_num)
  rw [abs_of_nonneg (Nat.cast_nonneg _)]
  exact_mod_cast h p hp

/-- An instruction that was fetched at tick 1000 and committed at tick 8000. -/
def sampleMeta : MetaInfo where
  fetchCacheLine := 1000
  processCacheCompletion := 2000
  fetch := 2000
  decodeSortInsts := 3000
  decodeInsts := 3000
  renameSortInsts := 4000
  blockFromRob := 0
  blockFromRf := 0
  blockFromIq := 0
  blockFromLq := 0
  blockFromSq := 0
  rename := 4000
  dispatchInsts := 5000
  addIfReady := 5000
  scheduleReadyInsts := 6000
  memory := 0
  updateExeInstStats := 7000
  completeDataAccess := 0
  commitHead := 8000
  commit := 8000
  rob := 0
  lq := -1
  sq := -1
  iq := 3
  fu := 0

/-- An instruction with the given registers. -/
def sample (disassembly : String) (src dst : List UInt16) : DynInst where
  when := 9000
  name := "system.cpu".toList
  inUserMode := true
  fullSystem := false
  asid := 0
  threadId := 0
  instAddr := 0x10144
  symbol := some ("_start".toList, 4)
  microPC := none
  disassembly := disassembly.toList
  opClass := .intAlu
  predicate := true
  data := some 1
  addr := none
  fetchSeq := none
  cpSeq := none
  flags := []
  metaInfo := sampleMeta
  src := src
  dst := dst

lemma sample_printable {disassembly : String} (h : ':' ∉ disassembly.toList)
    (src dst : List UInt16) : Printable (sample disassembly src dst) where
  name := show ':' ∉ "system.cpu".toList by decide
  symbol := by
    intro p hp
    cases hp
    decide
  disassembly := h
  flags := List.not_mem_nil

lemma sample_printed (disassembly : String) (src dst : List UInt16) :
    Printed .exec (sample disassembly src dst) := rfl

lemma sample_framed (disassembly : String) (src dst : List UInt16) :
    Framed .exec (sample disassembly src dst) where
  ticks := rfl
  when := show (9000 : UInt64) ≠ DynInst.maxTick by decide
  name := show "system.cpu".toList ≠ [] by decide
  thread := rfl
  opClass := rfl

lemma sample_aligned (disassembly : String) (src dst : List UInt16) :
    Aligned (sample disassembly src dst) := by
  have h : ∀ p ∈ sampleMeta.stamps, 1000 ∣ p.2.toNat := by decide
  exact h

lemma sample_representable (disassembly : String) (src dst : List UInt16) :
    Representable (sample disassembly src dst) := by
  have h : ∀ p ∈ sampleMeta.stamps, p.2.toNat / 1000 < 2 ^ 53 := by decide
  exact representable_of_lt h

/-- What the decoders make of the line of an instruction. -/
lemma decoded (disassembly : String) (h : ':' ∉ disassembly.toList) (src dst : List UInt16)
    (seq : ℕ) :
    (∃ a, Deg.RiscvInstruction.ofLine ((sample disassembly src dst).logLine .exec) seq = .ok a ∧
      Constructed (line .exec _ (sample_printable h src dst)) a.toTraceLine) ∧
    (dst.length ≤ 1 →
      ∃ b, Core.RiscvInstruction.parse seq ((sample disassembly src dst).dumpTimestamp .exec) =
        .ok b ∧ Parsed (line .exec _ (sample_printable h src dst)) b.toTraceLine) := by
  have htext := logLine_eq_text rfl (sample_framed disassembly src dst) (sample_printable h src dst)
  refine ⟨?_, fun hdst => ?_⟩
  · obtain ⟨a, hok⟩ := construct_line .exec (sample_printable h src dst)
    refine ⟨⟨a, seq⟩, ?_, constructed_of_ok hok⟩
    rw [htext, ofLine_text, hok]
    rfl
  · obtain ⟨b, hok⟩ := parse_line .exec (sample_printable h src dst) (sample_aligned _ _ _)
      (sample_representable _ _ _) hdst
    refine ⟨⟨b, seq⟩, ?_, parsed_of_ok hok⟩
    rw [dumpTimestamp_of_printed (sample_printed _ _ _), htext, parse_text _ _ (.inr rfl), hok]
    rfl

end ArchExplorer.Trace
