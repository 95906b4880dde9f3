import ArchExplorer.Compare.Records
import ArchExplorer.Core.Construction
import ArchExplorer.Deg.Edges
import ArchExplorer.Deg.Window
import ArchExplorer.Trace.Agreement

/-!
# Dependences between registers

Three predicates decide whether an instruction depends on an earlier one through a register. They
compare the registers that the decoders have read, where `-1` stands for a missing destination and,
in the Python analysis, for missing sources as well. The predicates do not know about `-1`, so that
two instructions which both lack a register depend on each other.
-/

namespace ArchExplorer.Compare

open ArchExplorer.Lib
open ArchExplorer.Lib.Text
open ArchExplorer.Trace

/-! ### The registers of a line -/

/-- The source registers that are written in a line. -/
def srcs (l : Line) : List ℤ := l.src.value.numerals.map Numeral.value

/-- The destination registers that are written in a line. -/
def dsts (l : Line) : List ℤ := l.dst.value.numerals.map Numeral.value

/-- The registers are indices: none of them has a minus sign. -/
structure Indexed (l : Line) : Prop where
  src : ∀ n ∈ l.src.value.numerals, n.sign ≠ some true
  dst : ∀ n ∈ l.dst.value.numerals, n.sign ≠ some true

/-- Each dependence of `tgt` on `src` is about a register that is a destination of one line and a
source or a destination of the other. -/
@[mk_iff]
structure NeedRegister (raw war wrw : Prop) (tgt src : Line) : Prop where
  raw : raw → ∃ r ∈ dsts src, r ∈ srcs tgt
  war : war → ∃ r ∈ dsts tgt, r ∈ srcs src
  wrw : wrw → ∃ r ∈ dsts tgt, r ∈ dsts src

variable {l l' : Line} {a a' : Deg.RiscvInstruction} {b b' : Core.RiscvInstruction}

lemma nonneg_of_map {ns : List Numeral} (h : ∀ n ∈ ns, n.sign ≠ some true) :
    ∀ r ∈ ns.map Numeral.value, 0 ≤ r := by
  intro r hr
  obtain ⟨n, hn, rfl⟩ := List.mem_map.mp hr
  exact value_nonneg (h n hn)

/-- The recorded destination is one of the line, or there is none. -/
lemma dstValue_cases (l : Line) :
    dsts l = [] ∧ dstValue l.dst.value.numerals = -1 ∨ dstValue l.dst.value.numerals ∈ dsts l := by
  unfold dsts
  cases l.dst.value.numerals with
  | nil      => exact .inl ⟨rfl, rfl⟩
  | cons n _ => exact .inr List.mem_cons_self

/-- The sources that the parser records. -/
lemma toSrc_eq (l : Line) :
    toSrc l.src.value.numerals = if srcs l = [] then [-1] else srcs l := by
  unfold srcs
  cases l.src.value.numerals <;> simp [toSrc]

/-- A destination among the sources is a register. -/
lemma exists_of_dst_mem_srcs (hl : Indexed l) (h : dstValue l'.dst.value.numerals ∈ srcs l) :
    ∃ r ∈ dsts l', r ∈ srcs l := by
  rcases dstValue_cases l' with ⟨-, hnone⟩ | hmem
  · have := nonneg_of_map hl.src _ h
    omega
  · exact ⟨_, hmem, h⟩

/-- Two destinations agree through a register exactly if one is written. -/
lemma exists_of_dst_eq_iff (hl : Indexed l) (hl' : Indexed l') :
    (dstValue l.dst.value.numerals = dstValue l'.dst.value.numerals →
      ∃ r ∈ dsts l, r ∈ dsts l') ↔ dsts l ≠ [] ∨ dsts l' ≠ [] := by
  rcases dstValue_cases l with ⟨hnil, hnone⟩ | hmem <;>
    rcases dstValue_cases l' with ⟨hnil', hnone'⟩ | hmem'
  · simp [hnil, hnil', hnone, hnone']
  · have := nonneg_of_map hl'.dst _ hmem'
    exact iff_of_true (fun h => by omega) (.inr (List.ne_nil_of_mem hmem'))
  · have := nonneg_of_map hl.dst _ hmem
    exact iff_of_true (fun h => by omega) (.inl (List.ne_nil_of_mem hmem))
  · exact iff_of_true (fun h => ⟨_, hmem, h ▸ hmem'⟩) (.inl (List.ne_nil_of_mem hmem))

/-! ### The C++ analysis -/

/-- The constructor of the C++ analysis records no source for a line without one, so that only the
destinations can agree without a register. -/
lemma needRegister_deg_iff (hl : Indexed l) (hl' : Indexed l') (ha : Constructed l a.toTraceLine)
    (ha' : Constructed l' a'.toTraceLine) (hlt : a'.instSeq < a.instSeq) :
    NeedRegister (Deg.rawDep a a' = .ok true) (Deg.warDep a a' = .ok true)
      (Deg.wrwDep a a' = true) l l' ↔ dsts l ≠ [] ∨ dsts l' ≠ [] := by
  simp only [needRegister_iff, Deg.rawDep, Deg.warDep, Deg.wrwDep, if_pos hlt, Except.ok.injEq,
    List.contains_iff_mem, decide_eq_true_eq, ha.src, ha.dst, ha'.src, ha'.dst]
  rw [exists_of_dst_eq_iff hl hl']
  exact ⟨fun h => h.2.2, fun h => ⟨exists_of_dst_mem_srcs hl, exists_of_dst_mem_srcs hl', h⟩⟩

/-! ### The Python analysis -/

/-- A destination is among the sources that the parser records through a register, or both are
missing. -/
lemma dst_mem_toSrc_iff (hl' : Indexed l') :
    dstValue l'.dst.value.numerals ∈ toSrc l.src.value.numerals ↔
      dsts l' = [] ∧ srcs l = [] ∨ dstValue l'.dst.value.numerals ∈ srcs l := by
  rw [toSrc_eq]
  rcases dstValue_cases l' with ⟨hnil, hnone⟩ | hmem
  · split_ifs with hsrc
    · simp [hnil, hsrc, hnone]
    · simp [hsrc]
  · have hpos := nonneg_of_map hl'.dst _ hmem
    have hne : dsts l' ≠ [] := List.ne_nil_of_mem hmem
    split_ifs with hsrc
    · simp [hne, hsrc]
      omega
    · simp [hne]

/-- A dependence through one destination needs a register exactly if one is written. -/
lemma exists_of_mem_toSrc_iff (hl : Indexed l) (hl' : Indexed l') :
    (dstValue l'.dst.value.numerals ∈ toSrc l.src.value.numerals →
      ∃ r ∈ dsts l', r ∈ srcs l) ↔ dsts l' ≠ [] ∨ srcs l ≠ [] := by
  rw [dst_mem_toSrc_iff hl']
  constructor
  · intro h
    by_contra! hnone
    obtain ⟨r, hr, -⟩ := h (.inl hnone)
    simp [hnone.1] at hr
  · rintro hsome (⟨hdst, hsrc⟩ | hmem)
    · exact absurd hsrc (hsome.resolve_left (absurd hdst))
    · exact exists_of_dst_mem_srcs hl hmem

lemma needRegister_core_iff (hl : Indexed l) (hl' : Indexed l') (hb : Parsed l b.toTraceLine)
    (hb' : Parsed l' b'.toTraceLine) (hlt : b'.seq < b.seq) :
    NeedRegister (Core.rawDep b b' = .ok true) (Core.warDep b b' = .ok true)
        (Core.wrwDep b b' = true) l l' ↔
      (dsts l' ≠ [] ∨ srcs l ≠ []) ∧ (dsts l ≠ [] ∨ srcs l' ≠ []) ∧
        (dsts l ≠ [] ∨ dsts l' ≠ []) := by
  simp only [needRegister_iff, Core.rawDep, Core.warDep, Core.wrwDep, if_pos hlt, Except.ok.injEq,
    List.contains_iff_mem, decide_eq_true_eq, hb.src, hb.dst, hb'.src, hb'.dst]
  rw [exists_of_mem_toSrc_iff hl hl', exists_of_mem_toSrc_iff hl' hl, exists_of_dst_eq_iff hl hl']

/-! ### The edges -/

/-- An edge of the register files or of the operands comes from an instruction with a dependence. -/
lemma exists_dep_of_deg {past : List Deg.RiscvInstruction} {inst : Deg.RiscvInstruction}
    (ho : Deg.Older past inst) {e : Deg.Vertex × Deg.OutgoingEdge}
    (he : e ∈ Deg.rfEdges past inst ++ Deg.rawEdges past inst) :
    ∃ p ∈ past, e.1.instSeq = p.instSeq ∧ (Deg.rawDep inst p = .ok true ∨
      Deg.warDep inst p = .ok true ∨ Deg.wrwDep inst p = true) := by
  rcases List.mem_append.mp he with he | he
  · obtain ⟨b, p, hp, hdep, rfl⟩ := Deg.exists_of_mem_rfEdges he
    refine ⟨p, hp, rfl, .inr ?_⟩
    rw [Deg.warDep, if_pos (ho p hp), Except.ok.injEq]
    simpa [Deg.rfConflict] using hdep
  · obtain ⟨b, p, hp, hdep, rfl⟩ := Deg.exists_of_mem_rawEdges ho he
    refine ⟨p, hp, ?_, .inl ?_⟩
    · simp [Deg.issueEdge]
    · rw [Deg.rawDep, if_pos (ho p hp), hdep]

lemma exists_dep_of_core {past : List Core.RiscvInstruction} {inst : Core.RiscvInstruction}
    (ho : Core.Older past inst) {e : Core.Edge}
    (he : e ∈ Core.rfEdges past inst ++ Core.rawEdges past inst) :
    ∃ p ∈ past, e.u.seq = p.seq ∧ (Core.rawDep inst p = .ok true ∨
      Core.warDep inst p = .ok true ∨ Core.wrwDep inst p = true) := by
  rcases List.mem_append.mp he with he | he
  · obtain ⟨b, p, hp, hdep, rfl⟩ := Core.exists_of_mem_rfEdges he
    refine ⟨p, hp, rfl, .inr ?_⟩
    rw [Core.warDep, if_pos (ho p hp), Except.ok.injEq]
    simpa [Core.rfConflict] using hdep
  · obtain ⟨b, p, hp, hdep, rfl⟩ := Core.exists_of_mem_rawEdges ho he
    refine ⟨p, hp, ?_, .inl ?_⟩
    · simp [Core.issueEdge, Core.skewEdge]
    · rw [Core.rawDep, if_pos (ho p hp), hdep]

/-- The dependences of a line on an earlier one are about registers exactly if, in the C++ analysis,
one of the lines has a destination and if, in the Python analysis, moreover none of them lacks its
destination while the other one lacks its sources. Edges of the register files and of the operands
are only added for such dependences. -/
theorem needRegister_dep_iff (l l' : Line) (hl : Indexed l) (hl' : Indexed l') (seq seq' : ℕ)
    (hlt : seq' < seq) :
    ((∀ a a', Deg.RiscvInstruction.ofLine l.text seq = .ok a →
        Deg.RiscvInstruction.ofLine l'.text seq' = .ok a' →
        (NeedRegister (Deg.rawDep a a' = .ok true) (Deg.warDep a a' = .ok true)
          (Deg.wrwDep a a' = true) l l' ↔ dsts l ≠ [] ∨ dsts l' ≠ [])) ∧
      ∀ past inst, Deg.Older past inst →
        ∀ e ∈ Deg.rfEdges past inst ++ Deg.rawEdges past inst,
          ∃ p ∈ past, e.1.instSeq = p.instSeq ∧ (Deg.rawDep inst p = .ok true ∨
            Deg.warDep inst p = .ok true ∨ Deg.wrwDep inst p = true)) ∧
    (∀ eol eol' b b', IsEol eol → IsEol eol' →
        Core.RiscvInstruction.parse seq (l.text ++ eol) = .ok b →
        Core.RiscvInstruction.parse seq' (l'.text ++ eol') = .ok b' →
        (NeedRegister (Core.rawDep b b' = .ok true) (Core.warDep b b' = .ok true)
            (Core.wrwDep b b' = true) l l' ↔
          (dsts l' ≠ [] ∨ srcs l ≠ []) ∧ (dsts l ≠ [] ∨ srcs l' ≠ []) ∧
            (dsts l ≠ [] ∨ dsts l' ≠ []))) ∧
      ∀ past inst, Core.Older past inst →
        ∀ e ∈ Core.rfEdges past inst ++ Core.rawEdges past inst,
          ∃ p ∈ past, e.u.seq = p.seq ∧ (Core.rawDep inst p = .ok true ∨
            Core.warDep inst p = .ok true ∨ Core.wrwDep inst p = true) := by
  refine ⟨⟨fun a a' ha ha' => ?_, fun _ _ ho _ he => exists_dep_of_deg ho he⟩,
    fun eol eol' b b' heol heol' hb hb' => ?_, fun _ _ ho _ he => exists_dep_of_core ho he⟩
  · rw [ofLine_text] at ha ha'
    obtain ⟨c, hc, ha⟩ := bind_eq_ok ha
    obtain ⟨c', hc', ha'⟩ := bind_eq_ok ha'
    cases ha
    cases ha'
    exact needRegister_deg_iff hl hl' (constructed_of_ok hc) (constructed_of_ok hc') hlt
  · rw [parse_text _ _ heol] at hb
    rw [parse_text _ _ heol'] at hb'
    obtain ⟨c, hc, hb⟩ := bind_eq_ok hb
    obtain ⟨c', hc', hb'⟩ := bind_eq_ok hb'
    cases hb
    cases hb'
    exact needRegister_core_iff hl hl' (parsed_of_ok hc) (parsed_of_ok hc') hlt

/-- The lines of a simulation have indices as registers. -/
lemma indexed_line (flags : Gem5.DebugFlags) (i : Gem5.DynInst) (h : Printable i) :
    Indexed (Trace.line flags i h) := by
  have hsign : ∀ rs : List UInt16, ∀ n ∈ (registerList [] nil_isSpace rs).numerals,
      n.sign ≠ some true := by
    intro rs n hn
    obtain ⟨r, -, rfl⟩ := List.mem_map.mp hn
    simp [number, Numeral.ofInt]
  exact ⟨hsign i.src, hsign i.dst⟩

/-- An addition that does not read the result of a load of an upper immediate. -/
theorem needRegister_dep_iff_add : ∃ a a',
    Deg.RiscvInstruction.ofLine addLine.text 2 = .ok a ∧
    Deg.RiscvInstruction.ofLine luiLine.text 1 = .ok a' ∧
    NeedRegister (Deg.rawDep a a' = .ok true) (Deg.warDep a a' = .ok true)
      (Deg.wrwDep a a' = true) addLine luiLine := by
  obtain ⟨a, -, ha, -⟩ := accepted "add a0, a1, a2" (by decide) [11, 12] [10]
    (le_refl 1) 2
  obtain ⟨a', -, ha', -⟩ := accepted "lui a0, 16" (by decide) [] [10] (le_refl 1) 1
  refine ⟨a, a', ha, ha', ?_⟩
  refine ((needRegister_dep_iff addLine luiLine (indexed_line _ _ _) (indexed_line _ _ _) 2 1
    (by decide)).1.1 a a' ha ha').mpr (.inl ?_)
  exact List.cons_ne_nil _ _

def beqLine : Line :=
  Trace.line .exec (sample "beq a0, a1, 8" [10, 11] []) (sample_printable (by decide) _ _)

def bneLine : Line :=
  Trace.line .exec (sample "bne a2, a3, 8" [12, 13] []) (sample_printable (by decide) _ _)

/-- Two branches write the same register for both analyses, which charge the wait of the second one
for a register to the first one, and an instruction without sources reads the result of a branch for
the Python analysis. -/
theorem branches_depend : ∃ a a' b b' b'',
    Deg.RiscvInstruction.ofLine bneLine.text 2 = .ok a ∧
    Deg.RiscvInstruction.ofLine beqLine.text 1 = .ok a' ∧
    Core.RiscvInstruction.parse 2 (bneLine.text ++ ['\n']) = .ok b ∧
    Core.RiscvInstruction.parse 1 (beqLine.text ++ ['\n']) = .ok b' ∧
    Core.RiscvInstruction.parse 2 (luiLine.text ++ ['\n']) = .ok b'' ∧
    dsts bneLine = [] ∧ dsts beqLine = [] ∧ srcs luiLine = [] ∧
    Deg.wrwDep a a' = true ∧ Core.wrwDep b b' = true ∧ Core.rawDep b'' b' = .ok true ∧
    (Deg.rfEdges [⟨Deg.addAt 1 [10, 11] (-1), 1⟩] ⟨Deg.addAt 2 [12, 13] (-1), 2⟩).length = 1 ∧
    (Core.rfEdges [⟨line (Deg.addAt 1 [10, 11] (-1)), 1⟩]
      ⟨line (Deg.addAt 2 [12, 13] (-1)), 2⟩).length = 1 := by
  obtain ⟨a, b, ha, hb, hspec, hspec'⟩ := accepted "bne a2, a3, 8" (by decide)
    [12, 13] [] (Nat.zero_le 1) 2
  obtain ⟨a', b', ha', hb', hspeca, hspecb⟩ := accepted "beq a0, a1, 8" (by decide)
    [10, 11] [] (Nat.zero_le 1) 1
  obtain ⟨-, b'', -, hb'', -, hlui⟩ := accepted "lui a0, 16" (by decide) [] [10]
    (le_refl 1) 2
  have hseq {k : ℕ} {t : Text} {c : Core.RiscvInstruction}
      (h : Core.RiscvInstruction.parse k t = .ok c) : c.seq = k := by
    obtain ⟨c', -, h⟩ := bind_eq_ok h
    cases h
    rfl
  refine ⟨a, a', b, b', b'', ha, ha', hb, hb', hb'', rfl, rfl, rfl, ?_, ?_, ?_, by decide,
    by decide⟩
  · have ha : a.dst = -1 := hspec.dst
    have ha' : a'.dst = -1 := hspeca.dst
    simp [Deg.wrwDep, ha, ha']
  · have hb : b.dst = -1 := hspec'.dst
    have hb' : b'.dst = -1 := hspecb.dst
    simp [Core.wrwDep, hb, hb']
  · rw [Core.rawDep, hseq hb', hseq hb'', hlui.src, hspecb.dst]
    rfl

end ArchExplorer.Compare
