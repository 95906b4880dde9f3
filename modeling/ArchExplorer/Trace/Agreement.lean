import ArchExplorer.Trace.Fields
import ArchExplorer.Trace.RoundTrip

/-!
# Agreement of the decoders

The constructor of the C++ analysis and the parser of the Python analysis on a line with 34 fields,
whatever they are. On the lines that the simulator prints the records agree unless there is no
source register, a tick that the parser rounds up, or a mnemonic with a blank at an end that only
one of the decoders strips. Other lines may also have negative ticks, underscores in numbers, ids
that are no integers and registers behind a second equality sign.
-/

namespace ArchExplorer.Trace

open ArchExplorer.Lib
open ArchExplorer.Lib.Text
open ArchExplorer.Gem5

/-- The records of the two decoders agree on what both keep. The parser keeps the ids as texts. -/
structure Agree (a : Deg.TraceLine) (b : Core.TraceLine) : Prop where
  inst : a.inst = b.inst
  instType : a.instType.name = b.instType
  stamps : a.toTick.toList.map (fun t => (t.toNat : ℤ)) = b.toCycle.toList
  rob : read b.rob.toList = some a.rob
  lq : read b.lq.toList = some a.lq
  sq : read b.sq.toList = some a.sq
  iq : read b.iq.toList = some a.iq
  fu : read b.fu.toList = some a.fu
  src : a.src = b.src
  dst : a.dst = b.dst

/-! ### Cycles -/

/-- The tick `t` is rounded down. Below `2 ^ 44` cycles the remainder decides. Above, the quotient
need not be near to a double, and the double nearest to it decides. -/
def RoundsDown (t : ℤ) : Prop :=
  if t < 2 ^ 44 * 1000 then t % 1000 < 500 ∨ t % 1000 = 500 ∧ Even (t / 1000)
  else |toDouble (t / 1000) - (t / 1000 : ℤ)| < 1 / 2 ∨
    |toDouble (t / 1000) - (t / 1000 : ℤ)| = 1 / 2 ∧ Even (t / 1000)

/-- The quotient of a tick and its integer part. -/
lemma quotient_eq (t : ℤ) : (t / 1000 : ℚ) = (t / 1000 : ℤ) + (t % 1000 : ℤ) / 1000 := by
  have h : (t : ℚ) = 1000 * (t / 1000 : ℤ) + (t % 1000 : ℤ) := by
    exact_mod_cast (Int.mul_ediv_add_emod t 1000).symm
  rw [h]
  ring

/-- Below `2 ^ 44` cycles a quotient is less than a thousandth away from its double. -/
lemma abs_quotient_sub_toDouble {t : ℤ} (h₀ : 0 ≤ t) (h : t < 2 ^ 44 * 1000) :
    |(t / 1000 : ℚ) - toDouble (t / 1000)| < 1 / 1000 := by
  have hpos : (0 : ℚ) ≤ t / 1000 := by
    have : (0 : ℚ) ≤ t := by exact_mod_cast h₀
    linarith
  have hlt : |(t / 1000 : ℚ)| < 2 ^ 44 := by
    have : (t : ℚ) < 2 ^ 44 * 1000 := by exact_mod_cast h
    rw [abs_of_nonneg hpos]
    linarith
  have hulp := ulp_le hlt (by norm_num)
  have herror := abs_sub_toDouble_le (t / 1000 : ℚ)
  norm_num at hulp
  linarith

lemma roundEven_toDouble_iff {t : ℤ} (h₀ : 0 ≤ t) :
    roundEven (toDouble (t / 1000)) = t / 1000 ↔ RoundsDown t := by
  unfold RoundsDown
  split_ifs with hlt
  · have herror := abs_lt.mp (abs_quotient_sub_toDouble h₀ hlt)
    have hquot := quotient_eq t
    have hnonneg : 0 ≤ t % 1000 := Int.emod_nonneg t (by norm_num)
    have hr₀ : (0 : ℚ) ≤ (t % 1000 : ℤ) := by exact_mod_cast hnonneg
    rcases lt_trichotomy (t % 1000) 500 with hr | hr | hr
    · have hr' : ((t % 1000 : ℤ) : ℚ) ≤ 499 := by exact_mod_cast (by omega : t % 1000 ≤ 499)
      refine iff_of_true (roundEven_of_abs_lt ?_) (.inl hr)
      rw [abs_lt]
      constructor <;> linarith
    · -- the quotient is half way and a double
      have hhalf : (t / 1000 : ℚ) = (t / 1000 : ℤ) + 1 / 2 := by
        rw [hquot, hr]
        norm_num
      have hdouble : toDouble (t / 1000 : ℚ) = t / 1000 := by
        have hbits : (t / 1000 : ℚ) = ((2 * (t / 1000) + 1 : ℤ) : ℚ) / 2 ^ 1 := by
          rw [hhalf]
          push_cast
          ring
        refine toDouble_eq_self_of_lt hbits (n := 44) ?_ (by norm_num) (by norm_num)
        have h₀' : (0 : ℚ) ≤ t := by exact_mod_cast h₀
        have hlt' : (t : ℚ) < 2 ^ 44 * 1000 := by exact_mod_cast hlt
        rw [abs_of_nonneg (by linarith)]
        linarith
      rw [hdouble, hhalf, roundEven_add_half]
      constructor
      · intro h
        split_ifs at h with heven
        · exact .inr ⟨hr, heven⟩
        · omega
      · rintro (h | ⟨-, heven⟩)
        · omega
        · rw [if_pos heven]
    · have hr' : (501 : ℚ) ≤ (t % 1000 : ℤ) := by exact_mod_cast hr
      refine iff_of_false ?_ (by omega)
      rw [roundEven_eq_iff, abs_lt]
      rintro (⟨-, h⟩ | ⟨h, -⟩)
      · linarith
      · have := (abs_eq (by norm_num : (0 : ℚ) ≤ 1 / 2)).mp h
        rcases this with h | h <;> linarith
  · exact roundEven_eq_iff

/-- The nearest cycle is the zeroth one up to half a cycle. -/
lemma roundEven_eq_zero_iff (t : ℤ) : roundEven (toDouble (t / 1000)) = 0 ↔ |t| ≤ 500 := by
  have hrel := abs_le.mp (abs_sub_toDouble_le_abs (t / 1000 : ℚ))
  have hcast : |(t / 1000 : ℚ)| = (|t| : ℤ) / 1000 := by
    rw [abs_div, Int.cast_abs]
    norm_num
  rw [hcast] at hrel
  have hiff := roundEven_eq_iff (q := toDouble (t / 1000 : ℚ)) (k := 0)
  rw [Int.cast_zero, sub_zero] at hiff
  rw [hiff]
  rcases lt_trichotomy |t| 500 with hlt | heq | hgt
  · have hle : ((|t| : ℤ) : ℚ) ≤ 499 := by exact_mod_cast (by omega : |t| ≤ 499)
    have ht := abs_le.mp (hcast.le)
    refine iff_of_true (.inl (abs_lt.mpr ⟨?_, ?_⟩)) hlt.le
    · linarith [hrel.2, ht.1]
    · linarith [hrel.1, ht.2]
  · -- half a cycle is a double
    have hdouble : toDouble (t / 1000 : ℚ) = t / 1000 := by
      have hcases : t = 500 ∨ t = -500 := (abs_eq (by norm_num)).mp heq
      have hbits : ∃ m : ℤ, (t / 1000 : ℚ) = m / 2 ^ 1 := by
        rcases hcases with rfl | rfl
        exacts [⟨1, by norm_num⟩, ⟨-1, by norm_num⟩]
      obtain ⟨m, hm⟩ := hbits
      refine toDouble_eq_self_of_lt hm (n := 1) ?_ le_rfl (by norm_num)
      rw [hcast, heq]
      norm_num
    refine iff_of_true (.inr ⟨?_, Even.zero⟩) heq.le
    rw [hdouble, hcast, heq]
    norm_num
  · have hge : (501 : ℚ) ≤ (|t| : ℤ) := by exact_mod_cast hgt
    refine iff_of_false ?_ (by omega)
    have hbig : 1 / 2 < |toDouble (t / 1000 : ℚ)| := by
      have htri := abs_sub_abs_le_abs_sub (t / 1000 : ℚ) (toDouble (t / 1000))
      have habs := abs_le.mpr hrel
      rw [hcast] at htri
      linarith
    rintro (h | ⟨h, -⟩) <;> linarith

lemma roundEven_cycle_nonpos {t : ℤ} (ht : t ≤ 0) : roundEven (toDouble (t / 1000)) ≤ 0 := by
  have hq : (t / 1000 : ℚ) ≤ 0 := by
    have : (t : ℚ) ≤ 0 := by exact_mod_cast ht
    linarith
  have hrel := abs_le.mp (abs_sub_toDouble_le_abs (t / 1000 : ℚ))
  rw [abs_of_nonpos hq] at hrel
  have hround := abs_le.mp (abs_sub_roundEven_le (toDouble (t / 1000 : ℚ)))
  have hlt : (roundEven (toDouble (t / 1000 : ℚ)) : ℚ) < 1 := by linarith [hrel.1, hround.1]
  have : roundEven (toDouble (t / 1000 : ℚ)) < 1 := by exact_mod_cast hlt
  omega

/-- A value that is read as one cycle by both decoders. Of a number with underscores the constructor
reads the first group only. -/
def SameCycle (v : Text) : Prop :=
  ∃ t, read v = some t ∧
    if '_' ∈ v then |t| ≤ 500 ∧ (0 ≤ t ∨ scan v = some 0) else 0 ≤ t ∧ RoundsDown t

lemma toNat_ofInt_neg {i : ℤ} (hi : i < 0) (hlt : i.natAbs < 2 ^ 64) :
    (UInt64.ofInt i).toNat = 2 ^ 64 - i.natAbs := by
  have hmod : i % 2 ^ 64 = 2 ^ 64 - i.natAbs := by
    rw [← Int.add_emod_right]
    rw [Int.emod_eq_of_lt] <;> omega
  rw [UInt64.ofInt, UInt64.toNat_ofNat', hmod]
  omega

/-- The cycle that the constructor computes. -/
lemma toNat_stamp {i : ℤ} (hlt : i.natAbs < 2 ^ 64) :
    ((UInt64.ofInt i / Deg.cyclePerTick).toNat : ℤ) =
      if 0 ≤ i then i / 1000 else (2 ^ 64 + i) / 1000 := by
  rw [UInt64.toNat_div]
  split_ifs with hi
  · obtain ⟨n, rfl⟩ := Int.eq_ofNat_of_zero_le hi
    rw [Int.natAbs_natCast] at hlt
    rw [toNat_ofInt_natCast hlt]
    rfl
  · rw [toNat_ofInt_neg (by omega) hlt, show Deg.cyclePerTick.toNat = 1000 from rfl]
    omega

/-- A tenth of a tick is too early, unless both are in the first half cycle. -/
lemma first_group_cycle {i t : ℤ} (hi : 0 ≤ i) (hle : 10 * i ≤ t)
    (h : i / 1000 = roundEven (toDouble (t / 1000))) : i / 1000 = 0 := by
  by_contra hne
  have hpos : 1 ≤ i / 1000 := by omega
  have hq : (0 : ℚ) ≤ t / 1000 := by
    have : (0 : ℚ) ≤ t := by exact_mod_cast (by omega : 0 ≤ t)
    positivity
  have hrel := abs_le.mp (abs_sub_toDouble_le_abs (t / 1000 : ℚ))
  rw [abs_of_nonneg hq] at hrel
  have hround := abs_le.mp (abs_sub_roundEven_le (toDouble (t / 1000 : ℚ)))
  rw [← h] at hround
  have hten : 10000 * (i / 1000 : ℤ) ≤ t := by omega
  have hten' : (10000 * (i / 1000 : ℤ) : ℚ) ≤ t := by exact_mod_cast hten
  have hpos' : (1 : ℚ) ≤ (i / 1000 : ℤ) := by exact_mod_cast hpos
  linarith [hrel.2, hround.2]

/-- The cycles of a tick agree. -/
lemma cycle_eq_iff {s : Text} {i t : ℤ} (hscan : scan (after '=' s) = some i)
    (hlt : i.natAbs < 2 ^ 64) (hread : read (fieldValue s) = some t) :
    ((UInt64.ofInt i / Deg.cyclePerTick).toNat : ℤ) = roundEven (toDouble (t / 1000)) ↔
      SameCycle (fieldValue s) := by
  obtain ⟨neg, first, more, hv, rfl, rfl⟩ := readAs_of_scan hscan hread
  set i := ofSigned neg first with hi
  set t := ofSigned neg (first ++ more) with ht
  have hsame : SameCycle (fieldValue s) ↔ if '_' ∈ fieldValue s then
      |t| ≤ 500 ∧ (0 ≤ t ∨ i = 0) else 0 ≤ t ∧ RoundsDown t := by
    have hnil := hv.scan [] (by simp)
    rw [List.append_nil] at hnil
    simp only [SameCycle, hread, Option.some.injEq, exists_eq_left', hnil, ← hi]
  have hzero := roundEven_eq_zero_iff t
  have habs : i.natAbs = ofDigits first ∧ t.natAbs = ofDigits (first ++ more) :=
    ⟨natAbs_ofSigned neg first, natAbs_ofSigned neg _⟩
  have hsign : 0 ≤ i ∧ 0 ≤ t ∨ i ≤ 0 ∧ t ≤ 0 := by
    rw [hi, ht, ofSigned, ofSigned]
    cases neg
    · exact .inl ⟨Int.natCast_nonneg _, Int.natCast_nonneg _⟩
    · right
      simp
  rw [hsame, toNat_stamp hlt]
  by_cases hunder : '_' ∈ fieldValue s
  · have hmore : 10 * ofDigits first ≤ ofDigits (first ++ more) :=
      ten_mul_ofDigits_le first fun hnil => hv.more.mp hnil hunder
    rw [if_pos hunder]
    by_cases hsmall : |t| ≤ 500
    · have hround := hzero.mpr hsmall
      rw [abs_le] at hsmall
      split_ifs <;> omega
    · refine iff_of_false (fun heq => ?_) fun h => hsmall h.1
      split_ifs at heq with hpos
      · exact hsmall (hzero.mp (heq.symm.trans (first_group_cycle hpos (by omega) heq)))
      · have hnonpos := roundEven_cycle_nonpos (t := t) (by omega)
        exact hsmall (hzero.mp (by omega))
  · have hmore : more = [] := hv.more.mpr hunder
    have heq : i = t := by rw [hi, ht, hmore, List.append_nil]
    rw [if_neg hunder, heq]
    split_ifs with hpos
    · rw [eq_comm, roundEven_toDouble_iff hpos]
      exact (and_iff_right hpos).symm
    · -- a negative tick is a huge one for the constructor
      refine iff_of_false (fun h => ?_) fun h => hpos h.1
      have hnonpos := roundEven_cycle_nonpos (t := t) (by omega)
      have hsmall := abs_le.mp (hzero.mp (by omega))
      omega

/-! ### The records -/

/-- The field at a place. -/
def fieldAt (f : List Text) (idx : ℕ) : Text := f.getD idx []

variable {f : List Text}

/-- What the constructor makes of the fields of a line. -/
structure ConstructedOf (f : List Text) (a : Deg.TraceLine) : Prop where
  inst : a.inst = .ofList (strip isSpace (fieldAt f 4))
  instType : a.instType.name.toList = strip isSpace (fieldAt f 5)
  stamps : List.Forall₂ (fun idx c => ∃ i, scan (after '=' (fieldAt f idx)) = some i ∧
    i.natAbs < 2 ^ 64 ∧ c = UInt64.ofInt i / Deg.cyclePerTick) (List.range' 7 20) a.toTick.toList
  rob : scan (after '=' (fieldAt f 27)) = some a.rob
  lq : scan (after '=' (fieldAt f 28)) = some a.lq
  sq : scan (after '=' (fieldAt f 29)) = some a.sq
  iq : scan (after '=' (fieldAt f 30)) = some a.iq
  fu : scan (after '=' (fieldAt f 31)) = some a.fu
  src : Deg.setSrcReg (fieldAt f 32) = .ok a.src
  dst : Deg.setDstReg (fieldAt f 33) = .ok a.dst

/-- What the parser makes of the fields of a line. -/
structure ParsedOf (f : List Text) (b : Core.TraceLine) : Prop where
  inst : b.inst = .ofList (strip isUnicodeSpace (fieldAt f 4))
  instType : b.instType = .ofList (strip isUnicodeSpace (fieldAt f 5))
  stamps : List.Forall₂ (fun idx c => ∃ t, read (fieldValue (fieldAt f idx)) = some t ∧
    c = roundEven (toDouble (t / 1000))) (List.range' 7 20) b.toCycle.toList
  rob : b.rob = .ofList (fieldValue (fieldAt f 27))
  lq : b.lq = .ofList (fieldValue (fieldAt f 28))
  sq : b.sq = .ofList (fieldValue (fieldAt f 29))
  iq : b.iq = .ofList (fieldValue (fieldAt f 30))
  fu : b.fu = .ofList (fieldValue (fieldAt f 31))
  src : Core.parseSrc (fieldValue (fieldAt f 32)) = .ok b.src
  dst : Core.parseDst (fieldValue (fieldAt f 33)) = .ok b.dst

lemma fieldAt_eq {idx : ℕ} {s : Text} (h : f[idx]? = some s) : fieldAt f idx = s := by
  rw [fieldAt, List.getD_eq_getElem?_getD, h, Option.getD_some]

lemma segment_fieldAt {idx : ℕ} {s : Text} (h : Deg.segment f idx = .ok s) :
    s = fieldAt f idx := (fieldAt_eq (segment_eq_ok h)).symm

lemma stamp_eq_ok {idx : ℕ} {c : UInt64} (h : Deg.stamp f idx = .ok c) :
    ∃ i, scan (after '=' (fieldAt f idx)) = some i ∧ i.natAbs < 2 ^ 64 ∧
      c = UInt64.ofInt i / Deg.cyclePerTick := by
  obtain ⟨s, hs, h⟩ := bind_eq_ok h
  obtain ⟨t, ht, h⟩ := bind_eq_ok h
  rw [← segment_fieldAt hs]
  cases h
  unfold Deg.stoull at ht
  split at ht
  next => cases ht
  next i hi =>
    split_ifs at ht with hlt
    cases ht
    exact ⟨i, hi, hlt, rfl⟩

lemma setId_eq_ok {idx : ℕ} {i : ℤ} (h : Deg.setId f idx = .ok i) :
    scan (after '=' (fieldAt f idx)) = some i := by
  obtain ⟨s, hs, h⟩ := bind_eq_ok h
  obtain rfl := segment_fieldAt hs
  exact stoi_eq_ok h

lemma constructedOf_of_ok {a : Deg.TraceLine} (h : Deg.TraceLine.ofSegments f = .ok a) :
    ConstructedOf f a := by
  obtain ⟨s₄, h₄, h⟩ := bind_eq_ok h
  obtain ⟨s₅, h₅, h⟩ := bind_eq_ok h
  obtain ⟨t, ht, h⟩ := bind_eq_ok h
  obtain ⟨s₃, -, h⟩ := bind_eq_ok h
  obtain ⟨tick, htick, h⟩ := bind_eq_ok h
  obtain ⟨rob, hrob, h⟩ := bind_eq_ok h
  obtain ⟨lq, hlq, h⟩ := bind_eq_ok h
  obtain ⟨sq, hsq, h⟩ := bind_eq_ok h
  obtain ⟨iq, hiq, h⟩ := bind_eq_ok h
  obtain ⟨fu, hfu, h⟩ := bind_eq_ok h
  obtain ⟨s₃₂, h₃₂, h⟩ := bind_eq_ok h
  obtain ⟨src, hsrc, h⟩ := bind_eq_ok h
  obtain ⟨s₃₃, h₃₃, h⟩ := bind_eq_ok h
  obtain ⟨dst, hdst, h⟩ := bind_eq_ok h
  obtain ⟨stamps, hstamps, htick⟩ := bind_eq_ok htick
  have hall := forall₂_of_mapM_eq_ok hstamps
  cases htick
  cases h
  exact {
    inst := by rw [← segment_fieldAt h₄]; rfl
    instType := by rw [← segment_fieldAt h₅, setInstType_eq_ok ht]
    stamps := by
      rw [Deg.Tick.toList_ofStamps _ hall.length_eq.symm]
      exact hall.imp fun _ _ => stamp_eq_ok
    rob := setId_eq_ok hrob
    lq := setId_eq_ok hlq
    sq := setId_eq_ok hsq
    iq := setId_eq_ok hiq
    fu := setId_eq_ok hfu
    src := by rw [← segment_fieldAt h₃₂, hsrc]
    dst := by rw [← segment_fieldAt h₃₃, hdst] }

/-- The fields as the parser gets them: the last one with the end of the line. -/
structure Ended (f : List Text) (eol : Text) (g : List Text) : Prop where
  blank : ∀ c ∈ eol, isSpace c = true
  fieldAt_lt : ∀ idx < 33, fieldAt g idx = fieldAt f idx
  fieldAt_last : fieldAt g 33 = fieldAt f 33 ++ eol

lemma itemValue_fieldAt {g : List Text} {eol v : Text} {idx : ℕ} (hg : Ended f eol g)
    (hidx : idx ≤ 33) (h : Core.itemValue g idx = .ok v) : v = fieldValue (fieldAt f idx) := by
  obtain ⟨s, hs, hmem, rfl⟩ := itemValue_eq_ok h
  obtain rfl := fieldAt_eq hs
  rcases Nat.lt_or_eq_of_le hidx with hlt | rfl
  · rw [hg.fieldAt_lt idx hlt]
  · rw [hg.fieldAt_last] at hmem ⊢
    refine fieldValue_append ?_ hg.blank
    rcases List.mem_append.mp hmem with hmem | hmem
    · exact hmem
    · exact absurd (hg.blank _ hmem) (by decide)

lemma extractTick_eq_ok {g : List Text} {eol : Text} {idx : ℕ} {c : ℤ} (hg : Ended f eol g)
    (hidx : idx ≤ 33) (h : Core.extractTick g idx = .ok c) :
    ∃ t, read (fieldValue (fieldAt f idx)) = some t ∧ c = roundEven (toDouble (t / 1000)) := by
  obtain ⟨v, hv, h⟩ := bind_eq_ok h
  obtain ⟨t, ht, h⟩ := bind_eq_ok h
  rw [← itemValue_fieldAt hg hidx hv]
  exact ⟨t, int_eq_ok ht, tickToCycle_eq_ok h⟩

lemma parsedOf_of_ok {g : List Text} {eol : Text} (hg : Ended f eol g) {b : Core.TraceLine}
    (h : Core.TraceLine.ofItems g = .ok b) : ParsedOf f b := by
  obtain ⟨s₄, h₄, h⟩ := bind_eq_ok h
  obtain ⟨s₅, h₅, h⟩ := bind_eq_ok h
  obtain ⟨cycle, hcycle, h⟩ := bind_eq_ok h
  obtain ⟨rob, hrob, h⟩ := bind_eq_ok h
  obtain ⟨lq, hlq, h⟩ := bind_eq_ok h
  obtain ⟨sq, hsq, h⟩ := bind_eq_ok h
  obtain ⟨iq, hiq, h⟩ := bind_eq_ok h
  obtain ⟨fu, hfu, h⟩ := bind_eq_ok h
  obtain ⟨v₃₂, h₃₂, h⟩ := bind_eq_ok h
  obtain ⟨src, hsrc, h⟩ := bind_eq_ok h
  obtain ⟨v₃₃, h₃₃, h⟩ := bind_eq_ok h
  obtain ⟨dst, hdst, h⟩ := bind_eq_ok h
  obtain ⟨stamps, hstamps, hcycle⟩ := bind_eq_ok hcycle
  have hall := forall₂_of_mapM_eq_ok hstamps
  have hitem {idx : ℕ} {s : Text} (hidx : idx < 33) (hs : Core.item g idx = .ok s) :
      s = fieldAt f idx := by
    rw [← hg.fieldAt_lt idx hidx, fieldAt_eq (item_eq_ok hs)]
  cases hcycle
  cases h
  exact {
    inst := by rw [hitem (by decide) h₄]
    instType := by rw [hitem (by decide) h₅]
    stamps := by
      rw [Core.Cycle.toList_ofStamps _ hall.length_eq.symm]
      refine List.forall₂_iff_get.mpr ⟨hall.length_eq, fun k hk hk' => ?_⟩
      have hget := (List.forall₂_iff_get.mp hall).2 k hk hk'
      refine extractTick_eq_ok hg ?_ hget
      rw [List.length_range'] at hk
      simp
      omega
    rob := by rw [itemValue_fieldAt hg (by decide) hrob]
    lq := by rw [itemValue_fieldAt hg (by decide) hlq]
    sq := by rw [itemValue_fieldAt hg (by decide) hsq]
    iq := by rw [itemValue_fieldAt hg (by decide) hiq]
    fu := by rw [itemValue_fieldAt hg (by decide) hfu]
    src := by rw [← itemValue_fieldAt hg (by decide) h₃₂, hsrc]
    dst := by rw [← itemValue_fieldAt hg (by decide) h₃₃, hdst] }

/-! ### Agreement -/

/-- A line with these fields is read in the same way by both decoders. -/
structure Uniform (f : List Text) : Prop where
  mnemonic : Trimmed isUnicodeSpace (strip isSpace (fieldAt f 4))
  ticks : ∀ idx ∈ List.range' 7 20, SameCycle (fieldValue (fieldAt f idx))
  ids : ∀ idx ∈ List.range' 27 5, SameNumber (fieldValue (fieldAt f idx))
  src : SameRegisters (fieldAt f 32)
  dst : fieldValue (fieldAt f 33) = [] ∨ SameNumber (fieldValue (fieldAt f 33))

/-- The stamps agree if every tick is read as one cycle. -/
lemma stamps_eq_iff {idxs : List ℕ} {cs : List UInt64} {ds : List ℤ}
    (hc : List.Forall₂ (fun idx c => ∃ i, scan (after '=' (fieldAt f idx)) = some i ∧
      i.natAbs < 2 ^ 64 ∧ c = UInt64.ofInt i / Deg.cyclePerTick) idxs cs)
    (hd : List.Forall₂ (fun idx c => ∃ t, read (fieldValue (fieldAt f idx)) = some t ∧
      c = roundEven (toDouble (t / 1000))) idxs ds) :
    cs.map (fun c => (c.toNat : ℤ)) = ds ↔
      ∀ idx ∈ idxs, SameCycle (fieldValue (fieldAt f idx)) := by
  induction hc generalizing ds with
  | nil =>
    cases hd
    simp
  | @cons idx c idxs cs hcidx _ ih =>
    cases hd with
    | @cons _ d _ ds hdidx hd =>
      obtain ⟨i, hi, hlt, rfl⟩ := hcidx
      obtain ⟨t, ht, rfl⟩ := hdidx
      rw [List.map_cons, List.cons.injEq, List.forall_mem_cons, cycle_eq_iff hi hlt ht, ih hd]

/-- The operation classes always agree: no name has a blank at an end. -/
lemma instType_eq {a : Deg.TraceLine} (h : ConstructedOf f a) :
    a.instType.name = .ofList (strip isUnicodeSpace (fieldAt f 5)) := by
  have htrim : Trimmed isUnicodeSpace a.instType.name.toList := by
    cases a.instType <;> decide
  rw [← strip_strip (fun _ => isUnicodeSpace_of_isSpace), ← h.instType, htrim.strip_eq,
    String.ofList_toList]

lemma agree_iff_uniform {a : Deg.TraceLine} {b : Core.TraceLine} (ha : ConstructedOf f a)
    (hb : ParsedOf f b) : Agree a b ↔ Uniform f := by
  have hinst : a.inst = b.inst ↔ Trimmed isUnicodeSpace (strip isSpace (fieldAt f 4)) := by
    rw [ha.inst, hb.inst, String.ofList_inj]
    exact strip_eq_strip_iff (fun _ => isUnicodeSpace_of_isSpace) _
  have hstamps := stamps_eq_iff ha.stamps hb.stamps
  have hids : (∀ idx ∈ List.range' 27 5, SameNumber (fieldValue (fieldAt f idx))) ↔
      read b.rob.toList = some a.rob ∧ read b.lq.toList = some a.lq ∧
        read b.sq.toList = some a.sq ∧ read b.iq.toList = some a.iq ∧
        read b.fu.toList = some a.fu := by
    rw [hb.rob, hb.lq, hb.sq, hb.iq, hb.fu]
    simp only [String.toList_ofList, read_fieldValue_iff ha.rob, read_fieldValue_iff ha.lq,
      read_fieldValue_iff ha.sq, read_fieldValue_iff ha.iq, read_fieldValue_iff ha.fu]
    simp [List.range'_succ]
  have hsrc := src_eq_iff ha.src hb.src
  have hdst := dst_eq_iff ha.dst hb.dst
  constructor
  · intro h
    exact ⟨hinst.mp h.inst, hstamps.mp h.stamps, hids.mpr ⟨h.rob, h.lq, h.sq, h.iq, h.fu⟩,
      hsrc.mp h.src, hdst.mp h.dst⟩
  · intro h
    obtain ⟨hrob, hlq, hsq, hiq, hfu⟩ := hids.mp h.ids
    exact {
      inst := hinst.mpr h.mnemonic
      instType := by rw [instType_eq ha, hb.instType]
      stamps := hstamps.mpr h.ticks
      rob := hrob
      lq := hlq
      sq := hsq
      iq := hiq
      fu := hfu
      src := hsrc.mpr h.src
      dst := hdst.mpr h.dst }

/-- The end of a line becomes a part of its last field. -/
lemma ended_splitOn {line eol : Text} (heol : ∀ c ∈ eol, isSpace c = true)
    (hlen : (line.splitOn ':').length = 34) :
    Ended (line.splitOn ':') eol ((line ++ eol).splitOn ':') := by
  have hcolon : ':' ∉ eol := fun hmem => absurd (heol _ hmem) (by decide)
  obtain ⟨ss, u, v, ts, hss, hts, happ⟩ := splitOn_append ':' line eol
  rw [splitOn_of_notMem hcolon] at hts
  obtain ⟨rfl, rfl⟩ := List.cons.inj hts
  have hsslen : ss.length = 33 := by
    rw [hss, List.length_append, List.length_singleton] at hlen
    omega
  refine ⟨heol, fun idx hidx => ?_, ?_⟩
  · rw [fieldAt, fieldAt, List.getD_eq_getElem?_getD, List.getD_eq_getElem?_getD, happ, hss,
      List.getElem?_append_left (by omega), List.getElem?_append_left (by omega)]
  · have hlast (w : Text) : fieldAt (ss ++ [w]) 33 = w := by
      apply fieldAt_eq
      rw [List.getElem?_append_right (by omega), hsslen]
      rfl
    rw [happ, hss, hlast, hlast]

/-- The decoders agree on a line of 34 fields that both accept, where no two colons are adjacent,
exactly if its fields are read in the same way. -/
theorem agree_iff (line : Text) (seq : ℕ) {eol : Text} (heol : IsEol eol)
    (hfields : (line.splitOn ':').length = 34) (hcolons : ¬[':', ':'] <:+: line)
    {a : Deg.RiscvInstruction} {b : Core.RiscvInstruction}
    (ha : Deg.RiscvInstruction.ofLine line seq = .ok a)
    (hb : Core.RiscvInstruction.parse seq (line ++ eol) = .ok b) :
    Agree a.toTraceLine b.toTraceLine ↔ Uniform (line.splitOn ':') := by
  rw [Deg.RiscvInstruction.ofLine, splitCompress_eq_splitOn hcolons] at ha
  obtain ⟨a', ha', ha⟩ := bind_eq_ok ha
  obtain ⟨b', hb', hb⟩ := bind_eq_ok hb
  cases ha
  cases hb
  exact agree_iff_uniform (constructedOf_of_ok ha')
    (parsedOf_of_ok (ended_splitOn heol.blank hfields) hb')

/-! ### Printed lines -/

/-- A line of the trace format that both decoders read in the same way. -/
structure Line.Uniform (l : Line) : Prop where
  src : l.src.value.numerals ≠ []
  dst : l.dst.value.numerals.length ≤ 1
  ticks : ∀ t ∈ l.ticks, RoundsDown t.value.value
  mnemonic : Trimmed isUnicodeSpace (strip isSpace l.mnemonic)

lemma fieldValue_text {α : Type} [Written α] (k : Keyed α) :
    fieldValue (k.text []) = strip isUnicodeSpace (Written.text k.value) ∧
      beyond (k.text []) = [] := by
  have hpos : ∀ c ∈ Written.text k.value, decide (c ≠ '=') = true := fun c hc =>
    decide_eq_true fun heq => Written.text_equals k.value (heq ▸ hc)
  rw [fieldValue, beyond, k.after_text, List.append_nil, List.takeWhile_eq_self_iff.mpr hpos,
    List.dropWhile_eq_nil_iff.mpr hpos]
  exact ⟨rfl, rfl⟩

lemma fieldValue_numeral (k : Keyed Numeral) : fieldValue (k.text []) = k.value.body :=
  (fieldValue_text k).1.trans k.value.strip_unicode_text

lemma underscore_notMem (n : Numeral) : '_' ∉ n.text :=
  n.notMem_text (by decide) (by decide) (by decide) (by decide)

lemma underscore_notMem_body (n : Numeral) : '_' ∉ n.body := fun h =>
  underscore_notMem n (List.mem_append_left _ (List.mem_append_right _ h))

/-- A number without a minus sign. -/
lemma value_nonneg {n : Numeral} (h : n.sign ≠ some true) : 0 ≤ n.value := by
  have hsign : (n.sign == some true) = false := beq_eq_false_iff_ne.mpr h
  rw [Numeral.value, ofSigned, hsign]
  exact Int.natCast_nonneg _

lemma fieldAt_last (l : Line) (i : ℕ) {s : Text}
    (h : [l.rob.text [], l.lq.text [], l.sq.text [], l.iq.text [], l.fu.text [], l.src.text [],
      l.dst.text []][i]? = some s) : fieldAt (l.fields []) (27 + i) = s :=
  fieldAt_eq ((l.getElem?_last [] i).trans h)

/-- A line of the trace format has no other obstacles. -/
lemma Line.Uniform.fields {l : Line} (h : l.Uniform) : Trace.Uniform (l.fields []) where
  mnemonic := h.mnemonic
  ticks := by
    intro idx hidx
    obtain ⟨i, hi, rfl⟩ := List.mem_range'.mp hidx
    have hlen : i < l.ticks.length := by
      rw [l.ticks_length]
      exact hi
    have hfield : (l.fields [])[7 + 1 * i]? = some (l.ticks[i].text []) := by
      rw [Nat.one_mul, l.getElem?_tick [] hi, List.getElem?_eq_getElem hlen]
      rfl
    have hmem := List.getElem_mem hlen
    rw [fieldAt_eq hfield, fieldValue_numeral]
    refine ⟨_, Numeral.read_body _, ?_⟩
    rw [if_neg (underscore_notMem_body _)]
    exact ⟨value_nonneg (l.ticks_unsigned _ hmem), h.ticks _ hmem⟩
  ids := by
    have hid (k : Keyed Numeral) : SameNumber (fieldValue (k.text [])) := by
      rw [fieldValue_numeral]
      exact ⟨_, Numeral.read_body _, .inl (underscore_notMem_body _)⟩
    intro idx hidx
    simp only [List.range'_succ, List.range'_zero, List.mem_cons, List.not_mem_nil,
      or_false] at hidx
    rcases hidx with rfl | rfl | rfl | rfl | rfl
    · exact fieldAt_last l 0 rfl ▸ hid l.rob
    · exact fieldAt_last l 1 rfl ▸ hid l.lq
    · exact fieldAt_last l 2 rfl ▸ hid l.sq
    · exact fieldAt_last l 3 rfl ▸ hid l.iq
    · exact fieldAt_last l 4 rfl ▸ hid l.fu
  src := by
    obtain ⟨hvalue, hbeyond⟩ := fieldValue_text l.src
    have hstrip := strip_registers l.src.value nil_isSpace
    rw [List.append_nil] at hstrip
    have hlist : fieldValue (l.src.text []) =
        Numeral.list (Numeral.trimList l.src.value.numerals) := hvalue.trans hstrip
    rw [fieldAt_last l 5 rfl]
    refine ⟨?_, ?_, ?_⟩
    · rw [hlist]
      exact list_trimList_ne_nil h.src
    · rw [hlist, Numeral.splitOn_list (Numeral.trimList_ne_nil h.src)]
      intro q hq
      obtain ⟨n, -, rfl⟩ := List.mem_map.mp hq
      exact ⟨_, n.read_text, .inl (underscore_notMem n)⟩
    · rw [hbeyond]
      simp [strip]
  dst := by
    have hstrip := strip_registers l.dst.value nil_isSpace
    rw [List.append_nil] at hstrip
    have hlist : fieldValue (l.dst.text []) =
        Numeral.list (Numeral.trimList l.dst.value.numerals) :=
      (fieldValue_text l.dst).1.trans hstrip
    rw [fieldAt_last l 6 rfl, hlist]
    have hdst := h.dst
    rcases hd : l.dst.value.numerals with _ | ⟨n, ns⟩
    · exact .inl rfl
    · rw [hd, List.length_cons, Nat.succ_le_succ_iff, Nat.le_zero, List.length_eq_zero_iff] at hdst
      refine .inr ?_
      simp only [hdst, Numeral.trimList, Numeral.trimLast, Numeral.list, join, List.map_cons,
        List.map_nil, List.intercalate_singleton]
      exact ⟨_, Numeral.read_text _, .inl (underscore_notMem _)⟩

lemma length_splitOn_text (l : Line) : (l.text.splitOn ':').length = 34 := by
  rw [l.splitOn_text_nil]
  simp [Line.fields, Line.rest, l.ticks_length]

lemma colons_text (l : Line) : ¬[':', ':'] <:+: l.text := by
  intro h
  have hmem := nil_mem_tail_splitOn h
  rw [l.splitOn_text_nil] at hmem
  exact l.rest_ne_nil [] hmem rfl

/-- The line of an instruction that is printed without problems is accepted by both decoders. -/
lemma accepted (disassembly : String) (h : ':' ∉ disassembly.toList) (src dst : List UInt16)
    (hdst : dst.length ≤ 1) (seq : ℕ) : ∃ a b,
      Deg.RiscvInstruction.ofLine (line .exec _ (sample_printable h src dst)).text seq = .ok a ∧
      Core.RiscvInstruction.parse seq
        ((line .exec _ (sample_printable h src dst)).text ++ ['\n']) = .ok b ∧
      Constructed (line .exec _ (sample_printable h src dst)) a.toTraceLine ∧
      Parsed (line .exec _ (sample_printable h src dst)) b.toTraceLine := by
  obtain ⟨⟨a, ha, hspec⟩, hparse⟩ := decoded disassembly h src dst seq
  obtain ⟨b, hb, hspec'⟩ := hparse hdst
  have htext := logLine_eq_text rfl (sample_framed disassembly src dst) (sample_printable h src dst)
  rw [htext] at ha
  rw [dumpTimestamp_of_printed (sample_printed _ _ _), htext] at hb
  exact ⟨a, b, ha, hb, hspec, hspec'⟩

def addLine : Line :=
  line .exec (sample "add a0, a1, a2" [11, 12] [10]) (sample_printable (by decide) _ _)

lemma addLine_uniform : addLine.Uniform where
  src := List.cons_ne_nil _ _
  dst := le_refl 1
  ticks := by
    intro t ht
    obtain ⟨p, hp, rfl⟩ := List.mem_pmap.mp ht
    have hlt : p.2.toNat < 10000 := by
      have h : ∀ p ∈ sampleMeta.stamps, p.2.toNat < 10000 := by decide
      exact h p hp
    have hdvd : 1000 ∣ p.2.toNat := sample_aligned "add a0, a1, a2" [11, 12] [10] p hp
    have hvalue : (keyed p.1 (number [' '] blank_isSpace p.2.toNat)
        (stamps_keys sampleMeta p hp)).value.value = p.2.toNat := value_number _ _ _
    rw [hvalue, RoundsDown, if_pos (by omega)]
    exact .inl (by omega)
  mnemonic := by decide

theorem agree_add : ∃ a b, Deg.RiscvInstruction.ofLine addLine.text 1 = .ok a ∧
    Core.RiscvInstruction.parse 1 (addLine.text ++ ['\n']) = .ok b ∧
    Agree a.toTraceLine b.toTraceLine := by
  obtain ⟨a, b, ha, hb, -, -⟩ := accepted "add a0, a1, a2" (by decide) [11, 12] [10]
    (le_refl 1) 1
  refine ⟨a, b, ha, hb, (agree_iff addLine.text 1 (.inr rfl) (length_splitOn_text _)
    (colons_text _) ha hb).mpr ?_⟩
  rw [addLine.splitOn_text_nil]
  exact addLine_uniform.fields

def luiLine : Line :=
  line .exec (sample "lui a0, 16" [] [10]) (sample_printable (by decide) _ _)

/-- An instruction without source registers: the constructor records none of them, the parser
records a register `-1`. -/
theorem disagree_lui : ∃ a b, Deg.RiscvInstruction.ofLine luiLine.text 1 = .ok a ∧
    Core.RiscvInstruction.parse 1 (luiLine.text ++ ['\n']) = .ok b ∧
    luiLine.dst.value.numerals.length ≤ 1 ∧ a.src = [] ∧ b.src = [-1] ∧
    ¬Agree a.toTraceLine b.toTraceLine := by
  obtain ⟨a, b, ha, hb, hspec, hspec'⟩ := accepted "lui a0, 16" (by decide) [] [10]
    (le_refl 1) 1
  refine ⟨a, b, ha, hb, le_refl 1, hspec.src, hspec'.src, ?_⟩
  intro h
  have hsrc := h.src
  rw [hspec.src, hspec'.src] at hsrc
  cases hsrc

end ArchExplorer.Trace
