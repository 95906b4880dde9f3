import ArchExplorer.Lib.Regex
import ArchExplorer.Lib.Decimal
import ArchExplorer.Design.Space

/-!
# Power and area of a McPAT report

The four numbers of a report are found by regular expressions that accept a sign and an exponent,
but the value is read from the group of the mantissa. There are two versions: the simulator's one
exits when a number is missing, and the one of the dataset raises.
-/

namespace ArchExplorer.Simulation

open ArchExplorer.Lib ArchExplorer.Lib.Text ArchExplorer.Design

variable {s cnt : Text} {g : List (ℕ × Text)} {m : Match} {name unit : String}

/-! ### The patterns -/

/-- `[+-]?`. -/
def sign : Regex := .opt (.cls fun c => c == '+' || c == '-')

/-- `\d+(\.\d*)?|\.\d+`. The digits are the ASCII ones. -/
def point : Regex :=
  .alt (.seq (.plus Char.isDigit) (.opt (.group 2 (.seq (.cls (· == '.')) (.star Char.isDigit)))))
    (.seq (.cls (· == '.')) (.plus Char.isDigit))

/-- `([eE][+-]?\d+)?`. -/
def scale : Regex := .opt (.group 3 (.seq (.cls isExponent) (.seq sign (.plus Char.isDigit))))

/-- `[+-]?(\d+(\.\d*)?|\.\d+)([eE][+-]?\d+)?`. -/
def number : Regex := .seq sign (.seq (.group 1 point) scale)

/-- A name, a number and a unit. -/
def pattern (name unit : String) : Regex :=
  .seq (.text (name ++ " = ").toList) (.seq number (.text (" " ++ unit).toList))

def pSubthreshold : Regex := pattern "Subthreshold Leakage" "W"

def pGate : Regex := pattern "Gate Leakage" "W"

def pDynamic : Regex := pattern "Runtime Dynamic" "W"

def pArea : Regex := pattern "Area" "mm^2"

/-! ### The readers -/

/-- `float(p.findall(cnt)[1][0])`. -/
def second (p : Regex) (cnt : Text) : Except PyError ℚ := do
  let m ← listItem (p.findall cnt) 1
  return decimal (m.group 1)

/-- The numbers of a report: the power, which is a sum, and the area. -/
def readings (cnt : Text) : Except PyError (ℚ × ℚ) := do
  let subthreshold ← second pSubthreshold cnt
  let gate ← second pGate cnt
  let dynamic ← second pDynamic cnt
  let area ← second pArea cnt
  return (subthreshold + gate + dynamic, area)

/-- How a step of the simulation may end early: with an exception, or with `exit(1)` after a message
was printed. -/
inductive Stop where
  | raised (e : PyError)
  | typeError (msg : String)
  | exit (msg : String)
  deriving DecidableEq, Repr

/-- `error`. -/
def error {α : Type} (msg : String) : Except Stop α := .error (.exit ("[ERROR]: " ++ msg))

/-- `get_power_area` of the simulator, for the file `report` and its content if it exists. Without a
report the result is `None`. -/
def getPowerArea (report : String) : Option Text → Except Stop (Option (ℚ × ℚ))
  | none     => .ok none
  | some cnt =>
    match readings cnt with
    | .ok r    => .ok (some r)
    | .error _ => error ("McPAT report " ++ report ++ " is failed to generate.")

/-- `get_power_area` of the dataset generation. -/
def getPowerAreaOfDataset (cnt : Text) : Except PyError (ℚ × ℚ) := readings cnt

/-! ### Literals -/

/-- The literal that a match of the pattern contains. -/
def literal (name unit : String) (m : Match) : Text :=
  (m.consumed.drop (name ++ " = ").toList.length).take
    (m.consumed.length - (name ++ " = ").toList.length - (" " ++ unit).toList.length)

/-- A sign, a mantissa and an exponent. -/
structure Parts (s sign mantissa scale : Text) : Prop where
  eq : s = sign ++ mantissa ++ scale
  sign_eq : sign = [] ∨ sign = ['+'] ∨ sign = ['-']
  mantissa_ne : mantissa ≠ []
  mantissa_char : ∀ c ∈ mantissa, c.isDigit = true ∨ c = '.'
  scale_eq : scale = [] ∨ ∃ c t, scale = c :: t ∧ isExponent c = true

lemma matches_sign (h : Regex.Matches sign s g) :
    (s = [] ∨ s = ['+'] ∨ s = ['-']) ∧ g = [] := by
  cases h with
  | none => exact ⟨.inl rfl, rfl⟩
  | some h =>
    cases h with
    | cls hc =>
      simp only [Bool.or_eq_true, beq_iff_eq] at hc
      rcases hc with rfl | rfl
      · exact ⟨.inr (.inl rfl), rfl⟩
      · exact ⟨.inr (.inr rfl), rfl⟩

/-- The mantissa consists of digits and points, and its own group comes before group 1. -/
lemma matches_point (h : Regex.Matches point s g) :
    s ≠ [] ∧ (∀ c ∈ s, c.isDigit = true ∨ c = '.') ∧ ∀ p ∈ g, p.1 = 2 := by
  cases h with
  | left h =>
    cases h with
    | seq hd hf =>
      obtain ⟨hne, hall, rfl⟩ := Regex.matches_plus_iff.mp hd
      cases hf with
      | none =>
        rw [List.append_nil]
        exact ⟨hne, fun c hc => .inl (hall c hc), by simp⟩
      | some hf =>
        cases hf with
        | group hf =>
          cases hf with
          | seq hdot hstar =>
            cases hdot with
            | cls hdot =>
              cases hstar with
              | star hfrac =>
                refine ⟨by simp [hne], fun c hc => ?_, by simp⟩
                rcases List.mem_append.mp hc with hc | hc
                · exact .inl (hall c hc)
                · rcases List.mem_cons.mp hc with rfl | hc
                  · exact .inr (by simpa using hdot)
                  · exact .inl (hfrac c hc)
  | right h =>
    cases h with
    | seq hdot hd =>
      cases hdot with
      | cls hdot =>
        obtain ⟨hne, hall, rfl⟩ := Regex.matches_plus_iff.mp hd
        refine ⟨by simp, fun c hc => ?_, by simp⟩
        rcases List.mem_cons.mp hc with rfl | hc
        · exact .inr (by simpa using hdot)
        · exact .inl (hall c hc)

lemma matches_scale (h : Regex.Matches scale s g) :
    (s = [] ∨ ∃ c t, s = c :: t ∧ isExponent c = true) ∧ ∀ p ∈ g, p.1 = 3 := by
  cases h with
  | none => exact ⟨.inl rfl, by simp⟩
  | some h =>
    cases h with
    | group h =>
      cases h with
      | seq he hrest =>
        cases he with
        | cls hc =>
          cases hrest with
          | seq hsign hdigits =>
            obtain ⟨-, rfl⟩ := matches_sign hsign
            obtain ⟨-, -, rfl⟩ := Regex.matches_plus_iff.mp hdigits
            exact ⟨.inr ⟨_, _, rfl, hc⟩, by simp⟩

/-- Group 1 of a number is its mantissa. -/
lemma matches_number (h : Regex.Matches number s g) :
    ∃ sg mant sc, Parts s sg mant sc ∧ g.reverse.lookup 1 = some mant := by
  cases h with
  | seq hsign h =>
    cases h with
    | seq hpoint hscale =>
      cases hpoint with
      | group hpoint =>
        obtain ⟨hsg, rfl⟩ := matches_sign hsign
        obtain ⟨hne, hchar, -⟩ := matches_point hpoint
        obtain ⟨hsc, hthree⟩ := matches_scale hscale
        refine ⟨_, _, _, ⟨(List.append_assoc _ _ _).symm, hsg, hne, hchar, hsc⟩, ?_⟩
        -- the groups that come later have another number
        have hnone {later : List (ℕ × Text)} (h : ∀ p ∈ later, p.1 = 3) :
            later.reverse.lookup 1 = none := by
          rw [List.lookup_eq_none_iff]
          intro p hp
          rw [h p (List.mem_reverse.mp hp)]
          decide
        simp [List.lookup_append, hnone hthree]

/-! ### Values -/

lemma not_isExponent {c : Char} (h : c.isDigit = true ∨ c = '.') : isExponent c = false := by
  rcases h with h | rfl
  · rw [isExponent, Bool.or_eq_false_iff, beq_eq_false_iff_ne, beq_eq_false_iff_ne]
    constructor
    · rintro rfl
      exact absurd h (by decide)
    · rintro rfl
      exact absurd h (by decide)
  · decide

/-- A text that starts with a digit or a point has no sign. -/
lemma signed_eq_self {c : Char} {t : Text} (h : c.isDigit = true ∨ c = '.') :
    signed (c :: t) = (false, c :: t) := by
  unfold signed
  split
  · next heq =>
    obtain ⟨rfl, -⟩ := List.cons.inj heq
    rcases h with h | h
    · exact absurd h (by decide)
    · exact absurd h (by decide)
  · next heq =>
    obtain ⟨rfl, -⟩ := List.cons.inj heq
    rcases h with h | h
    · exact absurd h (by decide)
    · exact absurd h (by decide)
  · rfl

namespace Parts

variable {sg mant sc : Text}

/-- The sign is taken off. -/
lemma signed_snd (h : Parts s sg mant sc) : (signed s).2 = mant ++ sc := by
  obtain ⟨c, t, rfl⟩ := List.exists_cons_of_ne_nil h.mantissa_ne
  have hc := h.mantissa_char c List.mem_cons_self
  rw [h.eq]
  rcases h.sign_eq with rfl | rfl | rfl
  · rw [List.nil_append, List.cons_append, signed_eq_self hc]
  · rfl
  · rfl

lemma takeWhile_eq (h : Parts s sg mant sc) :
    (mant ++ sc).takeWhile (fun c => !isExponent c) = mant := by
  have hmant : ∀ c ∈ mant, (!isExponent c) = true := fun c hc => by
    rw [not_isExponent (h.mantissa_char c hc)]
    rfl
  rw [List.takeWhile_append_of_pos hmant]
  rcases h.scale_eq with rfl | ⟨c, t, rfl, hc⟩
  · simp
  · simp [hc]

/-- The mantissa of the literal is the mantissa as it stands. -/
lemma mantissa_eq (h : Parts s sg mant sc) : mantissa s = ofPoint mant := by
  rw [mantissa, h.signed_snd, h.takeWhile_eq]

/-- Read on its own, the mantissa is the value. -/
lemma decimal_mantissa (h : Parts s sg mant sc) : decimal mant = mantissa s := by
  have halone : Parts mant [] mant [] :=
    ⟨by simp, .inl rfl, h.mantissa_ne, h.mantissa_char, .inl rfl⟩
  obtain ⟨c, t, hct⟩ := List.exists_cons_of_ne_nil h.mantissa_ne
  have hneg : negative mant = false := by
    rw [negative, hct, signed_eq_self (h.mantissa_char c (hct ▸ List.mem_cons_self))]
  have hnil : mant.dropWhile (fun c => !isExponent c) = [] := by
    rw [List.dropWhile_eq_nil_iff]
    intro c hc
    rw [not_isExponent (h.mantissa_char c hc)]
    rfl
  have hexp : exponent mant = 0 := by
    rw [exponent, hnil]
    rfl
  rw [decimal, hneg, hexp, halone.mantissa_eq, h.mantissa_eq]
  simp

end Parts

/-- The value that is read from a match is the mantissa of its literal. -/
lemma decimal_group (h : m ∈ (pattern name unit).findall cnt) :
    decimal (m.group 1) = mantissa (literal name unit m) := by
  have hm := Regex.findall_sound h
  rw [literal, Match.group]
  generalize m.consumed = consumed at hm ⊢
  generalize m.groups = groups at hm ⊢
  cases hm with
  | @seq _ _ pre _ _ _ hpre hm =>
    cases hm with
    | @seq _ _ num suf _ _ hnum hsuf =>
      obtain ⟨rfl, rfl⟩ := Regex.matches_text_iff.mp hpre
      obtain ⟨rfl, rfl⟩ := Regex.matches_text_iff.mp hsuf
      obtain ⟨sg, mant, sc, hparts, hlookup⟩ := matches_number hnum
      rw [List.nil_append, List.append_nil, hlookup, List.drop_left, Option.getD_some,
        hparts.decimal_mantissa]
      congr 1
      have hlen : ((name ++ " = ").toList ++ (num ++ (" " ++ unit).toList)).length -
          (name ++ " = ").toList.length - (" " ++ unit).toList.length = num.length := by
        simp only [List.length_append]
        omega
      rw [hlen, List.take_left]

/-- The second match of a pattern. -/
lemma second_eq (h : ((pattern name unit).findall cnt)[1]? = some m) :
    second (pattern name unit) cnt = .ok (mantissa (literal name unit m)) := by
  rw [second, listItem, h, ← decimal_group (List.mem_of_getElem? h)]
  rfl

/-- The four numbers of a report: the literals of the second matches. -/
structure Reported (cnt : Text) (subthreshold gate dynamic area : Text) : Prop where
  subthreshold_eq : ∃ m, (pSubthreshold.findall cnt)[1]? = some m ∧
    literal "Subthreshold Leakage" "W" m = subthreshold
  gate_eq : ∃ m, (pGate.findall cnt)[1]? = some m ∧ literal "Gate Leakage" "W" m = gate
  dynamic_eq : ∃ m, (pDynamic.findall cnt)[1]? = some m ∧
    literal "Runtime Dynamic" "W" m = dynamic
  area_eq : ∃ m, (pArea.findall cnt)[1]? = some m ∧ literal "Area" "mm^2" m = area

/-- Only the mantissas are read. -/
lemma Reported.readings_eq {subthreshold gate dynamic area : Text}
    (h : Reported cnt subthreshold gate dynamic area) :
    readings cnt =
      .ok (mantissa subthreshold + mantissa gate + mantissa dynamic, mantissa area) := by
  obtain ⟨⟨m₁, h₁, rfl⟩, ⟨m₂, h₂, rfl⟩, ⟨m₃, h₃, rfl⟩, m₄, h₄, rfl⟩ := h
  have hs : second pSubthreshold cnt = _ := second_eq h₁
  have hg : second pGate cnt = _ := second_eq h₂
  have hd : second pDynamic cnt = _ := second_eq h₃
  have ha : second pArea cnt = _ := second_eq h₄
  simp only [readings, hs, hg, hd, ha, ok_bind]
  rfl

lemma getPowerArea_eq_ok_some_iff {report : String} {r : ℚ × ℚ} :
    getPowerArea report (some cnt) = .ok (some r) ↔ readings cnt = .ok r := by
  rw [getPowerArea]
  cases readings cnt <;> simp [error]

/-- On every report with the four numbers both readers return the sum of the values of the first
three and the value of the area exactly if what is lost of the first three, value less mantissa,
adds up to zero, and the area is a plain literal. Nothing is lost of a literal exactly if it is
plain. -/
theorem getPowerArea_exact_iff (report : String) (cnt subthreshold gate dynamic area : Text)
    (h : Reported cnt subthreshold gate dynamic area) :
    (getPowerArea report (some cnt) =
        .ok (some (decimal subthreshold + decimal gate + decimal dynamic, decimal area)) ↔
      lost subthreshold + lost gate + lost dynamic = 0 ∧ Plain area) ∧
    (getPowerAreaOfDataset cnt =
        .ok (decimal subthreshold + decimal gate + decimal dynamic, decimal area) ↔
      lost subthreshold + lost gate + lost dynamic = 0 ∧ Plain area) ∧
    ∀ number, lost number = 0 ↔ Plain number := by
  have hread := h.readings_eq
  have hpower : mantissa subthreshold + mantissa gate + mantissa dynamic =
      decimal subthreshold + decimal gate + decimal dynamic ↔
        lost subthreshold + lost gate + lost dynamic = 0 := by
    unfold lost
    constructor <;> intro h <;> linarith
  have harea : mantissa area = decimal area ↔ Plain area := by
    rw [← lost_eq_zero_iff, lost, sub_eq_zero, eq_comm]
  have hexact : readings cnt =
        .ok (decimal subthreshold + decimal gate + decimal dynamic, decimal area) ↔
      lost subthreshold + lost gate + lost dynamic = 0 ∧ Plain area := by
    rw [hread, Except.ok.injEq, Prod.mk.injEq, hpower, harea]
  exact ⟨getPowerArea_eq_ok_some_iff.trans hexact, hexact, fun number => lost_eq_zero_iff⟩

/-! ### Two reports -/

/-- The numbers of one component. -/
def component (subthreshold gate dynamic area : String) : Text :=
  ("Area = " ++ area ++ " mm^2\nSubthreshold Leakage = " ++ subthreshold ++ " W\nGate Leakage = " ++
    gate ++ " W\nRuntime Dynamic = " ++ dynamic ++ " W\n").toList

/-- A report whose second leakage is written with the given number. -/
def leakageReport (subthreshold : String) : Text :=
  component "9" "9" "9" "9" ++ component subthreshold ".5" "1." "4.25"

lemma reported_leakage :
    (Reported (leakageReport "0.25") "0.25".toList ".5".toList "1.".toList "4.25".toList) ∧
      Reported (leakageReport "25e-2") "25e-2".toList ".5".toList "1.".toList "4.25".toList := by
  have hfind : ∀ leakage ∈ ["0.25", "25e-2"],
      ((pSubthreshold.findall (leakageReport leakage))[1]?.map (literal "Subthreshold Leakage" "W"),
        (pGate.findall (leakageReport leakage))[1]?.map (literal "Gate Leakage" "W"),
        (pDynamic.findall (leakageReport leakage))[1]?.map (literal "Runtime Dynamic" "W"),
        (pArea.findall (leakageReport leakage))[1]?.map (literal "Area" "mm^2")) =
      (some leakage.toList, some ".5".toList, some "1.".toList, some "4.25".toList) := by
    decide +kernel
  have hreported (leakage : String) (h : leakage ∈ ["0.25", "25e-2"]) :
      Reported (leakageReport leakage) leakage.toList ".5".toList "1.".toList "4.25".toList := by
    obtain ⟨h₁, h₂, h₃, h₄⟩ := by simpa only [Prod.mk.injEq] using hfind leakage h
    exact ⟨Option.map_eq_some_iff.mp h₁, Option.map_eq_some_iff.mp h₂,
      Option.map_eq_some_iff.mp h₃, Option.map_eq_some_iff.mp h₄⟩
  exact ⟨hreported _ (by simp), hreported _ (by simp)⟩

lemma values_leakage :
    (mantissa "25e-2".toList = 25 ∧ mantissa ".5".toList = 1 / 2 ∧ mantissa "1.".toList = 1 ∧
      mantissa "4.25".toList = 17 / 4) ∧
    (decimal "25e-2".toList = 1 / 4 ∧ decimal ".5".toList = 1 / 2 ∧ decimal "1.".toList = 1) ∧
    Plain "0.25".toList ∧ Plain ".5".toList ∧ Plain "1.".toList ∧ Plain "4.25".toList := by
  decide +kernel

/-- A report without exponents is read exactly. -/
theorem getPowerArea_exact_iff_plain :
    Reported (leakageReport "0.25") "0.25".toList ".5".toList "1.".toList "4.25".toList ∧
      getPowerArea "report" (some (leakageReport "0.25")) =
        .ok (some (decimal "0.25".toList + decimal ".5".toList + decimal "1.".toList,
          decimal "4.25".toList)) := by
  obtain ⟨-, -, h₁, h₂, h₃, h₄⟩ := values_leakage
  have hreported := reported_leakage.1
  refine ⟨hreported, ((getPowerArea_exact_iff _ _ _ _ _ _ hreported).1).mpr ⟨?_, h₄⟩⟩
  rw [lost_eq_zero_iff.mpr h₁, lost_eq_zero_iff.mpr h₂, lost_eq_zero_iff.mpr h₃]
  norm_num

/-- The same leakage, written with an exponent, is read as a hundred times as much: the power is
26.5 W instead of 1.75 W. -/
theorem getPowerArea_exponent :
    Reported (leakageReport "25e-2") "25e-2".toList ".5".toList "1.".toList "4.25".toList ∧
      decimal "25e-2".toList + decimal ".5".toList + decimal "1.".toList = 7 / 4 ∧
      getPowerArea "report" (some (leakageReport "25e-2")) = .ok (some (53 / 2, 17 / 4)) ∧
      getPowerAreaOfDataset (leakageReport "25e-2") = .ok (53 / 2, 17 / 4) := by
  obtain ⟨⟨m₁, m₂, m₃, m₄⟩, ⟨d₁, d₂, d₃⟩, -⟩ := values_leakage
  have hreported := reported_leakage.2
  have hsum : (25 : ℚ) + 1 / 2 + 1 = 53 / 2 := by norm_num
  have hread := hreported.readings_eq
  rw [m₁, m₂, m₃, m₄, hsum] at hread
  refine ⟨hreported, ?_, getPowerArea_eq_ok_some_iff.mpr hread, hread⟩
  rw [d₁, d₂, d₃]
  norm_num

end ArchExplorer.Simulation
