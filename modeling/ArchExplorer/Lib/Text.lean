import Mathlib.Data.Int.Notation
import Mathlib.Data.List.DropRight
import Mathlib.Tactic.Common

/-!
# Texts and the numbers in them

A text is a list of characters. The module has the cutting operations of the usual string
libraries, the two ways of reading a decimal number (as far as digits go, or the whole text), and
numerals, for which both ways agree.
-/

namespace ArchExplorer.Lib

/-- A text. -/
abbrev Text := List Char

namespace Text

/-! ### Blanks -/

/-- The blanks of the C locale: space, tab, line feed, vertical tab, form feed, return. -/
def isSpace (c : Char) : Bool := c == ' ' || (9 ≤ c.toNat && c.toNat ≤ 13)

/-- The blanks of a Unicode text. -/
def isUnicodeSpace (c : Char) : Bool :=
  isSpace c || (0x1c ≤ c.toNat && c.toNat ≤ 0x1f) || c.toNat == 0x85 || c.toNat == 0xa0 ||
    c.toNat == 0x1680 || (0x2000 ≤ c.toNat && c.toNat ≤ 0x200a) || c.toNat == 0x2028 ||
    c.toNat == 0x2029 || c.toNat == 0x202f || c.toNat == 0x205f || c.toNat == 0x3000

/-- Remove the blanks on both sides. -/
def strip (blank : Char → Bool) (s : Text) : Text := (s.rdropWhile blank).dropWhile blank

variable {blank : Char → Bool} {s : Text}

lemma isUnicodeSpace_of_isSpace {c : Char} (h : isSpace c = true) : isUnicodeSpace c = true := by
  simp only [isUnicodeSpace, h, Bool.true_or]

/-- A digit is no blank. -/
lemma isUnicodeSpace_eq_false_of_isDigit {c : Char} (h : c.isDigit = true) :
    isUnicodeSpace c = false := by
  simp only [Char.isDigit, Bool.and_eq_true, decide_eq_true_eq, ge_iff_le, UInt32.le_iff_toNat_le]
    at h
  have hlow : 48 ≤ c.toNat := h.1
  have hhigh : c.toNat ≤ 57 := h.2
  have hspace : (c == ' ') = false := by
    rw [beq_eq_false_iff_ne]
    rintro rfl
    exact absurd hlow (by decide)
  simp only [isUnicodeSpace, isSpace, hspace, Bool.false_or, Bool.or_eq_false_iff,
    Bool.and_eq_false_iff, decide_eq_false_iff_not, beq_eq_false_iff_ne]
  omega

lemma isDigit_eq_false_of_isSpace {c : Char} (h : isSpace c = true) : c.isDigit = false := by
  by_contra hdigit
  have hblank := isUnicodeSpace_of_isSpace h
  rw [isUnicodeSpace_eq_false_of_isDigit (by simpa using hdigit)] at hblank
  cases hblank

lemma rdropWhile_append_of_pos {t : Text} (h : ∀ c ∈ t, blank c = true) :
    (s ++ t).rdropWhile blank = s.rdropWhile blank := by
  rw [List.rdropWhile, List.reverse_append, List.dropWhile_append_of_pos, List.rdropWhile]
  intro c hc
  exact h c (List.mem_reverse.mp hc)

/-- A text that neither starts nor ends with a blank. -/
structure Trimmed (blank : Char → Bool) (s : Text) : Prop where
  head : ∀ c ∈ s.head?, blank c = false
  last : ∀ c ∈ s.getLast?, blank c = false

lemma trimmed_iff : Trimmed blank s ↔
    (s.head?.all fun c => !blank c) = true ∧ (s.getLast?.all fun c => !blank c) = true := by
  have hall : ∀ o : Option Char, (o.all fun c => !blank c) = true ↔ ∀ c ∈ o, blank c = false := by
    intro o
    cases o <;> simp
  rw [hall, hall]
  exact ⟨fun h => ⟨h.head, h.last⟩, fun h => ⟨h.1, h.2⟩⟩

instance : Decidable (Trimmed blank s) := decidable_of_iff _ trimmed_iff.symm

/-- A text that is trimmed for more blanks is trimmed for fewer. -/
lemma Trimmed.mono {blank' : Char → Bool} (h : Trimmed blank' s)
    (hblank : ∀ c, blank c = true → blank' c = true) : Trimmed blank s := by
  have hfalse : ∀ c, blank' c = false → blank c = false := by
    intro c hc
    rw [← Bool.not_eq_true] at hc ⊢
    exact fun hb => hc (hblank c hb)
  exact ⟨fun c hc => hfalse c (h.head c hc), fun c hc => hfalse c (h.last c hc)⟩

lemma dropWhile_eq_self (h : ∀ c ∈ s.head?, blank c = false) : s.dropWhile blank = s := by
  cases s with
  | nil => rfl
  | cons c s => rw [List.dropWhile_cons_of_neg (by simp [h c rfl])]

lemma Trimmed.strip_eq (h : Trimmed blank s) : strip blank s = s := by
  have hlast : s.rdropWhile blank = s := by
    rw [List.rdropWhile, dropWhile_eq_self, List.reverse_reverse]
    intro c hc
    exact h.last c (by rwa [List.head?_reverse] at hc)
  rw [strip, hlast, dropWhile_eq_self h.head]

/-- What is left after stripping is trimmed. -/
lemma trimmed_strip (blank : Char → Bool) (s : Text) : Trimmed blank (strip blank s) where
  head := by
    intro c hc
    have h := List.head?_dropWhile_not blank (s.rdropWhile blank)
    rw [strip] at hc
    rw [Option.mem_def.mp hc] at h
    simpa using h
  last := by
    intro c hc
    have hsuffix : strip blank s <:+ s.rdropWhile blank := List.dropWhile_suffix blank
    obtain ⟨t, ht⟩ := hsuffix
    have hne : strip blank s ≠ [] := by
      intro hnil
      rw [hnil] at hc
      cases hc
    have hlast : (s.rdropWhile blank).getLast? = some c := by
      rw [← ht, List.getLast?_append_of_ne_nil _ hne]
      exact hc
    rw [List.rdropWhile, List.getLast?_reverse] at hlast
    have h := List.head?_dropWhile_not blank s.reverse
    rw [hlast] at h
    simpa using h

/-- Stripping ignores blanks around the text. -/
lemma strip_append_append {a b : Text} (ha : ∀ c ∈ a, blank c = true)
    (hb : ∀ c ∈ b, blank c = true) (hs : Trimmed blank s) (hne : s ≠ []) :
    strip blank (a ++ s ++ b) = s := by
  have hs' : (a ++ s).rdropWhile blank = a ++ s := by
    rw [List.rdropWhile, dropWhile_eq_self, List.reverse_reverse]
    intro c hc
    rw [List.head?_reverse, List.getLast?_append_of_ne_nil _ hne] at hc
    exact hs.last c hc
  rw [strip, rdropWhile_append_of_pos hb, hs', List.dropWhile_append_of_pos ha,
    dropWhile_eq_self hs.head]

lemma strip_eq_nil {a : Text} (ha : ∀ c ∈ a, blank c = true) : strip blank a = [] := by
  rw [strip, List.rdropWhile_eq_nil_iff.mpr ha, List.dropWhile_nil]

/-- A text is what is left after stripping with blanks around it. -/
lemma exists_strip (blank : Char → Bool) (s : Text) :
    ∃ a b : Text, (∀ c ∈ a, blank c = true) ∧ (∀ c ∈ b, blank c = true) ∧
      s = a ++ strip blank s ++ b := by
  refine ⟨(s.rdropWhile blank).takeWhile blank, s.rtakeWhile blank, ?_, ?_, ?_⟩
  · exact fun c hc => List.mem_takeWhile_imp hc
  · exact fun c hc => List.mem_rtakeWhile_imp hc
  · rw [strip, List.takeWhile_append_dropWhile, List.rdropWhile_append_rtakeWhile]

/-- Stripping fewer blanks first changes nothing. -/
lemma strip_strip {blank' : Char → Bool} (h : ∀ c, blank c = true → blank' c = true) (s : Text) :
    strip blank' (strip blank s) = strip blank' s := by
  obtain ⟨a, b, ha, hb, hs⟩ := exists_strip blank s
  obtain ⟨a', b', ha', hb', hs'⟩ := exists_strip blank' (strip blank s)
  by_cases hne : strip blank' (strip blank s) = []
  · have hall : ∀ c ∈ s, blank' c = true := by
      rw [hne, List.append_nil] at hs'
      intro c hc
      rw [hs, hs'] at hc
      simp only [List.mem_append] at hc
      rcases hc with (hc | hc | hc) | hc
      exacts [h c (ha c hc), ha' c hc, hb' c hc, h c (hb c hc)]
    rw [hne, strip_eq_nil hall]
  · have hsplit : s = (a ++ a') ++ strip blank' (strip blank s) ++ (b' ++ b) := by
      conv_lhs => rw [hs, hs']
      simp only [List.append_assoc]
    conv_rhs => rw [hsplit]
    rw [strip_append_append _ _ (trimmed_strip blank' _) hne]
    · intro c hc
      rcases List.mem_append.mp hc with hc | hc
      exacts [h c (ha c hc), ha' c hc]
    · intro c hc
      rcases List.mem_append.mp hc with hc | hc
      exacts [hb' c hc, h c (hb c hc)]

/-- Two ways of stripping agree if one leaves nothing for the other. -/
lemma strip_eq_strip_iff {blank' : Char → Bool} (h : ∀ c, blank c = true → blank' c = true)
    (s : Text) : strip blank s = strip blank' s ↔ Trimmed blank' (strip blank s) := by
  constructor
  · intro heq
    rw [heq]
    exact trimmed_strip blank' s
  · intro ht
    rw [← strip_strip h s, ht.strip_eq]

/-! ### Cutting -/

/-- Of the segments between separators, the inner ones that are not empty. Adjacent separators
count as one. -/
def compressInner : List Text → List Text
  | []          => []
  | [s]         => [s]
  | [] :: ss    => compressInner ss
  | s :: t :: ss => s :: compressInner (t :: ss)

/-- Cut at every separator, where adjacent separators count as one. -/
def splitCompress (sep : Char) (s : Text) : List Text :=
  match s.splitOn sep with
  | []      => []
  | t :: ts => t :: compressInner ts

/-- What follows the first `c`, the whole text if there is none. -/
def after (c : Char) (s : Text) : Text := if c ∈ s then (s.dropWhile (· ≠ c)).tail else s

/-- The texts `ss` with `sep` between them. -/
def join (sep : Char) (ss : List Text) : Text := [sep].intercalate ss

lemma compressInner_eq_self {ss : List Text} (h : ∀ t ∈ ss.dropLast, t ≠ []) :
    compressInner ss = ss := by
  induction ss with
  | nil => rfl
  | cons t ts ih =>
    match t, ts, h with
    | _, [], _ => rfl
    | [], u :: us, h => exact absurd rfl (h [] List.mem_cons_self)
    | c :: t, u :: us, h =>
      rw [compressInner, ih fun v hv => h v (List.mem_cons_of_mem _ hv)]
      exact List.cons_ne_nil c t

lemma splitOn_join {sep : Char} {ss : List Text} (hne : ss ≠ []) (h : ∀ t ∈ ss, sep ∉ t) :
    (join sep ss).splitOn sep = ss := List.splitOn_intercalate sep h hne

/-- A joined text is cut into its parts, if only the first one may be empty. -/
lemma splitCompress_join {sep : Char} {t : Text} {ts : List Text} (h : ∀ u ∈ t :: ts, sep ∉ u)
    (hne : ∀ u ∈ ts, u ≠ []) : splitCompress sep (join sep (t :: ts)) = t :: ts := by
  rw [splitCompress, splitOn_join (List.cons_ne_nil t ts) h]
  exact congrArg (t :: ·) (compressInner_eq_self fun u hu => hne u (List.dropLast_subset ts hu))

lemma join_cons_cons (sep : Char) (s t : Text) (ts : List Text) :
    join sep (s :: t :: ts) = s ++ sep :: join sep (t :: ts) := by
  rw [join, List.intercalate_cons_cons, List.append_assoc]
  rfl

lemma join_eq_flatten (sep : Char) (s : Text) (ss : List Text) :
    join sep (s :: ss) = s ++ (ss.map (sep :: ·)).flatten := by
  induction ss generalizing s with
  | nil => simp [join]
  | cons t ts ih => rw [join_cons_cons, ih, List.map_cons, List.flatten_cons, List.cons_append]

/-- Where two texts meet, the last part of one and the first part of the other become one. -/
lemma join_append (sep : Char) (ss : List Text) (s t : Text) (ts : List Text) :
    join sep (ss ++ [s]) ++ join sep (t :: ts) = join sep (ss ++ (s ++ t) :: ts) := by
  induction ss with
  | nil =>
    have hjoin : join sep [s] = s := by simp [join]
    rw [List.nil_append, List.nil_append, hjoin, join_eq_flatten, join_eq_flatten,
      List.append_assoc]
  | cons u ss ih =>
    obtain ⟨v, vs, hv⟩ := List.exists_cons_of_ne_nil (List.append_ne_nil_of_right_ne_nil ss
      (List.cons_ne_nil s []))
    obtain ⟨w, ws, hw⟩ := List.exists_cons_of_ne_nil (List.append_ne_nil_of_right_ne_nil ss
      (List.cons_ne_nil (s ++ t) ts))
    rw [List.cons_append, List.cons_append, hv, hw, join_cons_cons, join_cons_cons, ← hv, ← hw,
      ← ih, List.append_assoc, List.cons_append]

lemma splitOn_cons (sep c : Char) (s : Text) : (c :: s).splitOn sep =
    if c = sep then [] :: s.splitOn sep else (s.splitOn sep).modifyHead (c :: ·) := by
  rw [List.splitOn, List.splitOnP_cons_eq_if_modifyHead, ← List.splitOn]
  simp only [beq_iff_eq]

lemma splitOn_ne_nil (sep : Char) (s : Text) : s.splitOn sep ≠ [] := List.splitOnP_ne_nil _ s

lemma join_splitOn (sep : Char) (s : Text) : join sep (s.splitOn sep) = s :=
  List.intercalate_splitOn sep

lemma splitOn_of_notMem {sep : Char} {s : Text} (h : sep ∉ s) : s.splitOn sep = [s] := by
  refine List.splitOnP_eq_singleton fun c hc => ?_
  rw [beq_eq_false_iff_ne]
  rintro rfl
  exact h hc

/-- The first part ends at the first separator. -/
lemma splitOn_append_sep {sep : Char} {k : Text} (hk : sep ∉ k) (v : Text) :
    (k ++ sep :: v).splitOn sep = k :: v.splitOn sep := by
  have h : (k ++ sep :: v).splitOn sep = k.splitOn sep ++ v.splitOn sep :=
    List.splitOnP_append_cons k v (beq_self_eq_true sep)
  rw [h, splitOn_of_notMem hk, List.singleton_append]

lemma notMem_of_mem_splitOn {sep : Char} {s t : Text} (h : t ∈ s.splitOn sep) : sep ∉ t := by
  induction s generalizing t with
  | nil =>
    obtain rfl := List.mem_singleton.mp h
    exact List.not_mem_nil
  | cons c s ih =>
    rw [splitOn_cons] at h
    split_ifs at h with hc
    · rcases List.mem_cons.mp h with rfl | h
      exacts [List.not_mem_nil, ih h]
    · obtain ⟨u, us, hu⟩ := List.exists_cons_of_ne_nil (splitOn_ne_nil sep s)
      rw [hu] at h ih
      rcases List.mem_cons.mp h with rfl | h
      · rw [List.mem_cons, not_or]
        exact ⟨fun heq => hc heq.symm, ih List.mem_cons_self⟩
      · exact ih (List.mem_cons_of_mem _ h)

/-- The first part of a text. -/
lemma splitOn_eq_cons (sep : Char) (s : Text) :
    ∃ ts, s.splitOn sep = s.takeWhile (· ≠ sep) :: ts := by
  by_cases h : sep ∈ s
  · obtain ⟨k, v, rfl, hk⟩ := List.eq_append_cons_of_mem h
    refine ⟨v.splitOn sep, ?_⟩
    have hpos : ∀ c ∈ k, decide (c ≠ sep) = true := fun c hc =>
      decide_eq_true fun heq => hk (heq ▸ hc)
    rw [splitOn_append_sep hk, List.takeWhile_append_of_pos hpos,
      List.takeWhile_cons_of_neg (by simp), List.append_nil]
  · refine ⟨[], ?_⟩
    rw [splitOn_of_notMem h, List.takeWhile_eq_self_iff.mpr]
    exact fun c hc => decide_eq_true fun heq => h (heq ▸ hc)

/-- Cutting a text that is made of two. -/
lemma splitOn_append (sep : Char) (s t : Text) : ∃ ss u v ts, s.splitOn sep = ss ++ [u] ∧
    t.splitOn sep = v :: ts ∧ (s ++ t).splitOn sep = ss ++ (u ++ v) :: ts := by
  obtain ⟨v, ts, ht⟩ := List.exists_cons_of_ne_nil (splitOn_ne_nil sep t)
  have hs := (List.dropLast_append_getLast (splitOn_ne_nil sep s)).symm
  set ss := (s.splitOn sep).dropLast
  set u := (s.splitOn sep).getLast (splitOn_ne_nil sep s)
  refine ⟨ss, u, v, ts, hs, ht, ?_⟩
  have hmems (w : Text) (hw : w ∈ ss ++ [u]) : sep ∉ w := notMem_of_mem_splitOn (hs ▸ hw)
  have hmemt (w : Text) (hw : w ∈ v :: ts) : sep ∉ w := notMem_of_mem_splitOn (ht ▸ hw)
  have hjoin : s ++ t = join sep (ss ++ (u ++ v) :: ts) := by
    rw [← join_append, ← hs, ← ht, join_splitOn, join_splitOn]
  rw [hjoin]
  refine splitOn_join (List.append_ne_nil_of_right_ne_nil _ (List.cons_ne_nil _ _)) ?_
  intro w hw
  rcases List.mem_append.mp hw with hw | hw
  · exact hmems w (List.mem_append_left _ hw)
  · rcases List.mem_cons.mp hw with rfl | hw
    · rw [List.mem_append, not_or]
      exact ⟨hmems u (by simp), hmemt v List.mem_cons_self⟩
    · exact hmemt w (List.mem_cons_of_mem _ hw)

/-- Without adjacent separators there is nothing to compress. -/
lemma splitCompress_eq_splitOn {sep : Char} {s : Text} (h : ¬[sep, sep] <:+: s) :
    splitCompress sep s = s.splitOn sep := by
  obtain ⟨t, ts, hts⟩ := List.exists_cons_of_ne_nil (splitOn_ne_nil sep s)
  rw [splitCompress, hts]
  refine congrArg (t :: ·) (compressInner_eq_self fun u hu => ?_)
  rintro rfl
  -- an inner part that is empty has a separator on both sides
  obtain ⟨us, vs, hdrop⟩ := List.append_of_mem hu
  have hne : ts ≠ [] := by
    rintro rfl
    cases hu
  have hsplit : s = join sep ((t :: us) ++ [] :: (vs ++ [ts.getLast hne])) := by
    have hlast := List.dropLast_append_getLast hne
    rw [hdrop, List.append_assoc, List.cons_append] at hlast
    rw [List.cons_append, hlast, ← hts, join_splitOn]
  obtain ⟨w, ws, hws⟩ := List.exists_cons_of_ne_nil
    (List.append_ne_nil_of_right_ne_nil vs (List.cons_ne_nil (ts.getLast hne) []))
  have hjoin : s = t ++ (us.map (sep :: ·)).flatten ++ [sep, sep] ++ join sep (w :: ws) := by
    rw [hsplit, hws, List.cons_append, join_eq_flatten, List.map_append, List.map_cons,
      List.flatten_append, List.flatten_cons, join_eq_flatten]
    simp
  exact h ⟨_, _, hjoin.symm⟩

/-- Between adjacent separators there is an empty part. -/
lemma nil_mem_tail_splitOn {sep : Char} {s : Text} (h : [sep, sep] <:+: s) :
    [] ∈ (s.splitOn sep).tail := by
  obtain ⟨x, y, rfl⟩ := h
  obtain ⟨ss, u, v, ts, -, hts, happ⟩ := splitOn_append sep x (sep :: sep :: y)
  have hsplit : (sep :: sep :: y).splitOn sep = [] :: [] :: y.splitOn sep := by
    rw [splitOn_cons, if_pos rfl, splitOn_cons, if_pos rfl]
  rw [hsplit] at hts
  obtain ⟨rfl, rfl⟩ := List.cons.inj hts
  rw [List.append_assoc, List.cons_append, List.cons_append, List.nil_append, happ]
  cases ss <;> simp

lemma after_append_cons {c : Char} {k v : Text} (h : c ∉ k) : after c (k ++ c :: v) = v := by
  have hk : ∀ d ∈ k, decide (d ≠ c) = true := by
    intro d hd
    exact decide_eq_true fun heq => h (heq ▸ hd)
  rw [after, if_pos (by simp), List.dropWhile_append_of_pos hk,
    List.dropWhile_cons_of_neg (by simp), List.tail_cons]

lemma splitOn_append_cons {c : Char} {k v : Text} (hk : c ∉ k) (hv : c ∉ v) :
    (k ++ c :: v).splitOn c = [k, v] := by
  have h : (join c [k, v]).splitOn c = [k, v] :=
    splitOn_join (List.cons_ne_nil k [v]) (by simp [hk, hv])
  simpa [join] using h

/-! ### Reading numbers -/

/-- The number that the decimal digits `s` write. -/
def ofDigits (s : Text) : ℕ := Nat.ofDigitChars 10 s 0

/-- A sign and what follows it. -/
def signed : Text → Bool × Text
  | '-' :: s => (true, s)
  | '+' :: s => (false, s)
  | s        => (false, s)

/-- The integer of a sign and digits. -/
def ofSigned (neg : Bool) (digits : Text) : ℤ :=
  if neg then -(ofDigits digits : ℤ) else ofDigits digits

/-- Read blanks, a sign and as many digits as there are. The rest of the text is ignored. -/
def scan (s : Text) : Option ℤ :=
  match signed (s.dropWhile isSpace) with
  | (neg, t) =>
    if t.takeWhile Char.isDigit = [] then none else some (ofSigned neg (t.takeWhile Char.isDigit))

/-- Groups of digits with an underscore between them. -/
def digitGroups (s : Text) : Bool :=
  (s.splitOn '_').all fun g => !g.isEmpty && g.all Char.isDigit

/-- Read a whole text as a sign and groups of digits. Blanks may stand around them. -/
def read (s : Text) : Option ℤ :=
  match signed (strip isSpace s) with
  | (neg, t) => if digitGroups t then some (ofSigned neg (t.filter (· ≠ '_'))) else none

/-! ### Numerals -/

/-- A decimal number with blanks around it. -/
structure Numeral where
  before : Text
  sign : Option Bool
  digits : Text
  behind : Text
  before_blank : ∀ c ∈ before, isSpace c = true
  digits_ne : digits ≠ []
  digits_digit : ∀ c ∈ digits, c.isDigit = true
  behind_blank : ∀ c ∈ behind, isSpace c = true

namespace Numeral

/-- The sign as it is written. -/
def signText (n : Numeral) : Text :=
  match n.sign with
  | none       => []
  | some false => ['+']
  | some true  => ['-']

/-- The numeral without the blanks. -/
def body (n : Numeral) : Text := n.signText ++ n.digits

def text (n : Numeral) : Text := n.before ++ n.body ++ n.behind

def value (n : Numeral) : ℤ := ofSigned (n.sign == some true) n.digits

variable (n : Numeral)

lemma body_ne_nil : n.body ≠ [] := fun h => n.digits_ne (List.append_eq_nil_iff.mp h).2

lemma text_ne_nil : n.text ≠ [] := by
  intro h
  rw [text, List.append_eq_nil_iff, List.append_eq_nil_iff] at h
  exact n.body_ne_nil h.1.2

/-- A digit is no sign. -/
lemma signed_digits {ds : Text} (hne : ds ≠ []) (h : ∀ c ∈ ds, c.isDigit = true) (rest : Text) :
    signed (ds ++ rest) = (false, ds ++ rest) := by
  cases ds with
  | nil => exact absurd rfl hne
  | cons d ds =>
    have hd := h d List.mem_cons_self
    have hminus : d ≠ '-' := by rintro rfl; exact absurd hd (by decide)
    have hplus : d ≠ '+' := by rintro rfl; exact absurd hd (by decide)
    rw [List.cons_append, signed]
    · intro s heq
      exact hminus (List.cons.inj heq).1
    · intro s heq
      exact hplus (List.cons.inj heq).1

lemma signed_body (rest : Text) :
    signed (n.body ++ rest) = (n.sign == some true, n.digits ++ rest) := by
  rw [body, signText]
  match n.sign with
  | none       => exact signed_digits n.digits_ne n.digits_digit rest
  | some false => rfl
  | some true  => rfl

/-- Blanks, signs and digits are all there is in a numeral. -/
lemma mem_text {c : Char} (hc : c ∈ n.text) :
    isSpace c = true ∨ c = '+' ∨ c = '-' ∨ c.isDigit = true := by
  rw [text, body, signText, List.mem_append, List.mem_append, List.mem_append] at hc
  rcases hc with (hc | hc | hc) | hc
  · exact .inl (n.before_blank c hc)
  · split at hc
    · cases hc
    · exact .inr (.inl (List.mem_singleton.mp hc))
    · exact .inr (.inr (.inl (List.mem_singleton.mp hc)))
  · exact .inr (.inr (.inr (n.digits_digit c hc)))
  · exact .inl (n.behind_blank c hc)

lemma notMem_text {c : Char} (h : isSpace c = false) (hplus : c ≠ '+') (hminus : c ≠ '-')
    (hdigit : c.isDigit = false) : c ∉ n.text := by
  intro hc
  rcases n.mem_text hc with h' | h' | h' | h'
  · rw [h] at h'
    cases h'
  · exact hplus h'
  · exact hminus h'
  · rw [hdigit] at h'
    cases h'

/-- No blank of any kind stands at an end of a numeral without its blanks. -/
lemma body_trimmed : Trimmed isUnicodeSpace n.body where
  head := by
    intro c hc
    rw [body, signText] at hc
    match hsign : n.sign with
    | none =>
      rw [hsign, List.nil_append] at hc
      exact isUnicodeSpace_eq_false_of_isDigit
        (n.digits_digit c (List.mem_of_mem_head? hc))
    | some false =>
      rw [hsign] at hc
      obtain rfl : '+' = c := Option.some.inj hc
      decide
    | some true =>
      rw [hsign] at hc
      obtain rfl : '-' = c := Option.some.inj hc
      decide
  last := by
    intro c hc
    rw [body, List.getLast?_append_of_ne_nil _ n.digits_ne] at hc
    exact isUnicodeSpace_eq_false_of_isDigit (n.digits_digit c (List.mem_of_getLast? hc))

lemma body_trimmed_isSpace : Trimmed isSpace n.body :=
  n.body_trimmed.mono fun _ => isUnicodeSpace_of_isSpace

/-- Stripping leaves the numeral without its blanks. -/
lemma strip_text : strip isSpace n.text = n.body :=
  strip_append_append n.before_blank n.behind_blank n.body_trimmed_isSpace n.body_ne_nil

lemma strip_unicode_text : strip isUnicodeSpace n.text = n.body :=
  strip_append_append (fun c hc => isUnicodeSpace_of_isSpace (n.before_blank c hc))
    (fun c hc => isUnicodeSpace_of_isSpace (n.behind_blank c hc)) n.body_trimmed n.body_ne_nil

/-- The digits end where the text behind the numeral starts. -/
lemma takeWhile_digits {rest : Text} (hrest : ∀ c ∈ rest.head?, c.isDigit = false) :
    (n.digits ++ (n.behind ++ rest)).takeWhile Char.isDigit = n.digits := by
  have hhead : ∀ c ∈ (n.behind ++ rest).head?, c.isDigit = false := by
    intro c hc
    by_cases hbehind : n.behind = []
    · rw [hbehind] at hc
      exact hrest c hc
    · rw [List.head?_append_of_ne_nil _ hbehind] at hc
      exact isDigit_eq_false_of_isSpace (n.behind_blank c (List.mem_of_mem_head? hc))
  have hbehind : (n.behind ++ rest).takeWhile Char.isDigit = [] := by
    cases hb : n.behind ++ rest with
    | nil => rfl
    | cons c t =>
      rw [hb] at hhead
      rw [List.takeWhile_cons_of_neg (by simp [hhead c rfl])]
  rw [List.takeWhile_append_of_pos n.digits_digit, hbehind, List.append_nil]

/-- Reading as far as digits go reads the numeral, whatever else follows it. -/
lemma scan_append {rest : Text} (hrest : ∀ c ∈ rest.head?, c.isDigit = false) :
    scan (n.text ++ rest) = some n.value := by
  have hdrop : (n.text ++ rest).dropWhile isSpace = n.body ++ (n.behind ++ rest) := by
    have hhead : ∀ c ∈ (n.body ++ (n.behind ++ rest)).head?, isSpace c = false := by
      intro c hc
      rw [List.head?_append_of_ne_nil _ n.body_ne_nil] at hc
      exact n.body_trimmed_isSpace.head c hc
    rw [text, List.append_assoc, List.append_assoc, List.dropWhile_append_of_pos n.before_blank,
      dropWhile_eq_self hhead]
  rw [scan, hdrop, n.signed_body]
  simp only [n.takeWhile_digits hrest, n.digits_ne, if_false, value]

lemma scan_text : scan n.text = some n.value := by
  simpa using @scan_append n [] (by simp)

lemma digitGroups_digits : digitGroups n.digits = true := by
  have hnot : ∀ c ∈ n.digits, (c == '_') = false := by
    intro c hc
    rw [beq_eq_false_iff_ne]
    rintro rfl
    exact absurd (n.digits_digit _ hc) (by decide)
  have hsplit : n.digits.splitOn '_' = [n.digits] := by
    rw [List.splitOn]
    exact List.splitOnP_eq_singleton fun c hc => by simpa using hnot c hc
  rw [digitGroups, hsplit]
  simpa [n.digits_ne] using n.digits_digit

/-- Reading the whole text reads the numeral, with or without its blanks. -/
lemma read_body : read n.body = some n.value := by
  have hfilter : n.digits.filter (· ≠ '_') = n.digits := by
    rw [List.filter_eq_self]
    intro c hc
    refine decide_eq_true fun heq => ?_
    subst heq
    exact absurd (n.digits_digit _ hc) (by decide)
  have hsigned := n.signed_body []
  rw [List.append_nil, List.append_nil] at hsigned
  rw [read, n.body_trimmed_isSpace.strip_eq, hsigned]
  simp only [n.digitGroups_digits, hfilter, if_true, value]

lemma read_text : read n.text = some n.value := by
  have h := n.read_body
  rw [read, n.body_trimmed_isSpace.strip_eq] at h
  rw [read, n.strip_text, h]

end Numeral

/-! ### Writing numbers -/

/-- The decimal digits of a number. -/
def ofNat (k : ℕ) : Text := Nat.toDigits 10 k

def ofInt (i : ℤ) : Text := if i < 0 then '-' :: ofNat i.natAbs else ofNat i.natAbs

@[simp] lemma ofInt_natCast (k : ℕ) : ofInt k = ofNat k := by
  rw [ofInt, if_neg (by omega), Int.natAbs_natCast]

/-- A written integer is a numeral. -/
def Numeral.ofInt (before behind : Text) (hbefore : ∀ c ∈ before, isSpace c = true)
    (hbehind : ∀ c ∈ behind, isSpace c = true) (i : ℤ) : Numeral where
  before := before
  sign := if i < 0 then some true else none
  digits := ofNat i.natAbs
  behind := behind
  before_blank := hbefore
  digits_ne := Nat.toDigits_ne_nil
  digits_digit _ hc := Nat.isDigit_of_mem_toDigits (by decide) (by decide) hc
  behind_blank := hbehind

namespace Numeral

variable {before behind : Text} (hbefore : ∀ c ∈ before, isSpace c = true)
  (hbehind : ∀ c ∈ behind, isSpace c = true) (i : ℤ)

@[simp] lemma body_ofInt : (Numeral.ofInt before behind hbefore hbehind i).body = Text.ofInt i := by
  rw [body, signText, Numeral.ofInt, Text.ofInt]
  split_ifs <;> rfl

@[simp] lemma text_ofInt :
    (Numeral.ofInt before behind hbefore hbehind i).text = before ++ Text.ofInt i ++ behind := by
  rw [text, body_ofInt]
  rfl

@[simp] lemma value_ofInt : (Numeral.ofInt before behind hbefore hbehind i).value = i := by
  have hdigits : ofDigits (ofNat i.natAbs) = i.natAbs := Nat.ofDigitChars_ten_toDigits
  rcases Int.lt_or_le i 0 with h | h
  · have hneg : (if i < 0 then some true else none) = some true := if_pos h
    rw [value, ofSigned, Numeral.ofInt, hneg, hdigits, beq_self_eq_true, if_pos rfl]
    omega
  · have hpos : (if i < 0 then some true else none) = none := if_neg (Int.not_lt.mpr h)
    rw [value, ofSigned, Numeral.ofInt, hpos, hdigits, if_neg (fun heq => by cases heq)]
    omega

end Numeral

/-- A written integer is read back. -/
lemma read_ofInt (i : ℤ) : read (ofInt i) = some i := by
  have h := (Numeral.ofInt [] [] (by simp) (by simp) i).read_body
  rwa [Numeral.body_ofInt, Numeral.value_ofInt] at h

/-! ### Lists of numerals -/

/-- What is put behind the last text is put behind all of them. -/
lemma join_append_behind (sep : Char) (ss : List Text) (t behind : Text) :
    join sep (ss ++ [t ++ behind]) = join sep (ss ++ [t]) ++ behind := by
  induction ss with
  | nil => simp [join]
  | cons s ss ih =>
    cases ss with
    | nil => simp [join]
    | cons u us =>
      rw [List.cons_append, List.cons_append, join_cons_cons]
      rw [List.cons_append, List.cons_append, join_cons_cons, List.append_assoc, List.cons_append]
      exact congrArg (s ++ sep :: ·) ih

lemma notMem_join {c sep : Char} (hsep : c ≠ sep) {ss : List Text} (h : ∀ t ∈ ss, c ∉ t) :
    c ∉ join sep ss := by
  induction ss with
  | nil => simp [join]
  | cons s ss ih =>
    have hs := h s List.mem_cons_self
    have hss := ih fun t ht => h t (List.mem_cons_of_mem _ ht)
    cases ss with
    | nil => simpa [join] using hs
    | cons t ts =>
      rw [join_cons_cons, List.mem_append, List.mem_cons]
      rintro (hc | hc | hc)
      exacts [hs hc, hsep hc, hss hc]

namespace Numeral

/-- The numerals `l` with commas between them. -/
def list (l : List Numeral) : Text := join ',' (l.map text)

/-- Leave out the blanks before the numeral. -/
def trimBefore (n : Numeral) : Numeral := { n with before := [], before_blank := by simp }

/-- Leave out the blanks behind the last numeral. -/
def trimLast : List Numeral → List Numeral
  | []          => []
  | [n]         => [{ n with behind := [], behind_blank := by simp }]
  | n :: m :: l => n :: trimLast (m :: l)

/-- The numerals that are left in a list without the blanks around it. -/
def trimList : List Numeral → List Numeral
  | []     => []
  | n :: l => trimLast (n.trimBefore :: l)

lemma map_value_trimLast (l : List Numeral) : (trimLast l).map value = l.map value := by
  induction l with
  | nil => rfl
  | cons n l ih =>
    cases l with
    | nil => rfl
    | cons m l =>
      rw [trimLast, List.map_cons, ih]
      rfl

lemma map_value_trimList (l : List Numeral) : (trimList l).map value = l.map value := by
  cases l with
  | nil => rfl
  | cons n l =>
    rw [trimList, map_value_trimLast]
    rfl

lemma trimLast_ne_nil {l : List Numeral} (h : l ≠ []) : trimLast l ≠ [] := by
  match l, h with
  | [_], _         => exact List.cons_ne_nil _ _
  | _ :: _ :: _, _ => exact List.cons_ne_nil _ _

lemma trimList_ne_nil {l : List Numeral} (h : l ≠ []) : trimList l ≠ [] := by
  match l, h with
  | n :: l, _ => exact trimLast_ne_nil (List.cons_ne_nil _ _)

lemma list_cons_cons (n m : Numeral) (l : List Numeral) :
    list (n :: m :: l) = n.text ++ ',' :: list (m :: l) := join_cons_cons _ _ _ _

lemma list_cons_ne_nil (n : Numeral) (l : List Numeral) : list (n :: l) ≠ [] := by
  cases l with
  | nil => simpa [list, join] using n.text_ne_nil
  | cons m l =>
    rw [list_cons_cons]
    exact fun h => n.text_ne_nil (List.append_eq_nil_iff.mp h).1

/-- The blanks before a list. -/
lemma list_eq_before (n : Numeral) (l : List Numeral) :
    list (n :: l) = n.before ++ list (n.trimBefore :: l) := by
  have htext : n.text = n.before ++ n.trimBefore.text := by
    rw [text, List.append_assoc]
    rfl
  cases l with
  | nil => simpa [list, join] using htext
  | cons m l => rw [list_cons_cons, list_cons_cons, htext, List.append_assoc]

/-- The blanks behind a list. -/
lemma list_eq_behind (n : Numeral) (l : List Numeral) :
    ∃ b : Text, (∀ c ∈ b, isSpace c = true) ∧ list (n :: l) = list (trimLast (n :: l)) ++ b := by
  induction l generalizing n with
  | nil =>
    refine ⟨n.behind, n.behind_blank, ?_⟩
    simp only [list, join, trimLast, text, body, signText, List.map_cons, List.map_nil,
      List.intercalate_singleton, List.append_nil]
  | cons m l ih =>
    obtain ⟨b, hb, hlist⟩ := ih m
    refine ⟨b, hb, ?_⟩
    obtain ⟨k, ks, hk⟩ := List.exists_cons_of_ne_nil (trimLast_ne_nil (List.cons_ne_nil m l))
    rw [trimLast, hk, list_cons_cons, list_cons_cons, ← hk, hlist, List.append_assoc,
      List.cons_append]

lemma getLast?_list (n : Numeral) (l : List Numeral) :
    ∀ c ∈ (list (trimLast (n :: l))).getLast?, isUnicodeSpace c = false := by
  induction l generalizing n with
  | nil =>
    intro c hc
    have htext : list (trimLast [n]) = n.before ++ n.body := by
      simp only [list, join, trimLast, text, body, signText, List.map_cons, List.map_nil,
        List.intercalate_singleton, List.append_nil]
    rw [htext, List.getLast?_append_of_ne_nil _ n.body_ne_nil] at hc
    exact n.body_trimmed.last c hc
  | cons m l ih =>
    intro c hc
    obtain ⟨k, ks, hk⟩ := List.exists_cons_of_ne_nil (trimLast_ne_nil (List.cons_ne_nil m l))
    have hne : list (trimLast (m :: l)) ≠ [] := by
      rw [hk]
      exact list_cons_ne_nil k ks
    rw [trimLast, hk, list_cons_cons, ← hk, List.append_cons,
      List.getLast?_append_of_ne_nil _ hne] at hc
    exact ih m c hc

lemma head?_list (n : Numeral) (l : List Numeral) :
    (list (n :: l)).head? = n.text.head? := by
  cases l with
  | nil => simp [list, join]
  | cons m l => rw [list_cons_cons, List.head?_append_of_ne_nil _ n.text_ne_nil]

lemma trimmed_trimList {l : List Numeral} (h : l ≠ []) :
    Trimmed isUnicodeSpace (list (trimList l)) := by
  obtain ⟨n, l, rfl⟩ := List.exists_cons_of_ne_nil h
  refine ⟨?_, getLast?_list n.trimBefore l⟩
  intro c hc
  have hbody : n.trimBefore.body ≠ [] := n.trimBefore.body_ne_nil
  have hhead : (list (trimList (n :: l))).head? = n.trimBefore.body.head? := by
    cases l with
    | nil =>
      rw [trimList, trimLast, head?_list, text, List.append_assoc]
      exact List.head?_append_of_ne_nil _ hbody
    | cons m l =>
      rw [trimList, trimLast, head?_list, text, List.append_assoc]
      exact List.head?_append_of_ne_nil _ hbody
  rw [hhead] at hc
  exact n.trimBefore.body_trimmed.head c hc

/-- Stripping a list of numerals leaves the list without the blanks around it. -/
lemma strip_list {blank : Char → Bool} (hspace : ∀ c, isSpace c = true → blank c = true)
    (hblank : ∀ c, blank c = true → isUnicodeSpace c = true) {l : List Numeral} (h : l ≠ [])
    {behind : Text} (hbehind : ∀ c ∈ behind, blank c = true) :
    strip blank (list l ++ behind) = list (trimList l) := by
  obtain ⟨n, l, rfl⟩ := List.exists_cons_of_ne_nil h
  obtain ⟨b, hb, hlist⟩ := list_eq_behind n.trimBefore l
  obtain ⟨k, ks, hk⟩ := List.exists_cons_of_ne_nil (trimList_ne_nil h)
  rw [list_eq_before, hlist, ← List.append_assoc, List.append_assoc]
  refine strip_append_append (fun c hc => hspace c (n.before_blank c hc)) ?_ ?_ ?_
  · intro c hc
    rcases List.mem_append.mp hc with hc | hc
    exacts [hspace c (hb c hc), hbehind c hc]
  · exact (trimmed_trimList h).mono hblank
  · rw [← trimList, hk]
    exact list_cons_ne_nil k ks

/-- A list of numerals is cut into them at its commas. -/
lemma splitOn_list {l : List Numeral} (h : l ≠ []) : (list l).splitOn ',' = l.map text :=
  splitOn_join (by simpa using h) (by
    intro t ht
    obtain ⟨n, -, rfl⟩ := List.mem_map.mp ht
    exact n.notMem_text (by decide) (by decide) (by decide) (by decide))

lemma splitCompress_list {l : List Numeral} (h : l ≠ []) :
    splitCompress ',' (list l) = l.map text := by
  obtain ⟨n, l, rfl⟩ := List.exists_cons_of_ne_nil h
  have hcomma : ∀ t ∈ (n :: l).map text, ',' ∉ t := by
    intro t ht
    obtain ⟨m, -, rfl⟩ := List.mem_map.mp ht
    exact m.notMem_text (by decide) (by decide) (by decide) (by decide)
  refine splitCompress_join hcomma ?_
  intro t ht
  obtain ⟨m, -, rfl⟩ := List.mem_map.mp ht
  exact m.text_ne_nil

end Numeral

/-- A text with a character that no number has is not read. -/
lemma read_eq_none {s : Text} {c : Char} (hc : c ∈ s) (hspace : isSpace c = false)
    (hminus : c ≠ '-') (hplus : c ≠ '+') (hgroup : c ≠ '_') (hdigit : c.isDigit = false) :
    read s = none := by
  have hstrip : c ∈ strip isSpace s := by
    obtain ⟨a, b, ha, hb, hs⟩ := exists_strip isSpace s
    rw [hs, List.mem_append, List.mem_append] at hc
    rcases hc with (hc | hc) | hc
    · rw [ha c hc] at hspace
      cases hspace
    · exact hc
    · rw [hb c hc] at hspace
      cases hspace
  have hsigned : c ∈ (signed (strip isSpace s)).2 := by
    unfold signed
    split
    next t heq =>
      rw [heq, List.mem_cons] at hstrip
      exact hstrip.resolve_left hminus
    next t heq =>
      rw [heq, List.mem_cons] at hstrip
      exact hstrip.resolve_left hplus
    next => exact hstrip
  have hgroups : digitGroups (signed (strip isSpace s)).2 = false := by
    rw [← Bool.not_eq_true, digitGroups, List.all_eq_true]
    intro hall
    have hjoin : join '_' ((signed (strip isSpace s)).2.splitOn '_') =
        (signed (strip isSpace s)).2 := List.intercalate_splitOn '_'
    rw [← hjoin] at hsigned
    refine notMem_join hgroup ?_ hsigned
    intro g hg hcg
    have hg' := hall g hg
    rw [Bool.and_eq_true, List.all_eq_true] at hg'
    rw [hg'.2 c hcg] at hdigit
    cases hdigit
  unfold read
  simp only [hgroups, Bool.false_eq_true, if_false]

/-! ### Lines -/

/-- The lines of a text, each with its line feed; behind the last line there may be none. -/
def readlines : Text → List Text
  | []     => []
  | c :: s =>
    if c = '\n' then ['\n'] :: readlines s
    else match readlines s with
      | []      => [[c]]
      | l :: ls => (c :: l) :: ls

lemma readlines_line {l : Text} (h : '\n' ∉ l) (s : Text) :
    readlines (l ++ '\n' :: s) = (l ++ ['\n']) :: readlines s := by
  induction l with
  | nil => rfl
  | cons c l ih =>
    rw [List.mem_cons, not_or] at h
    rw [List.cons_append, readlines, if_neg (Ne.symm h.1), ih h.2]
    rfl

/-- Texts without line feeds, each of them ended by one, are read back. -/
lemma readlines_lines {ls : List Text} (h : ∀ l ∈ ls, '\n' ∉ l) :
    readlines (ls.flatMap (· ++ ['\n'])) = ls.map (· ++ ['\n']) := by
  induction ls with
  | nil => rfl
  | cons l ls ih =>
    rw [List.forall_mem_cons] at h
    rw [List.flatMap_cons, List.append_assoc, List.singleton_append, readlines_line h.1, ih h.2,
      List.map_cons]

end Text

end ArchExplorer.Lib
