import ArchExplorer.Lib.Text

/-!
# Two ways of reading a number

A number may be read as far as its digits go, or as a whole text. The second way takes underscores
between groups of digits. Where both ways read a number, the first one has read the first group.
-/

namespace ArchExplorer.Lib.Text

/-! ### Groups of digits -/

/-- What follows the first group makes the number ten times as large, at least. -/
lemma ten_mul_ofDigits_le (d : Text) {e : Text} (he : e ≠ []) :
    10 * ofDigits d ≤ ofDigits (d ++ e) := by
  have hpow : 10 ^ 1 ≤ 10 ^ e.length :=
    Nat.pow_le_pow_right (by decide) (List.length_pos_iff.mpr he)
  rw [ofDigits, ofDigits, Nat.ofDigitChars_append, Nat.ofDigitChars_eq_ofDigitChars_zero (l := e)]
  exact le_trans (Nat.mul_le_mul_right _ hpow) (Nat.le_add_right _ _)

lemma natAbs_ofSigned (neg : Bool) (d : Text) : (ofSigned neg d).natAbs = ofDigits d := by
  rw [ofSigned]
  split_ifs <;> simp

/-- The first group of a number is the number only if there are no others, or for zero. -/
lemma ofSigned_eq_iff (neg : Bool) (d e : Text) :
    ofSigned neg d = ofSigned neg (d ++ e) ↔ e = [] ∨ ofSigned neg (d ++ e) = 0 := by
  have hd := natAbs_ofSigned neg d
  have hde := natAbs_ofSigned neg (d ++ e)
  constructor
  · intro h
    by_cases he : e = []
    · exact .inl he
    · have hle := ten_mul_ofDigits_le d he
      rw [h] at hd
      exact .inr (by omega)
  · rintro (rfl | h)
    · rw [List.append_nil]
    · by_cases he : e = []
      · rw [he, List.append_nil]
      · have hle := ten_mul_ofDigits_le d he
        rw [h]
        omega

lemma signed_append {s : Text} (hs : s ≠ []) (r : Text) :
    signed (s ++ r) = ((signed s).1, (signed s).2 ++ r) := by
  obtain ⟨c, s, rfl⟩ := List.exists_cons_of_ne_nil hs
  rw [List.cons_append, signed.eq_def, signed.eq_def]
  split
  · rename_i h
    cases h
    rfl
  · rename_i h
    cases h
    rfl
  · rename_i hminus hplus
    split <;> rename_i h'
    · cases h'
      exact absurd rfl (hminus _)
    · cases h'
      exact absurd rfl (hplus _)
    · rfl

/-- The groups of a number. -/
lemma exists_groups {u : Text} (h : digitGroups u = true) : ∃ (first : Text) (groups : List Text),
    u = join '_' (first :: groups) ∧ ∀ g ∈ first :: groups, g ≠ [] ∧ ∀ c ∈ g, c.isDigit = true := by
  obtain ⟨first, groups, hsplit⟩ := List.exists_cons_of_ne_nil (splitOn_ne_nil '_' u)
  refine ⟨first, groups, ?_, ?_⟩
  · rw [← hsplit, join_splitOn]
  · simpa [digitGroups, hsplit] using h

/-- A number whose whole text is read: its sign, its first group of digits and the digits of the
others. Where the text is not followed by a digit, scanning reads the first group. -/
structure ReadAs (v : Text) (neg : Bool) (first more : Text) : Prop where
  read : Text.read v = some (ofSigned neg (first ++ more))
  scan : ∀ rest : Text, (∀ c ∈ rest.head?, c.isDigit = false) →
    Text.scan (v ++ rest) = some (ofSigned neg first)
  more : more = [] ↔ '_' ∉ v

lemma filter_underscore {g : Text} (h : ∀ c ∈ g, c.isDigit = true) : g.filter (· ≠ '_') = g := by
  rw [List.filter_eq_self]
  intro c hc
  refine decide_eq_true fun heq => ?_
  subst heq
  exact absurd (h _ hc) (by decide)

/-- The digits of a number in groups. -/
lemma filter_join {first : Text} {groups : List Text}
    (h : ∀ g ∈ first :: groups, g ≠ [] ∧ ∀ c ∈ g, c.isDigit = true) :
    (join '_' (first :: groups)).filter (· ≠ '_') = first ++ groups.flatten := by
  induction groups generalizing first with
  | nil => simpa [join] using filter_underscore (h first List.mem_cons_self).2
  | cons g groups ih =>
    rw [join_cons_cons, List.filter_append, filter_underscore (h first List.mem_cons_self).2,
      List.filter_cons_of_neg (by simp), ih fun g' hg' => h g' (List.mem_cons_of_mem _ hg'),
      List.flatten_cons]

/-- Behind the first group there is an underscore or nothing. -/
lemma takeWhile_join {first : Text} {groups : List Text} (hfirst : ∀ c ∈ first, c.isDigit = true)
    {rest : Text} (hrest : ∀ c ∈ rest.head?, c.isDigit = false) :
    (join '_' (first :: groups) ++ rest).takeWhile Char.isDigit = first := by
  have hstop (t : Text) (ht : ∀ c ∈ t.head?, c.isDigit = false) :
      (first ++ t).takeWhile Char.isDigit = first := by
    rw [List.takeWhile_append_of_pos hfirst]
    cases t with
    | nil => exact List.append_nil _
    | cons c t => rw [List.takeWhile_cons_of_neg (by simp [ht c rfl]), List.append_nil]
  cases groups with
  | nil =>
    have hjoin : join '_' [first] = first := by simp [join]
    rw [hjoin, hstop rest hrest]
  | cons g groups =>
    rw [join_cons_cons, List.append_assoc, List.cons_append]
    refine hstop _ ?_
    rintro c ⟨⟩
    decide

lemma flatten_eq_nil_iff {groups : List Text} (h : ∀ g ∈ groups, g ≠ []) :
    groups.flatten = [] ↔ groups = [] := by
  cases groups with
  | nil => simp
  | cons g groups => simp [h g List.mem_cons_self]

lemma signed_spec (s : Text) : ∃ a : Text, s = a ++ (signed s).2 ∧ '_' ∉ a := by
  unfold signed
  split
  · exact ⟨['-'], rfl, by decide⟩
  · exact ⟨['+'], rfl, by decide⟩
  · exact ⟨[], rfl, List.not_mem_nil⟩

/-- What can be read can be scanned. -/
lemma readAs_of_read {v : Text} {t : ℤ} (h : read v = some t) :
    ∃ neg first more, ReadAs v neg first more ∧ t = ofSigned neg (first ++ more) := by
  have hread := h
  rw [read] at h
  obtain ⟨a, b, ha, hb, hv⟩ := exists_strip isSpace v
  set w := strip isSpace v with hw
  set u := (signed w).2 with hu
  have hgroups : digitGroups u = true := by
    by_contra hno
    simp [← hu, hno] at h
  obtain ⟨first, groups, hjoin, hall⟩ := exists_groups hgroups
  obtain ⟨hne, hdigit⟩ := hall first List.mem_cons_self
  have htail (g : Text) (hg : g ∈ groups) : g ≠ [] := (hall g (List.mem_cons_of_mem _ hg)).1
  have ht : t = ofSigned (signed w).1 (first ++ groups.flatten) := by
    simp only [← hu, hgroups, if_true, Option.some.injEq] at h
    rw [← h, hjoin, filter_join hall]
  have hune : u ≠ [] := by
    rw [hjoin, join_eq_flatten]
    exact fun hnil => hne (List.append_eq_nil_iff.mp hnil).1
  obtain ⟨sgn, hsgn, hunder⟩ := signed_spec w
  have hwne : w ≠ [] := by
    rw [hsgn]
    exact fun hnil => hune (List.append_eq_nil_iff.mp hnil).2
  refine ⟨(signed w).1, first, groups.flatten, ⟨?_, ?_, ?_⟩, ht⟩
  · rw [hread, ht]
  · intro rest hrest
    have hdrop : (v ++ rest).dropWhile isSpace = w ++ (b ++ rest) := by
      have hhead : ∀ c ∈ (w ++ (b ++ rest)).head?, isSpace c = false := by
        intro c hc
        rw [List.head?_append_of_ne_nil _ hwne] at hc
        exact (trimmed_strip isSpace v).head c hc
      rw [hv, List.append_assoc, List.append_assoc, List.dropWhile_append_of_pos ha,
        dropWhile_eq_self hhead]
    have hhead : ∀ c ∈ (b ++ rest).head?, c.isDigit = false := by
      intro c hc
      by_cases hbne : b = []
      · rw [hbne] at hc
        exact hrest c hc
      · rw [List.head?_append_of_ne_nil _ hbne] at hc
        exact isDigit_eq_false_of_isSpace (hb c (List.mem_of_mem_head? hc))
    rw [scan, hdrop, signed_append hwne, ← hu, hjoin]
    simp only [takeWhile_join hdigit hhead, hne, if_false]
  · rw [flatten_eq_nil_iff htail]
    have hblank {s : Text} (hs : ∀ c ∈ s, isSpace c = true) : '_' ∉ s := fun hmem =>
      absurd (hs _ hmem) (by decide)
    have hmem : '_' ∈ v ↔ '_' ∈ u := by
      rw [hv, hsgn, List.mem_append, List.mem_append, List.mem_append, ← hu]
      simp [hblank ha, hblank hb, hunder]
    rw [hmem, hjoin, join_eq_flatten]
    constructor
    · rintro rfl
      have hfirst : '_' ∉ first := fun hmem => absurd (hdigit _ hmem) (by decide)
      simpa using hfirst
    · intro hno
      by_contra hgne
      obtain ⟨g, groups, rfl⟩ := List.exists_cons_of_ne_nil hgne
      exact hno (by simp)

/-! ### Scanning -/

/-- What stands before a number that can be scanned is blank for scanning. -/
lemma isSpace_of_scan {a w : Text} {i : ℤ} (ha : ∀ c ∈ a, isUnicodeSpace c = true)
    (h : scan (a ++ w) = some i) : ∀ c ∈ a, isSpace c = true := by
  induction a with
  | nil => simp
  | cons c a ih =>
    obtain ⟨hc, ha⟩ := List.forall_mem_cons.mp ha
    by_cases hspace : isSpace c = true
    · refine List.forall_mem_cons.mpr ⟨hspace, ih ha ?_⟩
      rwa [scan, List.cons_append, List.dropWhile_cons_of_pos hspace, ← scan] at h
    · -- any other blank stops the scan
      have hdigit : c.isDigit = false := by
        by_contra hdigit
        rw [isUnicodeSpace_eq_false_of_isDigit (by simpa using hdigit)] at hc
        cases hc
      have hminus : c ≠ '-' := by
        rintro rfl
        exact absurd hc (by decide)
      have hplus : c ≠ '+' := by
        rintro rfl
        exact absurd hc (by decide)
      have hsigned (t : Text) : signed (c :: t) = (false, c :: t) := by
        rw [signed]
        · exact fun s heq => hminus (List.cons.inj heq).1
        · exact fun s heq => hplus (List.cons.inj heq).1
      rw [scan, List.cons_append, List.dropWhile_cons_of_neg hspace, hsigned] at h
      simp [hdigit] at h

lemma scan_append_blank {a : Text} (ha : ∀ c ∈ a, isSpace c = true) (w : Text) :
    scan (a ++ w) = scan w := by
  rw [scan, List.dropWhile_append_of_pos ha, ← scan]

/-- A character that is part of no number ends the scan. -/
def Ends (c : Char) : Prop := isSpace c = false ∧ c ≠ '-' ∧ c ≠ '+' ∧ c.isDigit = false

instance (c : Char) : Decidable (Ends c) := inferInstanceAs (Decidable (_ ∧ _))

lemma scan_cons_of_ends {c : Char} (hc : Ends c) (w : Text) : scan (c :: w) = none := by
  obtain ⟨hspace, hminus, hplus, hdigit⟩ := hc
  have hsigned : signed (c :: w) = (false, c :: w) := by
    rw [signed]
    · exact fun s heq => hminus (List.cons.inj heq).1
    · exact fun s heq => hplus (List.cons.inj heq).1
  rw [scan, List.dropWhile_cons_of_neg (by simp [hspace]), hsigned]
  simp [hdigit]

lemma takeWhile_append_ends {c : Char} (hc : c.isDigit = false) (s w : Text) :
    (s ++ c :: w).takeWhile Char.isDigit = s.takeWhile Char.isDigit := by
  induction s with
  | nil => exact List.takeWhile_cons_of_neg (by simp [hc])
  | cons d s ih =>
    rw [List.cons_append]
    cases hd : d.isDigit with
    | true => rw [List.takeWhile_cons_of_pos hd, List.takeWhile_cons_of_pos hd, ih]
    | false =>
      rw [List.takeWhile_cons_of_neg (by simp [hd]), List.takeWhile_cons_of_neg (by simp [hd])]

/-- What follows such a character is not scanned. -/
lemma scan_append_ends {c : Char} (hc : Ends c) (s w : Text) : scan (s ++ c :: w) = scan s := by
  induction s with
  | nil => exact scan_cons_of_ends hc w
  | cons d s ih =>
    cases hd : isSpace d with
    | true =>
      have hdrop (t : Text) : scan (d :: t) = scan t := by
        rw [scan, List.dropWhile_cons_of_pos hd, ← scan]
      rw [List.cons_append, hdrop, hdrop, ih]
    | false =>
      have hdrop (t : Text) : (d :: t).dropWhile isSpace = d :: t :=
        List.dropWhile_cons_of_neg (by simp [hd])
      rw [scan, scan, List.cons_append, hdrop, hdrop, ← List.cons_append,
        signed_append (List.cons_ne_nil d s)]
      simp only [takeWhile_append_ends hc.2.2.2]

/-- Blanks around a text are not scanned. -/
lemma scan_strip (s : Text) : scan (strip isSpace s) = scan s := by
  obtain ⟨a, b, ha, hb, hs⟩ := exists_strip isSpace s
  set w := strip isSpace s with hw
  have hbehind : scan (w ++ b) = scan w := by
    by_cases hwne : w = []
    · rw [hwne, List.nil_append]
      simpa using scan_append_blank hb []
    cases b with
    | nil => rw [List.append_nil]
    | cons c b =>
      have hdrop (t : Text) : (w ++ t).dropWhile isSpace = w ++ t := by
        apply dropWhile_eq_self
        intro d hd
        rw [List.head?_append_of_ne_nil _ hwne] at hd
        exact (trimmed_strip isSpace s).head d hd
      have hnil := hdrop []
      rw [List.append_nil] at hnil
      rw [scan, scan, hdrop, hnil, signed_append hwne]
      simp only [takeWhile_append_ends (isDigit_eq_false_of_isSpace (hb c List.mem_cons_self))]
  rw [hs, List.append_assoc, scan_append_blank ha, hbehind]

end ArchExplorer.Lib.Text
