import ArchExplorer.Lib.Reading
import ArchExplorer.Trace.Decoders

/-!
# The decoders on the fields of a line

Nothing is assumed of the fields here. The parser cuts a field at its equality signs and reads the
second part as a whole, the constructor reads what follows the first equality sign as far as it can.
For each kind of field the module says when both read the same.
-/

namespace ArchExplorer.Trace

open ArchExplorer.Lib
open ArchExplorer.Lib.Text

variable {s v eol : Text} {f : List Text}

/-- The value of a field for the parser: what stands between its first two equality signs, without
the blanks around it. -/
def fieldValue (s : Text) : Text := strip isUnicodeSpace ((after '=' s).takeWhile (· ≠ '='))

/-- What follows from the second equality sign on. -/
def beyond (s : Text) : Text := (after '=' s).dropWhile (· ≠ '=')

/-- A field is its value with blanks around it, and what follows a second equality sign. -/
lemma exists_after (s : Text) : ∃ a b : Text, (∀ c ∈ a, isUnicodeSpace c = true) ∧
    (∀ c ∈ b, isUnicodeSpace c = true) ∧ after '=' s = a ++ (fieldValue s ++ (b ++ beyond s)) := by
  obtain ⟨a, b, ha, hb, hs⟩ :=
    exists_strip isUnicodeSpace ((after '=' s).takeWhile (· ≠ '='))
  refine ⟨a, b, ha, hb, ?_⟩
  rw [beyond, fieldValue, ← List.append_assoc, ← List.append_assoc, ← hs,
    List.takeWhile_append_dropWhile]

lemma head?_beyond (s : Text) : ∀ c ∈ (beyond s).head?, c = '=' := by
  intro c hc
  have h := List.head?_dropWhile_not (fun c => decide (c ≠ '=')) (after '=' s)
  rw [beyond] at hc
  rw [Option.mem_def.mp hc] at h
  simpa using h

lemma beyond_eq (s : Text) : beyond s = [] ∨ ∃ t, beyond s = '=' :: t := by
  cases h : beyond s with
  | nil => exact .inl rfl
  | cons c t =>
    obtain rfl := head?_beyond s c (by rw [h]; rfl)
    exact .inr ⟨t, rfl⟩

/-! ### Values -/

lemma item_eq_ok {inst : List Text} {idx : ℕ} (h : Core.item inst idx = .ok s) :
    inst[idx]? = some s := by
  unfold Core.item at h
  split at h
  next heq => rw [heq, Except.ok.inj h]
  next => cases h

lemma segment_eq_ok {idx : ℕ} (h : Deg.segment f idx = .ok s) : f[idx]? = some s := by
  unfold Deg.segment at h
  split at h
  next heq => rw [heq, Except.ok.inj h]
  next => cases h

/-- The parser takes the value of a field. -/
lemma itemValue_eq_ok {inst : List Text} {idx : ℕ} (h : Core.itemValue inst idx = .ok v) :
    ∃ s, inst[idx]? = some s ∧ '=' ∈ s ∧ v = fieldValue s := by
  obtain ⟨s, hs, h⟩ := bind_eq_ok h
  obtain ⟨p, hp, h⟩ := bind_eq_ok h
  have hp := item_eq_ok hp
  cases h
  refine ⟨s, item_eq_ok hs, ?_⟩
  by_cases hmem : '=' ∈ s
  · refine ⟨hmem, ?_⟩
    obtain ⟨k, r, rfl, hk⟩ := List.eq_append_cons_of_mem hmem
    obtain ⟨ts, hts⟩ := splitOn_eq_cons '=' r
    rw [splitOn_append_sep hk, hts] at hp
    obtain rfl : r.takeWhile (· ≠ '=') = p := Option.some.inj hp
    rw [fieldValue, after_append_cons hk]
  · rw [splitOn_of_notMem hmem] at hp
    cases hp

/-- The end of the line is not part of a value. -/
lemma fieldValue_append (hs : '=' ∈ s) (heol : ∀ c ∈ eol, isSpace c = true) :
    fieldValue (s ++ eol) = fieldValue s := by
  obtain ⟨k, r, rfl, hk⟩ := List.eq_append_cons_of_mem hs
  have hne : ∀ c ∈ eol, decide (c ≠ '=') = true := by
    intro c hc
    refine decide_eq_true ?_
    rintro rfl
    exact absurd (heol _ hc) (by decide)
  rw [fieldValue, fieldValue, List.append_assoc, List.cons_append, after_append_cons hk,
    after_append_cons hk]
  by_cases hr : '=' ∈ r
  · obtain ⟨p, t, rfl, hp⟩ := List.eq_append_cons_of_mem hr
    have hpos : ∀ c ∈ p, decide (c ≠ '=') = true := fun c hc =>
      decide_eq_true fun heq => hp (heq ▸ hc)
    rw [List.append_assoc, List.cons_append, List.takeWhile_append_of_pos hpos,
      List.takeWhile_append_of_pos hpos, List.takeWhile_cons_of_neg (by simp),
      List.takeWhile_cons_of_neg (by simp)]
  · have hpos : ∀ c ∈ r, decide (c ≠ '=') = true := fun c hc =>
      decide_eq_true fun heq => hr (heq ▸ hc)
    rw [List.takeWhile_append_of_pos hpos, List.takeWhile_eq_self_iff.mpr hne,
      List.takeWhile_eq_self_iff.mpr hpos, strip, strip, rdropWhile_append_of_pos]
    exact fun c hc => isUnicodeSpace_of_isSpace (heol c hc)

/-! ### Numbers -/

/-- A value that is read as one number by both decoders: an integer, with underscores only if it is
zero. -/
def SameNumber (v : Text) : Prop := ∃ t, read v = some t ∧ ('_' ∉ v ∨ t = 0)

/-- The sign and the groups of a number decide whether scanning reads all of it. -/
lemma sameNumber_iff {neg : Bool} {first more : Text} (h : ReadAs v neg first more) :
    read v = some (ofSigned neg first) ↔ SameNumber v := by
  have hiff := ofSigned_eq_iff neg first more
  rw [h.more, eq_comm] at hiff
  constructor
  · intro hread
    have heq := Option.some.inj (h.read.symm.trans hread)
    exact ⟨_, h.read, hiff.mp heq⟩
  · rintro ⟨t, ht, hcase⟩
    obtain rfl := Option.some.inj (ht.symm.trans h.read)
    rw [h.read, hiff.mpr hcase]

/-- What the constructor scans of a field whose value can be read. -/
lemma readAs_of_scan {i t : ℤ} (hscan : scan (after '=' s) = some i)
    (hread : read (fieldValue s) = some t) : ∃ neg first more,
      ReadAs (fieldValue s) neg first more ∧ t = ofSigned neg (first ++ more) ∧
        i = ofSigned neg first := by
  obtain ⟨a, b, ha, hb, hs⟩ := exists_after s
  obtain ⟨neg, first, more, hv, ht⟩ := readAs_of_read hread
  refine ⟨neg, first, more, hv, ht, ?_⟩
  have hrest : ∀ c ∈ (b ++ beyond s).head?, c.isDigit = false := by
    intro c hc
    by_cases hbne : b = []
    · rw [hbne] at hc
      obtain rfl := head?_beyond s c hc
      decide
    · rw [List.head?_append_of_ne_nil _ hbne] at hc
      by_contra hdigit
      have hblank := hb c (List.mem_of_mem_head? hc)
      rw [isUnicodeSpace_eq_false_of_isDigit (by simpa using hdigit)] at hblank
      cases hblank
  rw [hs] at hscan
  rw [scan_append_blank (isSpace_of_scan ha hscan), hv.scan _ hrest] at hscan
  exact (Option.some.inj hscan).symm

/-- The ids agree. -/
lemma read_fieldValue_iff {i : ℤ} (hscan : scan (after '=' s) = some i) :
    read (fieldValue s) = some i ↔ SameNumber (fieldValue s) := by
  constructor
  · intro hread
    obtain ⟨neg, first, more, hv, -, rfl⟩ := readAs_of_scan hscan hread
    exact (sameNumber_iff hv).mp hread
  · rintro ⟨t, ht, hcase⟩
    obtain ⟨neg, first, more, hv, -, rfl⟩ := readAs_of_scan hscan ht
    exact (sameNumber_iff hv).mpr ⟨t, ht, hcase⟩

lemma stoi_eq_ok {i : ℤ} (h : Deg.stoi s = .ok i) : scan s = some i := by
  unfold Deg.stoi at h
  split at h
  next => cases h
  next j hj =>
    split_ifs at h
    rw [hj, Except.ok.inj h]

lemma int_eq_ok {t : ℤ} (h : Core.int v = .ok t) : read v = some t := by
  unfold Core.int at h
  split at h
  next hj => rw [hj, Except.ok.inj h]
  next => cases h

/-- A field without a value cannot be scanned. -/
lemma scan_eq_none (hv : fieldValue s = []) : scan (after '=' s) = none := by
  cases hscan : scan (after '=' s) with
  | none => rfl
  | some i =>
    obtain ⟨a, b, ha, hb, hs⟩ := exists_after s
    have hab : ∀ c ∈ a ++ b, isUnicodeSpace c = true := by
      intro c hc
      rcases List.mem_append.mp hc with hc | hc
      exacts [ha c hc, hb c hc]
    rw [hv, List.nil_append, ← List.append_assoc] at hs
    rw [hs] at hscan
    rw [scan_append_blank (isSpace_of_scan hab hscan)] at hscan
    rcases beyond_eq s with hnil | ⟨t, ht⟩
    · rw [hnil] at hscan
      cases hscan
    · rw [ht, scan_cons_of_ends (by decide)] at hscan
      cases hscan

/-- The destination registers agree. -/
lemma dst_eq_iff {x y : ℤ} (hx : Deg.setDstReg s = .ok x)
    (hy : Core.parseDst (fieldValue s) = .ok y) :
    x = y ↔ fieldValue s = [] ∨ SameNumber (fieldValue s) := by
  rw [Deg.setDstReg, Deg.dstReg] at hx
  rw [Core.parseDst] at hy
  by_cases hv : fieldValue s = []
  · rw [if_pos hv] at hy
    refine iff_of_true ?_ (.inl hv)
    split_ifs at hx
    · exact (Except.ok.inj hx).symm.trans (Except.ok.inj hy)
    · -- the constructor does not accept blanks alone
      cases (scan_eq_none hv).symm.trans (stoi_eq_ok hx)
  · rw [if_neg hv] at hy
    have hne : after '=' s ≠ [] := by
      intro hnil
      rw [fieldValue, hnil] at hv
      exact hv rfl
    rw [if_neg hne] at hx
    have hread := int_eq_ok hy
    rw [← read_fieldValue_iff (stoi_eq_ok hx), hread, Option.some.injEq, eq_comm, or_iff_right hv]

/-! ### Source registers -/

/-- The source registers of a field are read in the same way: there is one, each one is read as one
number, and behind a second equality sign there are none. -/
structure SameRegisters (s : Text) : Prop where
  ne_nil : fieldValue s ≠ []
  plain : ∀ q ∈ (fieldValue s).splitOn ',', SameNumber q
  behind : ∀ q ∈ ((strip isSpace (beyond s)).splitOn ',').tail, q = []

lemma filter_compressInner (ss : List Text) :
    (compressInner ss).filter (· ≠ []) = ss.filter (· ≠ []) := by
  induction ss with
  | nil => rfl
  | cons t ts ih =>
    match t, ts with
    | _, []           => rfl
    | [], u :: us     =>
      have hcons : compressInner ([] :: u :: us) = compressInner (u :: us) := by
        rw [compressInner]
        exact List.cons_ne_nil u us
      rw [hcons, ih, eq_comm]
      exact List.filter_cons_of_neg (by simp)
    | c :: t, u :: us =>
      rw [compressInner, List.filter_cons_of_pos (by simp), List.filter_cons_of_pos (by simp), ih]
      exact List.cons_ne_nil c t

/-- The constructor reads the parts between commas that are not empty. -/
lemma srcRegs_eq (r : Text) :
    Deg.srcRegs r = (((strip isSpace r).splitOn ',').filter (· ≠ [])).mapM Deg.stoi := by
  have hmem : ',' ∈ r ↔ ',' ∈ strip isSpace r := by
    obtain ⟨a, b, ha, hb, hr⟩ := exists_strip isSpace r
    have hblank {t : Text} (ht : ∀ c ∈ t, isSpace c = true) : ',' ∉ t := fun hmem =>
      absurd (ht _ hmem) (by decide)
    conv_lhs => rw [hr]
    simp [hblank ha, hblank hb]
  rw [Deg.srcRegs]
  split_ifs with hcomma hnil
  · rw [splitCompress]
    obtain ⟨t, ts, hts⟩ := List.exists_cons_of_ne_nil (splitOn_ne_nil ',' (strip isSpace r))
    rw [hts]
    dsimp only
    by_cases ht : t = []
    · rw [List.filter_cons_of_neg (by simp [ht]), List.filter_cons_of_neg (by simp [ht]),
        filter_compressInner]
    · rw [List.filter_cons_of_pos (by simp [ht]), List.filter_cons_of_pos (by simp [ht]),
        filter_compressInner]
  · rw [hnil]
    rfl
  · rw [splitOn_of_notMem (mt hmem.mpr hcomma), List.filter_cons_of_pos (by simp [hnil])]
    simp

/-- If the first register is scanned, the whole list can be. -/
lemma scan_of_srcRegs {r : Text} {xs : List ℤ} (h : Deg.srcRegs r = .ok xs)
    (hhead : ∃ c ∈ (strip isSpace r).head?, c ≠ ',') : ∃ i, scan r = some i := by
  obtain ⟨c, hc, hcomma⟩ := hhead
  obtain ⟨ts, hts⟩ := splitOn_eq_cons ',' (strip isSpace r)
  have hne : (strip isSpace r).takeWhile (· ≠ ',') ≠ [] := by
    cases hw : strip isSpace r with
    | nil =>
      rw [hw] at hc
      cases hc
    | cons d w =>
      rw [hw] at hc
      obtain rfl := Option.some.inj hc
      rw [List.takeWhile_cons_of_pos (by simp [hcomma])]
      exact List.cons_ne_nil _ _
  rw [srcRegs_eq, hts, List.filter_cons_of_pos (by simpa using hne), List.mapM_cons] at h
  obtain ⟨i, hi, -⟩ := bind_eq_ok h
  have hscan := stoi_eq_ok hi
  have hstop : scan ((strip isSpace r).takeWhile (· ≠ ',')) = scan (strip isSpace r) := by
    conv_rhs => rw [← List.takeWhile_append_dropWhile (p := (· ≠ ',')) (l := strip isSpace r)]
    cases hd : (strip isSpace r).dropWhile (· ≠ ',') with
    | nil => rw [List.append_nil]
    | cons d w =>
      have hd' := List.head?_dropWhile_not (fun c => decide (c ≠ ',')) (strip isSpace r)
      rw [hd] at hd'
      obtain rfl : d = ',' := by simpa using hd'
      rw [scan_append_ends (by decide)]
  exact ⟨i, by rw [← scan_strip, ← hstop, hscan]⟩

/-- A list of numbers that is read by the parser and scanned by the constructor. -/
lemma map_scan_iff {qs : List Text} {xs ys : List ℤ}
    (hx : List.Forall₂ (fun q x => scan q = some x) qs xs)
    (hy : List.Forall₂ (fun q y => read q = some y) qs ys) :
    xs = ys ↔ ∀ q ∈ qs, SameNumber q := by
  induction hx generalizing ys with
  | nil =>
    cases hy
    simp
  | @cons q x qs xs hqx _ ih =>
    cases hy with
    | @cons _ y _ ys hqy hy =>
      have hhead : x = y ↔ SameNumber q := by
        obtain ⟨neg, first, more, hq, -⟩ := readAs_of_read hqy
        have hscan := hq.scan [] (by simp)
        rw [List.append_nil, hqx] at hscan
        rw [← sameNumber_iff hq, hqy, ← hscan, Option.some.injEq, eq_comm]
      rw [List.cons.injEq, List.forall_mem_cons, hhead, ih hy]

/-- The first character that is left after stripping. -/
lemma mem_head?_strip {p w : Text} (hw : ∀ d ∈ w.head?, isSpace d = false) {c : Char}
    (hc : c ∈ (strip isSpace (p ++ w)).head?) : c ∈ p ∨ c ∈ w.head? := by
  obtain ⟨x, y, hx, -, hr⟩ := exists_strip isSpace (p ++ w)
  obtain ⟨t, ht⟩ := List.head?_eq_some_iff.mp hc
  rw [ht, List.append_assoc, List.cons_append] at hr
  rcases List.append_eq_append_iff.mp hr with ⟨u, hxu, hwu⟩ | ⟨u, hpu, hcu⟩
  · cases u with
    | nil => exact .inr (by rw [hwu]; rfl)
    | cons d u =>
      -- a blank would be the first character of `w`
      have hd := hw d (by rw [hwu]; rfl)
      rw [hx d (by rw [hxu]; simp)] at hd
      cases hd
  · cases u with
    | nil => exact .inr (by rw [← (List.nil_append w), ← hcu]; rfl)
    | cons d u =>
      obtain rfl : c = d := (List.cons.inj hcu).1
      exact .inl (by rw [hpu]; simp)

lemma rdropWhile_append_of_last {x : Text} (hx : ∃ c ∈ x.getLast?, isSpace c = false) (z : Text) :
    (x ++ z).rdropWhile isSpace = x ++ z.rdropWhile isSpace := by
  have hrev : x.reverse.dropWhile isSpace = x.reverse := by
    apply dropWhile_eq_self
    intro d hd
    obtain ⟨c, hc, hspace⟩ := hx
    rw [List.head?_reverse, Option.mem_def.mp hc] at hd
    rwa [← Option.some.inj hd]
  rw [List.rdropWhile, List.rdropWhile, List.reverse_append, List.dropWhile_append]
  split_ifs with hempty
  · rw [List.isEmpty_iff.mp hempty, hrev]
    simp
  · simp

/-- Stripping a value with something behind it. -/
lemma strip_append_behind {a z : Text} (ha : ∀ c ∈ a, isSpace c = true) (hv : Trimmed isSpace v)
    (hne : v ≠ []) : strip isSpace (a ++ (v ++ z)) = v ++ z.rdropWhile isSpace := by
  have hlast : ∃ c ∈ (a ++ v).getLast?, isSpace c = false := by
    rw [List.getLast?_append_of_ne_nil _ hne]
    exact ⟨v.getLast hne, List.getLast?_eq_some_getLast hne,
      hv.last _ (List.getLast?_eq_some_getLast hne)⟩
  rw [strip, ← List.append_assoc, rdropWhile_append_of_last hlast, List.append_assoc,
    List.dropWhile_append_of_pos ha, dropWhile_eq_self]
  intro c hc
  rw [List.head?_append_of_ne_nil _ hne] at hc
  exact hv.head c hc

lemma trimmed_fieldValue (s : Text) : Trimmed isUnicodeSpace (fieldValue s) := trimmed_strip _ _

lemma comma_notMem_of_blank {t : Text} (ht : ∀ c ∈ t, isUnicodeSpace c = true) : ',' ∉ t :=
  fun hmem => absurd (ht _ hmem) (by decide)

/-- The parts behind the last register of a value. -/
lemma tail_splitOn_behind {b : Text} (hb : ∀ c ∈ b, isUnicodeSpace c = true) (s : Text) :
    (((b ++ beyond s).rdropWhile isSpace).splitOn ',').tail =
      ((strip isSpace (beyond s)).splitOn ',').tail := by
  rcases beyond_eq s with hnil | ⟨t, ht⟩
  · have hcomma : ',' ∉ b.rdropWhile isSpace := fun hmem =>
      comma_notMem_of_blank hb ((List.rdropWhile_prefix isSpace b).subset hmem)
    rw [hnil, List.append_nil, splitOn_of_notMem hcomma]
    rfl
  · have hlast {x : Text} : ∃ c ∈ (x ++ ['=']).getLast?, isSpace c = false :=
      ⟨'=', by simp, by decide⟩
    have hz : (b ++ '=' :: t).rdropWhile isSpace = b ++ strip isSpace ('=' :: t) := by
      have hstrip : strip isSpace ('=' :: t) = '=' :: t.rdropWhile isSpace :=
        strip_append_behind (a := []) (v := ['=']) (by simp) (by decide) (by simp)
      have hdrop := rdropWhile_append_of_last (hlast (x := b)) t
      rw [List.append_assoc, List.append_assoc] at hdrop
      rw [hstrip]
      exact hdrop
    obtain ⟨ss, u, v, ts, hss, hts, happ⟩ := splitOn_append ',' b (strip isSpace ('=' :: t))
    rw [splitOn_of_notMem (comma_notMem_of_blank hb)] at hss
    obtain ⟨rfl, -⟩ : ss = [] ∧ u = b := by
      cases ss with
      | nil => exact ⟨rfl, (List.cons.inj hss).1.symm⟩
      | cons x ss => simp at hss
    rw [ht, hz, happ, hts]
    rfl

lemma head?_behind {b : Text} (hb : ∀ c ∈ b, isUnicodeSpace c = true) (s : Text) :
    ∀ c ∈ ((b ++ beyond s).rdropWhile isSpace).head?, c.isDigit = false ∧ c ≠ ',' := by
  intro c hc
  have hmem : c ∈ (b ++ beyond s).head? := by
    obtain ⟨t, ht⟩ := List.rdropWhile_prefix isSpace (l := b ++ beyond s)
    rw [← ht, List.head?_append]
    rw [Option.mem_def.mp hc]
    rfl
  by_cases hbne : b = []
  · rw [hbne] at hmem
    obtain rfl := head?_beyond s c hmem
    decide
  · rw [List.head?_append_of_ne_nil _ hbne] at hmem
    have hblank := hb c (List.mem_of_mem_head? hmem)
    refine ⟨?_, ?_⟩
    · by_contra hdigit
      rw [isUnicodeSpace_eq_false_of_isDigit (by simpa using hdigit)] at hblank
      cases hblank
    · rintro rfl
      exact absurd hblank (by decide)

lemma ne_nil_of_read {q : Text} {t : ℤ} (h : read q = some t) : q ≠ [] := by
  rintro rfl
  cases h

lemma exists_of_mem_left {α β : Type} {R : α → β → Prop} {l : List α} {l' : List β}
    (h : List.Forall₂ R l l') {a : α} (ha : a ∈ l) : ∃ b, R a b := by
  induction h with
  | nil => cases ha
  | @cons c d l l' hcd _ ih =>
    rcases List.mem_cons.mp ha with rfl | ha
    exacts [⟨d, hcd⟩, ih ha]

/-- The registers of a value that is not empty: the last one is scanned with what stands behind it,
and what follows another comma is scanned too. -/
lemma scanned_of_srcRegs {a b : Text} {xs : List ℤ} (ha : ∀ c ∈ a, isUnicodeSpace c = true)
    (hb : ∀ c ∈ b, isUnicodeSpace c = true)
    (hs : after '=' s = a ++ (fieldValue s ++ (b ++ beyond s)))
    (hx : Deg.srcRegs (after '=' s) = .ok xs) (hv : fieldValue s ≠ [])
    (hread : ∀ q ∈ (fieldValue s).splitOn ',', ∃ t, read q = some t) :
    ∃ xs' extra, List.Forall₂ (fun q x => scan q = some x) ((fieldValue s).splitOn ',') xs' ∧
      xs = xs' ++ extra ∧ extra.length =
        (((strip isSpace (beyond s)).splitOn ',').tail.filter (· ≠ [])).length := by
  have htrim := (trimmed_fieldValue s).mono fun _ => isUnicodeSpace_of_isSpace
  have hqne (q : Text) (hq : q ∈ (fieldValue s).splitOn ',') : q ≠ [] := by
    obtain ⟨t, ht⟩ := hread q hq
    exact ne_nil_of_read ht
  -- the blanks before the value are blanks of both kinds, since the first register is scanned
  have hhead : ∃ c ∈ (strip isSpace (after '=' s)).head?, c ≠ ',' := by
    obtain ⟨d, w, hdw⟩ := List.exists_cons_of_ne_nil hv
    have hd : d ≠ ',' := by
      rintro rfl
      have hsplit : (fieldValue s).splitOn ',' = [] :: w.splitOn ',' := by
        rw [hdw]
        exact splitOn_append_sep (k := []) List.not_mem_nil w
      exact hqne [] (by rw [hsplit]; exact List.mem_cons_self) rfl
    have hw : ∀ c ∈ (fieldValue s ++ (b ++ beyond s)).head?, isSpace c = false := by
      intro c hc
      rw [List.head?_append_of_ne_nil _ hv] at hc
      exact htrim.head c hc
    have hstrip : strip isSpace (after '=' s) ≠ [] := by
      intro hnil
      obtain ⟨x, y, hx, hy, hxy⟩ := exists_strip isSpace (after '=' s)
      have hd' : isSpace d = false := htrim.head d (by rw [hdw]; rfl)
      have hmem : d ∈ after '=' s := by
        rw [hs, hdw]
        simp
      rw [hxy, hnil, List.append_nil, List.mem_append] at hmem
      rcases hmem with hmem | hmem
      · rw [hx d hmem] at hd'
        cases hd'
      · rw [hy d hmem] at hd'
        cases hd'
    obtain ⟨c, t, hct⟩ := List.exists_cons_of_ne_nil hstrip
    have hc : (strip isSpace (after '=' s)).head? = some c := by rw [hct, List.head?_cons]
    refine ⟨c, hc, ?_⟩
    rw [hs] at hc
    rcases mem_head?_strip hw hc with hc | hc
    · rintro rfl
      exact comma_notMem_of_blank ha hc
    · rw [List.head?_append_of_ne_nil _ hv, hdw] at hc
      obtain rfl := Option.some.inj hc
      exact hd
  obtain ⟨i, hi⟩ := scan_of_srcRegs hx hhead
  rw [hs] at hi
  have hspace := isSpace_of_scan ha hi
  rw [srcRegs_eq, hs, strip_append_behind hspace htrim hv] at hx
  obtain ⟨ss, u, w, ts, hss, hts, happ⟩ :=
    splitOn_append ',' (fieldValue s) ((b ++ beyond s).rdropWhile isSpace)
  have hts' : ts = ((strip isSpace (beyond s)).splitOn ',').tail := by
    rw [← tail_splitOn_behind hb, hts]
    rfl
  have hmem (q : Text) (hq : q ∈ ss ++ [u]) : q ≠ [] := hqne q (hss ▸ hq)
  have hfilter : ((ss ++ (u ++ w) :: ts).filter (· ≠ [])) =
      (ss ++ [u ++ w]) ++ ts.filter (· ≠ []) := by
    have hself : (ss ++ [u ++ w]).filter (· ≠ []) = ss ++ [u ++ w] := by
      rw [List.filter_eq_self]
      intro q hq
      refine decide_eq_true ?_
      rcases List.mem_append.mp hq with hq | hq
      · exact hmem q (List.mem_append_left _ hq)
      · obtain rfl := List.mem_singleton.mp hq
        exact fun hnil => hmem u (by simp) (List.append_eq_nil_iff.mp hnil).1
    rw [show ss ++ (u ++ w) :: ts = (ss ++ [u ++ w]) ++ ts by simp, List.filter_append, hself]
  rw [happ, hfilter, List.mapM_append] at hx
  obtain ⟨xs', hxs', hx⟩ := bind_eq_ok hx
  obtain ⟨extra, hextra, hx⟩ := bind_eq_ok hx
  cases hx
  rw [List.mapM_append] at hxs'
  obtain ⟨xs, hxs, hxs'⟩ := bind_eq_ok hxs'
  obtain ⟨last, hlast, hxs'⟩ := bind_eq_ok hxs'
  cases hxs'
  refine ⟨xs ++ last, extra, ?_, rfl, ?_⟩
  · have hall := (forall₂_of_mapM_eq_ok hlast).imp fun _ _ => stoi_eq_ok
    rw [hss]
    refine List.rel_append ((forall₂_of_mapM_eq_ok hxs).imp fun _ _ => stoi_eq_ok) ?_
    -- what stands behind the last register is not scanned
    obtain ⟨x, rfl⟩ : ∃ x, last = [x] := List.length_eq_one_iff.mp hall.length_eq.symm
    obtain ⟨hx, -⟩ := List.forall₂_cons.mp hall
    obtain ⟨t, ht⟩ := hread u (by rw [hss]; simp)
    obtain ⟨neg, first, more, hu, -⟩ := readAs_of_read ht
    have hw : ∀ c ∈ w.head?, c.isDigit = false := by
      intro c hc
      refine (head?_behind hb s c ?_).1
      have hjoin := join_splitOn ',' ((b ++ beyond s).rdropWhile isSpace)
      rw [hts, join_eq_flatten] at hjoin
      rw [← hjoin, List.head?_append, Option.mem_def.mp hc]
      rfl
    rw [hu.scan w hw] at hx
    have hnil := hu.scan [] (by simp)
    rw [List.append_nil, hx] at hnil
    exact .cons hnil .nil
  · rw [← hts', (forall₂_of_mapM_eq_ok hextra).length_eq]

/-- The source registers agree. -/
lemma src_eq_iff {xs ys : List ℤ} (hx : Deg.setSrcReg s = .ok xs)
    (hy : Core.parseSrc (fieldValue s) = .ok ys) : xs = ys ↔ SameRegisters s := by
  obtain ⟨a, b, ha, hb, hs⟩ := exists_after s
  rw [Deg.setSrcReg] at hx
  rw [Core.parseSrc] at hy
  by_cases hv : fieldValue s = []
  · -- the parser records a register that is not there
    rw [if_pos hv] at hy
    cases hy
    refine iff_of_false ?_ fun h => h.ne_nil hv
    rintro rfl
    have hab : ∀ c ∈ a ++ b, isUnicodeSpace c = true := by
      intro c hc
      rcases List.mem_append.mp hc with hc | hc
      exacts [ha c hc, hb c hc]
    have hsplit : after '=' s = (a ++ b) ++ beyond s := by
      rw [hs, hv, List.nil_append, List.append_assoc]
    cases hhead : (strip isSpace (after '=' s)).head? with
    | none =>
      rw [srcRegs_eq, List.head?_eq_none_iff.mp hhead] at hx
      cases hx
    | some c =>
      have hc := hhead
      rw [hsplit] at hc
      have hw : ∀ d ∈ (beyond s).head?, isSpace d = false := by
        intro d hd
        obtain rfl := head?_beyond s d hd
        decide
      have hne : c ≠ ',' := by
        rcases mem_head?_strip hw hc with hc | hc
        · rintro rfl
          exact comma_notMem_of_blank hab hc
        · rw [head?_beyond s c hc]
          decide
      obtain ⟨i, hi⟩ := scan_of_srcRegs hx ⟨c, hhead, hne⟩
      cases (scan_eq_none hv).symm.trans hi
  · rw [if_neg hv] at hy
    have hread : List.Forall₂ (fun q y => read q = some y) ((fieldValue s).splitOn ',') ys :=
      (forall₂_of_mapM_eq_ok hy).imp fun _ _ => int_eq_ok
    obtain ⟨xs', extra, hscan, rfl, hlen⟩ := scanned_of_srcRegs ha hb hs hx hv
      fun q hq => exists_of_mem_left hread hq
    have hiff := map_scan_iff hscan hread
    have hextra : extra = [] ↔ ∀ q ∈ ((strip isSpace (beyond s)).splitOn ',').tail, q = [] := by
      rw [← List.length_eq_zero_iff, hlen, List.length_eq_zero_iff, List.filter_eq_nil_iff]
      simp
    constructor
    · intro heq
      have hcount := congrArg List.length heq
      rw [List.length_append, ← hread.length_eq, ← hscan.length_eq] at hcount
      have hnil : extra = [] := List.length_eq_zero_iff.mp (by omega)
      rw [hnil, List.append_nil] at heq
      exact ⟨hv, hiff.mp heq, hextra.mp hnil⟩
    · intro h
      rw [hextra.mpr h.behind, List.append_nil]
      exact hiff.mpr h.plain

end ArchExplorer.Trace
