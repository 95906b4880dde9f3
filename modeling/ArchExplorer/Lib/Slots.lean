import Mathlib.Tactic
import ArchExplorer.Lib.Regex

/-!
# Texts with slots

The matches of several expressions in a text are its slots. Where no two of them overlap, a text is
a sequence of characters and slots, and replacing the matches of one of the expressions changes the
contents of its slots and nothing else.
-/

namespace ArchExplorer.Lib

namespace Regex

variable {r r' : Regex} {p : Char → Bool} {s t : Text}

/-- The expression matches the text. -/
def Accepts (r : Regex) (s : Text) : Prop := ∃ g, Matches r s g

lemma accepts_text_iff : (text t).Accepts s ↔ s = t := by
  constructor
  · rintro ⟨g, h⟩
    exact (matches_text_iff.mp h).1
  · intro h
    exact ⟨[], matches_text_iff.mpr ⟨h, rfl⟩⟩

lemma accepts_plus_iff : (plus p).Accepts s ↔ s ≠ [] ∧ ∀ c ∈ s, p c = true := by
  constructor
  · rintro ⟨g, h⟩
    obtain ⟨hne, hall, -⟩ := matches_plus_iff.mp h
    exact ⟨hne, hall⟩
  · rintro ⟨hne, hall⟩
    exact ⟨[], matches_plus_iff.mpr ⟨hne, hall, rfl⟩⟩

lemma accepts_cls_iff : (cls p).Accepts s ↔ ∃ c, p c = true ∧ s = [c] := by
  constructor
  · rintro ⟨g, h⟩
    cases h with
    | cls hc => exact ⟨_, hc, rfl⟩
  · rintro ⟨c, hc, rfl⟩
    exact ⟨[], .cls hc⟩

lemma accepts_seq_iff : (seq r r').Accepts s ↔ ∃ a b, r.Accepts a ∧ r'.Accepts b ∧ s = a ++ b := by
  constructor
  · rintro ⟨g, h⟩
    cases h with
    | seq h h' => exact ⟨_, _, ⟨_, h⟩, ⟨_, h'⟩, rfl⟩
  · rintro ⟨a, b, ⟨g, h⟩, ⟨g', h'⟩, rfl⟩
    exact ⟨_, .seq h h'⟩

end Regex

/-- A character, or a slot of the kind `i` with its content. -/
inductive Segment (ι : Type) where
  | char (c : Char)
  | slot (i : ι) (content : Text)

namespace Segment

variable {ι : Type}

def text : Segment ι → Text
  | char c      => [c]
  | slot _ cont => cont

def render (l : List (Segment ι)) : Text := (l.map text).flatten

@[simp] lemma render_cons (a : Segment ι) (l : List (Segment ι)) :
    render (a :: l) = a.text ++ render l := rfl

variable [DecidableEq ι]

/-- Fill a slot of the kind `i`. -/
def fill (i : ι) (new : Text) : Segment ι → Segment ι
  | char c      => char c
  | slot j cont => if j = i then slot j new else slot j cont

/-- Fill the slots of several kinds one after the other. -/
def fillAll (edits : List (ι × Text)) (a : Segment ι) : Segment ι :=
  edits.foldl (fun a e => a.fill e.1 e.2) a

/-- The contents of the slots of the kind `i`. -/
def contents (i : ι) (l : List (Segment ι)) : List Text :=
  l.filterMap fun
    | char _      => none
    | slot j cont => if j = i then some cont else none

/-! ### Filling -/

variable {i j : ι} {new cont cont' : Text} {edits edits' : List (ι × Text)}

@[simp] lemma fillAll_cons (e : ι × Text) (a : Segment ι) :
    fillAll (e :: edits) a = fillAll edits (a.fill e.1 e.2) := rfl

@[simp] lemma fillAll_char (c : Char) : fillAll edits (char c) = char c := by
  induction edits with
  | nil => rfl
  | cons e edits ih => rw [fillAll_cons, fill, ih]

lemma fillAll_slot_of_notMem (h : j ∉ edits.map Prod.fst) :
    fillAll edits (slot j cont) = slot j cont := by
  induction edits with
  | nil => rfl
  | cons e edits ih =>
    rw [List.map_cons, List.mem_cons, not_or] at h
    rw [fillAll_cons, fill, if_neg h.1, ih h.2]

/-- A slot that is filled forgets its content. -/
lemma fillAll_slot_of_mem (h : j ∈ edits.map Prod.fst) :
    fillAll edits (slot j cont) = fillAll edits (slot j cont') := by
  induction edits generalizing cont cont' with
  | nil => cases h
  | cons e edits ih =>
    rw [fillAll_cons, fillAll_cons, fill, fill]
    split_ifs with he
    · rfl
    · rw [List.map_cons, List.mem_cons] at h
      exact ih (h.resolve_left he)

/-- If no kind is filled twice, a slot holds what its kind is filled with. -/
lemma fillAll_slot (hnodup : (edits.map Prod.fst).Nodup) (h : (j, new) ∈ edits) :
    fillAll edits (slot j cont) = slot j new := by
  induction edits generalizing cont with
  | nil => cases h
  | cons e edits ih =>
    rw [List.map_cons, List.nodup_cons] at hnodup
    rcases List.mem_cons.mp h with rfl | h
    · rw [fillAll_cons, fill, if_pos rfl, fillAll_slot_of_notMem hnodup.1]
    · have hne : j ≠ e.1 := by
        rintro rfl
        exact hnodup.1 (List.mem_map.mpr ⟨_, h, rfl⟩)
      rw [fillAll_cons, fill, if_neg hne, ih hnodup.2 h]

lemma exists_fillAll_slot (edits : List (ι × Text)) (j : ι) (cont : Text) :
    ∃ cont', fillAll edits (slot j cont) = slot j cont' ∧
      (cont' = cont ∨ (j, cont') ∈ edits) := by
  induction edits generalizing cont with
  | nil => exact ⟨cont, rfl, .inl rfl⟩
  | cons e edits ih =>
    rw [fillAll_cons, fill]
    split_ifs with he
    · obtain ⟨cont', heq, h⟩ := ih e.2
      refine ⟨cont', heq, .inr ?_⟩
      rcases h with rfl | h
      · exact List.mem_cons.mpr (.inl (Prod.ext he rfl))
      · exact List.mem_cons_of_mem _ h
    · obtain ⟨cont', heq, h⟩ := ih cont
      exact ⟨cont', heq, h.imp_right (List.mem_cons_of_mem _)⟩

/-- What was filled before is lost where everything that was filled is filled again. -/
lemma fillAll_fillAll (h : ∀ j ∈ edits.map Prod.fst, j ∈ edits'.map Prod.fst) (a : Segment ι) :
    fillAll edits' (fillAll edits a) = fillAll edits' a := by
  cases a with
  | char c => rw [fillAll_char]
  | slot j cont =>
    by_cases hj : j ∈ edits.map Prod.fst
    · obtain ⟨cont', heq, -⟩ := exists_fillAll_slot edits j cont
      rw [heq]
      exact fillAll_slot_of_mem (h j hj)
    · rw [fillAll_slot_of_notMem hj]

lemma contents_map_fillAll_of_mem (hnodup : (edits.map Prod.fst).Nodup) (h : (i, new) ∈ edits)
    (l : List (Segment ι)) :
    contents i (l.map (fillAll edits)) = List.replicate (contents i l).length new := by
  induction l with
  | nil => rfl
  | cons a l ih =>
    cases a with
    | char c => simpa [contents] using ih
    | slot j cont =>
      by_cases hj : j = i
      · subst hj
        rw [List.map_cons, fillAll_slot hnodup h]
        simpa [contents, List.replicate_succ] using ih
      · obtain ⟨cont', heq, -⟩ := exists_fillAll_slot edits j cont
        rw [List.map_cons, heq]
        simpa [contents, hj] using ih

lemma contents_map_fillAll_of_notMem (h : i ∉ edits.map Prod.fst) (l : List (Segment ι)) :
    contents i (l.map (fillAll edits)) = contents i l := by
  induction l with
  | nil => rfl
  | cons a l ih =>
    cases a with
    | char c => simpa [contents] using ih
    | slot j cont =>
      by_cases hj : j = i
      · subst hj
        rw [List.map_cons, fillAll_slot_of_notMem h]
        simpa [contents] using ih
      · obtain ⟨cont', heq, -⟩ := exists_fillAll_slot edits j cont
        rw [List.map_cons, heq]
        simpa [contents, hj] using ih

end Segment

/-! ### Expressions whose matches do not overlap -/

namespace Regex

open Segment

variable {ι : Type} {r : ι → Regex} {i j : ι} {s u m new : Text} {l : List (Segment ι)}

/-- No two matches of the expressions overlap, in no text. -/
structure Apart (r : ι → Regex) : Prop where
  nonempty : ∀ {i m}, (r i).Accepts m → m ≠ []
  same : ∀ {i j m m' y y'}, (r i).Accepts m → (r j).Accepts m' → m ++ y = m' ++ y' → i = j ∧ m = m'
  alone : ∀ {i j m x m' y y'}, (r i).Accepts m → (r j).Accepts m' → x ≠ [] →
    m ++ y = x ++ (m' ++ y') → m.length ≤ x.length

/-- The text consists of these characters and slots. -/
inductive Parsed (r : ι → Regex) : Text → List (Segment ι) → Prop
  | nil : Parsed r [] []
  | char {c : Char} {s : Text} {l : List (Segment ι)}
      (hnone : ∀ i u, (r i).Accepts u → ¬u <+: c :: s) (h : Parsed r s l) :
      Parsed r (c :: s) (.char c :: l)
  | slot {i : ι} {m s : Text} {l : List (Segment ι)} (hm : (r i).Accepts m) (h : Parsed r s l) :
      Parsed r (m ++ s) (.slot i m :: l)

lemma Apart.exists_parsed (hr : Apart r) (s : Text) : ∃ l, Parsed r s l := by
  induction hlen : s.length using Nat.strong_induction_on generalizing s with
  | _ n ih =>
    subst hlen
    by_cases h : ∃ i u, (r i).Accepts u ∧ u <+: s
    · obtain ⟨i, u, hu, t, rfl⟩ := h
      have hpos := List.length_pos_iff.mpr (hr.nonempty hu)
      obtain ⟨l, hl⟩ := ih t.length (by rw [List.length_append]; omega) t rfl
      exact ⟨_, .slot hu hl⟩
    · cases s with
      | nil => exact ⟨_, .nil⟩
      | cons c s =>
        obtain ⟨l, hl⟩ := ih s.length (by simp) s rfl
        refine ⟨_, .char (fun i u hu hpre => h ⟨i, u, hu, hpre⟩) hl⟩

namespace Parsed

lemma render_eq (h : Parsed r s l) : render l = s := by
  induction h with
  | nil => rfl
  | char _ _ ih => rw [render_cons, ih]; rfl
  | slot _ _ ih => rw [render_cons, ih]; rfl

variable [DecidableEq ι] {edits : List (ι × Text)}

/-- Filling the slots gives no match that begins before them. -/
lemma prefix_of_fillAll (hr : Apart r) (h : Parsed r s l)
    (hedits : ∀ e ∈ edits, (r e.1).Accepts e.2) {w : Text} (hw : w ≠ []) (hu : (r i).Accepts u)
    (hpre : u <+: w ++ render (l.map (fillAll edits))) : u <+: w ++ s := by
  induction h generalizing w with
  | nil => exact hpre
  | @char c s l _ _ ih =>
    have hcons (t : Text) : w ++ c :: t = (w ++ [c]) ++ t := by simp
    rw [List.map_cons, fillAll_char, render_cons] at hpre
    rw [hcons]
    exact ih (by simp) (hcons _ ▸ hpre)
  | @slot j m s l hm _ _ =>
    obtain ⟨cont, heq, hcont⟩ := exists_fillAll_slot edits j m
    have hacc : (r j).Accepts cont := by
      rcases hcont with rfl | hcont
      · exact hm
      · exact hedits _ hcont
    rw [List.map_cons, heq, render_cons] at hpre
    obtain ⟨y, hy⟩ := hpre
    have hle := hr.alone hu hacc hw hy
    have hpre : u <+: w := List.prefix_of_prefix_length_le ⟨y, hy⟩ (List.prefix_append _ _) hle
    exact hpre.trans (List.prefix_append _ _)

/-- Filling the slots with texts of their kind fills the slots of the text. -/
lemma fillAll (hr : Apart r) (h : Parsed r s l) (hedits : ∀ e ∈ edits, (r e.1).Accepts e.2) :
    Parsed r (render (l.map (fillAll edits))) (l.map (fillAll edits)) := by
  induction h with
  | nil => exact .nil
  | @char c s l hnone h ih =>
    rw [List.map_cons, fillAll_char, render_cons]
    refine .char (fun i u hu hpre => hnone i u hu ?_) ih
    exact h.prefix_of_fillAll hr hedits (List.cons_ne_nil c []) hu hpre
  | @slot j m s l hm _ ih =>
    obtain ⟨cont, heq, hcont⟩ := exists_fillAll_slot edits j m
    rw [List.map_cons, heq, render_cons]
    refine .slot ?_ ih
    rcases hcont with rfl | hcont
    · exact hm
    · exact hedits _ hcont

end Parsed

/-! ### Replacing and finding the matches -/

lemma subFrom_append (r : Regex) (new a s : Text) :
    r.subFrom new a.length (a ++ s) = r.sub new s := by
  induction a with
  | nil => cases s <;> rfl
  | cons c a ih => exact ih

lemma findallFrom_append (r : Regex) (a s : Text) :
    r.findallFrom a.length (a ++ s) = r.findall s := by
  induction a with
  | nil => cases s <;> rfl
  | cons c a ih => exact ih

section Steps

variable {r : Regex} {c : Char} {m : Match}

lemma sub_cons_of_none (h : (r.ways (c :: s)).head? = none) :
    r.sub new (c :: s) = c :: r.sub new s := by
  simp only [sub, subFrom, h]

lemma findall_cons_of_none (h : (r.ways (c :: s)).head? = none) :
    r.findall (c :: s) = r.findall s := by
  simp only [findall, findallFrom, h]

lemma sub_append_of_some {a : Text} (h : (r.ways (c :: a ++ s)).head? = some m)
    (hm : m.consumed = c :: a) : r.sub new (c :: a ++ s) = new ++ r.sub new s := by
  rw [List.cons_append] at h ⊢
  simp only [sub, subFrom, h, hm, List.length_cons, Nat.add_sub_cancel]
  exact congrArg (new ++ ·) (subFrom_append r new a s)

lemma findall_append_of_some {a : Text} (h : (r.ways (c :: a ++ s)).head? = some m)
    (hm : m.consumed = c :: a) : r.findall (c :: a ++ s) = m :: r.findall s := by
  rw [List.cons_append] at h ⊢
  simp only [findall, findallFrom, h, hm, List.length_cons, Nat.add_sub_cancel]
  exact congrArg (m :: ·) (findallFrom_append r a s)

/-- A text without a match is left as it is. -/
lemma sub_eq_self (h : ∀ u, r.Accepts u → ¬u <:+: s) : r.sub new s = s := by
  induction s with
  | nil => rfl
  | cons c s ih =>
    have hnone : (r.ways (c :: s)).head? = none :=
      head?_ways_eq_none_iff.mpr fun u g hu hpre => h u ⟨g, hu⟩ hpre.isInfix
    rw [sub_cons_of_none hnone, ih fun u hu hinfix => h u hu (List.infix_cons hinfix)]

end Steps

/-- The match at the beginning of a slot is its content. -/
lemma Apart.head?_ways (hr : Apart r) (hm : (r i).Accepts m) (s : Text) :
    ∃ m', ((r i).ways (m ++ s)).head? = some m' ∧ m'.consumed = m := by
  cases hway : ((r i).ways (m ++ s)).head? with
  | none =>
    obtain ⟨g, hg⟩ := hm
    exact absurd (List.prefix_append m s) (head?_ways_eq_none_iff.mp hway m g hg)
  | some m' =>
    have hmem := List.mem_of_head? hway
    refine ⟨m', rfl, ?_⟩
    exact (hr.same ⟨_, ways_sound hmem⟩ hm (ways_append hmem)).2

/-- Inside of a slot of another kind there is no match. -/
lemma Apart.head?_ways_of_ne (hr : Apart r) (hij : j ≠ i) {a b : Text} (hm : (r j).Accepts (a ++ b))
    (hb : b ≠ []) (s : Text) : ((r i).ways (b ++ s)).head? = none := by
  rw [head?_ways_eq_none_iff]
  rintro u g hu ⟨y, hy⟩
  have hpos := List.length_pos_iff.mpr hb
  by_cases ha : a = []
  · subst ha
    exact hij (hr.same hm ⟨g, hu⟩ hy.symm).1
  · have happ : a ++ b ++ s = a ++ (u ++ y) := by rw [List.append_assoc, hy]
    have hle := hr.alone hm ⟨g, hu⟩ ha happ
    rw [List.length_append] at hle
    omega

lemma Apart.sub_append_of_ne (hr : Apart r) (hij : j ≠ i) {a b : Text}
    (hm : (r j).Accepts (a ++ b)) (s : Text) : (r i).sub new (b ++ s) = b ++ (r i).sub new s := by
  induction b generalizing a with
  | nil => rfl
  | cons c b ih =>
    have hnone : ((r i).ways (c :: (b ++ s))).head? = none :=
      hr.head?_ways_of_ne hij hm (List.cons_ne_nil c b) s
    rw [List.append_cons] at hm
    rw [List.cons_append, List.cons_append, sub_cons_of_none hnone, ih hm]

lemma Apart.findall_append_of_ne (hr : Apart r) (hij : j ≠ i) {a b : Text}
    (hm : (r j).Accepts (a ++ b)) (s : Text) : (r i).findall (b ++ s) = (r i).findall s := by
  induction b generalizing a with
  | nil => rfl
  | cons c b ih =>
    have hnone : ((r i).ways (c :: (b ++ s))).head? = none :=
      hr.head?_ways_of_ne hij hm (List.cons_ne_nil c b) s
    rw [List.append_cons] at hm
    rw [List.cons_append, findall_cons_of_none hnone, ih hm]

variable [DecidableEq ι] {edits edits' : List (ι × Text)}

/-- Replacing the matches of an expression fills its slots. -/
lemma Parsed.sub_eq (hr : Apart r) (h : Parsed r s l) :
    (r i).sub new s = render (l.map (Segment.fill i new)) := by
  induction h with
  | nil => rfl
  | @char c s l hnone _ ih =>
    have hway : ((r i).ways (c :: s)).head? = none :=
      head?_ways_eq_none_iff.mpr fun u g hu => hnone i u ⟨g, hu⟩
    rw [List.map_cons, render_cons, ← ih, sub_cons_of_none hway]
    rfl
  | @slot j m s l hm _ ih =>
    rw [List.map_cons, render_cons, ← ih, Segment.fill]
    split_ifs with hj
    · subst hj
      obtain ⟨m', hway, hcons⟩ := hr.head?_ways hm s
      cases m with
      | nil => exact absurd rfl (hr.nonempty hm)
      | cons c m => exact sub_append_of_some hway hcons
    · exact hr.sub_append_of_ne hj (a := []) hm s

/-- The matches of an expression are the contents of its slots. -/
lemma Parsed.findall_eq (hr : Apart r) (h : Parsed r s l) :
    ((r i).findall s).map Match.consumed = contents i l := by
  induction h with
  | nil => rfl
  | @char c s l hnone _ ih =>
    have hway : ((r i).ways (c :: s)).head? = none :=
      head?_ways_eq_none_iff.mpr fun u g hu => hnone i u ⟨g, hu⟩
    rw [findall_cons_of_none hway]
    exact ih
  | @slot j m s l hm _ ih =>
    by_cases hj : j = i
    · subst hj
      obtain ⟨m', hway, hcons⟩ := hr.head?_ways hm s
      cases m with
      | nil => exact absurd rfl (hr.nonempty hm)
      | cons c m =>
        rw [findall_append_of_some hway hcons, List.map_cons, hcons, ih]
        simp [contents]
    · rw [hr.findall_append_of_ne hj (a := []) hm s, ih]
      simp [contents, hj]

/-- Replace the matches of several expressions one after the other. -/
def subAll (r : ι → Regex) (edits : List (ι × Text)) (s : Text) : Text :=
  edits.foldl (fun s e => (r e.1).sub e.2 s) s

lemma Parsed.subAll (hr : Apart r) (h : Parsed r s l) (hedits : ∀ e ∈ edits, (r e.1).Accepts e.2) :
    Parsed r (subAll r edits s) (l.map (Segment.fillAll edits)) := by
  induction edits generalizing s l with
  | nil =>
    have hid : l.map (Segment.fillAll []) = l := List.map_id l
    rw [hid]
    exact h
  | cons e edits ih =>
    obtain ⟨he, hedits⟩ := List.forall_mem_cons.mp hedits
    have hone : Parsed r (render (l.map (Segment.fillAll [e]))) (l.map (Segment.fillAll [e])) :=
      h.fillAll hr (by simpa using he)
    have hfill : l.map (Segment.fillAll [e]) = l.map (Segment.fill e.1 e.2) := rfl
    rw [hfill, ← h.sub_eq hr] at hone
    have hrest := ih hone hedits
    rw [List.map_map] at hrest
    exact hrest

/-- What was replaced before is lost where everything that was replaced is replaced again. -/
lemma Apart.subAll_subAll (hr : Apart r) (hedits : ∀ e ∈ edits, (r e.1).Accepts e.2)
    (hedits' : ∀ e ∈ edits', (r e.1).Accepts e.2)
    (hkinds : ∀ i ∈ edits.map Prod.fst, i ∈ edits'.map Prod.fst) (s : Text) :
    subAll r edits' (subAll r edits s) = subAll r edits' s := by
  obtain ⟨l, hl⟩ := hr.exists_parsed s
  have htwice := ((hl.subAll hr hedits).subAll hr hedits').render_eq
  have honce := (hl.subAll hr hedits').render_eq
  rw [← htwice, ← honce, List.map_map]
  congr 1
  apply List.map_congr_left
  intro a _
  exact fillAll_fillAll hkinds a

/-- The matches of an expression that was replaced. -/
lemma Apart.findall_subAll_of_mem (hr : Apart r) (hedits : ∀ e ∈ edits, (r e.1).Accepts e.2)
    (hnodup : (edits.map Prod.fst).Nodup) (h : (i, new) ∈ edits) (s : Text) :
    ((r i).findall (subAll r edits s)).map Match.consumed =
      List.replicate ((r i).findall s).length new := by
  obtain ⟨l, hl⟩ := hr.exists_parsed s
  rw [(hl.subAll hr hedits).findall_eq hr, contents_map_fillAll_of_mem hnodup h, ← hl.findall_eq hr,
    List.length_map]

/-- The matches of an expression that was not replaced. -/
lemma Apart.findall_subAll_of_notMem (hr : Apart r) (hedits : ∀ e ∈ edits, (r e.1).Accepts e.2)
    (h : i ∉ edits.map Prod.fst) (s : Text) :
    ((r i).findall (subAll r edits s)).map Match.consumed =
      ((r i).findall s).map Match.consumed := by
  obtain ⟨l, hl⟩ := hr.exists_parsed s
  rw [(hl.subAll hr hedits).findall_eq hr, contents_map_fillAll_of_notMem h, hl.findall_eq hr]

/-! ### Blocks -/

/-- A header and as many characters of a class as there are behind it. -/
def block (header : Text) (p : Char → Bool) : Regex := seq (text header) (star p)

section Block

variable {header body new' w t : Text} {p : Char → Bool} {e : Char}

lemma head?_ways_block (header : Text) (p : Char → Bool) (t : Text) :
    ((block header p).ways (header ++ t)).head? =
      some ⟨header ++ t.takeWhile p, t.dropWhile p, []⟩ := by
  rw [block, ways, ways_text_append, List.flatMap_cons, List.flatMap_nil, List.append_nil,
    List.head?_map]
  simp only [ways, head?_starMatches]
  rfl

lemma head?_ways_block_of_not (h : ¬header <+: s) : ((block header p).ways s).head? = none := by
  rw [head?_ways_eq_none_iff]
  intro u g hu hpre
  obtain ⟨a, b, ha, -, rfl⟩ := accepts_seq_iff.mp ⟨g, hu⟩
  obtain rfl := accepts_text_iff.mp ha
  exact h ((List.prefix_append _ _).trans hpre)

lemma sub_block_append (hne : header ≠ []) (t : Text) :
    (block header p).sub new (header ++ t) = new ++ (block header p).sub new (t.dropWhile p) := by
  obtain ⟨c, a, rfl⟩ := List.exists_cons_of_ne_nil hne
  have hway := head?_ways_block (c :: a) p t
  have hcut : c :: a ++ t = c :: (a ++ t.takeWhile p) ++ t.dropWhile p := by
    simp [List.takeWhile_append_dropWhile]
  rw [hcut] at hway ⊢
  exact sub_append_of_some hway rfl

lemma findall_block_append (hne : header ≠ []) (t : Text) :
    ((block header p).findall (header ++ t)).map Match.consumed =
      (header ++ t.takeWhile p) ::
        ((block header p).findall (t.dropWhile p)).map Match.consumed := by
  obtain ⟨c, a, rfl⟩ := List.exists_cons_of_ne_nil hne
  have hway := head?_ways_block (c :: a) p t
  have hcut : c :: a ++ t = c :: (a ++ t.takeWhile p) ++ t.dropWhile p := by
    simp [List.takeWhile_append_dropWhile]
  rw [hcut] at hway ⊢
  rw [findall_append_of_some hway rfl, List.map_cons]

/-- The induction along the blocks of a text: behind a block is a text that does not go on with the
class. -/
lemma block_induction {motive : Text → Prop} (header : Text) (p : Char → Bool) (hne : header ≠ [])
    (nil : motive []) (char : ∀ c s, ¬header <+: c :: s → motive s → motive (c :: s))
    (block : ∀ t, motive (t.dropWhile p) → motive (header ++ t)) (s : Text) : motive s := by
  induction hlen : s.length using Nat.strong_induction_on generalizing s with
  | _ n ih =>
    subst hlen
    by_cases h : header <+: s
    · obtain ⟨t, rfl⟩ := h
      have hpos := List.length_pos_iff.mpr hne
      have hdrop := (List.dropWhile_suffix p (l := t)).length_le
      refine block t (ih _ ?_ _ rfl)
      rw [List.length_append]
      omega
    · cases s with
      | nil => exact nil
      | cons c s => exact char c s h (ih _ (by simp) s rfl)

/-- Where a block is replaced by a text with another first character, no header arises. -/
lemma prefix_of_prefix_sub (hne : header ≠ []) (he : e ∉ w)
    (h : w <+: (block header p).sub (e :: new) s) : w <+: s := by
  induction s using block_induction header p hne generalizing w with
  | nil => exact h
  | char c s hpre ih =>
    rw [sub_cons_of_none (head?_ways_block_of_not hpre)] at h
    cases w with
    | nil => exact List.nil_prefix
    | cons d w =>
      obtain ⟨rfl, hw⟩ := List.cons_prefix_cons.mp h
      rw [List.mem_cons, not_or] at he
      exact List.cons_prefix_cons.mpr ⟨rfl, ih he.2 hw⟩
  | block t _ =>
    rw [sub_block_append hne, List.cons_append] at h
    cases w with
    | nil => exact List.nil_prefix
    | cons d w =>
      obtain ⟨rfl, -⟩ := List.cons_prefix_cons.mp h
      simp at he

lemma not_header_prefix_cons (hne : header ≠ []) (he : e ∉ header) (u : Text) :
    ¬header <+: e :: u := by
  obtain ⟨d, a, rfl⟩ := List.exists_cons_of_ne_nil hne
  rw [List.cons_prefix_cons]
  rintro ⟨rfl, -⟩
  simp at he

lemma not_header_prefix_sub {c : Char} (hne : header ≠ []) (he : e ∉ header)
    (hpre : ¬header <+: c :: s) (new : Text) :
    ¬header <+: c :: (block header p).sub (e :: new) s := by
  intro h
  rw [← sub_cons_of_none (head?_ways_block_of_not hpre)] at h
  exact hpre (prefix_of_prefix_sub hne he h)

/-- A text that does not go on with the class does not do so after the replacement. -/
lemma takeWhile_sub_dropWhile (hne : header ≠ []) (hhead : ∀ c ∈ header.head?, p c = true)
    (new t : Text) : ((block header p).sub new (t.dropWhile p)).takeWhile p = [] := by
  cases hdrop : t.dropWhile p with
  | nil => rfl
  | cons c s =>
    have hc : ¬p c = true := by
      have hhead := List.head?_dropWhile_not p t
      rw [hdrop] at hhead
      simpa using hhead
    have hpre : ¬header <+: c :: s := by
      intro hpre
      obtain ⟨d, a, rfl⟩ := List.exists_cons_of_ne_nil hne
      obtain ⟨rfl, -⟩ := List.cons_prefix_cons.mp hpre
      exact hc (hhead d rfl)
    rw [sub_cons_of_none (head?_ways_block_of_not hpre), List.takeWhile_cons_of_neg hc]

/-- What the class goes on with behind a new block is the body of the block. -/
lemma takeWhile_body (hne : header ≠ []) (hhead : ∀ c ∈ header.head?, p c = true)
    (hbody : ∀ c ∈ body, p c = true) (new t : Text) :
    (body ++ (block header p).sub new (t.dropWhile p)).takeWhile p = body ∧
      (body ++ (block header p).sub new (t.dropWhile p)).dropWhile p =
        (block header p).sub new (t.dropWhile p) := by
  have htake := takeWhile_sub_dropWhile hne hhead new t
  constructor
  · rw [List.takeWhile_append_of_pos hbody, htake, List.append_nil]
  · have happ := List.takeWhile_append_dropWhile (p := p)
      (l := (block header p).sub new (t.dropWhile p))
    rw [htake, List.nil_append] at happ
    rw [List.dropWhile_append_of_pos hbody, happ]

/-- Replacing the blocks twice leaves the first character of the first replacement. -/
lemma sub_sub_block (hne : header ≠ []) (hhead : ∀ c ∈ header.head?, p c = true) (he : e ∉ header)
    (hbody : ∀ c ∈ body, p c = true) (s : Text) :
    (block header p).sub new' ((block header p).sub (e :: (header ++ body)) s) =
      (block header p).sub (e :: new') s := by
  induction s using block_induction header p hne with
  | nil => rfl
  | char c s hpre ih =>
    have hnone := not_header_prefix_sub (p := p) hne he hpre (header ++ body)
    rw [sub_cons_of_none (head?_ways_block_of_not hpre),
      sub_cons_of_none (head?_ways_block_of_not hnone), ih,
      sub_cons_of_none (head?_ways_block_of_not hpre)]
  | block t ih =>
    obtain ⟨-, hdrop⟩ := takeWhile_body hne hhead hbody (e :: (header ++ body)) t
    have hstart := head?_ways_block_of_not (p := p) (not_header_prefix_cons hne he
      (header ++ body ++ (block header p).sub (e :: (header ++ body)) (t.dropWhile p)))
    rw [sub_block_append hne, List.cons_append, sub_cons_of_none hstart, List.append_assoc,
      sub_block_append hne, hdrop, ih, sub_block_append hne, List.cons_append]

/-- The blocks after a replacement. -/
lemma findall_sub_block (hne : header ≠ []) (hhead : ∀ c ∈ header.head?, p c = true)
    (he : e ∉ header) (hbody : ∀ c ∈ body, p c = true) (s : Text) :
    ((block header p).findall ((block header p).sub (e :: (header ++ body)) s)).map Match.consumed =
      List.replicate ((block header p).findall s).length (header ++ body) := by
  induction s using block_induction header p hne with
  | nil => rfl
  | char c s hpre ih =>
    have hnone := not_header_prefix_sub (p := p) hne he hpre (header ++ body)
    rw [sub_cons_of_none (head?_ways_block_of_not hpre),
      findall_cons_of_none (head?_ways_block_of_not hnone), ih,
      findall_cons_of_none (head?_ways_block_of_not hpre)]
  | block t ih =>
    obtain ⟨htake, hdrop⟩ := takeWhile_body hne hhead hbody (e :: (header ++ body)) t
    have hlen : ((block header p).findall (header ++ t)).length =
        ((block header p).findall (t.dropWhile p)).length + 1 := by
      have hmap := congrArg List.length (findall_block_append (p := p) hne t)
      simpa using hmap
    have hstart := head?_ways_block_of_not (p := p) (not_header_prefix_cons hne he
      (header ++ body ++ (block header p).sub (e :: (header ++ body)) (t.dropWhile p)))
    rw [sub_block_append hne, List.cons_append, findall_cons_of_none hstart, List.append_assoc,
      findall_block_append hne, htake, hdrop, ih, hlen, List.replicate_succ]

end Block

end Regex

end ArchExplorer.Lib
