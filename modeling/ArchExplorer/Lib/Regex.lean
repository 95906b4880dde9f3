import ArchExplorer.Lib.Text

/-!
# Regular expressions with groups

The matcher lists the ways in which an expression matches a beginning of a text, in the order in
which a backtracking engine tries them: the left alternative first, and as much as possible of an
optional or repeated part. Its first answer is the match; `findall` collects the matches from left
to right. `Matches` is the language of an expression, together with what its groups capture.
-/

namespace ArchExplorer.Lib

/-- Regular expressions. Only single characters are repeated. -/
inductive Regex where
  | empty
  | cls (p : Char → Bool)
  | seq (r r' : Regex)
  | alt (r r' : Regex)
  | opt (r : Regex)
  | star (p : Char → Bool)
  | group (k : ℕ) (r : Regex)

/-- A match: the text that was consumed, what is left, and the texts of the groups. -/
structure Match where
  consumed : Text
  rest : Text
  groups : List (ℕ × Text) := []
  deriving DecidableEq, Repr

/-- The text that a group captured last; a group that took no part is empty. -/
def Match.group (m : Match) (k : ℕ) : Text := (m.groups.reverse.lookup k).getD []

namespace Regex

variable {r r' : Regex} {p : Char → Bool} {s t : Text} {m : Match}

/-- A literal text. -/
def text : Text → Regex
  | []     => empty
  | c :: s => seq (cls (· == c)) (text s)

/-- One or more characters. -/
def plus (p : Char → Bool) : Regex := seq (cls p) (star p)

/-! ### The matcher -/

/-- The repetitions of a character, the longest one first. -/
def starMatches (p : Char → Bool) : Text → List Match
  | []     => [⟨[], [], []⟩]
  | c :: s =>
    if p c then
      (starMatches p s).map (fun m => { m with consumed := c :: m.consumed }) ++ [⟨[], c :: s, []⟩]
    else [⟨[], c :: s, []⟩]

/-- The ways in which a beginning of the text is matched, in the order of the search. -/
def ways : Regex → Text → List Match
  | empty,     s      => [⟨[], s, []⟩]
  | cls _,     []     => []
  | cls p,     c :: s => if p c then [⟨[c], s, []⟩] else []
  | seq r r',  s      => (r.ways s).flatMap fun m => (r'.ways m.rest).map fun m' =>
      ⟨m.consumed ++ m'.consumed, m'.rest, m.groups ++ m'.groups⟩
  | alt r r',  s      => r.ways s ++ r'.ways s
  | opt r,     s      => r.ways s ++ [⟨[], s, []⟩]
  | star p,    s      => starMatches p s
  | group k r, s      => (r.ways s).map fun m => { m with groups := m.groups ++ [(k, m.consumed)] }

/-- Collect the matches from left to right, after the next `skip` characters. -/
def findallFrom (r : Regex) : ℕ → Text → List Match
  | _,        []     => []
  | skip + 1, _ :: s => findallFrom r skip s
  | 0,        c :: s =>
    match (r.ways (c :: s)).head? with
    | some m => m :: findallFrom r (m.consumed.length - 1) s
    | none   => findallFrom r 0 s

/-- The matches of an expression that does not match the empty text. -/
def findall (r : Regex) (s : Text) : List Match := findallFrom r 0 s

/-- Replace the matches from left to right, after the next `skip` characters were dropped. -/
def subFrom (r : Regex) (new : Text) : ℕ → Text → Text
  | _,        []     => []
  | skip + 1, _ :: s => subFrom r new skip s
  | 0,        c :: s =>
    match (r.ways (c :: s)).head? with
    | some m => new ++ subFrom r new (m.consumed.length - 1) s
    | none   => c :: subFrom r new 0 s

/-- Replace the matches of an expression that does not match the empty text. -/
def sub (r : Regex) (new s : Text) : Text := subFrom r new 0 s

/-! ### The language -/

/-- The expression matches the text, with these texts for its groups. -/
inductive Matches : Regex → Text → List (ℕ × Text) → Prop
  | empty : Matches empty [] []
  | cls {p : Char → Bool} {c : Char} (h : p c = true) : Matches (cls p) [c] []
  | seq {r r' : Regex} {s s' : Text} {g g' : List (ℕ × Text)} (h : Matches r s g)
      (h' : Matches r' s' g') : Matches (seq r r') (s ++ s') (g ++ g')
  | left {r r' : Regex} {s : Text} {g : List (ℕ × Text)} (h : Matches r s g) :
      Matches (alt r r') s g
  | right {r r' : Regex} {s : Text} {g : List (ℕ × Text)} (h : Matches r' s g) :
      Matches (alt r r') s g
  | some {r : Regex} {s : Text} {g : List (ℕ × Text)} (h : Matches r s g) : Matches (opt r) s g
  | none {r : Regex} : Matches (opt r) [] []
  | star {p : Char → Bool} {s : Text} (h : ∀ c ∈ s, p c = true) : Matches (star p) s []
  | group {k : ℕ} {r : Regex} {s : Text} {g : List (ℕ × Text)} (h : Matches r s g) :
      Matches (group k r) s (g ++ [(k, s)])

lemma starMatches_sound (h : m ∈ starMatches p s) :
    (∀ c ∈ m.consumed, p c = true) ∧ m.groups = [] := by
  induction s generalizing m with
  | nil =>
    obtain rfl := List.mem_singleton.mp h
    simp
  | cons c s ih =>
    rw [starMatches] at h
    split_ifs at h with hc
    · rcases List.mem_append.mp h with h | h
      · obtain ⟨m', hm', rfl⟩ := List.mem_map.mp h
        obtain ⟨hall, hgroups⟩ := ih hm'
        exact ⟨List.forall_mem_cons.mpr ⟨hc, hall⟩, hgroups⟩
      · obtain rfl := List.mem_singleton.mp h
        simp
    · obtain rfl := List.mem_singleton.mp h
      simp

/-- What the matcher finds is in the language. -/
lemma ways_sound (h : m ∈ r.ways s) : Matches r m.consumed m.groups := by
  induction r generalizing s m with
  | empty =>
    obtain rfl := List.mem_singleton.mp h
    exact .empty
  | cls p =>
    cases s with
    | nil => cases h
    | cons c s =>
      rw [ways] at h
      split_ifs at h with hc
      · obtain rfl := List.mem_singleton.mp h
        exact .cls hc
      · cases h
  | seq r r' ih ih' =>
    obtain ⟨m₁, hm₁, h⟩ := List.mem_flatMap.mp h
    obtain ⟨m₂, hm₂, rfl⟩ := List.mem_map.mp h
    exact .seq (ih hm₁) (ih' hm₂)
  | alt r r' ih ih' =>
    rcases List.mem_append.mp h with h | h
    · exact .left (ih h)
    · exact .right (ih' h)
  | opt r ih =>
    rcases List.mem_append.mp h with h | h
    · exact .some (ih h)
    · obtain rfl := List.mem_singleton.mp h
      exact .none
  | star p =>
    obtain ⟨hall, hgroups⟩ := starMatches_sound h
    rw [hgroups]
    exact .star hall
  | group k r ih =>
    obtain ⟨m', hm', rfl⟩ := List.mem_map.mp h
    exact .group (ih hm')

lemma findallFrom_sound {skip : ℕ} (h : m ∈ findallFrom r skip s) :
    Matches r m.consumed m.groups := by
  induction s generalizing skip with
  | nil => cases skip <;> cases h
  | cons c s ih =>
    cases skip with
    | succ skip => exact ih h
    | zero =>
      rw [findallFrom] at h
      cases hway : (r.ways (c :: s)).head? with
      | none =>
        rw [hway] at h
        exact ih h
      | some m' =>
        rw [hway] at h
        rcases List.mem_cons.mp h with rfl | h
        · exact ways_sound (List.mem_of_head? hway)
        · exact ih h

lemma starMatches_append (h : m ∈ starMatches p s) : m.consumed ++ m.rest = s := by
  induction s generalizing m with
  | nil =>
    obtain rfl := List.mem_singleton.mp h
    rfl
  | cons c s ih =>
    rw [starMatches] at h
    split_ifs at h with hc
    · rcases List.mem_append.mp h with h | h
      · obtain ⟨m', hm', rfl⟩ := List.mem_map.mp h
        rw [List.cons_append, ih hm']
      · obtain rfl := List.mem_singleton.mp h
        rfl
    · obtain rfl := List.mem_singleton.mp h
      rfl

/-- The matcher cuts the text in two. -/
lemma ways_append (h : m ∈ r.ways s) : m.consumed ++ m.rest = s := by
  induction r generalizing s m with
  | empty =>
    obtain rfl := List.mem_singleton.mp h
    rfl
  | cls p =>
    cases s with
    | nil => cases h
    | cons c s =>
      rw [ways] at h
      split_ifs at h
      · obtain rfl := List.mem_singleton.mp h
        rfl
      · cases h
  | seq r r' ih ih' =>
    obtain ⟨m₁, hm₁, h⟩ := List.mem_flatMap.mp h
    obtain ⟨m₂, hm₂, rfl⟩ := List.mem_map.mp h
    rw [List.append_assoc, ih' hm₂, ih hm₁]
  | alt r r' ih ih' =>
    rcases List.mem_append.mp h with h | h
    · exact ih h
    · exact ih' h
  | opt r ih =>
    rcases List.mem_append.mp h with h | h
    · exact ih h
    · obtain rfl := List.mem_singleton.mp h
      rfl
  | star p => exact starMatches_append h
  | group k r ih =>
    obtain ⟨m', hm', rfl⟩ := List.mem_map.mp h
    have happ : m'.consumed ++ m'.rest = s := ih hm'
    exact happ

lemma mem_starMatches (h : ∀ c ∈ s, p c = true) (t : Text) :
    ⟨s, t, []⟩ ∈ starMatches p (s ++ t) := by
  induction s with
  | nil =>
    cases t with
    | nil => exact List.mem_singleton.mpr rfl
    | cons c t =>
      rw [List.nil_append, starMatches]
      split_ifs
      · exact List.mem_append_right _ (List.mem_singleton.mpr rfl)
      · exact List.mem_singleton.mpr rfl
  | cons c s ih =>
    obtain ⟨hc, hs⟩ := List.forall_mem_cons.mp h
    rw [List.cons_append, starMatches, if_pos hc]
    exact List.mem_append_left _ (List.mem_map.mpr ⟨_, ih hs, rfl⟩)

/-- The matcher finds every text of the language with which a text begins. -/
lemma mem_ways {g : List (ℕ × Text)} (h : Matches r s g) (t : Text) :
    ⟨s, t, g⟩ ∈ r.ways (s ++ t) := by
  induction h generalizing t with
  | empty => exact List.mem_singleton.mpr rfl
  | cls hc => simp [ways, hc]
  | @seq r r' s s' g g' _ _ ih ih' =>
    rw [List.append_assoc]
    exact List.mem_flatMap.mpr ⟨_, ih (s' ++ t), List.mem_map.mpr ⟨_, ih' t, rfl⟩⟩
  | left _ ih => exact List.mem_append_left _ (ih t)
  | right _ ih => exact List.mem_append_right _ (ih t)
  | some _ ih => exact List.mem_append_left _ (ih t)
  | none => exact List.mem_append_right _ (List.mem_singleton.mpr rfl)
  | star hall => exact mem_starMatches hall t
  | group _ ih => exact List.mem_map.mpr ⟨_, ih t, rfl⟩

lemma ways_text_append (t s : Text) : (text t).ways (t ++ s) = [⟨t, s, []⟩] := by
  induction t with
  | nil => rfl
  | cons c t ih => simp [text, ways, ih]

/-- The first repetition that is tried is the longest one. -/
lemma head?_starMatches (p : Char → Bool) (s : Text) :
    (starMatches p s).head? = some ⟨s.takeWhile p, s.dropWhile p, []⟩ := by
  induction s with
  | nil => rfl
  | cons c s ih =>
    rw [starMatches]
    split_ifs with hc
    · rw [List.head?_append, List.head?_map, ih, List.takeWhile_cons_of_pos hc,
        List.dropWhile_cons_of_pos hc]
      rfl
    · rw [List.takeWhile_cons_of_neg hc, List.dropWhile_cons_of_neg hc]
      rfl

/-- There is no match at the beginning of a text exactly if it does not begin with a text of the
language. -/
lemma head?_ways_eq_none_iff :
    (r.ways s).head? = none ↔ ∀ u g, Matches r u g → ¬u <+: s := by
  rw [List.head?_eq_none_iff, List.eq_nil_iff_forall_not_mem]
  constructor
  · rintro h u g hu ⟨t, rfl⟩
    exact h _ (mem_ways hu t)
  · intro h m hm
    exact h _ _ (ways_sound hm) ⟨m.rest, ways_append hm⟩

/-- Every match that is collected is in the language. -/
lemma findall_sound (h : m ∈ r.findall s) : Matches r m.consumed m.groups := findallFrom_sound h

/-! ### Inversion -/

lemma matches_text_iff {g : List (ℕ × Text)} : Matches (text t) s g ↔ s = t ∧ g = [] := by
  induction t generalizing s g with
  | nil =>
    constructor
    · rintro ⟨⟩
      exact ⟨rfl, rfl⟩
    · rintro ⟨rfl, rfl⟩
      exact .empty
  | cons c t ih =>
    constructor
    · intro h
      cases h with
      | seq h h' =>
        cases h with
        | cls hc =>
          obtain ⟨rfl, rfl⟩ := ih.mp h'
          rw [beq_iff_eq] at hc
          exact ⟨by rw [hc]; rfl, rfl⟩
    · rintro ⟨rfl, rfl⟩
      have hc : Matches (cls (· == c)) [c] [] := .cls (beq_self_eq_true c)
      exact .seq hc (ih.mpr ⟨rfl, rfl⟩)

lemma matches_plus_iff {g : List (ℕ × Text)} :
    Matches (plus p) s g ↔ s ≠ [] ∧ (∀ c ∈ s, p c = true) ∧ g = [] := by
  constructor
  · intro h
    cases h with
    | seq h h' =>
      cases h with
      | cls hc =>
        cases h' with
        | star hall => exact ⟨by simp, List.forall_mem_cons.mpr ⟨hc, hall⟩, rfl⟩
  · rintro ⟨hne, hall, rfl⟩
    cases s with
    | nil => exact absurd rfl hne
    | cons c s =>
      obtain ⟨hc, hall⟩ := List.forall_mem_cons.mp hall
      exact .seq (.cls hc) (.star hall)

end Regex

end ArchExplorer.Lib
