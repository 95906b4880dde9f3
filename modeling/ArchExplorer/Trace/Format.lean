import Mathlib.Tactic
import ArchExplorer.Lib.Text

/-!
# The format of a trace line

A trace line has 34 fields with colons between them. The first seven are texts. The others have
the form `key=value`, where the value is a number or a list of numbers: twenty ticks, the ids of
five hardware resources, the source registers and the destination registers.
-/

namespace ArchExplorer.Trace

open ArchExplorer.Lib
open ArchExplorer.Lib.Text

/-- A field `key=value`. -/
structure Keyed (α : Type) where
  key : Text
  value : α
  key_colon : ':' ∉ key
  key_equals : '=' ∉ key

/-- A value that can be written into a field. -/
class Written (α : Type) where
  text : α → Text
  text_colon : ∀ a, ':' ∉ text a
  text_equals : ∀ a, '=' ∉ text a

/-- The text of a field, followed by `eol`. -/
def Keyed.text {α : Type} [Written α] (f : Keyed α) (eol : Text) : Text :=
  f.key ++ '=' :: (Written.text f.value ++ eol)

/-- A list of registers with blanks behind it. -/
structure Registers where
  numerals : List Numeral
  behind : Text
  behind_blank : ∀ c ∈ behind, isSpace c = true

def Registers.text (r : Registers) : Text := Numeral.list r.numerals ++ r.behind

/-- Colons and equality signs are not part of a number. -/
lemma notMem_numeral {c : Char} (hc : c = ':' ∨ c = '=') (n : Numeral) : c ∉ n.text := by
  rcases hc with rfl | rfl <;>
    exact n.notMem_text (by decide) (by decide) (by decide) (by decide)

lemma notMem_blanks {c : Char} (hc : c = ':' ∨ c = '=') {s : Text}
    (h : ∀ c ∈ s, isSpace c = true) : c ∉ s := by
  intro hs
  have := h c hs
  rcases hc with rfl | rfl <;> exact absurd this (by decide)

lemma notMem_registers {c : Char} (hc : c = ':' ∨ c = '=') (r : Registers) : c ∉ r.text := by
  have hlist : c ∉ Numeral.list r.numerals := by
    refine notMem_join (by rcases hc with rfl | rfl <;> decide) ?_
    intro t ht
    obtain ⟨n, -, rfl⟩ := List.mem_map.mp ht
    exact notMem_numeral hc n
  rw [Registers.text, List.mem_append]
  rintro (h | h)
  exacts [hlist h, notMem_blanks hc r.behind_blank h]

instance : Written Numeral where
  text := Numeral.text
  text_colon := notMem_numeral (.inl rfl)
  text_equals := notMem_numeral (.inr rfl)

instance : Written Registers where
  text := Registers.text
  text_colon := notMem_registers (.inl rfl)
  text_equals := notMem_registers (.inr rfl)

namespace Keyed

variable {α : Type} [Written α] (f : Keyed α) {eol : Text}

lemma text_ne_nil : f.text eol ≠ [] := by simp [text]

lemma colon_notMem_text (heol : ∀ c ∈ eol, isSpace c = true) : ':' ∉ f.text eol := by
  rw [text, List.mem_append, List.mem_cons, List.mem_append]
  rintro (h | h | h | h)
  · exact f.key_colon h
  · exact absurd h (by decide)
  · exact Written.text_colon _ h
  · exact notMem_blanks (.inl rfl) heol h

/-- What stands behind the equality sign. -/
lemma after_text : after '=' (f.text eol) = Written.text f.value ++ eol :=
  after_append_cons f.key_equals

lemma splitOn_text (heol : ∀ c ∈ eol, isSpace c = true) :
    (f.text eol).splitOn '=' = [f.key, Written.text f.value ++ eol] := by
  refine splitOn_append_cons f.key_equals ?_
  rw [List.mem_append]
  rintro (h | h)
  exacts [Written.text_equals _ h, notMem_blanks (.inr rfl) heol h]

end Keyed

/-- A line of the trace. -/
structure Line where
  when : Text
  name : Text
  thread : Text
  pc : Text
  mnemonic : Text
  opClass : Text
  data : Text
  ticks : List (Keyed Numeral)
  rob : Keyed Numeral
  lq : Keyed Numeral
  sq : Keyed Numeral
  iq : Keyed Numeral
  fu : Keyed Numeral
  src : Keyed Registers
  dst : Keyed Registers
  plain_colon : ∀ s ∈ [when, name, thread, pc, mnemonic, opClass, data], ':' ∉ s
  plain_ne : ∀ s ∈ [name, thread, pc, mnemonic, opClass, data], s ≠ []
  ticks_length : ticks.length = 20
  ticks_unsigned : ∀ t ∈ ticks, t.value.sign ≠ some true

namespace Line

variable (l : Line)

/-- The fields that follow the first one, the last of them with `eol` behind it. -/
def rest (eol : Text) : List Text :=
  [l.name, l.thread, l.pc, l.mnemonic, l.opClass, l.data] ++ l.ticks.map (Keyed.text · []) ++
    [l.rob.text [], l.lq.text [], l.sq.text [], l.iq.text [], l.fu.text [], l.src.text [],
      l.dst.text eol]

/-- The fields of the line. -/
def fields (eol : Text) : List Text := l.when :: l.rest eol

/-- The line without its end. -/
def text : Text := join ':' (l.fields [])

/-- The line with the end `eol` is the line of the fields, the last of them with `eol`. -/
lemma text_append (eol : Text) : l.text ++ eol = join ':' (l.fields eol) := by
  have hfields : ∀ e : Text, l.fields e = (l.when :: ([l.name, l.thread, l.pc, l.mnemonic,
      l.opClass, l.data] ++ l.ticks.map (Keyed.text · []) ++ [l.rob.text [], l.lq.text [],
      l.sq.text [], l.iq.text [], l.fu.text [], l.src.text []])) ++ [l.dst.text [] ++ e] := by
    intro e
    simp [fields, rest, Keyed.text]
  rw [text, hfields, hfields, join_append_behind, join_append_behind, List.append_nil]

lemma colon_notMem_fields {eol : Text} (heol : ∀ c ∈ eol, isSpace c = true) :
    ∀ s ∈ l.fields eol, ':' ∉ s := by
  have hnil : ∀ c ∈ ([] : Text), isSpace c = true := by simp
  intro s hs
  rw [fields, rest, List.append_assoc, ← List.cons_append, List.mem_append,
    List.mem_append] at hs
  rcases hs with hs | hs | hs
  · exact l.plain_colon s hs
  · obtain ⟨t, -, rfl⟩ := List.mem_map.mp hs
    exact t.colon_notMem_text hnil
  · simp only [List.mem_cons, List.not_mem_nil, or_false] at hs
    rcases hs with rfl | rfl | rfl | rfl | rfl | rfl | rfl
    all_goals exact Keyed.colon_notMem_text _ (by assumption)

lemma rest_ne_nil {eol : Text} : ∀ s ∈ l.rest eol, s ≠ [] := by
  intro s hs
  rw [rest, List.append_assoc, List.mem_append, List.mem_append] at hs
  rcases hs with hs | hs | hs
  · exact l.plain_ne s hs
  · obtain ⟨t, -, rfl⟩ := List.mem_map.mp hs
    exact t.text_ne_nil
  · simp only [List.mem_cons, List.not_mem_nil, or_false] at hs
    rcases hs with rfl | rfl | rfl | rfl | rfl | rfl | rfl
    all_goals exact Keyed.text_ne_nil _

/-- Cutting the line at its colons gives its fields. -/
lemma splitOn_text {eol : Text} (heol : ∀ c ∈ eol, isSpace c = true) :
    (l.text ++ eol).splitOn ':' = l.fields eol := by
  rw [text_append]
  exact splitOn_join (List.cons_ne_nil _ _) (l.colon_notMem_fields heol)

lemma splitOn_text_nil : l.text.splitOn ':' = l.fields [] :=
  splitOn_join (List.cons_ne_nil _ _) (l.colon_notMem_fields (by simp))

lemma splitCompress_text : splitCompress ':' l.text = l.fields [] :=
  splitCompress_join (l.colon_notMem_fields (by simp)) l.rest_ne_nil

/-! ### The fields at their places -/

/-- The ticks are the fields from the seventh on. -/
lemma getElem?_tick (eol : Text) {i : ℕ} (hi : i < 20) :
    (l.fields eol)[7 + i]? = l.ticks[i]?.map (Keyed.text · []) := by
  have hlen : (l.ticks.map (Keyed.text · [])).length = 20 := by
    rw [List.length_map, l.ticks_length]
  rw [fields, rest, List.append_assoc, ← List.cons_append, List.getElem?_append_right (by simp),
    List.getElem?_append_left (by rw [hlen]; simp; omega), List.getElem?_map]
  simp

/-- The fields behind the ticks. -/
lemma getElem?_last (eol : Text) (i : ℕ) :
    (l.fields eol)[27 + i]? = [l.rob.text [], l.lq.text [], l.sq.text [], l.iq.text [],
      l.fu.text [], l.src.text [], l.dst.text eol][i]? := by
  have hlen : (l.when :: ([l.name, l.thread, l.pc, l.mnemonic, l.opClass, l.data] ++
      l.ticks.map (Keyed.text · []))).length = 27 := by
    simp [l.ticks_length]
  rw [fields, rest, ← List.cons_append, List.getElem?_append_right (by omega), hlen,
    Nat.add_sub_cancel_left]

end Line

end ArchExplorer.Trace
