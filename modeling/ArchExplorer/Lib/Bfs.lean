import Mathlib.Data.List.Nodup
import Mathlib.Logic.Relation
import Mathlib.Tactic

/-!
# Scanning a graph generation by generation

`scan` lists the vertices that a breadth-first search without a record of visited vertices meets,
each as often as it is met. `Hit` is the search in such a list that gives up at a vertex that is met
twice and at a vertex that is barred.
-/

namespace ArchExplorer.Lib.Bfs

variable {V : Type} {children : V → List V} {good barred : V → Prop} {v : V} {xs seen : List V}

/-- The first `k` generations after `generation`, one after the other. -/
def scan (children : V → List V) : ℕ → List V → List V
  | 0,     _          => []
  | k + 1, generation =>
    generation.flatMap children ++ scan children k (generation.flatMap children)

/-- A good vertex is found before a vertex is met again; it is not barred, nor is any vertex that is
met before it. -/
def Hit (good barred : V → Prop) : List V → List V → Prop
  | [],      _    => False
  | v :: xs, seen => ¬barred v ∧ (good v ∨ v ∉ seen ∧ Hit good barred xs (seen ++ [v]))

/-- A good vertex with its place among the listed vertices. -/
lemma hit_iff : Hit good barred xs seen ↔
    ∃ l v r, xs = l ++ v :: r ∧ good v ∧ (∀ w ∈ l ++ [v], ¬barred w) ∧ l.Nodup ∧
      ∀ w ∈ l, w ∉ seen := by
  induction xs generalizing seen with
  | nil => simp [Hit]
  | cons a xs ih =>
    rw [Hit, ih]
    constructor
    · rintro ⟨hbarred, hgood | ⟨hnew, l, v, r, rfl, hgood, hall, hnodup, hseen⟩⟩
      · exact ⟨[], a, xs, rfl, hgood, by simpa using hbarred, List.nodup_nil, by simp⟩
      · refine ⟨a :: l, v, r, rfl, hgood, ?_, ?_, ?_⟩
        · simpa using ⟨hbarred, by simpa using hall⟩
        · refine List.nodup_cons.mpr ⟨fun hmem => ?_, hnodup⟩
          exact hseen a hmem (by simp)
        · intro w hw
          rcases List.mem_cons.mp hw with rfl | hw
          · exact hnew
          · exact fun hmem => hseen w hw (List.mem_append_left _ hmem)
    · rintro ⟨l, v, r, hsplit, hgood, hall, hnodup, hseen⟩
      cases l with
      | nil =>
        obtain ⟨rfl, rfl⟩ := List.cons.inj hsplit
        exact ⟨by simpa using hall, .inl hgood⟩
      | cons b l =>
        obtain ⟨rfl, rfl⟩ := List.cons.inj hsplit
        obtain ⟨hbarred, hall⟩ := List.forall_mem_cons.mp hall
        obtain ⟨hnew, hnodup⟩ := List.nodup_cons.mp hnodup
        obtain ⟨hfresh, hseen⟩ := List.forall_mem_cons.mp hseen
        refine ⟨hbarred, .inr ⟨hfresh, l, v, r, rfl, hgood, hall, hnodup, fun w hw => ?_⟩⟩
        rw [List.mem_append, List.mem_singleton, not_or]
        exact ⟨hseen w hw, fun hwa => hnew (hwa ▸ hw)⟩

@[simp] lemma scan_nil (k : ℕ) : scan children k [] = [] := by
  induction k with
  | zero      => rfl
  | succ k ih => rw [scan, List.flatMap_nil, List.nil_append, ih]

/-- The first generation is scanned before the others. -/
lemma exists_hit_scan_iff (generation : List V) :
    (∃ k, Hit good barred (scan children k generation) seen) ↔
      ∃ k, Hit good barred
        (generation.flatMap children ++ scan children k (generation.flatMap children)) seen := by
  constructor
  · rintro ⟨_ | k, h⟩
    · exact h.elim
    · exact ⟨k, h⟩
  · rintro ⟨k, h⟩
    exact ⟨k + 1, h⟩

/-- The scanned vertices are reached from the generation by at least one step. -/
lemma transGen_of_mem_scan {k : ℕ} {generation : List V} (h : v ∈ scan children k generation) :
    ∃ u ∈ generation, Relation.TransGen (fun a b => b ∈ children a) u v := by
  induction k generalizing generation with
  | zero => simp [scan] at h
  | succ k ih =>
    rw [scan, List.mem_append] at h
    rcases h with h | h
    · obtain ⟨u, hu, huv⟩ := List.mem_flatMap.mp h
      exact ⟨u, hu, .single huv⟩
    · obtain ⟨w, hw, hwv⟩ := ih h
      obtain ⟨u, hu, huw⟩ := List.mem_flatMap.mp hw
      exact ⟨u, hu, hwv.head huw⟩

end ArchExplorer.Lib.Bfs
