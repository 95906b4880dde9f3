import Mathlib.Algebra.BigOperators.Group.Finset.Basic
import Mathlib.Algebra.Order.BigOperators.Group.Finset
import Mathlib.Data.List.AList
import Mathlib.Data.Finset.Basic
import Mathlib.Tactic

/-!
# Topological sorting by counting in-degrees

Kahn's algorithm keeps, for every vertex that still has an unprocessed parent, the number of its
unprocessed incoming edges. `relax` is the inner loop: it takes the edges of one processed vertex
off the table and reports the vertices whose last incoming edge was among them. `Inv` is what the
table, the processed vertices and the queue satisfy between two processed vertices, for a graph
with parallel edges given by its lists of children.
-/

namespace ArchExplorer.Lib.Kahn

variable {V : Type} [DecidableEq V]

/-- Remaining in-degrees. A vertex without unprocessed parents has no entry. -/
abbrev Degrees (V : Type) := AList (fun _ : V => ℤ)

/-- The remaining in-degree that the table records for `v`. -/
def degree (m : Degrees V) (v : V) : ℤ := (m.lookup v).getD 0

/-- Take one incoming edge off every listed child. Children whose count drops to zero leave the
table and are returned in the order in which this happens. -/
def relax (m : Degrees V) : List V → Degrees V × List V
  | []      => (m, [])
  | c :: cs =>
    let m' := m.insert c (degree m c - 1)
    if degree m' c = 0 then
      ((relax (m'.erase c) cs).1, c :: (relax (m'.erase c) cs).2)
    else
      relax m' cs

lemma degree_insert (m : Degrees V) (c : V) (k : ℤ) (v : V) :
    degree (m.insert c k) v = if v = c then k else degree m v := by
  by_cases h : v = c
  · subst h; simp [degree]
  · simp [degree, AList.lookup_insert_ne h, h]

lemma degree_erase (m : Degrees V) (c v : V) :
    degree (m.erase c) v = if v = c then 0 else degree m v := by
  by_cases h : v = c
  · subst h; simp [degree]
  · simp [degree, AList.lookup_erase_ne h, h]

lemma mem_of_mem_relax {m : Degrees V} {cs : List V} {v : V} (h : v ∈ (relax m cs).2) : v ∈ cs := by
  induction cs generalizing m with
  | nil => simp [relax] at h
  | cons c cs ih =>
    simp only [relax] at h
    split_ifs at h
    · rcases List.mem_cons.mp h with rfl | h
      · exact List.mem_cons_self
      · exact List.mem_cons_of_mem _ (ih h)
    · exact List.mem_cons_of_mem _ (ih h)

/-- What `relax` computes, for a table with an entry for exactly the positive degrees that covers
the listed children. -/
structure RelaxSpec (m : Degrees V) (cs : List V) (r : Degrees V × List V) : Prop where
  degree_eq : ∀ v, degree r.1 v = degree m v - cs.count v
  mem_iff : ∀ v, v ∈ r.1 ↔ 0 < degree r.1 v
  nodup : r.2.Nodup
  mem_ready : ∀ v, v ∈ r.2 ↔ v ∈ cs ∧ degree m v = cs.count v

lemma relaxSpec (m : Degrees V) (cs : List V) (hm : ∀ v, v ∈ m ↔ 0 < degree m v)
    (hcs : ∀ v, (cs.count v : ℤ) ≤ degree m v) : RelaxSpec m cs (relax m cs) := by
  induction cs generalizing m with
  | nil => exact ⟨by simp [relax], by simpa [relax] using hm, by simp [relax], by simp [relax]⟩
  | cons c cs ih =>
    have hdeg : ∀ v, degree (m.insert c (degree m c - 1)) v =
        degree m v - if v = c then 1 else 0 := by
      intro v
      rw [degree_insert]
      split_ifs with h
      · rw [h]
      · omega
    have hcount : ∀ v, ((c :: cs).count v : ℤ) = cs.count v + if v = c then 1 else 0 := by
      intro v
      rw [List.count_cons]
      by_cases h : v = c
      · subst h; simp
      · simp [h, Ne.symm h]
    have hc := hcs c
    rw [hcount, if_pos rfl] at hc
    simp only [relax]
    split_ifs with hz
    · -- the last incoming edge of `c`: it leaves the table and does not occur again
      rw [hdeg, if_pos rfl] at hz
      have hc0 : cs.count c = 0 := by omega
      have herase : ∀ v, degree ((m.insert c (degree m c - 1)).erase c) v =
          degree m v - if v = c then 1 else 0 := by
        intro v
        rw [degree_erase, hdeg]
        split_ifs with h
        · subst h; omega
        · rfl
      have hih := ih ((m.insert c (degree m c - 1)).erase c)
        (by
          intro v
          rw [AList.mem_erase, AList.mem_insert, herase]
          by_cases h : v = c
          · subst h; simp [hz]
          · simp [h, hm v])
        (by
          intro v
          rw [herase]
          have := hcs v
          rw [hcount] at this
          omega)
      refine ⟨?_, hih.mem_iff, ?_, ?_⟩
      · intro v
        rw [hih.degree_eq, herase, hcount]
        omega
      · refine List.nodup_cons.mpr ⟨?_, hih.nodup⟩
        rw [hih.mem_ready]
        exact fun h => List.count_eq_zero.mp hc0 h.1
      · intro v
        rw [List.mem_cons, List.mem_cons, hih.mem_ready, herase, hcount]
        by_cases h : v = c
        · subst h; simp [hc0]; omega
        · simp [h]
    · rw [hdeg, if_pos rfl] at hz
      have hih := ih (m.insert c (degree m c - 1))
        (by
          intro v
          rw [AList.mem_insert, hdeg, hm v]
          by_cases h : v = c
          · subst h; simp; omega
          · simp [h])
        (by
          intro v
          rw [hdeg]
          have := hcs v
          rw [hcount] at this
          omega)
      refine ⟨?_, hih.mem_iff, hih.nodup, ?_⟩
      · intro v
        rw [hih.degree_eq, hdeg, hcount]
        omega
      · intro v
        rw [List.mem_cons, hih.mem_ready, hdeg, hcount]
        by_cases h : v = c
        · subst h
          simp only [true_or, true_and, if_true]
          constructor
          · rintro ⟨_, hv⟩; omega
          · intro hv
            refine ⟨?_, by omega⟩
            rw [← List.count_pos_iff]
            omega
        · simp [h]

/-! ### The invariant of the sort -/

variable (verts : Finset V) (succ : V → List V)

/-- The number of edges into `v` whose parent is not processed yet. -/
def pending (done : List V) (v : V) : ℕ :=
  ∑ u ∈ verts.filter (· ∉ done), (succ u).count v

variable {verts succ}

lemma pending_snoc {done : List V} {u : V} (hu : u ∈ verts) (hd : u ∉ done) (v : V) :
    pending verts succ done v = pending verts succ (done ++ [u]) v + (succ u).count v := by
  have hmem : u ∈ verts.filter (· ∉ done) := by simp [hu, hd]
  have hset : verts.filter (· ∉ done ++ [u]) = (verts.filter (· ∉ done)).erase u := by
    ext w
    simp only [Finset.mem_filter, Finset.mem_erase, List.mem_append, List.mem_singleton, not_or]
    tauto
  rw [pending, pending, hset, add_comm]
  exact (Finset.add_sum_erase _ (fun w => (succ w).count v) hmem).symm

lemma pending_eq_zero {done : List V} {v : V} :
    pending verts succ done v = 0 ↔ ∀ u ∈ verts, v ∈ succ u → u ∈ done := by
  simp only [pending, Finset.sum_eq_zero_iff, Finset.mem_filter, List.count_eq_zero]
  constructor
  · intro h u hu hv
    by_contra hd
    exact h u ⟨hu, hd⟩ hv
  · rintro h u ⟨hu, hd⟩ hv
    exact hd (h u hu hv)

variable (verts succ)

/-- The state of the sort: `done` is processed, `queue` is ready and waits, `m` holds the rest. -/
structure Inv (done queue : List V) (m : Degrees V) : Prop where
  nodup : (done ++ queue).Nodup
  degree_eq : ∀ v, degree m v = pending verts succ done v
  mem_iff : ∀ v, v ∈ m ↔ 0 < degree m v
  ready : ∀ v, v ∈ done ++ queue ↔ v ∈ verts ∧ pending verts succ done v = 0
  ordered : ∀ l v r, done = l ++ v :: r → ∀ u ∈ verts, v ∈ succ u → u ∈ l

variable {verts succ}

/-- The initial state: every vertex without incoming edges waits. -/
lemma Inv.start {queue : List V} {m : Degrees V} (hnodup : queue.Nodup)
    (hdeg : ∀ v, degree m v = pending verts succ [] v) (hm : ∀ v, v ∈ m ↔ 0 < degree m v)
    (hready : ∀ v, v ∈ queue ↔ v ∈ verts ∧ v ∉ m) : Inv verts succ [] queue m := by
  refine ⟨hnodup, hdeg, hm, ?_, by simp⟩
  intro v
  rw [List.nil_append, hready, hm, hdeg]
  simp

/-- One processed vertex: its children are relaxed and the new ready ones join the queue. -/
lemma Inv.step {done queue : List V} {v : V} {m : Degrees V}
    (hsucc : ∀ u ∈ verts, ∀ c ∈ succ u, c ∈ verts) (h : Inv verts succ done (v :: queue) m) :
    Inv verts succ (done ++ [v]) (queue ++ (relax m (succ v)).2) (relax m (succ v)).1 := by
  obtain ⟨hv, hv0⟩ := (h.ready v).mp (by simp)
  have hvd : v ∉ done := by
    have := h.nodup
    rw [List.nodup_append] at this
    exact fun hd => this.2.2 v hd v (by simp) rfl
  have hpend (w : V) : pending verts succ done w =
      pending verts succ (done ++ [v]) w + (succ v).count w := pending_snoc hv hvd w
  have hspec := relaxSpec m (succ v) h.mem_iff (by
    intro w
    rw [h.degree_eq, hpend]
    push_cast
    omega)
  have hz : ∀ w, w ∈ (relax m (succ v)).2 ↔
      w ∈ succ v ∧ pending verts succ (done ++ [v]) w = 0 := by
    intro w
    rw [hspec.mem_ready, h.degree_eq, hpend]
    push_cast
    constructor <;> rintro ⟨hw, hw'⟩ <;> exact ⟨hw, by omega⟩
  refine ⟨?_, ?_, hspec.mem_iff, ?_, ?_⟩
  · have hold : (done ++ [v] ++ queue).Nodup := by simpa using h.nodup
    rw [← List.append_assoc, List.nodup_append]
    refine ⟨hold, hspec.nodup, ?_⟩
    rintro w hw w' hw' rfl
    have h0 : pending verts succ done w = 0 := ((h.ready w).mp (by simpa using hw)).2
    have hcount := List.count_pos_iff.mpr ((hz w).mp hw').1
    rw [hpend] at h0
    omega
  · intro w
    rw [hspec.degree_eq, h.degree_eq, hpend]
    push_cast
    omega
  · intro w
    have hold := h.ready w
    constructor
    · intro hw
      rw [← List.append_assoc, List.mem_append] at hw
      rcases hw with hw | hw
      · obtain ⟨hwv, hw0⟩ := hold.mp (by simpa using hw)
        rw [hpend] at hw0
        exact ⟨hwv, by omega⟩
      · obtain ⟨hwc, hw0⟩ := (hz w).mp hw
        exact ⟨hsucc v hv w hwc, hw0⟩
    · rintro ⟨hwv, hw0⟩
      by_cases hwc : w ∈ succ v
      · simp [(hz w).mpr ⟨hwc, hw0⟩]
      · have : w ∈ done ++ v :: queue :=
          hold.mpr ⟨hwv, by rw [hpend, hw0, List.count_eq_zero.mpr hwc]⟩
        simp only [List.mem_append, List.mem_cons] at this ⊢
        tauto
  · intro l w r hl u hu hwu
    -- either `w` was processed before, or it is `v`, all of whose parents are processed
    rcases List.eq_nil_or_concat r with rfl | ⟨r', x, rfl⟩
    · obtain ⟨rfl, hwv⟩ := List.append_inj' hl rfl
      obtain rfl : v = w := by simpa using hwv
      exact pending_eq_zero.mp hv0 u hu hwu
    · have hl' : done ++ [v] = (l ++ w :: r') ++ [x] := by simpa using hl
      exact h.ordered l w r' (List.append_inj' hl' rfl).1 u hu hwu

/-- With an empty queue every vertex of an acyclic graph has been processed. -/
lemma Inv.mem_done {done : List V} {m : Degrees V} (h : Inv verts succ done [] m)
    (rank : V → ℕ) (hrank : ∀ u ∈ verts, ∀ c ∈ succ u, rank u < rank c) :
    ∀ v ∈ verts, v ∈ done := by
  intro v
  induction hr : rank v using Nat.strong_induction_on generalizing v with
  | _ n ih =>
    intro hv
    have h0 : pending verts succ done v = 0 := by
      rw [pending_eq_zero]
      intro u hu hvu
      exact ih (rank u) (hr ▸ hrank u hu v hvu) u rfl hu
    simpa using (h.ready v).mpr ⟨hv, h0⟩

/-- With an empty queue the table is used up. -/
lemma Inv.keys_eq_nil {done : List V} {m : Degrees V} (h : Inv verts succ done [] m)
    (hall : ∀ v ∈ verts, v ∈ done) : m.keys = [] := by
  rw [List.eq_nil_iff_forall_not_mem]
  intro v hv
  have hpos := (h.mem_iff v).mp (AList.mem_keys.mpr hv)
  rw [h.degree_eq, pending_eq_zero.mpr fun u hu _ => hall u hu] at hpos
  simp at hpos

/-- Parents stand before their children. -/
lemma Inv.idxOf_lt {done queue : List V} {m : Degrees V} (h : Inv verts succ done queue m) {u v : V}
    (hu : u ∈ verts) (hv : v ∈ done) (hvu : v ∈ succ u) : done.idxOf u < done.idxOf v := by
  obtain ⟨l, r, rfl⟩ := List.append_of_mem hv
  have hul := h.ordered l v r rfl u hu hvu
  have hvl : v ∉ l := by
    have := h.nodup
    rw [List.append_assoc, List.nodup_append] at this
    exact fun hl => this.2.2 v hl v (by simp) rfl
  rw [List.idxOf_append_of_mem hul, List.idxOf_append_of_notMem hvl]
  have := List.idxOf_lt_length_of_mem hul
  omega

end ArchExplorer.Lib.Kahn
