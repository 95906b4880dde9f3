import Mathlib.Logic.Relation
import ArchExplorer.Deg.Stages

/-!
# Invariants of the graph under construction

All vertices of the graph are stages of the instructions read so far. `Good` collects what the two
edge maps and the vertex table have in common. Everything the builder does to them after an
instruction has been modelled is one of the elementary steps of `Step`, each of which keeps `Good`.
-/

namespace ArchExplorer.Deg

open ArchExplorer.Lib

/-! ### Vertices of a trace -/

/-- The instructions read so far, the newest one first, carry consecutive numbers from one. -/
def Numbered : List RiscvInstruction → Prop
  | []            => True
  | inst :: insts => inst.instSeq = insts.length + 1 ∧ Numbered insts

/-- The vertex is a stage of one of the instructions. -/
def Owned (insts : List RiscvInstruction) (v : Vertex) : Prop :=
  v.inst ∈ insts ∧ v ∈ stages v.inst

variable {insts : List RiscvInstruction} {inst : RiscvInstruction} {s s' : O3Graph}
  {u v : Vertex} {e : OutgoingEdge}

lemma Numbered.instSeq_mem (hn : Numbered insts) (h : inst ∈ insts) :
    0 < inst.instSeq ∧ inst.instSeq ≤ insts.length := by
  induction insts with
  | nil => simp at h
  | cons i insts ih =>
    rcases List.mem_cons.mp h with rfl | h
    · have := hn.1
      simp only [List.length_cons]
      omega
    · have := ih hn.2 h
      simp only [List.length_cons]
      omega

lemma Numbered.eq_of_instSeq (hn : Numbered insts) {i j : RiscvInstruction} (hi : i ∈ insts)
    (hj : j ∈ insts) (h : i.instSeq = j.instSeq) : i = j := by
  induction insts with
  | nil => simp at hi
  | cons k insts ih =>
    rcases List.mem_cons.mp hi with rfl | hi' <;> rcases List.mem_cons.mp hj with rfl | hj'
    · rfl
    · have := hn.1
      have := hn.2.instSeq_mem hj'
      omega
    · have := hn.1
      have := hn.2.instSeq_mem hi'
      omega
    · exact ih hn.2 hi' hj'

lemma Numbered.exists_instSeq (hn : Numbered insts) {k : ℕ} (hpos : 0 < k)
    (hle : k ≤ insts.length) : ∃ inst ∈ insts, inst.instSeq = k := by
  induction insts with
  | nil =>
    rw [List.length_nil] at hle
    omega
  | cons inst insts ih =>
    rcases Nat.lt_or_ge insts.length k with hk | hk
    · refine ⟨inst, List.mem_cons_self, ?_⟩
      rw [List.length_cons] at hle
      have := hn.1
      omega
    · obtain ⟨i, hi, hik⟩ := ih hn.2 hk
      exact ⟨i, List.mem_cons_of_mem _ hi, hik⟩

lemma Owned.of_mem (hi : inst ∈ insts) (hv : v ∈ stages inst) : Owned insts v := by
  have hvi := (mem_stages hv).1
  exact ⟨hvi ▸ hi, hvi ▸ hv⟩

lemma Owned.instSeq_eq (h : Owned insts v) : v.instSeq = v.inst.instSeq := (mem_stages h.2).2

lemma Owned.instSeq_mem (hn : Numbered insts) (h : Owned insts v) :
    0 < v.instSeq ∧ v.instSeq ≤ insts.length :=
  h.instSeq_eq ▸ hn.instSeq_mem h.1

lemma Owned.cons (h : Owned insts v) : Owned (inst :: insts) v :=
  ⟨List.mem_cons_of_mem _ h.1, h.2⟩

lemma Owned.inst_eq (hn : Numbered insts) (hu : Owned insts u) (hv : Owned insts v)
    (hseq : u.instSeq = v.instSeq) : u.inst = v.inst :=
  hn.eq_of_instSeq hu.1 hv.1 (by rw [← hu.instSeq_eq, ← hv.instSeq_eq, hseq])

/-- Vertices of the trace are told apart by their stage and the number of their instruction. -/
lemma Owned.eq (hn : Numbered insts) (hu : Owned insts u) (hv : Owned insts v)
    (htype : u.type = v.type) (hseq : u.instSeq = v.instSeq) : u = v :=
  Vertex.ext htype hseq (hu.inst_eq hn hv hseq)

lemma Owned.compare_eq_iff (hn : Numbered insts) (hu : Owned insts u) (hv : Owned insts v) :
    vertexCompare u v = .eq ↔ u = v := by
  rw [vertexCompare_eq_iff]
  constructor
  · rintro ⟨htype, hseq⟩
    exact hu.eq hn hv htype hseq
  · rintro rfl
    exact ⟨rfl, rfl⟩

/-- The position of a vertex in the order of instructions and stages. Edges increase it. -/
def Vertex.rank (v : Vertex) : ℕ := v.instSeq * 13 + v.type.num

lemma Vertex.rank_lt_of_instSeq_lt (h : u.instSeq < v.instSeq) : u.rank < v.rank := by
  have := u.type.num_lt
  unfold Vertex.rank
  omega

lemma Vertex.rank_lt_of_num_lt (hseq : u.instSeq = v.instSeq) (h : u.type.num < v.type.num) :
    u.rank < v.rank := by
  unfold Vertex.rank
  omega

lemma Vertex.instSeq_le_of_rank_lt (h : u.rank < v.rank) : u.instSeq ≤ v.instSeq := by
  have := v.type.num_lt
  unfold Vertex.rank at h
  omega

/-- A vertex of the trace is determined by its rank. -/
lemma Owned.eq_of_rank (hn : Numbered insts) (hu : Owned insts u) (hv : Owned insts v)
    (h : u.rank = v.rank) : u = v := by
  have := u.type.num_lt
  have := v.type.num_lt
  unfold Vertex.rank at h
  exact hu.eq hn hv (VertexType.num_injective (by omega)) (by omega)

/-! ### Reading the maps after an update -/

lemma outgoing_connect (hn : Numbered insts) (hu : Owned insts u) (hv : Owned insts v) :
    (s.connect u e).outgoing v = if u = v then s.outgoing v ++ [e] else s.outgoing v := by
  have h : (s.connect u e).outgoing v = (s.graph.push u e).entry v := rfl
  rw [h, ListMap.entry_push]
  simp only [hu.compare_eq_iff hn hv]
  rfl

lemma ingoing_connect (hn : Numbered insts) (he : Owned insts e.child) (hv : Owned insts v) :
    (s.connect u e).ingoing v = if e.child = v then s.ingoing v ++ [⟨u⟩] else s.ingoing v := by
  have h : (s.connect u e).ingoing v = (s.pred.push e.child ⟨u⟩).entry v := rfl
  rw [h, ListMap.entry_push]
  simp only [he.compare_eq_iff hn hv]
  rfl

@[simp] lemma outgoing_touchGraph : (s.touchGraph u).outgoing v = s.outgoing v :=
  ListMap.entry_touch

@[simp] lemma outgoing_touchPred : (s.touchPred u).outgoing v = s.outgoing v := rfl

@[simp] lemma ingoing_touchGraph : (s.touchGraph u).ingoing v = s.ingoing v := rfl

@[simp] lemma ingoing_touchPred : (s.touchPred u).ingoing v = s.ingoing v :=
  ListMap.entry_touch

/-! ### The invariant -/

/-- The two maps hold the same edges between stages of `insts`, all of which go forward, and the
vertex table holds exactly the vertices with an outgoing edge, under their own keys. -/
structure Good (insts : List RiscvInstruction) (s : O3Graph) : Prop where
  keys : ∀ v ∈ s.graph.keys, Owned insts v
  predKeys : ∀ v ∈ s.pred.keys, Owned insts v
  child : ∀ u, Owned insts u → ∀ e ∈ s.outgoing u, Owned insts e.child ∧ u.rank < e.child.rank
  parent : ∀ v, Owned insts v → ∀ p ∈ s.ingoing v, Owned insts p.parent
  transpose : ∀ u v, Owned insts u → Owned insts v →
    (s.parents v).count u = (s.children u).count v
  lookup_sound : ∀ k v, s.instToVertex.lookup k = some v →
    Owned insts v ∧ k = hashInst v.inst v.type
  lookup_complete : ∀ u, Owned insts u → s.outgoing u ≠ [] →
    hashInst u.inst u.type ∈ s.instToVertex

lemma Good.init (trace : List TraceLine) : Good [] (.init trace) where
  keys := by simp [O3Graph.init]
  predKeys := by simp [O3Graph.init]
  child := fun u hu => absurd hu.1 (by simp)
  parent := fun v hv => absurd hv.1 (by simp)
  transpose := fun u v hu => absurd hu.1 (by simp)
  lookup_sound := by simp [O3Graph.init]
  lookup_complete := fun u hu => absurd hu.1 (by simp)

/-- Reading an entry keeps the invariant. -/
lemma Good.touchGraph (h : Good insts s) (hv : Owned insts v) : Good insts (s.touchGraph v) where
  keys := fun w hw => by
    rcases OrdMap.mem_keys_touch hw with rfl | hw
    · exact hv
    · exact h.keys w hw
  predKeys := h.predKeys
  child := fun u hu e he => h.child u hu e (by simpa using he)
  parent := h.parent
  transpose := fun u w hu hw => by
    simpa [O3Graph.children, O3Graph.parents] using h.transpose u w hu hw
  lookup_sound := h.lookup_sound
  lookup_complete := fun u hu he => h.lookup_complete u hu (by simpa using he)

lemma Good.touchPred (h : Good insts s) (hv : Owned insts v) : Good insts (s.touchPred v) where
  keys := h.keys
  predKeys := fun w hw => by
    rcases OrdMap.mem_keys_touch hw with rfl | hw
    · exact hv
    · exact h.predKeys w hw
  child := h.child
  parent := fun w hw p hp => h.parent w hw p (by simpa using hp)
  transpose := fun u w hu hw => by
    simpa [O3Graph.children, O3Graph.parents] using h.transpose u w hu hw
  lookup_sound := h.lookup_sound
  lookup_complete := h.lookup_complete

section Good

variable (hn : Numbered insts)
include hn

/-- Entering an edge between two stages of the trace that goes forward keeps the invariant. -/
lemma Good.connect (h : Good insts s) (hu : Owned insts u) (he : Owned insts e.child)
    (hlt : u.rank < e.child.rank) : Good insts (s.connect u e) where
  keys := fun w hw => by
    rcases OrdMap.mem_keys_update hw with rfl | hw
    · exact hu
    · exact h.keys w hw
  predKeys := fun w hw => by
    rcases OrdMap.mem_keys_update hw with rfl | hw
    · exact he
    · exact h.predKeys w hw
  child := fun w hw e' he' => by
    rw [outgoing_connect hn hu hw] at he'
    split_ifs at he' with huw
    · rcases List.mem_append.mp he' with he' | he'
      · exact h.child w hw e' he'
      · obtain rfl := List.mem_singleton.mp he'
        exact ⟨he, huw ▸ hlt⟩
    · exact h.child w hw e' he'
  parent := fun w hw p hp => by
    rw [ingoing_connect hn he hw] at hp
    split_ifs at hp with hew
    · rcases List.mem_append.mp hp with hp | hp
      · exact h.parent w hw p hp
      · obtain rfl := List.mem_singleton.mp hp
        exact hu
    · exact h.parent w hw p hp
  transpose := fun w x hw hx => by
    have hold := h.transpose w x hw hx
    simp only [O3Graph.children, O3Graph.parents] at hold ⊢
    rw [outgoing_connect hn hu hw, ingoing_connect hn he hx]
    -- the new edge is counted on both sides exactly when it leads from `w` to `x`
    by_cases huw : u = w <;> by_cases hex : e.child = x <;>
      simp [huw, hex, hold, List.count_append]
  lookup_sound := fun k w hk => by
    by_cases hkey : k = hashInst u.inst u.type
    · subst hkey
      have hlookup : (s.connect u e).instToVertex.lookup (hashInst u.inst u.type) = some u :=
        AList.lookup_insert _
      obtain rfl : u = w := by simpa [hlookup] using hk
      exact ⟨hu, rfl⟩
    · refine h.lookup_sound k w ?_
      rw [← hk]
      exact (AList.lookup_insert_ne hkey).symm
  lookup_complete := fun w hw hne => by
    have hmem (k : String) : k ∈ (s.connect u e).instToVertex ↔
        k = hashInst u.inst u.type ∨ k ∈ s.instToVertex := AList.mem_insert _
    rw [hmem]
    by_cases huw : u = w
    · exact .inl (by rw [huw])
    · rw [outgoing_connect hn hu hw, if_neg huw] at hne
      exact .inr (h.lookup_complete w hw hne)

/-- Reading an instruction: its stages have no edges yet. -/
lemma Good.outgoing_eq_nil (h : Good insts s) (hv : insts.length < v.instSeq) :
    s.outgoing v = [] := by
  rw [List.eq_nil_iff_forall_not_mem]
  intro e he
  obtain ⟨w, hw, hcmp⟩ := OrdMap.exists_mem_keys (ListMap.mem_of_mem_entry he)
  have := (h.keys w hw).instSeq_mem hn
  have := (vertexCompare_eq_iff.mp hcmp).2
  omega

lemma Good.ingoing_eq_nil (h : Good insts s) (hv : insts.length < v.instSeq) :
    s.ingoing v = [] := by
  rw [List.eq_nil_iff_forall_not_mem]
  intro p hp
  obtain ⟨w, hw, hcmp⟩ := OrdMap.exists_mem_keys (ListMap.mem_of_mem_entry hp)
  have := (h.predKeys w hw).instSeq_mem hn
  have := (vertexCompare_eq_iff.mp hcmp).2
  omega

lemma Good.cons (h : Good insts s) (hi : inst.instSeq = insts.length + 1) :
    Good (inst :: insts) s := by
  -- a stage of the new instruction, or a stage of an old one
  have hcases (v : Vertex) (hv : Owned (inst :: insts) v) :
      s.outgoing v = [] ∧ s.ingoing v = [] ∧ (∀ u, Owned insts u → u ≠ v) ∨ Owned insts v := by
    rcases List.mem_cons.mp hv.1 with hv' | hv'
    · have hlt : insts.length < v.instSeq := by rw [hv.instSeq_eq, hv', hi]; omega
      refine .inl ⟨h.outgoing_eq_nil hn hlt, h.ingoing_eq_nil hn hlt, ?_⟩
      rintro u hu rfl
      have := hu.instSeq_mem hn
      omega
    · exact .inr ⟨hv', hv.2⟩
  refine ⟨fun v hv => (h.keys v hv).cons, fun v hv => (h.predKeys v hv).cons, ?_, ?_, ?_,
    fun k v hk => ⟨(h.lookup_sound k v hk).1.cons, (h.lookup_sound k v hk).2⟩, ?_⟩
  · intro u hu e he
    rcases hcases u hu with ⟨hout, -, -⟩ | hu
    · simp [hout] at he
    · exact ⟨(h.child u hu e he).1.cons, (h.child u hu e he).2⟩
  · intro v hv p hp
    rcases hcases v hv with ⟨-, hin, -⟩ | hv
    · simp [hin] at hp
    · exact (h.parent v hv p hp).cons
  · intro u v hu hv
    rcases hcases u hu with ⟨hout, -, hne⟩ | hu <;> rcases hcases v hv with ⟨-, hin, hne'⟩ | hv
    · simp [O3Graph.children, O3Graph.parents, hout, hin]
    · have : u ∉ s.parents v := by
        simp only [O3Graph.parents, List.mem_map, not_exists, not_and]
        exact fun p hp => hne _ (h.parent v hv p hp)
      simp [O3Graph.children, hout, List.count_eq_zero.mpr this]
    · have : v ∉ s.children u := by
        simp only [O3Graph.children, List.mem_map, not_exists, not_and]
        exact fun e he => hne' _ (h.child u hu e he).1
      simp [O3Graph.parents, hin, List.count_eq_zero.mpr this]
    · exact h.transpose u v hu hv
  · intro u hu hne
    rcases hcases u hu with ⟨hout, -, -⟩ | hu
    · exact absurd hout hne
    · exact h.lookup_complete u hu hne

end Good

/-! ### Elementary steps -/

/-- What the builder does to the graph between two instructions: it reads entries of `graph`, reads
entries of `pred` if `P` allows it, and enters forward edges that satisfy `Q`. -/
inductive Step (insts : List RiscvInstruction) (Q : Vertex → OutgoingEdge → Prop) (P : Prop) :
    O3Graph → O3Graph → Prop
  | touchGraph {s : O3Graph} {v : Vertex} (hv : Owned insts v) : Step insts Q P s (s.touchGraph v)
  | touchPred {s : O3Graph} {v : Vertex} (hv : Owned insts v) (hP : P) :
      Step insts Q P s (s.touchPred v)
  | connect {s : O3Graph} {u : Vertex} {e : OutgoingEdge} (hu : Owned insts u)
      (he : Owned insts e.child) (hlt : u.rank < e.child.rank) (hQ : Q u e) :
      Step insts Q P s (s.connect u e)

/-- Any number of elementary steps. -/
def Evolves (insts : List RiscvInstruction) (Q : Vertex → OutgoingEdge → Prop) (P : Prop) :
    O3Graph → O3Graph → Prop :=
  Relation.ReflTransGen (Step insts Q P)

namespace Evolves

variable {Q Q' : Vertex → OutgoingEdge → Prop} {P P' : Prop} {s₁ s₂ s₃ : O3Graph}

lemma refl : Evolves insts Q P s s := Relation.ReflTransGen.refl

lemma trans (h : Evolves insts Q P s₁ s₂) (h' : Evolves insts Q P s₂ s₃) :
    Evolves insts Q P s₁ s₃ := Relation.ReflTransGen.trans h h'

lemma step (h : Step insts Q P s s') : Evolves insts Q P s s' := Relation.ReflTransGen.single h

lemma mono (h : Evolves insts Q P s s') (hQ : ∀ u e, Q u e → Q' u e) (hP : P → P') :
    Evolves insts Q' P' s s' := by
  refine Relation.ReflTransGen.mono ?_ _ _ h
  rintro _ _ (hv | ⟨hv, hp⟩ | ⟨hu, he, hlt, hq⟩)
  · exact .touchGraph hv
  · exact .touchPred hv (hP hp)
  · exact .connect hu he hlt (hQ _ _ hq)

/-- A property that every elementary step keeps is kept. -/
lemma induct {R : O3Graph → Prop} (h : Evolves insts Q P s s')
    (hstep : ∀ s s', Step insts Q P s s' → R s → R s') (hs : R s) : R s' := by
  induction h with
  | refl => exact hs
  | tail _ hlast ih => exact hstep _ _ hlast ih

lemma good (hn : Numbered insts) (h : Evolves insts Q P s s') (hs : Good insts s) :
    Good insts s' := by
  refine h.induct ?_ hs
  rintro s₁ _ (hv | ⟨hv, -⟩ | ⟨hu, he, hlt, -⟩) h₁
  · exact h₁.touchGraph hv
  · exact h₁.touchPred hv
  · exact h₁.connect hn hu he hlt

lemma instStream (h : Evolves insts Q P s s') : s'.instStream = s.instStream := by
  refine h.induct (R := fun t => t.instStream = s.instStream) ?_ rfl
  rintro s₁ _ (_ | _ | _) h₁ <;> exact h₁

lemma instWindow (h : Evolves insts Q P s s') : s'.instWindow = s.instWindow := by
  refine h.induct (R := fun t => t.instWindow = s.instWindow) ?_ rfl
  rintro s₁ _ (_ | _ | _) h₁ <;> exact h₁

/-- The edges of a vertex are never removed or changed; the new ones satisfy `Q`. -/
lemma outgoing (hn : Numbered insts) (h : Evolves insts Q P s s') (hv : Owned insts v) :
    ∃ es, s'.outgoing v = s.outgoing v ++ es ∧ ∀ e ∈ es, Q v e := by
  refine h.induct (R := fun t => ∃ es, t.outgoing v = s.outgoing v ++ es ∧ ∀ e ∈ es, Q v e) ?_
    ⟨[], by simp⟩
  rintro s₁ _ (hw | ⟨hw, -⟩ | @⟨u, e, hu, he, hlt, hq⟩) ⟨es, hes, hQ⟩
  · exact ⟨es, by simpa using hes, hQ⟩
  · exact ⟨es, hes, hQ⟩
  · rw [outgoing_connect hn hu hv]
    split_ifs with huv
    · subst huv
      refine ⟨es ++ [e], by simp [hes], ?_⟩
      intro e' he'
      rcases List.mem_append.mp he' with he' | he'
      · exact hQ e' he'
      · exact (List.mem_singleton.mp he') ▸ hq
    · exact ⟨es, hes, hQ⟩

end Evolves

/-! ### Properties of edges -/

/-- Every edge between stages of the trace satisfies `R`. -/
def AllEdges (insts : List RiscvInstruction) (R : Vertex → OutgoingEdge → Prop) (s : O3Graph) :
    Prop :=
  ∀ u, Owned insts u → ∀ e ∈ s.outgoing u, R u e

lemma Evolves.allEdges {Q R : Vertex → OutgoingEdge → Prop} {P : Prop} (hn : Numbered insts)
    (h : Evolves insts Q P s s') (hQ : ∀ u e, Q u e → R u e) (hs : AllEdges insts R s) :
    AllEdges insts R s' := by
  intro u hu e he
  obtain ⟨es, hes, hq⟩ := h.outgoing hn hu
  rw [hes] at he
  rcases List.mem_append.mp he with he | he
  · exact hs u hu e he
  · exact hQ u e (hq e he)

/-- Within an instruction, a stage has one edge, which leads to the next stage. -/
def Chained (insts : List RiscvInstruction) (s : O3Graph) : Prop :=
  ∀ u, Owned insts u →
    (s.outgoing u).filter (fun e => e.child.instSeq = u.instSeq) =
      ((nextStage u).map (stageEdge u)).toList

lemma Evolves.chained {Q : Vertex → OutgoingEdge → Prop} {P : Prop} (hn : Numbered insts)
    (h : Evolves insts Q P s s') (hQ : ∀ u e, Q u e → u.instSeq < e.child.instSeq)
    (hs : Chained insts s) : Chained insts s' := by
  intro u hu
  obtain ⟨es, hes, hq⟩ := h.outgoing hn hu
  have hnil : es.filter (fun e => e.child.instSeq = u.instSeq) = [] := by
    rw [List.filter_eq_nil_iff]
    intro e he
    have := hQ u e (hq e he)
    simp only [decide_eq_true_eq]
    omega
  rw [hes, List.filter_append, hnil, List.append_nil, hs u hu]

/-- Every entry of `pred` holds an edge. -/
def Tight (s : O3Graph) : Prop := ∀ v ∈ s.pred.keys, s.ingoing v ≠ []

lemma Evolves.tight {Q : Vertex → OutgoingEdge → Prop} (hn : Numbered insts)
    (h : Evolves insts Q False s s') (hg : Good insts s) (hs : Tight s) : Tight s' := by
  refine (h.induct (R := fun t => Good insts t ∧ Tight t) ?_ ⟨hg, hs⟩).2
  rintro s₁ _ (hv | ⟨-, hP⟩ | @⟨u, e, hu, he, hlt, hq⟩) ⟨hg₁, h₁⟩
  · exact ⟨hg₁.touchGraph hv, h₁⟩
  · exact hP.elim
  · refine ⟨hg₁.connect hn hu he hlt, ?_⟩
    intro v hv
    have hov : Owned insts v := (hg₁.connect hn hu he hlt).predKeys v hv
    rw [ingoing_connect hn he hov]
    split_ifs with hev
    · simp
    · rcases OrdMap.mem_keys_update hv with rfl | hv
      · exact absurd rfl hev
      · exact h₁ v hv

end ArchExplorer.Deg
