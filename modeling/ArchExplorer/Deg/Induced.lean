import ArchExplorer.Deg.Construction

/-!
# The induced graph

The construction of the induced graph enters virtual edges only, each from an end of a dependence
between instructions to the start of another one in a later instruction.
-/

namespace ArchExplorer.Deg

open ArchExplorer.Lib

variable {insts : List RiscvInstruction} {s s' : O3Graph} {u v : Vertex} {e : OutgoingEdge}
  {Q : Vertex → OutgoingEdge → Prop} {P : Prop} {K : Vertex → Prop}

lemma VirtualEdge.cost_eq (h : VirtualEdge u e) : e.cost = 0 := by
  cases h with
  | intro hlt => rfl

/-! ### Elementary operations -/

@[simp] lemma wp_readGraph {R : List OutgoingEdge → O3Graph → Prop}
    {E : DegError → O3Graph → Prop} :
    (readGraph v).wp R E s ↔ R (s.outgoing v) (s.touchGraph v) := Iff.rfl

@[simp] lemma wp_readPred {R : List IngoingEdge → O3Graph → Prop}
    {E : DegError → O3Graph → Prop} :
    (readPred v).wp R E s ↔ R (s.ingoing v) (s.touchPred v) := Iff.rfl

@[simp] lemma wp_ifExistEdge {R : Bool → O3Graph → Prop} {E : DegError → O3Graph → Prop} :
    (ifExistEdge u v).wp R E s ↔ R (decide (v ∈ s.children u)) (s.touchGraph u) := by
  have h : ((s.outgoing u).any fun e => e.child = v) = decide (v ∈ s.children u) := by
    rw [Bool.eq_iff_iff]
    simp [O3Graph.children]
  rw [ifExistEdge, Exec.wp_bind, wp_readGraph, Exec.wp_pure, h]

@[simp] lemma children_touchGraph : (s.touchGraph u).children v = s.children v := by
  simp [O3Graph.children]

/-- A forward virtual edge: afterwards there is an edge, and at most this one is new. -/
lemma addVirtualEdge_wp (hn : Numbered insts) (hu : Owned insts u) (hv : Owned insts v)
    (hlt : u.rank < v.rank) (hQ : ∀ e, VirtualEdge u e → e.child = v → Q u e) :
    (addVirtualEdge u v).wp (fun _ s' => Evolves insts Q P s s' ∧ v ∈ s'.children u)
      (fun _ _ => False) s := by
  have hne : u ≠ v := fun h => by simp [h] at hlt
  have htouch : Evolves insts Q P s (s.touchGraph u) := .step (.touchGraph hu)
  rw [addVirtualEdge, if_neg hne, Exec.wp_bind, wp_ifExistEdge]
  by_cases hvu : v ∈ s.children u
  · simpa [hvu] using htouch
  · have hstep : Step insts Q P (s.touchGraph u)
        ((s.touchGraph u).connect u ⟨v, delay u.timing v.timing, 0, .virtual⟩) :=
      .connect hu hv hlt (hQ _ (.intro hlt) rfl)
    simp only [hvu, decide_false, Bool.false_eq_true, if_false]
    refine ⟨htouch.trans (.step hstep), ?_⟩
    simp [O3Graph.children, outgoing_connect hn hu hu]

/-! ### Dependences between instructions -/

/-- Both ends of an edge between different instructions satisfy `K`. -/
def EndsIn (K : Vertex → Prop) (u : Vertex) (e : OutgoingEdge) : Prop :=
  e.child.instSeq ≠ u.instSeq → K u ∧ K e.child

/-- The edges of the induced graph between vertices that satisfy `K`. They lead to a later
instruction, but not to the last one. -/
structure InducedEdge (insts : List RiscvInstruction) (K : Vertex → Prop) (u : Vertex)
    (e : OutgoingEdge) : Prop where
  virtual : VirtualEdge u e
  ends : K u ∧ K e.child
  instSeq_lt : u.instSeq < e.child.instSeq
  child_lt : e.child.instSeq < insts.length

lemma CrossEdge.type_ne_c (h : CrossEdge u e) : u.type ≠ .c ∧ e.child.type ≠ .c := by
  have hissue (i : RiscvInstruction) : (issueStage i).type ≠ .c := by
    unfold issueStage
    split_ifs <;> simp [single]
  have hcomplete (i : RiscvInstruction) : (completeStage i).type ≠ .c := by
    unfold completeStage
    split_ifs <;> simp [single]
  cases h with
  | miss b hlt   => exact ⟨hcomplete _, by simp [firstStage, single]⟩
  | rename b hlt => simp [renameStage, single]
  | issue b hlt  => exact ⟨hissue _, hissue _⟩

/-- An entry of the skewed edges: a vertex of an instruction that is not the last one, with edges
to other vertices. -/
def SkewedEntry (insts : List RiscvInstruction) (K : Vertex → Prop)
    (entry : Vertex × List OutgoingEdge) : Prop :=
  (Owned insts entry.1 ∧ K entry.1 ∧ entry.1.instSeq < insts.length) ∧
    ∀ e ∈ entry.2, Owned insts e.child ∧ K e.child

lemma skewedEntry_of_mem (hn : Numbered insts) (hg : Good insts s)
    (hends : AllEdges insts (EndsIn K) s) {cmp : Vertex → Vertex → Ordering} [Std.TransCmp cmp]
    {entry : Vertex × List OutgoingEdge} (hmem : entry ∈ (skewedEdges cmp s).toList) :
    SkewedEntry insts K entry := by
  -- what holds of the keys and of the edges of the map that is being filled
  let A (w : Vertex) : Prop := Owned insts w ∧ K w ∧ w.instSeq < insts.length
  let B (e : OutgoingEdge) : Prop := Owned insts e.child ∧ K e.child
  let I (t : ListMap Vertex OutgoingEdge cmp) : Prop :=
    (∀ w ∈ t.keys, A w) ∧ ∀ w, ∀ e ∈ t.entry w, B e
  have hpush (t : ListMap Vertex OutgoingEdge cmp) (w : Vertex) (e : OutgoingEdge) (ht : I t)
      (hw : A w) (he : B e) : I (t.push w e) := by
    refine ⟨?_, ?_⟩
    · intro x hx
      rcases OrdMap.mem_keys_update hx with rfl | hx
      · exact hw
      · exact ht.1 x hx
    · intro x e' he'
      rw [ListMap.entry_push] at he'
      split_ifs at he'
      · rcases List.mem_append.mp he' with he' | he'
        · exact ht.2 x e' he'
        · exact (List.mem_singleton.mp he') ▸ he
      · exact ht.2 x e' he'
  have hI : I (skewedEdges cmp s) := by
    refine List.foldlRecOn s.graph.toList _ (motive := I) ⟨by simp, by simp⟩ ?_
    rintro t ht ⟨w, es⟩ hwes
    refine List.foldlRecOn es _ (motive := I) ht ?_
    intro t' ht' e he
    split_ifs with hne
    · obtain ⟨hkey, rfl⟩ := ListMap.mem_toList.mp hwes
      have hw := hg.keys w hkey
      obtain ⟨hwc, hec⟩ := hends w hw e he (Ne.symm hne)
      have hchild := hg.child w hw e he
      have := hchild.1.instSeq_mem hn
      refine hpush t' w e ht' ⟨hw, hwc, ?_⟩ ⟨hchild.1, hec⟩
      by_contra hlast
      have hlt : e.child.instSeq < w.instSeq :=
        lt_of_le_of_ne (by omega) (Ne.symm hne)
      have := Vertex.rank_lt_of_instSeq_lt hlt
      omega
    · exact ht'
  obtain ⟨w, es⟩ := entry
  obtain ⟨hkey, rfl⟩ := ListMap.mem_toList.mp hmem
  exact ⟨hI.1 w hkey, hI.2 w⟩

/-! ### The passes -/

/-- The code enters edges that satisfy `Q` and never stops with an error. -/
def Adds (insts : List RiscvInstruction) (Q : Vertex → OutgoingEdge → Prop) (x : DegM Unit) :
    Prop :=
  ∀ s, x.wp (fun _ => Evolves insts Q False s) (fun _ _ => False) s

lemma Adds.skip : Adds insts Q (pure ()) := fun _ => .refl

lemma Adds.bind {x y : DegM Unit} (hx : Adds insts Q x) (hy : Adds insts Q y) :
    Adds insts Q (do x; y) := by
  intro s
  rw [Exec.wp_bind]
  refine (hx s).mono (fun _ s₁ h₁ => ?_) fun _ _ h => h
  exact (hy s₁).mono (fun _ _ h₂ => h₁.trans h₂) fun _ _ h => h

lemma Adds.forM {α : Type} {f : α → DegM Unit} {l : List α} (h : ∀ a ∈ l, Adds insts Q (f a)) :
    Adds insts Q (forM l f) := by
  intro s
  refine Exec.wp_forM (fun a ha s₁ h₁ => ?_) .refl
  exact (h a ha s₁).mono (fun _ _ h₂ => h₁.trans h₂) fun _ _ h => h

lemma Adds.forSuffixes {α : Type} {f : α → List α → DegM Unit} {l : List α}
    (h : ∀ a rest, (∀ b ∈ a :: rest, b ∈ l) → Adds insts Q (f a rest)) :
    Adds insts Q (forSuffixes f l) := by
  induction l with
  | nil => exact .skip
  | cons a l ih =>
    refine .bind (h a l fun b hb => hb) (ih fun b rest hb => ?_)
    exact h b rest fun x hx => List.mem_cons_of_mem _ (hb x hx)

section Passes

variable (hn : Numbered insts)
include hn

lemma adds_virtualEdge (hu : Owned insts u) (huK : K u) (hv : Owned insts v) (hvK : K v)
    (hvn : v.instSeq < insts.length) (hlt : u.instSeq < v.instSeq) :
    Adds insts (InducedEdge insts K) (addVirtualEdge u v) := by
  intro s
  have hQ (e : OutgoingEdge) (he : VirtualEdge u e) (hev : e.child = v) :
      InducedEdge insts K u e :=
    ⟨he, ⟨huK, hev ▸ hvK⟩, hev ▸ hlt, hev ▸ hvn⟩
  exact (addVirtualEdge_wp hn hu hv (Vertex.rank_lt_of_instSeq_lt hlt) hQ).mono
    (fun _ _ h => h.1) fun _ _ h => h

variable {l : List (Vertex × List OutgoingEdge)} (hl : ∀ entry ∈ l, SkewedEntry insts K entry)
  (hv : Owned insts v) (hvK : K v)
include hl hv hvK

lemma adds_sameTiming (timing : UInt64) :
    Adds insts (InducedEdge insts K) (addSameTiming v timing l) := by
  induction l with
  | nil => exact .skip
  | cons entry l ih =>
    obtain ⟨w, es⟩ := entry
    obtain ⟨⟨hw, hwK, hwn⟩, -⟩ := hl (w, es) List.mem_cons_self
    rw [addSameTiming]
    split_ifs with h
    · exact .bind (adds_virtualEdge hn hv hvK hw hwK hwn h.1)
        (ih fun x hx => hl x (List.mem_cons_of_mem _ hx))
    · exact .skip

lemma adds_viaTiming : Adds insts (InducedEdge insts K) (addViaTiming v l) := by
  induction l with
  | nil => exact .skip
  | cons entry l ih =>
    obtain ⟨w, es⟩ := entry
    obtain ⟨⟨hw, hwK, hwn⟩, -⟩ := hl (w, es) List.mem_cons_self
    have hrest : ∀ x ∈ l, SkewedEntry insts K x := fun x hx => hl x (List.mem_cons_of_mem _ hx)
    rw [addViaTiming]
    split_ifs with h
    · exact .bind (adds_virtualEdge hn hv hvK hw hwK hwn h.2)
        (adds_sameTiming hn hrest hv hvK w.timing)
    · exact ih hrest

lemma adds_viaInstSeq : Adds insts (InducedEdge insts K) (addViaInstSeq v l) := by
  induction l with
  | nil => exact .skip
  | cons entry l ih =>
    obtain ⟨w, es⟩ := entry
    obtain ⟨⟨hw, hwK, hwn⟩, -⟩ := hl (w, es) List.mem_cons_self
    rw [addViaInstSeq]
    split_ifs with h
    · exact adds_virtualEdge hn hv hvK hw hwK hwn h.1
    · exact ih fun x hx => hl x (List.mem_cons_of_mem _ hx)

end Passes

/-- A pass over the skewed edges that connects both ends of each of them. -/
lemma adds_pass (hn : Numbered insts) {cmp : Vertex → Vertex → Ordering} [Std.TransCmp cmp]
    (hg : Good insts s) (hends : AllEdges insts (EndsIn K) s)
    {add : Vertex → List (Vertex × List OutgoingEdge) → DegM Unit}
    (hadd : ∀ v l, (∀ entry ∈ l, SkewedEntry insts K entry) → Owned insts v → K v →
      Adds insts (InducedEdge insts K) (add v l)) :
    Adds insts (InducedEdge insts K) (forSuffixes (fun entry rest => do
      add entry.1 (entry :: rest)
      forM entry.2 fun edge => add edge.child (entry :: rest)) (skewedEdges cmp s).toList) := by
  refine .forSuffixes fun entry rest hmem => ?_
  have hl : ∀ x ∈ entry :: rest, SkewedEntry insts K x :=
    fun x hx => skewedEntry_of_mem hn hg hends (hmem x hx)
  obtain ⟨⟨ho, hc, -⟩, hchild⟩ := hl entry List.mem_cons_self
  refine .bind (hadd _ _ hl ho hc) (.forM fun e he => ?_)
  exact hadd _ _ hl (hchild e he).1 (hchild e he).2

/-- What the construction of the induced graph does to a graph that has been built. -/
lemma constructInducedGraph_wp (hn : Numbered insts) (hg : Good insts s)
    (hends : AllEdges insts (EndsIn K) s) :
    constructInducedGraph.wp (fun _ => Evolves insts (InducedEdge insts K) False s)
      (fun _ _ => False) s := by
  rw [constructInducedGraph, Exec.wp_bind, addVirtualEdgeViaTiming, Exec.wp_bind, Exec.wp_get]
  refine (adds_pass hn hg hends fun v l hl hv hc => adds_viaTiming hn hl hv hc) s |>.mono ?_
    fun _ _ h => h
  intro _ s₁ h₁
  -- the second pass starts from the edges that the first one has entered
  have hends₁ : AllEdges insts (EndsIn K) s₁ := h₁.allEdges hn (fun _ _ h _ => h.ends) hends
  rw [addVirtualEdgeViaInstSeq, Exec.wp_bind, Exec.wp_get]
  refine (adds_pass hn (h₁.good hn hg) hends₁ fun v l hl hv hc =>
    adds_viaInstSeq hn hl hv hc) s₁ |>.mono ?_ fun _ _ h => h
  exact fun _ _ h₂ => h₁.trans h₂

end ArchExplorer.Deg
