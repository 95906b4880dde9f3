import ArchExplorer.Lib.Bfs
import ArchExplorer.Deg.Distance

/-!
# Searching paths

The breadth-first search may miss a path, since it gives up when a vertex is met twice or belongs to
a later instruction than the target. What it finds is there, and the depth-first search finds every
path. Edges increase the rank of a vertex, so that both need no more fuel than there are ranks.
-/

namespace ArchExplorer.Deg

open ArchExplorer.Lib Relation

variable {insts : List RiscvInstruction} {s s' s₁ : O3Graph} {u v target : Vertex}

/-- There is an edge from `u` to `v`. -/
def O3Graph.Joined (s : O3Graph) (u v : Vertex) : Prop := v ∈ s.children u

/-- A path from `u` to a parent of `v`. -/
structure PathTo (s : O3Graph) (u v : Vertex) (path : List Vertex) : Prop where
  head : path.head? = some u
  isChain : (path ++ [v]).IsChain s.Joined

lemma PathTo.single (h : s.Joined u v) : PathTo s u v [u] :=
  ⟨rfl, List.isChain_pair.mpr h⟩

lemma PathTo.cons {w : Vertex} {path : List Vertex} (h : s.Joined u w)
    (hpath : PathTo s w v path) : PathTo s u v (u :: path) := by
  obtain ⟨hhead, hchain⟩ := hpath
  cases path with
  | nil => cases hhead
  | cons x path =>
    obtain rfl : x = w := by simpa using hhead
    exact ⟨rfl, List.isChain_cons_cons.mpr ⟨h, hchain⟩⟩

lemma Reads.joined_iff (hn : Numbered insts) (h : Reads insts s s') (hu : Owned insts u) :
    s'.Joined u v ↔ s.Joined u v := by
  rw [O3Graph.Joined, h.children hn hu, O3Graph.Joined]

/-! ### Breadth-first search -/

/-- The search for `target` in a list of vertices: it stops at a parent of `target`, at a vertex
that was met before and at a vertex of a later instruction. -/
def O3Graph.Hit (s : O3Graph) (target : Vertex) : List Vertex → List Vertex → Prop :=
  Bfs.Hit (fun v => s.Joined v target) fun v => target.inst.instSeq < v.inst.instSeq

/-- A parent of `target` is found among the vertices that are reached from `source`. -/
def O3Graph.Found (s : O3Graph) (source target : Vertex) : Prop :=
  ∃ k, s.Hit target (Bfs.scan s.children k [source]) []

/-- What is found is there. -/
lemma O3Graph.Found.transGen {source : Vertex} (h : s.Found source target) :
    TransGen s.Joined source target := by
  obtain ⟨k, hk⟩ := h
  obtain ⟨l, v, r, hscan, hjoined, -⟩ := Bfs.hit_iff.mp hk
  have hv : v ∈ Bfs.scan s.children k [source] := by simp [hscan]
  obtain ⟨u, hu, huv⟩ := Bfs.transGen_of_mem_scan hv
  rw [List.mem_singleton.mp hu] at huv
  exact huv.tail hjoined

/-- What is known after one generation: the answer for any vertices that would follow, or the place
at which the search goes on. -/
def AfterGeneration (s : O3Graph) (target : Vertex) (xs seen : List Vertex) :
    Bool ⊕ List Vertex × List (Vertex × List OutgoingEdge) → Prop
  | .inl answer => ∀ ys, answer = true ↔ s.Hit target (xs ++ ys) seen
  | .inr p      => p.2 = xs.map (fun v => (v, s.outgoing v)) ∧
      ∀ ys, s.Hit target (xs ++ ys) seen ↔ s.Hit target ys p.1

section Search

variable (hn : Numbered insts)
include hn

lemma bfsGeneration_wp (edges : List OutgoingEdge) (seen : List Vertex)
    (hedges : ∀ e ∈ edges, Owned insts e.child) (hreads : Reads insts s s₁) :
    (bfsGeneration target edges seen).wp
      (fun r s' => Reads insts s s' ∧ AfterGeneration s target (edges.map (·.child)) seen r)
      (fun _ _ => False) s₁ := by
  induction edges generalizing seen s₁ with
  | nil => exact ⟨hreads, rfl, fun _ => Iff.rfl⟩
  | cons j rest ih =>
    obtain ⟨hown, hrest⟩ := List.forall_mem_cons.mp hedges
    have hreads₂ : Reads insts s (s₁.touchGraph j.child) := hreads.trans (Reads.touchGraph hown)
    -- the step of the search at the first vertex
    have hhit (ys : List Vertex) : s.Hit target ((j :: rest).map (·.child) ++ ys) seen ↔
        ¬target.inst.instSeq < j.child.inst.instSeq ∧ (s.Joined j.child target ∨
          j.child ∉ seen ∧ s.Hit target (rest.map (·.child) ++ ys) (seen ++ [j.child])) := Iff.rfl
    rw [bfsGeneration]
    by_cases hseq : target.inst.instSeq < j.child.inst.instSeq
    · rw [if_pos hseq]
      exact ⟨hreads, fun ys => by rw [hhit]; simp [hseq]⟩
    · rw [if_neg hseq, Exec.wp_bind, wp_ifExistEdge]
      by_cases hedge : target ∈ s₁.children j.child
      · have hjoined := (hreads.joined_iff hn hown).mp hedge
        rw [if_pos (decide_eq_true hedge)]
        exact ⟨hreads₂, fun ys => by rw [hhit]; simp [hseq, hjoined]⟩
      · have hjoined : ¬s.Joined j.child target := fun h =>
          hedge ((hreads.joined_iff hn hown).mpr h)
        rw [if_neg (by simpa using hedge)]
        split_ifs with hseen
        · exact ⟨hreads₂, fun ys => by rw [hhit]; simp [hjoined, hseen]⟩
        · have hpass (ys : List Vertex) : s.Hit target ((j :: rest).map (·.child) ++ ys) seen ↔
              s.Hit target (rest.map (·.child) ++ ys) (seen ++ [j.child]) := by
            rw [hhit]
            simp [hseq, hjoined, hseen]
          rw [Exec.wp_bind, wp_readGraph, Exec.wp_bind]
          refine (ih (seen ++ [j.child]) hrest (hreads₂.trans (Reads.touchGraph hown))).mono ?_
            fun _ _ h => h
          rintro (answer | ⟨seen', next⟩) s₂ ⟨hr, hafter⟩
          · exact ⟨hr, fun ys => (hafter ys).trans (hpass ys).symm⟩
          · refine ⟨hr, ?_, fun ys => (hpass ys).trans (hafter.2 ys)⟩
            rw [show next = _ from hafter.1, hreads₂.outgoing hn hown]
            rfl

variable (hg : Good insts s)
include hg

/-- The search through the generations after `xs`, all of whose vertices have at least rank `k`. -/
lemma bfsLoop_wp (fuel k : ℕ) (xs seen : List Vertex)
    (hgen : ∀ v ∈ xs, Owned insts v ∧ k ≤ v.rank)
    (hfuel : 13 * (insts.length + 1) - k < fuel) (hreads : Reads insts s s₁) :
    (bfsLoop target fuel (xs.map fun v => (v, s.outgoing v)) seen).wp
      (fun b s' => Reads insts s s' ∧
        (b = true ↔ ∃ k, s.Hit target (Bfs.scan s.children k xs) seen))
      (fun _ _ => False) s₁ := by
  induction fuel generalizing k xs seen s₁ with
  | zero => exact absurd hfuel (Nat.not_lt_zero _)
  | succ fuel ih =>
    rw [bfsLoop]
    split_ifs with hnil
    · obtain rfl := List.map_eq_nil_iff.mp hnil
      exact ⟨hreads, by simp [O3Graph.Hit, Bfs.Hit]⟩
    · -- the vertices of the next generation have a higher rank
      have hchildren : ((xs.map fun v => (v, s.outgoing v)).flatMap (·.2)).map (·.child) =
          xs.flatMap s.children := by
        rw [List.map_flatMap, List.flatMap_map]
        rfl
      have hnext : ∀ w ∈ xs.flatMap s.children, Owned insts w ∧ k + 1 ≤ w.rank := by
        intro w hw
        obtain ⟨v, hv, hvw⟩ := List.mem_flatMap.mp hw
        obtain ⟨hown, hrank⟩ := hgen v hv
        obtain ⟨hchild, hlt⟩ := hg.owned_of_mem_children hown hvw
        exact ⟨hchild, by omega⟩
      obtain ⟨v, hv⟩ := List.exists_mem_of_ne_nil xs fun h => hnil (by rw [h]; rfl)
      have hlt := (hgen v hv).1.rank_lt hn
      have hle := (hgen v hv).2
      rw [Exec.wp_bind]
      refine (bfsGeneration_wp hn _ seen (fun e he => ?_) hreads).mono ?_ fun _ _ h => h
      · exact (hnext e.child (hchildren ▸ List.mem_map_of_mem he)).1
      rw [hchildren]
      simp only [O3Graph.Hit, Bfs.exists_hit_scan_iff xs]
      rintro (answer | ⟨seen', next⟩) s₂ ⟨hr, hafter⟩
      · refine ⟨hr, fun h => ⟨0, (hafter _).mp h⟩, ?_⟩
        rintro ⟨k, h⟩
        exact (hafter _).mpr h
      · obtain ⟨rfl, hpass⟩ := hafter
        refine (ih (k + 1) _ seen' hnext (by omega) hr).mono ?_ fun _ _ h => h
        rintro b s₃ ⟨hr₃, hb⟩
        exact ⟨hr₃, hb.trans (exists_congr fun j => (hpass _).symm)⟩

omit hn in
/-- The vertices that are reached from a stage of the trace. -/
lemma Good.owned_of_transGen (hu : Owned insts u) (h : TransGen s.Joined u v) :
    Owned insts v ∧ u.rank < v.rank := by
  induction h with
  | single huv => exact hg.owned_of_mem_children hu huv
  | tail _ hwv ih =>
    obtain ⟨hown, hlt⟩ := hg.owned_of_mem_children ih.1 hwv
    exact ⟨hown, ih.2.trans hlt⟩

/-- The breadth-first search reports what it finds among the vertices that are reached. -/
lemma ifExistPath_wp {source : Vertex} (hsource : Owned insts source) {fuel : ℕ}
    (hfuel : 13 * (insts.length + 1) < fuel) (hreads : Reads insts s s₁) :
    (ifExistPath fuel source target).wp
      (fun b s' => Reads insts s s' ∧ (b = true ↔ s.Found source target))
      (fun _ _ => False) s₁ := by
  rw [ifExistPath]
  split_ifs with hseq
  · -- all vertices that are reached belong to later instructions
    refine ⟨hreads, by simp, fun ⟨k, hk⟩ => ?_⟩
    obtain ⟨l, v, r, hscan, -, hall, -⟩ := Bfs.hit_iff.mp hk
    have hv : v ∈ Bfs.scan s.children k [source] := by simp [hscan]
    obtain ⟨u, hu, huv⟩ := Bfs.transGen_of_mem_scan hv
    rw [List.mem_singleton.mp hu] at huv
    obtain ⟨hown, hlt⟩ := hg.owned_of_transGen hsource huv
    refine absurd (hseq.trans_le ?_) (hall v (by simp))
    rw [← hsource.instSeq_eq, ← hown.instSeq_eq]
    exact Vertex.instSeq_le_of_rank_lt hlt
  · rw [Exec.wp_bind, wp_readGraph, hreads.outgoing hn hsource]
    refine bfsLoop_wp hn hg fuel 0 [source] [] ?_ (by omega)
      (hreads.trans (Reads.touchGraph hsource))
    intro v hv
    rw [List.mem_singleton.mp hv]
    exact ⟨hsource, Nat.zero_le _⟩

end Search

/-! ### Depth-first search -/

/-- The first result of a list of searches that keep an invariant. -/
lemma findFirst_wp {α β : Type} {f : α → DegM (Option β)} {R : α → Option β → Prop}
    {I : O3Graph → Prop} (as : List α)
    (hf : ∀ a ∈ as, ∀ s, I s → (f a).wp (fun r s' => I s' ∧ R a r) (fun _ _ => False) s)
    (h : I s) :
    (findFirst f as).wp
      (fun r s' => I s' ∧
        ((∃ a ∈ as, ∃ b, r = some b ∧ R a (some b)) ∨ r = none ∧ ∀ a ∈ as, R a none))
      (fun _ _ => False) s := by
  induction as generalizing s with
  | nil => exact ⟨h, .inr ⟨rfl, by simp⟩⟩
  | cons a as ih =>
    rw [findFirst, Exec.wp_bind]
    refine (hf a List.mem_cons_self s h).mono ?_ fun _ _ h => h
    rintro (- | b) s₂ ⟨hI, hR⟩
    · refine (ih (fun a' ha' => hf a' (List.mem_cons_of_mem _ ha')) hI).mono ?_ fun _ _ h => h
      rintro r s₃ ⟨hI₃, ⟨a', ha', b, hb, hR'⟩ | ⟨hnone, hall⟩⟩
      · exact ⟨hI₃, .inl ⟨a', List.mem_cons_of_mem _ ha', b, hb, hR'⟩⟩
      · exact ⟨hI₃, .inr ⟨hnone, List.forall_mem_cons.mpr ⟨hR, hall⟩⟩⟩
    · exact ⟨hI, .inl ⟨a, List.mem_cons_self, b, rfl, hR⟩⟩

/-- The search finds a path exactly if there is one. -/
def Finds (s : O3Graph) (source target : Vertex) (r : Option (List Vertex)) : Prop :=
  (∀ path, r = some path → PathTo s source target path) ∧
    (r = none → ¬TransGen s.Joined source target)

lemma Finds.some {path : List Vertex} (h : PathTo s u target path) :
    Finds s u target (some path) := by
  refine ⟨fun path' hpath' => ?_, fun hnone => ?_⟩
  · cases hpath'
    exact h
  · cases hnone

lemma Finds.none (h : ¬TransGen s.Joined u target) : Finds s u target none := by
  refine ⟨fun path hpath => ?_, fun _ => h⟩
  cases hpath

/-- From the vertices of `P` the search reads the edges of `s` as long as `I` holds, and each edge
leads to a vertex of `P` with a smaller size. -/
structure Searchable (s : O3Graph) (I : O3Graph → Prop) (P : Vertex → Prop)
    (size : Vertex → ℕ) : Prop where
  outgoing : ∀ s₁ v, I s₁ → P v → s₁.outgoing v = s.outgoing v
  read : ∀ s₁ v, I s₁ → P v → I (s₁.touchGraph v)
  step : ∀ u v, P u → s.Joined u v → P v ∧ size v < size u

lemma Searchable.findPath {I : O3Graph → Prop} {P : Vertex → Prop} {size : Vertex → ℕ}
    (h : Searchable s I P size) (fuel : ℕ) {source : Vertex} (hsource : P source)
    (hfuel : size source < fuel) (hI : I s₁) :
    (findPath target fuel source).wp (fun r s' => I s' ∧ Finds s source target r)
      (fun _ _ => False) s₁ := by
  induction fuel generalizing source s₁ with
  | zero => exact absurd hfuel (Nat.not_lt_zero _)
  | succ fuel ih =>
    have hI₂ := h.read s₁ source hI hsource
    have hchildren : s₁.children source = s.children source := by
      rw [O3Graph.children, h.outgoing s₁ source hI hsource, O3Graph.children]
    rw [Deg.findPath, Exec.wp_bind, wp_ifExistEdge, hchildren]
    split_ifs with hedge
    · rw [decide_eq_true_eq] at hedge
      exact ⟨hI₂, .some (.single hedge)⟩
    · rw [decide_eq_true_eq] at hedge
      rw [Exec.wp_bind, wp_readGraph, h.outgoing _ source hI₂ hsource, Exec.wp_bind]
      have hsearch : ∀ e ∈ s.outgoing source, ∀ s₂, I s₂ →
          (Deg.findPath target fuel e.child).wp
            (fun r s' => I s' ∧ Finds s e.child target r) (fun _ _ => False) s₂ := by
        intro e he s₂ hs₂
        obtain ⟨hchild, hlt⟩ := h.step source e.child hsource (List.mem_map_of_mem he)
        exact ih hchild (by omega) hs₂
      refine (findFirst_wp (R := fun e r => Finds s e.child target r) _ hsearch
        (h.read _ source hI₂ hsource)).mono ?_ fun _ _ h => h
      rintro r s₃ ⟨hs₃, ⟨e, he, path, rfl, hfinds⟩ | ⟨rfl, hall⟩⟩
      · exact ⟨hs₃, .some (.cons (List.mem_map_of_mem he) (hfinds.1 path rfl))⟩
      · -- the first step of a path would have been tried
        refine ⟨hs₃, .none fun hpath => ?_⟩
        obtain ⟨w, hw, hrest⟩ := TransGen.head'_iff.mp hpath
        rcases reflTransGen_iff_eq_or_transGen.mp hrest with rfl | hrest
        · exact hedge hw
        · obtain ⟨e, he, rfl⟩ := List.mem_map.mp hw
          exact (hall e he).2 rfl hrest

/-- Edges between the stages of a trace increase the rank. -/
lemma Good.searchable (hg : Good insts s) (hn : Numbered insts) :
    Searchable s (Reads insts s) (Owned insts) fun v => 13 * (insts.length + 1) - v.rank where
  outgoing _ _ hr hv := hr.outgoing hn hv
  read _ _ hr hv := hr.trans (Reads.touchGraph hv)
  step u v hu huv := by
    obtain ⟨e, he, rfl⟩ := List.mem_map.mp huv
    obtain ⟨hown, hlt⟩ := hg.child u hu e he
    have := hown.rank_lt hn
    exact ⟨hown, by omega⟩

lemma findPath_wp (hn : Numbered insts) (hg : Good insts s) (fuel : ℕ) {source : Vertex}
    (hsource : Owned insts source) (hfuel : 13 * (insts.length + 1) < fuel + source.rank)
    (hreads : Reads insts s s₁) :
    (findPath target fuel source).wp
      (fun r s' => Reads insts s s' ∧ Finds s source target r) (fun _ _ => False) s₁ := by
  have := hsource.rank_lt hn
  exact (hg.searchable hn).findPath fuel hsource (by omega) hreads

/-! ### The chains of the instructions -/

/-- From rank `k` on, the only edge of a vertex within its instruction is the one of the chain. -/
def ChainedFrom (insts : List RiscvInstruction) (k : ℕ) (s : O3Graph) : Prop :=
  ∀ u, Owned insts u → k ≤ u.rank →
    (s.outgoing u).filter (fun e => e.child.instSeq = u.instSeq) =
      ((nextStage u).map (stageEdge u)).toList

lemma Chained.from (h : Chained insts s) (k : ℕ) : ChainedFrom insts k s := fun u hu _ => h u hu

lemma ChainedFrom.mono {k k' : ℕ} (h : ChainedFrom insts k s) (hk : k ≤ k') :
    ChainedFrom insts k' s := fun u hu hle => h u hu (hk.trans hle)

lemma ChainedFrom.evolves {Q : Vertex → OutgoingEdge → Prop} {P : Prop} {k : ℕ}
    (hn : Numbered insts) (h : ChainedFrom insts k s) (hev : Evolves insts Q P s s')
    (hQ : ∀ u e, Q u e → k ≤ u.rank → u.instSeq < e.child.instSeq) : ChainedFrom insts k s' := by
  intro u hu hk
  obtain ⟨es, hes, hq⟩ := hev.outgoing hn hu
  have hnil : es.filter (fun e => e.child.instSeq = u.instSeq) = [] := by
    rw [List.filter_eq_nil_iff]
    intro e he
    have := hQ u e (hq e he) hk
    simp only [decide_eq_true_eq]
    omega
  rw [hes, List.filter_append, hnil, List.append_nil, h u hu hk]

lemma Evolves.joined {Q : Vertex → OutgoingEdge → Prop} {P : Prop} (hn : Numbered insts)
    (hev : Evolves insts Q P s s') (hu : Owned insts u) (h : s.Joined u v) : s'.Joined u v := by
  obtain ⟨e, he, rfl⟩ := List.mem_map.mp h
  obtain ⟨es, hes, -⟩ := hev.outgoing hn hu
  refine List.mem_map_of_mem ?_
  rw [hes]
  exact List.mem_append_left _ he

section Chain

variable (hn : Numbered insts)
include hn

/-- Walking along the chain to the commit of an earlier instruction, which is then connected to the
sink. -/
lemma fromCToSink_wp {sink : Vertex} (hsink : Owned insts sink) (fuel : ℕ)
    (hu : Owned insts u) (hc : u.type ≠ .c) (hlt : u.instSeq < sink.instSeq)
    (hchain : ChainedFrom insts u.rank s)
    (hfuel : 13 * (insts.length + 1) < fuel + u.rank) :
    (fromCToSink sink fuel u).wp
      (fun r s' => Evolves insts VirtualEdge True s s' ∧
        ∃ path, r = some path ∧ PathTo s' u sink path)
      (fun _ _ => False) s := by
  induction fuel generalizing u s with
  | zero =>
    have := hu.rank_lt hn
    omega
  | succ fuel ih =>
    obtain ⟨v, hv, hnext, hnum⟩ := exists_nextStage hu.2 hc
    have hov : Owned insts v := .of_mem hu.1 hv
    have hseq : v.instSeq = u.instSeq := nextStage_instSeq hnext
    have hrank : u.rank < v.rank := Vertex.rank_lt_of_num_lt hseq.symm hnum
    have hfilter := hchain u hu le_rfl
    rw [hnext, Option.map_some, Option.toList_some] at hfilter
    have hfind : (s.outgoing u).find? (·.child.instSeq = u.instSeq) = some (stageEdge u v) := by
      rw [← List.head?_filter, hfilter, List.head?_cons]
    have hjoined : s.Joined u v := by
      have hmem := List.mem_of_find?_eq_some hfind
      exact List.mem_map.mpr ⟨_, hmem, rfl⟩
    have htouch : Evolves insts VirtualEdge True s (s.touchGraph u) := .step (.touchGraph hu)
    rw [fromCToSink, Exec.wp_bind, wp_readGraph, hfind]
    dsimp only
    have hchild : (stageEdge u v).child = v := rfl
    rw [hchild]
    split_ifs with hvc
    · have hvsink : v.rank < sink.rank := Vertex.rank_lt_of_instSeq_lt (by omega)
      rw [Exec.wp_bind]
      refine (addVirtualEdge_wp (P := True) hn hov hsink hvsink fun _ h _ => h).mono ?_
        fun _ _ h => h
      rintro _ s₂ ⟨hev, hedge⟩
      have hall := htouch.trans hev
      exact ⟨hall, _, rfl, .cons (hall.joined hn hu hjoined) (.single hedge)⟩
    · rw [Exec.wp_bind]
      have hchain' : ChainedFrom insts v.rank (s.touchGraph u) :=
        (hchain.mono hrank.le).evolves (Q := fun _ _ => False) (P := False) hn
          (.step (.touchGraph hu)) fun _ _ h => h.elim
      refine (ih hov hvc (by omega) hchain' (by omega)).mono ?_ fun _ _ h => h
      rintro _ s₂ ⟨hev, path, rfl, hpath⟩
      have hall := htouch.trans hev
      exact ⟨hall, _, rfl, .cons (hall.joined hn hu hjoined) hpath⟩

/-- In the last instruction there are no edges but those of the chain. -/
lemma outgoing_last (hg : Good insts s) (hu : Owned insts u) (hseq : u.instSeq = insts.length)
    (hchain : ChainedFrom insts u.rank s) :
    s.outgoing u = ((nextStage u).map (stageEdge u)).toList := by
  rw [← hchain u hu le_rfl, List.filter_eq_self.mpr]
  intro e he
  obtain ⟨hown, hlt⟩ := hg.child u hu e he
  have := (hown.instSeq_mem hn).2
  have := u.type.num_lt
  have := e.child.type.num_lt
  unfold Vertex.rank at hlt
  rw [decide_eq_true_eq]
  omega

/-- The breadth-first search passes along the chain of the last instruction. -/
lemma hit_last (hg : Good insts s) (htarget : Owned insts target) (htype : target.type = .c)
    (hlast : target.instSeq = insts.length) (fuel : ℕ) (hu : Owned insts u) (hc : u.type ≠ .c)
    (hseq : u.instSeq = insts.length) (hchain : ChainedFrom insts u.rank s)
    (hnot : ¬s.Joined u target) (seen : List Vertex) (hseen : ∀ w ∈ seen, w.rank ≤ u.rank)
    (hfuel : 13 * (insts.length + 1) < fuel + u.rank) :
    ∃ k, s.Hit target (Bfs.scan s.children k [u]) seen := by
  -- induction on the number of ranks that are left
  induction fuel generalizing u seen with
  | zero =>
    have := hu.rank_lt hn
    omega
  | succ fuel ih =>
    obtain ⟨v, hv, hnext, hnum⟩ := exists_nextStage hu.2 hc
    have hov : Owned insts v := .of_mem hu.1 hv
    have hvseq : v.instSeq = insts.length := (nextStage_instSeq hnext).trans hseq
    have hrank : u.rank < v.rank := Vertex.rank_lt_of_num_lt (by omega) hnum
    have hchildren : s.children u = [v] := by
      rw [O3Graph.children, outgoing_last hn hg hu hseq hchain, hnext]
      rfl
    have hvc : v.type ≠ .c := by
      intro hvc
      refine hnot ?_
      rw [O3Graph.Joined, hchildren, hov.eq hn htarget (hvc.trans htype.symm)
        (hvseq.trans hlast.symm)]
      exact List.mem_singleton_self _
    have hvseen : v ∉ seen := fun hmem => by
      have := hseen v hmem
      omega
    have hbarred : ¬target.inst.instSeq < v.inst.instSeq := by
      rw [← htarget.instSeq_eq, ← hov.instSeq_eq]
      omega
    have hscan (k : ℕ) : Bfs.scan s.children (k + 1) [u] = v :: Bfs.scan s.children k [v] := by
      rw [Bfs.scan, List.flatMap_singleton, hchildren, List.singleton_append]
    by_cases hjoined : s.Joined v target
    · exact ⟨1, by rw [hscan]; exact ⟨hbarred, .inl hjoined⟩⟩
    · obtain ⟨k, hk⟩ := ih hov hvc hvseq (hchain.mono hrank.le) hjoined (seen ++ [v])
        (fun w hw => by
          rcases List.mem_append.mp hw with hw | hw
          · exact (hseen w hw).trans hrank.le
          · rw [List.mem_singleton.mp hw])
        (by omega)
      exact ⟨k + 1, by rw [hscan]; exact ⟨hbarred, .inr ⟨hvseen, hk⟩⟩⟩

end Chain

end ArchExplorer.Deg
