import ArchExplorer.Deg.TopologicalSort

/-!
# The effect of an analysis on the graph

Whatever its outcome, an analysis only reads entries of the two maps and enters virtual edges
between stages of the trace.
-/

namespace ArchExplorer.Deg

open ArchExplorer.Lib

variable {insts : List RiscvInstruction} {s : O3Graph} {u v : Vertex} {α β : Type}

/-- However `x` ends, it has only read entries and entered virtual edges; a value that it returns
satisfies `R`. -/
def Safe (insts : List RiscvInstruction) (x : DegM α) (R : α → Prop) : Prop :=
  ∀ s, Good insts s → insts.length ≤ s.instStream.instSeq →
    x.wp (fun a s' => Evolves insts VirtualEdge True s s' ∧ R a)
      (fun _ s' => Evolves insts VirtualEdge True s s') s

variable {x : DegM α} {R R' : α → Prop}

lemma Safe.pure {a : α} (h : R a) : Safe insts (pure a) R := fun _ _ _ => ⟨.refl, h⟩

lemma Safe.throw (e : DegError) : Safe insts (Exec.throw e) R := fun _ _ _ => Evolves.refl

lemma Safe.bind (hn : Numbered insts) {f : α → DegM β} {R' : β → Prop} (hx : Safe insts x R)
    (hf : ∀ a, R a → Safe insts (f a) R') : Safe insts (x >>= f) R' := by
  intro s hg hs
  rw [Exec.wp_bind]
  refine (hx s hg hs).mono ?_ fun _ _ h => h
  rintro a s₁ ⟨hev, ha⟩
  refine (hf a ha s₁ (hev.good hn hg) (by rwa [hev.instStream])).mono ?_ ?_
  · exact fun b s₂ h₂ => ⟨hev.trans h₂.1, h₂.2⟩
  · exact fun _ s₂ h₂ => hev.trans h₂

lemma Safe.ofExcept {r : Except DegError α} (h : ∀ a, r = .ok a → R a) :
    Safe insts (Exec.ofExcept r) R := by
  cases r with
  | ok a    => exact .pure (h a rfl)
  | error e => exact .throw e

/-- Reading the state: the value is a graph that satisfies the invariant. -/
lemma Safe.get : Safe insts (Exec.get : DegM O3Graph)
    (fun s => Good insts s ∧ insts.length ≤ s.instStream.instSeq) :=
  fun _ hg hs => ⟨.refl, hg, hs⟩

lemma Safe.ite {p : Prop} [Decidable p] {y : DegM α} (hx : Safe insts x R)
    (hy : Safe insts y R) : Safe insts (if p then x else y) R := by
  split_ifs
  · exact hx
  · exact hy

/-! ### Elementary operations -/

lemma safe_readGraph (hv : Owned insts v) :
    Safe insts (readGraph v) fun es => ∀ e ∈ es, Owned insts e.child :=
  fun _ hg _ => ⟨.step (.touchGraph hv), fun e he => (hg.child v hv e he).1⟩

lemma safe_readPred (hv : Owned insts v) :
    Safe insts (readPred v) fun es => ∀ p ∈ es, Owned insts p.parent :=
  fun _ hg _ => ⟨.step (.touchPred hv trivial), fun p hp => hg.parent v hv p hp⟩

lemma safe_ifExistEdge (hn : Numbered insts) (hu : Owned insts u) (v : Vertex) :
    Safe insts (ifExistEdge u v) fun _ => True :=
  .bind hn (safe_readGraph hu) fun _ _ => .pure trivial

lemma safe_getOutgoingEdge (hn : Numbered insts) (hu : Owned insts u) (v : Vertex) :
    Safe insts (getOutgoingEdge u v) fun _ => True := by
  refine .bind hn (safe_readGraph hu) fun es _ => ?_
  cases es.find? (·.child = v) with
  | some e => exact .pure trivial
  | none   => exact .throw _

/-- A virtual edge between stages is entered unless they coincide. -/
lemma safe_addVirtualEdge (hn : Numbered insts) (hu : Owned insts u) (hv : Owned insts v)
    (hle : u.rank ≤ v.rank) : Safe insts (addVirtualEdge u v) fun _ => True := by
  intro s hg hs
  by_cases huv : u = v
  · rw [addVirtualEdge, if_pos huv]
    exact ⟨.refl, trivial⟩
  · have hlt : u.rank < v.rank := lt_of_le_of_ne hle fun h => huv (hu.eq_of_rank hn hv h)
    exact (addVirtualEdge_wp hn hu hv hlt fun _ h _ => h).mono (fun _ _ h => ⟨h.1, trivial⟩)
      fun _ _ h => h.elim

/-- Every forward edge that is virtual is allowed here. -/
lemma safe_constructInducedGraph (hn : Numbered insts) :
    Safe insts constructInducedGraph fun _ => True := by
  intro s hg _
  have hends : AllEdges insts (EndsIn fun _ => True) s := fun _ _ _ _ _ => ⟨trivial, trivial⟩
  refine (constructInducedGraph_wp hn hg hends).mono ?_ fun _ _ h => h.elim
  exact fun _ _ h => ⟨h.mono (fun _ _ he => he.virtual) fun h => h.elim, trivial⟩

/-! ### Sorting -/

lemma safe_sortGeneration (hn : Numbered insts) (gen : List Vertex)
    (hgen : ∀ v ∈ gen, Owned insts v) (m : Kahn.Degrees Vertex) :
    Safe insts (sortGeneration gen m) fun r => ∀ v ∈ r.2, Owned insts v := by
  induction gen generalizing m with
  | nil => exact .pure (by simp)
  | cons v gen ih =>
    refine .bind hn (safe_readGraph (hgen v List.mem_cons_self)) fun es hes => ?_
    refine .bind hn (ih (fun w hw => hgen w (List.mem_cons_of_mem _ hw)) _) fun r hr => .pure ?_
    intro w hw
    rcases List.mem_append.mp hw with hw | hw
    · obtain ⟨e, he, rfl⟩ := List.mem_map.mp (Kahn.mem_of_mem_relax hw)
      exact hes e he
    · exact hr w hw

lemma safe_sortLoop (hn : Numbered insts) (fuel : ℕ) (queue done : List Vertex)
    (hqueue : ∀ v ∈ queue, Owned insts v) (hdone : ∀ v ∈ done, Owned insts v)
    (m : Kahn.Degrees Vertex) :
    Safe insts (sortLoop fuel queue m done) fun r => ∀ v ∈ r.2, Owned insts v := by
  induction fuel generalizing queue done m with
  | zero => exact .throw _
  | succ fuel ih =>
    refine .ite (.pure hdone) (.bind hn (safe_sortGeneration hn queue hqueue m) fun r hr => ?_)
    exact ih _ _ hr (fun v hv => (List.mem_append.mp hv).elim (hdone v) (hqueue v)) _

lemma safe_topologicalSort (hn : Numbered insts) (fuel : ℕ) :
    Safe insts (topologicalSort fuel) fun topo => ∀ v ∈ topo, Owned insts v := by
  refine .bind hn .get fun s hs => ?_
  refine .bind hn (safe_sortLoop hn fuel _ _ (fun v hv => ?_) (by simp) _) fun r hr => ?_
  · exact hs.1.keys v (List.mem_filter.mp hv).1
  · refine .ite (.throw _) (.bind hn .get fun s' _ => .ite (.throw _) (.pure hr))

/-! ### Distances -/

/-- The table mentions stages of the trace only. -/
def DistOwned (insts : List RiscvInstruction) (dist : Dist) : Prop :=
  (∀ v ∈ dist.keys, Owned insts v) ∧
    ∀ v p, (dist.getD v (0, none)).2 = some p → Owned insts p

lemma DistOwned.touch {dist : Dist} (h : DistOwned insts dist) (hv : Owned insts v) :
    DistOwned insts (dist.touch v (0, none)) := by
  refine ⟨fun w hw => ?_, fun w p hp => h.2 w p (by rwa [OrdMap.getD_touch] at hp)⟩
  rcases OrdMap.mem_keys_touch hw with rfl | hw
  · exact hv
  · exact h.1 w hw

lemma DistOwned.update {dist : Dist} {d : DistEntry} (h : DistOwned insts dist)
    (hv : Owned insts v) (hd : ∀ p, d.2 = some p → Owned insts p) :
    DistOwned insts (dist.update v (0, none) fun _ => d) := by
  refine ⟨fun w hw => ?_, fun w p hp => ?_⟩
  · rcases OrdMap.mem_keys_update hw with rfl | hw
    · exact hv
    · exact h.1 w hw
  · rw [OrdMap.getD_update] at hp
    split_ifs at hp
    · exact hd p hp
    · exact h.2 w p hp

lemma safe_distPairs (hn : Numbered insts) (v : Vertex) (preds : List IngoingEdge)
    (hpreds : ∀ p ∈ preds, Owned insts p.parent) (dist : Dist) (hdist : DistOwned insts dist) :
    Safe insts (distPairs v preds dist) fun r =>
      DistOwned insts r.1 ∧ ∀ d ∈ r.2, ∀ p, d.2 = some p → Owned insts p := by
  induction preds generalizing dist with
  | nil => exact .pure ⟨hdist, by simp⟩
  | cons i preds ih =>
    have hi := hpreds i List.mem_cons_self
    refine .bind hn (safe_getOutgoingEdge hn hi v) fun e _ => ?_
    refine .bind hn (ih (fun p hp => hpreds p (List.mem_cons_of_mem _ hp)) _ (hdist.touch hi))
      fun r hr => .pure ⟨hr.1, ?_⟩
    intro d hd p hp
    rcases List.mem_cons.mp hd with rfl | hd
    · exact (Option.some_inj.mp hp) ▸ hi
    · exact hr.2 d hd p hp

/-- The scan returns one of the entries or none. -/
lemma scanMax_parent {pairs : List DistEntry} {p : Vertex} (h : (scanMax pairs).2.2 = some p) :
    ∃ d ∈ pairs, d.2 = some p := by
  rcases (scanMax_spec pairs).first with hbest | ⟨-, l, r, hsplit, -⟩
  · simp [hbest] at h
  · refine ⟨_, ?_, h⟩
    have hmem : (scanMax pairs).2 ∈ l ++ (scanMax pairs).2 :: r := by simp
    rwa [← hsplit] at hmem

lemma safe_updateDist (hn : Numbered insts) {dist : Dist} (hdist : DistOwned insts dist)
    (hv : Owned insts v) : Safe insts (updateDist dist v) (DistOwned insts) := by
  refine .bind hn (safe_readPred hv) fun preds hpreds => ?_
  refine .bind hn (safe_distPairs hn v preds hpreds dist hdist) fun r hr => .ite ?_ ?_
  · exact .pure (hr.1.update hv fun p hp => (Option.some_inj.mp hp) ▸ hv)
  · refine .pure (hr.1.update hv fun p hp => ?_)
    obtain ⟨d, hd, hdp⟩ := scanMax_parent hp
    exact hr.2 d hd p hdp

lemma safe_foldlM_updateDist (hn : Numbered insts) (topo : List Vertex)
    (htopo : ∀ v ∈ topo, Owned insts v) (dist : Dist) (hdist : DistOwned insts dist) :
    Safe insts (topo.foldlM updateDist dist) (DistOwned insts) := by
  induction topo generalizing dist with
  | nil => exact .pure hdist
  | cons v topo ih =>
    rw [List.foldlM_cons]
    refine .bind hn (safe_updateDist hn hdist (htopo v List.mem_cons_self)) fun dist' hdist' => ?_
    exact ih (fun w hw => htopo w (List.mem_cons_of_mem _ hw)) dist' hdist'

lemma backWalk_owned {dist : Dist} (hdist : DistOwned insts dist) (fuel : ℕ) (l : Latency)
    (w : Option Vertex) (hw : ∀ v, w = some v → Owned insts v) (path : List Vertex)
    (hpath : ∀ v ∈ path, Owned insts v) {path' : List Vertex}
    (h : backWalk dist fuel l w path = .ok path') : ∀ v ∈ path', Owned insts v := by
  induction fuel generalizing l w path with
  | zero => simp [backWalk] at h
  | succ fuel ih =>
    by_cases hl : l = 0
    · subst hl
      rw [backWalk_zero] at h
      cases h
      exact hpath
    · cases w with
      | none   =>
        rw [backWalk_none _ _ hl] at h
        cases h
      | some v =>
        rw [backWalk_some _ _ hl] at h
        refine ih _ _ (fun p hp => hdist.2 v p hp) _ ?_ h
        intro x hx
        rcases List.mem_cons.mp hx with rfl | hx
        · exact hw x rfl
        · exact hpath x hx

lemma safe_longestPathCore (hn : Numbered insts) (fuel : ℕ) :
    Safe insts (longestPathCore fuel) fun path => ∀ v ∈ path, Owned insts v := by
  refine .bind hn (safe_topologicalSort hn fuel) fun topo htopo => ?_
  refine .bind hn (safe_foldlM_updateDist hn topo htopo ∅ ⟨by simp, by simp⟩) fun dist hdist => ?_
  refine .ofExcept fun path hwalk => backWalk_owned hdist fuel _ _ ?_ [] (by simp) hwalk
  · intro v hv
    obtain ⟨d, hd, hdv⟩ := scanMax_parent hv
    obtain ⟨⟨w, d'⟩, hmem, rfl⟩ := List.mem_map.mp hd
    obtain rfl : w = v := by simpa using hdv
    exact hdist.1 w (OrdMap.mem_toList_iff (a := (0, none)).mp hmem).1

/-! ### Searches -/

/-- The edges collected by the search lead to stages of the trace. -/
def GenerationOwned (insts : List RiscvInstruction)
    (generation : List (Vertex × List OutgoingEdge)) : Prop :=
  ∀ g ∈ generation, ∀ e ∈ g.2, Owned insts e.child

lemma safe_bfsGeneration (hn : Numbered insts) (target : Vertex) (edges : List OutgoingEdge)
    (hedges : ∀ e ∈ edges, Owned insts e.child) (seen : List Vertex) :
    Safe insts (bfsGeneration target edges seen) fun r =>
      ∀ p, r = .inr p → GenerationOwned insts p.2 := by
  induction edges generalizing seen with
  | nil =>
    refine .pure fun p hp => ?_
    cases hp
    simp [GenerationOwned]
  | cons j rest ih =>
    have hj := hedges j List.mem_cons_self
    refine .ite (.pure nofun) (.bind hn (safe_ifExistEdge hn hj target) fun found _ => ?_)
    refine .ite (.pure nofun) (.ite (.pure nofun) (.bind hn (safe_readGraph hj) fun es hes => ?_))
    have hrest := ih (fun e he => hedges e (List.mem_cons_of_mem _ he)) (seen ++ [j.child])
    refine .bind hn hrest fun r hr => ?_
    cases r with
    | inl answer => exact .pure nofun
    | inr p =>
      refine .pure fun q hq => ?_
      cases hq
      intro g hg
      rcases List.mem_cons.mp hg with rfl | hg
      · exact hes
      · exact hr p rfl g hg

lemma safe_bfsLoop (hn : Numbered insts) (target : Vertex) (fuel : ℕ)
    (generation : List (Vertex × List OutgoingEdge)) (hgen : GenerationOwned insts generation)
    (seen : List Vertex) : Safe insts (bfsLoop target fuel generation seen) fun _ => True := by
  induction fuel generalizing generation seen with
  | zero => exact .throw _
  | succ fuel ih =>
    refine .ite (.pure trivial) (.bind hn (safe_bfsGeneration hn target _ ?_ seen) fun r hr => ?_)
    · intro e he
      obtain ⟨g, hg, he⟩ := List.mem_flatMap.mp he
      exact hgen g hg e he
    · cases r with
      | inl answer => exact .pure trivial
      | inr p      => exact ih p.2 (hr p rfl) p.1

lemma safe_ifExistPath (hn : Numbered insts) (fuel : ℕ) (hu : Owned insts u) (v : Vertex) :
    Safe insts (ifExistPath fuel u v) fun _ => True := by
  refine .ite (.pure trivial) (.bind hn (safe_readGraph hu) fun es hes => ?_)
  refine safe_bfsLoop hn v fuel _ ?_ []
  intro g hg
  rw [List.mem_singleton.mp hg]
  exact hes

/-- The path, if there is one, consists of stages of the trace. -/
def PathOwned (insts : List RiscvInstruction) (found : Option (List Vertex)) : Prop :=
  ∀ path, found = some path → ∀ v ∈ path, Owned insts v

lemma PathOwned.none : PathOwned insts none := nofun

lemma PathOwned.some {path : List Vertex} (h : ∀ v ∈ path, Owned insts v) :
    PathOwned insts (some path) := by
  intro path' h'
  cases h'
  exact h

lemma PathOwned.cons {path : List Vertex} (hv : Owned insts v)
    (h : PathOwned insts (Option.some path)) : PathOwned insts (Option.some (v :: path)) :=
  .some fun w hw => (List.mem_cons.mp hw).elim (fun h => h ▸ hv) (h path rfl w)

lemma safe_findFirst (hn : Numbered insts) {f : α → DegM (Option β)} {R : Option β → Prop}
    (hnone : R none) (as : List α) (hf : ∀ a ∈ as, Safe insts (f a) R) :
    Safe insts (findFirst f as) R := by
  induction as with
  | nil => exact .pure hnone
  | cons a as ih =>
    refine .bind hn (hf a List.mem_cons_self) fun b hb => ?_
    cases b with
    | some b => exact .pure hb
    | none   => exact ih fun a' ha' => hf a' (List.mem_cons_of_mem _ ha')

lemma safe_findPath (hn : Numbered insts) (target : Vertex) (fuel : ℕ) (hv : Owned insts v) :
    Safe insts (findPath target fuel v) (PathOwned insts) := by
  induction fuel generalizing v with
  | zero => exact .throw _
  | succ fuel ih =>
    refine .bind hn (safe_ifExistEdge hn hv target) fun found _ => .ite ?_ ?_
    · exact .pure (.some (by simpa using hv))
    · refine .bind hn (safe_readGraph hv) fun es hes => ?_
      refine .bind hn (safe_findFirst hn .none es fun e he => ih (hes e he)) fun r hr => ?_
      cases r with
      | some path => exact .pure (hr.cons hv)
      | none      => exact .pure .none

/-- The search for the commit stage connects it to a sink that is not before it. -/
lemma safe_fromCToSink (hn : Numbered insts) {sink : Vertex} (hsink : Owned insts sink)
    (htype : sink.type = .c) (hseq : insts.length ≤ sink.instSeq) (fuel : ℕ)
    (hv : Owned insts v) : Safe insts (fromCToSink sink fuel v) (PathOwned insts) := by
  induction fuel generalizing v with
  | zero => exact .throw _
  | succ fuel ih =>
    refine .bind hn (safe_readGraph hv) fun es hes => ?_
    cases hfind : es.find? (·.child.instSeq = v.instSeq) with
    | none   => exact .pure .none
    | some j =>
      have hj := hes j (List.mem_of_find?_eq_some hfind)
      by_cases hc : j.child.type = .c
      · have hle : j.child.rank ≤ sink.rank := by
          have := (hj.instSeq_mem hn).2
          unfold Vertex.rank
          rw [hc, htype]
          omega
        simp only [hc, if_true]
        refine .bind hn (safe_addVirtualEdge hn hj hsink hle) fun _ _ => .pure (.some ?_)
        simpa using ⟨hv, hj⟩
      · simp only [hc, if_false]
        refine .bind hn (ih hj) fun r hr => ?_
        cases r with
        | some path => exact .pure (hr.cons hv)
        | none      => exact .pure .none

/-! ### The critical path and its report -/

lemma safe_getSourceVertex (hn : Numbered insts) :
    Safe insts getSourceVertex fun v =>
      Owned insts v ∧ v.instSeq = 1 ∧ v.type = .f1 := by
  refine .bind hn .get fun s hs => ?_
  cases hkeys : s.graph.keys with
  | nil      => exact .throw _
  | cons v _ =>
    by_cases hv : v.instSeq = 1 ∧ v.type = .f1
    · simp only [hv, and_self, if_true]
      exact .pure ⟨hs.1.keys v (hkeys ▸ List.mem_cons_self), hv⟩
    · simp only [hv, if_false]
      exact .throw _

lemma safe_getSinkVertex (hn : Numbered insts) :
    Safe insts getSinkVertex fun v =>
      Owned insts v ∧ v.type = .c ∧ insts.length ≤ v.instSeq := by
  refine .bind hn .get fun s hs => ?_
  split
  · rename_i e hfind
    obtain ⟨⟨w, es⟩, hentry, he⟩ := List.mem_flatMap.mp (List.mem_of_find?_eq_some hfind)
    have hprop := List.find?_some hfind
    simp only [decide_eq_true_eq] at hprop
    obtain ⟨hw, hes⟩ := ListMap.mem_toList.mp hentry
    refine .pure ⟨(hs.1.child w (hs.1.keys w hw) e ?_).1, hprop.2, hprop.1 ▸ hs.2⟩
    rwa [O3Graph.outgoing, ← hes]
  · exact .throw _

lemma safe_pathHead (hn : Numbered insts) (fuel : ℕ) {first : Vertex}
    (hfirst : Owned insts first) :
    Safe insts (pathHead fuel first) fun path => ∀ v ∈ path, Owned insts v := by
  refine .bind hn (safe_getSourceVertex hn) fun source hsource => ?_
  refine .bind hn (safe_ifExistPath hn fuel hsource.1 first) fun found _ => .ite ?_ ?_
  · refine .bind hn (safe_findPath hn first fuel hsource.1) fun r hr => .pure ?_
    cases r with
    | some path => exact hr path rfl
    | none      => simp
  · -- the first fetch is not after any stage
    have hle : source.rank ≤ first.rank := by
      have := (hfirst.instSeq_mem hn).1
      unfold Vertex.rank
      rw [hsource.2.1, hsource.2.2]
      have : VertexType.f1.num = 0 := rfl
      omega
    refine .bind hn (safe_addVirtualEdge hn hsource.1 hfirst hle) fun _ _ => .pure ?_
    simpa using hsource.1

lemma safe_findTail (hn : Numbered insts) (fuel : ℕ) {last sink : Vertex}
    (hlast : Owned insts last) (hsink : Owned insts sink) (htype : sink.type = .c)
    (hseq : insts.length ≤ sink.instSeq) :
    Safe insts (findTail fuel last sink) (PathOwned insts) :=
  .bind hn (safe_ifExistPath hn fuel hlast sink) fun _ _ =>
    .ite (safe_findPath hn sink fuel hlast) (safe_fromCToSink hn hsink htype hseq fuel hlast)

lemma safe_pathTail (hn : Numbered insts) (fuel : ℕ) {last : Vertex} (hlast : Owned insts last) :
    Safe insts (pathTail fuel last) fun path => ∀ v ∈ path, Owned insts v := by
  refine .bind hn (safe_getSinkVertex hn) fun sink hsink => ?_
  refine .bind hn (safe_findTail hn fuel hlast hsink.1 hsink.2.1 hsink.2.2) fun r hr => ?_
  rcases r with - | - | ⟨v, path⟩
  · exact .throw _
  · exact .throw _
  · refine .pure fun w hw => ?_
    rcases List.mem_append.mp hw with hw | hw
    · exact hr _ rfl w (List.mem_cons_of_mem _ hw)
    · exact (List.mem_singleton.mp hw) ▸ hsink.1

lemma safe_longestPathImpl (hn : Numbered insts) (fuel : ℕ) :
    Safe insts (longestPathImpl fuel) fun path => ∀ v ∈ path, Owned insts v := by
  refine .bind hn (safe_longestPathCore hn fuel) fun core hcore => ?_
  cases core with
  | nil => exact .throw _
  | cons first rest =>
    refine .bind hn (safe_pathHead hn fuel (hcore first List.mem_cons_self)) fun head hhead => ?_
    have hpath : ∀ v ∈ head ++ first :: rest, Owned insts v := fun v hv =>
      (List.mem_append.mp hv).elim (hhead v) (hcore v)
    refine .bind hn (safe_pathTail hn fuel (hpath _ (List.getLast_mem _))) fun tail htail => ?_
    exact .pure fun v hv => (List.mem_append.mp hv).elim (hpath v) (htail v)

lemma safe_pathEdges (hn : Numbered insts) (path : List Vertex)
    (hpath : ∀ v ∈ path, Owned insts v) : Safe insts (pathEdges path) fun _ => True := by
  induction path with
  | nil => exact .pure trivial
  | cons u path ih =>
    cases path with
    | nil => exact .pure trivial
    | cons v path =>
      refine .bind hn (safe_getOutgoingEdge hn (hpath u List.mem_cons_self) v) fun e _ => ?_
      exact .bind hn (ih fun w hw => hpath w (List.mem_cons_of_mem _ hw)) fun _ _ => .pure trivial

lemma safe_longestPath (hn : Numbered insts) (fuel : ℕ) :
    Safe insts (longestPath fuel) fun path => ∀ v ∈ path, Owned insts v :=
  .bind hn (safe_longestPathImpl hn fuel) fun path hpath =>
    .bind hn (safe_pathEdges hn path hpath) fun _ _ => .pure hpath

lemma safe_profileLoop (hn : Numbered insts) (path : List Vertex)
    (hpath : ∀ v ∈ path, Owned insts v) (report : BottleneckReport) (length : Latency) :
    Safe insts (profileLoop path report length) fun _ => True := by
  induction path generalizing report length with
  | nil => exact .pure trivial
  | cons u path ih =>
    cases path with
    | nil => exact .pure trivial
    | cons v path =>
      refine .bind hn (safe_getOutgoingEdge hn (hpath u List.mem_cons_self) v) fun e _ => ?_
      cases matchName registerBottlenecks e.bottleneck.repr with
      | some b => exact ih (fun w hw => hpath w (List.mem_cons_of_mem _ hw)) _ _
      | none   => exact .throw _

lemma safe_reportEdges (hn : Numbered insts) (path : List Vertex)
    (hpath : ∀ v ∈ path, Owned insts v) : Safe insts (reportEdges path) fun _ => True := by
  induction path with
  | nil => exact .pure trivial
  | cons u path ih =>
    cases path with
    | nil => exact .pure trivial
    | cons v path =>
      refine .bind hn (safe_getOutgoingEdge hn (hpath u List.mem_cons_self) v) fun e _ => ?_
      exact .bind hn (ih fun w hw => hpath w (List.mem_cons_of_mem _ hw)) fun _ _ => .pure trivial

lemma safe_generateReport (hn : Numbered insts) (report : BottleneckReport) (path : List Vertex)
    (hpath : ∀ v ∈ path, Owned insts v) :
    Safe insts (generateReport report path) fun _ => True :=
  .bind hn (safe_reportEdges hn path hpath) fun _ _ =>
    .bind hn (.ofExcept fun _ _ => trivial) fun _ _ => .pure (R := fun _ => True) trivial

lemma safe_profilingCriticalPath (hn : Numbered insts) (path : List Vertex)
    (hpath : ∀ v ∈ path, Owned insts v) :
    Safe insts (profilingCriticalPath path) fun _ => True := by
  refine .bind hn (safe_profileLoop hn path hpath {} 0) fun r _ => ?_
  refine .bind hn (safe_getSinkVertex hn) fun sink _ => ?_
  refine .bind hn (safe_getSourceVertex hn) fun source _ => .ite (.throw _) ?_
  exact .bind hn (safe_generateReport hn _ path hpath) fun _ _ => .pure trivial

/-- Whatever its outcome, an analysis enters only virtual edges between stages of the trace. -/
theorem safe_analyzeWindow (hn : Numbered insts) (fuel : ℕ) :
    Safe insts (analyzeWindow fuel) fun _ => True := by
  refine .bind hn (safe_constructInducedGraph hn) fun _ _ => ?_
  refine .bind hn (safe_longestPath hn fuel) fun path hpath => ?_
  exact .bind hn (safe_profilingCriticalPath hn path hpath) fun _ _ => .pure trivial

end ArchExplorer.Deg
