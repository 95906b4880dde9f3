import Mathlib.Data.List.MinMax
import Mathlib.Data.List.TakeWhile
import ArchExplorer.Lib.Scan
import ArchExplorer.Deg.Edges
import ArchExplorer.Deg.Window
import ArchExplorer.Core.Construction
import ArchExplorer.Compare.Records

/-!
# The producer of an operand

The search for the producer of an operand means to pick the instruction with the last result among
those from the nearest one on that write a source register. Its inner loop advances the position but
looks at the nearest instruction all the time, in both backends, so that the nearest one is picked
whenever its result has a tick.
-/

namespace ArchExplorer.Compare

section Latest

variable {α : Type} {dep : α → Bool} {tick : α → ℤ} {const : ℕ} {past : List α} {p : α}

/-- The entries from the nearest dependent one on, `const` of them. -/
def searched (dep : α → Bool) (const : ℕ) (past : List α) : List α :=
  (past.dropWhile fun p => !dep p).take const

/-- The dependent entry with the greatest tick among them, the nearest one of several. -/
noncomputable def latest (dep : α → Bool) (tick : α → ℤ) (const : ℕ) (past : List α) : Option α :=
  ((searched dep const past).filter dep).argmax tick

/-- No dependent entry among them has a greater tick than the nearest one. -/
def NearestIsLatest (dep : α → Bool) (tick : α → ℤ) (const : ℕ) (past : List α) : Prop :=
  ∀ p ∈ past.find? dep, ∀ q ∈ searched dep const past, dep q = true → tick q ≤ tick p

instance : Decidable (NearestIsLatest dep tick const past) :=
  inferInstanceAs (Decidable (∀ p ∈ past.find? dep, _))

/-- The first of several candidates is selected unless a later one is greater. -/
lemma argmax_cons_eq_some_iff {a : α} {l : List α} (ha : a ∉ l) :
    (a :: l).argmax tick = some a ↔ ∀ b ∈ l, tick b ≤ tick a := by
  rw [List.argmax_cons]
  cases hl : l.argmax tick with
  | none   => simp [List.argmax_eq_none.mp hl]
  | some c =>
    have hc : c ∈ l := List.argmax_mem hl
    constructor
    · intro h b hb
      refine (List.le_of_mem_argmax hb hl).trans (not_lt.mp fun hlt => ha ?_)
      obtain rfl : c = a := by simpa [hlt] using h
      exact hc
    · intro h
      simp [not_lt.mpr (h c hc)]

lemma latest_eq_find?_iff (hconst : 0 < const) (hnodup : past.Nodup) :
    latest dep tick const past = past.find? dep ↔ NearestIsLatest dep tick const past := by
  have hfind := past.find?_eq_head?_dropWhile_not dep
  unfold latest NearestIsLatest searched
  obtain ⟨k, rfl⟩ := Nat.exists_eq_succ_of_ne_zero hconst.ne'
  cases hdrop : past.dropWhile fun p => !dep p with
  | nil =>
    rw [hdrop] at hfind
    simp [hfind]
  | cons a l =>
    rw [hdrop, List.head?_cons] at hfind
    have hdep : dep a = true := List.find?_some hfind
    have hsub : (a :: l).Nodup := hdrop ▸ hnodup.sublist (List.dropWhile_suffix _).sublist
    have hnew : a ∉ (l.take k).filter dep := fun hmem =>
      (List.nodup_cons.mp hsub).1 (List.mem_of_mem_take (List.mem_of_mem_filter hmem))
    rw [List.take_succ_cons, List.filter_cons_of_pos hdep, hfind, argmax_cons_eq_some_iff hnew]
    simp [List.mem_filter]

/-- A dependent entry is selected if there is one. -/
lemma latest_isSome (hconst : 0 < const) :
    (latest dep tick const past).isSome = (past.find? dep).isSome := by
  have hfind := past.find?_eq_head?_dropWhile_not dep
  unfold latest searched
  obtain ⟨k, rfl⟩ := Nat.exists_eq_succ_of_ne_zero hconst.ne'
  cases hdrop : past.dropWhile fun p => !dep p with
  | nil => rw [hfind, hdrop]; rfl
  | cons a l =>
    rw [hdrop, List.head?_cons] at hfind
    rw [List.take_succ_cons, List.filter_cons_of_pos (List.find?_some hfind), hfind,
      Option.isSome_some, Option.isSome_iff_ne_none, Ne, List.argmax_eq_none]
    exact List.cons_ne_nil _ _

lemma mem_of_latest (h : latest dep tick const past = some p) : p ∈ past :=
  (List.dropWhile_suffix _).subset
    (List.mem_of_mem_take (List.mem_of_mem_filter (List.argmax_mem h)))

/-- If the edge of the nearest dependent entry is added, then the edge of the one with the greatest
tick is added exactly if they are the same entry. -/
lemma adds_latest_iff {β : Type} {Adds : List β → Prop} {edge : α → β} (hconst : 0 < const)
    (hnodup : past.Nodup) (hadds : Adds ((past.find? dep).map edge).toList)
    (hinj : ∀ p ∈ past, ∀ q ∈ past, Adds [edge p] → Adds [edge q] → p = q) :
    Adds ((latest dep tick const past).map edge).toList ↔
      NearestIsLatest dep tick const past := by
  rw [← latest_eq_find?_iff hconst hnodup]
  constructor
  · intro hlatest
    have hsome : (latest dep tick const past).isSome = (past.find? dep).isSome :=
      latest_isSome hconst
    cases hfind : past.find? dep with
    | none   => simpa [hfind] using hsome
    | some p =>
      rw [hfind, Option.isSome_some, Option.isSome_iff_exists] at hsome
      obtain ⟨q, hq⟩ := hsome
      rw [hfind] at hadds
      rw [hq] at hlatest ⊢
      rw [hinj p (List.mem_of_find?_eq_some hfind) q (mem_of_latest hq) hadds hlatest]
  · intro heq
    rwa [heq]

end Latest

end ArchExplorer.Compare

namespace ArchExplorer.Deg

open ArchExplorer.Lib ArchExplorer.Compare

variable {past : List RiscvInstruction} {inst p q : RiscvInstruction} {s : O3Graph}

/-- `p` writes a source register of `inst`. -/
def producesFor (inst p : RiscvInstruction) : Bool := inst.src.contains p.dst

/-- The edge from a producer. -/
def rawEdge (inst dep : RiscvInstruction) : Vertex × OutgoingEdge :=
  issueEdge (rawBottleneck inst dep) dep inst

/-- The edges of the producer with the last result. -/
noncomputable def latestEdges (past : List RiscvInstruction) (inst : RiscvInstruction) :
    List (Vertex × OutgoingEdge) :=
  ((latest (producesFor inst) (fun p => (resultTick p).toNat) rawConst past).map
    (rawEdge inst)).toList

/-- The outer loop stops at a producer, which the inner loop keeps, and goes on otherwise. -/
lemma rawOuter_succ (ho : Older past inst) (hpos : ∀ p ∈ past, 0 < resultTick p) {const : ℕ}
    (hconst : 0 < const) (k n : ℕ) (hn : n < past.length) :
    rawOuter inst const past (k + 1) n 0 none =
      if producesFor inst past[n] = true then .ok (some past[n])
      else rawOuter inst const past k (n + 1) 0 none := by
  have hp := ho _ (List.getElem_mem hn)
  have hraw : rawDep inst past[n] = .ok (producesFor inst past[n]) := if_pos hp
  rw [rawOuter, List.getElem?_eq_getElem hn]
  simp only [hraw, ok_bind]
  cases hdep : producesFor inst past[n] with
  | false => rfl
  | true =>
    obtain ⟨c, rfl⟩ := Nat.exists_eq_succ_of_ne_zero hconst.ne'
    have hlt : 0 < resultTick past[n] := hpos _ (List.getElem_mem hn)
    obtain ⟨n', t', dep', hinner, hkept⟩ := rawInner_ok hp past.length c (n + 1)
      (resultTick past[n]) (some past[n])
    have hstep : rawInner inst past[n] past.length (c + 1) n 0 none = .ok (n', t', dep') := by
      rw [rawInner, if_pos hn, hraw, ok_bind, hdep, ← hinner]
      simp [hlt]
    rw [hstep, hkept.elim id id]
    rfl

lemma rawOuter_eq_find? (ho : Older past inst) (hpos : ∀ p ∈ past, 0 < resultTick p) {const : ℕ}
    (hconst : 0 < const) (k n : ℕ) (hk : past.length < k + n) :
    rawOuter inst const past k n 0 none = .ok ((past.drop n).find? (producesFor inst)) := by
  refine Scan.loop_eq_find? (f := fun k n => rawOuter inst const past k n 0 none)
    (fun k n hn => ?_) (rawOuter_succ ho hpos hconst) k n hk
  cases k with
  | zero   => rfl
  | succ k => rw [rawOuter, List.getElem?_eq_none hn]

lemma rawEdges_eq (ho : Older past inst) (hready : inst.dispatch < inst.insertReadyList)
    (hpos : ∀ p ∈ past, 0 < resultTick p) :
    rawEdges past inst = ((past.find? (producesFor inst)).map (rawEdge inst)).toList := by
  rw [rawEdges, if_pos hready, rawOuter_eq_find? ho hpos (by decide) _ _ (by omega), List.drop_zero]
  cases past.find? (producesFor inst) <;> rfl

/-- Two lists with at most one edge from a producer lead to the same graph only if they are the same
list. -/
lemma eq_of_connectAll_rawEdge (hn : Numbered (inst :: past)) {p q : RiscvInstruction}
    (hp : p ∈ past) (hq : q ∈ past)
    (h : s.connectAll [rawEdge inst p] = s.connectAll [rawEdge inst q]) : p = q := by
  have hown {r : RiscvInstruction} (hr : r ∈ past) : Owned (inst :: past) (issueStage r) :=
    .of_mem (List.mem_cons_of_mem _ hr) issueStage_mem
  have hout (r : RiscvInstruction) (hr : r ∈ past) :
      (s.connectAll [rawEdge inst r]).outgoing (issueStage p) =
        s.outgoing (issueStage p) ++
          ([rawEdge inst r].filter (·.1 = issueStage p)).map (·.2) :=
    outgoing_connectAll hn s (by simpa [rawEdge, issueEdge] using hown hr) (hown hp)
  by_contra hne
  have hstage : issueStage q ≠ issueStage p := fun heq => hne (by
    rw [← issueStage_inst (i := p), ← heq, issueStage_inst])
  have hsame := congrArg (fun s => s.outgoing (issueStage p)) h
  rw [hout p hp, hout q hq, List.append_cancel_left_eq] at hsame
  simp [rawEdge, issueEdge, hstage] at hsame

/-- The state in which the producers of an instruction are searched. -/
lemma exists_built (history : List TraceLine) (line : TraceLine) :
    ∃ s, Built False (⟨line, history.length + 1⟩ :: readAll [] history) (readAll [] history) []
      s := by
  obtain ⟨s, -, h⟩ := (Built.init (V := False) history).modelSteps history.length
  rw [List.take_length] at h
  exact ⟨_, h.model (by rw [length_readAll, List.length_nil, Nat.zero_add]) []⟩

lemma nodup_of_numbered {insts : List RiscvInstruction} (h : Numbered insts) : insts.Nodup := by
  induction insts with
  | nil => exact List.nodup_nil
  | cons inst insts ih =>
    refine List.nodup_cons.mpr ⟨fun hmem => ?_, ih h.2⟩
    have := (h.2.instSeq_mem hmem).2
    have := h.1
    omega

/-- The search enters the edge from the producer with the last result exactly if this is the nearest
one. -/
lemma enters_latestEdges_iff (history : List TraceLine) (line : TraceLine)
    (hready : line.dispatch < line.insertReadyList)
    (hpos : ∀ p ∈ readAll [] history, 0 < resultTick p) :
    Enters (readAll [] history) ⟨line, history.length + 1⟩
        (modelRawInteractionImpl ⟨line, history.length + 1⟩ rawConst)
        (latestEdges (readAll [] history) ⟨line, history.length + 1⟩) ↔
      NearestIsLatest (producesFor ⟨line, history.length + 1⟩)
        (fun p => (resultTick p).toNat) rawConst (readAll [] history) := by
  obtain ⟨s, h⟩ := exists_built history line
  have ho := h.numbered.older
  refine adds_latest_iff (by decide) (nodup_of_numbered h.numbered.2) ?_ ?_
  · rw [← rawEdges_eq ho hready hpos]
    exact enters_raw ho
  · intro p hp q hq hadds hadds'
    have heq := (hadds False [] s h).symm.trans (hadds' False [] s h)
    exact eq_of_connectAll_rawEdge h.numbered hp hq (congrArg Prod.snd heq)

end ArchExplorer.Deg

namespace ArchExplorer.Core

open ArchExplorer.Lib ArchExplorer.Compare

variable {past : List RiscvInstruction} {inst p q : RiscvInstruction} {s : Graph}

/-- `p` writes a source register of `inst`. -/
def producesFor (inst p : RiscvInstruction) : Bool := inst.src.contains p.dst

/-- The edge from a producer. -/
def rawEdge (inst dependency : RiscvInstruction) : Edge :=
  issueEdge (rawBottleneck inst dependency) dependency inst

/-- The edges of the producer with the last result. -/
noncomputable def latestEdges (past : List RiscvInstruction) (inst : RiscvInstruction) :
    List Edge :=
  ((latest (producesFor inst) resultCycle rawConst past).map (rawEdge inst)).toList

lemma rawOuter_succ (ho : Older past inst) (hpos : ∀ p ∈ past, 0 < resultCycle p) {const : ℕ}
    (hconst : 0 < const) (n i : ℕ) (hi : i < past.length) :
    rawOuter inst const past (n + 1) i 0 none =
      if producesFor inst past[i] = true then .ok (some past[i])
      else rawOuter inst const past n (i + 1) 0 none := by
  have hp := ho _ (List.getElem_mem hi)
  have hraw : rawDep inst past[i] = .ok (producesFor inst past[i]) := if_pos hp
  rw [rawOuter, List.getElem?_eq_getElem hi]
  simp only [hraw, ok_bind]
  cases hdep : producesFor inst past[i] with
  | false => rfl
  | true =>
    obtain ⟨c, rfl⟩ := Nat.exists_eq_succ_of_ne_zero hconst.ne'
    have hlt : 0 < resultCycle past[i] := hpos _ (List.getElem_mem hi)
    obtain ⟨⟨i', t', dep'⟩, hinner, hkept⟩ := rawInner_ok hp past.length c (i + 1)
      (resultCycle past[i]) (some past[i])
    have hstep : rawInner inst past[i] past.length (c + 1) i 0 none = .ok (i', t', dep') := by
      rw [rawInner, if_pos hi, hraw, ok_bind, hdep, ← hinner]
      simp [hlt]
    obtain rfl : dep' = some past[i] := hkept.elim id id
    rw [if_pos rfl, hstep]
    rfl

lemma rawOuter_eq_find? (ho : Older past inst) (hpos : ∀ p ∈ past, 0 < resultCycle p) {const : ℕ}
    (hconst : 0 < const) (n i : ℕ) (hn : past.length < n + i) :
    rawOuter inst const past n i 0 none = .ok ((past.drop i).find? (producesFor inst)) := by
  refine Scan.loop_eq_find? (f := fun n i => rawOuter inst const past n i 0 none)
    (fun n i hi => ?_) (rawOuter_succ ho hpos hconst) n i hn
  cases n with
  | zero   => rfl
  | succ n => rw [rawOuter, List.getElem?_eq_none hi]

lemma rawEdges_eq (ho : Older past inst) (hready : inst.dispatch < inst.insertReadyList)
    (hpos : ∀ p ∈ past, 0 < resultCycle p) :
    rawEdges past inst = ((past.find? (producesFor inst)).map (rawEdge inst)).toList := by
  rw [rawEdges, if_pos hready, rawOuter_eq_find? ho hpos (by decide) _ _ (by omega), List.drop_zero]
  cases past.find? (producesFor inst) <;> rfl

/-- There is no edge between the issue stages of two instructions before the dependences of the
later one are added. -/
lemma Chained.get?_issue (h : Chained past inst s) (hd : Descending (inst :: past))
    (hp : p ∈ past) :
    s.graph.edges.get? ((issuedNode p).name, (issuedNode inst).name) = none := by
  have ho : Older past inst := (List.pairwise_cons.mp hd).1
  rw [h.edges_eq, Option.eq_none_iff_forall_ne_some]
  intro e he
  obtain ⟨hmem, hkey⟩ := mem_of_edgeDict he
  obtain ⟨hu, hv⟩ := Prod.mk.inj hkey
  have hu := (uniqueName_inj hu).1
  have hv := (uniqueName_inj hv).1
  rw [issuedNode_seq] at hu hv
  rcases List.mem_append.mp hmem with hmem | hmem
  · -- an edge between earlier instructions
    obtain ⟨-, i, hi, hn⟩ := owned_traceEdges (List.pairwise_cons.mp hd).2 hmem
    have := ho i hi
    rw [← seq_of_mem hn] at this
    omega
  · -- an edge of the chain of the instruction
    have := seq_of_mem (ends_mem_modelNodes e hmem).1
    have := ho p hp
    omega

/-- Adding the edge of another producer leads to another graph. -/
lemma Chained.eq_of_connect_rawEdge (h : Chained past inst s) (hd : Descending (inst :: past))
    (hp : p ∈ past) (hq : q ∈ past)
    (heq : s.connect [rawEdge inst p] = s.connect [rawEdge inst q]) : p = q := by
  have hedges := congrArg (fun s : Graph =>
    s.graph.edges.get? ((issuedNode p).name, (issuedNode inst).name)) heq
  simp only [edges_connect, List.foldl_cons, List.foldl_nil] at hedges
  by_contra hne
  have hname : (issuedNode q).name ≠ (issuedNode p).name := fun hname => hne (by
    have := (uniqueName_inj hname).1
    rw [issuedNode_seq, issuedNode_seq] at this
    exact h.located.unique _ (List.mem_cons_of_mem _ hp) _ (List.mem_cons_of_mem _ hq) this.symm)
  simp [rawEdge, issueEdge, skewEdge, Dict.get?_set, h.get?_issue hd hp, hname.symm] at hedges

/-- The search adds the edge from the producer with the last result exactly if this is the nearest
one. -/
lemma adds_latestEdges_iff (history : List TraceLine) (line : TraceLine)
    (hready : line.dispatch < line.insertReadyList)
    (hpos : ∀ p ∈ (instructionStream history).reverse, 0 < resultCycle p) :
    Adds (⟨line, history.length + 1⟩ :: (instructionStream history).reverse)
        (instructionStream history).reverse
        (modelRawInteraction ⟨line, history.length + 1⟩ rawConst)
        (latestEdges (instructionStream history).reverse ⟨line, history.length + 1⟩) ↔
      NearestIsLatest (producesFor ⟨line, history.length + 1⟩) resultCycle rawConst
        (instructionStream history).reverse := by
  have hd : Descending (⟨line, history.length + 1⟩ :: (instructionStream history).reverse) := by
    have := descending_stream (history ++ [line])
    simpa [instructionStream, List.zipIdx_append, Nat.add_comm] using this
  have ho := (List.pairwise_cons.mp hd).1
  obtain ⟨s, -, h⟩ := constructGraph_returns history
  obtain ⟨s', -, h'⟩ := h.chained ho
  refine adds_latest_iff (by decide) ?_ ?_ ?_
  · exact (List.pairwise_cons.mp hd).2.imp fun hlt heq => absurd (heq ▸ hlt) (lt_irrefl _)
  · rw [← rawEdges_eq ho hready hpos]
    exact fun s h hs => run_modelRaw h hs ho
  · intro p hp q hq hadds hadds'
    have heq := (hadds s' h'.located h'.insts_eq).symm.trans (hadds' s' h'.located h'.insts_eq)
    exact h'.eq_of_connect_rawEdge hd hp hq (congrArg Prod.snd heq)

end ArchExplorer.Core

namespace ArchExplorer.Compare

/-- In both backends the edge that is added for the operands of an instruction comes from the
producer with the last result exactly if no producer has a later one than the nearest. -/
theorem raw_latest_iff (history : List Deg.TraceLine) (line : Deg.TraceLine)
    (hready : line.dispatch < line.insertReadyList)
    (hpos : ∀ p ∈ Deg.readAll [] history, 0 < Deg.resultTick p)
    (history' : List Core.TraceLine) (line' : Core.TraceLine)
    (hready' : line'.dispatch < line'.insertReadyList)
    (hpos' : ∀ p ∈ (Core.instructionStream history').reverse, 0 < Core.resultCycle p) :
    (Deg.Enters (Deg.readAll [] history) ⟨line, history.length + 1⟩
        (Deg.modelRawInteractionImpl ⟨line, history.length + 1⟩ Deg.rawConst)
        (Deg.latestEdges (Deg.readAll [] history) ⟨line, history.length + 1⟩) ↔
      NearestIsLatest (Deg.producesFor ⟨line, history.length + 1⟩)
        (fun p => (Deg.resultTick p).toNat) Deg.rawConst (Deg.readAll [] history)) ∧
    (Core.Adds (⟨line', history'.length + 1⟩ :: (Core.instructionStream history').reverse)
        (Core.instructionStream history').reverse
        (Core.modelRawInteraction ⟨line', history'.length + 1⟩ Core.rawConst)
        (Core.latestEdges (Core.instructionStream history').reverse ⟨line', history'.length + 1⟩) ↔
      NearestIsLatest (Core.producesFor ⟨line', history'.length + 1⟩) Core.resultCycle
        Core.rawConst (Core.instructionStream history').reverse) :=
  ⟨Deg.enters_latestEdges_iff history line hready hpos,
    Core.adds_latestEdges_iff history' line' hready' hpos'⟩

/-- A division with a long latency. -/
def longDiv : Deg.TraceLine :=
  { Deg.addAt 1 [1] 5 with
    inst := "div"
    instType := .intDiv
    complete := 25
    commitHead := 26
    commit := 26
    fu := 1 }

/-- An addition that is issued behind the division and has its result before it. -/
def shortAdd : Deg.TraceLine :=
  { Deg.addAt 2 [1] 6 with
    commitHead := 27
    commit := 27 }

/-- An addition that waits for both results. -/
def waitingAdd : Deg.TraceLine :=
  { Deg.addAt 3 [5, 6] 7 with
    insertReadyList := 25
    issue := 25
    complete := 26
    commitHead := 28
    commit := 28 }

/-- An addition and the division, whose result comes later. -/
def producers : List Deg.TraceLine := [Deg.addAt 0 [1] 6, longDiv]

/-- Both instructions produce an operand, and both backends add the edge of the division. -/
theorem raw_latest_iff_producers :
    (∀ p ∈ Deg.readAll [] producers, Deg.producesFor ⟨waitingAdd, 3⟩ p = true) ∧
    NearestIsLatest (Deg.producesFor ⟨waitingAdd, 3⟩) (fun p => (Deg.resultTick p).toNat)
      Deg.rawConst (Deg.readAll [] producers) ∧
    Deg.Enters (Deg.readAll [] producers) ⟨waitingAdd, 3⟩
      (Deg.modelRawInteractionImpl ⟨waitingAdd, 3⟩ Deg.rawConst)
      (Deg.latestEdges (Deg.readAll [] producers) ⟨waitingAdd, 3⟩) ∧
    NearestIsLatest (Core.producesFor ⟨line waitingAdd, 3⟩) Core.resultCycle Core.rawConst
      (Core.instructionStream (producers.map line)).reverse ∧
    Core.Adds (⟨line waitingAdd, 3⟩ :: (Core.instructionStream (producers.map line)).reverse)
      (Core.instructionStream (producers.map line)).reverse
      (Core.modelRawInteraction ⟨line waitingAdd, 3⟩ Core.rawConst)
      (Core.latestEdges (Core.instructionStream (producers.map line)).reverse
        ⟨line waitingAdd, 3⟩) := by
  have hlatest : NearestIsLatest (Deg.producesFor ⟨waitingAdd, 3⟩)
      (fun p => (Deg.resultTick p).toNat) Deg.rawConst (Deg.readAll [] producers) := by
    decide +kernel
  have hlatest' : NearestIsLatest (Core.producesFor ⟨line waitingAdd, 3⟩) Core.resultCycle
      Core.rawConst (Core.instructionStream (producers.map line)).reverse := by decide +kernel
  obtain ⟨hiff, hiff'⟩ := raw_latest_iff producers waitingAdd (by decide) (by decide)
    (producers.map line) (line waitingAdd) (by decide) (by decide)
  exact ⟨by decide, hlatest, hiff.mpr hlatest, hlatest', hiff'.mpr hlatest'⟩

/-- Both backends add the edge of the short addition and none of the division, whose result is the
last one. -/
theorem shortAdd_selected :
    Deg.resultTick ⟨shortAdd, 2⟩ < Deg.resultTick ⟨longDiv, 1⟩ ∧
    (Deg.rawDep ⟨waitingAdd, 3⟩ ⟨longDiv, 1⟩).toOption = some true ∧
    (((Deg.modelSteps 3).run (.init [longDiv, shortAdd, waitingAdd])).2.outgoing
      (Deg.issueStage ⟨longDiv, 1⟩)).map (fun o => o.child.instSeq) = [1] ∧
    (((Deg.modelSteps 3).run (.init [longDiv, shortAdd, waitingAdd])).2.outgoing
      (Deg.issueStage ⟨shortAdd, 2⟩)).map (fun o => (o.child.instSeq, o.bottleneck)) =
        [(2, .base), (3, .raw)] ∧
    ((Core.constructGraph ([longDiv, shortAdd, waitingAdd].map line)).run .init).2.graph.edges.get?
      ("1-I", "3-I") = none ∧
    (((Core.constructGraph ([longDiv, shortAdd, waitingAdd].map line)).run
      .init).2.graph.edges.get? ("2-I", "3-I")).map Core.Edge.bottleneck = some .raw := by
  decide +kernel

end ArchExplorer.Compare
