import Mathlib.Data.Finset.Card
import Mathlib.Data.List.Sort
import Mathlib.Logic.Relation
import ArchExplorer.Lib.Dict

/-!
# Directed graphs in insertion order

A graph keeps its nodes and its edges in dictionaries. At most one edge joins two nodes in one
direction, and adding it again replaces its data. The order of the edges of a node is the order in
which they were added.
-/

namespace ArchExplorer.Lib

/-- A directed graph with node data `N` and edge data `E`. A node that was only mentioned by an edge
has no data. -/
structure DiGraph (K N E : Type) [DecidableEq K] where
  nodes : Dict K (Option N)
  edges : Dict (K × K) E
  closed : ∀ k ∈ edges.keys, k.1 ∈ nodes.keys ∧ k.2 ∈ nodes.keys

namespace DiGraph

variable {K N E : Type} [DecidableEq K]

/-- The graph without nodes. -/
def empty : DiGraph K N E := ⟨.empty, .empty, by simp⟩

/-- Add a node, or replace its data. -/
def addNode (g : DiGraph K N E) (k : K) (n : N) : DiGraph K N E where
  nodes := g.nodes.set k (some n)
  edges := g.edges
  closed := fun e he =>
    ⟨Dict.mem_keys_set.mpr (.inr (g.closed e he).1), Dict.mem_keys_set.mpr (.inr (g.closed e he).2)⟩

/-- Add a node without data unless it exists. -/
def mention (nodes : Dict K (Option N)) (k : K) : Dict K (Option N) :=
  match nodes.get? k with
  | some _ => nodes
  | none   => nodes.set k none

lemma mention_of_mem {nodes : Dict K (Option N)} {k : K} {d : Option N}
    (h : nodes.get? k = some d) : mention nodes k = nodes := by
  rw [mention, h]

lemma mem_keys_mention {nodes : Dict K (Option N)} {k k' : K} :
    k' ∈ (mention nodes k).keys ↔ k' = k ∨ k' ∈ nodes.keys := by
  rw [mention]
  cases h : nodes.get? k with
  | none   => exact Dict.mem_keys_set
  | some d =>
    refine ⟨Or.inr, ?_⟩
    rintro (rfl | h')
    · exact Dict.mem_keys_of_get? h
    · exact h'

/-- Add an edge, or replace its data. -/
def addEdge (g : DiGraph K N E) (u v : K) (e : E) : DiGraph K N E where
  nodes := mention (mention g.nodes u) v
  edges := g.edges.set (u, v) e
  closed := by
    intro k hk
    rcases Dict.mem_keys_set.mp hk with rfl | hk
    · exact ⟨mem_keys_mention.mpr (.inr (mem_keys_mention.mpr (.inl rfl))),
        mem_keys_mention.mpr (.inl rfl)⟩
    · obtain ⟨h₁, h₂⟩ := g.closed k hk
      exact ⟨mem_keys_mention.mpr (.inr (mem_keys_mention.mpr (.inr h₁))),
        mem_keys_mention.mpr (.inr (mem_keys_mention.mpr (.inr h₂)))⟩

/-- The nodes with an edge to `v`. -/
def pred (g : DiGraph K N E) (v : K) : List K :=
  (g.edges.keys.filter fun k => k.2 = v).map Prod.fst

/-- The nodes with an edge from `u`. -/
def succ (g : DiGraph K N E) (u : K) : List K :=
  (g.edges.keys.filter fun k => k.1 = u).map Prod.snd

/-- The edges in the order of their first nodes. -/
def edgeList (g : DiGraph K N E) : List (K × K) :=
  g.nodes.keys.flatMap fun u => (g.succ u).map fun v => (u, v)

/-- Two nodes are joined by an edge. -/
def Adj (g : DiGraph K N E) (u v : K) : Prop := (u, v) ∈ g.edges.keys

instance (g : DiGraph K N E) (u v : K) : Decidable (g.Adj u v) :=
  inferInstanceAs (Decidable ((u, v) ∈ g.edges.keys))

variable {g : DiGraph K N E} {u v w : K}

lemma adj_iff : g.Adj u v ↔ ∃ e, g.edges.get? (u, v) = some e := Dict.mem_keys_iff

lemma mem_pred : u ∈ g.pred v ↔ g.Adj u v := by
  simp only [pred, List.mem_map, List.mem_filter, Adj, decide_eq_true_eq]
  constructor
  · rintro ⟨⟨a, b⟩, ⟨hmem, rfl⟩, rfl⟩
    exact hmem
  · exact fun h => ⟨(u, v), ⟨h, rfl⟩, rfl⟩

lemma mem_succ : v ∈ g.succ u ↔ g.Adj u v := by
  simp only [succ, List.mem_map, List.mem_filter, Adj, decide_eq_true_eq]
  constructor
  · rintro ⟨⟨a, b⟩, ⟨hmem, rfl⟩, rfl⟩
    exact hmem
  · exact fun h => ⟨(u, v), ⟨h, rfl⟩, rfl⟩

lemma mem_edgeList : (u, v) ∈ g.edgeList ↔ g.Adj u v := by
  simp only [edgeList, List.mem_flatMap, List.mem_map, mem_succ]
  constructor
  · rintro ⟨a, -, b, hab, heq⟩
    obtain ⟨rfl, rfl⟩ := Prod.mk.inj heq
    exact hab
  · exact fun h => ⟨u, (g.closed _ h).1, v, h, rfl⟩

/-- Every edge is listed once. -/
lemma nodup_edgeList : g.edgeList.Nodup := by
  rw [edgeList, List.nodup_flatMap]
  refine ⟨fun u _ => List.Nodup.map (fun _ _ h => (Prod.mk.inj h).2) ?_, ?_⟩
  · refine List.Nodup.map_on (fun k hk k' hk' heq => ?_) (g.edges.nodup_keys.filter _)
    have h := (List.mem_filter.mp hk).2
    have h' := (List.mem_filter.mp hk').2
    exact Prod.ext ((of_decide_eq_true h).trans (of_decide_eq_true h').symm) heq
  · refine g.nodes.nodup_keys.imp fun {a b} hab k hk hk' => hab ?_
    obtain ⟨v, -, rfl⟩ := List.mem_map.mp hk
    obtain ⟨v', -, heq⟩ := List.mem_map.mp hk'
    exact (Prod.mk.inj heq).1.symm

/-- The edges are listed in the order of their first nodes. -/
lemma pairwise_edgeList {R : K → K → Prop} (h : g.nodes.keys.Pairwise R) :
    g.edgeList.Pairwise fun k k' => k.1 = k'.1 ∨ R k.1 k'.1 := by
  rw [edgeList, List.pairwise_flatMap]
  refine ⟨fun u _ => ?_, h.imp fun {a b} hab k hk k' hk' => ?_⟩
  · rw [List.pairwise_map]
    exact List.pairwise_of_forall fun _ _ => .inl rfl
  · obtain ⟨v, -, rfl⟩ := List.mem_map.mp hk
    obtain ⟨v', -, rfl⟩ := List.mem_map.mp hk'
    exact .inr hab

/-! ### Paths and orders -/

/-- A directed path between two nodes. -/
structure IsPath (g : DiGraph K N E) (u v : K) (p : List K) : Prop where
  head : p.head? = some u
  last : p.getLast? = some v
  chain : p.IsChain g.Adj

lemma IsPath.exists_cons {p : List K} (h : g.IsPath u v p) : ∃ q, p = u :: q := by
  have hhead := h.head
  cases p with
  | nil => simp at hhead
  | cons a q => exact ⟨q, by rw [Option.some.inj hhead]⟩

lemma IsPath.exists_concat {p : List K} (h : g.IsPath u v p) : ∃ q, p = q ++ [v] :=
  List.getLast?_eq_some_iff.mp h.last

/-- Two paths that meet in a node. -/
lemma IsPath.trans {p q : List K} (hp : g.IsPath u v (p ++ [v])) (hq : g.IsPath v w (v :: q)) :
    g.IsPath u w (p ++ v :: q) where
  head := by
    have := hp.head
    cases p <;> simpa using this
  last := by
    rw [List.getLast?_append, hq.last]
    rfl
  chain := by
    have hq' : ([v] ++ q).IsChain g.Adj := hq.chain
    have := hp.chain.append_overlap hq' (List.cons_ne_nil _ _)
    rwa [List.append_assoc, List.singleton_append] at this

lemma IsPath.mono {g' : DiGraph K N E} {p : List K} (h : g.IsPath u v p)
    (hadj : ∀ {a b}, g.Adj a b → g'.Adj a b) : g'.IsPath u v p :=
  ⟨h.head, h.last, h.chain.imp fun _ _ => hadj⟩

lemma isPath_edge (h : g.Adj u v) : g.IsPath u v [u, v] := ⟨rfl, rfl, by simpa using h⟩

/-- A path with the fewest nodes. -/
structure IsShortestPath (g : DiGraph K N E) (u v : K) (p : List K) : Prop extends
    IsPath g u v p where
  minimal : ∀ q, g.IsPath u v q → p.length ≤ q.length

/-- No node is reached again. -/
def Acyclic (g : DiGraph K N E) : Prop := ∀ v, ¬ Relation.TransGen g.Adj v v

/-- All nodes, each of them before the nodes that it has an edge to. -/
structure IsTopologicalOrder (g : DiGraph K N E) (l : List K) : Prop where
  perm : l.Perm g.nodes.keys
  forward : l.Pairwise fun a b => ¬ g.Adj b a

/-- Edges that increase a rank do not close a cycle. -/
lemma acyclic_of_rank (rank : K → ℕ) (h : ∀ u v, g.Adj u v → rank u < rank v) : g.Acyclic := by
  have hlt : ∀ u v, Relation.TransGen g.Adj u v → rank u < rank v := by
    intro u v huv
    induction huv with
    | single huv      => exact h _ _ huv
    | tail _ hvw ih   => exact ih.trans (h _ _ hvw)
  exact fun v hv => (hlt v v hv).false

/-- In a topological order the predecessors of a node stand before it. -/
lemma IsTopologicalOrder.mem_left {l r : List K} (h : g.IsTopologicalOrder (l ++ v :: r))
    (hg : g.Acyclic) (huv : g.Adj u v) : u ∈ l := by
  have hmem : u ∈ l ++ v :: r := h.perm.mem_iff.mpr (g.closed _ huv).1
  rcases List.mem_append.mp hmem with hu | hu
  · exact hu
  · rcases List.mem_cons.mp hu with rfl | hu
    · exact absurd (.single huv) (hg u)
    · have hcons := (List.pairwise_append.mp h.forward).2.1
      exact absurd huv ((List.pairwise_cons.mp hcons).1 u hu)

open Classical in
/-- The number of nodes from which a node can be reached. -/
noncomputable def ancestors (g : DiGraph K N E) (v : K) : ℕ :=
  (g.nodes.keys.toFinset.filter fun u => Relation.TransGen g.Adj u v).card

lemma ancestors_lt (hg : g.Acyclic) (huv : g.Adj u v) : g.ancestors u < g.ancestors v := by
  classical
  apply Finset.card_lt_card
  rw [Finset.ssubset_iff_of_subset]
  · refine ⟨u, ?_, ?_⟩
    · rw [Finset.mem_filter, List.mem_toFinset]
      exact ⟨(g.closed _ huv).1, .single huv⟩
    · rw [Finset.mem_filter]
      exact fun h => hg u h.2
  · intro w hw
    rw [Finset.mem_filter] at hw ⊢
    exact ⟨hw.1, hw.2.tail huv⟩

/-- Every graph without cycles has a topological order. -/
lemma Acyclic.exists_order (hg : g.Acyclic) : ∃ l, g.IsTopologicalOrder l := by
  classical
  let r : K → K → Prop := fun a b => g.ancestors a ≤ g.ancestors b
  have : Std.Total r := ⟨fun a b => le_total _ _⟩
  have : IsTrans K r := ⟨fun a b c => le_trans⟩
  refine ⟨g.nodes.keys.insertionSort r, List.perm_insertionSort r _, ?_⟩
  refine (List.pairwise_insertionSort r _).imp ?_
  intro a b hab hba
  exact absurd (ancestors_lt hg hba) (not_lt.mpr hab)

/-- Among the paths between two nodes there is a shortest one. -/
lemma IsPath.exists_shortest {p : List K} (h : g.IsPath u v p) : ∃ q, g.IsShortestPath u v q := by
  obtain ⟨q, hq, hmin⟩ := (measure List.length).wf.has_min {q | g.IsPath u v q} ⟨p, h⟩
  exact ⟨q, hq, fun r hr => not_lt.mp (hmin r hr)⟩

end DiGraph

end ArchExplorer.Lib
