import Flowmend.Graph.Extract
import Flowmend.Proofs.Graph.Basic
import Mathlib.Data.List.Induction

/-!
# Well-formed graphs

In a well-formed graph ids are distinct and edges join nodes that it has. Whatever the lists, the
graph that `Graph.ofLists` makes of them is well formed, hence every graph that is read from a text.
Its ids are those of the nodes, each where it comes first (`Graph.ids_ofLists`), whatever the edges.
-/

namespace Flowmend.Graph

/-- The ids of the nodes and those of the edges are distinct, and the edges join nodes. -/
structure WellFormed (g : Graph) : Prop where
  nodes_nodup : g.ids.Nodup
  edges_nodup : (g.edges.map Edge.id).Nodup
  ends : ∀ e ∈ g.edges, e.source ∈ g.ids ∧ e.target ∈ g.ids

namespace WellFormed

variable {g : Graph}

theorem empty : WellFormed empty where
  nodes_nodup := List.nodup_nil
  edges_nodup := List.nodup_nil
  ends := by simp [Graph.empty]

theorem insertNode (h : WellFormed g) (n : Node) : WellFormed (g.insertNode n) := by
  unfold Graph.insertNode
  split
  · exact h
  · rename_i hnew
    rw [hasNode_iff] at hnew
    have hids : ids { g with nodes := g.nodes ++ [n] } = g.ids ++ [n.id] := by simp [ids]
    constructor
    · rw [hids]
      exact h.nodes_nodup.append (List.nodup_singleton _) (by simpa using hnew)
    · exact h.edges_nodup
    · intro e he
      rw [hids]
      exact (h.ends e he).imp (List.mem_append_left _) (List.mem_append_left _)

theorem insertEdge (h : WellFormed g) (e : Edge) : WellFormed (g.insertEdge e) := by
  unfold Graph.insertEdge
  split
  · rename_i hfits
    simp only [Bool.and_eq_true, hasNode_iff, Bool.not_eq_true', List.any_eq_false,
      beq_iff_eq] at hfits
    obtain ⟨hends, hnew⟩ := hfits
    refine ⟨h.nodes_nodup, ?_, ?_⟩
    · rw [List.map_append]
      refine h.edges_nodup.append (List.nodup_singleton _) ?_
      simpa using fun f hf => hnew f hf
    · intro f hf
      rcases List.mem_append.1 hf with hf | hf
      · exact h.ends f hf
      · rw [List.mem_singleton.1 hf]
        exact hends
  · exact h

theorem ofLists (nodes : List Node) (edges : List Edge) : WellFormed (ofLists nodes edges) := by
  have hnodes : WellFormed (nodes.foldl Graph.insertNode Graph.empty) :=
    List.foldlRecOn nodes _ empty fun g hg n _ => hg.insertNode n
  exact List.foldlRecOn edges _ hnodes fun g hg e _ => hg.insertEdge e

theorem extract (limit : Option Int) (source : Text) : WellFormed (extract limit source) :=
  ofLists _ _

end WellFormed

/-! ## The nodes of a graph -/

theorem nodes_insertEdge (g : Graph) (e : Edge) : (g.insertEdge e).nodes = g.nodes := by
  unfold insertEdge
  split <;> rfl

/-- The nodes of a graph do not depend on its edges. -/
theorem nodes_ofLists (nodes : List Node) (edges : List Edge) :
    (ofLists nodes edges).nodes = (nodes.foldl insertNode empty).nodes :=
  List.foldlRecOn (motive := fun g => g.nodes = (nodes.foldl insertNode empty).nodes) edges
    insertEdge rfl fun g hg e _ => (nodes_insertEdge g e).trans hg

theorem ids_insertNode (g : Graph) (n : Node) :
    (g.insertNode n).ids = if n.id ∈ g.ids then g.ids else g.ids ++ [n.id] := by
  unfold insertNode
  simp only [hasNode_iff]
  split
  · rfl
  · simp [ids]

/-- The ids of a graph are those of the nodes in the order in which they come first. -/
theorem ids_ofLists (nodes : List Node) (edges : List Edge) :
    (ofLists nodes edges).ids = (nodes.map Node.id).eraseDups := by
  rw [ids, nodes_ofLists, ← ids]
  induction nodes using List.reverseRecOn with
  | nil => rfl
  | append_singleton nodes n ih =>
    rw [List.foldl_concat, ids_insertNode, ih, List.map_append, List.map_singleton,
      List.eraseDups_append]
    generalize nodes.map Node.id = ids
    by_cases hmem : n.id ∈ ids
    · simp [List.removeAll, List.mem_eraseDups, hmem]
    · simp [List.removeAll, List.mem_eraseDups, hmem, List.eraseDups_cons]

end Flowmend.Graph
