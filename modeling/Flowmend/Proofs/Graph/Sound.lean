import Flowmend.Proofs.Graph.Labels
import Flowmend.Proofs.Graph.WellFormed

/-!
# Graphs that are read from texts

Whatever the text, its graph is well formed: each node is a whole id of a line with a label that can
be shown, and each edge carries its number. No node and no edge that was read is left out.
-/

namespace Flowmend.Graph

open Text Extract

variable {limit : Option Int}

/-- The edges of a graph are numbered in the order in which they were read. -/
theorem id_of_getElem?_edges {source : Text} {i : Nat} {e : Edge}
    (h : (extract limit source).edges[i]? = some e) :
    e.id = 'e' :: '-' :: e.source ++ '-' :: e.target ++ '-' :: Nat.toDigits 10 i := by
  rw [extract_eq] at h
  have he := congrArg Edge.id (Arc.eq_edge_of_getElem?_number h)
  rwa [Nat.zero_add] at he

theorem nodes_extract (source : Text) :
    (extract limit source).nodes = (draft limit source).nodes := by
  rw [extract_eq, draft_eq]

theorem edges_extract (source : Text) :
    (extract limit source).edges = (draft limit source).edges := by
  rw [extract_eq, draft_eq]

/-- Every graph that is read from a text is well formed, with whole ids and labels that can be
shown, and has all that was read. -/
theorem extract_sound (hlimit : ∀ k ∈ limit, 1 ≤ k) (source : Text) :
    WellFormed (extract limit source) ∧
      (∀ n ∈ (extract limit source).nodes,
        (∃ l ∈ source.lines, IsRun n.id l) ∧
        (n.label ≠ [] ∧ ∀ k ∈ limit, n.label.length ≤ k) ∧
        ∀ c ∈ n.label, Label.isPlain c = true ∧ isBreak c = false) ∧
      (∀ i e, (extract limit source).edges[i]? = some e →
        e.id = 'e' :: '-' :: e.source ++ '-' :: e.target ++ '-' :: Nat.toDigits 10 i) ∧
      (extract limit source).nodes = (draft limit source).nodes ∧
      (extract limit source).edges = (draft limit source).edges := by
  refine ⟨.extract limit source, fun n hn => ⟨exists_isRun hn, label_of_mem hlimit hn, ?_⟩,
    fun i e h => id_of_getElem?_edges h, nodes_extract source, edges_extract source⟩
  intro c hc
  have hplain := isPlain_of_mem_label hn hc
  exact ⟨hplain, Label.isBreak_of_isPlain hplain⟩

/-- A line with two nodes before its connector and a line of prose, with labels of three
characters. -/
theorem extract_sound_fan :
    (∀ k ∈ some (3 : Int), 1 ≤ k) ∧
      (extract (some 3) "A_1[one & two] & B -->|x| C\nsee D[four]".toList).nodes.map Node.label =
        ["one".toList, "B".toList, "C".toList, "fou".toList] ∧
      (extract (some 3) "A_1[one & two] & B -->|x| C\nsee D[four]".toList).edges.map Edge.id =
        ["e-A_1-C-0".toList, "e-B-C-1".toList] ∧
      (extract (some 3) "A_1[one & two] & B -->|x| C\nsee D[four]".toList).edges =
        (draft (some 3) "A_1[one & two] & B -->|x| C\nsee D[four]".toList).edges :=
  ⟨by simp, by decide +kernel, by decide +kernel,
    (extract_sound (by simp) "A_1[one & two] & B -->|x| C\nsee D[four]".toList).2.2.2.2⟩

end Flowmend.Graph
