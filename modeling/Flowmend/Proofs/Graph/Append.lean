import Flowmend.Proofs.Graph.Extract

/-!
# Graphs of texts one behind the other

A line feed keeps the lines of two texts apart, also where it completes a carriage return at the end
of the first one. So the graph of both has the nodes of the first text and behind them those of the
second one whose ids are new, and the edges of both, numbered on (`Graph.extract_append`).
-/

namespace Flowmend

namespace Extract.Draft

variable {limit : Option Int}

/-- A reference adds its node behind the others, if its id is new. -/
theorem nodes_addAll_singleton (d : Draft) (n : Reference) :
    (d.addAll limit [n]).nodes = d.nodes ++ if n.id ∈ d.ids then [] else [nodeOf limit n] := by
  show (d.addReference limit n).nodes = _
  rw [addReference]
  split
  · rename_i h
    rw [declare_of_mem h, List.append_nil]
  · rename_i h
    rw [declare_of_notMem h]
    rfl

/-- References add the same nodes to a draft as to an empty one, but for those whose ids are there
already. -/
theorem nodes_addAll (d : Draft) (ns : List Reference) :
    (d.addAll limit ns).nodes =
      d.nodes ++ ((⟨[], []⟩ : Draft).addAll limit ns).nodes.filter fun n => n.id ∉ d.ids := by
  induction ns using List.reverseRecOn with
  | nil => simp [addAll]
  | append_singleton ns n ih =>
    have hbefore : n.id ∈ (d.addAll limit ns).ids ↔ n.id ∈ d.ids ∨ n.id ∈ ns.map Reference.id :=
      mem_ids_addAll
    have hempty : n.id ∈ ((⟨[], []⟩ : Draft).addAll limit ns).ids ↔ n.id ∈ ns.map Reference.id :=
      mem_ids_addAll.trans (by simp [ids])
    rw [addAll_append, addAll_append, nodes_addAll_singleton, nodes_addAll_singleton, ih,
      List.filter_append, List.append_assoc]
    by_cases hmem : n.id ∈ ns.map Reference.id
    · rw [if_pos (hbefore.2 (.inr hmem)), if_pos (hempty.2 hmem)]
      rfl
    · rw [if_neg (mt hempty.1 hmem)]
      by_cases hd : n.id ∈ d.ids
      · rw [if_pos (hbefore.2 (.inl hd))]
        simp [nodeOf, hd]
      · rw [if_neg (mt hbefore.1 (by simp [hd, hmem]))]
        simp [nodeOf, hd]

end Extract.Draft

open Extract

/-- A text behind another one adds its nodes with new ids behind the nodes, and its edges behind the
edges, numbered on from there. -/
theorem Graph.extract_append (limit : Option Int) (t u : Text) :
    (extract limit (t ++ '\n' :: u)).nodes =
        (extract limit t).nodes ++
          (extract limit u).nodes.filter (fun n => n.id ∉ (extract limit t).ids) ∧
      (extract limit (t ++ '\n' :: u)).edges =
        (extract limit t).edges ++
          Arc.number (extract limit t).edges.length ((extract limit u).edges.map Edge.arc) ∧
      (extract limit (t ++ '\n' :: u)).edges.map Edge.arc =
        (extract limit t).edges.map Edge.arc ++ (extract limit u).edges.map Edge.arc := by
  have hedges : (extract limit (t ++ '\n' :: u)).edges = (extract limit t).edges ++
      Arc.number (extract limit t).edges.length ((extract limit u).edges.map Edge.arc) := by
    simp only [extract_eq, Text.statements_append_newline, List.flatMap_append, Arc.number_append,
      Arc.map_arc_number, Arc.length_number, Nat.zero_add]
  refine ⟨?_, hedges, ?_⟩
  · rw [extract_eq, extract_eq limit t, extract_eq limit u, Text.statements_append_newline,
      List.flatMap_append, Draft.addAll_append]
    exact Draft.nodes_addAll _ _
  · rw [hedges, List.map_append, Arc.map_arc_number]

/-- The text behind gives `A` another label, which does not count, and its edge gets the next
number. -/
example : Graph.extract none "A[one] --> B\r\nA[two] --> C".toList =
    ⟨[⟨"A".toList, "one".toList⟩, ⟨"B".toList, "B".toList⟩, ⟨"C".toList, "C".toList⟩],
      [⟨"e-A-B-0".toList, "A".toList, "B".toList, .arrow⟩,
       ⟨"e-A-C-1".toList, "A".toList, "C".toList, .arrow⟩]⟩ := by decide +kernel

end Flowmend
