import Flowmend.Proofs.Drawing.Plan
import Mathlib.Data.List.Pairwise

/-!
# Rows of a layout

The rows of a layout are the nodes in the order of their discovery, or in the opposite order if the
distance between rows is negative (`layout_order`). For that, positions that go down, or stay where
they are, keep their order when they are sorted (`Positions.rows_of_ascending`), and positions that
go up are turned around (`Positions.rows_of_descending`).
-/

namespace Flowmend

/-! ## Sorted positions -/

namespace Positions

theorem precedes_iff {p q : Point} : precedes p q = true ↔ p.y < q.y ∨ p.y = q.y ∧ p.x ≤ q.x := by
  simp [precedes]

theorem precedes_trans (p q r : Point) (hpq : precedes p q = true) (hqr : precedes q r = true) :
    precedes p r = true := by
  rw [precedes_iff] at hpq hqr ⊢
  omega

theorem precedes_total (p q : Point) : (precedes p q || precedes q p) = true := by
  rw [Bool.or_eq_true, precedes_iff, precedes_iff]
  omega

variable {ps : Positions}

/-- Positions in order stay as they are, also those at one point. -/
theorem rows_of_ascending (h : ps.Pairwise fun p q => precedes p.2 q.2 = true) :
    ps.rows = ps.map Prod.fst := by
  rw [rows, List.mergeSort_of_pairwise h]

/-- Positions of which none comes before a later one are turned around. -/
theorem rows_of_descending (h : ps.Pairwise fun p q => precedes p.2 q.2 = false) :
    ps.rows = (ps.map Prod.fst).reverse := by
  let le (p q : Text × Point) : Bool := precedes p.2 q.2
  have hsorted : (ps.mergeSort le).Pairwise fun p q => le p q = true :=
    List.pairwise_mergeSort (fun p q r => precedes_trans p.2 q.2 r.2)
      (fun p q => precedes_total p.2 q.2) ps
  have hreverse : ps.reverse.Pairwise fun p q => le p q = true := by
    refine List.pairwise_reverse.2 (h.imp fun {p q} hpq => ?_)
    have := precedes_total p.2 q.2
    rwa [hpq, Bool.false_or] at this
  have hperm : (ps.mergeSort le).Perm ps.reverse :=
    (List.mergeSort_perm ps le).trans (List.reverse_perm ps).symm
  -- The order has no ties among the positions, so there is only one way to sort them.
  let Untied (p q : Text × Point) : Prop := le p q = true → le q p = true → p = q
  have hsymm : Std.Symm Untied := ⟨fun p q hpq hqp hpq' => (hpq hpq' hqp).symm⟩
  have hties : ∀ p ∈ ps, ∀ q ∈ ps, Untied p q := List.Pairwise.forall_of_forall
    (fun _ _ _ _ => rfl) (h.imp fun {p q} hpq hle => absurd hle (by simp [le, hpq]))
  have heq : ps.mergeSort le = ps.reverse := List.Perm.eq_of_pairwise
    (fun p q hp hq => hties p (List.mem_mergeSort.1 hp) q (List.mem_reverse.1 hq))
    hsorted hreverse hperm
  rw [rows, heq, List.map_reverse]

end Positions

/-! ## Layouts -/

section Layout

variable (s : Settings) (g : Graph)

/-- Each node stands one row behind the node that was discovered before it. -/
theorem isChain_positions_layout :
    (layout s g).positions.IsChain fun p q => q.2 = ⟨p.2.x, p.2.y + s.rowStep⟩ := by
  rw [List.isChain_iff_getElem]
  intro i hi
  have hrow : s.firstRow + ((i + 1 : Nat) : Int) * s.rowStep =
      s.firstRow + i * s.rowStep + s.rowStep := by
    rw [Int.natCast_add, Int.add_mul, ← Int.add_assoc, Int.natCast_one, Int.one_mul]
  simp only [layout, List.getElem_map, List.getElem_zipIdx, Nat.zero_add, hrow]

/-- Each node stands some rows behind each node that was discovered before it. -/
theorem pairwise_positions_layout :
    (layout s g).positions.Pairwise fun p q =>
      ∃ k : Nat, 0 < k ∧ q.2 = ⟨p.2.x, p.2.y + k * s.rowStep⟩ := by
  let Behind (p q : Text × Point) : Prop :=
    ∃ k : Nat, 0 < k ∧ q.2 = ⟨p.2.x, p.2.y + k * s.rowStep⟩
  have htrans : Trans Behind Behind Behind := ⟨by
    rintro p q r ⟨j, hj, hq⟩ ⟨k, hk, hr⟩
    refine ⟨j + k, Nat.add_pos_left hj k, ?_⟩
    rw [hr, hq, Int.natCast_add, Int.add_mul, Int.add_assoc]⟩
  refine List.IsChain.pairwise (R := Behind) ((isChain_positions_layout s g).imp fun p q hq => ?_)
  exact ⟨1, Nat.one_pos, by rw [hq, Int.natCast_one, Int.one_mul]⟩

/-- The rows are the nodes in the order of their discovery, or in the opposite order. -/
theorem rows_layout :
    (layout s g).positions.rows = if 0 ≤ s.rowStep then g.ids else g.ids.reverse := by
  have hpairs := pairwise_positions_layout s g
  by_cases hstep : 0 ≤ s.rowStep
  · rw [if_pos hstep, Positions.rows_of_ascending, map_fst_positions_layout]
    refine hpairs.imp fun {p q} ⟨k, _, hq⟩ => ?_
    have hdown := Int.mul_nonneg (Int.natCast_nonneg k) hstep
    rw [hq, Positions.precedes_iff]
    simp only []
    omega
  · rw [if_neg hstep, Positions.rows_of_descending, map_fst_positions_layout]
    refine hpairs.imp fun {p q} ⟨k, hk, hq⟩ => ?_
    have hup := Int.mul_neg_of_pos_of_neg (Int.natCast_pos.2 hk) (Int.not_le.1 hstep)
    rw [hq, ← Bool.not_eq_true, Positions.precedes_iff]
    simp only []
    omega

end Layout

/-- Whatever the settings, the layout of the graph of some nodes and edges has one position for each
id of a node, in the order in which the ids come first, and no other position. Each position is one
row behind the one before it; so the rows are the ids in their order, or in the opposite order if
the distance between rows is negative. The edges have no say. -/
theorem layout_order (s : Settings) (nodes : List Node) (edges : List Edge) :
    let g := Graph.ofLists nodes edges
    let ps := (layout s g).positions
    ps.map Prod.fst = g.ids ∧ g.ids.Nodup ∧ g.ids = (nodes.map Node.id).eraseDups ∧
    ps.IsChain (fun p q => q.2 = ⟨p.2.x, p.2.y + s.rowStep⟩) ∧
    ps.rows = (if 0 ≤ s.rowStep then g.ids else g.ids.reverse) ∧
    ∀ edges', (layout s (Graph.ofLists nodes edges')).positions = ps := by
  intro g ps
  refine ⟨map_fst_positions_layout s g, (Graph.WellFormed.ofLists nodes edges).nodes_nodup,
    Graph.ids_ofLists nodes edges, isChain_positions_layout s g, rows_layout s g, fun edges' => ?_⟩
  simp only [ps, layout, g, Graph.nodes_ofLists]

end Flowmend
