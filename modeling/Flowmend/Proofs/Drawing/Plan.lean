import Flowmend.Drawing.Draw
import Flowmend.Proofs.Graph.WellFormed

/-!
# Plans of drawings

A positioned graph has a plan, and so a drawing, if the ids with positions are nodes and the edges
join ids with positions (`planOf_eq`, `draw_eq`). So has one where just the nodes have positions
(`Positioned.Placed`), as in the layout of a well-formed graph (`Graph.WellFormed.placed_layout`).
-/

namespace Flowmend

namespace Drawing

/-- The label of the node with an id. -/
def labelOf (g : Graph) (id : Text) : Text := ((g.node? id).map Node.label).getD []

/-- The edge between the rows of its ends. -/
def wire (ids : List Text) (e : Edge) : Wire := ⟨e.kind, ids.idxOf e.source, ids.idxOf e.target⟩

end Drawing

/-- What is drawn of a positioned graph whose lookups succeed. -/
def Positioned.plan (p : Positioned) : Drawing.Plan where
  labels := p.positions.rows.map (Drawing.labelOf p.graph)
  wires := p.graph.edges.map (Drawing.wire p.positions.rows)

/-- The labels that are drawn are those of nodes. -/
theorem Positioned.of_mem_labels_plan {p : Positioned} {c : Char} {label : Text}
    (h : label ∈ p.plan.labels) (hc : c ∈ label) : ∃ n ∈ p.graph.nodes, c ∈ n.label := by
  obtain ⟨id, -, rfl⟩ := List.mem_map.1 h
  cases hnode : p.graph.node? id with
  | none => simp [Drawing.labelOf, hnode] at hc
  | some n => exact ⟨n, List.mem_of_find?_eq_some hnode, by simpa [Drawing.labelOf, hnode] using hc⟩

namespace Drawing

theorem mapM_eq_ok {α β ε : Type} {f : α → Except ε β} {g : α → β} {xs : List α}
    (h : ∀ x ∈ xs, f x = .ok (g x)) : xs.mapM f = .ok (xs.map g) := by
  induction xs with
  | nil => rfl
  | cons x xs ih =>
    rw [List.mapM_cons, h x List.mem_cons_self, ih fun y hy => h y (List.mem_cons_of_mem x hy)]
    rfl

/-- The label of the id of a node is the label of a node with this id. -/
theorem exists_node_of_mem_ids {g : Graph} {id : Text} (h : id ∈ g.ids) :
    ∃ n, g.node? id = some n ∧ labelOf g id = n.label := by
  have hnode : (g.node? id).isSome := by
    rw [Graph.node?, List.find?_isSome]
    obtain ⟨n, hn, rfl⟩ := List.mem_map.1 h
    exact ⟨n, hn, by simp⟩
  obtain ⟨n, hn⟩ := Option.isSome_iff_exists.1 hnode
  exact ⟨n, hn, by simp [labelOf, hn]⟩

theorem labelsOf_eq {g : Graph} {ids : List Text} (h : ∀ id ∈ ids, id ∈ g.ids) :
    labelsOf g ids = .ok (ids.map (labelOf g)) := by
  refine mapM_eq_ok fun id hid => ?_
  obtain ⟨n, hn, hlabel⟩ := exists_node_of_mem_ids (h id hid)
  simp [hn, hlabel]

theorem rowOf_eq {ids : List Text} {id : Text} (h : id ∈ ids) :
    rowOf ids id = .ok (ids.idxOf id) := by
  obtain ⟨row, hrow⟩ := Option.isSome_iff_exists.1 (List.isSome_idxOf?.2 h)
  rw [rowOf, List.idxOf_eq_getD_idxOf?, hrow]
  rfl

theorem wireOf_eq {ids : List Text} {e : Edge} (hs : e.source ∈ ids) (ht : e.target ∈ ids) :
    wireOf ids e = .ok (wire ids e) := by
  rw [wireOf, rowOf_eq hs, rowOf_eq ht]
  rfl

end Drawing

theorem Positions.mem_rows {ps : Positions} {id : Text} : id ∈ ps.rows ↔ id ∈ ps.map Prod.fst := by
  simp [rows]

theorem Positions.length_rows (ps : Positions) : ps.rows.length = ps.length := by
  simp [rows]

section Draw

variable {p : Positioned} (hnodes : ∀ id ∈ p.positions.map Prod.fst, id ∈ p.graph.ids)
  (hends : ∀ e ∈ p.graph.edges,
    e.source ∈ p.positions.map Prod.fst ∧ e.target ∈ p.positions.map Prod.fst)

include hnodes hends

/-- Lookups of ids with positions never fail. -/
theorem planOf_eq : Drawing.planOf p = .ok p.plan := by
  have hlabels : Drawing.labelsOf p.graph p.positions.rows = .ok p.plan.labels :=
    Drawing.labelsOf_eq fun id hid => hnodes id (Positions.mem_rows.1 hid)
  have hwires : p.graph.edges.mapM (Drawing.wireOf p.positions.rows) = .ok p.plan.wires :=
    Drawing.mapM_eq_ok fun e he => Drawing.wireOf_eq (Positions.mem_rows.2 (hends e he).1)
      (Positions.mem_rows.2 (hends e he).2)
  simp only [Drawing.planOf, hlabels, hwires]
  rfl

/-- Nor does the drawing, whatever the charset and the padding. -/
theorem draw_eq (cs : Charset) (padding : Int) :
    draw cs padding p =
      .ok (if p.positions.isEmpty then [] else (p.plan.canvas cs padding).text) := by
  rw [draw, planOf_eq hnodes hends]
  split <;> rfl

end Draw

/-! ## Positions for just the nodes -/

/-- The ids with positions are those of the nodes, and the edges join nodes. -/
structure Positioned.Placed (p : Positioned) : Prop where
  ids : ∀ id, id ∈ p.positions.map Prod.fst ↔ id ∈ p.graph.ids
  ends : ∀ e ∈ p.graph.edges, e.source ∈ p.graph.ids ∧ e.target ∈ p.graph.ids

namespace Positioned.Placed

variable {p : Positioned} (h : p.Placed)

include h

theorem draw_eq (cs : Charset) (padding : Int) :
    draw cs padding p =
      .ok (if p.positions.isEmpty then [] else (p.plan.canvas cs padding).text) :=
  Flowmend.draw_eq (fun id hid => (h.ids id).1 hid)
    (fun e he => (h.ends e he).imp (h.ids _).2 (h.ids _).2) cs padding

/-- The edges join rows of the plan. -/
theorem rows_lt {w : Drawing.Wire} (hw : w ∈ p.plan.wires) :
    w.source < p.plan.labels.length ∧ w.target < p.plan.labels.length := by
  obtain ⟨e, he, rfl⟩ := List.mem_map.1 hw
  obtain ⟨hs, ht⟩ := h.ends e he
  simp only [Positioned.plan, List.length_map, Drawing.wire, List.idxOf_lt_length_iff,
    Positions.mem_rows, h.ids]
  exact ⟨hs, ht⟩

/-- The id of a row is that of a node, whose label is drawn. -/
theorem exists_node {row : Nat}
    (hrow : row < p.positions.rows.length) : ∃ id n, p.positions.rows[row]? = some id ∧
      p.graph.node? id = some n ∧ p.plan.labels[row]? = some n.label := by
  have hid := List.getElem?_eq_getElem hrow
  have hmem := (h.ids _).1 (Positions.mem_rows.1 (List.getElem_mem hrow))
  obtain ⟨n, hn, hlabel⟩ := Drawing.exists_node_of_mem_ids hmem
  refine ⟨_, n, hid, hn, ?_⟩
  rw [Positioned.plan, List.getElem?_map, hid, Option.map_some, hlabel]

end Positioned.Placed

/-- The layout gives just the nodes of the graph positions, in their order. -/
theorem map_fst_positions_layout (s : Settings) (g : Graph) :
    (layout s g).positions.map Prod.fst = g.ids := by
  simp only [layout, List.map_map, Graph.ids]
  exact (List.map_map (l := g.nodes.zipIdx) (f := Prod.fst) (g := Node.id)).symm.trans
    (congrArg _ (List.zipIdx_map_fst 0 g.nodes))

/-- The layout of a well-formed graph gives just its nodes positions. -/
theorem Graph.WellFormed.placed_layout {g : Graph} (h : g.WellFormed) (s : Settings) :
    (layout s g).Placed where
  ids id := by rw [map_fst_positions_layout]; rfl
  ends := h.ends

theorem Graph.WellFormed.exists_draw_layout {g : Graph} (h : g.WellFormed) (s : Settings)
    (cs : Charset) (padding : Int) : ∃ drawing, draw cs padding (layout s g) = .ok drawing :=
  ⟨_, (h.placed_layout s).draw_eq cs padding⟩

/-- Two edges in one shaft, one back past both of them, and one from a box to itself. -/
def knot : Positioned where
  graph :=
    { nodes := [⟨['A'], ['A']⟩, ⟨['B'], ['x', '|', 'y', '-']⟩, ⟨['C'], []⟩]
      edges := [⟨['e'], ['C'], ['A'], ⟨.plain, .forward⟩⟩, ⟨['f'], ['C'], ['A'], ⟨.dotted, .both⟩⟩,
        ⟨['g'], ['B'], ['C'], ⟨.thick, .both⟩⟩, ⟨['h'], ['A'], ['A'], ⟨.plain, .headless⟩⟩] }
  positions := [(['A'], ⟨9, -3⟩), (['B'], ⟨0, 5⟩), (['C'], ⟨0, -3⟩)]

theorem placed_knot : knot.Placed := ⟨fun id => by simp [knot, Graph.ids], by decide⟩

theorem rows_knot : knot.positions.rows = [['C'], ['A'], ['B']] := by
  simp [knot, Positions.rows, Positions.precedes, List.mergeSort,
    List.MergeSort.Internal.splitInTwo]

end Flowmend
