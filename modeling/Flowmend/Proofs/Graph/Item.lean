import Flowmend.Proofs.Graph.Extract

/-!
# Nodes and edges on lines

What stands on a line are its nodes and its edges (`Item.On`), and what is shown by lines stands on
one of them, as it is read again (`Item.Shown`). The graph of lines has what they show
(`Item.in_extract_unlines`).
-/

namespace Flowmend.Extract

open Text

/-- A node or an edge. -/
inductive Item
  | node (id : Text)
  | arc (a : Arc)
  deriving DecidableEq, Repr

namespace Item

/-- The graph has the node or edge. -/
def In (g : Graph) : Item → Prop
  | node id => id ∈ g.ids
  | arc a => a ∈ g.edges.map Edge.arc

instance (g : Graph) (item : Item) : Decidable (item.In g) :=
  match item with
  | node id => inferInstanceAs (Decidable (id ∈ g.ids))
  | arc a => inferInstanceAs (Decidable (a ∈ g.edges.map Edge.arc))

/-- The line mentions the node, or has the edge. -/
def On (line : Text) : Item → Prop
  | node id => id ∈ (mentions line).map Reference.id
  | arc a => a ∈ joins line

instance (line : Text) (item : Item) : Decidable (item.On line) :=
  match item with
  | node id => inferInstanceAs (Decidable (id ∈ (mentions line).map Reference.id))
  | arc a => inferInstanceAs (Decidable (a ∈ joins line))

/-- The node or edge stands on one of the lines, as they are read again. -/
def Shown (out : List Text) (item : Item) : Prop := ∃ l ∈ out.flatMap statements, item.On l

variable {item : Item} {out out' : List Text}

/-- A graph has what stands on the lines of its text. -/
theorem in_extract {limit : Option Int} {source : Text} :
    item.In (Graph.extract limit source) ↔ ∃ l ∈ source.statements, item.On l := by
  cases item with
  | node id => exact Graph.mem_ids_extract
  | arc a => exact Graph.mem_arcs_extract

theorem in_extract_unlines {limit : Option Int} :
    item.In (Graph.extract limit (unlines out)) ↔ item.Shown out := by
  rw [in_extract, statements_unlines]
  rfl

theorem On.shown {l : Text} (h : item.On l) (hl : IsLine l) (hmem : l ∈ out) : item.Shown out := by
  refine ⟨l, List.mem_flatMap.2 ⟨l, hmem, ?_⟩, h⟩
  rw [hl.statements_eq]
  exact List.mem_singleton_self l

theorem Shown.mono (h : item.Shown out) (hsub : ∀ l ∈ out, l ∈ out') : item.Shown out' := by
  obtain ⟨r, hr, hon⟩ := h
  obtain ⟨l, hl, hr⟩ := List.mem_flatMap.1 hr
  exact ⟨r, List.mem_flatMap.2 ⟨l, hsub l hl, hr⟩, hon⟩

end Item

end Flowmend.Extract
