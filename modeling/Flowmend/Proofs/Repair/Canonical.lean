import Flowmend.Proofs.Graph.Row

/-!
# Canonical documents

A chart is a flowchart by its parts: a header, boxes and the edges between them. Its text has one
line for each. The text of a well-formed chart is mended without a repair and without a change
(`Chart.WellFormed.mend_text`), and the graph of the text has just the boxes and edges of the chart
(`Chart.WellFormed.extract_text`).
-/

namespace Flowmend

open Text Extract

/-- A node by its parts. -/
structure Box where
  id : Text
  shape : Shape
  label : Text
  deriving DecidableEq, Repr

/-- A flowchart by its parts. -/
structure Chart where
  header : Text
  boxes : List Box
  arcs : List Arc
  deriving DecidableEq, Repr

namespace Box

/-- The box as written: its id, and its label between the brackets of its shape. -/
def line (b : Box) : Text := b.id ++ b.shape.opener ++ b.label ++ b.shape.closer

/-- The node that the box stands for. -/
def node (b : Box) : Node := ⟨b.id, b.label⟩

/-- The box as a reference. -/
def reference (b : Box) : Reference := ⟨b.id, some ⟨b.shape, b.label, true⟩⟩

theorem text_reference (b : Box) : b.reference.text = b.line := by
  simp [Reference.text, reference, Frame.text, line]

/-- The id is no keyword, and the label is not empty, free of connectors, and left alone by cleaning
with the limit. -/
structure WellFormed (limit : Int) (b : Box) : Prop where
  id : IsId b.id
  unreserved : ¬Reserved b.id
  label_ne_nil : b.label ≠ []
  label_clean : Label.clean (some limit) b.label = b.label
  label_free : Connector.Free b.label

instance (limit : Int) (b : Box) : Decidable (b.WellFormed limit) :=
  decidable_of_iff (IsId b.id ∧ ¬Reserved b.id ∧ b.label ≠ [] ∧
      Label.clean (some limit) b.label = b.label ∧ Connector.Free b.label)
    ⟨fun ⟨h₁, h₂, h₃, h₄, h₅⟩ => ⟨h₁, h₂, h₃, h₄, h₅⟩,
      fun ⟨h₁, h₂, h₃, h₄, h₅⟩ => ⟨h₁, h₂, h₃, h₄, h₅⟩⟩

variable {limit : Int} {b : Box}

theorem WellFormed.tidy (hb : b.WellFormed limit) : b.reference.Tidy where
  id := hb.id
  frame f hf := by
    cases hf
    exact ⟨rfl, Label.plain_of_clean_eq hb.label_clean, hb.label_free⟩

theorem WellFormed.mends (hb : b.WellFormed limit) : Mends b.line [b.line] := by
  rw [← text_reference]
  exact hb.tidy.mends hb.unreserved

theorem WellFormed.nodeOf_reference (hb : b.WellFormed limit) :
    Draft.nodeOf (some limit) b.reference = b.node := by
  simp [Draft.nodeOf, reference, node, labelOf, hb.label_clean, hb.label_ne_nil]

end Box

namespace Arc

/-- The edge as written: the ids of its ends around the shortest connector of its kind. -/
def line (a : Arc) : Text := a.source ++ ' ' :: a.kind.token ++ ' ' :: a.target

/-- The edge as a row. -/
def row (a : Arc) : Row := .single ⟨a.source, none⟩ ⟨a.kind.token, none⟩ ⟨a.target, none⟩

theorem text_row (a : Arc) : a.row.text = a.line := by
  simp [Row.text, row, Row.single, groupText_singleton, Hop.text, Connector.text, Connector.gap,
    Reference.text, line]

theorem isToken_token (k : EdgeKind) : Connector.IsToken k.token := by
  obtain ⟨stroke, heads⟩ := k
  cases stroke <;> cases heads <;> decide

/-- The shortest connector of a kind stands for the kind. -/
theorem ofToken_token (k : EdgeKind) : EdgeKind.ofToken k.token = k := by
  obtain ⟨stroke, heads⟩ := k
  cases stroke <;> cases heads <;> decide

variable {a : Arc}

theorem tidy_row (hs : IsId a.source) (ht : IsId a.target) : a.row.Tidy := by
  refine ⟨.single ⟨hs, by simp⟩, by simp [row, Row.single], ?_⟩
  intro h hh
  obtain rfl := List.mem_singleton.1 hh
  exact ⟨⟨isToken_token a.kind, by simp, by simp, by simp⟩, .single ⟨ht, by simp⟩⟩

theorem arcs_row (a : Arc) : a.row.arcs = [a] := by
  rw [row, arcs_single, Connector.kind, ofToken_token]

end Arc

namespace Chart

/-- The lines of the chart. -/
def lines (c : Chart) : List Text := c.boxes.map Box.line ++ c.arcs.map Arc.line

/-- The chart as written. -/
def text (c : Chart) : Text := unlines (c.header :: c.lines)

/-- The graph of the chart. -/
def graph (c : Chart) : Graph := ⟨c.boxes.map Box.node, Arc.number 0 c.arcs⟩

/-- The header is that of a flowchart, the boxes are well-formed and have distinct ids, and the
edges join boxes. -/
structure WellFormed (limit : Int) (c : Chart) : Prop where
  header : Header.IsFlowchart c.header
  boxes : ∀ b ∈ c.boxes, b.WellFormed limit
  nodup : (c.boxes.map Box.id).Nodup
  ends : ∀ a ∈ c.arcs, a.source ∈ c.boxes.map Box.id ∧ a.target ∈ c.boxes.map Box.id

namespace WellFormed

variable {limit : Int} {c : Chart}

/-- The ends of an edge are ids and no keywords. -/
theorem end_isId (hc : c.WellFormed limit) {id : Text} (h : id ∈ c.boxes.map Box.id) :
    IsId id ∧ ¬Reserved id := by
  obtain ⟨b, hb, rfl⟩ := List.mem_map.1 h
  exact ⟨(hc.boxes b hb).id, (hc.boxes b hb).unreserved⟩

theorem tidy_row (hc : c.WellFormed limit) {a : Arc} (ha : a ∈ c.arcs) :
    a.row.Tidy ∧ ∀ n ∈ a.row.references, ¬Reserved n.id := by
  obtain ⟨hs, ht⟩ := hc.ends a ha
  refine ⟨Arc.tidy_row (hc.end_isId hs).1 (hc.end_isId ht).1, fun n hn => ?_⟩
  rw [Arc.row, references_single] at hn
  simp only [List.mem_cons, List.not_mem_nil, or_false] at hn
  rcases hn with rfl | rfl
  · exact (hc.end_isId hs).2
  · exact (hc.end_isId ht).2

/-- Each line of the chart stays as it is. -/
theorem mends (hc : c.WellFormed limit) : ∀ l ∈ c.lines, Mends l [l] := by
  intro l hl
  rcases List.mem_append.1 hl with hl | hl
  · obtain ⟨b, hb, rfl⟩ := List.mem_map.1 hl
    exact (hc.boxes b hb).mends
  · obtain ⟨a, ha, rfl⟩ := List.mem_map.1 hl
    obtain ⟨htidy, hids⟩ := hc.tidy_row ha
    have := htidy.mends hids
    rw [show a.row.split = [a.row] from rfl, List.map_singleton, Arc.text_row] at this
    exact this

/-- The text of a chart is mended without a repair and without a change. -/
theorem mend_text (hc : c.WellFormed limit) (usualHeader stem : Text) :
    (mend usualHeader stem c.text).repairs = [] ∧ (mend usualHeader stem c.text).text = c.text := by
  obtain ⟨hrepairs, hlines⟩ := mend_of_mends hc.mends hc.header usualHeader stem
  rw [List.map_id'] at hrepairs hlines
  rw [List.flatMap_singleton'] at hlines
  exact ⟨hrepairs, congrArg unlines hlines⟩

/-- The lines of a chart mention its boxes, and then the ends of its edges again. -/
theorem mentions_lines (hc : c.WellFormed limit) :
    c.lines.flatMap mentions =
      c.boxes.map Box.reference ++ c.arcs.flatMap fun a => a.row.references := by
  rw [lines, List.flatMap_append, List.flatMap_map, List.flatMap_map, List.map_eq_flatMap]
  refine congrArg₂ _ (List.flatMap_congr fun b hb => ?_) (List.flatMap_congr fun a ha => ?_)
  · rw [← Box.text_reference]
    exact (hc.boxes b hb).tidy.mentions_text (hc.boxes b hb).unreserved rfl
  · obtain ⟨htidy, hids⟩ := hc.tidy_row ha
    rw [← Arc.text_row, htidy.mentions_text hids]

/-- The lines of a chart have its edges. -/
theorem joins_lines (hc : c.WellFormed limit) : c.lines.flatMap joins = c.arcs := by
  have hboxes : c.boxes.flatMap (fun b => joins b.line) = [] := by
    refine List.flatMap_eq_nil_iff.2 fun b hb => ?_
    rw [← Box.text_reference]
    exact (hc.boxes b hb).tidy.joins_text (hc.boxes b hb).unreserved
  have harcs : c.arcs.flatMap (fun a => joins a.line) = c.arcs.flatMap fun a => [a] := by
    refine List.flatMap_congr fun a ha => ?_
    obtain ⟨htidy, hids⟩ := hc.tidy_row ha
    rw [← Arc.text_row, htidy.joins_text hids, Arc.arcs_row]
  rw [lines, List.flatMap_append, List.flatMap_map, List.flatMap_map, hboxes, harcs,
    List.flatMap_singleton', List.nil_append]

/-- The graph of the text of a chart is the graph of the chart. -/
theorem extract_text (hc : c.WellFormed limit) :
    Graph.extract (some limit) c.text = c.graph := by
  have hnodup : ((⟨[], []⟩ : Draft).ids ++ (c.boxes.map Box.reference).map Reference.id).Nodup := by
    rw [List.map_map]
    exact hc.nodup
  have hnodes : (c.boxes.map Box.reference).map (Draft.nodeOf (some limit)) =
      c.boxes.map Box.node := by
    rw [List.map_map]
    exact List.map_congr_left fun b hb => (hc.boxes b hb).nodeOf_reference
  rw [text, extract_unlines hc.header fun l hl => (hc.mends l hl).isLine, hc.mentions_lines,
    hc.joins_lines, Draft.addAll_append, Draft.addAll_of_nodup hnodup, Draft.addAll_of_mem, hnodes]
  · rfl
  · -- The ends of edges are boxes, which are there already.
    intro n hn
    obtain ⟨a, ha, hn⟩ := List.mem_flatMap.1 hn
    obtain ⟨hs, ht⟩ := hc.ends a ha
    have hids : ∀ id ∈ c.boxes.map Box.id,
        id ∈ Draft.ids ⟨[] ++ (c.boxes.map Box.reference).map (Draft.nodeOf (some limit)), []⟩ := by
      intro id hid
      rw [Draft.ids, List.nil_append, hnodes, List.map_map]
      exact hid
    rw [Arc.row, references_single] at hn
    simp only [List.mem_cons, List.not_mem_nil, or_false] at hn
    rcases hn with rfl | rfl
    · exact hids _ hs
    · exact hids _ ht

end WellFormed

/-- The text of a well-formed chart is valid as it is, and its graph is that of the chart. -/
theorem mend_extract {limit : Int} {c : Chart} (hc : c.WellFormed limit) (usualHeader stem : Text) :
    let mended := mend usualHeader stem c.text
    mended.valid = true ∧ mended.repairs = [] ∧ mended.text = c.text ∧
      Graph.extract (some limit) mended.text = c.graph := by
  obtain ⟨hrepairs, htext⟩ := hc.mend_text usualHeader stem
  simp only [Mended.valid, hrepairs, htext, hc.extract_text, List.isEmpty_nil, true_and]

/-- Two boxes and the edges there and back. -/
def pair : Chart where
  header := "flowchart LR".toList
  boxes := [⟨['A'], .circle, "in & out".toList⟩, ⟨['b', '_', '1'], .cylinder, "log-1".toList⟩]
  arcs := [⟨['A'], ['b', '_', '1'], ⟨.dotted, .both⟩⟩, ⟨['b', '_', '1'], ['A'], .arrow⟩]

theorem mend_extract_pair :
    pair.text = "flowchart LR\nA((in & out))\nb_1[(log-1)]\nA <-.-> b_1\nb_1 --> A".toList ∧
      (let mended := mend "graph TD".toList ['n'] pair.text
       mended.valid = true ∧ mended.repairs = [] ∧ mended.text = pair.text ∧
        Graph.extract (some 40) mended.text = pair.graph) :=
  ⟨by decide, mend_extract ⟨⟨.across, by decide⟩, by decide +kernel, by decide, by decide⟩ _ _⟩

end Chart

end Flowmend
