import Flowmend.Proofs.Graph.Row

/-!
# Splitting keeps the graph

A document of well-formed rows is mended without a repair: each row gives way to the rows of its
single edges. The mended document has the same edges as the document, with the same ids and in the
same order, and its nodes have the same labels (`mend_rows_graph`).
-/

namespace Flowmend

open Text Extract

/-- The row is tidy, the ids of its nodes are distinct, and none of them is a keyword. -/
structure Row.WellFormed (r : Row) : Prop where
  tidy : r.Tidy
  nodup : (r.references.map Reference.id).Nodup
  unreserved : ∀ n ∈ r.references, ¬Reserved n.id

instance (r : Row) : Decidable r.WellFormed :=
  decidable_of_iff
    (r.Tidy ∧ (r.references.map Reference.id).Nodup ∧ ∀ n ∈ r.references, ¬Reserved n.id)
    ⟨fun ⟨h₁, h₂, h₃⟩ => ⟨h₁, h₂, h₃⟩, fun ⟨h₁, h₂, h₃⟩ => ⟨h₁, h₂, h₃⟩⟩

/-- A document of rows as written. -/
def rowsText (header : Text) (rows : List Row) : Text := unlines (header :: rows.map Row.text)

/-! ## The nodes of single edges -/

theorem mem_references_splitHops {sources : List Reference} {hs : List Hop} {s : Row}
    (hs' : s ∈ splitHops sources hs) {n : Reference} (hn : n ∈ s.references) :
    ∃ m ∈ sources ++ hs.flatMap Hop.nodes, m.id = n.id := by
  induction hs generalizing sources with
  | nil => cases hs'
  | cons h hs ih =>
    rw [List.flatMap_cons]
    rcases List.mem_append.1 hs' with hs' | hs'
    · obtain ⟨a, ha, hs'⟩ := List.mem_flatMap.1 hs'
      obtain ⟨b, hb, rfl⟩ := List.mem_map.1 hs'
      simp only [references_single, List.mem_cons, List.not_mem_nil, or_false] at hn
      rcases hn with rfl | rfl
      · exact ⟨n, List.mem_append_left _ ha, rfl⟩
      · exact ⟨n, List.mem_append_right _ (List.mem_append_left _ hb), rfl⟩
    · obtain ⟨m, hm, hid⟩ := ih hs'
      rcases List.mem_append.1 hm with hm | hm
      · obtain ⟨b, hb, rfl⟩ := List.mem_map.1 hm
        exact ⟨b, List.mem_append_right _ (List.mem_append_left _ hb), hid⟩
      · exact ⟨m, List.mem_append_right _ (List.mem_append_right _ hm), hid⟩

namespace Row.WellFormed

variable {r s : Row}

/-- The rows of single edges mention no keywords either. -/
theorem unreserved_split (hr : r.WellFormed) (hs : s ∈ r.split) :
    ∀ n ∈ s.references, ¬Reserved n.id := by
  intro n hn
  obtain ⟨m, hm, hid⟩ := mem_references_splitHops hs hn
  exact hid ▸ hr.unreserved m hm

theorem mends (hr : r.WellFormed) : Mends r.text (r.split.map Row.text) :=
  hr.tidy.mends hr.unreserved

theorem mentions_split (hr : r.WellFormed) :
    (r.split.map Row.text).flatMap mentions = r.split.flatMap Row.references := by
  rw [List.flatMap_map]
  exact List.flatMap_congr fun s hs =>
    (hr.tidy.split s hs).mentions_text (hr.unreserved_split hs)

theorem joins_split (hr : r.WellFormed) : (r.split.map Row.text).flatMap joins = r.arcs := by
  rw [List.flatMap_map, ← Row.arcs_split]
  exact List.flatMap_congr fun s hs => (hr.tidy.split s hs).joins_text (hr.unreserved_split hs)

end Row.WellFormed

/-! ## Documents -/

theorem find?_flatMap_congr {α : Type} {f g : α → List Reference} {xs : List α} {id : Text}
    (h : ∀ x ∈ xs, (f x).find? (fun n => n.id == id) = (g x).find? fun n => n.id == id) :
    (xs.flatMap f).find? (fun n => n.id == id) = (xs.flatMap g).find? fun n => n.id == id := by
  induction xs with
  | nil => rfl
  | cons x xs ih =>
    rw [List.flatMap_cons, List.flatMap_cons, List.find?_append, List.find?_append,
      h x List.mem_cons_self, ih fun y hy => h y (List.mem_cons_of_mem x hy)]

/-- A document of well-formed rows is mended without a repair, and the mended document has the same
edges and the same labels of nodes. -/
theorem mend_rows_graph {header : Text} (hheader : Header.IsFlowchart header) {rows : List Row}
    (hrows : ∀ r ∈ rows, r.WellFormed) (usualHeader stem : Text) (limit : Option Int) :
    let source := rowsText header rows
    let mended := mend usualHeader stem source
    mended.valid = true ∧ mended.repairs = [] ∧
      (Graph.extract limit mended.text).edges = (Graph.extract limit source).edges ∧
      ∀ id, ((Graph.extract limit mended.text).node? id).map Node.label =
        ((Graph.extract limit source).node? id).map Node.label := by
  obtain ⟨hrepairs, hlines⟩ :=
    mend_of_mends (fun r hr => (hrows r hr).mends) hheader usualHeader stem
  have hsplit : ∀ l ∈ rows.flatMap fun r => r.split.map Row.text, IsLine l := by
    intro l hl
    obtain ⟨r, hr, hl⟩ := List.mem_flatMap.1 hl
    obtain ⟨s, hs, rfl⟩ := List.mem_map.1 hl
    exact ((hrows r hr).tidy.split s hs).isLine
  have hrow : ∀ l ∈ rows.map Row.text, IsLine l := by
    intro l hl
    obtain ⟨r, hr, rfl⟩ := List.mem_map.1 hl
    exact (hrows r hr).tidy.isLine
  simp only [rowsText, Mended.valid, Mended.text, hrepairs, hlines, List.isEmpty_nil, true_and]
  constructor
  · -- Each row has the edges of its single edges.
    rw [extract_unlines hheader hsplit, extract_unlines hheader hrow]
    refine congrArg (Arc.number 0) ?_
    rw [List.flatMap_assoc, List.flatMap_map]
    refine List.flatMap_congr fun r hr => ?_
    rw [(hrows r hr).joins_split, (hrows r hr).tidy.joins_text (hrows r hr).unreserved]
  · -- Each row mentions the same nodes first as its single edges.
    intro id
    rw [node?_unlines hheader hsplit, node?_unlines hheader hrow, List.flatMap_assoc,
      List.flatMap_map]
    refine congrArg _ (congrArg _ (find?_flatMap_congr fun r hr => ?_))
    rw [(hrows r hr).mentions_split, (hrows r hr).tidy.mentions_text (hrows r hr).unreserved]
    exact Row.find?_split (hrows r hr).tidy (hrows r hr).nodup id

/-- `A[x] & B -->|go| C & D{y} ==> E`, as a row. -/
def fanRow : Row :=
  ⟨[⟨['A'], some ⟨.rectangle, ['x'], true⟩⟩, ⟨['B'], none⟩],
    [⟨⟨['-', '-', '>'], some ['g', 'o']⟩,
        [⟨['C'], none⟩, ⟨['D'], some ⟨.diamond, ['y'], true⟩⟩]⟩,
      ⟨⟨['=', '=', '>'], none⟩, [⟨['E'], none⟩]⟩]⟩

theorem mend_rows_graph_fanRow :
    fanRow.text = "A[x] & B -->|go| C & D{y} ==> E".toList ∧
      (let source := rowsText "graph TD".toList [fanRow]
       let mended := mend "graph TD".toList ['n'] source
       mended.valid = true ∧ mended.repairs = [] ∧
        (Graph.extract (some 40) mended.text).edges = (Graph.extract (some 40) source).edges ∧
        ∀ id, ((Graph.extract (some 40) mended.text).node? id).map Node.label =
          ((Graph.extract (some 40) source).node? id).map Node.label) :=
  ⟨by decide, mend_rows_graph ⟨.down, by decide⟩ (by decide +kernel) _ _ _⟩

end Flowmend
