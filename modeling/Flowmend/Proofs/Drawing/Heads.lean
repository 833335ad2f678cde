import Flowmend.Proofs.Drawing.Boxes

/-!
# Arrowheads

Boxes and lines leave no arrowhead in a cell (`Plan.get_notMem_arrowheads`), and all arrowheads that
are put in one cell are the same (`Plan.eq_of_mem_heads`). So a cell of the drawing holds an
arrowhead just if an edge puts it there (`Plan.get_eq_head_iff`), and none is lost to another edge
(`draw_heads_exact`).
-/

namespace Flowmend

open Mark

namespace Drawing

/-- The arrowheads of a Unicode drawing. -/
def arrowheads : List Char := ['◄', '▼', '▲']

theorem toChar_notMem_arrowheads (a : Arms) : a.toChar .unicode ∉ arrowheads := by
  obtain ⟨up, down, left, right⟩ := a
  revert up down left right
  decide

theorem upright_notMem_arrowheads (s : Stroke) : Charset.unicode.upright s ∉ arrowheads := by
  cases s <;> decide

/-- A mark that is not made with an arrowhead leaves none. -/
theorem ink_notMem_arrowheads {m : Mark} {old : Char} (hm : ∀ c ∈ m.char?, c ∉ arrowheads) :
    m.ink .unicode old ∉ arrowheads := by
  cases m with
  | put col row c => exact hm c rfl
  | stroke col row c =>
    rw [ink]
    split
    · exact toChar_notMem_arrowheads _
    · exact hm c rfl
  | addArms col row arms => exact toChar_notMem_arrowheads _

namespace Plan

variable {p : Plan} {width : Int}

/-- Boxes have no arrowheads, if their labels have none. -/
theorem notMem_arrowheads_of_mem_boxes (hlabels : ∀ l ∈ p.labels, ∀ c ∈ l, c ∉ arrowheads)
    {m : Mark} (hm : m ∈ p.boxes Charset.unicode.glyphs width) :
    ∀ c ∈ m.char?, c ∉ arrowheads := by
  obtain ⟨d, hd, hput, -⟩ := of_mem_boxes hm
  rw [hput]
  rintro c ⟨⟩
  rcases hd with hd | ⟨l, hl, hd⟩
  · exact (by decide : ∀ c ∈ Charset.unicode.glyphs.border, c ∉ arrowheads) d hd
  · exact hlabels l hl d hd

/-- Lines have no arrowheads. -/
theorem notMem_arrowheads_of_mem_lines {m : Mark} (hm : m ∈ p.lines .unicode width) :
    ∀ c ∈ m.char?, c ∉ arrowheads := by
  rcases mem_lines.1 hm with ⟨w, -, hm⟩ | ⟨k, w, -, hm⟩
  · rcases mem_straightMarks.1 hm with rfl | ⟨row, -, -, rfl⟩
    · rintro c ⟨⟩
    · rintro c ⟨⟩
      exact upright_notMem_arrowheads _
  · rcases (mem_laneMarks (width_lt_laneCol width k)).1 hm with rfl | ⟨row, -, col, -, -, rfl⟩ |
        ⟨row, -, -, rfl⟩ | rfl | rfl <;> rintro c ⟨⟩ <;> decide

/-- Arrowheads in one cell are the same: the two of a straight edge are two rows apart, and those of
lanes are in a column of their own. -/
theorem eq_of_mem_heads {g : Glyphs} (hwidth : 0 < width) {m n : Mark} (hm : m ∈ p.heads g width)
    (hn : n ∈ p.heads g width) (hcol : m.col = n.col) (hrow : m.row = n.row) : m = n := by
  have hmiddle : width / 2 < width := by omega
  rcases mem_heads.1 hm with ⟨w, -, hm⟩ | ⟨w, -, hm⟩ <;>
    rcases mem_heads.1 hn with ⟨w', -, hn⟩ | ⟨w', -, hn⟩
  · rcases mem_straightHeads.1 hm with ⟨-, rfl⟩ | ⟨-, rfl⟩ <;>
      rcases mem_straightHeads.1 hn with ⟨-, rfl⟩ | ⟨-, rfl⟩ <;>
      simp only [Mark.row, put.injEq, and_true, true_and] at hrow ⊢ <;> omega
  · have hleft := (of_mem_straightHeads hm).2.1
    have hright : n.col = width := by rw [(of_mem_laneHeads hn).1]; rfl
    omega
  · have hleft := (of_mem_straightHeads hn).2.1
    have hright : m.col = width := by rw [(of_mem_laneHeads hm).1]; rfl
    omega
  · rw [(of_mem_laneHeads hm).1, (of_mem_laneHeads hn).1, hrow]

/-- An arrowhead is put in its cell. -/
theorem exists_eq_put_of_mem_heads {m : Mark} (hm : m ∈ p.heads Charset.unicode.glyphs width) :
    ∃ c ∈ arrowheads, m = put m.col m.row c := by
  rcases of_mem_heads hm with ⟨h | h, -⟩ | ⟨h, -⟩
  · exact ⟨_, (by decide : '▼' ∈ arrowheads), h⟩
  · exact ⟨_, (by decide : '▲' ∈ arrowheads), h⟩
  · refine ⟨'◄', by decide, ?_⟩
    rw [h]
    rfl

theorem mem_straight {w : Wire} : w ∈ p.straight ↔ w ∈ p.wires ∧ w.target = w.source + 1 := by
  simp [straight, Wire.adjacent]

theorem mem_lanes {w : Wire} : w ∈ p.lanes ↔ w ∈ p.wires ∧ w.target ≠ w.source + 1 := by
  simp [lanes, Wire.adjacent]

section Put

variable {col row : Int}

theorem put_down_mem_heads : put col row '▼' ∈ p.heads Charset.unicode.glyphs width ↔
    ∃ w ∈ p.wires, w.target = w.source + 1 ∧ w.kind.directed = true ∧ col = width / 2 ∧
      row = 6 * w.source + 5 := by
  simp [mem_heads, mem_straightHeads, mem_laneHeads, mem_straight, Charset.glyphs, and_assoc]

theorem put_up_mem_heads : put col row '▲' ∈ p.heads Charset.unicode.glyphs width ↔
    ∃ w ∈ p.wires, w.target = w.source + 1 ∧ w.kind.bidirectional = true ∧ col = width / 2 ∧
      row = 6 * w.source + 3 := by
  simp [mem_heads, mem_straightHeads, mem_laneHeads, mem_straight, Charset.glyphs, and_assoc]

theorem put_left_mem_heads : put col row '◄' ∈ p.heads Charset.unicode.glyphs width ↔
    ∃ w ∈ p.wires, w.target ≠ w.source + 1 ∧ col = width ∧
      (w.kind.directed = true ∧ row = 6 * w.target + (if w.source = w.target then 2 else 1) ∨
        w.kind.bidirectional = true ∧ row = 6 * w.source + 1) := by
  simp only [mem_heads, mem_straightHeads, mem_laneHeads, mem_lanes, Charset.glyphs, exitRow_eq,
    entryRow_eq, put.injEq]
  grind

end Put

variable {padding : Int} (hlabels : ∀ l ∈ p.labels, ∀ c ∈ l, c ∉ arrowheads)

include hlabels

/-- Without an arrowhead of an edge, a cell holds none. -/
theorem get_notMem_arrowheads {col row : Int}
    (h : ∀ m ∈ p.heads Charset.unicode.glyphs (boxWidth padding p.labels),
      ¬(m.col = col ∧ m.row = row)) :
    (p.canvas .unicode padding).get col row ∉ arrowheads := by
  by_cases hcell : p.HasCell padding col row
  · have hnil : (p.heads Charset.unicode.glyphs (boxWidth padding p.labels)).filter
        (hits col row) = [] := by
      refine List.eq_nil_iff_forall_not_mem.2 fun m hm => ?_
      obtain ⟨hm, hhits⟩ := mem_filter_hits.1 hm
      exact h m hm hhits
    rw [get_canvas hcell, hnil, inks_nil]
    refine inks_induction (P := (· ∉ arrowheads)) ?_ fun m hm _ _ =>
      ink_notMem_arrowheads (notMem_arrowheads_of_mem_lines (List.mem_of_mem_filter hm))
    exact inks_induction (P := (· ∉ arrowheads)) (by decide) fun m hm _ _ =>
      ink_notMem_arrowheads (notMem_arrowheads_of_mem_boxes hlabels (List.mem_of_mem_filter hm))
  · rw [Canvas.get_eq, cell?_canvas, if_neg hcell]
    decide

variable (hpadding : 0 ≤ padding)
  (hwires : ∀ w ∈ p.wires, w.source < p.labels.length ∧ w.target < p.labels.length)

include hpadding hwires

/-- A cell holds an arrowhead just if it is one of an edge. -/
theorem get_eq_head_iff {c : Char} (hc : c ∈ arrowheads) {col row : Int} :
    (p.canvas .unicode padding).get col row = c ↔
      put col row c ∈ p.heads Charset.unicode.glyphs (boxWidth padding p.labels) := by
  have hwidth := two_le_boxWidth hpadding p.labels
  by_cases hhead : ∃ m ∈ p.heads Charset.unicode.glyphs (boxWidth padding p.labels),
      m.col = col ∧ m.row = row
  · obtain ⟨m, hm, rfl, rfl⟩ := hhead
    obtain ⟨d, -, hput⟩ := exists_eq_put_of_mem_heads hm
    have hget : (p.canvas .unicode padding).get m.col m.row = d := by
      rw [get_canvas (hasCell_of_mem_heads hpadding hwires hm)]
      have hsame : ∀ n ∈ (p.heads Charset.unicode.glyphs (boxWidth padding p.labels)).filter
          (hits m.col m.row), n = put m.col m.row d := by
        intro n hn
        obtain ⟨hn, hcol, hrow⟩ := mem_filter_hits.1 hn
        rw [← hput]
        exact eq_of_mem_heads (by omega) hn hm hcol hrow
      rw [inks_of_eq (List.ne_nil_of_mem (mem_filter_hits.2 ⟨hm, rfl, rfl⟩)) hsame fun _ => rfl]
      rfl
    rw [hget]
    constructor
    · rintro rfl
      exact hput ▸ hm
    · intro hmem
      have heq := eq_of_mem_heads (by omega) hmem hm rfl rfl
      rw [hput, put.injEq] at heq
      exact heq.2.2.symm
  · constructor
    · rintro rfl
      exact absurd hc (get_notMem_arrowheads hlabels fun m hm h => hhead ⟨m, hm, h⟩)
    · exact fun hmem => absurd ⟨_, hmem, rfl, rfl⟩ hhead

end Plan

end Drawing

open Drawing

/-- In the Unicode drawing of a graph whose nodes have positions and labels without arrowheads, with
any padding that is not negative, the arrowheads are just those of the edges: below each edge to the
next row that has a head, above it if it has one at both ends, and behind the boxes where an edge
with a lane of its own comes back or leaves. -/
theorem draw_heads_exact {p : Positioned} (h : p.Placed)
    (hlabels : ∀ n ∈ p.graph.nodes, ∀ c ∈ n.label, c ∉ arrowheads) {padding : Int}
    (hpadding : 0 ≤ padding) :
    let width := boxWidth padding p.plan.labels
    let cv := p.plan.canvas .unicode padding
    draw .unicode padding p = .ok (if p.positions.isEmpty then [] else cv.text) ∧
    ∀ col row : Int,
      (cv.get col row = '▼' ↔ ∃ w ∈ p.plan.wires, w.target = w.source + 1 ∧
        w.kind.directed = true ∧ col = width / 2 ∧ row = 6 * w.source + 5) ∧
      (cv.get col row = '▲' ↔ ∃ w ∈ p.plan.wires, w.target = w.source + 1 ∧
        w.kind.bidirectional = true ∧ col = width / 2 ∧ row = 6 * w.source + 3) ∧
      (cv.get col row = '◄' ↔ ∃ w ∈ p.plan.wires, w.target ≠ w.source + 1 ∧ col = width ∧
        (w.kind.directed = true ∧ row = 6 * w.target + (if w.source = w.target then 2 else 1) ∨
          w.kind.bidirectional = true ∧ row = 6 * w.source + 1)) := by
  have hlabels' : ∀ l ∈ p.plan.labels, ∀ c ∈ l, c ∉ arrowheads := by
    intro l hl c hc
    obtain ⟨n, hn, hc⟩ := Positioned.of_mem_labels_plan hl hc
    exact hlabels n hn c hc
  have hget : ∀ c ∈ arrowheads, ∀ col row : Int, (p.plan.canvas .unicode padding).get col row = c ↔
      put col row c ∈ p.plan.heads Charset.unicode.glyphs (boxWidth padding p.plan.labels) :=
    fun c hc col row => Plan.get_eq_head_iff hlabels' hpadding (fun w => h.rows_lt) hc
  refine ⟨h.draw_eq .unicode padding, fun col row => ⟨?_, ?_, ?_⟩⟩
  · rw [hget '▼' (by decide), Plan.put_down_mem_heads]
  · rw [hget '▲' (by decide), Plan.put_up_mem_heads]
  · rw [hget '◄' (by decide), Plan.put_left_mem_heads]

theorem draw_heads_exact_knot :
    knot.Placed ∧ (∀ n ∈ knot.graph.nodes, ∀ c ∈ n.label, c ∉ arrowheads) ∧
    let width := boxWidth 0 knot.plan.labels
    let cv := knot.plan.canvas .unicode 0
    draw .unicode 0 knot = .ok (if knot.positions.isEmpty then [] else cv.text) ∧
    ∀ col row : Int,
      (cv.get col row = '▼' ↔ ∃ w ∈ knot.plan.wires, w.target = w.source + 1 ∧
        w.kind.directed = true ∧ col = width / 2 ∧ row = 6 * w.source + 5) ∧
      (cv.get col row = '▲' ↔ ∃ w ∈ knot.plan.wires, w.target = w.source + 1 ∧
        w.kind.bidirectional = true ∧ col = width / 2 ∧ row = 6 * w.source + 3) ∧
      (cv.get col row = '◄' ↔ ∃ w ∈ knot.plan.wires, w.target ≠ w.source + 1 ∧ col = width ∧
        (w.kind.directed = true ∧ row = 6 * w.target + (if w.source = w.target then 2 else 1) ∨
          w.kind.bidirectional = true ∧ row = 6 * w.source + 1)) :=
  have hlabels : ∀ n ∈ knot.graph.nodes, ∀ c ∈ n.label, c ∉ arrowheads := by decide
  ⟨placed_knot, hlabels, draw_heads_exact placed_knot hlabels (by decide)⟩

end Flowmend
