import Flowmend.Proofs.Drawing.Marks
import Flowmend.Proofs.Drawing.Plan

/-!
# Edges are drawn without gaps

Where an edge is drawn, each cell has the arms that join it to its neighbours, whatever else is
drawn over it (`draw_edges_unbroken`). A cell that a line goes through only gets further arms
(`Plan.reaches_get`), but for two kinds of cells: the shaft of a straight edge, where strokes
replace each other (`Plan.get_mem_shaft`), and the cells that take an arrowhead at the end.
-/

namespace Flowmend

open Arms Mark

namespace Drawing

/-- A straight edge is drawn: it leaves from the border of its source, and its shaft reaches down to
the next box. -/
structure StraightDrawn (cv : Canvas) (width : Int) (w : Wire) : Prop where
  border : Reaches (cv.get (width / 2) (6 * (w.source : Int) + 2)) { down := true }
  shaft : ∀ row : Int, 6 * (w.source : Int) + 3 ≤ row → row ≤ 6 * (w.source : Int) + 5 →
    cv.get (width / 2) row ∈ shaft

/-- An edge in a lane is drawn: it leaves from the border of its source, goes out to the lane in its
exit row and comes back in its entry row, along the lane between the two, and turns the right way at
both corners. Behind the boxes there may be an arrowhead. -/
structure LaneDrawn (cv : Canvas) (width lane : Int) (w : Wire) : Prop where
  border : Reaches (cv.get (width - 1) (exitRow w)) { right := true }
  across : ∀ row, row = exitRow w ∨ row = entryRow w → ∀ col, width ≤ col → col < lane →
    Reaches (cv.get col row) { left := true, right := true } ∨ col = width ∧ cv.get col row = '◄'
  along : ∀ row, min (exitRow w) (entryRow w) < row → row < max (exitRow w) (entryRow w) →
    Reaches (cv.get lane row) { up := true, down := true }
  exit : Reaches (cv.get lane (exitRow w))
    { left := true, down := exitRow w < entryRow w, up := !decide (exitRow w < entryRow w) }
  entry : Reaches (cv.get lane (entryRow w))
    { left := true, up := exitRow w < entryRow w, down := !decide (exitRow w < entryRow w) }

/-! ## Cells of a drawing -/

theorem two_le_boxWidth {padding : Int} (h : 0 ≤ padding) (labels : List Text) :
    2 ≤ boxWidth padding labels := by
  simp only [boxWidth]
  omega

namespace Plan

variable {p : Plan} {padding : Int}

/-- What a cell holds comes from the boxes, the lines and the arrowheads, in this order. -/
theorem get_canvas {cs : Charset} {col row : Int} (h : p.HasCell padding col row) :
    (p.canvas cs padding).get col row =
      inks cs
        (inks cs
          (inks cs ' ' ((p.boxes cs.glyphs (boxWidth padding p.labels)).filter (hits col row)))
          ((p.lines cs (boxWidth padding p.labels)).filter (hits col row)))
        ((p.heads cs.glyphs (boxWidth padding p.labels)).filter (hits col row)) := by
  rw [Canvas.get_eq, cell?_canvas, if_pos h, Option.getD_some, marks_eq, List.filter_append,
    List.filter_append, inks_append, inks_append]

/-- Outside of the shafts, a cell has the arms of each line through it, or an arrowhead. -/
theorem reaches_get {col row : Int} (hcell : p.HasCell padding col row)
    (hout : ¬(col = boxWidth padding p.labels / 2 ∧ 3 ≤ row % 6)) {m : Mark}
    (hm : m ∈ p.lines .unicode (boxWidth padding p.labels)) (hhits : m.col = col ∧ m.row = row)
    {a : Arms} (ha : m.arms? = some a) (hne : a ≠ {}) :
    Reaches ((p.canvas .unicode padding).get col row) a ∨
      col = boxWidth padding p.labels ∧ row % 6 ≤ 2 ∧
        (p.canvas .unicode padding).get col row = '◄' := by
  rw [get_canvas hcell]
  refine inks_induction (P := fun c => Reaches c a ∨
    col = boxWidth padding p.labels ∧ row % 6 ≤ 2 ∧ c = '◄') (.inl ?_) fun n hn c _ => .inr ?_
  · refine reaches_inks (fun n hn => ?_) (mem_filter_hits.2 ⟨hm, hhits⟩) ha hne
    obtain ⟨hline, rfl, rfl⟩ := mem_filter_hits.1 hn
    exact isSome_arms?_of_mem_lines hline hout
  · obtain ⟨hhead, rfl, rfl⟩ := mem_filter_hits.1 hn
    rcases of_mem_heads hhead with ⟨-, hmiddle⟩ | ⟨hput, hrow⟩
    · exact absurd hmiddle hout
    · refine ⟨congrArg Mark.col hput, hrow, ?_⟩
      rw [hput]
      rfl

/-- A cell of a shaft holds a stroke or an arrowhead. -/
theorem get_mem_shaft {row : Int}
    (hcell : p.HasCell padding (boxWidth padding p.labels / 2) row) (hpadding : 0 ≤ padding)
    (hrow : 3 ≤ row % 6) {m : Mark} (hm : m ∈ p.lines .unicode (boxWidth padding p.labels))
    (hhits : m.col = boxWidth padding p.labels / 2 ∧ m.row = row) :
    (p.canvas .unicode padding).get (boxWidth padding p.labels / 2) row ∈ shaft := by
  have hwidth := two_le_boxWidth hpadding p.labels
  have hmem : m ∈ p.marks .unicode (boxWidth padding p.labels) := by
    rw [marks_eq]
    exact List.mem_append_right _ (List.mem_append_left _ hm)
  have hink : ∀ n ∈ (p.marks .unicode (boxWidth padding p.labels)).filter
      (hits (boxWidth padding p.labels / 2) row), ∀ c, c = ' ' ∨ c ∈ shaft →
      n.ink .unicode c ∈ shaft := by
    intro n hn c hc
    obtain ⟨hn, hcol, hr⟩ := mem_filter_hits.1 hn
    exact ink_mem_shaft hn (by omega) hcol (hr ▸ hrow) hc
  -- After the mark `m` the cell never is blank again.
  obtain ⟨before, after, heq⟩ := List.append_of_mem (mem_filter_hits.2 ⟨hmem, hhits⟩)
  rw [Canvas.get_eq, cell?_canvas, if_pos hcell, Option.getD_some]
  rw [heq] at hink ⊢
  rw [inks_append, inks_cons]
  refine inks_induction (P := (· ∈ shaft)) (hink m (by simp) _ ?_) fun n hn c hc =>
    hink n (by simp [hn]) c (.inr hc)
  exact inks_induction (P := fun c => c = ' ' ∨ c ∈ shaft) (.inl rfl) fun n hn c hc =>
    .inr (hink n (by simp [hn]) c hc)

/-! ## Edges of a drawing -/

variable (hpadding : 0 ≤ padding)

include hpadding

theorem straightDrawn {w : Wire} (hw : w ∈ p.straight) (hrow : w.target < p.labels.length) :
    StraightDrawn (p.canvas .unicode padding) (boxWidth padding p.labels) w := by
  have hwidth := two_le_boxWidth hpadding p.labels
  have hnext : w.target = w.source + 1 := by
    simpa [Wire.adjacent] using (List.mem_filter.1 hw).2
  have hwide := width_le_canvasWidth (boxWidth padding p.labels) p
  have hheight := canvasHeight_eq p
  have hcell : ∀ row : Int, 0 ≤ row → row ≤ 6 * (w.source : Int) + 5 →
      p.HasCell padding (boxWidth padding p.labels / 2) row := fun row h₀ h₁ =>
    ⟨by omega, by omega, h₀, by omega⟩
  have hmem : ∀ m ∈ straightMarks .unicode (boxWidth padding p.labels) w,
      m ∈ p.lines .unicode (boxWidth padding p.labels) := fun m hm => mem_lines.2 (.inl ⟨w, hw, hm⟩)
  constructor
  · have hborder := hcell (6 * (w.source : Int) + 2) (by omega) (by omega)
    rcases reaches_get hborder (by omega) (hmem _ (mem_straightMarks.2 (.inl rfl))) ⟨rfl, rfl⟩ rfl
      (by decide) with h | ⟨h, -⟩
    · exact h
    · omega
  · intro row h₁ h₂
    exact get_mem_shaft (hcell row (by omega) h₂) hpadding (by omega)
      (hmem _ (mem_straightMarks.2 (.inr ⟨row, h₁, h₂, rfl⟩))) ⟨rfl, rfl⟩

theorem laneDrawn {k : Nat} {w : Wire} (hw : p.lanes[k]? = some w)
    (hsource : w.source < p.labels.length) (htarget : w.target < p.labels.length) :
    LaneDrawn (p.canvas .unicode padding) (boxWidth padding p.labels)
      (laneCol (boxWidth padding p.labels) k) w := by
  set width := boxWidth padding p.labels with hwidth_def
  have hwidth : 2 ≤ width := two_le_boxWidth hpadding p.labels
  have hlane := width_lt_laneCol width k
  have hlast := laneCol_lt_canvasWidth width (List.getElem?_eq_some_iff.1 hw).1
  have hheight := canvasHeight_eq p
  have hexit := exitRow_eq w
  have hentry := entryRow_eq w
  have hcell : ∀ col row : Int, 0 ≤ col → col ≤ laneCol width k → 0 ≤ row →
      row ≤ max (exitRow w) (entryRow w) → p.HasCell padding col row := by
    intro col row h₀ h₁ h₂ h₃
    refine ⟨h₀, Int.lt_of_le_of_lt h₁ hlast, h₂, ?_⟩
    split at hentry <;> omega
  have hmem : ∀ m ∈ laneMarks Charset.unicode.glyphs width (laneCol width k) w,
      m ∈ p.lines .unicode width := fun m hm => mem_lines.2 (.inr ⟨k, w, hw, hm⟩)
  -- A mark of the lane leaves its arms in its cell, if no arrowhead can be there.
  have hreaches : ∀ {col row : Int}, p.HasCell padding col row → (col = width / 2 → row % 6 ≤ 2) →
      ∀ {m : Mark}, m ∈ laneMarks Charset.unicode.glyphs width (laneCol width k) w →
      m.col = col ∧ m.row = row → ∀ {a : Arms}, m.arms? = some a → a ≠ {} →
      Reaches ((p.canvas .unicode padding).get col row) a ∨
        col = width ∧ (p.canvas .unicode padding).get col row = '◄' := by
    intro col row hin hout m hm hhits a ha hne
    exact (reaches_get hin (by omega) (hmem m hm) hhits ha hne).imp_right fun h => ⟨h.1, h.2.2⟩
  have hmark := fun m => (mem_laneMarks (g := Charset.unicode.glyphs) hlane (w := w) (m := m)).2
  constructor
  · have hin := hcell (width - 1) (exitRow w) (by omega) (by omega) (by omega) (by omega)
    exact (hreaches hin (by omega) (hmark _ (.inl rfl)) ⟨rfl, rfl⟩ rfl (by decide)).resolve_right
      (by omega)
  · intro row hrow col h₁ h₂
    have hin := hcell col row (by omega) (by omega) (by omega) (by omega)
    exact hreaches hin (by omega) (hmark _ (.inr (.inl ⟨row, hrow, col, h₁, h₂, rfl⟩))) ⟨rfl, rfl⟩
      rfl (by decide)
  · intro row h₁ h₂
    have hin := hcell (laneCol width k) row (by omega) (by omega) (by omega) (by omega)
    exact (hreaches hin (by omega) (hmark _ (.inr (.inr (.inl ⟨row, h₁, h₂, rfl⟩)))) ⟨rfl, rfl⟩ rfl
      (by decide)).resolve_right (by omega)
  · have hin := hcell (laneCol width k) (exitRow w) (by omega) (by omega) (by omega) (by omega)
    exact (hreaches hin (by omega) (hmark _ (.inr (.inr (.inr (.inl rfl))))) ⟨rfl, rfl⟩ rfl
      (fun h => Bool.noConfusion (congrArg Arms.left h))).resolve_right (by omega)
  · have hin := hcell (laneCol width k) (entryRow w) (by omega) (by omega) (by omega) (by omega)
    exact (hreaches hin (by omega) (hmark _ (.inr (.inr (.inr (.inr rfl))))) ⟨rfl, rfl⟩ rfl
      (fun h => Bool.noConfusion (congrArg Arms.left h))).resolve_right (by omega)

end Plan

end Drawing

open Drawing in
/-- In the Unicode drawing of a graph whose nodes have positions, with any padding that is not
negative, each edge to the next row is a straight line, and the edges to other rows have lanes, in
their order: none of them is broken by a label or by another edge. -/
theorem draw_edges_unbroken {p : Positioned} (h : p.Placed) {padding : Int}
    (hpadding : 0 ≤ padding) :
    let width := boxWidth padding p.plan.labels
    let cv := p.plan.canvas .unicode padding
    draw .unicode padding p = .ok (if p.positions.isEmpty then [] else cv.text) ∧
    (∀ w ∈ p.plan.straight, StraightDrawn cv width w) ∧
    ∀ k w, p.plan.lanes[k]? = some w → LaneDrawn cv width (Plan.laneCol width k) w := by
  refine ⟨h.draw_eq .unicode padding, fun w hw => ?_, fun k w hw => ?_⟩
  · exact Plan.straightDrawn hpadding hw (h.rows_lt (List.mem_of_mem_filter hw)).2
  · have hrows := h.rows_lt (List.mem_of_mem_filter (List.mem_of_getElem? hw))
    exact Plan.laneDrawn hpadding hw hrows.1 hrows.2

open Drawing in
theorem draw_edges_unbroken_knot :
    knot.Placed ∧ knot.plan.straight.length = 2 ∧ knot.plan.lanes.length = 2 ∧
    (let width := boxWidth 1 knot.plan.labels
     let cv := knot.plan.canvas .unicode 1
     draw .unicode 1 knot = .ok (if knot.positions.isEmpty then [] else cv.text) ∧
     (∀ w ∈ knot.plan.straight, StraightDrawn cv width w) ∧
     ∀ k w, knot.plan.lanes[k]? = some w → LaneDrawn cv width (Plan.laneCol width k) w) := by
  refine ⟨placed_knot, ?_, ?_, draw_edges_unbroken placed_knot (by decide)⟩
  · rw [Plan.straight, Positioned.plan, rows_knot]
    decide
  · rw [Plan.lanes, Positioned.plan, rows_knot]
    decide

end Flowmend
