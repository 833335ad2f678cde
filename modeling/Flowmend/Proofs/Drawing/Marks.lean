import Flowmend.Drawing.Draw
import Flowmend.Proofs.Drawing.Arms

/-!
# Where the marks of a drawing are

Six rows belong to each box: three for the box, and three below it for the edges to the next one. So
the row of a mark, counted within the six, tells what it can be a mark of:

* boxes and labels: the first three rows (`of_mem_boxes`);
* straight edges: the last three rows, in the middle column (`of_mem_lines_middle`), and the border
  above them;
* lanes: the second and the third row, but for the line along a lane, which has a column of its own
  (`mem_laneMarks`).

What a cell holds comes from its marks (`Plan.cell?_canvas`).
-/

namespace Flowmend

open Text

/-- The characters of the border of a box. -/
def Glyphs.border (g : Glyphs) : List Char :=
  [g.topLeft, g.topRight, g.bottomLeft, g.bottomRight, g.horizontal, g.vertical]

namespace Mark

/-! ## Lists of marks -/

theorem mem_span {lo hi x : Int} : x ∈ span lo hi ↔ lo ≤ x ∧ x ≤ hi := by
  simp only [span, List.mem_map, List.mem_range]
  constructor
  · rintro ⟨i, hi, rfl⟩
    omega
  · rintro ⟨hlo, hhi⟩
    exact ⟨(x - lo).toNat, by omega, by omega⟩

theorem mem_hline {row x₁ x₂ : Int} {c : Char} (h : x₁ ≤ x₂) {m : Mark} :
    m ∈ hline row x₁ x₂ c ↔ ∃ col, x₁ ≤ col ∧ col ≤ x₂ ∧ m = stroke col row c := by
  simp only [hline, Int.min_eq_left h, Int.max_eq_right h, List.mem_map, mem_span, and_assoc,
    eq_comm]

theorem mem_vline {col y₁ y₂ : Int} {c : Char} (h : y₁ ≤ y₂) {m : Mark} :
    m ∈ vline col y₁ y₂ c ↔ ∃ row, y₁ ≤ row ∧ row ≤ y₂ ∧ m = stroke col row c := by
  simp only [vline, Int.min_eq_left h, Int.max_eq_right h, List.mem_map, mem_span, and_assoc,
    eq_comm]

theorem mem_write {col row : Int} {t : Text} {m : Mark} :
    m ∈ write col row t ↔ ∃ (k : Nat) (c : Char), t[k]? = some c ∧ m = put (col + k) row c := by
  induction t generalizing col with
  | nil => simp [write]
  | cons c t ih =>
    rw [write, List.mem_cons, ih]
    constructor
    · rintro (rfl | ⟨k, d, hd, rfl⟩)
      · exact ⟨0, c, rfl, by simp⟩
      · exact ⟨k + 1, d, hd, congrArg (put · row d) (by omega)⟩
    · rintro ⟨_ | k, d, hd, rfl⟩
      · cases hd
        exact .inl (by simp)
      · exact .inr ⟨k, d, hd, congrArg (put · row d) (by omega)⟩

theorem of_mem_write {col row : Int} {t : Text} {m : Mark} (h : m ∈ write col row t) :
    ∃ k, ∃ c ∈ t, m = put k row c := by
  obtain ⟨k, c, hc, rfl⟩ := mem_write.1 h
  exact ⟨_, c, List.mem_of_getElem? hc, rfl⟩

/-- The border of a box: its corners, the lines between them, and its sides. -/
theorem mem_box {g : Glyphs} {x y width height : Int} (hwidth : 2 ≤ width) (hheight : 2 ≤ height)
    {m : Mark} : m ∈ box g x y width height ↔
      m = put x y g.topLeft ∨ m = put (x + width - 1) y g.topRight ∨
      m = put x (y + height - 1) g.bottomLeft ∨
      m = put (x + width - 1) (y + height - 1) g.bottomRight ∨
      (∃ col, x < col ∧ col < x + width - 1 ∧
        (m = put col y g.horizontal ∨ m = put col (y + height - 1) g.horizontal)) ∨
      ∃ row, y < row ∧ row < y + height - 1 ∧
        (m = put x row g.vertical ∨ m = put (x + width - 1) row g.vertical) := by
  rw [box, if_neg (by omega)]
  simp only [List.mem_append, List.mem_cons, List.mem_flatMap, mem_span, List.not_mem_nil, or_false,
    or_assoc, and_assoc, Int.add_one_le_iff, Int.le_sub_one_iff]

theorem of_mem_box {g : Glyphs} {x y width height : Int} {m : Mark}
    (h : m ∈ box g x y width height) :
    ∃ col row, ∃ c ∈ g.border, m = put col row c ∧ y ≤ row ∧ row < y + height := by
  have hsize : 2 ≤ width ∧ 2 ≤ height := by
    by_contra hsize
    rw [box, if_pos (by omega)] at h
    cases h
  rcases (mem_box hsize.1 hsize.2).1 h with rfl | rfl | rfl | rfl | ⟨col, -, -, rfl | rfl⟩ |
      ⟨row, h₁, h₂, rfl | rfl⟩ <;>
    exact ⟨_, _, _, by simp [Glyphs.border], rfl, by omega, by omega⟩

end Mark

namespace Drawing

open Mark

/-! ## Boxes -/

theorem top_eq (row : Nat) : top row = 6 * row := by
  simp only [top, boxHeight, gap]
  omega

theorem of_mem_boxMarks {g : Glyphs} {width : Int} {row : Nat} {label : Text} {m : Mark}
    (h : m ∈ boxMarks g width row label) :
    ∃ c, (c ∈ g.border ∨ c ∈ label) ∧ m = put m.col m.row c ∧ m.row % 6 ≤ 2 := by
  have htop := top_eq row
  rcases List.mem_append.1 h with h | h
  · obtain ⟨col, y, c, hc, rfl, hlo, hhi⟩ := of_mem_box h
    simp only [boxHeight] at hhi
    exact ⟨c, .inl hc, rfl, by simp only [Mark.row]; omega⟩
  · obtain ⟨col, c, hc, rfl⟩ := of_mem_write h
    exact ⟨c, .inr hc, rfl, by simp only [Mark.row]; omega⟩

/-! ## Straight edges -/

/-- The first row below a box, and the last one before the next box. -/
theorem shaft_eq (row : Nat) : top row + boxHeight = 6 * (row : Int) + 3 ∧
    6 * (row : Int) + 3 + gap - 1 = 6 * (row : Int) + 5 := by
  rw [top_eq]
  refine ⟨rfl, ?_⟩
  simp only [gap]
  omega

theorem mem_straightMarks {cs : Charset} {width : Int} {w : Wire} {m : Mark} :
    m ∈ straightMarks cs width w ↔
      m = addArms (width / 2) (6 * (w.source : Int) + 2) { down := true } ∨
      ∃ row : Int, 6 * (w.source : Int) + 3 ≤ row ∧ row ≤ 6 * (w.source : Int) + 5 ∧
        m = stroke (width / 2) row (cs.upright w.kind.stroke) := by
  obtain ⟨hfirst, hlast⟩ := shaft_eq w.source
  have hborder : 6 * (w.source : Int) + 3 - 1 = 6 * (w.source : Int) + 2 := by omega
  simp only [straightMarks, hfirst, hborder, hlast, List.mem_cons]
  rw [mem_vline (by omega)]

theorem mem_straightHeads {g : Glyphs} {width : Int} {w : Wire} {m : Mark} :
    m ∈ straightHeads g width w ↔
      w.kind.directed = true ∧ m = put (width / 2) (6 * (w.source : Int) + 5) g.arrowDown ∨
      w.kind.bidirectional = true ∧ m = put (width / 2) (6 * (w.source : Int) + 3) g.arrowUp := by
  obtain ⟨hfirst, hlast⟩ := shaft_eq w.source
  simp only [straightHeads, hfirst, hlast, List.mem_append, List.mem_ite_nil_right,
    List.mem_singleton]

theorem of_mem_straightHeads {g : Glyphs} {width : Int} {w : Wire} {m : Mark}
    (h : m ∈ straightHeads g width w) :
    (m = put m.col m.row g.arrowDown ∨ m = put m.col m.row g.arrowUp) ∧ m.col = width / 2 ∧
      3 ≤ m.row % 6 := by
  rcases mem_straightHeads.1 h with ⟨-, rfl⟩ | ⟨-, rfl⟩
  · exact ⟨.inl rfl, rfl, by simp only [Mark.row]; omega⟩
  · exact ⟨.inr rfl, rfl, by simp only [Mark.row]; omega⟩

/-- What the cells of a straight edge between two boxes hold: strokes and arrowheads. -/
def shaft : List Char := ['│', '╎', '║', '▼', '▲']

theorem eq_of_mem_shaft {c : Char} (h : c ∈ shaft) :
    c = '│' ∨ c = '╎' ∨ c = '║' ∨ c = '▼' ∨ c = '▲' := by
  simpa [shaft] using h

/-- A stroke of a shaft gives way to another one. -/
theorem ink_upright_mem_shaft {old : Char} (h : old = ' ' ∨ old ∈ shaft) (s : Stroke)
    (col row : Int) : (stroke col row (Charset.unicode.upright s)).ink .unicode old ∈ shaft := by
  simp only [ink]
  rcases h with rfl | h
  · cases s <;> decide
  · rcases eq_of_mem_shaft h with rfl | rfl | rfl | rfl | rfl <;> cases s <;> decide

/-! ## Lanes -/

theorem exitRow_eq (w : Wire) : exitRow w = 6 * (w.source : Int) + 1 := by
  rw [exitRow, top_eq]

theorem entryRow_eq (w : Wire) :
    entryRow w = 6 * (w.target : Int) + if w.source = w.target then 2 else 1 := by
  unfold entryRow
  split <;> rw [top_eq]

theorem exitRow_mod (w : Wire) : exitRow w % 6 = 1 := by
  rw [exitRow_eq]
  omega

theorem entryRow_mod (w : Wire) : entryRow w % 6 = 1 ∨ entryRow w % 6 = 2 := by
  rw [entryRow_eq]
  split <;> omega

theorem mem_laneMarks {g : Glyphs} {width lane : Int} (hlane : width < lane) {w : Wire} {m : Mark} :
    m ∈ laneMarks g width lane w ↔
      m = addArms (width - 1) (exitRow w) { right := true } ∨
      (∃ row, (row = exitRow w ∨ row = entryRow w) ∧
        ∃ col, width ≤ col ∧ col < lane ∧ m = stroke col row g.horizontal) ∨
      (∃ row, min (exitRow w) (entryRow w) < row ∧ row < max (exitRow w) (entryRow w) ∧
        m = stroke lane row g.vertical) ∨
      m = addArms lane (exitRow w)
        { left := true, down := exitRow w < entryRow w, up := !decide (exitRow w < entryRow w) } ∨
      m = addArms lane (entryRow w)
        { left := true, up := exitRow w < entryRow w,
          down := !decide (exitRow w < entryRow w) } := by
  have hlast : width ≤ lane - 1 := by omega
  have halong : ∀ lo hi : Int, (1 < hi - lo ∧ m ∈ vline lane (lo + 1) (hi - 1) g.vertical) ↔
      ∃ row, lo < row ∧ row < hi ∧ m = stroke lane row g.vertical := by
    intro lo hi
    constructor
    · rintro ⟨hgap, h⟩
      obtain ⟨row, h₁, h₂, rfl⟩ := (mem_vline (by omega)).1 h
      exact ⟨row, by omega, by omega, rfl⟩
    · rintro ⟨row, h₁, h₂, rfl⟩
      exact ⟨by omega, (mem_vline (by omega)).2 ⟨row, by omega, by omega, rfl⟩⟩
  simp only [laneMarks, List.cons_append, List.mem_cons, List.mem_append, mem_hline hlast,
    List.mem_ite_nil_right, List.not_mem_nil, or_false, exists_eq_or_imp, exists_eq_left, or_assoc,
    halong, Int.le_sub_one_iff]

theorem mem_laneHeads {g : Glyphs} {width : Int} {w : Wire} {m : Mark} :
    m ∈ laneHeads g width w ↔
      w.kind.directed = true ∧ m = put width (entryRow w) g.arrowLeft ∨
      w.kind.bidirectional = true ∧ m = put width (exitRow w) g.arrowLeft := by
  simp only [laneHeads, List.mem_append, List.mem_ite_nil_right, List.mem_singleton]

theorem of_mem_laneHeads {g : Glyphs} {width : Int} {w : Wire} {m : Mark}
    (h : m ∈ laneHeads g width w) :
    m = put width m.row g.arrowLeft ∧ m.row % 6 ≤ 2 := by
  have hexit := exitRow_mod w
  have hentry := entryRow_mod w
  rcases mem_laneHeads.1 h with ⟨-, rfl⟩ | ⟨-, rfl⟩
  · exact ⟨rfl, by simp only [Mark.row]; omega⟩
  · exact ⟨rfl, by simp only [Mark.row]; omega⟩

/-! ## All marks -/

namespace Plan

variable {cs : Charset} {g : Glyphs} {width : Int} {p : Plan} {m : Mark}

/-- The boxes with their labels. -/
def boxes (g : Glyphs) (width : Int) (p : Plan) : List Mark :=
  p.labels.zipIdx.flatMap fun (label, row) => boxMarks g width row label

/-- The lines of all edges. -/
def lines (cs : Charset) (width : Int) (p : Plan) : List Mark :=
  p.straight.flatMap (straightMarks cs width) ++
    p.lanes.zipIdx.flatMap fun (w, k) => laneMarks cs.glyphs width (laneCol width k) w

/-- The arrowheads of all edges. -/
def heads (g : Glyphs) (width : Int) (p : Plan) : List Mark :=
  p.straight.flatMap (straightHeads g width) ++ p.lanes.flatMap (laneHeads g width)

theorem marks_eq (cs : Charset) (width : Int) (p : Plan) :
    p.marks cs width =
      p.boxes cs.glyphs width ++ (p.lines cs width ++ p.heads cs.glyphs width) := by
  simp only [marks, boxes, lines, heads, List.append_assoc]

theorem mem_boxes : m ∈ p.boxes g width ↔
    ∃ (row : Nat) (label : Text), p.labels[row]? = some label ∧ m ∈ boxMarks g width row label := by
  simp only [boxes, List.mem_flatMap, Prod.exists, List.mk_mem_zipIdx_iff_getElem?]
  exact exists_comm

theorem of_mem_boxes (h : m ∈ p.boxes g width) :
    ∃ c, (c ∈ g.border ∨ ∃ label ∈ p.labels, c ∈ label) ∧ m = put m.col m.row c ∧
      m.row % 6 ≤ 2 := by
  obtain ⟨⟨label, row⟩, hlabel, h⟩ := List.mem_flatMap.1 h
  obtain ⟨c, hc, h⟩ := of_mem_boxMarks h
  exact ⟨c, hc.imp_right fun hc => ⟨label, List.fst_mem_of_mem_zipIdx hlabel, hc⟩, h⟩

theorem width_lt_laneCol (width : Int) (k : Nat) : width < laneCol width k := by
  simp only [laneCol, laneStep]
  omega

theorem mem_lines : m ∈ p.lines cs width ↔
    (∃ w ∈ p.straight, m ∈ straightMarks cs width w) ∨
      ∃ (k : Nat) (w : Wire), p.lanes[k]? = some w ∧
        m ∈ laneMarks cs.glyphs width (laneCol width k) w := by
  simp only [lines, List.mem_append, List.mem_flatMap, Prod.exists, List.mk_mem_zipIdx_iff_getElem?]
  exact or_congr_right exists_comm

/-- In the last three of six rows, the middle column has only the lines of straight edges. -/
theorem of_mem_lines_middle (h : m ∈ p.lines cs width) (hwidth : 0 ≤ width)
    (hcol : m.col = width / 2) (hrow : 3 ≤ m.row % 6) :
    ∃ s, m = stroke m.col m.row (cs.upright s) := by
  rcases mem_lines.1 h with ⟨w, -, h⟩ | ⟨k, w, -, h⟩
  · rcases mem_straightMarks.1 h with rfl | ⟨row, -, -, rfl⟩
    · simp only [Mark.row] at hrow
      omega
    · exact ⟨_, rfl⟩
  · have hlane := width_lt_laneCol width k
    have hexit := exitRow_mod w
    have hentry := entryRow_mod w
    -- Only the line along the lane runs in these rows, and the lane is not in the middle.
    rcases (mem_laneMarks hlane).1 h with rfl | ⟨row, hr, col, -, -, rfl⟩ | ⟨row, -, -, rfl⟩ | rfl |
        rfl <;> simp only [Mark.row, Mark.col] at hrow hcol <;> omega

/-- Everywhere else, the lines of edges only add arms. -/
theorem isSome_arms?_of_mem_lines (h : m ∈ p.lines .unicode width)
    (hm : ¬(m.col = width / 2 ∧ 3 ≤ m.row % 6)) : m.arms?.isSome := by
  rcases mem_lines.1 h with ⟨w, -, h⟩ | ⟨k, w, -, h⟩
  · rcases mem_straightMarks.1 h with rfl | ⟨row, hlo, hhi, rfl⟩
    · rfl
    · refine absurd ⟨rfl, ?_⟩ hm
      simp only [Mark.row]
      omega
  · rcases (mem_laneMarks (width_lt_laneCol width k)).1 h with rfl | ⟨row, -, col, -, -, rfl⟩ |
        ⟨row, -, -, rfl⟩ | rfl | rfl <;> rfl

theorem mem_heads : m ∈ p.heads g width ↔
    (∃ w ∈ p.straight, m ∈ straightHeads g width w) ∨ ∃ w ∈ p.lanes, m ∈ laneHeads g width w := by
  simp only [heads, List.mem_append, List.mem_flatMap]

/-- Arrowheads of straight edges are in the last three of six rows of the middle column, those of
lanes in the first column behind the boxes. -/
theorem of_mem_heads (h : m ∈ p.heads g width) :
    ((m = put m.col m.row g.arrowDown ∨ m = put m.col m.row g.arrowUp) ∧ m.col = width / 2 ∧
        3 ≤ m.row % 6) ∨
      (m = put width m.row g.arrowLeft ∧ m.row % 6 ≤ 2) := by
  rcases mem_heads.1 h with ⟨w, -, h⟩ | ⟨w, -, h⟩
  · exact .inl (of_mem_straightHeads h)
  · exact .inr (of_mem_laneHeads h)

/-- In the cells of the shafts, all marks are strokes and arrowheads of straight edges. -/
theorem of_mem_marks_middle (h : m ∈ p.marks cs width) (hwidth : 0 ≤ width)
    (hcol : m.col = width / 2) (hrow : 3 ≤ m.row % 6) :
    (∃ s, m = stroke m.col m.row (cs.upright s)) ∨
      m = put m.col m.row cs.glyphs.arrowDown ∨ m = put m.col m.row cs.glyphs.arrowUp := by
  rw [marks_eq] at h
  rcases List.mem_append.1 h with h | h
  · obtain ⟨c, -, -, h⟩ := of_mem_boxes h
    omega
  rcases List.mem_append.1 h with h | h
  · exact .inl (of_mem_lines_middle h hwidth hcol hrow)
  · rcases of_mem_heads h with ⟨h, -⟩ | ⟨-, h⟩
    · exact .inr h
    · omega

/-- After a mark in the cell of a shaft, the cell holds a stroke or an arrowhead. -/
theorem ink_mem_shaft (h : m ∈ p.marks .unicode width) (hwidth : 0 ≤ width)
    (hcol : m.col = width / 2) (hrow : 3 ≤ m.row % 6) {old : Char}
    (hold : old = ' ' ∨ old ∈ shaft) :
    m.ink .unicode old ∈ shaft := by
  rcases of_mem_marks_middle h hwidth hcol hrow with ⟨s, hs⟩ | hs | hs
  · rw [hs]
    exact ink_upright_mem_shaft hold s _ _
  · rw [hs]
    exact (by decide : '▼' ∈ shaft)
  · rw [hs]
    exact (by decide : '▲' ∈ shaft)

/-! ## Cells -/

/-- The grid has the cell. -/
abbrev HasCell (p : Plan) (padding col row : Int) : Prop :=
  Canvas.Inside (p.canvasWidth (boxWidth padding p.labels)) p.canvasHeight col row

theorem cell?_canvas (cs : Charset) (padding col row : Int) (p : Plan) :
    (p.canvas cs padding).cell? col row =
      if p.HasCell padding col row then
        some (inks cs ' ' ((p.marks cs (boxWidth padding p.labels)).filter (hits col row)))
      else none := by
  rw [canvas, Canvas.cell?_paint, Canvas.cell?_blank]
  split <;> rfl

theorem width_le_canvasWidth (width : Int) (p : Plan) : width ≤ p.canvasWidth width := by
  simp only [canvasWidth, laneStep]
  split <;> omega

theorem laneCol_lt_canvasWidth (width : Int) {k : Nat} (hk : k < p.lanes.length) :
    laneCol width k < p.canvasWidth width := by
  have hne : p.lanes.isEmpty = false := by
    simpa using List.ne_nil_of_length_pos (Nat.zero_lt_of_lt hk)
  simp only [canvasWidth, hne, laneCol, laneStep, Bool.false_eq_true, if_false]
  omega

theorem canvasHeight_eq (p : Plan) : p.canvasHeight = 6 * (p.labels.length : Int) - 3 := by
  simp only [canvasHeight, boxHeight, gap]
  omega

end Plan

end Drawing

end Flowmend
