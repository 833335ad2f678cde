import Flowmend.Proofs.Drawing.Alphabet
import Flowmend.Proofs.Drawing.BoxRows
import Flowmend.Proofs.Drawing.Unbroken

/-!
# Boxes stay whole

Edges are drawn over the boxes, but in the cells of a box they only add an arm to its border: to the
right where an edge leaves for its lane, and downwards where one leaves for the next row
(`Plan.of_mem_lines_box`, `Plan.not_box_of_mem_heads`). No mark is outside of the grid
(`Plan.hasCell_of_mem_marks`), so nothing of a box is cut off, and the lines of the drawing start
with the rows of the boxes (`draw_boxes_intact`).
-/

namespace Flowmend

open Text Mark

namespace Drawing

/-! ## Edges at a box -/

/-- Arms that are added again change nothing. -/
theorem ink_addArms_ink (col row : Int) (a : Arms) (c : Char) :
    (addArms col row a).ink .unicode ((addArms col row a).ink .unicode c) =
      (addArms col row a).ink .unicode c := by
  simp only [ink]
  generalize (Arms.ofChar? c).getD {} = b
  obtain ⟨u, d, l, r⟩ := a
  obtain ⟨u', d', l', r'⟩ := b
  revert u d l r u' d' l' r'
  decide

/-- The border character in place of `c` where a line leaves downwards. -/
def branchDown (c : Char) : Char := if c = '┘' then '┤' else '┬'

namespace Plan

variable {p : Plan} {g : Glyphs} {width : Int}

/-- In a cell of a box, lines only add an arm to the border: to the right in the middle row, and
downwards in the row below. -/
theorem of_mem_lines_box {cs : Charset} {m : Mark} (h : m ∈ p.lines cs width) (hcol : m.col < width)
    (hrow : m.row % 6 ≤ 2) :
    (∃ w ∈ p.straight, m = addArms (width / 2) (6 * (w.source : Int) + 2) { down := true }) ∨
      ∃ w ∈ p.lanes, m = addArms (width - 1) (6 * (w.source : Int) + 1) { right := true } := by
  rcases mem_lines.1 h with ⟨w, hw, h⟩ | ⟨k, w, hw, h⟩
  · refine .inl ⟨w, hw, (mem_straightMarks.1 h).resolve_right ?_⟩
    rintro ⟨row, h₁, h₂, rfl⟩
    simp only [Mark.row] at hrow
    omega
  · have hlane := width_lt_laneCol width k
    refine .inr ⟨w, List.mem_of_getElem? hw, ?_⟩
    rw [← exitRow_eq]
    refine ((mem_laneMarks hlane).1 h).resolve_right ?_
    rintro (⟨row, -, col, h₁, -, rfl⟩ | ⟨row, -, -, rfl⟩ | rfl | rfl) <;>
      simp only [Mark.col] at hcol <;> omega

/-- Arrowheads are in no cell of a box. -/
theorem not_box_of_mem_heads {m : Mark} (h : m ∈ p.heads g width) :
    ¬(m.col < width ∧ m.row % 6 ≤ 2) := by
  rintro ⟨hcol, hrow⟩
  rcases of_mem_heads h with ⟨-, -, h⟩ | ⟨h, -⟩
  · omega
  · rw [h] at hcol
    simp [Mark.col] at hcol

/-- What the lines make of a cell of a box. -/
theorem inks_lines_box {width row r k : Nat} (hr : r < 3) (hk : k < width) (old : Char) :
    inks .unicode old ((p.lines .unicode width).filter (hits k (6 * row + r))) =
      if r = 2 ∧ k = width / 2 ∧ ∃ w ∈ p.straight, w.source = row then
        (addArms k (6 * row + r) { down := true }).ink .unicode old
      else if r = 1 ∧ k = width - 1 ∧ ∃ w ∈ p.lanes, w.source = row then
        (addArms k (6 * row + r) { right := true }).ink .unicode old
      else old := by
  have hmem : ∀ m ∈ (p.lines .unicode width).filter (hits k (6 * row + r)),
      (r = 2 ∧ k = width / 2 ∧ ∃ w ∈ p.straight, w.source = row) ∧
        m = addArms k (6 * row + r) { down := true } ∨
      (r = 1 ∧ k = width - 1 ∧ ∃ w ∈ p.lanes, w.source = row) ∧
        m = addArms k (6 * row + r) { right := true } := by
    intro m hm
    obtain ⟨hline, hcol, hrow⟩ := mem_filter_hits.1 hm
    rcases of_mem_lines_box hline (by omega) (by omega) with ⟨w, hw, rfl⟩ | ⟨w, hw, rfl⟩ <;>
      simp only [Mark.col, Mark.row] at hcol hrow
    · exact .inl ⟨⟨by omega, by omega, w, hw, by omega⟩, by rw [hcol, hrow]⟩
    · exact .inr ⟨⟨by omega, by omega, w, hw, by omega⟩, by rw [hcol, hrow]⟩
  split
  next h =>
    obtain ⟨rfl, rfl, w, hw, rfl⟩ := h
    have hmark : addArms (width / 2 : Nat) (6 * w.source + (2 : Nat)) { down := true } ∈
        (p.lines .unicode width).filter (hits (width / 2 : Nat) (6 * w.source + (2 : Nat))) :=
      mem_filter_hits.2 ⟨mem_lines.2 (.inl ⟨w, hw, mem_straightMarks.2 (.inl rfl)⟩), rfl, rfl⟩
    refine inks_of_eq (List.ne_nil_of_mem hmark) (fun m hm => ?_) (ink_addArms_ink _ _ _)
    rcases hmem m hm with ⟨-, hm⟩ | ⟨⟨h, -⟩, -⟩
    · exact hm
    · cases h
  next hdown =>
  split
  next h =>
    obtain ⟨rfl, rfl, w, hw, rfl⟩ := h
    obtain ⟨j, hj⟩ := List.mem_iff_getElem?.1 hw
    have hcol : ((width - 1 : Nat) : Int) = width - 1 := by omega
    have hmark : addArms (width - 1 : Nat) (6 * w.source + (1 : Nat)) { right := true } ∈
        (p.lines .unicode width).filter (hits (width - 1 : Nat) (6 * w.source + (1 : Nat))) := by
      refine mem_filter_hits.2 ⟨mem_lines.2 (.inr ⟨j, w, hj, ?_⟩), rfl, rfl⟩
      rw [mem_laneMarks (width_lt_laneCol _ j), exitRow_eq, hcol]
      exact .inl rfl
    refine inks_of_eq (List.ne_nil_of_mem hmark) (fun m hm => ?_) (ink_addArms_ink _ _ _)
    rcases hmem m hm with ⟨⟨h, -⟩, -⟩ | ⟨-, hm⟩
    · cases h
    · exact hm
  next hright =>
    have hnil : (p.lines .unicode width).filter (hits k (6 * row + r)) = [] := by
      refine List.eq_nil_iff_forall_not_mem.2 fun m hm => ?_
      rcases hmem m hm with ⟨h, -⟩ | ⟨h, -⟩
      · exact hdown h
      · exact hright h
    rw [hnil, inks_nil]

/-! ## The grid -/

section Grid

variable {padding : Int} (hpadding : 0 ≤ padding)

include hpadding

theorem fits_boxWidth {labels : List Text} {width : Nat} (h : boxWidth padding labels = width) :
    ∀ l ∈ labels, l.length + 2 ≤ width := by
  intro l hl
  have := length_add_two_le_boxWidth hpadding hl
  omega

/-- Marks of boxes are in the grid. -/
theorem hasCell_of_mem_boxes {m : Mark} (hm : m ∈ p.boxes g (boxWidth padding p.labels)) :
    p.HasCell padding m.col m.row := by
  have hwide := width_le_canvasWidth (boxWidth padding p.labels) p
  have hheight := canvasHeight_eq p
  have hpos := two_le_boxWidth hpadding p.labels
  obtain ⟨width, hwidth⟩ := Int.eq_ofNat_of_zero_le (by omega : 0 ≤ boxWidth padding p.labels)
  obtain ⟨row, label, hlabel, hm⟩ := mem_boxes.1 hm
  have hfits := fits_boxWidth hpadding hwidth label (List.mem_of_getElem? hlabel)
  rw [hwidth] at hm
  obtain ⟨r, u, k, c, hu, hc, rfl⟩ := exists_of_mem_boxMarks hfits hm
  have hrow := (List.getElem?_eq_some_iff.1 hlabel).1
  have hr : r < 3 := (List.getElem?_eq_some_iff.1 hu).1
  have hk := (List.getElem?_eq_some_iff.1 hc).1
  rw [length_of_mem_boxRows hfits (List.mem_of_getElem? hu)] at hk
  refine ⟨?_, ?_, ?_, ?_⟩ <;> simp only [Mark.col, Mark.row] <;> omega

variable (hwires : ∀ w ∈ p.wires, w.source < p.labels.length ∧ w.target < p.labels.length)

include hwires

/-- Lines between boxes are in the grid. -/
theorem hasCell_of_mem_lines {cs : Charset} {m : Mark}
    (hm : m ∈ p.lines cs (boxWidth padding p.labels)) : p.HasCell padding m.col m.row := by
  have hwidth := two_le_boxWidth hpadding p.labels
  have hwide := width_le_canvasWidth (boxWidth padding p.labels) p
  have hheight := canvasHeight_eq p
  rcases mem_lines.1 hm with ⟨w, hw, hm⟩ | ⟨k, w, hk, hm⟩
  · obtain ⟨hw, hadj⟩ := List.mem_filter.1 hw
    have hrows := hwires w hw
    have hnext : w.target = w.source + 1 := by simpa [Wire.adjacent] using hadj
    rcases mem_straightMarks.1 hm with rfl | ⟨row, h₁, h₂, rfl⟩ <;>
      refine ⟨?_, ?_, ?_, ?_⟩ <;> simp only [Mark.col, Mark.row] <;> omega
  · have hrows := hwires w (List.mem_of_mem_filter (List.mem_of_getElem? hk))
    have hlane := width_lt_laneCol (boxWidth padding p.labels) k
    have hlast := laneCol_lt_canvasWidth (boxWidth padding p.labels)
      (List.getElem?_eq_some_iff.1 hk).1
    have hexit := exitRow_eq w
    have hentry := entryRow_eq w
    have hbelow : entryRow w ≤ 6 * (w.target : Int) + 2 := by split at hentry <;> omega
    have habove : 6 * (w.target : Int) + 1 ≤ entryRow w := by split at hentry <;> omega
    rcases (mem_laneMarks hlane).1 hm with rfl | ⟨row, hr, col, h₁, h₂, rfl⟩ |
        ⟨row, h₁, h₂, rfl⟩ | rfl | rfl <;>
      refine ⟨?_, ?_, ?_, ?_⟩ <;> simp only [Mark.col, Mark.row] <;> omega

omit hpadding hwires in
/-- Each arrowhead is on a line. -/
theorem exists_line_of_mem_heads (cs : Charset) {m : Mark} (hm : m ∈ p.heads g width) :
    ∃ n ∈ p.lines cs width, n.col = m.col ∧ n.row = m.row := by
  rcases mem_heads.1 hm with ⟨w, hw, hm⟩ | ⟨w, hw, hm⟩
  · have hline : ∀ row : Int, 6 * (w.source : Int) + 3 ≤ row → row ≤ 6 * (w.source : Int) + 5 →
        stroke (width / 2) row (cs.upright w.kind.stroke) ∈ p.lines cs width := fun row h₁ h₂ =>
      mem_lines.2 (.inl ⟨w, hw, mem_straightMarks.2 (.inr ⟨row, h₁, h₂, rfl⟩)⟩)
    rcases mem_straightHeads.1 hm with ⟨-, rfl⟩ | ⟨-, rfl⟩
    · exact ⟨_, hline _ (by omega) (by omega), rfl, rfl⟩
    · exact ⟨_, hline _ (by omega) (by omega), rfl, rfl⟩
  · obtain ⟨k, hk⟩ := List.mem_iff_getElem?.1 hw
    have hlane := width_lt_laneCol width k
    have hline : ∀ row, row = exitRow w ∨ row = entryRow w →
        stroke width row cs.glyphs.horizontal ∈ p.lines cs width := fun row hrow =>
      mem_lines.2 (.inr ⟨k, w, hk,
        (mem_laneMarks hlane).2 (.inr (.inl ⟨row, hrow, width, by omega, hlane, rfl⟩))⟩)
    rcases mem_laneHeads.1 hm with ⟨-, rfl⟩ | ⟨-, rfl⟩
    · exact ⟨_, hline _ (.inr rfl), rfl, rfl⟩
    · exact ⟨_, hline _ (.inl rfl), rfl, rfl⟩

/-- So arrowheads are in the grid as well. -/
theorem hasCell_of_mem_heads {m : Mark} (hm : m ∈ p.heads g (boxWidth padding p.labels)) :
    p.HasCell padding m.col m.row := by
  obtain ⟨n, hn, hcol, hrow⟩ := exists_line_of_mem_heads .unicode hm
  rw [← hcol, ← hrow]
  exact hasCell_of_mem_lines hpadding hwires hn

/-- No mark is outside of the grid. -/
theorem hasCell_of_mem_marks {cs : Charset} {m : Mark}
    (hm : m ∈ p.marks cs (boxWidth padding p.labels)) : p.HasCell padding m.col m.row := by
  rw [marks_eq, List.mem_append, List.mem_append] at hm
  rcases hm with hm | hm | hm
  · exact hasCell_of_mem_boxes hpadding hm
  · exact hasCell_of_mem_lines hpadding hwires hm
  · exact hasCell_of_mem_heads hpadding hwires hm

end Grid

/-! ## Rows as they are drawn -/

section Rows

variable {padding : Int} (hpadding : 0 ≤ padding) {width row : Nat}
  (hwidth : boxWidth padding p.labels = width) {label : Text} (hlabel : p.labels[row]? = some label)

include hpadding hwidth hlabel

/-- A row of a box is as the lines leave it. -/
theorem prefix_of_boxRow {r : Nat} {u v t : Text}
    (hu : (boxRows Charset.unicode.glyphs width label)[r]? = some u)
    (hv : ∀ (k : Nat) c, v[k]? = some c → ∃ b, u[k]? = some b ∧
      c = inks .unicode b ((p.lines .unicode width).filter (hits k (6 * row + r))))
    (ht : (p.canvas .unicode padding).rows[6 * row + r]? = some t) : v <+: t := by
  have hfits := fits_boxWidth hpadding hwidth
  have hwide := width_le_canvasWidth (boxWidth padding p.labels) p
  have hheight := canvasHeight_eq p
  have hrow := (List.getElem?_eq_some_iff.1 hlabel).1
  have hr : r < 3 := (List.getElem?_eq_some_iff.1 hu).1
  refine Canvas.prefix_row ht fun k c hc => ?_
  obtain ⟨b, hb, rfl⟩ := hv k c hc
  have hk := (List.getElem?_eq_some_iff.1 hb).1
  rw [length_of_mem_boxRows (hfits label (List.mem_of_getElem? hlabel))
    (List.mem_of_getElem? hu)] at hk
  have hcell : p.HasCell padding k (6 * row + r) := ⟨by omega, by omega, by omega, by omega⟩
  have hheads : (p.heads Charset.unicode.glyphs width).filter (hits k (6 * row + r)) = [] := by
    refine List.eq_nil_iff_forall_not_mem.2 fun m hm => ?_
    obtain ⟨hm, hcol, hmrow⟩ := mem_filter_hits.1 hm
    exact not_box_of_mem_heads hm ⟨by omega, by omega⟩
  push_cast
  rw [cell?_canvas, if_pos hcell, hwidth, marks_eq, List.filter_append, List.filter_append, hheads,
    inks_append, inks_boxes hlabel hfits hu hb, List.append_nil]

/-- The upper border stays as it is. -/
theorem prefix_topRow {t : Text} (ht : (p.canvas .unicode padding).rows[6 * row]? = some t) :
    border '┌' '─' '┐' width <+: t := by
  have hfits := fits_boxWidth hpadding hwidth label (List.mem_of_getElem? hlabel)
  refine prefix_of_boxRow hpadding hwidth hlabel (r := 0) rfl (fun k c hc => ⟨c, hc, ?_⟩) ht
  have hk := (List.getElem?_eq_some_iff.1 hc).1
  rw [length_border (by omega)] at hk
  rw [inks_lines_box (by omega) hk, if_neg (by omega), if_neg (by omega)]

/-- The right border beside the label has a branch if an edge leaves there. -/
theorem prefix_labelRow {t : Text}
    (ht : (p.canvas .unicode padding).rows[6 * row + 1]? = some t) :
    labelRow '│' (if ∃ w ∈ p.lanes, w.source = row then '├' else '│') width label <+: t := by
  have hfits := fits_boxWidth hpadding hwidth label (List.mem_of_getElem? hlabel)
  refine prefix_of_boxRow hpadding hwidth hlabel (r := 1) rfl (fun k c hc => ?_) ht
  have hk := (List.getElem?_eq_some_iff.1 hc).1
  rw [length_labelRow hfits] at hk
  by_cases hlast : k = width - 1
  · have hright : ∀ c, (labelRow '│' c width label)[k]? = some c :=
      fun c => (getElem?_labelRow hfits).2 (.inr (.inr (.inr ⟨hlast, rfl⟩)))
    refine ⟨'│', hright _, ?_⟩
    rw [hright, Option.some.injEq] at hc
    subst hc
    by_cases h : ∃ w ∈ p.lanes, w.source = row
    · rw [if_pos h, inks_lines_box (by omega) hk, if_neg (by omega), if_pos ⟨rfl, hlast, h⟩]
      rfl
    · rw [if_neg h, inks_lines_box (by omega) hk, if_neg (by omega), if_neg fun h' => h h'.2.2]
  · refine ⟨c, (getElem?_labelRow hfits).2 (((getElem?_labelRow hfits).1 hc).imp_right
      (Or.imp_right (Or.imp_right fun h => absurd h.1 hlast))), ?_⟩
    rw [inks_lines_box (by omega) hk, if_neg (by omega), if_neg fun h => hlast h.2.1]

/-- The lower border has a branch in the middle if an edge leaves there. -/
theorem prefix_bottomRow {t : Text}
    (ht : (p.canvas .unicode padding).rows[6 * row + 2]? = some t) :
    (if ∃ w ∈ p.straight, w.source = row then
      (border '└' '─' '┘' width).modify (width / 2) branchDown
     else border '└' '─' '┘' width) <+: t := by
  have hfits := fits_boxWidth hpadding hwidth label (List.mem_of_getElem? hlabel)
  refine prefix_of_boxRow hpadding hwidth hlabel (r := 2) rfl (fun k c hc => ?_) ht
  by_cases h : ∃ w ∈ p.straight, w.source = row
  · rw [if_pos h, List.getElem?_modify] at hc
    obtain ⟨b, hb, rfl⟩ := Option.map_eq_some_iff.1 hc
    have hk := (List.getElem?_eq_some_iff.1 hb).1
    rw [length_border (by omega)] at hk
    refine ⟨b, hb, ?_⟩
    rw [inks_lines_box (by omega) hk]
    by_cases hcenter : k = width / 2
    · rw [if_pos hcenter.symm, if_pos ⟨rfl, hcenter, h⟩]
      -- In a box two cells wide, the middle is a corner.
      rcases (getElem?_border (by omega)).1 hb with ⟨rfl, -⟩ | ⟨-, rfl⟩ | ⟨-, rfl⟩
      · omega
      · rfl
      · rfl
    · rw [if_neg (Ne.symm hcenter), if_neg fun h => hcenter h.2.1, if_neg (by omega)]
  · rw [if_neg h] at hc
    have hk := (List.getElem?_eq_some_iff.1 hc).1
    rw [length_border (by omega)] at hk
    refine ⟨c, hc, ?_⟩
    rw [inks_lines_box (by omega) hk, if_neg fun h' => h h'.2.2, if_neg (by omega)]

end Rows

end Plan

/-! ## Boxes in the lines of a drawing -/

/-- A box is drawn: of the lines of the drawing, three start with its borders and its label. Its
right border has a branch where edges leave for their lanes, and its lower border where edges to the
next row leave. -/
structure BoxDrawn (p : Plan) (ls : List Text) (width row : Nat) (label : Text) : Prop where
  top : ∃ l ∈ ls[6 * row]?, border '┌' '─' '┐' width <+: l
  label : ∃ l ∈ ls[6 * row + 1]?,
    labelRow '│' (if ∃ w ∈ p.lanes, w.source = row then '├' else '│') width label <+: l
  bottom : ∃ l ∈ ls[6 * row + 2]?,
    (if ∃ w ∈ p.straight, w.source = row then
      (border '└' '─' '┘' width).modify (width / 2) branchDown
     else border '└' '─' '┘' width) <+: l

theorem not_blank_of_mem_border {left line right c : Char} {width : Nat}
    (hleft : isBlank left = false) (hline : isBlank line = false) (hright : isBlank right = false)
    (h : c ∈ border left line right width) : isBlank c = false := by
  simp only [border, List.mem_cons, List.mem_append, List.mem_replicate, List.not_mem_nil,
    or_false] at h
  rcases h with rfl | ⟨-, rfl⟩ | rfl <;> assumption

theorem not_blank_of_mem_modify {t : Text} {k : Nat} (ht : ∀ c ∈ t, isBlank c = false) :
    ∀ c ∈ t.modify k branchDown, isBlank c = false := by
  intro c hc
  obtain ⟨j, hj⟩ := List.mem_iff_getElem?.1 hc
  rw [List.getElem?_modify] at hj
  obtain ⟨b, hb, rfl⟩ := Option.map_eq_some_iff.1 hj
  split
  · unfold branchDown
    split <;> rfl
  · exact ht b (List.mem_of_getElem? hb)

namespace Plan

variable {p : Plan} {padding : Int}

theorem length_rows_canvas (cs : Charset) (padding : Int) (p : Plan) :
    (p.canvas cs padding).rows.length = 6 * p.labels.length - 3 := by
  have hheight := canvasHeight_eq p
  simp only [Canvas.rows, List.length_map, Array.length_toList, canvas, Canvas.size_paint,
    Canvas.blank, Array.size_replicate]
  omega

section Lines

variable (hpadding : 0 ≤ padding) {width : Nat} (hwidth : boxWidth padding p.labels = width)

include hpadding hwidth

/-- Each box is drawn, also without the blanks at the ends of the rows. -/
theorem boxDrawn {row : Nat} {label : Text} (hlabel : p.labels[row]? = some label) :
    BoxDrawn p ((p.canvas .unicode padding).rows.map trimEnd) width row label := by
  have hrow := (List.getElem?_eq_some_iff.1 hlabel).1
  have hlength := length_rows_canvas .unicode padding p
  have hget : ∀ r < 3, ∃ t, (p.canvas .unicode padding).rows[6 * row + r]? = some t := fun r hr =>
    ⟨_, List.getElem?_eq_getElem (by omega)⟩
  -- Trimming leaves a row of a box as it is, as its last character is not blank.
  have hline : ∀ {i : Nat} {t u : Text}, (p.canvas .unicode padding).rows[i]? = some t → u <+: t →
      (∀ c ∈ u.getLast?, isBlank c = false) →
      ∃ l ∈ ((p.canvas .unicode padding).rows.map trimEnd)[i]?, u <+: l := fun ht hu hlast =>
    ⟨_, by rw [List.getElem?_map, ht]; rfl, prefix_trimEnd hu hlast⟩
  constructor
  · obtain ⟨t, ht⟩ := hget 0 (by omega)
    exact hline ht (prefix_topRow hpadding hwidth hlabel ht) fun c hc =>
      not_blank_of_mem_border rfl rfl rfl (List.mem_of_getLast? hc)
  · obtain ⟨t, ht⟩ := hget 1 (by omega)
    refine hline ht (prefix_labelRow hpadding hwidth hlabel ht) fun c hc => ?_
    rw [labelRow, ← List.append_assoc, ← List.append_assoc, ← List.cons_append,
      List.getLast?_concat, Option.mem_some_iff] at hc
    subst hc
    split <;> rfl
  · obtain ⟨t, ht⟩ := hget 2 (by omega)
    refine hline ht (prefix_bottomRow hpadding hwidth hlabel ht) fun c hc => ?_
    have hborder : ∀ c ∈ border '└' '─' '┘' width, isBlank c = false := fun c =>
      not_blank_of_mem_border rfl rfl rfl
    replace hc := List.mem_of_getLast? hc
    split at hc
    · exact not_blank_of_mem_modify hborder c hc
    · exact hborder c hc

/-- The drawing has a line for each row of the canvas. -/
theorem lines_text_canvas (hbreak : ∀ l ∈ p.labels, ∀ c ∈ l, isBreak c = false)
    (hne : p.labels ≠ []) :
    (p.canvas .unicode padding).text.lines = (p.canvas .unicode padding).rows.map trimEnd := by
  have hpos := List.length_pos_iff.2 hne
  have hlength := length_rows_canvas .unicode padding p
  -- The last row is the lower border of the last box.
  obtain ⟨l, hl, hprefix⟩ := (boxDrawn hpadding hwidth
    (List.getElem?_eq_getElem (by omega : p.labels.length - 1 < p.labels.length))).bottom
  rw [List.getElem?_map] at hl
  obtain ⟨last, hlast, rfl⟩ := Option.map_eq_some_iff.1 hl
  have hend : (p.canvas .unicode padding).rows.getLast? = some last := by
    rw [List.getLast?_eq_getElem?, hlength, ← hlast]
    congr 1
    omega
  refine Canvas.lines_text (fun t ht c hc => ?_) hend ?_
  · obtain ⟨col, row, hcell⟩ := Canvas.exists_cell?_of_mem_rows ht hc
    rcases of_cell?_canvas hcell with hc | ⟨l, hl, hc⟩
    · exact (by decide : ∀ c ∈ Charset.unicode.alphabet, isBreak c = false) c hc
    · exact hbreak l hl c hc
  · refine List.ne_nil_of_length_pos (Nat.lt_of_lt_of_le ?_ hprefix.length_le)
    split
    · simp [border]
    · simp [border]

end Lines

end Plan

end Drawing

open Drawing

/-- In the Unicode drawing of a graph with positions for just its nodes, whatever its edges and its
labels without breaks, with any padding that is not negative, each box is whole: nothing is drawn
over it but the branches of the edges that leave it, and nothing is drawn outside of the grid. -/
theorem draw_boxes_intact {p : Positioned} (hnodes : (p.positions.map Prod.fst).Perm p.graph.ids)
    (hends : ∀ e ∈ p.graph.edges, e.source ∈ p.graph.ids ∧ e.target ∈ p.graph.ids)
    (hne : p.graph.nodes ≠ []) (hlabels : ∀ n ∈ p.graph.nodes, ∀ c ∈ n.label, isBreak c = false)
    {padding : Int} (hpadding : 0 ≤ padding) :
    let width := boxWidth padding p.plan.labels
    (∃ drawing : Text, draw .unicode padding p = .ok drawing ∧
      drawing.lines.length = 6 * p.graph.nodes.length - 3 ∧
      ∀ row < p.graph.nodes.length, ∃ id n, p.positions.rows[row]? = some id ∧
        p.graph.node? id = some n ∧ BoxDrawn p.plan drawing.lines width.toNat row n.label) ∧
    (∀ m ∈ p.plan.lines .unicode width ++ p.plan.heads Charset.unicode.glyphs width,
      ∀ row < p.graph.nodes.length, m.col < width → 6 * row ≤ m.row → m.row ≤ 6 * row + 2 →
        m = addArms (width - 1) (6 * row + 1) { right := true } ∨
        m = addArms (width / 2) (6 * row + 2) { down := true }) ∧
    ∀ m ∈ p.plan.marks .unicode width,
      ((p.plan.canvas .unicode padding).cell? m.col m.row).isSome := by
  have hplaced : p.Placed := ⟨fun id => hnodes.mem_iff, hends⟩
  have hrows : p.positions.rows.length = p.graph.nodes.length := by
    have := hnodes.length_eq
    simpa [Positions.length_rows, Graph.ids] using this
  have hcount : p.plan.labels.length = p.graph.nodes.length := by
    rw [← hrows, Positioned.plan, List.length_map]
  have hpos := List.length_pos_iff.2 hne
  have hwidth : boxWidth padding p.plan.labels = (boxWidth padding p.plan.labels).toNat := by
    have := two_le_boxWidth hpadding p.plan.labels
    omega
  have hbreak : ∀ l ∈ p.plan.labels, ∀ c ∈ l, isBreak c = false := by
    intro l hl c hc
    obtain ⟨n, hn, hc⟩ := Positioned.of_mem_labels_plan hl hc
    exact hlabels n hn c hc
  have hlines := Plan.lines_text_canvas hpadding hwidth hbreak
    (List.ne_nil_of_length_pos (by omega))
  refine ⟨⟨(p.plan.canvas .unicode padding).text, ?_, ?_, fun row hrow => ?_⟩, ?_, fun m hm => ?_⟩
  · rw [hplaced.draw_eq, if_neg]
    rw [List.isEmpty_iff_length_eq_zero, ← Positions.length_rows]
    omega
  · rw [hlines, List.length_map, Plan.length_rows_canvas, hcount]
  · rw [← hrows] at hrow
    obtain ⟨id, n, hid, hn, hlabel⟩ := hplaced.exists_node hrow
    exact ⟨id, n, hid, hn, hlines ▸ Plan.boxDrawn hpadding hwidth hlabel⟩
  · intro m hm row _ hcol hlo hhi
    rcases List.mem_append.1 hm with hm | hm
    · rcases Plan.of_mem_lines_box hm hcol (by omega) with ⟨w, -, rfl⟩ | ⟨w, -, rfl⟩ <;>
        simp only [Mark.row] at hlo hhi
      · exact .inr (by rw [show w.source = row by omega])
      · exact .inl (by rw [show w.source = row by omega])
    · exact absurd ⟨hcol, by omega⟩ (Plan.not_box_of_mem_heads hm)
  · rw [Plan.cell?_canvas, if_pos (Plan.hasCell_of_mem_marks hpadding (fun w hw =>
      hplaced.rows_lt hw) hm)]
    rfl

theorem draw_boxes_intact_knot :
    (knot.positions.map Prod.fst).Perm knot.graph.ids ∧
    (∀ e ∈ knot.graph.edges, e.source ∈ knot.graph.ids ∧ e.target ∈ knot.graph.ids) ∧
    knot.graph.nodes ≠ [] ∧ (∀ n ∈ knot.graph.nodes, ∀ c ∈ n.label, isBreak c = false) ∧
    let width := boxWidth 1 knot.plan.labels
    (∃ drawing : Text, draw .unicode 1 knot = .ok drawing ∧
      drawing.lines.length = 6 * knot.graph.nodes.length - 3 ∧
      ∀ row < knot.graph.nodes.length, ∃ id n, knot.positions.rows[row]? = some id ∧
        knot.graph.node? id = some n ∧
        BoxDrawn knot.plan drawing.lines width.toNat row n.label) ∧
    (∀ m ∈ knot.plan.lines .unicode width ++ knot.plan.heads Charset.unicode.glyphs width,
      ∀ row < knot.graph.nodes.length, m.col < width → 6 * row ≤ m.row → m.row ≤ 6 * row + 2 →
        m = addArms (width - 1) (6 * row + 1) { right := true } ∨
        m = addArms (width / 2) (6 * row + 2) { down := true }) ∧
    ∀ m ∈ knot.plan.marks .unicode width,
      ((knot.plan.canvas .unicode 1).cell? m.col m.row).isSome :=
  have hnodes : (knot.positions.map Prod.fst).Perm knot.graph.ids := by decide
  ⟨hnodes, placed_knot.ends, by decide, by decide,
    draw_boxes_intact hnodes placed_knot.ends (by decide) (by decide) (by decide)⟩

end Flowmend
