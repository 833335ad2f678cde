import Flowmend.Proofs.Drawing.Marks

/-!
# The rows of a box

A box has three rows: its borders, and its label between them (`boxRows`). The marks of a box put
the characters of these rows in place, each in a cell of its own (`exists_of_mem_boxMarks`,
`put_mem_boxMarks`), so the cells of a box hold its rows until edges are drawn
(`Plan.inks_boxes`).
-/

namespace Flowmend

open Text Mark

namespace Drawing

/-! ## Rows -/

/-- An upper or lower border: a line between two corners. -/
def border (left line right : Char) (width : Nat) : Text :=
  left :: (List.replicate (width - 2) line ++ [right])

/-- The blanks between the left border of a box and its label. -/
def indent (width : Nat) (label : Text) : Nat := (width - 2 - label.length) / 2

/-- The row of a box with its label, between a left and a right border. -/
def labelRow (left right : Char) (width : Nat) (label : Text) : Text :=
  left :: (List.replicate (indent width label) ' ' ++ (label ++
    (List.replicate (width - 2 - label.length - indent width label) ' ' ++ [right])))

/-- The rows of a box as it is drawn before the edges. -/
def boxRows (g : Glyphs) (width : Nat) (label : Text) : List Text :=
  [border g.topLeft g.horizontal g.topRight width, labelRow g.vertical g.vertical width label,
    border g.bottomLeft g.horizontal g.bottomRight width]

section Rows

variable {width k : Nat} {c : Char}

theorem getElem?_border {left line right : Char} (hwidth : 2 ≤ width) :
    (border left line right width)[k]? = some c ↔
      k = 0 ∧ c = left ∨ (0 < k ∧ k < width - 1) ∧ c = line ∨ k = width - 1 ∧ c = right := by
  grind [border]

theorem getElem?_labelRow {left right : Char} {label : Text} (hlabel : label.length + 2 ≤ width) :
    (labelRow left right width label)[k]? = some c ↔
      k = 0 ∧ c = left ∨ (∃ j, label[j]? = some c ∧ k = 1 + indent width label + j) ∨
      c = ' ' ∧ (0 < k ∧ k < 1 + indent width label ∨
        1 + indent width label + label.length ≤ k ∧ k < width - 1) ∨
      k = width - 1 ∧ c = right := by
  have hindent : indent width label + label.length + 2 ≤ width := by
    unfold indent
    omega
  rcases k with _ | k
  · simp only [labelRow, List.getElem?_cons_zero]
    grind
  · simp only [labelRow, List.getElem?_cons_succ, List.getElem?_append, List.length_replicate,
      List.getElem?_replicate, List.getElem?_singleton]
    grind

theorem length_border {left line right : Char} (hwidth : 2 ≤ width) :
    (border left line right width).length = width := by
  simp [border]
  omega

theorem length_labelRow {left right : Char} {label : Text} (hlabel : label.length + 2 ≤ width) :
    (labelRow left right width label).length = width := by
  simp [labelRow, indent]
  omega

theorem length_of_mem_boxRows {g : Glyphs} {label u : Text} (hlabel : label.length + 2 ≤ width)
    (hu : u ∈ boxRows g width label) : u.length = width := by
  simp only [boxRows, List.mem_cons, List.not_mem_nil, or_false] at hu
  rcases hu with rfl | rfl | rfl
  · exact length_border (by omega)
  · exact length_labelRow hlabel
  · exact length_border (by omega)

end Rows

/-! ## Marks -/

section Marks

variable {g : Glyphs} {width row : Nat} {label : Text} (hlabel : label.length + 2 ≤ width)

include hlabel

/-- Each mark of a box puts a character of its rows in place. -/
theorem exists_of_mem_boxMarks {m : Mark} (h : m ∈ boxMarks g width row label) :
    ∃ (r : Nat) (u : Text) (k : Nat) (c : Char), (boxRows g width label)[r]? = some u ∧
      u[k]? = some c ∧ m = put k (6 * row + r) c := by
  have hwidth : 2 ≤ width := by omega
  have htop := top_eq row
  rcases List.mem_append.1 h with h | h
  · have hwidth' : 2 ≤ (width : Int) := by omega
    simp only [boxHeight, htop] at h
    rcases (mem_box hwidth' (by omega)).1 h with rfl | rfl | rfl | rfl | ⟨col, h₁, h₂, rfl | rfl⟩ |
        ⟨y, h₁, h₂, rfl | rfl⟩
    · exact ⟨0, _, 0, _, rfl, rfl, by simp⟩
    · refine ⟨0, _, width - 1, _, rfl, (getElem?_border hwidth).2 (.inr (.inr ⟨rfl, rfl⟩)), ?_⟩
      simp only [put.injEq, and_true]
      omega
    · refine ⟨2, _, 0, _, rfl, rfl, ?_⟩
      simp only [put.injEq, and_true]
      omega
    · refine ⟨2, _, width - 1, _, rfl, (getElem?_border hwidth).2 (.inr (.inr ⟨rfl, rfl⟩)), ?_⟩
      simp only [put.injEq, and_true]
      omega
    · refine ⟨0, _, col.toNat, _, rfl, (getElem?_border hwidth).2 (.inr (.inl ⟨by omega, rfl⟩)), ?_⟩
      simp only [put.injEq, and_true]
      omega
    · refine ⟨2, _, col.toNat, _, rfl, (getElem?_border hwidth).2 (.inr (.inl ⟨by omega, rfl⟩)), ?_⟩
      simp only [put.injEq, and_true]
      omega
    · refine ⟨1, _, 0, _, rfl, rfl, ?_⟩
      simp only [put.injEq, and_true]
      omega
    · refine ⟨1, _, width - 1, _, rfl,
        (getElem?_labelRow hlabel).2 (.inr (.inr (.inr ⟨rfl, rfl⟩))), ?_⟩
      simp only [put.injEq, and_true]
      omega
  · obtain ⟨j, c, hc, rfl⟩ := mem_write.1 h
    refine ⟨1, _, 1 + indent width label + j, c, rfl,
      (getElem?_labelRow hlabel).2 (.inr (.inl ⟨j, hc, rfl⟩)), ?_⟩
    simp only [put.injEq, and_true, htop, indent]
    omega

/-- Each character of the rows of a box is put in place, but for the blanks around the label. -/
theorem put_mem_boxMarks {r k : Nat} {u : Text} {c : Char}
    (hu : (boxRows g width label)[r]? = some u) (hc : u[k]? = some c) :
    c = ' ' ∨ put k (6 * row + r) c ∈ boxMarks g width row label := by
  have hwidth : 2 ≤ width := by omega
  have hwidth' : 2 ≤ (width : Int) := by omega
  have htop := top_eq row
  simp only [boxMarks, boxHeight, List.mem_append, mem_box hwidth' (by omega : (2 : Int) ≤ 3),
    mem_write, htop, put.injEq]
  rcases r with _ | _ | _ | r
  · cases hu
    rcases (getElem?_border hwidth).1 hc with ⟨rfl, rfl⟩ | ⟨hk, rfl⟩ | ⟨rfl, rfl⟩
    · exact .inr (.inl (.inl (by simp)))
    · exact .inr (.inl (.inr (.inr (.inr (.inr (.inl ⟨k, by omega, by omega, .inl (by simp)⟩))))))
    · exact .inr (.inl (.inr (.inl ⟨by omega, by omega, rfl⟩)))
  · cases hu
    rcases (getElem?_labelRow hlabel).1 hc with ⟨rfl, rfl⟩ | ⟨j, hj, rfl⟩ | ⟨rfl, -⟩ | ⟨rfl, rfl⟩
    · refine .inr (.inl (.inr (.inr (.inr (.inr (.inr ⟨6 * row + 1, by omega, by omega, ?_⟩))))))
      exact .inl ⟨rfl, by omega, rfl⟩
    · refine .inr (.inr ⟨j, c, hj, ?_, by omega, rfl⟩)
      unfold indent
      omega
    · exact .inl rfl
    · refine .inr (.inl (.inr (.inr (.inr (.inr (.inr ⟨6 * row + 1, by omega, by omega, ?_⟩))))))
      exact .inr ⟨by omega, by omega, rfl⟩
  · cases hu
    rcases (getElem?_border hwidth).1 hc with ⟨rfl, rfl⟩ | ⟨hk, rfl⟩ | ⟨rfl, rfl⟩
    · exact .inr (.inl (.inr (.inr (.inl ⟨rfl, by omega, rfl⟩))))
    · refine .inr (.inl (.inr (.inr (.inr (.inr (.inl ⟨k, by omega, by omega, ?_⟩))))))
      exact .inr ⟨rfl, by omega, rfl⟩
    · exact .inr (.inl (.inr (.inr (.inr (.inl ⟨by omega, by omega, rfl⟩)))))
  · cases hu

end Marks

/-! ## Cells -/

/-- A label fits into its box. -/
theorem length_add_two_le_boxWidth {padding : Int} (hpadding : 0 ≤ padding) {labels : List Text}
    {label : Text} (h : label ∈ labels) : (label.length : Int) + 2 ≤ boxWidth padding labels := by
  have hmax : label.length ≤ (labels.map List.length).foldl max 0 := by
    rw [List.foldl_max]
    exact Nat.le_trans (List.le_max?_getD_of_mem (List.mem_map_of_mem h)) (Nat.le_max_right ..)
  unfold boxWidth
  omega

namespace Plan

/-- Before edges are drawn, the cells of a box hold its rows. -/
theorem inks_boxes {p : Plan} {cs : Charset} {width row r k : Nat} {label u : Text} {c : Char}
    (hlabel : p.labels[row]? = some label) (hfits : ∀ l ∈ p.labels, l.length + 2 ≤ width)
    (hu : (boxRows cs.glyphs width label)[r]? = some u) (hc : u[k]? = some c) :
    inks cs ' ' ((p.boxes cs.glyphs width).filter (hits k (6 * row + r))) = c := by
  have hr : r < 3 := (List.getElem?_eq_some_iff.1 hu).1
  have heq : ∀ m ∈ (p.boxes cs.glyphs width).filter (hits k (6 * row + r)),
      m = put k (6 * row + r) c := by
    intro m hm
    obtain ⟨hm, hcol, hrow⟩ := mem_filter_hits.1 hm
    obtain ⟨row', label', hlabel', hm⟩ := mem_boxes.1 hm
    obtain ⟨r', u', k', c', hu', hc', rfl⟩ :=
      exists_of_mem_boxMarks (hfits _ (List.mem_of_getElem? hlabel')) hm
    have hr' : r' < 3 := (List.getElem?_eq_some_iff.1 hu').1
    simp only [Mark.col, Mark.row] at hcol hrow
    obtain rfl : row' = row := by omega
    obtain rfl : r' = r := by omega
    obtain rfl : k' = k := by omega
    rw [hlabel, Option.some.injEq] at hlabel'
    subst hlabel'
    rw [hu, Option.some.injEq] at hu'
    subst hu'
    rw [hc, Option.some.injEq] at hc'
    rw [hc']
  by_cases hnil : (p.boxes cs.glyphs width).filter (hits k (6 * row + r)) = []
  · rw [hnil, inks_nil]
    have hput : c = ' ' ∨ put k (6 * row + r) c ∈ boxMarks cs.glyphs width row label :=
      put_mem_boxMarks (hfits _ (List.mem_of_getElem? hlabel)) hu hc
    rcases hput with h | h
    · exact h.symm
    · have hmem : put k (6 * row + r) c ∈
          (p.boxes cs.glyphs width).filter (hits k (6 * row + r)) :=
        mem_filter_hits.2 ⟨mem_boxes.2 ⟨row, label, hlabel, h⟩, rfl, rfl⟩
      rw [hnil] at hmem
      cases hmem
  · rw [inks_of_eq hnil heq fun _ => rfl]
    rfl

end Plan

end Drawing

end Flowmend
