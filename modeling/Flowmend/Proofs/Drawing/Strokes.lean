import Flowmend.Proofs.Drawing.Ascii

/-!
# Lines in any order

Lines may be drawn on a canvas in any order (`Canvas.drawLines_perm`). A cell does not keep its arms
but a character: the first line in it may be one of the other charset, and plain ASCII has the same
character for all bends and branches. Nothing is lost by that which would show later
(`Arms.exists_ofChar?_toChar`), so any two strokes in a cell can change places (`Mark.ink_comm`).
-/

namespace Flowmend

/-! ## Arms read back -/

namespace Arms

variable {a : Arms}

/-- There are two arms at least, as all line characters have. -/
def IsLine (a : Arms) : Prop :=
  a.up ∧ a.down ∨ a.left ∧ a.right ∨ (a.up ∨ a.down) ∧ (a.left ∨ a.right)

instance (a : Arms) : Decidable a.IsLine := inferInstanceAs (Decidable (_ ∨ _))

theorem isLine_of_ofChar? {c : Char} (h : ofChar? c = some a) : a.IsLine := by
  unfold ofChar? at h
  split at h <;> cases h <;> decide

theorem IsLine.merge (h : a.IsLine) (b : Arms) : (a.merge b).IsLine := by
  simp only [IsLine, Arms.merge, Bool.or_eq_true] at h ⊢
  tauto

/-- The Unicode character for some arms has just these arms. -/
theorem ofChar?_toChar_unicode (h : a.IsLine) : ofChar? (a.toChar .unicode) = some a := by
  obtain ⟨up, down, left, right⟩ := a
  revert up down left right
  decide

/-- The ASCII character for some arms that are not in a line has all four. -/
theorem ofChar?_toChar_ascii (h : a.IsLine) : ofChar? (a.toChar .ascii) = some a.flat := by
  obtain ⟨up, down, left, right⟩ := a
  revert up down left right
  decide

/-- Further arms make the same of the arms of a character as of those for which it was drawn. -/
theorem exists_ofChar?_toChar (cs : Charset) (h : a.IsLine) :
    ∃ o, ofChar? (a.toChar cs) = some o ∧ ∀ b, (o.merge b).toChar cs = (a.merge b).toChar cs := by
  cases cs with
  | unicode => exact ⟨a, ofChar?_toChar_unicode h, fun _ => rfl⟩
  | ascii =>
    -- Both are the ASCII character in place of the Unicode one.
    refine ⟨a.flat, ofChar?_toChar_ascii h, fun b => ?_⟩
    exact (toChar_flat_merge a b).trans (toChar_flat_merge {} (a.merge b)).symm

end Arms

/-! ## Strokes in one cell -/

namespace Mark

/-- The mark is a stroke of a line character. -/
def DrawsLine (m : Mark) : Prop :=
  ∃ col row c, m = stroke col row c ∧ (Arms.ofChar? c).isSome

/-- Two strokes in a cell can change places, whatever the cell held before. -/
theorem ink_comm {m n : Mark} (hm : m.DrawsLine) (hn : n.DrawsLine) (cs : Charset) (old : Char) :
    n.ink cs (m.ink cs old) = m.ink cs (n.ink cs old) := by
  obtain ⟨_, _, c, rfl, hc⟩ := hm
  obtain ⟨_, _, d, rfl, hd⟩ := hn
  obtain ⟨a, ha⟩ := Option.isSome_iff_exists.1 hc
  obtain ⟨b, hb⟩ := Option.isSome_iff_exists.1 hd
  cases hold : Arms.ofChar? old with
  | none => simp only [ink, hold, ha, hb, Arms.merge_comm a b]
  | some o =>
    have hline := Arms.isLine_of_ofChar? hold
    obtain ⟨u, hu, hjoin⟩ := Arms.exists_ofChar?_toChar cs (hline.merge a)
    obtain ⟨v, hv, hjoin'⟩ := Arms.exists_ofChar?_toChar cs (hline.merge b)
    simp only [ink, hold, ha, hb, hu, hv, hjoin, hjoin', Arms.merge_assoc, Arms.merge_comm a b]

theorem inks_perm {ms ns : List Mark} (h : ms.Perm ns) (hms : ∀ m ∈ ms, m.DrawsLine)
    (cs : Charset) (old : Char) : inks cs old ms = inks cs old ns :=
  h.foldl_eq' (fun m hm n hn c => ink_comm (hms m hm) (hms n hn) cs c) old

end Mark

/-! ## Lines -/

/-- A call that draws a line of a given character, or else of the canvas's own stroke. -/
inductive Line
  /-- A line character in one cell. -/
  | dot (col row : Int) (c : Char)
  /-- A line from one column to the other. -/
  | across (row x₁ x₂ : Int) (c : Option Char)
  /-- A line from one row to the other. -/
  | along (col y₁ y₂ : Int) (c : Option Char)
  deriving DecidableEq, Repr

namespace Line

/-- The character that is asked for, if any. -/
def char? : Line → Option Char
  | dot _ _ c => some c
  | across _ _ _ c | along _ _ _ c => c

/-- The line as marks on a canvas with these glyphs. -/
def marks (g : Glyphs) : Line → List Mark
  | dot col row c => [.stroke col row c]
  | across row x₁ x₂ c => Mark.hline row x₁ x₂ (c.getD g.horizontal)
  | along col y₁ y₂ c => Mark.vline col y₁ y₂ (c.getD g.vertical)

/-- The character that is asked for has arms. -/
def HasArms (l : Line) : Prop := ∀ c ∈ l.char?, (Arms.ofChar? c).isSome

instance (l : Line) : Decidable l.HasArms := inferInstanceAs (Decidable (∀ c ∈ l.char?, _))

theorem drawsLine_of_mem_marks {l : Line} (h : l.HasArms) {cs : Charset} {m : Mark}
    (hm : m ∈ l.marks cs.glyphs) : m.DrawsLine := by
  have hown : ∀ own ∈ [cs.glyphs.horizontal, cs.glyphs.vertical], (Arms.ofChar? own).isSome := by
    cases cs <;> decide
  have hgiven : ∀ own ∈ [cs.glyphs.horizontal, cs.glyphs.vertical],
      (Arms.ofChar? (l.char?.getD own)).isSome := by
    intro own hmem
    cases hc : l.char? with
    | none => exact hown own hmem
    | some c => exact h c hc
  cases l with
  | dot col row c =>
    rw [List.mem_singleton.1 hm]
    exact ⟨col, row, c, rfl, h c rfl⟩
  | across row x₁ x₂ c =>
    obtain ⟨col, -, rfl⟩ := List.mem_map.1 hm
    exact ⟨col, row, _, rfl, hgiven _ (by simp)⟩
  | along col y₁ y₂ c =>
    obtain ⟨row, -, rfl⟩ := List.mem_map.1 hm
    exact ⟨col, row, _, rfl, hgiven _ (by simp)⟩

end Line

/-! ## Canvases -/

namespace Canvas

/-- Draws lines, one after the other. -/
def drawLines (cv : Canvas) (ls : List Line) : Canvas :=
  ls.foldl (fun cv l => cv.paint (l.marks cv.charset.glyphs)) cv

theorem drawLines_eq_paint (cv : Canvas) (ls : List Line) :
    cv.drawLines ls = cv.paint (ls.flatMap (Line.marks cv.charset.glyphs)) := by
  induction ls generalizing cv with
  | nil => rfl
  | cons l ls ih =>
    rw [drawLines, List.foldl_cons, ← drawLines, ih, charset_paint, List.flatMap_cons, paint, paint,
      paint, List.foldl_append]

/-- Strokes of line characters can be made in any order. -/
theorem paint_perm {ms ns : List Mark} (h : ms.Perm ns) (hms : ∀ m ∈ ms, m.DrawsLine)
    (cv : Canvas) : cv.paint ms = cv.paint ns := by
  refine ext_cell? ?_ ?_ fun col row => ?_
  · rw [charset_paint, charset_paint]
  · rw [size_paint, size_paint]
  · have hinks := Mark.inks_perm (h.filter (Mark.hits col row)) fun m hm =>
      hms m (List.mem_of_mem_filter hm)
    simp only [cell?_paint, hinks]

/-- Lines whose characters have arms leave the same canvas in any order, whatever its charset, its
size and what it holds before. -/
theorem drawLines_perm (cv : Canvas) {ls ls' : List Line} (harms : ∀ l ∈ ls, l.HasArms)
    (h : ls.Perm ls') : cv.drawLines ls = cv.drawLines ls' := by
  rw [drawLines_eq_paint, drawLines_eq_paint]
  refine paint_perm (h.flatMap_right _) (fun m hm => ?_) cv
  obtain ⟨l, hl, hm⟩ := List.mem_flatMap.1 hm
  exact Line.drawsLine_of_mem_marks (harms l hl) hm

/-- Lines over a label and over each other, in an ASCII canvas that has characters of both charsets,
drawn forwards and backwards. -/
theorem drawLines_perm_reverse :
    let cv : Canvas := ⟨.ascii, #[#['x', '|', ' '], #[' ', '┌', '─']]⟩
    let ls : List Line := [.across 0 2 0 none, .along 1 (-1) 1 (some '│'), .dot 0 1 '└',
      .dot 0 1 '┘', .dot 2 1 '-']
    (∀ l ∈ ls, l.HasArms) ∧ ls.Perm ls.reverse ∧ cv.drawLines ls = cv.drawLines ls.reverse ∧
    (cv.drawLines ls).rows = [['-', '+', '-'], ['+', '+', '-']] := by
  intro cv ls
  have harms : ∀ l ∈ ls, l.HasArms := by decide
  have hperm : ls.Perm ls.reverse := (List.reverse_perm ls).symm
  exact ⟨harms, hperm, drawLines_perm cv harms hperm, by decide⟩

end Canvas

end Flowmend
