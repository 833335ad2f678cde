import Flowmend.Drawing.Canvas
import Flowmend.Proofs.Text.Lines
import Mathlib.Data.List.Basic

/-!
# Cells of a canvas

Each mark changes one cell, so what a cell holds at the end depends on the marks of this cell alone,
in their order: `inks` is their joint effect, and `cell?_paint` says what it makes of a cell.
-/

namespace Flowmend

open Text

namespace Text

theorem dropEndWhile_map {p : Char → Bool} {f : Char → Char} (h : ∀ c, p (f c) = p c) (t : Text) :
    dropEndWhile p (t.map f) = (dropEndWhile p t).map f := by
  have hp : p ∘ f = p := funext h
  rw [dropEndWhile, dropEndWhile, ← List.map_reverse, List.dropWhile_map, hp, List.map_reverse]

theorem join_map {f : Char → Char} {gap : Text} (h : gap.map f = gap) (ts : List Text) :
    join gap (ts.map (List.map f)) = (join gap ts).map f := by
  induction ts with
  | nil => rfl
  | cons t ts ih =>
    cases ts with
    | nil => rfl
    | cons u ts =>
      show t.map f ++ gap ++ join gap ((u :: ts).map (List.map f)) =
        (t ++ gap ++ join gap (u :: ts)).map f
      rw [ih, List.map_append, List.map_append, h]

end Text

namespace Mark

/-- The mark is one of the cell. -/
def hits (col row : Int) (m : Mark) : Bool := m.col == col && m.row == row

theorem hits_iff {col row : Int} {m : Mark} :
    m.hits col row = true ↔ m.col = col ∧ m.row = row := by
  simp [hits]

theorem mem_filter_hits {col row : Int} {m : Mark} {ms : List Mark} :
    m ∈ ms.filter (hits col row) ↔ m ∈ ms ∧ m.col = col ∧ m.row = row := by
  rw [List.mem_filter, hits_iff]

/-- The character after marks of one cell that holds `old`. -/
def inks (cs : Charset) (old : Char) (ms : List Mark) : Char := ms.foldl (ink cs) old

@[simp] theorem inks_nil (cs : Charset) (old : Char) : inks cs old [] = old := rfl

@[simp] theorem inks_cons (cs : Charset) (old : Char) (m : Mark) (ms : List Mark) :
    inks cs old (m :: ms) = inks cs (m.ink cs old) ms := rfl

@[simp] theorem inks_append (cs : Charset) (old : Char) (ms ns : List Mark) :
    inks cs old (ms ++ ns) = inks cs (inks cs old ms) ns := List.foldl_append

/-- What holds before the marks, and is kept by each of them, holds after all of them. -/
theorem inks_induction {cs : Charset} {P : Char → Prop} {old : Char} {ms : List Mark} (hold : P old)
    (h : ∀ m ∈ ms, ∀ c, P c → P (m.ink cs c)) : P (inks cs old ms) :=
  List.foldlRecOn ms _ hold fun c hc m hm => h m hm c hc

/-- Marks of one kind change a cell as one of them does. -/
theorem inks_of_eq {cs : Charset} {old : Char} {m : Mark} {ms : List Mark} (hne : ms ≠ [])
    (h : ∀ n ∈ ms, n = m) (hm : ∀ c, m.ink cs (m.ink cs c) = m.ink cs c) :
    inks cs old ms = m.ink cs old := by
  obtain ⟨n, ms, rfl⟩ := List.exists_cons_of_ne_nil hne
  obtain rfl := h n List.mem_cons_self
  rw [inks_cons]
  refine inks_induction (P := (· = n.ink cs old)) rfl fun k hk c hc => ?_
  rw [h k (List.mem_cons_of_mem n hk), hc, hm]

end Mark

namespace Canvas

/-! ## One cell -/

/-- The character of a cell, if the grid has the cell. -/
def cell? (cv : Canvas) (col row : Int) : Option Char :=
  if 0 ≤ col ∧ 0 ≤ row then cv.cells[row.toNat]?.bind fun cells => cells[col.toNat]? else none

theorem get_eq (cv : Canvas) (col row : Int) : cv.get col row = (cv.cell? col row).getD ' ' := by
  unfold get cell?
  split <;> rfl

theorem charset_mark (cv : Canvas) (m : Mark) : (cv.mark m).charset = cv.charset := by
  unfold mark
  split <;> rfl

theorem cell?_mark (cv : Canvas) (m : Mark) (col row : Int) :
    (cv.mark m).cell? col row =
      (cv.cell? col row).map fun old => if m.hits col row then m.ink cv.charset old else old := by
  by_cases hcell : 0 ≤ col ∧ 0 ≤ row
  · by_cases hm : 0 ≤ m.col ∧ 0 ≤ m.row
    · simp only [cell?, mark, if_pos hcell, if_pos hm, Array.getElem?_modify]
      -- A cell has one place in the grid, as its numbers are not negative.
      have hrow : m.row.toNat = row.toNat ↔ m.row = row := by omega
      have hcol : m.col.toNat = col.toNat ↔ m.col = col := by omega
      cases cv.cells[row.toNat]? with
      | none => simp
      | some cells =>
        by_cases hr : m.row = row
        · by_cases hc : m.col = col
          · simp [Mark.hits, Array.getElem?_modify, hr, hc]
          · simp [Mark.hits, Array.getElem?_modify, hr, hcol, hc]
        · simp [Mark.hits, hrow, hr]
    · have hhits : m.hits col row = false := by
        rw [← Bool.not_eq_true, Mark.hits_iff]
        rintro ⟨rfl, rfl⟩
        exact hm hcell
      simp [mark, if_neg hm, hhits]
  · simp [cell?, if_neg hcell]

/-- A cell of a painted canvas depends on the marks of the cell. -/
theorem cell?_paint (cv : Canvas) (ms : List Mark) (col row : Int) :
    (cv.paint ms).cell? col row =
      (cv.cell? col row).map fun old =>
        Mark.inks cv.charset old (ms.filter (Mark.hits col row)) := by
  induction ms generalizing cv with
  | nil => simp [paint]
  | cons m ms ih =>
    rw [paint, List.foldl_cons, ← paint, ih, cell?_mark, charset_mark, Option.map_map]
    refine congrFun (congrArg Option.map (funext fun old => ?_)) _
    by_cases hm : m.hits col row
    · simp [hm]
    · simp [hm]

/-! ## The grid -/

/-- The cell is one of a grid of this size. -/
def Inside (width height col row : Int) : Prop := 0 ≤ col ∧ col < width ∧ 0 ≤ row ∧ row < height

instance (width height col row : Int) : Decidable (Inside width height col row) :=
  inferInstanceAs (Decidable (_ ∧ _ ∧ _ ∧ _))

theorem cell?_blank (cs : Charset) (width height col row : Int) :
    (blank cs width height).cell? col row =
      if Inside width height col row then some ' ' else none := by
  by_cases hcell : 0 ≤ col ∧ 0 ≤ row
  · have hrow : row.toNat < height.toNat ↔ row < height := by omega
    have hcol : col.toNat < width.toNat ↔ col < width := by omega
    simp only [cell?, blank, if_pos hcell, Array.getElem?_replicate, hrow]
    by_cases hr : row < height
    · simp [Inside, hr, hcell, Array.getElem?_replicate, hcol]
    · simp [Inside, hr]
  · have : ¬Inside width height col row := fun h => hcell ⟨h.1, h.2.2.1⟩
    simp [cell?, if_neg hcell, this]

theorem charset_paint (cv : Canvas) (ms : List Mark) : (cv.paint ms).charset = cv.charset :=
  List.foldlRecOn (motive := fun cv' => cv'.charset = cv.charset) ms mark rfl
    fun cv' h m _ => (charset_mark cv' m).trans h

theorem size_paint (cv : Canvas) (ms : List Mark) :
    (cv.paint ms).cells.size = cv.cells.size := by
  refine List.foldlRecOn (motive := fun cv' => cv'.cells.size = cv.cells.size) ms mark rfl
    fun cv' h m _ => ?_
  unfold mark
  split
  · exact Array.size_modify.trans h
  · exact h

theorem getElem?_rows (cv : Canvas) (row : Nat) :
    cv.rows[row]? = cv.cells[row]?.map Array.toList := by
  simp [rows]

theorem getElem?_row {cv : Canvas} {row : Nat} {t : Text} (h : cv.rows[row]? = some t) (col : Nat) :
    t[col]? = cv.cell? col row := by
  rw [getElem?_rows] at h
  obtain ⟨cells, hcells, rfl⟩ := Option.map_eq_some_iff.1 h
  simp [cell?, hcells]

/-- A row starts with the characters of its first cells. -/
theorem prefix_row {cv : Canvas} {row : Nat} {t u : Text} (h : cv.rows[row]? = some t)
    (hu : ∀ (k : Nat) c, u[k]? = some c → cv.cell? k row = some c) : u <+: t := by
  refine List.prefix_iff_getElem?.2 fun k hk => ?_
  rw [getElem?_row h, hu k _ (List.getElem?_eq_getElem hk)]

/-- Canvases that differ by a change of characters in every cell do so row by row. -/
theorem rows_eq_map {cv cv' : Canvas} {f : Char → Char} (hsize : cv'.cells.size = cv.cells.size)
    (h : ∀ col row, cv'.cell? col row = (cv.cell? col row).map f) :
    cv'.rows = cv.rows.map (List.map f) := by
  have hlength : cv'.rows.length = (cv.rows.map (List.map f)).length := by simp [rows, hsize]
  refine List.ext_getElem hlength fun row hrow hrow' => List.ext_getElem? fun col => ?_
  rw [List.length_map] at hrow'
  rw [getElem?_row (List.getElem?_eq_getElem hrow), h, List.getElem_map, List.getElem?_map,
    getElem?_row (List.getElem?_eq_getElem hrow')]

/-- So does their text, if the change leaves blanks and line feeds as they are. -/
theorem text_eq_map {cv cv' : Canvas} {f : Char → Char} (hblank : ∀ c, isBlank (f c) = isBlank c)
    (hfeed : ∀ c, (f c == '\n') = (c == '\n')) (h : cv'.rows = cv.rows.map (List.map f)) :
    cv'.text = cv.text.map f := by
  have htrim : (List.map f · : Text → Text) ∘ trimEnd = trimEnd ∘ (List.map f ·) :=
    funext fun t => (dropEndWhile_map hblank t).symm
  have hgap : ['\n'].map f = ['\n'] := by
    have := hfeed '\n'
    simpa using this
  rw [text, text, h, List.map_map, ← htrim, ← List.map_map, join_map hgap, dropEndWhile_map hfeed,
    List.map_append, hgap]

/-- Canvases of one size are the same if their cells are. -/
theorem ext_cell? {cv cv' : Canvas} (hcharset : cv'.charset = cv.charset)
    (hsize : cv'.cells.size = cv.cells.size)
    (h : ∀ col row, cv'.cell? col row = cv.cell? col row) : cv' = cv := by
  have hrows : cv'.rows = cv.rows.map (List.map id) :=
    rows_eq_map hsize fun col row => by rw [h, Option.map_id, id]
  rw [List.map_id_fun, List.map_id_fun, id] at hrows
  obtain ⟨cs, cells⟩ := cv
  obtain ⟨cs', cells'⟩ := cv'
  obtain rfl : cs' = cs := hcharset
  have hcells : cells' = cells :=
    Array.toList_inj.1 (List.map_injective_iff.2 (fun _ _ => Array.toList_inj.1) hrows)
  rw [hcells]

/-- The text of a canvas has a line for each row, if the last row is not blank and no row has a
break. -/
theorem lines_text {cv : Canvas} (hbreak : ∀ t ∈ cv.rows, ∀ c ∈ t, isBreak c = false)
    {last : Text} (hlast : cv.rows.getLast? = some last) (hne : trimEnd last ≠ []) :
    lines cv.text = cv.rows.map trimEnd := by
  obtain ⟨init, hrows⟩ := List.getLast?_eq_some_iff.1 hlast
  have hsub : ∀ t ∈ cv.rows.map trimEnd, ∀ c ∈ t, isBreak c = false := by
    intro t ht c hc
    obtain ⟨row, hrow, rfl⟩ := List.mem_map.1 ht
    exact hbreak row hrow c ((List.rdropWhile_prefix isBlank row).subset hc)
  have hend : dropEndWhile (· == '\n') (unlines (cv.rows.map trimEnd)) =
      unlines (cv.rows.map trimEnd) := by
    refine dropEndWhile_eq_self _ fun c hc => ?_
    rw [hrows, List.map_append, List.map_singleton, ← List.nil_append (trimEnd last),
      unlines_concat_append, List.getLast?_append_of_ne_nil _ hne] at hc
    have := hsub (trimEnd last) (by simp [hrows]) c (List.mem_of_getLast? hc)
    rw [← Bool.not_eq_true, beq_iff_eq]
    rintro rfl
    cases this
  rw [text, show join ['\n'] (cv.rows.map trimEnd) = unlines (cv.rows.map trimEnd) from rfl, hend]
  exact lines_unlines_append_newline (by simp [hrows]) hsub

/-- The characters of the rows are those of the cells. -/
theorem exists_cell?_of_mem_rows {cv : Canvas} {t : Text} (ht : t ∈ cv.rows) {c : Char}
    (hc : c ∈ t) : ∃ col row, cv.cell? col row = some c := by
  obtain ⟨row, hrow⟩ := List.mem_iff_getElem?.1 ht
  obtain ⟨col, hcol⟩ := List.mem_iff_getElem?.1 hc
  exact ⟨col, row, (getElem?_row hrow col).symm.trans hcol⟩

end Canvas

end Flowmend
