import Flowmend.Drawing.Arms

/-!
# Canvases

A canvas is a grid of characters. It is drawn on by marks, each of which changes one cell; a mark
outside of the grid changes nothing. Boxes, lines and labels are lists of marks.
-/

namespace Flowmend

/-- A change of one cell. -/
inductive Mark
  /-- Puts a character in place of what is there. -/
  | put (col row : Int) (c : Char)
  /-- Draws a line character, which joins arms with a line that is there. -/
  | stroke (col row : Int) (c : Char)
  /-- Adds arms to the line that is there, in place of anything else. -/
  | addArms (col row : Int) (arms : Arms)
  deriving DecidableEq, Repr

namespace Mark

/-- The column of the cell. -/
def col : Mark → Int
  | put col _ _ | stroke col _ _ | addArms col _ _ => col

/-- The row of the cell. -/
def row : Mark → Int
  | put _ row _ | stroke _ row _ | addArms _ row _ => row

/-- The character after the mark in a cell that holds `old`. -/
def ink (cs : Charset) (old : Char) : Mark → Char
  | put _ _ c => c
  | stroke _ _ c =>
    match Arms.ofChar? old, Arms.ofChar? c with
    | some a, some b => (a.merge b).toChar cs
    | _, _ => c
  | addArms _ _ arms => (((Arms.ofChar? old).getD {}).merge arms).toChar cs

/-! ## Lists of marks -/

/-- The integers from `lo` to `hi`. -/
def span (lo hi : Int) : List Int := (List.range (hi + 1 - lo).toNat).map fun (i : Nat) => lo + i

/-- A horizontal line between two columns. -/
def hline (row x₁ x₂ : Int) (c : Char) : List Mark :=
  (span (min x₁ x₂) (max x₁ x₂)).map fun col => stroke col row c

/-- A vertical line between two rows. -/
def vline (col y₁ y₂ : Int) (c : Char) : List Mark :=
  (span (min y₁ y₂) (max y₁ y₂)).map fun row => stroke col row c

/-- The border of a box; a box less than two cells wide or high has none. -/
def box (g : Glyphs) (x y width height : Int) : List Mark :=
  if width < 2 ∨ height < 2 then []
  else
    let x₁ := x + width - 1
    let y₁ := y + height - 1
    [put x y g.topLeft, put x₁ y g.topRight, put x y₁ g.bottomLeft, put x₁ y₁ g.bottomRight] ++
    ((span (x + 1) (x₁ - 1)).flatMap fun col =>
      [put col y g.horizontal, put col y₁ g.horizontal]) ++
    ((span (y + 1) (y₁ - 1)).flatMap fun row => [put x row g.vertical, put x₁ row g.vertical])

/-- A text from a cell to the right. -/
def write (col row : Int) : Text → List Mark
  | [] => []
  | c :: t => put col row c :: write (col + 1) row t

end Mark

/-- A grid of characters. -/
structure Canvas where
  charset : Charset
  cells : Array (Array Char)

namespace Canvas

/-- A canvas of spaces; a negative size counts as none. -/
def blank (cs : Charset) (width height : Int) : Canvas :=
  ⟨cs, Array.replicate height.toNat (Array.replicate width.toNat ' ')⟩

/-- The character of a cell; a space outside of the grid. -/
def get (cv : Canvas) (col row : Int) : Char :=
  if 0 ≤ col ∧ 0 ≤ row then
    (cv.cells[row.toNat]?.bind fun cells => cells[col.toNat]?).getD ' '
  else ' '

/-- Makes a mark. -/
def mark (cv : Canvas) (m : Mark) : Canvas :=
  if 0 ≤ m.col ∧ 0 ≤ m.row then
    { cv with cells := cv.cells.modify m.row.toNat fun cells =>
        cells.modify m.col.toNat fun old => m.ink cv.charset old }
  else cv

/-- Makes marks, one after the other. -/
def paint (cv : Canvas) (ms : List Mark) : Canvas := ms.foldl mark cv

/-- The rows of the grid. -/
def rows (cv : Canvas) : List Text := cv.cells.toList.map Array.toList

/-- The rows without blanks at their ends, up to the last one that is not empty, with a line feed at
the end. -/
def text (cv : Canvas) : Text :=
  Text.dropEndWhile (· == '\n') (Text.join ['\n'] (cv.rows.map Text.trimEnd)) ++ ['\n']

end Canvas

end Flowmend
