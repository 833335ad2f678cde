import Flowmend.Edge

/-!
# Arms

A line character is known by its arms: the directions in which it leaves its cell. Two lines that
meet in a cell join their arms. The Unicode charset has a character for each set of arms with a bend
or a branch; plain ASCII has `+` for all of them.
-/

namespace Flowmend

/-- The characters that a drawing is made of. -/
inductive Charset
  | unicode
  | ascii
  deriving DecidableEq, Repr

/-- The line characters and arrowheads of a charset. -/
structure Glyphs where
  topLeft : Char
  topRight : Char
  bottomLeft : Char
  bottomRight : Char
  horizontal : Char
  vertical : Char
  teeRight : Char
  teeLeft : Char
  teeDown : Char
  teeUp : Char
  cross : Char
  arrowLeft : Char
  arrowDown : Char
  arrowUp : Char

namespace Charset

/-- The glyphs of a charset. -/
def glyphs : Charset → Glyphs
  | unicode =>
    { topLeft := '┌', topRight := '┐', bottomLeft := '└', bottomRight := '┘'
      horizontal := '─', vertical := '│'
      teeRight := '├', teeLeft := '┤', teeDown := '┬', teeUp := '┴', cross := '┼'
      arrowLeft := '◄', arrowDown := '▼', arrowUp := '▲' }
  | ascii =>
    { topLeft := '+', topRight := '+', bottomLeft := '+', bottomRight := '+'
      horizontal := '-', vertical := '|'
      teeRight := '+', teeLeft := '+', teeDown := '+', teeUp := '+', cross := '+'
      arrowLeft := '<', arrowDown := 'v', arrowUp := '^' }

/-- The vertical line for a stroke; plain ASCII has only one. -/
def upright (cs : Charset) (s : Stroke) : Char :=
  match cs, s with
  | unicode, .thick => '║'
  | unicode, .dotted => '╎'
  | _, _ => cs.glyphs.vertical

end Charset

/-- The directions in which a line character leaves its cell. -/
structure Arms where
  up : Bool := false
  down : Bool := false
  left : Bool := false
  right : Bool := false
  deriving DecidableEq, Repr

namespace Arms

/-- The arms of a line character of either charset. -/
def ofChar? : Char → Option Arms
  | '─' | '-' => some { left := true, right := true }
  | '│' | '|' => some { up := true, down := true }
  | '┌' => some { down := true, right := true }
  | '┐' => some { down := true, left := true }
  | '└' => some { up := true, right := true }
  | '┘' => some { up := true, left := true }
  | '├' => some { up := true, down := true, right := true }
  | '┤' => some { up := true, down := true, left := true }
  | '┬' => some { down := true, left := true, right := true }
  | '┴' => some { up := true, left := true, right := true }
  | '┼' | '+' => some { up := true, down := true, left := true, right := true }
  | _ => none

/-- The arms of both. -/
def merge (a b : Arms) : Arms where
  up := a.up || b.up
  down := a.down || b.down
  left := a.left || b.left
  right := a.right || b.right

/-- The character with these arms. A single arm is drawn as a whole line. -/
def toChar (cs : Charset) (a : Arms) : Char :=
  match a.up, a.down, a.left, a.right with
  | false, false, false, false => ' '
  | _, _, false, false => cs.glyphs.vertical
  | false, false, _, _ => cs.glyphs.horizontal
  | false, true, false, true => cs.glyphs.topLeft
  | false, true, true, false => cs.glyphs.topRight
  | true, false, false, true => cs.glyphs.bottomLeft
  | true, false, true, false => cs.glyphs.bottomRight
  | true, true, false, true => cs.glyphs.teeRight
  | true, true, true, false => cs.glyphs.teeLeft
  | false, true, true, true => cs.glyphs.teeDown
  | true, false, true, true => cs.glyphs.teeUp
  | true, true, true, true => cs.glyphs.cross

end Arms

end Flowmend
