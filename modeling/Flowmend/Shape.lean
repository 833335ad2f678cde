import Flowmend.Text.Basic

/-!
# Node shapes

The brackets around a label choose the shape of its node.
-/

namespace Flowmend

/-- The shape of a node. -/
inductive Shape
  | circle
  | subroutine
  | stadium
  | cylinder
  | hexagon
  | rectangle
  | rounded
  | diamond
  deriving DecidableEq, Repr

namespace Shape

/-- All shapes, those with two brackets before those with one: a double bracket is not read as a
single one. -/
def all : List Shape :=
  [circle, subroutine, stadium, cylinder, hexagon, rectangle, rounded, diamond]

/-- What opens a label of the shape. -/
def opener : Shape → Text
  | circle => ['(', '(']
  | subroutine => ['[', '[']
  | stadium => ['(', '[']
  | cylinder => ['[', '(']
  | hexagon => ['{', '{']
  | rectangle => ['[']
  | rounded => ['(']
  | diamond => ['{']

/-- What closes a label of the shape. -/
def closer : Shape → Text
  | circle => [')', ')']
  | subroutine => [']', ']']
  | stadium => [']', ')']
  | cylinder => [')', ']']
  | hexagon => ['}', '}']
  | rectangle => [']']
  | rounded => [')']
  | diamond => ['}']

/-- The shape that the text opens, and what follows the opener. -/
def open? (t : Text) : Option (Shape × Text) :=
  all.findSome? fun s => (Text.after? s.opener t).map fun rest => (s, rest)

end Shape

end Flowmend
