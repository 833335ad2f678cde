import Flowmend.Text.Basic

/-!
# Lines

A text is cut into lines at ten kinds of breaks; a carriage return and a line feed together are one
break. A break at the end starts no further line, so the empty text has no line.
-/

namespace Flowmend.Text

/-- A character that ends a line. -/
def isBreak (c : Char) : Bool :=
  let n := c.toNat
  (10 ≤ n && n ≤ 13) || (28 ≤ n && n ≤ 30) || n == 0x85 || n == 0x2028 || n == 0x2029

/-- The lines of a text, without their breaks. -/
def lines : Text → List Text
  | [] => []
  | '\r' :: '\n' :: t => [] :: lines t
  | c :: t =>
    if isBreak c then [] :: lines t
    else
      match lines t with
      | [] => [[c]]
      | l :: ls => (c :: l) :: ls

/-- The trimmed lines that are not blank, each with its number counted from 1. -/
def numberedLines (t : Text) : List (Nat × Text) :=
  ((lines t).zipIdx 1).filterMap fun (l, n) =>
    let l := trim l
    if l.isEmpty then none else some (n, l)

/-- The lines with a line feed between neighbours. -/
def unlines (ls : List Text) : Text := join ['\n'] ls

/-- Carriage returns, alone or before a line feed, become line feeds. -/
def foldReturns : Text → Text
  | [] => []
  | '\r' :: '\n' :: t => '\n' :: foldReturns t
  | c :: t => (if c = '\r' then '\n' else c) :: foldReturns t

end Flowmend.Text
