import Flowmend.Text.Basic

/-!
# Edge kinds

An edge has a stroke and arrowheads; each of the nine combinations is written as a connector of
three to five characters.
-/

namespace Flowmend

/-- How the line of an edge is drawn. -/
inductive Stroke
  | plain
  | dotted
  | thick
  deriving DecidableEq, Repr

/-- Where an edge has arrowheads. -/
inductive Heads
  | headless
  | forward
  | both
  deriving DecidableEq, Repr

/-- A kind of edge. -/
structure EdgeKind where
  stroke : Stroke
  heads : Heads
  deriving DecidableEq, Repr

namespace EdgeKind

/-- The plain arrow. -/
def arrow : EdgeKind := ⟨.plain, .forward⟩

/-- The edge has an arrowhead at its target. -/
def directed (k : EdgeKind) : Bool := k.heads != .headless

/-- The edge has arrowheads at both ends. -/
def bidirectional (k : EdgeKind) : Bool := k.heads == .both

/-- The shortest connector of the kind. -/
def token : EdgeKind → Text
  | ⟨.plain, .headless⟩ => ['-', '-', '-']
  | ⟨.plain, .forward⟩ => ['-', '-', '>']
  | ⟨.plain, .both⟩ => ['<', '-', '-', '>']
  | ⟨.dotted, .headless⟩ => ['-', '.', '-']
  | ⟨.dotted, .forward⟩ => ['-', '.', '-', '>']
  | ⟨.dotted, .both⟩ => ['<', '-', '.', '-', '>']
  | ⟨.thick, .headless⟩ => ['=', '=', '=']
  | ⟨.thick, .forward⟩ => ['=', '=', '>']
  | ⟨.thick, .both⟩ => ['<', '=', '=', '>']

/-- The kind that a connector of any length stands for: a dot makes it dotted, else a double stroke
thick; a head at its start makes it bidirectional, else one at its end directed. -/
def ofToken (token : Text) : EdgeKind where
  stroke := if token.contains '.' then .dotted else if token.contains '=' then .thick else .plain
  heads :=
    if token.head? = some '<' then .both
    else if token.getLast? = some '>' then .forward
    else .headless

end EdgeKind

end Flowmend
