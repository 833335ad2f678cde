import Flowmend.Graph.Basic
import Flowmend.Settings

/-!
# Layout

The layout puts the nodes of a graph in one column, one row each, in the order of their discovery;
edges have no say. A drawing reads the rows from the positions, top to bottom.
-/

namespace Flowmend

/-- A point of the plane; `y` grows downwards. -/
structure Point where
  x : Int
  y : Int
  deriving DecidableEq, Repr

/-- Points for ids, each id once. -/
abbrev Positions := List (Text × Point)

namespace Positions

/-- Puts an id at a point. An id that has a point already keeps its place in the list. -/
def place (ps : Positions) (id : Text) (p : Point) : Positions :=
  if ps.any fun q => q.1 == id then ps.map fun q => if q.1 = id then (id, p) else q
  else ps ++ [(id, p)]

/-- One point stands before another: higher up, or as high and not further right. -/
def precedes (p q : Point) : Bool := p.y < q.y || (p.y == q.y && p.x ≤ q.x)

/-- The ids from top to bottom, and from left to right; ids at one point keep their order. -/
def rows (ps : Positions) : List Text :=
  (ps.mergeSort fun p q => precedes p.2 q.2).map Prod.fst

end Positions

/-- A graph with points for its nodes. -/
structure Positioned where
  graph : Graph
  positions : Positions
  deriving Repr

/-- The layout of a graph. -/
def layout (s : Settings) (g : Graph) : Positioned where
  graph := g
  positions := g.nodes.zipIdx.map fun (n, i) => (n.id, ⟨s.column, s.firstRow + i * s.rowStep⟩)

end Flowmend
