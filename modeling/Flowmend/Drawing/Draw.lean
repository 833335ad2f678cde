import Flowmend.Drawing.Canvas
import Flowmend.Layout

/-!
# Drawings

The nodes of a positioned graph are stacked as boxes of one width. An edge to the next box is a
straight line; every other edge has a lane of its own to the right of the boxes. A drawing is a list
of marks on a blank canvas: boxes first, then lines, and arrowheads at the end, so that no line runs
over them.
-/

namespace Flowmend

/-- Why a positioned graph cannot be drawn. -/
inductive DrawError
  /-- An id with a position is no node of the graph. -/
  | unknownNode (id : Text)
  /-- An end of an edge has no position. -/
  | unplacedEnd (id : Text)
  deriving DecidableEq, Repr

namespace DrawError

/-- The id that is missing. -/
def id : DrawError → Text
  | unknownNode id | unplacedEnd id => id

end DrawError

namespace Drawing

/-- The height of a box. -/
def boxHeight : Int := 3

/-- The rows between two boxes. -/
def gap : Int := 3

/-- The columns that a lane takes. -/
def laneStep : Int := 2

/-- An edge between two rows of boxes. -/
structure Wire where
  kind : EdgeKind
  source : Nat
  target : Nat
  deriving DecidableEq, Repr

namespace Wire

/-- The edge leads to the next row. -/
def adjacent (w : Wire) : Bool := w.target == w.source + 1

end Wire

/-- What is drawn: the labels of the boxes from top to bottom, and the edges. -/
structure Plan where
  labels : List Text
  wires : List Wire
  deriving DecidableEq, Repr

/-! ## From graph to plan -/

/-- The labels of the ids, or the first id that is no node. -/
def labelsOf (g : Graph) (ids : List Text) : Except DrawError (List Text) :=
  ids.mapM fun id =>
    match g.node? id with
    | some n => .ok n.label
    | none => .error (.unknownNode id)

/-- The row of an id. -/
def rowOf (ids : List Text) (id : Text) : Except DrawError Nat :=
  match ids.idxOf? id with
  | some row => .ok row
  | none => .error (.unplacedEnd id)

/-- The edge between rows; its target is looked up first. -/
def wireOf (ids : List Text) (e : Edge) : Except DrawError Wire := do
  let target ← rowOf ids e.target
  let source ← rowOf ids e.source
  pure ⟨e.kind, source, target⟩

/-- What is drawn of a positioned graph that has positions. -/
def planOf (p : Positioned) : Except DrawError Plan := do
  let ids := p.positions.rows
  let labels ← labelsOf p.graph ids
  let wires ← p.graph.edges.mapM (wireOf ids)
  pure ⟨labels, wires⟩

/-! ## From plan to marks -/

/-- The top row of a box. -/
def top (row : Nat) : Int := row * (boxHeight + gap)

/-- The width of the boxes: the longest label, the padding on both sides, and the border. -/
def boxWidth (padding : Int) (labels : List Text) : Int :=
  ((labels.map List.length).foldl max 0 : Nat) + 2 * padding + 2

/-- A box with its label in the middle. -/
def boxMarks (g : Glyphs) (width : Int) (row : Nat) (label : Text) : List Mark :=
  let pad := (max 0 (width - 2 - label.length)) / 2
  Mark.box g 0 (top row) width boxHeight ++ Mark.write (1 + pad) (top row + 1) label

/-- The line of an edge to the next box. -/
def straightMarks (cs : Charset) (width : Int) (w : Wire) : List Mark :=
  let center := width / 2
  let first := top w.source + boxHeight
  .addArms center (first - 1) { down := true } ::
    Mark.vline center first (first + gap - 1) (cs.upright w.kind.stroke)

/-- The arrowheads of an edge to the next box. -/
def straightHeads (g : Glyphs) (width : Int) (w : Wire) : List Mark :=
  let center := width / 2
  let first := top w.source + boxHeight
  (if w.kind.directed then [.put center (first + gap - 1) g.arrowDown] else []) ++
  (if w.kind.bidirectional then [.put center first g.arrowUp] else [])

/-- The row in which an edge leaves for its lane. -/
def exitRow (w : Wire) : Int := top w.source + 1

/-- The row in which an edge comes back from its lane; an edge from a box to itself comes back one
row lower than it leaves. -/
def entryRow (w : Wire) : Int := if w.source = w.target then top w.target + 2 else top w.target + 1

/-- The line of an edge in a lane. -/
def laneMarks (g : Glyphs) (width lane : Int) (w : Wire) : List Mark :=
  let exit := exitRow w
  let entry := entryRow w
  let downward : Bool := exit < entry
  let lo := min exit entry
  let hi := max exit entry
  .addArms (width - 1) exit { right := true } ::
    Mark.hline exit width (lane - 1) g.horizontal ++
    Mark.hline entry width (lane - 1) g.horizontal ++
    (if 1 < hi - lo then Mark.vline lane (lo + 1) (hi - 1) g.vertical else []) ++
    [.addArms lane exit { left := true, down := downward, up := !downward },
     .addArms lane entry { left := true, up := downward, down := !downward }]

/-- The arrowheads of an edge in a lane. -/
def laneHeads (g : Glyphs) (width : Int) (w : Wire) : List Mark :=
  (if w.kind.directed then [.put width (entryRow w) g.arrowLeft] else []) ++
  (if w.kind.bidirectional then [.put width (exitRow w) g.arrowLeft] else [])

namespace Plan

/-- The edges to the next box. -/
def straight (p : Plan) : List Wire := p.wires.filter Wire.adjacent

/-- The edges in lanes. -/
def lanes (p : Plan) : List Wire := p.wires.filter fun w => !w.adjacent

/-- The column of the `k`-th lane. -/
def laneCol (width : Int) (k : Nat) : Int := width + laneStep * (k + 1)

/-- All marks of the drawing, in order. -/
def marks (cs : Charset) (width : Int) (p : Plan) : List Mark :=
  let g := cs.glyphs
  (p.labels.zipIdx.flatMap fun (label, row) => boxMarks g width row label) ++
  (p.straight.flatMap (straightMarks cs width)) ++
  (p.lanes.zipIdx.flatMap fun (w, k) => laneMarks g width (laneCol width k) w) ++
  (p.straight.flatMap (straightHeads g width)) ++
  (p.lanes.flatMap (laneHeads g width))

/-- The width of the canvas. -/
def canvasWidth (width : Int) (p : Plan) : Int :=
  if p.lanes.isEmpty then width else width + laneStep * p.lanes.length + 1

/-- The height of the canvas. -/
def canvasHeight (p : Plan) : Int := p.labels.length * (boxHeight + gap) - gap

/-- The canvas with all marks. -/
def canvas (cs : Charset) (padding : Int) (p : Plan) : Canvas :=
  let width := boxWidth padding p.labels
  (Canvas.blank cs (p.canvasWidth width) p.canvasHeight).paint (p.marks cs width)

end Plan

end Drawing

/-- The drawing of a positioned graph; without positions it is empty. -/
def draw (cs : Charset) (padding : Int) (p : Positioned) : Except DrawError Text :=
  if p.positions.isEmpty then .ok []
  else (Drawing.planOf p).map fun plan => (plan.canvas cs padding).text

end Flowmend
