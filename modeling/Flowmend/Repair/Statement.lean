import Flowmend.Repair.Defect
import Flowmend.Repair.Node
import Flowmend.Repair.Placeholder
import Flowmend.Statement.Chain
import Flowmend.Statement.Token

/-!
# Repair of statements

A line of a flowchart is mended on its own. A line with a defect is read as tokens and written
again: first its declarations, then the bare nodes that no edge mentions, then one edge per
connector. Any other line with connectors becomes one edge per line, and a line without connectors
keeps its text but for the node that it opens with.
-/

namespace Flowmend

open Text

/-- An edge as written. -/
def edgeLine (source token : Text) (label : Option Text) (target : Text) : Text :=
  let pipe :=
    match label with
    | some (c :: l) => '|' :: c :: l ++ ['|']
    | _ => []
  source ++ ' ' :: token ++ pipe ++ ' ' :: target

/-- The label of a connector made safe. -/
def Connector.mendLabel (k : Connector) : Noted (Option Text) :=
  match k.label with
  | none => pure none
  | some raw => do
    let label ← Label.mendEdge raw
    pure (some label)

/-! ## Statements read as tokens -/

namespace Statement

/-- What a token contributes to a statement that is written again. -/
inductive Piece
  | declaration (node : Reference)
  | edge (source : Text) (connector : Connector) (target : Text)
  deriving DecidableEq, Repr

namespace Piece

/-- The piece as a line. -/
def line : Piece → Noted Text
  | declaration node => node.mend
  | edge source connector target => do
    let label ← connector.mendLabel
    pure (edgeLine source connector.token label target)

/-- The piece declares a node. -/
def isDeclaration : Piece → Bool
  | declaration _ => true
  | edge .. => false

/-- The ids that an edge joins. -/
def ends : Piece → List Text
  | declaration _ => []
  | edge source _ target => [source, target]

end Piece

/-- What stands before the next token: nothing, a node, or a connector that has left its source. -/
inductive Standing
  | start
  | node (id : Text)
  | connector (source : Text) (connector : Connector)
  deriving DecidableEq, Repr

namespace Standing

/-- The edge that is finished by arriving at `target`. -/
def arrive (s : Standing) (target : Text) : List Piece :=
  match s with
  | connector source k => [.edge source k target]
  | _ => []

end Standing

/-- The pieces of a statement, in the order of its tokens. Each framed node that is not yet
`declared` is declared; a connector without a node before or after it gets a placeholder. -/
def pieces (declared : List Text) (standing : Standing) (supply : Placeholders) :
    List Token → List Piece × Placeholders
  | [] =>
    match standing with
    | .connector source k =>
      let (target, supply) := supply.next
      ([.edge source k target], supply)
    | _ => ([], supply)
  | .node n :: ts =>
    let isNew := !n.bare && !declared.contains n.id
    let (ps, supply) :=
      pieces (if n.bare then declared else n.id :: declared) (.node n.id) supply ts
    ((if isNew then [.declaration n] else []) ++ standing.arrive n.id ++ ps, supply)
  | .connector k :: ts =>
    match standing with
    | .node id => pieces declared (.connector id k) supply ts
    | .start =>
      let (source, supply) := supply.next
      pieces declared (.connector source k) supply ts
    | .connector source k' =>
      let (target, supply) := supply.next
      let (ps, supply) := pieces declared (.connector target k) supply ts
      (.edge source k' target :: ps, supply)

/-- The ids of the framed nodes among the tokens. -/
def declaredIds (ts : List Token) : List Text :=
  (ts.filterMap Token.node?).filterMap fun n => if n.bare then none else some n.id

/-- The ids of the bare nodes among the tokens. -/
def bareIds (ts : List Token) : List Text :=
  (ts.filterMap Token.node?).filterMap fun n => if n.bare then some n.id else none

/-- A broken statement written again: declarations, bare nodes that stand alone, edges. -/
def restate (supply : Placeholders) (line : Text) : Noted (List Text) × Placeholders :=
  let ts := tokens line
  let (ps, supply) := pieces [] .start supply ts
  let used := declaredIds ts ++ ps.flatMap Piece.ends
  let alone := (bareIds ts).eraseDups.filter fun id => !used.contains id
  let (declarations, edges) := ps.partition Piece.isDeclaration
  (⟨declarations.map (·.line.value) ++ alone ++ edges.map (·.line.value),
    ps.flatMap (·.line.repairs)⟩, supply)

end Statement

/-! ## Statements read side by side -/

namespace Chain

/-- The nodes of a side, the node that each part opens with mended. -/
def mendSide (side : Text) : Noted (List Text) :=
  Noted.each Reference.mendOpening
    (match fanOut side with
     | [] => [side]
     | parts => parts)

/-- The id that a node opens with, by which it is mentioned again. -/
def mention (node : Text) : Text :=
  if (leadingId node).isEmpty then node else leadingId node

/-- One edge from each source to each node of the next side, and so on from there. -/
def edgeLines (sources : List Text) : List (Connector × List Text) → Noted (List Text)
  | [] => pure []
  | (k, targets) :: rest => do
    let label ← k.mendLabel
    let more ← edgeLines (targets.map mention) rest
    pure ((sources.flatMap fun s => targets.map fun t => edgeLine s k.token label t) ++ more)

/-- The chain as one edge per line, its nodes mended. -/
def mend (c : Chain) : Noted (List Text) := do
  let first ← mendSide (trim c.first)
  let links ← Noted.each
    (fun (l : Link) => do
      let side ← mendSide (trim l.side)
      pure (l.connector, side))
    c.links
  edgeLines first links

end Chain

/-! ## Any statement -/

/-- The lines that take the place of a line of a flowchart. -/
def mendLine (supply : Placeholders) (line : Text) : Noted (List Text) × Placeholders :=
  let restateFor (defect : Repair) :=
    let (lines, supply) := Statement.restate supply line
    ((do Noted.note [defect]; lines), supply)
  if Defect.hasGluedNodes line then restateFor .gluedNodes
  else if Defect.hasBrokenConnector line then restateFor .brokenConnector
  else
    let chain := Chain.ofText line
    if chain.links.isEmpty then
      ((do let line ← Reference.mendOpening line; pure [line]), supply)
    else if chain.sides.any List.isEmpty then restateFor .danglingConnector
    else (chain.mend, supply)

end Flowmend
