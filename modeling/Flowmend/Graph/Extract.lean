import Flowmend.Graph.Basic
import Flowmend.Header
import Flowmend.Label
import Flowmend.Statement.Chain
import Flowmend.Statement.Token

/-!
# Graphs of texts

A graph is read leniently from any text, line by line. A line with connectors gives edges: each part
of a side is arrived at by its first node and left from its last one, and all framed nodes of the
line are nodes. A line that opens with a framed node gives its framed nodes. Any other line gives
only the nodes written `id[label`, so that prose with parentheses declares nothing.
-/

namespace Flowmend

namespace Extract

open Text

/-- What has been read so far. -/
structure Draft where
  nodes : List Node
  edges : List Edge
  deriving DecidableEq, Repr

/-- The label of a node, of at most `limit` characters: its own made safe, or else its id. -/
def labelOf (limit : Option Int) (id raw : Text) : Text :=
  let label := Label.clean limit raw
  if label.isEmpty then cut limit id else label

/-- Adds a node, unless its id is there already. -/
def Draft.declare (limit : Option Int) (d : Draft) (id raw : Text) : Draft :=
  if d.nodes.any fun n => n.id == id then d
  else { d with nodes := d.nodes ++ [⟨id, labelOf limit id raw⟩] }

/-- Adds the node of a reference, unless its id is there already. -/
def Draft.addReference (limit : Option Int) (d : Draft) (n : Reference) : Draft :=
  d.declare limit n.id (n.frame.elim [] Frame.label)

/-- Adds an edge, whose id holds its ends and its number. -/
def Draft.connect (d : Draft) (kind : EdgeKind) (source target : Text) : Draft :=
  let id :=
    'e' :: '-' :: source ++ '-' :: target ++ '-' :: Nat.toDigits 10 d.edges.length
  { d with edges := d.edges ++ [⟨id, source, target, kind⟩] }

/-! ## Lines without connectors -/

/-- The framed nodes of a line. -/
def framedNodes (line : Text) : List Reference := (references line).filter fun n => !n.bare

/-- The line opens with a framed node. -/
def opensWithFrame (line : Text) : Bool :=
  (Reference.opening? line).any fun (n, _) => !n.bare

/-- A character of the label in `id[label`: neither a square bracket nor a line feed. -/
def isBoxed (c : Char) : Bool := c != '[' && c != ']' && c != '\n'

/-- The ids and labels written `id[label` in a line. -/
def boxes : Text → List (Text × Text)
  | [] => []
  | c :: t =>
    if isIdChar c then
      match _h : afterId t with
      | '[' :: inner =>
        (c :: leadingId t, inner.takeWhile isBoxed) :: boxes (inner.dropWhile isBoxed)
      | _ => boxes (afterId t)
    else boxes t
termination_by t => t.length
decreasing_by
  · have h₁ := List.IsSuffix.length_le (List.dropWhile_suffix (l := t) isIdChar)
    have h₂ := List.IsSuffix.length_le (List.dropWhile_suffix (l := inner) isBoxed)
    simp only [afterId] at _h
    rw [_h] at h₁
    simp only [List.length_cons] at h₁ ⊢
    omega
  · exact Nat.lt_succ_of_le (List.IsSuffix.length_le (List.dropWhile_suffix _))
  · exact Nat.lt_succ_self _

/-! ## Lines with connectors -/

/-- Which way a side is joined to its neighbours: edges arrive unless it is the first side, and
leave unless it is the last. -/
structure Role where
  arrives : Bool
  leaves : Bool
  deriving DecidableEq, Repr

/-- The node references of a part that are nodes: the framed ones, the first if edges arrive, and
the last if edges leave. -/
def nodesOfPart (role : Role) : List Reference → List Reference
  | [] => []
  | n :: ns =>
    if !n.bare || role.arrives || (role.leaves && ns.isEmpty) then
      n :: nodesOfPart { role with arrives := false } ns
    else nodesOfPart { role with arrives := false } ns

/-- The ends of a side: the ids that edges arrive at, and those that they leave from. -/
structure Ends where
  targets : List Text
  sources : List Text
  deriving DecidableEq, Repr

/-- The node references of each part of a side. -/
def partReferences (side : Text) : List (List Reference) := (fanOut side).map references

/-- The ends of a side. -/
def endsOf (side : Text) : Ends where
  targets := (partReferences side).filterMap fun ns => ns.head?.map Reference.id
  sources := (partReferences side).filterMap fun ns => ns.getLast?.map Reference.id

/-- Adds the nodes of a side. -/
def Draft.addSide (limit : Option Int) (role : Role) (d : Draft) (side : Text) : Draft :=
  ((partReferences side).flatMap (nodesOfPart role)).foldl (Draft.addReference limit) d

/-- Adds the nodes of the sides after the first one. -/
def Draft.addSides (limit : Option Int) (d : Draft) : List Link → Draft
  | [] => d
  | l :: ls => (d.addSide limit ⟨true, !ls.isEmpty⟩ (trim l.side)).addSides limit ls

/-- Adds one edge from each source to each target. -/
def Draft.connectAll (d : Draft) (kind : EdgeKind) (sources targets : List Text) : Draft :=
  (sources.flatMap fun s => targets.map fun t => (s, t)).foldl
    (fun d (s, t) => d.connect kind s t) d

/-- Adds the edges of the links, the first of which leaves from `sources`. -/
def Draft.addEdges (d : Draft) (sources : List Text) : List Link → Draft
  | [] => d
  | l :: ls =>
    let ends := endsOf (trim l.side)
    (d.connectAll l.connector.kind sources ends.targets).addEdges ends.sources ls

/-- Adds the nodes and edges of a chain: its nodes first. -/
def Draft.addChain (limit : Option Int) (d : Draft) (c : Chain) : Draft :=
  let d := d.addSide limit ⟨false, !c.links.isEmpty⟩ (trim c.first)
  (d.addSides limit c.links).addEdges (endsOf (trim c.first)).sources c.links

/-! ## Texts -/

/-- Adds what a statement declares. -/
def Draft.addStatement (limit : Option Int) (d : Draft) (line : Text) : Draft :=
  let chain := Chain.ofText line
  if !chain.links.isEmpty then d.addChain limit chain
  else if opensWithFrame line then (framedNodes line).foldl (Draft.addReference limit) d
  else (boxes line).foldl (fun d (id, raw) => d.declare limit id raw) d

/-- Adds what a trimmed line declares: nothing for comments and directives, and the statements after
a header. -/
def Draft.addLine (limit : Option Int) (d : Draft) (line : Text) : Draft :=
  if isComment line || isDirective line then d
  else
    let statement := Header.skip line
    if statement.isEmpty then d else d.addStatement limit statement

/-- What a text declares. -/
def draft (limit : Option Int) (source : Text) : Draft :=
  ((numberedLines source).map Prod.snd).foldl (Draft.addLine limit) ⟨[], []⟩

end Extract

/-- The graph of a text, with labels of at most `limit` characters. -/
def Graph.extract (limit : Option Int) (source : Text) : Graph :=
  let d := Extract.draft limit source
  Graph.ofLists d.nodes d.edges

end Flowmend
