import Flowmend.Edge

/-!
# Graphs

A graph has nodes with labels and edges between them, both in the order of their discovery. Built
with `ofLists`, its node ids and edge ids are distinct and its edges join nodes that it has.
-/

namespace Flowmend

/-- A node of a graph. -/
structure Node where
  id : Text
  label : Text
  deriving DecidableEq, Repr

/-- An edge of a graph, between the ids of two nodes. -/
structure Edge where
  id : Text
  source : Text
  target : Text
  kind : EdgeKind
  deriving DecidableEq, Repr

/-- Nodes and edges in the order of their discovery. -/
structure Graph where
  nodes : List Node
  edges : List Edge
  deriving DecidableEq, Repr

namespace Graph

/-- The graph without nodes. -/
def empty : Graph := ⟨[], []⟩

/-- The node with this id. -/
def node? (g : Graph) (id : Text) : Option Node := g.nodes.find? fun n => n.id == id

/-- The graph has a node with this id. -/
def hasNode (g : Graph) (id : Text) : Bool := g.nodes.any fun n => n.id == id

/-- The graph has no nodes. -/
def isEmpty (g : Graph) : Bool := g.nodes.isEmpty

/-- Adds a node, unless its id is there already. -/
def insertNode (g : Graph) (n : Node) : Graph :=
  if g.hasNode n.id then g else { g with nodes := g.nodes ++ [n] }

/-- Adds an edge, unless one of its ends is no node or its id is there already. -/
def insertEdge (g : Graph) (e : Edge) : Graph :=
  if g.hasNode e.source && g.hasNode e.target && !g.edges.any (fun f => f.id == e.id) then
    { g with edges := g.edges ++ [e] }
  else g

/-- The graph of these nodes and edges. -/
def ofLists (nodes : List Node) (edges : List Edge) : Graph :=
  edges.foldl insertEdge (nodes.foldl insertNode empty)

/-- The sizes of the graph in words. -/
def summary (g : Graph) : String := s!"Graph(nodes={g.nodes.length}, edges={g.edges.length})"

end Graph

end Flowmend
