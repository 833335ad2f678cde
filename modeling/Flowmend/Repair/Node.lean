import Flowmend.Label
import Flowmend.Repair.Event
import Flowmend.Statement.Node

/-!
# Repair of nodes

A node is written again with its label made safe and closed. A label that is safe but for blanks
around it stays as it is.
-/

namespace Flowmend

open Text

namespace Label

/-- What is wrong with the label of a node. -/
def faults (node raw : Text) : List Repair :=
  (if isEmphatic raw then [.emphasis node] else []) ++
  (if isForeign raw then [.nonAscii node] else []) ++
  (if isMarked raw then [.specialChars node] else [])

/-- The label of a node made safe. A label of which nothing is left gives way to the node's id. -/
def mend (node raw : Text) : Noted Text :=
  let label := clean none raw
  if label = trim raw then ⟨raw, []⟩
  else ⟨if label.isEmpty then node else label, faults node raw⟩

/-- The label of a connector made safe. -/
def mendEdge (raw : Text) : Noted Text :=
  let label := clean none raw
  ⟨label, if label = trim raw then [] else [.edgeLabel]⟩

end Label

namespace Reference

/-- The node with the label of its frame closed and made safe, as written. -/
def mend (n : Reference) : Noted Text :=
  match n.frame with
  | none => pure n.id
  | some f => do
    Noted.note (if f.closed then [] else [.unclosedLabel n.id])
    let label ← Label.mend n.id f.label
    pure (n.id ++ f.shape.opener ++ label ++ f.shape.closer)

/-- The text with the framed node that it opens with mended; a text that opens with none stays. -/
def mendOpening (t : Text) : Noted Text :=
  match opening? t with
  | none => pure t
  | some (n, rest) =>
    if n.bare then pure t
    else do
      let node ← n.mend
      pure (node ++ rest)

end Reference

end Flowmend
