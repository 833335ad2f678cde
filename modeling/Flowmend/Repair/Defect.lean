import Flowmend.Statement.Connector
import Flowmend.Text.Word

/-!
# Defects of a line

Some lines cannot be read side by side: a declaration runs into what follows it, or a connector runs
into a bracket or a label or leads nowhere. The defects are looked for in the text of the line,
before it is cut into tokens.
-/

namespace Flowmend.Defect

open Text

/-- A bracket that opens a label. -/
def isOpener (c : Char) : Bool := c == '[' || c == '(' || c == '{'

/-- A bracket that closes a label. -/
def isCloser (c : Char) : Bool := c == ']' || c == ')' || c == '}'

/-- What follows a closing bracket at the start of the text. -/
def afterCloser? : Text → Option Text
  | [] => none
  | c :: t => if isCloser c then some t else none

/-! ## Glued declarations -/

/-- What follows a closing bracket and an id, with blanks around the id. -/
def afterGluedId? (t : Text) : Option Text :=
  match afterCloser? t with
  | none => none
  | some t =>
    if (leadingId (trimStart t)).isEmpty then none else some (trimStart (afterId (trimStart t)))

/-- A closing bracket, an id, and an opening bracket, an arrow or the end of the line. -/
def isGlued (t : Text) : Bool :=
  (afterGluedId? t).any fun rest =>
    rest.isEmpty || rest.head?.any isOpener || (Connector.arrow? rest).isSome

/-- A declaration is followed by an id without a connector between them. -/
def hasGluedNodes (line : Text) : Bool := anyTail isGlued line

/-! ## Broken connectors -/

/-- A closing bracket and an arrow. -/
def isTightArrow (t : Text) : Bool :=
  (afterCloser? t).any fun rest => (Connector.arrow? rest).isSome

/-- The text without a label between bars at its start and the blanks after it. The label may run
over line breaks. -/
def skipLabel (t : Text) : Text :=
  match t with
  | '|' :: inner =>
    match inner.dropWhile (· != '|') with
    | _ :: rest => trimStart rest
    | [] => t
  | _ => t

/-- An arrow, with or without a label, and then the end of the line or another arrow. -/
def isLostArrow (t : Text) : Bool :=
  (Connector.arrow? t).any fun (_, rest) =>
    let rest := trimStart rest
    [rest, skipLabel rest].any fun r => r.isEmpty || (Connector.arrow? r).isSome

/-- A connector, a label between bars, and an id without a blank before it. -/
def isTightLabel (t : Text) : Bool :=
  (Connector.token? t).any fun (_, rest) =>
    (Connector.pipe? (trimStart rest)).any fun (_, rest) => rest.head?.any isIdChar

/-- A closing bracket and a bar, or a bar and an opening square bracket. -/
def isTightBar : Text → Bool
  | c :: d :: _ => (isCloser c && d == '|') || (c == '|' && d == '[')
  | _ => false

/-- An arrow opens the line, touches a bracket or a label, or leads nowhere. -/
def hasBrokenConnector (line : Text) : Bool :=
  (Connector.arrow? (trimStart line)).isSome ||
    anyTail (fun t => isTightArrow t || isLostArrow t || isTightLabel t || isTightBar t) line

end Flowmend.Defect
