import Flowmend.Text.Lines
import Flowmend.Text.Word

/-!
# Headers and other whole lines

The first line of a diagram that is no comment names its kind. `kind?` accepts the exact headers;
`opensWithKeyword` and `isLoneKeyword` recognise the words `graph` and `flowchart` where the rest of
the header is missing or wrong. Comments and directives are lines that hold no statement.
-/

namespace Flowmend

open Text

/-- The direction in which a flowchart grows. -/
inductive Direction
  | down
  | across
  deriving DecidableEq, Repr

/-- The kind of a diagram. -/
inductive DiagramKind
  | flowchart (direction : Direction)
  | sequence
  | mindmap
  | pie
  | gantt
  | journey
  | classes
  | states
  | entities
  deriving DecidableEq, Repr

namespace DiagramKind

/-- The kind of a diagram whose header says nothing. -/
def default : DiagramKind := flowchart .down

/-- The diagram is a flowchart of either direction. -/
def isFlowchart : DiagramKind → Bool
  | flowchart _ => true
  | _ => false

end DiagramKind

/-! ## Comments and directives -/

/-- A comment line. -/
def isComment (line : Text) : Bool := startsWith ['%', '%'] line

/-- The words that open a directive. -/
def directiveWords : List Text :=
  ["subgraph", "end", "classDef", "class", "style", "linkStyle", "click", "direction"].map
    String.toList

/-- The line opens with the word `w`, and no letter, digit or underscore follows. -/
def opensWithWord (line w : Text) : Bool :=
  (after? w line).any fun rest => !opensWord rest

/-- A line that sets up the diagram and holds no statement. -/
def isDirective (line : Text) : Bool := directiveWords.any (opensWithWord line)

namespace Header

/-! ## Exact headers -/

/-- The headers and the kinds that they name. -/
def table : List (Text × DiagramKind) :=
  [("graph TD".toList, .flowchart .down),
   ("graph TB".toList, .flowchart .down),
   ("graph BT".toList, .flowchart .down),
   ("graph LR".toList, .flowchart .across),
   ("graph RL".toList, .flowchart .across),
   ("flowchart TD".toList, .flowchart .down),
   ("flowchart TB".toList, .flowchart .down),
   ("flowchart BT".toList, .flowchart .down),
   ("flowchart LR".toList, .flowchart .across),
   ("flowchart RL".toList, .flowchart .across),
   ("sequenceDiagram".toList, .sequence),
   ("mindmap".toList, .mindmap),
   ("pie".toList, .pie),
   ("gantt".toList, .gantt),
   ("journey".toList, .journey),
   ("classDiagram".toList, .classes),
   ("stateDiagram".toList, .states),
   ("erDiagram".toList, .entities)]

/-- After a header stands neither a character of a word nor a bracket, with which it would be the id
of a node. -/
def endsHeader (rest : Text) : Bool :=
  !rest.head?.any fun c => isWord c || c == '[' || c == '(' || c == '{'

/-- The kind that the header at the start of the line names, and what follows the header. -/
def read? (line : Text) : Option (DiagramKind × Text) :=
  table.findSome? fun (header, kind) =>
    ((after? header line).filter endsHeader).map fun rest => (kind, rest)

/-- The kind that the header at the start of the line names. -/
def kind? (line : Text) : Option DiagramKind := (read? line).map Prod.fst

/-- The kind of a diagram, from its first line that is neither blank nor a comment. -/
def ofSource? (source : Text) : Option DiagramKind :=
  match (numberedLines source).find? fun (_, line) => !isComment line with
  | none => none
  | some (_, line) => kind? line

/-! ## Keywords -/

/-- What follows `w` at the start of the text, in any case of the ASCII letters. -/
def afterAnyCase? : (w t : Text) → Option Text
  | [], t => some t
  | _ :: _, [] => none
  | a :: w, c :: t => if a = c.toLower then afterAnyCase? w t else none

/-- What follows the word `graph` or `flowchart` in any case. -/
def afterWord? (line : Text) : Option Text :=
  afterAnyCase? "graph".toList line <|> afterAnyCase? "flowchart".toList line

/-- What follows the flowchart keyword, which ends at a blank, a semicolon or the end of the
line. -/
def afterKeyword? (line : Text) : Option Text :=
  (afterWord? line).filter fun rest => !rest.head?.any fun c => !isBlank c && c != ';'

/-- The line opens with the flowchart keyword, whatever follows. -/
def opensWithKeyword (line : Text) : Bool := (afterKeyword? line).isSome

/-- Blanks, at most one semicolon and blanks are all there is. -/
def onlyTerminator (t : Text) : Bool :=
  match trimStart t with
  | ';' :: t => allBlank t
  | t => t.isEmpty

/-- What follows blanks and a word. -/
def afterDirection? (t : Text) : Option Text :=
  match t with
  | c :: _ =>
    if isBlank c && opensWord (trimStart t) then some ((trimStart t).dropWhile isWord) else none
  | [] => none

/-- The line is the flowchart keyword alone, or with one word in place of the direction. -/
def isLoneKeyword (line : Text) : Bool :=
  (afterWord? line).any fun rest => onlyTerminator rest || (afterDirection? rest).any onlyTerminator

/-- The line without a header or flowchart keyword at its start and the spaces, tabs and semicolons
after it. -/
def skip (line : Text) : Text :=
  match ((read? line).map Prod.snd) <|> afterKeyword? line with
  | some rest => rest.dropWhile fun c => c == ' ' || c == '\t' || c == ';'
  | none => line

end Header

end Flowmend
