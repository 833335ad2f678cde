import Flowmend.Text.Quoted

/-!
# Repairs

Each change that is made to a diagram is recorded: what was wrong, and on which line. `Noted` is a
value together with the repairs that led to it.
-/

namespace Flowmend

/-- A class of repairs. -/
inductive RepairClass
  | concatenatedNodes
  | malformedArrow
  | markdownInLabel
  | mismatchedBracketCount
  | missingHeader
  | nonAsciiInLabel
  | specialCharsInLabel
  | unclosedBracket
  deriving DecidableEq, Repr

namespace RepairClass

/-- The name of the class. -/
def name : RepairClass → String
  | concatenatedNodes => "concatenated-nodes"
  | malformedArrow => "malformed-arrow"
  | markdownInLabel => "markdown-in-label"
  | mismatchedBracketCount => "mismatched-bracket-count"
  | missingHeader => "missing-header"
  | nonAsciiInLabel => "non-ascii-in-label"
  | specialCharsInLabel => "special-chars-in-label"
  | unclosedBracket => "unclosed-bracket"

/-- All classes, by name. -/
def all : List RepairClass :=
  [concatenatedNodes, malformedArrow, markdownInLabel, mismatchedBracketCount, missingHeader,
   nonAsciiInLabel, specialCharsInLabel, unclosedBracket]

end RepairClass

/-- What was wrong with a diagram, and mended. -/
inductive Repair
  /-- The first line is no header. -/
  | noHeader
  /-- The first line has a flowchart keyword without a direction, and statements after it. -/
  | keywordOnly (line : Text)
  /-- The first line is a flowchart keyword with an unknown direction. -/
  | unknownHeader (line : Text)
  /-- Node declarations run into one another. -/
  | gluedNodes
  /-- A connector runs into a bracket or a label, or leads nowhere. -/
  | brokenConnector
  /-- A connector has nothing on one side. -/
  | danglingConnector
  /-- The label of a node is not closed. -/
  | unclosedLabel (node : Text)
  /-- The label of a node has emphasis. -/
  | emphasis (node : Text)
  /-- The label of a node has characters outside printable ASCII. -/
  | nonAscii (node : Text)
  /-- The label of a node has brackets, quotes or bars. -/
  | specialChars (node : Text)
  /-- The label of a connector is not safe. -/
  | edgeLabel
  /-- The square brackets of the diagram do not balance. -/
  | brackets (opening closing : Nat)
  deriving DecidableEq, Repr

namespace Repair

/-- The class of a repair. -/
def kind : Repair → RepairClass
  | noHeader | keywordOnly _ | unknownHeader _ => .missingHeader
  | gluedNodes => .concatenatedNodes
  | brokenConnector | danglingConnector => .malformedArrow
  | unclosedLabel _ => .unclosedBracket
  | emphasis _ => .markdownInLabel
  | nonAscii _ => .nonAsciiInLabel
  | specialChars _ | edgeLabel => .specialCharsInLabel
  | brackets _ _ => .mismatchedBracketCount

/-- The message for a repair on line `n`. -/
def message (n : Int) : Repair → String
  | noHeader => "Missing or invalid diagram type on first line"
  | keywordOnly line => "Removed diagram keyword from " ++ (Text.quoted line).str
  | unknownHeader line => "Replaced invalid diagram header " ++ (Text.quoted line).str
  | gluedNodes => s!"Split concatenated node declarations on line {n}"
  | brokenConnector => s!"Rebuilt malformed arrow on line {n}"
  | danglingConnector => s!"Connector without a node on line {n}"
  | unclosedLabel node => s!"Fixed unclosed bracket in node '{node.str}' on line {n}"
  | emphasis node => s!"Removed markdown formatting from node '{node.str}' on line {n}"
  | nonAscii node => s!"Removed non-ASCII characters from node '{node.str}' on line {n}"
  | specialChars node => s!"Removed special characters from node '{node.str}' on line {n}"
  | edgeLabel => s!"Cleaned edge label on line {n}"
  | brackets opening closing => s!"Mismatched brackets: {opening} opening vs {closing} closing"

end Repair

/-- A repair on a line; line 0 stands for the whole diagram. -/
structure Event where
  line : Int
  repair : Repair
  deriving DecidableEq, Repr

namespace Event

/-- The class of the repair. -/
def kind (e : Event) : RepairClass := e.repair.kind

/-- The message of the event. -/
def message (e : Event) : String := e.repair.message e.line

end Event

/-- A value, and the repairs that led to it in order. -/
structure Noted (α : Type) where
  value : α
  repairs : List Repair
  deriving DecidableEq, Repr

namespace Noted

instance : Monad Noted where
  pure a := ⟨a, []⟩
  bind x f := ⟨(f x.value).value, x.repairs ++ (f x.value).repairs⟩

/-- Notes repairs. -/
def note (repairs : List Repair) : Noted Unit := ⟨(), repairs⟩

/-- Does the same to each member of a list, in order. -/
def each {α β : Type} (f : α → Noted β) (xs : List α) : Noted (List β) :=
  ⟨xs.map fun x => (f x).value, xs.flatMap fun x => (f x).repairs⟩

/-- The repairs as events of line `n`. -/
def events {α : Type} (n : Int) (x : Noted α) : List Event := x.repairs.map fun r => ⟨n, r⟩

@[simp] theorem value_pure {α : Type} (a : α) : (pure a : Noted α).value = a := rfl

@[simp] theorem repairs_pure {α : Type} (a : α) : (pure a : Noted α).repairs = [] := rfl

@[simp] theorem value_bind {α β : Type} (x : Noted α) (f : α → Noted β) :
    (x >>= f).value = (f x.value).value := rfl

@[simp] theorem repairs_bind {α β : Type} (x : Noted α) (f : α → Noted β) :
    (x >>= f).repairs = x.repairs ++ (f x.value).repairs := rfl

@[simp] theorem value_note (rs : List Repair) : (note rs).value = () := rfl

@[simp] theorem repairs_note (rs : List Repair) : (note rs).repairs = rs := rfl

end Noted

end Flowmend
