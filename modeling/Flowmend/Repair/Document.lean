import Flowmend.Header
import Flowmend.Repair.Statement

/-!
# Repair of documents

A document is mended from its trimmed lines that are not blank: comments may come first, then the
header, which is added if it is missing, then one line after the other, and at the end the square
brackets of the whole are balanced. A mender carries its supply of placeholders and its log from one
document to the next.
-/

namespace Flowmend

open Text

/-- A mended document. -/
structure Mended where
  kind : DiagramKind
  lines : List Text
  repairs : List Event
  /-- The header stands for one that was missing. -/
  headerAdded : Bool
  deriving Repr

namespace Mended

/-- The document as one text. -/
def text (d : Mended) : Text := unlines d.lines

/-- Nothing had to be mended. -/
def valid (d : Mended) : Bool := d.repairs.isEmpty

/-- The first line that is no comment. -/
def header? (d : Mended) : Option Text := d.lines.find? fun l => !isComment l

/-- The classes of the repairs, by name. -/
def kinds (d : Mended) : List RepairClass :=
  RepairClass.all.filter fun k => d.repairs.any fun e => e.kind == k

/-- The document without a header that was added; missing if there is no header to leave out. -/
def body? (d : Mended) : Option Text :=
  if d.headerAdded then
    (header? d).map fun header => unlines (d.lines.erase header)
  else some (text d)

end Mended

/-! ## The header -/

/-- The start of a document after its leading comments. -/
structure Opening where
  kind : DiagramKind
  header : Text
  /-- Why the header was added, if it was. -/
  reason : Option Event
  /-- The numbered lines after the header. -/
  body : List (Nat × Text)
  deriving Repr

namespace Opening

/-- An opening with the default header in place of a missing one. -/
def added (usualHeader : Text) (line : Nat) (reason : Repair) (body : List (Nat × Text)) :
    Opening :=
  ⟨(Header.kind? usualHeader).getD .default, usualHeader, some ⟨line, reason⟩, body⟩

/-- Finds the header. A flowchart keyword without a known direction goes, and what follows it on its
line stays; any other first line stays as a line of the document. -/
def ofLines (usualHeader : Text) : List (Nat × Text) → Opening
  | [] => added usualHeader 1 .noHeader []
  | (n, first) :: rest =>
    match Header.kind? first with
    | some kind => ⟨kind, first, none, rest⟩
    | none =>
      if Header.opensWithKeyword first then
        let statements := if Header.isLoneKeyword first then [] else Header.skip first
        if statements.isEmpty then added usualHeader n (.unknownHeader first) rest
        else added usualHeader n (.keywordOnly first) ((n, statements) :: rest)
      else added usualHeader n .noHeader ((n, first) :: rest)

end Opening

/-! ## Brackets -/

/-- Balances the square brackets by additions at the end: closing ones on the last line, opening
ones in a comment. -/
def balance (lines : List Text) : Noted (List Text) :=
  let opening := count '[' (unlines lines)
  let closing := count ']' (unlines lines)
  if opening = closing then pure lines
  else
    let missing :=
      if closing < opening then
        lines.dropLast ++ (lines.getLast?.map (· ++ List.replicate (opening - closing) ']')).toList
      else lines ++ [['%', '%', ' '] ++ List.replicate (closing - opening) '[']
    ⟨missing, [.brackets opening closing]⟩

/-! ## The mender -/

/-- What carries over from one document to the next: the header for documents that lack one, the
supply of placeholders, and the log of all repairs. -/
structure Mender where
  usualHeader : Text
  supply : Placeholders
  log : List Event
  deriving Repr

namespace Mender

/-- A mender that has mended nothing. -/
def ofSettings (usualHeader stem : Text) : Mender := ⟨usualHeader, .ofStem stem, []⟩

/-- Adds to the log. -/
def record (m : Mender) (events : List Event) : Mender := { m with log := m.log ++ events }

/-- Mends one statement, as line `n`. -/
def mendLine (m : Mender) (n : Int) (line : Text) : List Text × Mender :=
  let (lines, supply) := Flowmend.mendLine m.supply line
  (lines.value, { m with supply, log := m.log ++ lines.events n })

/-- Mends the lines after the header. Comments, directives and all lines of a diagram that is no
flowchart stay as they are. -/
def mendBody (m : Mender) (kind : DiagramKind) : List (Nat × Text) → List Text × Mender
  | [] => ([], m)
  | (n, line) :: rest =>
    let (lines, m) :=
      if !kind.isFlowchart || isComment line || isDirective line then ([line], m)
      else m.mendLine n line
    let (more, m) := m.mendBody kind rest
    (lines ++ more, m)

/-- Mends a document. The ids of the document are no placeholders. -/
def mend (m : Mender) (source : Text) : Mended × Mender :=
  let lines := numberedLines source
  let comments := (lines.takeWhile fun l => isComment l.2).map Prod.snd
  let opening := Opening.ofLines m.usualHeader (lines.dropWhile fun l => isComment l.2)
  let m := { m with supply := m.supply.reserve (ids source) }
  let m := m.record opening.reason.toList
  let (body, m) := m.mendBody opening.kind opening.body
  let balanced := balance (comments ++ opening.header :: body)
  let m := m.record (balanced.events 0)
  (⟨opening.kind, balanced.value, m.log, opening.reason.isSome⟩, m)

end Mender

/-- The mended document, with a new mender. -/
def mend (usualHeader stem source : Text) : Mended :=
  ((Mender.ofSettings usualHeader stem).mend source).1

end Flowmend
