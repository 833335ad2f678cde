import Flowmend.Header

/-!
# Diagrams in chat messages

A chat message holds a diagram in a fence of three backquotes marked `mermaid`, or just from a line
that opens with a flowchart header on.
-/

namespace Flowmend.Fence

open Text

/-- Three backquotes. -/
def fence : Text := ['\x60', '\x60', '\x60']

/-- The letter `c` in any case. The dotted capital and the dotless small `i` count as an `i`. -/
def sameLetter (c d : Char) : Bool :=
  c == d.toLower || (c == 'i' && (d.toNat == 0x130 || d.toNat == 0x131))

/-- What follows the word `w` in any case. -/
def afterLetters? : (w t : Text) → Option Text
  | [], t => some t
  | _ :: _, [] => none
  | a :: w, c :: t => if sameLetter a c then afterLetters? w t else none

/-- What follows the line that opens a marked fence, if the text starts with one. -/
def afterOpening? (t : Text) : Option Text :=
  match after? fence t with
  | none => none
  | some rest =>
    match afterLetters? "mermaid".toList (rest.dropWhile isPad) with
    | none => none
    | some info =>
      match info.dropWhile (· != '\n') with
      | _ :: body => some body
      | [] => none

/-- The text in the first marked fence; a fence that is not closed runs to the end. -/
def fenced? : Text → Option Text
  | [] => none
  | c :: t =>
    match afterOpening? (c :: t) with
    | some body => some ((splitAt? fence body).elim body Prod.fst)
    | none => fenced? t

/-- The line starts with a flowchart header, after spaces and tabs. Blanks of any kind may stand
before the direction. -/
def opensFlowchart (t : Text) : Bool :=
  let t := t.dropWhile isPad
  ["graph", "flowchart"].any fun keyword =>
    (after? keyword.toList t).any fun rest =>
      rest.head?.any isBlank &&
        ["TD", "TB", "BT", "LR", "RL"].any fun direction =>
          opensWithWord (trimStart rest) direction.toList

/-- The text from the first line on that starts with a flowchart header. `atStart` says whether a
line starts here. -/
def bareFrom? (atStart : Bool) : Text → Option Text
  | [] => none
  | c :: t =>
    if atStart && opensFlowchart (c :: t) then some (c :: t) else bareFrom? (c == '\n') t

/-- The diagram in a chat message, trimmed; empty if there is none. -/
def diagram (message : Text) : Text :=
  match fenced? message <|> bareFrom? true message with
  | some t => trim t
  | none => []

end Flowmend.Fence
