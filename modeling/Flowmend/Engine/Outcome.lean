import Flowmend.Text.Quoted

/-!
# Engines

The primary engine turns the text of a diagram into an SVG document, or fails. A failure has a
reason in words, which the session keeps.
-/

namespace Flowmend.Engine

/-- The refusal of a diagram: its id, why it was refused, and notes with values of type `α`. -/
structure Rejection (α : Type) where
  diagram : Text
  detail : Text
  notes : List (String × α)
  deriving Repr

namespace Rejection

/-- The refusal in words. -/
def message {α : Type} (r : Rejection α) : String :=
  "engine rejected diagram " ++ r.diagram.str ++
    if r.detail.isEmpty then "" else ": " ++ r.detail.str

/-- The notes with the id of the diagram among them. -/
def metadata {α : Type} (ofText : Text → α) (r : Rejection α) : List (String × α) :=
  ("unique_id", ofText r.diagram) :: r.notes

end Rejection

/-- A value that a fault reports. -/
inductive Argument
  | text (t : Text)
  | number (n : Int)
  | truth (b : Bool)
  | nothing
  deriving DecidableEq, Repr

/-- A fault of the engine itself: what kind it is, and what it reports. -/
structure Fault where
  name : String
  arguments : List Argument
  deriving DecidableEq, Repr

namespace Fault

/-- The argument in words. -/
def describeArgument : Argument → String
  | .text t => (Text.quoted t).str
  | .number n => toString n
  | .truth b => if b then "True" else "False"
  | .nothing => "None"

/-- The fault in words: its name and, in parentheses, what it reports. -/
def describe (f : Fault) : String :=
  f.name ++ "(" ++ ", ".intercalate (f.arguments.map describeArgument) ++ ")"

end Fault

/-- Why a call of the engine gave no document. -/
inductive Failure
  | rejected (detail : Text)
  | timedOut
  | fault (fault : Fault)
  deriving DecidableEq, Repr

namespace Failure

/-- The failure of the call for a diagram in words. -/
def reason (diagram : Text) : Failure → String
  | rejected detail => Rejection.message (⟨diagram, detail, []⟩ : Rejection Unit)
  | timedOut => "timeout"
  | fault f => f.describe

/-- The failure where no engine is set up. -/
def unavailable : Failure := rejected "no primary engine configured".toList

end Failure

/-- How a call of the engine ends. -/
inductive Outcome
  | svg (document : Text)
  | failed (failure : Failure)
  deriving DecidableEq, Repr

end Flowmend.Engine
