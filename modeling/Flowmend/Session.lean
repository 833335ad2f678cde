import Flowmend.Drawing.Draw
import Flowmend.Engine.Outcome
import Flowmend.Graph.Extract
import Flowmend.Repair.Document

/-!
# Sessions

A render asks the primary engine first, then recovers a graph, and shows the text if there is no
graph either. Only the engine takes time, so the renders of one session may overlap: each is started
and, when the engine has answered, finished. The render started last is the newest; a render that
ends after a newer one was started keeps its result to itself.
-/

namespace Flowmend

open Text

/-- A stage of a render; the last three are results. -/
inductive Stage
  | idle
  | askingEngine
  | readingGraph
  | takingText
  | documentShown
  | graphShown
  | textShown
  deriving DecidableEq, Repr

/-- The result of a render. -/
inductive Result
  | svg (document : Text)
  | graph (positioned : Positioned)
  | text (shown : Text)
  deriving Repr

namespace Result

/-- The stage that a render with this result ends in. -/
def stage : Result → Stage
  | svg _ => .documentShown
  | graph _ => .graphShown
  | text _ => .textShown

end Result

/-- Why a render has no result. -/
inductive RenderError
  /-- Every line of the mended document is a comment, so that it has no header to leave out. -/
  | noHeader
  deriving DecidableEq, Repr

/-! ## In place of a document -/

namespace Substitute

/-- The graph of the mended document; if it has no nodes, that of the source. -/
def graph (limit : Option Int) (source : Text) (mended : Mended) : Graph :=
  let g := Graph.extract limit mended.text
  if g.isEmpty then Graph.extract limit source else g

/-- The positioned graph, if there is one with nodes. -/
def positioned? (s : Settings) (source : Text) (mended : Mended) : Option Positioned :=
  let g := graph s.labelLimit source mended
  if g.isEmpty then none else some (layout s g)

/-- The text cut at the budget, with an ellipsis if it was longer. -/
def abridge (s : Settings) (t : Text) : Text :=
  if s.textLimit < t.length then takeUpTo s.textLimit t ++ s.ellipsis else t

/-- The text that is shown: the mended document without a header that was added, or the trimmed
source if nothing else is left. -/
def shown (s : Settings) (source : Text) (mended : Mended) : Except RenderError Text :=
  match mended.body? with
  | none => .error .noHeader
  | some body => .ok (abridge s (if body.isEmpty then trim source else body))

end Substitute

/-! ## The state of a session -/

/-- A change of stage of one render. -/
structure Transition where
  generation : Nat
  source : Stage
  target : Stage
  reason : String
  deriving DecidableEq, Repr

/-- A render that waits for the engine. -/
structure Pending where
  generation : Nat
  source : Text
  mended : Mended
  deriving Repr

/-- A result that became current, with the mended document if the engine was asked. -/
structure Commit where
  generation : Nat
  result : Result
  mended : Option Mended
  deriving Repr

/-- The state of a session. -/
structure Session where
  settings : Settings
  /-- How many renders were started; the newest has this number. -/
  generation : Nat := 0
  /-- The stage of the newest render. -/
  stage : Stage := .idle
  /-- The renders that wait for the engine. -/
  pending : List Pending := []
  /-- The last result that became current. -/
  current : Option Commit := none
  /-- All changes of stage. -/
  transitions : List Transition := []
  /-- The generations whose results became current. -/
  committed : List Nat := []
  /-- The texts that the engine was given. -/
  requests : List Text := []
  deriving Repr

namespace Session

/-- Records a change of stage of a render; the session follows only the newest one. -/
def advance (s : Session) (generation : Nat) (source target : Stage) (reason : String) : Session :=
  { s with
    transitions := s.transitions ++ [⟨generation, source, target, reason⟩]
    stage := if generation = s.generation then target else s.stage }

/-- Makes a result current, unless a newer render was started. -/
def commit (s : Session) (c : Commit) : Session :=
  if c.generation = s.generation then
    { s with current := some c, committed := s.committed ++ [c.generation] }
  else s

/-- A session after a render has ended, and how it ended. -/
abbrev Ended := Session × Except RenderError Result

/-- Ends a render whose engine gave a document. -/
def succeed (s : Session) (p : Pending) (document : Text) : Ended :=
  let result := Result.svg document
  ((s.advance p.generation .askingEngine .documentShown "").commit
    ⟨p.generation, result, some p.mended⟩, .ok result)

/-- Ends a render whose engine failed. -/
def substitute (s : Session) (p : Pending) (reason : String) : Ended :=
  let s := s.advance p.generation .askingEngine .readingGraph reason
  match Substitute.positioned? s.settings p.source p.mended with
  | some positioned =>
    let result := Result.graph positioned
    ((s.advance p.generation .readingGraph .graphShown "").commit
      ⟨p.generation, result, some p.mended⟩, .ok result)
  | none =>
    let s := s.advance p.generation .readingGraph .takingText "no nodes found"
    let s := s.advance p.generation .takingText .textShown ""
    match Substitute.shown s.settings p.source p.mended with
    | .error e => (s, .error e)
    | .ok shown =>
      let result := Result.text shown
      (s.commit ⟨p.generation, result, some p.mended⟩, .ok result)

/-- How a render starts: it ends at once, or waits for the engine. -/
inductive Started
  | done (result : Except RenderError Result)
  | waiting (p : Pending)
  deriving Repr

/-- Starts a render. A blank source has its result at once; any other is mended and waits for the
engine, which is given the text if it has time to answer. -/
def start (s : Session) (source : Text) : Session × Started :=
  let generation := s.generation + 1
  let s := { s with generation }
  if allBlank source then
    let result := Result.text s.settings.blankNotice
    ((s.advance generation .idle .textShown "empty input").commit ⟨generation, result, none⟩,
      .done (.ok result))
  else
    let s := s.advance generation .idle .askingEngine ""
    let mended := mend s.settings.usualHeader s.settings.placeholderStem source
    let p : Pending := ⟨generation, source, mended⟩
    let requests := if s.settings.engineHasTime then s.requests ++ [mended.text] else s.requests
    ({ s with pending := s.pending ++ [p], requests }, .waiting p)

/-- What a render gets to know of the answer of the engine: without time it has timed out, whatever
the answer. -/
def heard (settings : Settings) (outcome : Engine.Outcome) : Engine.Outcome :=
  if settings.engineHasTime then outcome else .failed .timedOut

/-- Ends a render that waits with the answer of the engine; `diagram` is the id under which the
engine was asked. -/
def answer (s : Session) (p : Pending) (diagram : Text) (outcome : Engine.Outcome) : Ended :=
  let s := { s with pending := s.pending.filter fun q => q.generation != p.generation }
  match heard s.settings outcome with
  | .svg document => s.succeed p document
  | .failed failure => s.substitute p (failure.reason diagram)

/-- Ends the render with this number, if it waits. -/
def finish (s : Session) (generation : Nat) (diagram : Text) (outcome : Engine.Outcome) :
    Option Ended :=
  (s.pending.find? fun p => p.generation == generation).map fun p => s.answer p diagram outcome

/-- Runs a render to its end, with an engine that answers for the text of the mended document. -/
def render (s : Session) (source diagram : Text) (engine : Text → Engine.Outcome) : Ended :=
  match s.start source with
  | (s, .done result) => (s, result)
  | (s, .waiting p) => s.answer p diagram (engine p.mended.text)

end Session

/-- The result of a single render. -/
def renderOnce (settings : Settings) (source diagram : Text) (engine : Text → Engine.Outcome) :
    Except RenderError Result :=
  (Session.render { settings } source diagram engine).2

/-- The drawing of the graph of a source, mended with the default settings; empty if the graph has
no nodes. -/
def drawSource (cs : Charset) (padding : Int) (source : Text) : Except DrawError Text :=
  let s : Settings := {}
  let mended := mend s.usualHeader s.placeholderStem source
  draw cs padding (layout s (Substitute.graph s.labelLimit source mended))

end Flowmend
