import Flowmend.CommandLine.Options
import Flowmend.Fence
import Flowmend.Session

/-!
# Replies

What the program answers is a function of its options, the text that it read and the engine. Reading
and writing files is left to its surroundings; a file that cannot be read or written is an error
with the exit code 1.
-/

namespace Flowmend.CommandLine

open Text

/-- Why a file cannot be read or written. -/
inductive FileError
  | notFound
  | notPermitted
  | notDirectory
  | isDirectory
  | nameTooLong
  deriving DecidableEq, Repr

namespace FileError

/-- The number and the name of the error. -/
def describe : FileError → String
  | notFound => "[Errno 2] No such file or directory"
  | notPermitted => "[Errno 13] Permission denied"
  | notDirectory => "[Errno 20] Not a directory"
  | isDirectory => "[Errno 21] Is a directory"
  | nameTooLong => "[Errno 36] File name too long"

/-- The line that reports the error; `action` is what could not be done. -/
def report (action : String) (name : Text) (e : FileError) : Text :=
  ("error: cannot " ++ action ++ " '" ++ name.str ++ "': " ++ e.describe ++ ": " ++
    (quoted name).str ++ "\n").toList

end FileError

/-- The line that reports a repair. -/
def repairLine (e : Event) : Text :=
  ("line " ++ toString e.line ++ ": " ++ e.kind.name ++ ": " ++ e.message ++ "\n").toList

/-- A result as it is written: a document ends with a line feed, and so does a text. A graph that
has been laid out can be drawn. -/
def written (cs : Charset) : Result → Text
  | .svg document => if document.getLast? = some '\n' then document else document ++ ['\n']
  | .graph positioned => (draw cs 1 positioned).toOption.getD []
  | .text shown => shown ++ ['\n']

/-- What the program has to say: messages, one after the other, and the text for the output. -/
structure Reply where
  messages : List Text
  output : Text
  deriving DecidableEq, Repr

/-- How a call of the external renderer ends, for the executable, the id of the diagram and its
text. -/
abbrev Renderer := (executable diagram source : Text) → Engine.Outcome

namespace Options

/-- The outcome of the engine that the options name. -/
def outcome (o : Options) (external : Renderer) (diagram source : Text) : Engine.Outcome :=
  match o.engine with
  | .mmdc => external o.executable diagram source
  | .none => .failed .unavailable

/-- The reply for the text that was read. -/
def reply (o : Options) (external : Renderer) (diagram input : Text) : Reply :=
  let source := if o.markdown then Fence.diagram input else input
  let (session, result) :=
    Session.render { settings := {} } source diagram (o.outcome external diagram)
  let events := ((session.current.bind Commit.mended).map Mended.repairs).getD []
  { messages := if o.showRepairs then events.map repairLine else []
    output := match result with
      | .ok result => written o.charset result
      | .error _ => [] }

end Options

end Flowmend.CommandLine
