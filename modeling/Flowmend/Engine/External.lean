import Flowmend.Engine.Outcome
import Flowmend.Text.Lines
import Flowmend.Text.Utf8

/-!
# The external renderer

The usual engine is the program `mmdc`. It is given the diagram in a file named by the id of the
diagram and writes the SVG document to a second one. What it left behind decides the outcome.
-/

namespace Flowmend.Engine.External

/-- The name of the program. -/
def program : Text := "mmdc".toList

/-- The arguments of the program, for the names of the two files. -/
def arguments (input output : Text) (extra : List Text) : List Text :=
  ["-i".toList, input, "-o".toList, output, "--quiet".toList] ++ extra

/-- The name of the file that holds the diagram. -/
def inputName (diagram : Text) : Text := diagram ++ ".mmd".toList

/-- The name of the file that takes the document. -/
def outputName (diagram : Text) : Text := diagram ++ ".svg".toList

/-- What the program left behind. -/
structure Run where
  exitCode : Int
  errors : List UInt8
  output : Option (List UInt8)
  deriving Repr

/-- Why there is no document. -/
inductive NoDocument
  | rejected (r : Rejection Int)
  /-- The output file is no text. -/
  | undecodable
  deriving Repr

/-- The document that a run gives. A program that was not found has no run. -/
def document (executable diagram : Text) : Option Run → Except NoDocument Text
  | none =>
    .error (.rejected ⟨diagram, "executable not found: ".toList ++ executable, []⟩)
  | some run =>
    if run.exitCode ≠ 0 then
      let detail := Text.trim (Text.Utf8.decodeLossy run.errors)
      let status := ("mmdc exited with status " ++ toString run.exitCode).toList
      .error (.rejected ⟨diagram, if detail.isEmpty then status else detail,
        [("returncode", run.exitCode)]⟩)
    else
      match run.output with
      | none => .error (.rejected ⟨diagram, "mmdc produced no output".toList, []⟩)
      | some bytes =>
        match Text.Utf8.decode? bytes with
        | none => .error .undecodable
        | some svg =>
          if Text.allBlank svg then
            .error (.rejected ⟨diagram, "mmdc produced an empty SVG".toList, []⟩)
          else .ok (Text.foldReturns svg)

/-- The outcome of a run. -/
def outcome (executable diagram : Text) (run : Option Run) : Outcome :=
  match document executable diagram run with
  | .ok svg => .svg svg
  | .error (.rejected r) => .failed (.rejected r.detail)
  | .error .undecodable => .failed (.fault ⟨"UndecodableDocument", []⟩)

end Flowmend.Engine.External
