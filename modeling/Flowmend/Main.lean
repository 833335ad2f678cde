import Flowmend.CommandLine.Reply
import Flowmend.CommandLine.Standard

/-!
# The program

The outer layer of the command line: it reads the input, has the reply made, and writes it. This
build starts no other program, so that the external renderer counts as not installed.
-/

namespace Flowmend.CommandLine

/-- The number of an error; some operations give it with the sign changed. -/
def errorNumber (code : UInt32) : UInt32 := if code < 0x80000000 then code else 0 - code

/-- The error that an operation on a file ended with, if it is one that is reported. -/
def fileError? : IO.Error → Option FileError
  | .noFileOrDirectory .. => some .notFound
  | .permissionDenied .. => some .notPermitted
  | .inappropriateType _ code _ =>
    if errorNumber code = 20 then some .notDirectory else some .isDirectory
  | .invalidArgument _ code _ => if errorNumber code = 36 then some .nameTooLong else none
  | _ => none

/-- Runs an operation on a file; an error that is not reported stays one. -/
def attempt {α : Type} (operation : IO α) : IO (Except FileError α) := do
  match ← operation.toBaseIO with
  | .ok a => return .ok a
  | .error e =>
    match fileError? e with
    | some e => return .error e
    | none => throw e

/-- Prints a text. -/
def printTo (stream : IO.FS.Stream) (t : Text) : IO Unit := do
  stream.putStr (Frontend.standard.echo (← stream.isTty) t).str

/-- Prints a text that is no output. -/
def printMessage (t : Text) : IO Unit := do printTo (← IO.getStderr) t

/-- A new id for a diagram. -/
def newDiagramId : IO Text := do
  let n ← IO.rand 0 0xFFFFFFFFF
  return "mermaid-".toList ++ Text.hex 9 n

/-- The external renderer where it is not installed. -/
def missingRenderer : Renderer := fun executable diagram _ =>
  Engine.External.outcome executable diagram none

/-- Reads the bytes of a file, or of standard input. -/
def readInput (name : Option Text) : IO (Except FileError (List UInt8)) := do
  match name with
  | some name => attempt do return (← IO.FS.readBinFile name.str).toList
  | none => return .ok (← (← IO.getStdin).readBinToEnd).toList

/-- Answers for the input that was read. -/
def answer (o : Options) (bytes : List UInt8) : IO UInt32 := do
  match Text.Utf8.decode? bytes with
  | none =>
    IO.eprintln "error: the input is not valid UTF-8"
    return 1
  | some text =>
    let reply := o.reply missingRenderer (← newDiagramId) (Text.foldReturns text)
    reply.messages.forM printMessage
    match o.outputFile? with
    | none =>
      printTo (← IO.getStdout) reply.output
      return 0
    | some name =>
      match ← attempt (IO.FS.writeBinFile name.str reply.output.str.toUTF8) with
      | .ok _ => return 0
      | .error e =>
        printMessage (e.report "write" name)
        return 1

end Flowmend.CommandLine

/-- Renders a diagram, degrading to a drawing of its graph or to plain text. -/
def main (arguments : List String) : IO UInt32 := do
  match Flowmend.CommandLine.Frontend.standard.parse (arguments.map String.toList) with
  | none =>
    IO.eprintln <| "usage: [--engine mmdc|none] [--mmdc PATH] [--ascii] [--markdown] " ++
      "[--show-repairs] [--verbose] [--output FILE] [INPUT]"
    return 2
  | some o =>
    match ← Flowmend.CommandLine.readInput o.inputFile? with
    | .ok bytes => Flowmend.CommandLine.answer o bytes
    | .error e =>
      Flowmend.CommandLine.printMessage (e.report "read" (o.inputFile?.getD []))
      return 1
