import Flowmend.CommandLine.Folder
import Flowmend.CommandLine.Frontend

/-!
# Runs

A run of the program is a function of its front end, its arguments, the folder it works in, the
standard input, what its streams are and the external renderer: it reads at most one file and writes
at most one. A file gets a text as it is, a stream what the front end makes of it.
-/

namespace Flowmend.CommandLine

open Text

/-- Whether standard output and standard error are terminals. -/
structure Terminals where
  output : Bool := false
  messages : Bool := false
  deriving DecidableEq, Repr

/-- What the program leaves behind: the exit code, what it printed as output and as messages of its
own, and the folder. -/
structure Exit where
  code : Nat
  output : Text
  messages : Text
  folder : Folder
  deriving Repr

/-- How a run ends. -/
inductive Ending
  /-- The arguments set no options. -/
  | usage
  /-- The input is no text. -/
  | undecodable
  | exited (e : Exit)
  deriving Repr

/-- The text that the options name as input. -/
def input (o : Options) (f : Folder) (standardInput : List UInt8) :
    Except (Text × FileError) (List UInt8) :=
  match o.inputFile? with
  | none => .ok standardInput
  | some name =>
    match f.read name with
    | .ok bytes => .ok bytes
    | .error e => .error (name, e)

namespace Frontend

variable (c : Frontend) (terminals : Terminals)

/-- The end of a run that prints these texts, one after the other. -/
def printing (code : Nat) (outputs messages : List Text) (f : Folder) : Ending :=
  .exited ⟨code, outputs.flatMap (c.echo terminals.output),
    messages.flatMap (c.echo terminals.messages), f⟩

/-- A run of the program in a folder. -/
def run (arguments : List Text) (f : Folder) (standardInput : List UInt8) (external : Renderer)
    (diagram : Text) : Ending :=
  match c.parse arguments with
  | none => .usage
  | some o =>
    match input o f standardInput with
    | .error (name, e) => c.printing terminals 1 [] [e.report "read" name] f
    | .ok bytes =>
      match Utf8.decode? bytes with
      | none => .undecodable
      | some text =>
        let reply := o.reply external diagram (foldReturns text)
        match o.outputFile? with
        | none => c.printing terminals 0 [reply.output] reply.messages f
        | some name =>
          match f.write name reply.output.str.toUTF8.toList with
          | .ok f => c.printing terminals 0 [] reply.messages f
          | .error e => c.printing terminals 1 [] (reply.messages ++ [e.report "write" name]) f

end Frontend

end Flowmend.CommandLine
