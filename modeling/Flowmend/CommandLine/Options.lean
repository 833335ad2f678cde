import Flowmend.Drawing.Arms
import Flowmend.Engine.External

/-!
# Options

The options of the program as its arguments set them, and what the program makes of them: a name
that is empty counts as none. `Options.arguments` spells the options out.
-/

namespace Flowmend.CommandLine

open Text

/-- The engines to choose from. -/
inductive EngineName
  | mmdc
  | none
  deriving DecidableEq, Repr

/-- The name of the engine among the arguments. -/
def EngineName.name : EngineName → Text
  | mmdc => "mmdc".toList
  | none => "none".toList

/-- The options of the program, with the values they have where no argument sets them. -/
structure Options where
  engine : EngineName := .mmdc
  /-- The path to the executable of the external renderer. -/
  executable : Text := Engine.External.program
  ascii : Bool := false
  markdown : Bool := false
  showRepairs : Bool := false
  input : Option Text := Option.none
  output : Option Text := Option.none
  deriving DecidableEq, Repr

namespace Options

/-- Arguments that set the options, all of them by their long names. -/
def arguments (o : Options) : List Text :=
  "--engine".toList :: o.engine.name :: "--mmdc".toList :: o.executable ::
    ((if o.ascii then ["--ascii".toList] else []) ++
      (if o.markdown then ["--markdown".toList] else []) ++
      (if o.showRepairs then ["--show-repairs".toList] else []) ++
      (o.output.elim [] fun name => ["--output".toList, name]) ++ ["--".toList] ++ o.input.toList)

/-- A name that is not empty. -/
def given (name : Option Text) : Option Text := name.filter fun n => !n.isEmpty

/-- The file to read; standard input if there is none. -/
def inputFile? (o : Options) : Option Text := given o.input

/-- The file to write; standard output if there is none. -/
def outputFile? (o : Options) : Option Text := given o.output

/-- The characters to draw with. -/
def charset (o : Options) : Charset := if o.ascii then .ascii else .unicode

end Options

end Flowmend.CommandLine
