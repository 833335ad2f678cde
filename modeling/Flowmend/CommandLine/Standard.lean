import Flowmend.CommandLine.Frontend

/-!
# The standard front end

Options may stand before or after the input file, flags of one letter may be joined, and a value may
follow its option in the next argument, after `=`, or directly after a letter. Of an option that is
given twice the last value counts. A control sequence that only comes about when another one is left
out is printed.
-/

namespace Flowmend.CommandLine

open Text

/-! ## Arguments -/

/-- An option without a value. -/
inductive Flag
  | ascii
  | markdown
  | showRepairs
  | verbose
  deriving DecidableEq, Repr

/-- An option with a value. -/
inductive Setting
  | engine
  | executable
  | output
  deriving DecidableEq, Repr

/-- The arguments as read: the flags, the settings with the last one first, and the rest. -/
structure Arguments where
  flags : List Flag := []
  settings : List (Setting × Text) := []
  inputs : List Text := []
  deriving DecidableEq, Repr

namespace Arguments

/-- The flag with a long name. -/
def longFlag? (name : Text) : Option Flag :=
  [("--ascii".toList, Flag.ascii), ("--markdown".toList, .markdown),
   ("--show-repairs".toList, .showRepairs), ("--verbose".toList, .verbose)].lookup name

/-- The setting with a long name. -/
def longSetting? (name : Text) : Option Setting :=
  [("--engine".toList, Setting.engine), ("--mmdc".toList, .executable),
   ("--output".toList, .output)].lookup name

/-- The flag with a letter. -/
def shortFlag? : Char → Option Flag
  | 'a' => some .ascii
  | 'm' => some .markdown
  | 'v' => some .verbose
  | _ => none

/-- Adds a flag. -/
def addFlag (a : Arguments) (f : Flag) : Arguments := { a with flags := f :: a.flags }

/-- Adds a setting. -/
def addSetting (a : Arguments) (s : Setting) (value : Text) : Arguments :=
  { a with settings := (s, value) :: a.settings }

/-- The last value of a setting. -/
def setting? (a : Arguments) (s : Setting) : Option Text := a.settings.lookup s

/-- Reads the letters of a joined argument; if the last one wants a value that the argument does not
hold, it is given back. -/
def readLetters (a : Arguments) : Text → Option (Arguments × Option Setting)
  | [] => some (a, none)
  | 'o' :: [] => some (a, some .output)
  | 'o' :: value => some (a.addSetting .output value, none)
  | c :: t => (shortFlag? c).bind fun f => (a.addFlag f).readLetters t

/-- Reads an argument that starts with two dashes; a setting without a value is given back. -/
def readLong (a : Arguments) (argument : Text) : Option (Arguments × Option Setting) :=
  let name := argument.takeWhile (· != '=')
  let value := (argument.dropWhile (· != '=')).tail?
  match longFlag? name, longSetting? name, value with
  | some f, _, none => some (a.addFlag f, none)
  | none, some s, some value => some (a.addSetting s value, none)
  | none, some s, none => some (a, some s)
  | _, _, _ => none

/-- Reads one argument; a setting that wants the next argument as its value is given back. -/
def readOne (a : Arguments) : Text → Option (Arguments × Option Setting)
  | '-' :: '-' :: t => a.readLong ('-' :: '-' :: t)
  | '-' :: c :: t => a.readLetters (c :: t)
  | argument => some ({ a with inputs := a.inputs ++ [argument] }, none)

/-- Reads the arguments; after `--` all of them are inputs. -/
def read (a : Arguments) : List Text → Option Arguments
  | [] => some a
  | argument :: rest =>
    if argument = ['-', '-'] then some { a with inputs := a.inputs ++ rest }
    else
      match a.readOne argument, rest with
      | none, _ => none
      | some (a, none), rest => a.read rest
      | some (_, some _), [] => none
      | some (a, some s), value :: rest => (a.addSetting s value).read rest

/-- The engine with a name. -/
def engine? (name : Text) : Option EngineName :=
  [("mmdc".toList, EngineName.mmdc), ("none".toList, .none)].lookup name

/-- The options that the arguments set. -/
def options? (a : Arguments) : Option Options :=
  if 1 < a.inputs.length then none
  else
    (engine? ((a.setting? .engine).getD "mmdc".toList)).map fun engine =>
      { engine
        executable := (a.setting? .executable).getD Engine.External.program
        ascii := a.flags.contains .ascii
        markdown := a.flags.contains .markdown
        showRepairs := a.flags.contains .showRepairs
        input := a.inputs.head?
        output := a.setting? .output }

end Arguments

/-- Options that are spelled out are read as they are. -/
theorem Arguments.options?_read (o : Options) :
    (Arguments.read {} o.arguments).bind Arguments.options? = some o := by
  -- The options that are set decide which arguments there are, and these are read one by one.
  obtain ⟨engine, executable, ascii, markdown, showRepairs, input, output⟩ := o
  cases engine <;> cases ascii <;> cases markdown <;> cases showRepairs <;> cases input <;>
    cases output <;> rfl

/-! ## Texts without control sequences -/

namespace Terminal

/-- What follows the letter, after parameters that may come first. -/
def afterLetter? (t : Text) : Option Text :=
  match t.dropWhile isParameter with
  | [] => none
  | c :: rest => if c.isAlpha then some rest else none

/-- What follows the control sequence at the start of the text, if the text starts with one. -/
def afterSequence? (t : Text) : Option Text := (after? ['\x1b', '['] t).bind afterLetter?

/-- A control sequence stands before what follows it. -/
theorem exists_isSequence {t rest : Text} (h : afterSequence? t = some rest) :
    ∃ s, IsSequence s ∧ t = s ++ rest := by
  obtain ⟨u, hu, hrest⟩ := Option.bind_eq_some_iff.1 h
  unfold afterLetter? at hrest
  split at hrest
  · contradiction
  · rename_i letter v hv
    split at hrest
    · rename_i hletter
      cases hrest
      have hparameters : ∀ c ∈ u.takeWhile isParameter, isParameter c = true :=
        List.all_eq_true.1 List.all_takeWhile
      have hu' : u = u.takeWhile isParameter ++ letter :: rest := by
        rw [← hv, List.takeWhile_append_dropWhile]
      refine ⟨_, ⟨u.takeWhile isParameter, letter, rfl, hparameters, hletter⟩, ?_⟩
      rw [eq_append_of_after? hu]
      simpa using hu'
    · contradiction

theorem length_afterSequence?_lt {t rest : Text} (h : afterSequence? t = some rest) :
    rest.length < t.length := by
  obtain ⟨s, ⟨parameters, letter, rfl, -⟩, rfl⟩ := exists_isSequence h
  simp only [List.cons_append, List.length_cons, List.length_append]
  omega

/-- The text without its control sequences. -/
def plain : Text → Text
  | [] => []
  | c :: t =>
    match _h : afterSequence? (c :: t) with
    | some rest => plain rest
    | none => c :: plain t
termination_by t => t.length
decreasing_by
  · exact length_afterSequence?_lt _h
  · simp

theorem plain_eq_self {t : Text} (h : ¬HasSequence t) : plain t = t := by
  fun_induction plain t with
  | case1 => rfl
  | case2 c t rest hrest =>
    obtain ⟨s, hs, heq⟩ := exists_isSequence hrest
    exact absurd ⟨s, hs, [], rest, heq.symm⟩ h
  | case3 c t hnone ih =>
    rw [ih fun ⟨s, hs, hin⟩ => h ⟨s, hs, hin.trans (List.suffix_cons c t).isInfix⟩]

end Terminal

/-! ## The front end -/

/-- The front end that the program is built with. -/
def Frontend.standard : Frontend where
  parse arguments := (Arguments.read {} arguments).bind Arguments.options?
  echo terminal t := if terminal then t else Terminal.plain t

theorem Frontend.standard_lawful : Frontend.standard.Lawful where
  parse_arguments := Arguments.options?_read
  echo_terminal _ := rfl
  echo_elsewhere _ h := Terminal.plain_eq_self h

end Flowmend.CommandLine
