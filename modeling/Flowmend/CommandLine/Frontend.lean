import Flowmend.CommandLine.Options

/-!
# Front ends

The program leaves it to a front end to make options of its arguments, and to print its texts. A
terminal is sent a text as it is; elsewhere the control sequences of a text are left out, which set
a colour of a terminal or move its cursor. What the program relies on is `Frontend.Lawful`.
-/

namespace Flowmend.CommandLine

/-! ## Control sequences -/

namespace Terminal

/-- A character between the bracket and the letter of a control sequence. -/
def isParameter (c : Char) : Bool := c == ';' || c == '?' || ('0' ≤ c && c ≤ '9')

/-- A control sequence: an escape character and a square bracket, parameters, and a letter. -/
def IsSequence (s : Text) : Prop :=
  ∃ parameters letter, s = '\x1b' :: '[' :: (parameters ++ [letter]) ∧
    (∀ c ∈ parameters, isParameter c = true) ∧ letter.isAlpha = true

/-- There is a control sequence in the text. -/
def HasSequence (t : Text) : Prop := ∃ s, IsSequence s ∧ s <:+: t

/-- Every control sequence starts with an escape character. -/
theorem HasSequence.escape_mem {t : Text} (h : HasSequence t) : '\x1b' ∈ t := by
  obtain ⟨s, ⟨parameters, letter, rfl, -⟩, hin⟩ := h
  exact hin.subset List.mem_cons_self

end Terminal

/-! ## Front ends -/

/-- What the program leaves to its front end. -/
structure Frontend where
  /-- The options that the arguments set; other arguments end the run. -/
  parse : List Text → Option Options
  /-- What is sent to a stream for a text; the stream is a terminal or not. -/
  echo : Bool → Text → Text

/-- What the program relies on in its front end. -/
structure Frontend.Lawful (c : Frontend) : Prop where
  /-- Options that are spelled out are set. -/
  parse_arguments : ∀ o : Options, c.parse o.arguments = some o
  /-- A terminal is sent every text as it is. -/
  echo_terminal : ∀ t, c.echo true t = t
  /-- Elsewhere nothing but control sequences is left out. -/
  echo_elsewhere : ∀ t, ¬Terminal.HasSequence t → c.echo false t = t

/-- A text without control sequences is printed as it is, and any text is on a terminal. -/
theorem Frontend.Lawful.echo_eq_self {c : Frontend} (hc : c.Lawful) {terminal : Bool} {t : Text}
    (h : terminal = true ∨ ¬Terminal.HasSequence t) : c.echo terminal t = t := by
  cases terminal with
  | true => exact hc.echo_terminal t
  | false => exact hc.echo_elsewhere t (h.resolve_left (by decide))

end Flowmend.CommandLine
