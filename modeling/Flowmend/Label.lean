import Flowmend.Text.Word

/-!
# Labels

A label written by hand may hold emphasis, line breaks and characters that mean something in a
diagram. `clean` gives the one-line label that is safe to show: printable ASCII without brackets,
quotes, bars and asterisks. Each step sees the output of the step before.
-/

namespace Flowmend.Label

open Text

/-! ## Steps -/

/-- Leaves out the asterisks. -/
def dropAsterisks (t : Text) : Text := t.filter (· != '*')

/-- Leaves out every underscore run that does not stand between two letters or digits. `joined`
says whether the last character that is no underscore was a letter or digit. -/
def dropUnderscores (joined : Bool) : Text → Text
  | [] => []
  | c :: t =>
    if c = '_' then
      if joined && (t.dropWhile (· == '_')).head?.any isAlnum then
        c :: dropUnderscores joined t
      else dropUnderscores joined t
    else c :: dropUnderscores (isAlnum c) t

/-- A carriage return or line feed. -/
def isReturn (c : Char) : Bool := c == '\r' || c == '\n'

/-- Makes one space of each line break, with the spaces and tabs before it and all blanks after
it. -/
def foldLines : Text → Text
  | [] => []
  | c :: t =>
    match _h : (c :: t).dropWhile isPad with
    | [] => c :: foldLines t
    | b :: rest =>
      if isReturn b then ' ' :: foldLines (rest.dropWhile isBlank) else c :: foldLines t
termination_by t => t.length
decreasing_by
  · exact Nat.lt_succ_self _
  · have h₁ := List.IsSuffix.length_le (List.dropWhile_suffix (l := c :: t) isPad)
    have h₂ := List.IsSuffix.length_le (List.dropWhile_suffix (l := rest) isBlank)
    rw [_h] at h₁
    simp only [List.length_cons] at h₁ ⊢
    omega
  · exact Nat.lt_succ_self _

/-- A printable ASCII character. -/
def isPlain (c : Char) : Bool := 0x20 ≤ c.toNat && c.toNat ≤ 0x7E

/-- A character with a meaning in diagrams or markup: parentheses, angle brackets, quote, backquote,
square brackets, braces and bar. -/
def isSpecial (c : Char) : Bool :=
  ['(', ')', '<', '>', '"', '\x60', '[', ']', '{', '}', '|'].contains c

/-- The label before any truncation. -/
def plain (raw : Text) : Text :=
  trim (((foldLines (dropUnderscores false (dropAsterisks raw))).filter isPlain).filter
    fun c => !isSpecial c)

/-- Cuts a label that is longer than the limit; the cut leaves no blank or underscore at the end. -/
def truncate (limit : Option Int) (label : Text) : Text :=
  match limit with
  | none => label
  | some n =>
    if n < label.length then dropEndWhile (fun c => c == ' ' || c == '_') (takeUpTo n label)
    else label

/-- The safe one-line label, of at most `limit` characters. -/
def clean (limit : Option Int) (raw : Text) : Text := truncate limit (plain raw)

/-! ## What a label holds -/

/-- The label holds an asterisk, or an underscore that does not join two words. -/
def isEmphatic (raw : Text) : Bool := raw.contains '*' || dropUnderscores false raw != raw

/-- The label holds a character outside printable ASCII. -/
def isForeign (raw : Text) : Bool := raw.any fun c => !isPlain c

/-- The label holds a bracket, a quote or a bar. -/
def isMarked (raw : Text) : Bool := raw.any isSpecial

end Flowmend.Label
