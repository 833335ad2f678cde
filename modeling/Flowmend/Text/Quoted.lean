import Flowmend.Text.Basic
import Flowmend.Text.PrintableTable

/-!
# Quoted text

Messages quote a text so that it stays on one line and every character can be told apart.
-/

namespace Flowmend.Text

/-- A character that shows as itself: no control, format, private or unassigned character, and of
the separators only the space. -/
def isPrintable (c : Char) : Bool :=
  if c.toNat < 128 then 32 ≤ c.toNat && c.toNat ≤ 126
  else printableRanges.any fun (lo, hi) => lo ≤ c.toNat && c.toNat ≤ hi

/-- At least `width` hexadecimal digits. -/
def hex (width n : Nat) : Text :=
  let digits := Nat.toDigits 16 n
  List.replicate (width - digits.length) '0' ++ digits

/-- One character between two `quote`s. -/
def escape (quote c : Char) : Text :=
  if c = quote ∨ c = '\\' then ['\\', c]
  else if c = '\n' then ['\\', 'n']
  else if c = '\r' then ['\\', 'r']
  else if c = '\t' then ['\\', 't']
  else if isPrintable c then [c]
  else if c.toNat < 0x100 then '\\' :: 'x' :: hex 2 c.toNat
  else if c.toNat < 0x10000 then '\\' :: 'u' :: hex 4 c.toNat
  else '\\' :: 'U' :: hex 8 c.toNat

/-- The text in single quotes; in double quotes if it holds a single quote and no double one. -/
def quoted (t : Text) : Text :=
  let quote := if t.contains '\'' && !t.contains '"' then '"' else '\''
  quote :: t.flatMap (escape quote) ++ [quote]

end Flowmend.Text
