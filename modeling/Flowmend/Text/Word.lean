import Flowmend.Text.Basic
import Flowmend.Text.WordTable

/-!
# Words

Ids are made of ASCII letters, digits and underscores. Keywords end where no letter, digit or
underscore of any script follows.
-/

namespace Flowmend.Text

/-- A letter or digit of ASCII. -/
def isAlnum (c : Char) : Bool := c.isAlphanum

/-- A character of an id. -/
def isIdChar (c : Char) : Bool := isAlnum c || c == '_'

/-- A letter, a digit or another numeral of any script, or an underscore. -/
def isWord (c : Char) : Bool :=
  if c.toNat < 128 then isIdChar c
  else wordRanges.any fun (lo, hi) => lo ≤ c.toNat && c.toNat ≤ hi

/-- The text goes on with a character of a word. -/
def opensWord (t : Text) : Bool := t.head?.any isWord

/-- The longest id at the start of the text; empty if there is none. -/
def leadingId (t : Text) : Text := t.takeWhile isIdChar

/-- What follows the longest id at the start of the text. -/
def afterId (t : Text) : Text := t.dropWhile isIdChar

/-- The longest stretches of id characters, in order. -/
def ids : Text → List Text
  | [] => []
  | c :: t =>
    if isIdChar c then
      (c :: leadingId t) :: ids (afterId t)
    else ids t
termination_by t => t.length
decreasing_by
  · exact Nat.lt_succ_of_le (List.IsSuffix.length_le (List.dropWhile_suffix _))
  · exact Nat.lt_succ_self _

end Flowmend.Text
