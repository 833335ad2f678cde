/-!
# Text

A text is the list of its characters: positions and lengths count characters, and a function on
texts recurses on that list. This module holds the cuts that the other modules share: blanks and
trimming, a fixed beginning, the first occurrence of a text, and cuts at a signed limit.
-/

namespace Flowmend

/-- A text: the list of its characters. -/
abbrev Text := List Char

namespace Text

/-- The string with these characters. -/
def str (t : Text) : String := String.ofList t

/-! ## Blanks -/

/-- White space: the characters of the Unicode property, with the four separators `1C` to `1F`. -/
def isBlank (c : Char) : Bool :=
  let n := c.toNat
  (9 ≤ n && n ≤ 13) || (28 ≤ n && n ≤ 32) || n == 0x85 || n == 0xA0 || n == 0x1680 ||
  (0x2000 ≤ n && n ≤ 0x200A) || n == 0x2028 || n == 0x2029 || n == 0x202F || n == 0x205F ||
  n == 0x3000

/-- A blank that stays on its line: space or tab. -/
def isPad (c : Char) : Bool := c == ' ' || c == '\t'

/-- All characters are blank. -/
def allBlank (t : Text) : Bool := t.all isBlank

/-- Without the characters at the end that satisfy `p`. -/
def dropEndWhile (p : Char → Bool) (t : Text) : Text := (t.reverse.dropWhile p).reverse

/-- Without the blanks at the end. -/
def trimEnd (t : Text) : Text := dropEndWhile isBlank t

/-- Without the blanks at the start. -/
def trimStart (t : Text) : Text := t.dropWhile isBlank

/-- Without the blanks at both ends. -/
def trim (t : Text) : Text := trimEnd (trimStart t)

/-! ## Parts -/

/-- What follows `p` at the start of the text, if the text starts with `p`. -/
def after? : (p t : Text) → Option Text
  | [], t => some t
  | _ :: _, [] => none
  | a :: p, c :: t => if a = c then after? p t else none

theorem eq_append_of_after? {p t rest : Text} (h : after? p t = some rest) : t = p ++ rest := by
  induction p generalizing t with
  | nil => simpa [after?] using h
  | cons a p ih =>
    cases t with
    | nil => simp [after?] at h
    | cons c t =>
      by_cases hac : a = c
      · simp only [after?, hac, if_true] at h
        simp [hac, ih h]
      · simp [after?, hac] at h

/-- The text starts with `p`. -/
def startsWith (p t : Text) : Bool := (after? p t).isSome

/-- What stands before and after the first occurrence of `p`. -/
def splitAt? (p : Text) : Text → Option (Text × Text)
  | [] => if p.isEmpty then some ([], []) else none
  | c :: t =>
    match after? p (c :: t) with
    | some rest => some ([], rest)
    | none => (splitAt? p t).map fun (before, rest) => (c :: before, rest)

/-- Some stretch that runs to the end of the text satisfies `p`. -/
def anyTail (p : Text → Bool) : Text → Bool
  | [] => p []
  | c :: t => p (c :: t) || anyTail p t

/-! ## Limits -/

/-- The first `limit` characters; a negative limit leaves out that many at the end. -/
def takeUpTo (limit : Int) (t : Text) : Text :=
  if 0 ≤ limit then t.take limit.toNat else t.take (t.length - (-limit).toNat)

/-- Cut at the limit, if there is one. -/
def cut (limit : Option Int) (t : Text) : Text :=
  match limit with
  | none => t
  | some n => takeUpTo n t

/-- The texts, one after the other, with `gap` between neighbours. -/
def join (gap : Text) : List Text → Text
  | [] => []
  | [t] => t
  | t :: ts => t ++ gap ++ join gap ts

/-- The number of occurrences of a character. -/
def count (c : Char) (t : Text) : Nat := List.count c t

end Text

end Flowmend
