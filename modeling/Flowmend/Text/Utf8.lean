import Flowmend.Text.Basic

/-!
# Texts as bytes

Files and processes give bytes. A text is read from them strictly, or leniently with one
replacement character for each longest part that begins a character and does not finish it.
-/

namespace Flowmend.Text.Utf8

/-- The payload of a first byte and the closed ranges of the bytes that must follow it. The second
byte's range keeps out overlong forms, surrogates and code points above `10FFFF`. -/
def lead (b : UInt8) : Option (Nat × List (UInt8 × UInt8)) :=
  let n := b.toNat
  if n < 0x80 then some (n, [])
  else if n < 0xC2 then none
  else if n < 0xE0 then some (n - 0xC0, [(0x80, 0xBF)])
  else if n = 0xE0 then some (0, [(0xA0, 0xBF), (0x80, 0xBF)])
  else if n = 0xED then some (0xD, [(0x80, 0x9F), (0x80, 0xBF)])
  else if n < 0xF0 then some (n - 0xE0, [(0x80, 0xBF), (0x80, 0xBF)])
  else if n = 0xF0 then some (0, [(0x90, 0xBF), (0x80, 0xBF), (0x80, 0xBF)])
  else if n < 0xF4 then some (n - 0xF0, [(0x80, 0xBF), (0x80, 0xBF), (0x80, 0xBF)])
  else if n = 0xF4 then some (4, [(0x80, 0x8F), (0x80, 0xBF), (0x80, 0xBF)])
  else none

/-- Reads one byte per range; the value is missing if a byte is out of its range, which then stays
unread. -/
def follow (value : Nat) : List (UInt8 × UInt8) → List UInt8 → Option Nat × List UInt8
  | [], bs => (some value, bs)
  | _ :: _, [] => (none, [])
  | (lo, hi) :: ranges, b :: bs =>
    if lo ≤ b ∧ b ≤ hi then follow (64 * value + (b.toNat - 0x80)) ranges bs
    else (none, b :: bs)

theorem length_follow_le (value : Nat) (ranges : List (UInt8 × UInt8)) (bs : List UInt8) :
    (follow value ranges bs).2.length ≤ bs.length := by
  fun_induction follow value ranges bs with
  | case1 => exact Nat.le_refl _
  | case2 => exact Nat.le_refl _
  | case3 _ _ _ _ _ _ _ ih => exact Nat.le_succ_of_le ih
  | case4 => exact Nat.le_refl _

/-- The characters that the bytes spell, with a gap for each part that spells none. -/
def parts : List UInt8 → List (Option Char)
  | [] => []
  | b :: bs =>
    match lead b with
    | none => none :: parts bs
    | some (value, ranges) =>
      (follow value ranges bs).1.map Char.ofNat :: parts (follow value ranges bs).2
termination_by bs => bs.length
decreasing_by
  · exact Nat.lt_succ_self _
  · exact Nat.lt_succ_of_le (length_follow_le _ _ _)

/-- The text that the bytes spell, if all of them do. -/
def decode? (bs : List UInt8) : Option Text := (parts bs).mapM id

/-- The text that the bytes spell, with `FFFD` for each gap. -/
def decodeLossy (bs : List UInt8) : Text := (parts bs).map (·.getD '\uFFFD')

end Flowmend.Text.Utf8
