import Flowmend.Statement.Connector
import Flowmend.Text.Word

/-!
# Chains

A line is a chain of sides joined by connectors: always one side more than connectors. A label
between bars directly after a connector belongs to it. The chain of a line spells the line
(`text_ofText`). A side may name several nodes, joined by ampersands outside of brackets.
-/

namespace Flowmend

open Text

/-- A connector of a chain and the side after it. `gap` is what stands between them: the blanks and
the label of the connector as written, or nothing if it has no label. -/
structure Link where
  connector : Connector
  gap : Text
  side : Text
  deriving DecidableEq, Repr

/-- A line as sides joined by connectors, untrimmed. -/
structure Chain where
  first : Text
  links : List Link
  deriving DecidableEq, Repr

namespace Chain

/-- What follows a connector: its label, that label as written, and the rest. -/
structure Tail where
  label : Option Text
  gap : Text
  rest : Text

/-- Reads the label between bars after spaces and tabs, if there is one. -/
def readTail (t : Text) : Tail :=
  match Connector.pipe? (t.dropWhile isPad) with
  | some (label, rest) => ⟨some label, t.takeWhile isPad ++ '|' :: label ++ ['|'], rest⟩
  | none => ⟨none, [], t⟩

theorem readTail_append (t : Text) : t = (readTail t).gap ++ (readTail t).rest := by
  unfold readTail
  split
  · rename_i h
    have hs := List.takeWhile_append_dropWhile (p := isPad) (l := t)
    rw [Connector.eq_append_of_pipe? h] at hs
    simpa using hs.symm
  · rfl

/-- The chain of a line. -/
def ofText (t : Text) : Chain :=
  match _h : Connector.find? t with
  | none => ⟨t, []⟩
  | some f =>
    let after := ofText (readTail f.rest).rest
    ⟨f.before,
      ⟨⟨f.token, (readTail f.rest).label⟩, (readTail f.rest).gap, after.first⟩ :: after.links⟩
termination_by t.length
decreasing_by
  obtain ⟨h₁, h₂⟩ := Connector.eq_append_of_find? _h
  have h₁ := congrArg List.length h₁
  have h₃ := congrArg List.length (readTail_append f.rest)
  have := List.length_pos_iff.2 h₂
  simp only [List.length_append] at h₁ h₃
  omega

/-- The link as written. -/
def linkText (l : Link) : Text := l.connector.token ++ l.gap ++ l.side

/-- The chain as written. -/
def text (c : Chain) : Text := c.first ++ c.links.flatMap linkText

/-- The chain of a line spells it. -/
theorem text_ofText (t : Text) : (ofText t).text = t := by
  fun_induction ofText t with
  | case1 => simp [text]
  | case2 t f h after ih =>
    conv => rhs; rw [(Connector.eq_append_of_find? h).1, readTail_append f.rest, ← ih]
    simp [text, linkText, after]

/-- The sides of the chain, trimmed. -/
def sides (c : Chain) : List Text := trim c.first :: c.links.map fun l => trim l.side

/-- The connectors of the chain. -/
def connectors (c : Chain) : List Connector := c.links.map Link.connector

/-- The positions of connectors whose first one stands at `pos`. -/
def positionsFrom (pos : Nat) : List Link → List Nat
  | [] => []
  | l :: ls => pos :: positionsFrom (pos + (linkText l).length) ls

/-- The positions of the connectors in the line. -/
def positions (c : Chain) : List Nat := positionsFrom c.first.length c.links

end Chain

/-! ## Several nodes on a side -/

namespace FanOut

/-- The depth of brackets after a character. -/
def depthAfter (depth : Nat) (c : Char) : Nat :=
  if c = '[' ∨ c = '(' ∨ c = '{' then depth + 1
  else if c = ']' ∨ c = ')' ∨ c = '}' then depth - 1
  else depth

/-- The part up to the first ampersand at depth 0, and the parts after it. -/
def cut (depth : Nat) : Text → Text × List Text
  | [] => ([], [])
  | c :: t =>
    if c = '&' ∧ depth = 0 then
      let (part, parts) := cut 0 t
      ([], part :: parts)
    else
      let (part, parts) := cut (depthAfter depth c) t
      (c :: part, parts)

end FanOut

/-- The parts of a side between ampersands outside of brackets, trimmed, without blank ones. -/
def fanOut (side : Text) : List Text :=
  let (part, parts) := FanOut.cut 0 side
  ((part :: parts).map trim).filter fun p => !p.isEmpty

end Flowmend
