import Flowmend.Statement.Node

/-!
# Tokens

A line is read as lexemes: connectors, node references, labels between bars, and stray characters.
The lexemes spell the line (`text_lexemes`). Its tokens are the connectors and the node references;
the first label after a connector, before any other token, is the connector's own.
-/

namespace Flowmend

open Text

/-- A stretch of a line. -/
inductive Lexeme
  | connector (token : Text)
  | node (ref : Reference)
  | pipe (label : Text)
  | stray (c : Char)
  deriving DecidableEq, Repr

/-- A node reference or a connector of a line. -/
inductive Token
  | node (ref : Reference)
  | connector (connector : Connector)
  deriving DecidableEq, Repr

namespace Lexeme

/-- The lexeme as written. -/
def text : Lexeme → Text
  | connector token => token
  | node ref => ref.text
  | pipe label => '|' :: label ++ ['|']
  | stray c => [c]

/-- The lexeme at the start of a text that goes on with `t` after `c`, and what follows it. -/
def read (c : Char) (t : Text) : Lexeme × Text :=
  match Connector.token? (c :: t) with
  | some (token, rest) => (connector token, rest)
  | none =>
    match Reference.read? (c :: t) with
    | some (ref, rest) => (node ref, rest)
    | none =>
      match Connector.pipe? (c :: t) with
      | some (label, rest) => (pipe label, rest)
      | none => (stray c, t)

theorem read_append (c : Char) (t : Text) :
    c :: t = (read c t).1.text ++ (read c t).2 ∧ (read c t).1.text ≠ [] := by
  unfold read
  split
  · rename_i h
    exact Connector.eq_append_of_token? h
  · split
    · rename_i h
      obtain ⟨h₁, h₂⟩ := Reference.eq_append_of_read? h
      exact ⟨h₁, by simp [text, Reference.text, h₂]⟩
    · split
      · rename_i h
        exact ⟨by simpa [text] using Connector.eq_append_of_pipe? h, by simp [text]⟩
      · exact ⟨rfl, by simp [text]⟩

theorem length_read_lt (c : Char) (t : Text) : (read c t).2.length < (c :: t).length := by
  obtain ⟨h₁, h₂⟩ := read_append c t
  have := List.length_pos_iff.2 h₂
  have := congrArg List.length h₁
  simp only [List.length_append] at this
  omega

end Lexeme

/-- The lexemes of a line, from its start. -/
def lexemes : Text → List Lexeme
  | [] => []
  | c :: t => (Lexeme.read c t).1 :: lexemes (Lexeme.read c t).2
termination_by t => t.length
decreasing_by exact Lexeme.length_read_lt c t

/-- The lexemes of a line spell it. -/
theorem text_lexemes (t : Text) : (lexemes t).flatMap Lexeme.text = t := by
  fun_induction lexemes t with
  | case1 => rfl
  | case2 c t ih => rw [List.flatMap_cons, ih, ← (Lexeme.read_append c t).1]

namespace Token

/-- The node reference of a token that is one. -/
def node? : Token → Option Reference
  | node ref => some ref
  | connector _ => none

/-- The connector of a token that is one. -/
def connector? : Token → Option Connector
  | node _ => none
  | connector k => some k

/-- The first label before any token. -/
def leadingLabel : List Lexeme → Option Text
  | .stray _ :: ls => leadingLabel ls
  | .pipe label :: _ => some label
  | _ => none

/-- The tokens among the lexemes; each connector takes the label that follows it. -/
def ofLexemes : List Lexeme → List Token
  | [] => []
  | .connector token :: ls => connector ⟨token, leadingLabel ls⟩ :: ofLexemes ls
  | .node ref :: ls => node ref :: ofLexemes ls
  | .pipe _ :: ls => ofLexemes ls
  | .stray _ :: ls => ofLexemes ls

/-- The positions of the tokens among lexemes that start at `pos`. -/
def positions (pos : Nat) : List Lexeme → List Nat
  | [] => []
  | l :: ls =>
    match l with
    | .connector _ | .node _ => pos :: positions (pos + l.text.length) ls
    | .pipe _ | .stray _ => positions (pos + l.text.length) ls

end Token

/-- The tokens of a line. -/
def tokens (line : Text) : List Token := Token.ofLexemes (lexemes line)

/-- The tokens of a line, each with its position. -/
def locatedTokens (line : Text) : List (Nat × Token) :=
  (Token.positions 0 (lexemes line)).zip (tokens line)

/-- The node references of a line. -/
def references (line : Text) : List Reference := (tokens line).filterMap Token.node?

end Flowmend
