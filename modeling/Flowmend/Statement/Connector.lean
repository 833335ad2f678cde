import Flowmend.Edge

/-!
# Connectors

A connector joins two sides of a statement: `-->`, `---`, `-.->`, `==>` and the like, of any length,
with an optional label between bars. The main definitions are `token?`, which reads a connector at
the start of a text, and `find?`, which finds the first connector of a text. Neither loses a
character: `eq_append_of_token?`, `eq_append_of_find?`.
-/

namespace Flowmend

open Text

/-- A connector as written, with its label if it has one. -/
structure Connector where
  token : Text
  label : Option Text
  deriving DecidableEq, Repr

namespace Connector

/-- The kind of edge that the connector draws. -/
def kind (k : Connector) : EdgeKind := EdgeKind.ofToken k.token

/-! ## Tokens -/

/-- A connector with heads at both ends; these have one length only. -/
def both? (t : Text) : Option (Text × Text) :=
  [['<', '-', '.', '-', '>'], ['<', '=', '=', '>'], ['<', '-', '-', '>']].findSome? fun p =>
    (after? p t).map fun rest => (p, rest)

/-- A dash, one dot or more, and a dash, with a head if one follows. -/
def dotted? : Text → Option (Text × Text)
  | '-' :: '.' :: t =>
    let dots := '.' :: t.takeWhile (· == '.')
    match t.dropWhile (· == '.') with
    | '-' :: '>' :: rest => some ('-' :: dots ++ ['-', '>'], rest)
    | '-' :: rest => some ('-' :: dots ++ ['-'], rest)
    | _ => none
  | _ => none

/-- A whole run of the stroke: two or more with a head, or three or more without. -/
def run? (stroke : Char) (t : Text) : Option (Text × Text) :=
  let run := t.takeWhile (· == stroke)
  match t.dropWhile (· == stroke) with
  | '>' :: rest => if 2 ≤ run.length then some (run ++ ['>'], rest) else none
  | rest => if 3 ≤ run.length then some (run, rest) else none

/-- The connector at the start of the text, and what follows it. -/
def token? (t : Text) : Option (Text × Text) :=
  both? t <|> dotted? t <|> run? '-' t <|> run? '=' t

/-- The connector at the start of the text, if it has a head at its end. -/
def arrow? (t : Text) : Option (Text × Text) :=
  (token? t).filter fun (token, _) => token.getLast? == some '>'

/-! ## Search -/

/-- A text cut at its first connector. -/
structure Found where
  before : Text
  token : Text
  rest : Text
  deriving DecidableEq, Repr

/-- The text cut at its first connector, if it holds one. -/
def find? : Text → Option Found
  | [] => none
  | c :: t =>
    match token? (c :: t) with
    | some (token, rest) => some ⟨[], token, rest⟩
    | none => (find? t).map fun f => { f with before := c :: f.before }

/-! ## Labels -/

/-- A label between bars at the start of the text, and what follows it. -/
def pipe? : Text → Option (Text × Text)
  | '|' :: t =>
    let label := t.takeWhile fun c => c != '|' && c != '\n'
    match t.dropWhile fun c => c != '|' && c != '\n' with
    | '|' :: rest => some (label, rest)
    | _ => none
  | _ => none

/-! ## Nothing is lost -/

theorem eq_append_of_both? {t token rest : Text} (h : both? t = some (token, rest)) :
    t = token ++ rest ∧ token ≠ [] := by
  obtain ⟨p, hp, h⟩ := List.exists_of_findSome?_eq_some h
  obtain ⟨r, hr, h⟩ := Option.map_eq_some_iff.1 h
  cases h
  refine ⟨eq_append_of_after? hr, ?_⟩
  rintro rfl
  simp at hp

theorem eq_append_of_dotted? {t token rest : Text} (h : dotted? t = some (token, rest)) :
    t = token ++ rest ∧ token ≠ [] := by
  unfold dotted? at h
  split at h
  · rename_i t
    have hs := List.takeWhile_append_dropWhile (p := (· == '.')) (l := t)
    split at h
    · rename_i r hr
      cases h
      rw [hr] at hs
      exact ⟨by simpa using hs.symm, by simp⟩
    · rename_i r _ hr
      cases h
      rw [hr] at hs
      exact ⟨by simpa using hs.symm, by simp⟩
    · cases h
  · cases h

theorem eq_append_of_run? {stroke : Char} {t token rest : Text}
    (h : run? stroke t = some (token, rest)) : t = token ++ rest ∧ token ≠ [] := by
  unfold run? at h
  have hs := List.takeWhile_append_dropWhile (p := (· == stroke)) (l := t)
  split at h
  · rename_i r hr
    rw [hr] at hs
    simp only [Option.ite_none_right_eq_some, Option.some.injEq, Prod.mk.injEq] at h
    obtain ⟨-, rfl, rfl⟩ := h
    exact ⟨by simpa using hs.symm, by simp⟩
  · simp only [Option.ite_none_right_eq_some, Option.some.injEq, Prod.mk.injEq] at h
    obtain ⟨hl, rfl, rfl⟩ := h
    refine ⟨hs.symm, ?_⟩
    intro hn
    simp [hn] at hl

theorem eq_append_of_token? {t token rest : Text} (h : token? t = some (token, rest)) :
    t = token ++ rest ∧ token ≠ [] := by
  unfold token? at h
  cases hb : both? t with
  | some p => exact eq_append_of_both? (hb.trans (by simpa [hb] using h))
  | none =>
    cases hd : dotted? t with
    | some p => exact eq_append_of_dotted? (hd.trans (by simpa [hb, hd] using h))
    | none =>
      cases hr : run? '-' t with
      | some p => exact eq_append_of_run? (hr.trans (by simpa [hb, hd, hr] using h))
      | none => exact eq_append_of_run? (by simpa [hb, hd, hr] using h)

theorem eq_append_of_find? {t : Text} {f : Found} (h : find? t = some f) :
    t = f.before ++ f.token ++ f.rest ∧ f.token ≠ [] := by
  induction t generalizing f with
  | nil => simp [find?] at h
  | cons c t ih =>
    unfold find? at h
    split at h
    · rename_i ht
      cases h
      simpa using eq_append_of_token? ht
    · obtain ⟨g, hg, rfl⟩ := Option.map_eq_some_iff.1 h
      obtain ⟨h₁, h₂⟩ := ih hg
      exact ⟨by simp [← h₁], h₂⟩

theorem eq_append_of_pipe? {t label rest : Text} (h : pipe? t = some (label, rest)) :
    t = '|' :: label ++ '|' :: rest := by
  unfold pipe? at h
  split at h
  · rename_i t
    have hs := List.takeWhile_append_dropWhile (p := fun c => c != '|' && c != '\n') (l := t)
    split at h
    · rename_i r hr
      cases h
      rw [hr] at hs
      simpa using hs.symm
    · cases h
  · cases h

end Connector

end Flowmend
