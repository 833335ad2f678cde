import Flowmend.Shape
import Flowmend.Statement.Connector
import Flowmend.Text.Word

/-!
# Node references

A statement names a node by its id, alone or followed by a label in the brackets of a shape. A label
whose closing bracket does not come before the next connector is unclosed: it ends at the
connector, or with the text.
-/

namespace Flowmend

open Text

/-- The label of a node reference in the brackets of its shape. -/
structure Frame where
  shape : Shape
  label : Text
  closed : Bool
  deriving DecidableEq, Repr

/-- A reference to a node: its id, bare or with a frame. -/
structure Reference where
  id : Text
  frame : Option Frame
  deriving DecidableEq, Repr

namespace Frame

/-- The frame as written. -/
def text (f : Frame) : Text :=
  f.shape.opener ++ f.label ++ if f.closed then f.shape.closer else []

/-- The text up to `closer` or to the first connector, whether the closer was met, and what follows
it. -/
def spanLabel (closer : Text) : Text → Text × Bool × Text
  | [] => ([], false, [])
  | c :: t =>
    match after? closer (c :: t) with
    | some rest => ([], true, rest)
    | none =>
      if (Connector.token? (c :: t)).isSome then ([], false, c :: t)
      else
        let (label, closed, rest) := spanLabel closer t
        (c :: label, closed, rest)

/-- The frame at the start of the text, and what follows it. -/
def read? (t : Text) : Option (Frame × Text) :=
  (Shape.open? t).map fun (shape, inner) =>
    let (label, closed, rest) := spanLabel shape.closer inner
    (⟨shape, label, closed⟩, rest)

end Frame

namespace Reference

/-- The reference has no frame. -/
def bare (n : Reference) : Bool := n.frame.isNone

/-- The reference as written. -/
def text (n : Reference) : Text :=
  n.id ++ match n.frame with
    | none => []
    | some f => f.text

/-- The node reference at the start of the text, and what follows it. -/
def read? (t : Text) : Option (Reference × Text) :=
  if (leadingId t).isEmpty then none
  else
    match Frame.read? (afterId t) with
    | none => some (⟨leadingId t, none⟩, afterId t)
    | some (frame, rest) => some (⟨leadingId t, some frame⟩, rest)

/-- The node reference that the text opens with, after spaces and tabs. -/
def opening? (t : Text) : Option (Reference × Text) := read? (t.dropWhile isPad)

end Reference

/-! ## Nothing is lost -/

theorem Frame.spanLabel_append (closer t : Text) :
    t = (spanLabel closer t).1 ++ (if (spanLabel closer t).2.1 then closer else []) ++
      (spanLabel closer t).2.2 := by
  fun_induction spanLabel closer t with
  | case1 => rfl
  | case2 c t rest h => simpa using eq_append_of_after? h
  | case3 => rfl
  | case4 c t _ _ label closed rest hs ih =>
    simp only [hs] at ih
    simpa using ih

theorem Shape.eq_append_of_open? {t rest : Text} {s : Shape} (h : Shape.open? t = some (s, rest)) :
    t = s.opener ++ rest := by
  obtain ⟨p, hp, h⟩ := List.exists_of_findSome?_eq_some h
  obtain ⟨r, hr, h⟩ := Option.map_eq_some_iff.1 h
  cases h
  exact eq_append_of_after? hr

theorem Frame.eq_append_of_read? {t rest : Text} {f : Frame} (h : Frame.read? t = some (f, rest)) :
    t = f.text ++ rest := by
  obtain ⟨⟨shape, inner⟩, hs, h⟩ := Option.map_eq_some_iff.1 h
  cases h
  have := spanLabel_append shape.closer inner
  rw [Shape.eq_append_of_open? hs]
  simpa [Frame.text] using this

theorem Reference.eq_append_of_read? {t rest : Text} {n : Reference}
    (h : Reference.read? t = some (n, rest)) : t = n.text ++ rest ∧ n.id ≠ [] := by
  unfold Reference.read? at h
  have hs : t = leadingId t ++ afterId t := List.takeWhile_append_dropWhile.symm
  split at h
  · cases h
  · rename_i hne
    have hne : leadingId t ≠ [] := fun hn => hne (by rw [hn]; rfl)
    split at h
    · cases h
      exact ⟨by simpa [Reference.text] using hs, hne⟩
    · rename_i hf
      cases h
      rw [Frame.eq_append_of_read? hf] at hs
      exact ⟨by simpa [Reference.text] using hs, hne⟩

end Flowmend
