import Flowmend.Proofs.Label
import Flowmend.Proofs.Statement.Connector
import Flowmend.Proofs.Text.Word
import Flowmend.Statement.Token

/-!
# Reading back node references

`Reference.Tidy` are the node references that a statement can hold as they are: the id is one id,
and the label is closed, free of connectors and left alone by cleaning. Such a reference is read
back from what it is written as (`Reference.Tidy.read?_text`), and it is all that its text holds
(`Reference.Tidy.references_text`). Of any reference that is read, the id is the longest one at the
start of the text (`Reference.id_of_read?`), no connector begins in the reference
(`Reference.passes_of_read?`), its label does not hold what closes it
(`Reference.not_closer_infix_label`), and an unclosed label ends at a connector or with the text
(`Reference.rest_of_not_closed`).
-/

namespace Flowmend

open Text

/-- A character of an id is none of a connector. -/
theorem isStroke_of_isIdChar {c : Char} (h : isIdChar c = true) : Connector.isStroke c = false := by
  simp only [Connector.isStroke, Bool.or_eq_false_iff, beq_eq_false_iff_ne]
  refine ⟨⟨⟨⟨?_, ?_⟩, ?_⟩, ?_⟩, ?_⟩ <;> exact ne_of_isIdChar h (by decide)

theorem not_id_of_isStroke {c : Char} (h : Connector.isStroke c = true) : isIdChar c = false := by
  by_contra hid
  rw [isStroke_of_isIdChar (by simpa using hid)] at h
  cases h

/-! ## Brackets -/

namespace Shape

/-- What opens a label of some shape starts with one of three brackets. -/
theorem head?_opener (s : Shape) : s.opener.head? = some '[' ∨ s.opener.head? = some '(' ∨
    s.opener.head? = some '{' := by
  cases s <;> decide

theorem closer_eq_cons (s : Shape) :
    ∃ k ks, s.closer = k :: ks ∧ (k = ']' ∨ k = ')' ∨ k = '}') := by
  cases s <;> exact ⟨_, _, rfl, by decide⟩

theorem closer_ne_nil (s : Shape) : s.closer ≠ [] := by
  obtain ⟨k, ks, h, -⟩ := s.closer_eq_cons
  exact h ▸ List.cons_ne_nil k ks

theorem isStroke_opener (s : Shape) : ∀ c ∈ s.opener, Connector.isStroke c = false := by
  cases s <;> decide

theorem isStroke_closer (s : Shape) : ∀ c ∈ s.closer, Connector.isStroke c = false := by
  cases s <;> decide

/-- An opener is read as a whole if no further bracket follows. -/
theorem open?_opener_append (s : Shape) {t : Text}
    (ht : ∀ c ∈ t.head?, c ≠ '[' ∧ c ≠ '(' ∧ c ≠ '{') : open? (s.opener ++ t) = some (s, t) := by
  cases t with
  | nil => cases s <;> rfl
  | cons c t =>
    obtain ⟨h₁, h₂, h₃⟩ := ht c rfl
    cases s <;>
      simp [open?, all, opener, after?, Ne.symm h₁, Ne.symm h₂, Ne.symm h₃]

/-- A text that starts with no bracket opens no shape. -/
theorem open?_eq_none {t : Text} (ht : ∀ c ∈ t.head?, c ≠ '[' ∧ c ≠ '(' ∧ c ≠ '{') :
    open? t = none := by
  cases t with
  | nil => rfl
  | cons c t =>
    obtain ⟨h₁, h₂, h₃⟩ := ht c rfl
    simp [open?, all, opener, after?, Ne.symm h₁, Ne.symm h₂, Ne.symm h₃]

end Shape

/-! ## Frames -/

namespace Frame

/-- The label is closed, free of connectors, and left alone by cleaning. -/
structure Tidy (f : Frame) : Prop where
  closed : f.closed = true
  plain : Label.Plain f.label
  free : Connector.Free f.label

instance (f : Frame) : Decidable f.Tidy :=
  decidable_of_iff (f.closed = true ∧ Label.Plain f.label ∧ Connector.Free f.label)
    ⟨fun ⟨h₁, h₂, h₃⟩ => ⟨h₁, h₂, h₃⟩, fun ⟨h₁, h₂, h₃⟩ => ⟨h₁, h₂, h₃⟩⟩

/-- A label runs to its closer if neither the closer's first character nor a connector is in it. -/
theorem spanLabel_closed {k : Char} {label : Text} (ks u : Text) (hk : k ∉ label)
    (hs : Connector.isStroke k = false) (hf : Connector.Free label) :
    spanLabel (k :: ks) (label ++ k :: ks ++ u) = (label, true, u) := by
  induction label with
  | nil =>
    rw [List.nil_append, List.cons_append, spanLabel]
    simp only [← List.cons_append, after?_append_self]
  | cons c label ih =>
    simp only [List.mem_cons, not_or] at hk
    obtain ⟨h₁, h₂⟩ := Connector.free_cons.1 hf
    have htoken : Connector.token? (c :: (label ++ k :: ks ++ u)) = none := by
      have := Connector.token?_append_stop (c :: label) hs (ks ++ u)
      rw [h₁] at this
      simpa using this
    rw [List.cons_append, List.cons_append, spanLabel, after?_eq_none_of_head _ _ hk.1, htoken]
    simp only [Option.isSome_none, Bool.false_eq_true, if_false, ih hk.2 h₂]

/-- A label runs up to the first connector at most. -/
theorem passes_spanLabel {closer : Text} (hcloser : ∀ c ∈ closer, Connector.isStroke c = false)
    (t : Text) : Connector.Passes ((spanLabel closer t).1 ++
      if (spanLabel closer t).2.1 then closer else []) (spanLabel closer t).2.2 := by
  fun_induction spanLabel closer t with
  | case1 => exact Connector.passes_nil _
  | case2 c t rest => exact Connector.passes_of_not_stroke hcloser rest
  | case3 c t => exact Connector.passes_nil _
  | case4 c t hafter htoken label closed rest hs ih =>
    rw [hs] at ih
    have htoken : Connector.token? (c :: t) = none := by simpa using htoken
    rw [spanLabel_append closer t, hs] at htoken
    exact Connector.passes_cons.2 ⟨htoken, ih⟩

/-- A label runs up to the first closer at most. -/
theorem not_closer_infix_spanLabel {closer : Text} (hne : closer ≠ []) (t : Text) :
    ¬closer <:+: (spanLabel closer t).1 := by
  fun_induction spanLabel closer t with
  | case1 => rwa [List.infix_nil]
  | case2 => rwa [List.infix_nil]
  | case3 => rwa [List.infix_nil]
  | case4 c t hafter _ label closed rest hs ih =>
    rw [hs] at ih
    intro hinfix
    rcases List.infix_cons_iff.1 hinfix with ⟨x, hx⟩ | hinfix
    · have ht := spanLabel_append closer t
      rw [hs, List.append_assoc] at ht
      rw [ht, ← List.cons_append, ← hx, List.append_assoc, after?_append_self] at hafter
      cases hafter
    · exact ih hinfix

/-- Behind a label that is not closed a connector follows, or nothing. -/
theorem rest_of_not_closed {closer t : Text} (h : (spanLabel closer t).2.1 = false) :
    (spanLabel closer t).2.2 = [] ∨ (Connector.token? (spanLabel closer t).2.2).isSome = true := by
  fun_induction spanLabel closer t with
  | case1 => exact .inl rfl
  | case2 => cases h
  | case3 c t _ htoken => exact .inr htoken
  | case4 c t _ _ label closed rest hspan ih =>
    rw [hspan] at ih
    exact ih h

variable {f : Frame}

theorem exists_spanLabel {t rest : Text} (h : read? t = some (f, rest)) : ∃ inner,
    t = f.shape.opener ++ inner ∧ spanLabel f.shape.closer inner = (f.label, f.closed, rest) := by
  obtain ⟨⟨shape, inner⟩, hopen, h⟩ := Option.map_eq_some_iff.1 h
  cases h
  exact ⟨inner, Shape.eq_append_of_open? hopen, rfl⟩

/-- No connector begins in a label that is read, nor in what closes it. -/
theorem passes_label {t rest : Text} (h : read? t = some (f, rest)) :
    Connector.Passes (f.label ++ if f.closed then f.shape.closer else []) rest := by
  obtain ⟨inner, -, hspan⟩ := exists_spanLabel h
  have hlabel := passes_spanLabel f.shape.isStroke_closer inner
  rwa [hspan] at hlabel

/-- The special characters of diagrams are in no label that is left alone. -/
theorem Tidy.not_mem {c : Char} (hf : f.Tidy) (hc : Label.isSpecial c = true) : c ∉ f.label := by
  intro h
  rw [hf.plain.not_special h] at hc
  cases hc

theorem text_of_closed (h : f.closed = true) :
    f.text = f.shape.opener ++ (f.label ++ f.shape.closer) := by
  rw [text, h, if_pos rfl, List.append_assoc]

theorem Tidy.text_eq (hf : f.Tidy) : f.text = f.shape.opener ++ (f.label ++ f.shape.closer) :=
  text_of_closed hf.closed

/-- No bracket that opens a label follows an opener. -/
theorem Tidy.head_label (hf : f.Tidy) (u : Text) :
    ∀ c ∈ (f.label ++ f.shape.closer ++ u).head?, c ≠ '[' ∧ c ≠ '(' ∧ c ≠ '{' := by
  intro c hc
  cases hl : f.label with
  | nil =>
    obtain ⟨k, ks, hk, hks⟩ := f.shape.closer_eq_cons
    rw [hl, hk] at hc
    cases hc
    rcases hks with rfl | rfl | rfl <;> decide
  | cons d l =>
    rw [hl] at hc
    cases hc
    have hd := hf.plain.not_special (c := c) (by rw [hl]; exact List.mem_cons_self)
    refine ⟨?_, ?_, ?_⟩ <;> rintro rfl <;> simp [Label.isSpecial] at hd

theorem Tidy.read?_text (hf : f.Tidy) (u : Text) : read? (f.text ++ u) = some (f, u) := by
  obtain ⟨k, ks, hk, hks⟩ := f.shape.closer_eq_cons
  have hmem : k ∉ f.label := hf.not_mem (by rcases hks with rfl | rfl | rfl <;> decide)
  have hstroke : Connector.isStroke k = false := by rcases hks with rfl | rfl | rfl <;> decide
  rw [read?, hf.text_eq, List.append_assoc, Shape.open?_opener_append _ (hf.head_label u)]
  simp only [Option.map_some, hk, spanLabel_closed ks u hmem hstroke hf.free, ← hf.closed]

theorem read?_eq_none {t : Text} (ht : ∀ c ∈ t.head?, c ≠ '[' ∧ c ≠ '(' ∧ c ≠ '{') :
    read? t = none := by
  rw [read?, Shape.open?_eq_none ht]
  rfl

end Frame

/-! ## References -/

namespace Reference

section Read

/-- A character of an id opens a reference. -/
theorem isSome_read? {c : Char} (hc : isIdChar c = true) (t : Text) :
    (read? (c :: t)).isSome = true := by
  have hid : (leadingId (c :: t)).isEmpty = false := by simp [leadingId, hc]
  rw [read?, hid]
  cases Frame.read? (afterId (c :: t)) <;> rfl

variable {t rest : Text} {n : Reference}

theorem id_of_read? (h : read? t = some (n, rest)) : n.id = leadingId t := by
  unfold read? at h
  split at h
  · cases h
  · split at h <;> cases h <;> rfl

theorem isId_of_read? (h : read? t = some (n, rest)) : IsId n.id := by
  refine ⟨(eq_append_of_read? h).2, fun c hc => ?_⟩
  rw [id_of_read? h] at hc
  exact List.mem_takeWhile_imp hc

theorem frame_of_read? {f : Frame} (h : read? t = some (n, rest)) (hf : n.frame = some f) :
    Frame.read? (afterId t) = some (f, rest) := by
  unfold read? at h
  split at h
  · cases h
  · split at h
    · cases h
      cases hf
    · rename_i hframe
      cases h
      cases hf
      exact hframe

theorem rest_of_not_closed {f : Frame} (h : read? t = some (n, rest)) (hf : n.frame = some f)
    (hclosed : f.closed = false) : rest = [] ∨ (Connector.token? rest).isSome = true := by
  obtain ⟨inner, -, hspan⟩ := Frame.exists_spanLabel (frame_of_read? h hf)
  have := @Frame.rest_of_not_closed f.shape.closer inner
  rw [hspan] at this
  exact this hclosed

/-- No connector begins in a reference that is read. -/
theorem passes_of_read? (h : read? t = some (n, rest)) : Connector.Passes n.text rest := by
  have hid : ∀ c ∈ n.id, Connector.isStroke c = false := fun c hc =>
    isStroke_of_isIdChar ((isId_of_read? h).isIdChar c hc)
  refine Connector.passes_append.2 ⟨Connector.passes_of_not_stroke hid _, ?_⟩
  cases hf : n.frame with
  | none => exact Connector.passes_nil rest
  | some f =>
    have hlabel := Frame.passes_label (frame_of_read? h hf)
    show Connector.Passes (f.shape.opener ++ f.label ++ _) rest
    rw [List.append_assoc]
    exact Connector.passes_append.2
      ⟨Connector.passes_of_not_stroke f.shape.isStroke_opener _, hlabel⟩

/-- A label that is read holds no connector. -/
theorem free_label_of_read? {f : Frame} (h : read? t = some (n, rest)) (hf : n.frame = some f) :
    Connector.Free f.label :=
  (Connector.passes_append.1 (Frame.passes_label (frame_of_read? h hf))).1.free

/-- A label that is read does not hold what closes it. -/
theorem not_closer_infix_label {f : Frame} (h : read? t = some (n, rest)) (hf : n.frame = some f) :
    ¬f.shape.closer <:+: f.label := by
  obtain ⟨inner, -, hspan⟩ := Frame.exists_spanLabel (frame_of_read? h hf)
  have := Frame.not_closer_infix_spanLabel f.shape.closer_ne_nil inner
  rwa [hspan] at this

end Read

/-- The id is one id, and the frame is tidy. -/
structure Tidy (n : Reference) : Prop where
  id : IsId n.id
  frame : ∀ f ∈ n.frame, f.Tidy

instance (n : Reference) : Decidable n.Tidy :=
  decidable_of_iff (IsId n.id ∧ ∀ f ∈ n.frame, f.Tidy)
    ⟨fun ⟨h₁, h₂⟩ => ⟨h₁, h₂⟩, fun ⟨h₁, h₂⟩ => ⟨h₁, h₂⟩⟩

/-- After the text goes on nothing that would belong to a bare reference. -/
def Ends (u : Text) : Prop :=
  ∀ c ∈ u.head?, isIdChar c = false ∧ c ≠ '[' ∧ c ≠ '(' ∧ c ≠ '{'

variable {n : Reference}

theorem Tidy.text_eq_cons (hn : n.Tidy) : ∃ c t, n.text = c :: t ∧ isIdChar c = true := by
  obtain ⟨c, t, ht⟩ := List.exists_cons_of_ne_nil hn.id.ne_nil
  exact ⟨c, t ++ _, by rw [text, ht]; rfl, hn.id.isIdChar c (ht ▸ List.mem_cons_self)⟩

/-- A tidy reference is read back, if what follows does not belong to it. -/
theorem Tidy.read?_text (hn : n.Tidy) {u : Text} (hu : Ends u) :
    read? (n.text ++ u) = some (n, u) := by
  obtain ⟨id, frame⟩ := n
  have hid : id.isEmpty = false := by simpa using hn.id.ne_nil
  cases frame with
  | none =>
    have h₁ : ∀ c ∈ u.head?, isIdChar c = false := fun c hc => (hu c hc).1
    have h₂ : ∀ c ∈ u.head?, c ≠ '[' ∧ c ≠ '(' ∧ c ≠ '{' := fun c hc => (hu c hc).2
    simp only [read?, text, List.append_nil, leadingId_append hn.id.isIdChar h₁,
      afterId_append hn.id.isIdChar h₁, Frame.read?_eq_none h₂, hid, Bool.false_eq_true, if_false]
  | some f =>
    have hf : f.Tidy := hn.frame f rfl
    have h₁ : ∀ c ∈ (f.text ++ u).head?, isIdChar c = false := by
      intro c hc
      rw [hf.text_eq, List.append_assoc, List.head?_append] at hc
      rcases f.shape.head?_opener with h | h | h <;> rw [h] at hc <;> cases hc <;> decide
    simp only [read?, text, List.append_assoc, leadingId_append hn.id.isIdChar h₁,
      afterId_append hn.id.isIdChar h₁, hf.read?_text u, hid, Bool.false_eq_true, if_false]

theorem Tidy.opening?_text (hn : n.Tidy) {u : Text} (hu : Ends u) :
    opening? (n.text ++ u) = some (n, u) := by
  obtain ⟨c, t, ht, hc⟩ := hn.text_eq_cons
  have hpad : isPad c = false := by
    simp only [isPad, Bool.or_eq_false_iff, beq_eq_false_iff_ne]
    exact ⟨ne_of_isIdChar hc (by decide), ne_of_isIdChar hc (by decide)⟩
  rw [opening?, ht, List.cons_append, dropWhile_of_head isPad _ hpad, ← List.cons_append, ← ht]
  exact hn.read?_text hu

/-- A statement that goes on behind a tidy reference is read as the reference and the rest. -/
theorem Tidy.lexemes_text (hn : n.Tidy) {u : Text} (hu : Ends u) :
    lexemes (n.text ++ u) = .node n :: lexemes u := by
  obtain ⟨c, t, ht, hc⟩ := hn.text_eq_cons
  have hread := hn.read?_text hu
  have htoken : Connector.token? (c :: (t ++ u)) = none :=
    Connector.token?_cons_eq_none _ (ne_of_isIdChar hc (by decide)) (ne_of_isIdChar hc (by decide))
      (ne_of_isIdChar hc (by decide))
  rw [ht, List.cons_append] at hread ⊢
  rw [lexemes, Lexeme.read, htoken, hread]

theorem Tidy.references_text (hn : n.Tidy) : references n.text = [n] := by
  have h := hn.lexemes_text (u := []) (by simp [Ends])
  rw [List.append_nil, lexemes] at h
  rw [references, tokens, h]
  rfl

end Reference

end Flowmend
