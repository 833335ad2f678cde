import Flowmend.Proofs.Statement.Node

/-!
# Reading a text by parts

How the references of a text go on when the text is longer.

* `Lexeme.read_cases`: what each lexeme is read as.
* `map_references_append_inert`: characters that open no lexeme (`Inert`) change the references
  before them at the ends of their labels only, and so none of their marks (`marks_append_inert`).
-/

namespace Flowmend

open Text

/-! ## References among lexemes -/

/-- The reference of a lexeme that is one. -/
def Lexeme.node? : Lexeme → Option Reference
  | node n => some n
  | _ => none

theorem Token.mem_filterMap_node? {ts : List Token} {n : Reference} :
    n ∈ ts.filterMap node? ↔ node n ∈ ts := by
  rw [List.mem_filterMap]
  constructor
  · rintro ⟨t, ht, hn⟩
    cases t with
    | node m =>
      cases hn
      exact ht
    | connector k => cases hn
  · exact fun hn => ⟨_, hn, rfl⟩

theorem filterMap_node?_ofLexemes (ls : List Lexeme) :
    (Token.ofLexemes ls).filterMap Token.node? = ls.filterMap Lexeme.node? := by
  induction ls with
  | nil => rfl
  | cons l ls ih =>
    cases l <;> simp [Token.ofLexemes, Token.node?, Lexeme.node?, List.filterMap_cons, ih]

theorem references_eq (t : Text) : references t = (lexemes t).filterMap Lexeme.node? :=
  filterMap_node?_ofLexemes _

theorem references_nil : references [] = [] := by
  rw [references_eq, lexemes]
  rfl

theorem lexemes_cons (c : Char) (t : Text) :
    lexemes (c :: t) = (Lexeme.read c t).1 :: lexemes (Lexeme.read c t).2 := by
  rw [lexemes]

theorem references_cons (c : Char) (t : Text) :
    references (c :: t) =
      (Lexeme.read c t).1.node?.toList ++ references (Lexeme.read c t).2 := by
  rw [references_eq, references_eq, lexemes_cons, List.filterMap_cons]
  cases (Lexeme.read c t).1.node? <;> rfl

theorem references_of_read? {c : Char} {t rest : Text} {n : Reference}
    (ht : Connector.token? (c :: t) = none) (h : Reference.read? (c :: t) = some (n, rest)) :
    references (c :: t) = n :: references rest := by
  rw [references_cons, Lexeme.read, ht, h]
  rfl

/-- What counts of a reference for the edges of a line: its id, and whether it is bare. -/
def Reference.mark (n : Reference) : Text × Bool := (n.id, n.bare)

/-- What counts of the references of a text. -/
def marks (t : Text) : List (Text × Bool) := (references t).map Reference.mark

/-! ## Inert characters -/

/-- The character is a lexeme of its own wherever it stands between others, and no part of a
connector. -/
structure Inert (c : Char) : Prop where
  not_id : isIdChar c = false
  not_stroke : Connector.isStroke c = false
  not_opener : c ≠ '[' ∧ c ≠ '(' ∧ c ≠ '{'
  not_bar : c ≠ '|'

theorem inert_of_isBlank {c : Char} (h : isBlank c = true) : Inert c := by
  have hne : ∀ d, isBlank d = false → c ≠ d := by
    rintro d hd rfl
    rw [hd] at h
    cases h
  refine ⟨not_id_of_isBlank h, ?_, ⟨hne _ (by decide), hne _ (by decide), hne _ (by decide)⟩,
    hne _ (by decide)⟩
  simp only [Connector.isStroke, Bool.or_eq_false_iff, beq_eq_false_iff_ne]
  refine ⟨⟨⟨⟨?_, ?_⟩, ?_⟩, ?_⟩, ?_⟩ <;> exact hne _ (by decide)

theorem inert_of_isPad {c : Char} (h : isPad c = true) : Inert c := by
  simp only [isPad, Bool.or_eq_true, beq_iff_eq] at h
  rcases h with rfl | rfl <;> exact inert_of_isBlank (by decide)

theorem Inert.read {c : Char} (h : Inert c) (t : Text) : Lexeme.read c t = (.stray c, t) := by
  have hid : leadingId (c :: t) = [] := by simp [leadingId, h.not_id]
  have hpipe : Connector.pipe? (c :: t) = none := by
    unfold Connector.pipe?
    split
    · rename_i he; cases he; exact absurd rfl h.not_bar
    · rfl
  rw [Lexeme.read, Connector.token?_cons_of_not_stroke t h.not_stroke, Reference.read?, hid, hpipe]
  rfl

theorem lexemes_inert_append {a : Text} (ha : ∀ c ∈ a, Inert c) (t : Text) :
    lexemes (a ++ t) = a.map Lexeme.stray ++ lexemes t := by
  induction a with
  | nil => rfl
  | cons c a ih =>
    rw [List.cons_append, lexemes_cons, (ha c List.mem_cons_self).read,
      ih fun d hd => ha d (List.mem_cons_of_mem c hd)]
    rfl

/-- Inert characters before a text hold no reference. -/
theorem references_inert_append {a : Text} (ha : ∀ c ∈ a, Inert c) (t : Text) :
    references (a ++ t) = references t := by
  have hstray : (a.map Lexeme.stray).filterMap Lexeme.node? = [] := by
    simp [List.filterMap_map, Lexeme.node?, Function.comp_def]
  rw [references_eq, references_eq, lexemes_inert_append ha, List.filterMap_append, hstray,
    List.nil_append]

theorem references_of_inert {a : Text} (ha : ∀ c ∈ a, Inert c) : references a = [] := by
  have := references_inert_append ha []
  rwa [List.append_nil, references_eq [], lexemes] at this

theorem Connector.Free.token?_append_inert {u w : Text} (hu : Connector.Free u)
    (hw : ∀ c ∈ w, Inert c) : Connector.token? (u ++ w) = none ∨ u = [] := by
  cases w with
  | nil => exact .inl (by simpa using hu.token?_suffix (List.suffix_refl u))
  | cons d w =>
    refine .inl ?_
    rw [Connector.token?_append_stop u (hw d List.mem_cons_self).not_stroke,
      hu.token?_suffix (List.suffix_refl u)]
    rfl

/-! ## Frames of a longer text -/

namespace Shape

/-- A bracket that no opener has does not change what is opened before it. -/
theorem open?_append {d : Char} (hd : d ≠ '[' ∧ d ≠ '(' ∧ d ≠ '{') (t v : Text) :
    open? (t ++ d :: v) = (open? t).map fun p => (p.1, p.2 ++ d :: v) := by
  obtain ⟨h₁, h₂, h₃⟩ := hd
  have hopener : ∀ s : Shape, d ∉ s.opener := by
    intro s
    cases s <;> simp [opener, h₁, h₂, h₃]
  unfold open?
  induction all with
  | nil => rfl
  | cons s ss ih =>
    rw [List.findSome?_cons, List.findSome?_cons, after?_append_stop t (hopener s)]
    cases after? s.opener t with
    | some rest => rfl
    | none => exact ih

end Shape

namespace Frame

theorem mem_of_mem_spanLabel {closer t : Text} {c : Char} (h : c ∈ (spanLabel closer t).2.2) :
    c ∈ t := by
  rw [spanLabel_append closer t]
  exact List.mem_append_right _ h

theorem length_le_of_spanLabel {closer t : Text} (h : (spanLabel closer t).2.1 = true) :
    closer.length ≤ t.length := by
  have := congrArg List.length (spanLabel_append closer t)
  rw [if_pos h, List.length_append, List.length_append] at this
  omega

theorem spanLabel_of_after? {closer t rest : Text} {c : Char}
    (h : after? closer (c :: t) = some rest) : spanLabel closer (c :: t) = ([], true, rest) := by
  rw [spanLabel, h]

/-- A label goes on where neither its closer nor a connector stands. -/
theorem spanLabel_cons {closer t : Text} {c : Char} (hafter : after? closer (c :: t) = none)
    (htoken : Connector.token? (c :: t) = none) :
    spanLabel closer (c :: t) = (c :: (spanLabel closer t).1, (spanLabel closer t).2) := by
  rw [spanLabel, hafter, htoken]
  rfl

/-- A closer that is there only with what follows ends in it. -/
theorem of_after?_append {closer t w rest : Text} (h : after? closer t = none)
    (hlong : after? closer (t ++ w) = some rest) : ∃ x, closer = t ++ x ∧ rest <:+ w := by
  rcases List.append_eq_append_iff.1 (eq_append_of_after? hlong) with ⟨x, hx, hw⟩ | ⟨x, hx, -⟩
  · exact ⟨x, hx, ⟨x, hw.symm⟩⟩
  · rw [hx, after?_append_self] at h
    cases h

theorem subset_spanLabel (closer t : Text) : (spanLabel closer t).1 ⊆ t := by
  intro c hc
  rw [spanLabel_append closer t, List.append_assoc]
  exact List.mem_append_left _ hc

/-- Two labels are the same up to their ends: the first one ends with characters of the closer, and
the second one with some of `w`. -/
def SameUpToEnd (closer w label label' : Text) : Prop :=
  ∃ l v v', label = l ++ v ∧ label' = l ++ v' ∧ (∀ c ∈ v, c ∈ closer) ∧ ∀ c ∈ v', c ∈ w

theorem SameUpToEnd.cons {closer w label label' : Text} (h : SameUpToEnd closer w label label')
    (c : Char) : SameUpToEnd closer w (c :: label) (c :: label') := by
  obtain ⟨l, v, v', rfl, rfl, hv⟩ := h
  exact ⟨c :: l, v, v', rfl, rfl, hv⟩

/-- A closed label stays as it is. An unclosed one runs to the end of the text, and if more follows,
nothing else than what follows is left behind it. -/
theorem spanLabel_append_inert {closer t w : Text} (ht : Connector.Free t)
    (hw : ∀ c ∈ w, Inert c) :
    SameUpToEnd closer w (spanLabel closer t).1 (spanLabel closer (t ++ w)).1 ∧
      (((spanLabel closer t).2.1 = true ∧
        (spanLabel closer (t ++ w)).2.2 = (spanLabel closer t).2.2 ++ w) ∨
      ((spanLabel closer t).2.2 = [] ∧ ∀ c ∈ (spanLabel closer (t ++ w)).2.2, c ∈ w)) := by
  induction t with
  | nil =>
    exact ⟨⟨[], [], _, rfl, rfl, by simp, subset_spanLabel closer w⟩,
      .inr ⟨rfl, fun c hc => mem_of_mem_spanLabel hc⟩⟩
  | cons c t ih =>
    have htoken' := (ht.token?_append_inert hw).resolve_right (by simp)
    obtain ⟨htoken, ht⟩ := Connector.free_cons.1 ht
    cases hafter : after? closer (c :: t) with
    | some rest =>
      have hspan := spanLabel_of_after? hafter
      have hlong := after?_append hafter w
      rw [List.cons_append] at hlong ⊢
      rw [hspan, spanLabel_of_after? hlong]
      exact ⟨⟨[], [], [], rfl, rfl, by simp, by simp⟩, .inl ⟨rfl, rfl⟩⟩
    | none =>
      obtain ⟨hlabel, hrest⟩ := ih ht
      rw [spanLabel_cons hafter htoken]
      rw [List.cons_append] at htoken' ⊢
      cases hlong : after? closer (c :: (t ++ w)) with
      | none =>
        rw [spanLabel_cons hlong htoken']
        exact ⟨hlabel.cons c, hrest⟩
      | some rest =>
        -- The closer begins in the text and ends in what follows.
        obtain ⟨x, hx, hsuffix⟩ := of_after?_append hafter hlong
        have hlabel : ∀ d ∈ c :: (spanLabel closer t).1, d ∈ closer := by
          intro d hd
          rw [hx]
          refine List.mem_append_left x ?_
          exact (List.mem_cons.1 hd).elim (fun h => h ▸ List.mem_cons_self)
            fun h => List.mem_cons_of_mem c (subset_spanLabel closer t h)
        rw [spanLabel_of_after? hlong]
        refine ⟨⟨[], _, [], rfl, rfl, hlabel, by simp⟩, .inr ⟨?_, fun d hd => hsuffix.subset hd⟩⟩
        rcases hrest with ⟨hclosed, -⟩ | ⟨hnil, -⟩
        · have := length_le_of_spanLabel hclosed
          rw [hx, List.length_append, List.length_cons] at this
          omega
        · exact hnil

end Frame

/-! ## Labels between bars in a longer text -/

namespace Connector

theorem pipe?_eq_some_iff {t label rest : Text} : pipe? t = some (label, rest) ↔
    t = '|' :: (label ++ '|' :: rest) ∧ ∀ c ∈ label, (c != '|' && c != '\n') = true := by
  constructor
  · intro h
    refine ⟨by simpa using eq_append_of_pipe? h, ?_⟩
    unfold pipe? at h
    split at h
    · split at h
      · cases h
        intro c hc
        have := List.mem_takeWhile_imp hc
        simpa using this
      · cases h
    · cases h
  · rintro ⟨rfl, hlabel⟩
    simp only [pipe?, List.dropWhile_append_of_pos hlabel, List.takeWhile_append_of_pos hlabel]
    simp

theorem pipe?_append {t label rest : Text} (h : pipe? t = some (label, rest)) (u : Text) :
    pipe? (t ++ u) = some (label, rest ++ u) := by
  obtain ⟨rfl, hlabel⟩ := pipe?_eq_some_iff.1 h
  exact pipe?_eq_some_iff.2 ⟨by simp, hlabel⟩

/-- A label that is read only in the longer text ends behind the shorter one. -/
theorem length_lt_of_pipe?_append {t u label rest : Text} (hne : t ≠ []) (h : pipe? t = none)
    (hu : pipe? (t ++ u) = some (label, rest)) :
    t.length < label.length + 2 ∧ '|' ∈ u := by
  obtain ⟨heq, hlabel⟩ := pipe?_eq_some_iff.1 hu
  obtain ⟨c, t, rfl⟩ := List.exists_cons_of_ne_nil hne
  rw [List.cons_append, List.cons_eq_cons] at heq
  obtain ⟨rfl, heq⟩ := heq
  rcases List.append_eq_append_iff.1 heq with ⟨x, hx, hu⟩ | ⟨x, hx, hu⟩
  · refine ⟨?_, hu ▸ by simp⟩
    have := congrArg List.length hx
    simp only [List.length_append, List.length_cons] at this ⊢
    omega
  · cases x with
    | nil =>
      refine ⟨by simp [hx], ?_⟩
      rw [List.nil_append] at hu
      exact hu ▸ List.mem_cons_self
    | cons a x =>
      obtain ⟨rfl, -⟩ := List.cons_eq_cons.1 hu
      rw [pipe?_eq_some_iff.2 ⟨by rw [hx], hlabel⟩] at h
      cases h

end Connector

theorem lexemes_pipe {label : Text} (h : ∀ c ∈ label, (c != '|' && c != '\n') = true) (u : Text) :
    lexemes ('|' :: (label ++ '|' :: u)) = .pipe label :: lexemes u := by
  rw [lexemes_cons, Lexeme.read, Connector.token?_cons_of_not_stroke _ (by decide),
    Reference.read?, show leadingId ('|' :: (label ++ '|' :: u)) = [] from rfl,
    Connector.pipe?_eq_some_iff.2 ⟨rfl, h⟩]
  rfl

/-! ## Inert characters behind a text -/

/-- Two references are the same up to the ends of their labels. -/
structure Reference.SameUpToEnd (w : Text) (n n' : Reference) : Prop where
  id : n'.id = n.id
  frame : Option.Rel (fun f f' => f'.shape = f.shape ∧
    Frame.SameUpToEnd f.shape.closer w f.label f'.label) n.frame n'.frame

theorem Reference.SameUpToEnd.mark {w : Text} {n n' : Reference} (h : n.SameUpToEnd w n') :
    n'.mark = n.mark := by
  have hbare : n'.bare = n.bare := by
    have := h.frame
    unfold bare
    cases hn : n.frame <;> cases hn' : n'.frame <;> simp_all
  rw [Reference.mark, h.id, hbare]
  rfl

theorem Reference.SameUpToEnd.refl (w : Text) (n : Reference) : n.SameUpToEnd w n where
  id := rfl
  frame := by
    cases n.frame with
    | none => exact .none
    | some f => exact .some ⟨rfl, f.label, [], [], by simp⟩

/-- The reference that a text opens with stays up to the end of its label; what is left of a label
that is not closed is inert. -/
theorem Reference.read?_append_inert {u w : Text} {n : Reference} {rest : Text}
    (hu : Connector.Free u) (hw : ∀ c ∈ w, Inert c) (h : read? u = some (n, rest)) :
    ∃ n' rest', read? (u ++ w) = some (n', rest') ∧ n.SameUpToEnd w n' ∧
      (rest' = rest ++ w ∨ (rest = [] ∧ ∀ c ∈ rest', c ∈ w)) := by
  cases w with
  | nil =>
    exact ⟨n, rest, by rwa [List.append_nil], .refl [] n, .inl (List.append_nil rest).symm⟩
  | cons d w =>
    have hd := hw d List.mem_cons_self
    have hhead : ∀ c ∈ (d :: w).head?, isIdChar c = false := by
      rintro c ⟨⟩
      exact hd.not_id
    have hopen := Shape.open?_append hd.not_opener (afterId u) w
    unfold read? at h ⊢
    rw [leadingId_append_stop u hhead, afterId_append_stop u hhead]
    split at h
    · cases h
    · rename_i hne
      rw [if_neg hne]
      cases hshape : Shape.open? (afterId u) with
      | none =>
        rw [hshape] at hopen
        simp only [Frame.read?, hshape, hopen, Option.map_none] at h ⊢
        cases h
        exact ⟨_, _, rfl, .refl _ _, .inl rfl⟩
      | some p =>
        obtain ⟨shape, inner⟩ := p
        rw [hshape] at hopen
        simp only [Frame.read?, hshape, hopen, Option.map_some] at h ⊢
        cases h
        have hopened : inner <:+ afterId u :=
          ⟨shape.opener, (Shape.eq_append_of_open? hshape).symm⟩
        have hinner : Connector.Free inner :=
          hu.suffix (hopened.trans (List.dropWhile_suffix isIdChar))
        obtain ⟨hlabel, hrest⟩ :=
          @Frame.spanLabel_append_inert shape.closer _ _ hinner hw
        exact ⟨_, _, rfl, ⟨rfl, .some ⟨rfl, hlabel⟩⟩, hrest.imp_left And.right⟩

theorem Reference.read?_append_eq_none {c : Char} {t : Text} (h : read? (c :: t) = none)
    (u : Text) : read? (c :: (t ++ u)) = none := by
  have hid : leadingId (c :: t) = [] := by
    unfold read? at h
    split at h
    · simpa using ‹(leadingId (c :: t)).isEmpty = true›
    · split at h <;> cases h
  have hc : isIdChar c = false := by
    by_contra hc
    simp [leadingId, hc] at hid
  rw [read?, show leadingId (c :: (t ++ u)) = [] by simp [leadingId, hc]]
  rfl

/-- A lexeme stays as it is with more text behind it, if it is no connector, the reference stays,
and no bar in what follows closes a label. -/
theorem Lexeme.read_append_text {c : Char} {t w : Text} (h : Connector.token? (c :: t) = none)
    (h' : Connector.token? (c :: (t ++ w)) = none)
    (hnode : Reference.read? (c :: (t ++ w)) =
      (Reference.read? (c :: t)).map fun p => (p.1, p.2 ++ w))
    (hpipe : Connector.pipe? (c :: t) = none → Connector.pipe? (c :: (t ++ w)) = none) :
    read c (t ++ w) = ((read c t).1, (read c t).2 ++ w) := by
  rw [read, read, h, h', hnode]
  cases Reference.read? (c :: t) with
  | some p => rfl
  | none =>
    cases hp : Connector.pipe? (c :: t) with
    | some p =>
      have hp' := Connector.pipe?_append hp w
      rw [List.cons_append] at hp'
      rw [hp']
      rfl
    | none =>
      rw [hpipe hp]
      rfl

/-- A lexeme is read as a connector, else as a reference, else as a label between bars, and else it
is a character of none of these. -/
theorem Lexeme.read_cases {c : Char} {t rest : Text} {l : Lexeme} (h : read c t = (l, rest)) :
    (∃ token, l = connector token ∧ Connector.token? (c :: t) = some (token, rest)) ∨
      Connector.token? (c :: t) = none ∧
        ((∃ n, l = node n ∧ Reference.read? (c :: t) = some (n, rest)) ∨
          (∃ label, l = pipe label ∧ Connector.pipe? (c :: t) = some (label, rest)) ∨
          l = stray c ∧ rest = t ∧ Reference.read? (c :: t) = none) := by
  unfold read at h
  split at h
  · rename_i htoken
    cases h
    exact .inl ⟨_, rfl, htoken⟩
  · rename_i htoken
    refine .inr ⟨htoken, ?_⟩
    split at h
    · rename_i hnode
      cases h
      exact .inl ⟨_, rfl, hnode⟩
    · rename_i hnode
      split at h
      · rename_i hpipe
        cases h
        exact .inr (.inl ⟨_, rfl, hpipe⟩)
      · cases h
        exact .inr (.inr ⟨rfl, rfl, hnode⟩)

theorem Lexeme.token?_of_read {c : Char} {t token rest : Text}
    (h : read c t = (connector token, rest)) : Connector.token? (c :: t) = some (token, rest) := by
  rcases read_cases h with ⟨_, he, htoken⟩ | ⟨-, ⟨_, he, -⟩ | ⟨_, he, -⟩ | ⟨he, -⟩⟩ <;> cases he
  exact htoken

theorem Lexeme.read?_of_read {c : Char} {t rest : Text} {n : Reference}
    (h : read c t = (node n, rest)) : Reference.read? (c :: t) = some (n, rest) := by
  rcases read_cases h with ⟨_, he, -⟩ | ⟨-, ⟨_, he, hnode⟩ | ⟨_, he, -⟩ | ⟨he, -⟩⟩ <;> cases he
  exact hnode

theorem Lexeme.pipe?_of_read {c : Char} {t label rest : Text}
    (h : read c t = (pipe label, rest)) : Connector.pipe? (c :: t) = some (label, rest) := by
  rcases read_cases h with ⟨_, he, -⟩ | ⟨-, ⟨_, he, -⟩ | ⟨_, he, hpipe⟩ | ⟨he, -⟩⟩ <;> cases he
  exact hpipe

/-- What a lexeme leaves of a text is a shorter end of it. -/
theorem Lexeme.of_read {c : Char} {t rest : Text} {l : Lexeme} (h : read c t = (l, rest)) :
    c :: t = l.text ++ rest ∧ rest.length < (c :: t).length := by
  have hlength := length_read_lt c t
  have happend := (read_append c t).1
  rw [h] at hlength happend
  exact ⟨happend, hlength⟩

/-- Inert characters behind a text change the references of the text at the ends of their labels
only. -/
theorem map_references_append_inert {α : Type} {f : Reference → α} {u w : Text}
    (hu : Connector.Free u) (hw : ∀ c ∈ w, Inert c)
    (hf : ∀ n n', n ∈ references u → n.SameUpToEnd w n' → f n' = f n) :
    (references (u ++ w)).map f = (references u).map f := by
  induction hlen : u.length using Nat.strong_induction_on generalizing u with
  | _ k ih =>
    cases u with
    | nil => rw [List.nil_append, references_of_inert hw, references_nil]
    | cons c t =>
      subst hlen
      have htoken := hu.token?_suffix (List.suffix_refl _)
      have htoken' : Connector.token? (c :: (t ++ w)) = none :=
        (hu.token?_append_inert hw).resolve_right (by simp)
      have hsub : ∀ {l : Lexeme} {rest : Text}, Lexeme.read c t = (l, rest) →
          references rest ⊆ references (c :: t) := by
        intro l rest h
        rw [references_cons, h]
        exact List.subset_append_right _ _
      have ih : ∀ {l : Lexeme} {rest : Text}, Lexeme.read c t = (l, rest) →
          (references (rest ++ w)).map f = (references rest).map f := by
        intro l rest h
        obtain ⟨happend, hlength⟩ := Lexeme.of_read h
        exact ih _ hlength (hu.suffix ⟨_, happend.symm⟩) (fun n n' hn => hf n n' (hsub h hn)) rfl
      rw [List.cons_append, references_cons]
      cases hr : Reference.read? (c :: t) with
      | some p =>
        obtain ⟨n, rest⟩ := p
        obtain ⟨n', rest', hr', hsame, hrest⟩ := Reference.read?_append_inert hu hw hr
        have h : Lexeme.read c t = (.node n, rest) := by rw [Lexeme.read, htoken, hr]
        have h' : Lexeme.read c (t ++ w) = (.node n', rest') := by
          rw [Lexeme.read, htoken', ← List.cons_append, hr']
        have hn : f n' = f n := hf n n' (by rw [references_cons, h]; simp [Lexeme.node?]) hsame
        have hnodes : (references rest').map f = (references rest).map f := by
          rcases hrest with rfl | ⟨rfl, hinert⟩
          · exact ih h
          · rw [references_of_inert fun d hd => hw d (hinert d hd), references_nil]
        rw [references_cons c t, h, h']
        simp [Lexeme.node?, hn, hnodes]
      | none =>
        have hread : Lexeme.read c (t ++ w) = ((Lexeme.read c t).1, (Lexeme.read c t).2 ++ w) := by
          refine Lexeme.read_append_text htoken htoken' ?_ fun hp => ?_
          · rw [hr, Reference.read?_append_eq_none hr w]
            rfl
          · cases hp' : Connector.pipe? (c :: (t ++ w)) with
            | none => rfl
            | some p =>
              have hbar := (Connector.length_lt_of_pipe?_append (by simp) hp hp').2
              exact absurd rfl (hw _ hbar).not_bar
        obtain ⟨l, rest, h⟩ : ∃ l rest, Lexeme.read c t = (l, rest) := ⟨_, _, rfl⟩
        rw [references_cons c t, hread, h, List.map_append, List.map_append, ih h]

/-- Inert characters behind a text change neither the ids of its references nor which of these are
bare. -/
theorem marks_append_inert {u w : Text} (hu : Connector.Free u) (hw : ∀ c ∈ w, Inert c) :
    marks (u ++ w) = marks u :=
  map_references_append_inert hu hw fun _ _ _ h => h.mark

end Flowmend
