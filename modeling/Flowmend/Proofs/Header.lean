import Flowmend.Header
import Flowmend.Proofs.Text.Runs
import Mathlib.Data.List.Infix

/-!
# Lines that open with an id

`Reserved` ids are the words by which a whole line is recognised. A line that opens with any other
id is a statement from its first character on:

* `isComment_append`, `isDirective_append`: it is neither a comment nor a directive.
* `Header.skip_append`: no header is left out of it.

So is a line that opens with a framed node (`Header.skip_append_bracket`). A space with no word
behind it does not change which header a line opens with (`Header.skip_append_space`).

The headers of flowcharts, on the other hand, are read as headers and nothing else
(`Header.kind?_of_isFlowchart`, `Header.line_of_isFlowchart`).
-/

namespace Flowmend

open Text

/-- The flowchart keywords in lower case. -/
def flowchartWords : List Text := ["graph".toList, "flowchart".toList]

/-- A directive word, a header, or a flowchart keyword in any case. -/
def Reserved (id : Text) : Prop :=
  id ∈ directiveWords ∨ id ∈ Header.table.map Prod.fst ∨ id.map Char.toLower ∈ flowchartWords

instance (id : Text) : Decidable (Reserved id) :=
  inferInstanceAs (Decidable (_ ∨ _ ∨ _))

theorem isIdChar_of_mem_directiveWords : ∀ w ∈ directiveWords, ∀ c ∈ w, isIdChar c = true := by
  decide

theorem isIdChar_of_mem_flowchartWords : ∀ w ∈ flowchartWords, ∀ c ∈ w, isIdChar c = true := by
  decide

/-! ## Prefixes of a line -/

theorem exists_cons_of_leadingId {t : Text} (h : leadingId t ≠ []) :
    ∃ c u, t = c :: u ∧ isIdChar c = true := by
  cases t with
  | nil => exact absurd rfl h
  | cons c u =>
    refine ⟨c, u, rfl, ?_⟩
    by_contra hc
    exact h (by simp [leadingId, hc])

section Line

variable {id u : Text}

/-- A word that the line starts with is the id of the line, or a beginning of it. -/
theorem id_eq_append {p rest : Text} (hid : ∀ c ∈ id, isIdChar c = true)
    (hu : ∀ c ∈ u.head?, isIdChar c = false) (hp : ∀ c ∈ p, isIdChar c = true)
    (h : id ++ u = p ++ rest) : id = p ++ leadingId rest := by
  have hl := congrArg leadingId h
  rw [leadingId_append hid hu] at hl
  rw [hl, leadingId, List.takeWhile_append_of_pos hp, leadingId]

/-- A line that opens with an id is no comment. -/
theorem isComment_append (hid : IsId id) (u : Text) : isComment (id ++ u) = false := by
  obtain ⟨c, t, rfl⟩ := List.exists_cons_of_ne_nil hid.ne_nil
  have hc : c ≠ '%' := ne_of_isIdChar (hid.isIdChar c List.mem_cons_self) (by decide)
  simp [isComment, startsWith, after?, Ne.symm hc]

/-- A line that opens with an unreserved id is no directive. -/
theorem isDirective_append (hid : IsId id) (hr : ¬Reserved id)
    (hu : ∀ c ∈ u.head?, isIdChar c = false) : isDirective (id ++ u) = false := by
  rw [isDirective, List.any_eq_false]
  intro w hw
  unfold opensWithWord
  cases h : after? w (id ++ u) with
  | none => simp
  | some rest =>
    have heq := id_eq_append hid.isIdChar hu (isIdChar_of_mem_directiveWords w hw)
      (eq_append_of_after? h)
    by_cases hl : leadingId rest = []
    · rw [hl, List.append_nil] at heq
      exact absurd (.inl (heq ▸ hw)) hr
    · obtain ⟨c, v, rfl, hc⟩ := exists_cons_of_leadingId hl
      simp [opensWord, isWord_of_isIdChar hc]

namespace Header

/-- A header is one word, or opens with a flowchart keyword and a space. -/
theorem word_or_keyword_of_mem_table : ∀ p ∈ table.map Prod.fst,
    (∀ c ∈ p, isIdChar c = true) ∨ ∃ w ∈ flowchartWords, (after? (w ++ [' ']) p).isSome = true := by
  decide

theorem isIdChar_of_toLower {c : Char} (h : isIdChar c.toLower = true) : isIdChar c = true := by
  unfold Char.toLower at h
  split at h
  · rename_i hc
    obtain ⟨h₁, h₂⟩ := hc
    rw [ge_iff_le, UInt32.le_iff_toNat_le] at h₁
    rw [UInt32.le_iff_toNat_le] at h₂
    exact isIdChar_iff.2 (.inr (.inl ⟨h₁, h₂⟩))
  · exact h

/-- A flowchart keyword in any case consists of id characters. -/
theorem isIdChar_of_mem_keyword {p : Text} (hp : p.map Char.toLower ∈ flowchartWords) :
    ∀ c ∈ p, isIdChar c = true := fun _ hc =>
  isIdChar_of_toLower (isIdChar_of_mem_flowchartWords _ hp _ (List.mem_map_of_mem hc))

theorem eq_append_of_afterAnyCase? {w t rest : Text} (h : afterAnyCase? w t = some rest) :
    ∃ p, t = p ++ rest ∧ p.map Char.toLower = w := by
  induction w generalizing t with
  | nil => exact ⟨[], by simpa [afterAnyCase?] using h, rfl⟩
  | cons a w ih =>
    cases t with
    | nil => simp [afterAnyCase?] at h
    | cons c t =>
      simp only [afterAnyCase?, Option.ite_none_right_eq_some] at h
      obtain ⟨rfl, h⟩ := h
      obtain ⟨p, rfl, rfl⟩ := ih h
      exact ⟨c :: p, rfl, rfl⟩

/-- What follows a flowchart keyword is the end of the text behind it. -/
theorem eq_append_of_afterWord? {t rest : Text} (h : afterWord? t = some rest) :
    ∃ p, t = p ++ rest ∧ p.map Char.toLower ∈ flowchartWords := by
  simp only [afterWord?, Option.orElse_eq_orElse, Option.orElse_eq_or,
    Option.or_eq_some_iff] at h
  rcases h with h | ⟨-, h⟩
  · obtain ⟨p, ht, hp⟩ := eq_append_of_afterAnyCase? h
    exact ⟨p, ht, hp ▸ by decide⟩
  · obtain ⟨p, ht, hp⟩ := eq_append_of_afterAnyCase? h
    exact ⟨p, ht, hp ▸ by decide⟩

/-- What is left of a line without its header is the end of the line, and no id goes on there. -/
theorem exists_apart_skip (line : Text) : ∃ u, line = u ++ skip line ∧ Apart u (skip line) := by
  have hdrop : ∀ u rest : Text, line = u ++ rest → (∀ c ∈ rest.head?, isIdChar c = false) →
      ∃ u, line = u ++ rest.dropWhile (fun c => c == ' ' || c == '\t' || c == ';') ∧
        Apart u (rest.dropWhile fun c => c == ' ' || c == '\t' || c == ';') := by
    intro u rest hline hrest
    refine ⟨_, ?_, (Apart.of_head (t := u) hrest).dropWhile fun c hc => ?_⟩
    · rw [List.append_assoc, List.takeWhile_append_dropWhile]
      exact hline
    · simp only [Bool.or_eq_true, beq_iff_eq] at hc
      rcases hc with (rfl | rfl) | rfl <;> rfl
  unfold skip
  cases hread : read? line with
  | some p =>
    obtain ⟨q, -, hq⟩ := List.exists_of_findSome?_eq_some hread
    obtain ⟨rest, hrest, rfl⟩ := Option.map_eq_some_iff.1 hq
    obtain ⟨hafter, hends⟩ := Option.filter_eq_some_iff.1 hrest
    refine hdrop _ rest (eq_append_of_after? hafter) fun c hc => ?_
    by_contra hid
    rw [endsHeader, Option.mem_def.1 hc] at hends
    simp [isWord_of_isIdChar (show isIdChar c = true by simpa using hid)] at hends
  | none =>
    cases hkeyword : afterKeyword? line with
    | none => exact ⟨[], rfl, .of_last (by simp)⟩
    | some rest =>
      obtain ⟨hword, hends⟩ := Option.filter_eq_some_iff.1 hkeyword
      obtain ⟨p, hp, -⟩ := eq_append_of_afterWord? hword
      refine hdrop p rest hp fun c hc => ?_
      by_contra hid
      have hid : isIdChar c = true := by simpa using hid
      rw [Option.mem_def.1 hc] at hends
      have hsemicolon : isIdChar ';' = false := rfl
      simp [isBlank_of_isIdChar hid, ne_of_isIdChar hid hsemicolon] at hends

/-- What is left of a line without its header is the end of the line. -/
theorem skip_suffix (line : Text) : skip line <:+ line := by
  obtain ⟨u, hu, -⟩ := exists_apart_skip line
  exact ⟨u, hu.symm⟩

/-- No header is read at the start of a line that opens with an unreserved id. -/
theorem read?_append (hid : IsId id) (hr : ¬Reserved id)
    (hu : ∀ c ∈ u.head?, isIdChar c = false) : read? (id ++ u) = none := by
  refine List.findSome?_eq_none_iff.2 fun ⟨header, kind⟩ hmem => ?_
  have hmem : header ∈ table.map Prod.fst := List.mem_map_of_mem hmem
  cases h : after? header (id ++ u) with
  | none => simp only [h, Option.filter_none, Option.map_none]
  | some rest =>
    have hline := eq_append_of_after? h
    rcases word_or_keyword_of_mem_table header hmem with hword | ⟨w, hw, hkey⟩
    · have heq := id_eq_append hid.isIdChar hu hword hline
      by_cases hl : leadingId rest = []
      · rw [hl, List.append_nil] at heq
        exact absurd (.inr (.inl (heq ▸ hmem))) hr
      · obtain ⟨c, v, rfl, hc⟩ := exists_cons_of_leadingId hl
        simp [h, endsHeader, isWord_of_isIdChar hc]
    · obtain ⟨direction, hd⟩ := Option.isSome_iff_exists.1 hkey
      rw [eq_append_of_after? hd, List.append_assoc, List.append_assoc] at hline
      have hlower : ∀ w ∈ flowchartWords, w.map Char.toLower = w := by decide
      have heq := id_eq_append hid.isIdChar hu (isIdChar_of_mem_flowchartWords w hw) hline
      rw [show leadingId ([' '] ++ (direction ++ rest)) = [] from rfl, List.append_nil] at heq
      refine absurd (.inr (.inr ?_)) hr
      rw [heq, hlower w hw]
      exact hw

/-- No flowchart keyword is read at the start of a line that opens with an unreserved id. -/
theorem afterKeyword?_append (hid : IsId id) (hr : ¬Reserved id)
    (hu : ∀ c ∈ u.head?, isIdChar c = false) : afterKeyword? (id ++ u) = none := by
  refine Option.filter_eq_none_iff.2 fun rest hrest => ?_
  obtain ⟨p, hline, hp⟩ := eq_append_of_afterWord? hrest
  have heq := id_eq_append hid.isIdChar hu (isIdChar_of_mem_keyword hp) hline
  have hl : leadingId rest ≠ [] := by
    intro hl
    rw [hl, List.append_nil] at heq
    exact hr (.inr (.inr (heq ▸ hp)))
  obtain ⟨c, v, rfl, hc⟩ := exists_cons_of_leadingId hl
  have hsemi : c ≠ ';' := ne_of_isIdChar hc (by decide)
  simp [isBlank_of_isIdChar hc, hsemi]

/-- No header is left out of a line that opens with an unreserved id. -/
theorem skip_append (hid : IsId id) (hr : ¬Reserved id)
    (hu : ∀ c ∈ u.head?, isIdChar c = false) : skip (id ++ u) = id ++ u := by
  rw [skip, read?_append hid hr hu, afterKeyword?_append hid hr hu]
  rfl

/-- No header is left out of an unreserved id. -/
theorem skip_of_not_reserved (hid : IsId id) (hr : ¬Reserved id) : skip id = id := by
  have := skip_append hid hr (u := []) (by simp)
  rwa [List.append_nil] at this

/-- An id is a header as a whole or not at all. -/
theorem skip_of_isId (hid : IsId id) : skip id = [] ∨ skip id = id := by
  obtain ⟨u, hu, hapart⟩ := exists_apart_skip id
  by_cases hskip : skip id = []
  · exact .inl hskip
  by_cases hnil : u = []
  · right
    conv => rhs; rw [hu, hnil, List.nil_append]
  · have hchar : ∀ c, c ∈ u ∨ c ∈ skip id → isIdChar c = true := fun c hc =>
      hid.isIdChar c (hu ▸ List.mem_append.2 hc)
    have := hapart _ (List.getLast?_eq_some_getLast hnil) _ (List.head?_eq_some_head hskip)
      (hchar _ (.inl (List.getLast_mem hnil)))
    rw [hchar _ (.inr (List.head_mem hskip))] at this
    cases this

end Header

end Line

/-! ## Lines that go on behind a text -/

section Append

variable {c : Char}

theorem isComment_append_stop (t : Text) (hc : c ≠ '%') (u : Text) :
    isComment (t ++ c :: u) = isComment t := by
  rw [isComment, startsWith, after?_append_stop t (by simpa using hc), Option.isSome_map]
  rfl

theorem opensWord_append_stop (t : Text) (hc : isWord c = false) (u : Text) :
    opensWord (t ++ c :: u) = opensWord t := by
  cases t with
  | nil => simpa [opensWord] using hc
  | cons d t => rfl

theorem isDirective_append_stop (t : Text) (hc : isWord c = false) (u : Text) :
    isDirective (t ++ c :: u) = isDirective t := by
  have hmem : ∀ w ∈ directiveWords, c ∉ w := by
    intro w hw hmem
    rw [isWord_of_isIdChar (isIdChar_of_mem_directiveWords w hw c hmem)] at hc
    cases hc
  unfold isDirective
  rw [Bool.eq_iff_iff, List.any_eq_true, List.any_eq_true]
  refine exists_congr fun w => and_congr_right fun hw => ?_
  unfold opensWithWord
  rw [after?_append_stop t (hmem w hw), Option.any_map]
  simp only [opensWord_append_stop _ hc]

/-- An id alone is a directive only if it is the word of one. -/
theorem isDirective_of_isId {id : Text} (hid : IsId id) (h : id ∉ directiveWords) :
    isDirective id = false := by
  rw [isDirective, List.any_eq_false]
  intro w hw
  unfold opensWithWord
  cases hafter : after? w id with
  | none => simp
  | some rest =>
    cases rest with
    | nil =>
      have := eq_append_of_after? hafter
      rw [List.append_nil] at this
      exact absurd (this ▸ hw) h
    | cons d rest =>
      have hd : d ∈ id := by
        rw [eq_append_of_after? hafter]
        simp
      simp [opensWord, isWord_of_isIdChar (hid.isIdChar d hd)]

namespace Header

theorem afterAnyCase?_append_stop {w : Text} (t : Text) (hc : c.toLower ∉ w) (u : Text) :
    afterAnyCase? w (t ++ c :: u) = (afterAnyCase? w t).map (· ++ c :: u) := by
  induction w generalizing t with
  | nil => rfl
  | cons a w ih =>
    simp only [List.mem_cons, not_or] at hc
    cases t with
    | nil => simp [afterAnyCase?, Ne.symm hc.1]
    | cons d t =>
      by_cases had : a = d.toLower
      · simpa [afterAnyCase?, had] using ih t hc.2
      · simp [afterAnyCase?, had]

/-- The flowchart keyword is read up to a character that it does not have. -/
theorem afterWord?_append_stop (t : Text) (hc : ∀ w ∈ flowchartWords, c.toLower ∉ w) (u : Text) :
    afterWord? (t ++ c :: u) = (afterWord? t).map (· ++ c :: u) := by
  have h₁ := afterAnyCase?_append_stop t (hc "graph".toList (by decide)) u
  have h₂ := afterAnyCase?_append_stop t (hc "flowchart".toList (by decide)) u
  unfold afterWord?
  rw [h₁, h₂]
  cases afterAnyCase? "graph".toList t <;> rfl

/-- What is read as the header stays, with what follows behind the rest, if no header ends later and
each one ends there. -/
theorem read?_append_of_after? {t w : Text}
    (hafter : ∀ p ∈ table.map Prod.fst, after? p (t ++ w) = (after? p t).map (· ++ w))
    (hends : endsHeader w = true) :
    read? (t ++ w) = (read? t).map fun p => (p.1, p.2 ++ w) := by
  have hrest : ∀ r : Text, endsHeader (r ++ w) = endsHeader r := by
    intro r
    cases r with
    | nil => exact hends
    | cons d r => rfl
  unfold read?
  generalize table = ps at hafter
  induction ps with
  | nil => rfl
  | cons p ps ih =>
    obtain ⟨header, kind⟩ := p
    have ih := ih fun q hq => hafter q (List.mem_cons_of_mem _ hq)
    have hafter := hafter header List.mem_cons_self
    rw [List.findSome?_cons, List.findSome?_cons]
    simp only [hafter]
    cases after? header t with
    | none => exact ih
    | some r =>
      simp only [Option.map_some, Option.filter_some, hrest]
      by_cases hr : endsHeader r
      · simp only [hr, if_true, Option.map_some]
      · simp only [hr, Bool.false_eq_true, if_false, Option.map_none]
        exact ih

/-- A character with no part in headers, behind the line, changes neither what is read as the header
nor what the header leaves. -/
theorem read?_append_stop (t : Text) (hc : ∀ p ∈ table.map Prod.fst, c ∉ p)
    (hends : endsHeader [c] = true) (u : Text) :
    read? (t ++ c :: u) = (read? t).map fun p => (p.1, p.2 ++ c :: u) :=
  read?_append_of_after? (fun p hp => after?_append_stop t (hc p hp) u) hends

section Bracket

variable {id : Text} (hid : IsId id) (hc : c = '[' ∨ c = '(' ∨ c = '{')

include hid hc

/-- After any beginning of the id, the line goes on with a word or the bracket. -/
theorem exists_cons_of_bracket {p r : Text} (hr : id = p ++ r) (u : Text) :
    ∃ d v, r ++ c :: u = d :: v ∧ (isWord d = true ∨ d = c) ∧ isBlank d = false ∧ d ≠ ';' := by
  cases r with
  | nil =>
    refine ⟨c, u, rfl, .inr rfl, ?_⟩
    rcases hc with rfl | rfl | rfl <;> decide
  | cons d r =>
    have hd := hid.isIdChar d (hr ▸ List.mem_append_right p List.mem_cons_self)
    exact ⟨d, r ++ c :: u, rfl, .inl (isWord_of_isIdChar hd), isBlank_of_isIdChar hd,
      ne_of_isIdChar hd (by decide)⟩

theorem read?_append_bracket (u : Text) : read? (id ++ c :: u) = none := by
  refine List.findSome?_eq_none_iff.2 fun ⟨header, kind⟩ hmem => ?_
  have hnot : ∀ p ∈ table.map Prod.fst, ∀ c, c = '[' ∨ c = '(' ∨ c = '{' → c ∉ p := by
    intro p hp c hc
    rcases hc with rfl | rfl | rfl <;> revert p <;> decide
  have hafter := after?_append_stop id (hnot header (List.mem_map_of_mem hmem) c hc) u
  rw [Option.map_eq_none_iff, hafter, Option.filter_eq_none_iff]
  intro rest hrest
  obtain ⟨r, hr, rfl⟩ := Option.map_eq_some_iff.1 hrest
  obtain ⟨d, v, hd, hword, -⟩ := exists_cons_of_bracket hid hc (eq_append_of_after? hr) u
  rw [hd]
  rcases hword with hword | rfl
  · simp [endsHeader, hword]
  · rcases hc with rfl | rfl | rfl <;> simp [endsHeader]

theorem afterKeyword?_append_bracket (u : Text) : afterKeyword? (id ++ c :: u) = none := by
  have hnot : ∀ w ∈ flowchartWords, c.toLower ∉ w := by
    rcases hc with rfl | rfl | rfl <;> decide
  rw [afterKeyword?, afterWord?_append_stop id hnot, Option.filter_eq_none_iff]
  intro rest hrest
  obtain ⟨r, hr, rfl⟩ := Option.map_eq_some_iff.1 hrest
  obtain ⟨p, hp, -⟩ := eq_append_of_afterWord? hr
  obtain ⟨d, v, hd, -, hblank, hsemi⟩ := exists_cons_of_bracket hid hc hp u
  rw [hd]
  simp [hblank, hsemi]

/-- A line that opens with a framed node holds no header. -/
theorem skip_append_bracket (u : Text) : skip (id ++ c :: u) = id ++ c :: u := by
  rw [skip, read?_append_bracket hid hc, afterKeyword?_append_bracket hid hc]
  rfl

end Bracket

end Header

end Append

/-! ## Lines that go on with a space and no word -/

namespace Header

section Space

variable {d : Char} (hd : isIdChar d = false)

include hd

/-- The words of a header are parted by a space, so no header goes on behind the one that no word
follows. -/
theorem after?_append_space {p : Text} (hp : p ∈ table.map Prod.fst) (t u : Text) :
    after? p (t ++ ' ' :: d :: u) = (after? p t).map (· ++ ' ' :: d :: u) := by
  cases hafter : after? p t with
  | some rest =>
    exact after?_eq_some_iff.2 (by rw [eq_append_of_after? hafter, List.append_assoc])
  | none =>
    rw [Option.map_none, Option.eq_none_iff_forall_not_mem]
    intro rest hrest
    rcases List.append_eq_append_iff.1 (eq_append_of_after? hrest) with ⟨x, hx, hu⟩ | ⟨x, hx, -⟩
    · -- The text ends within the header.
      have hspaces : ∀ p ∈ table.map Prod.fst, ∀ y ∈ p.tails, y.head? = some ' ' →
          y.tail.head?.any isIdChar = true := by decide
      cases x with
      | nil =>
        have hself : t = p ++ [] := by rw [hx, List.append_nil, List.append_nil]
        rw [after?_eq_some_iff.2 hself] at hafter
        cases hafter
      | cons c x =>
        obtain ⟨rfl, htail⟩ := List.cons_eq_cons.1 hu
        have hword := hspaces p hp (' ' :: x) ((List.mem_tails _ _).2 ⟨t, hx.symm⟩) rfl
        cases x with
        | nil => cases hword
        | cons e x =>
          obtain ⟨rfl, -⟩ := List.cons_eq_cons.1 htail
          simp [hd] at hword
    · rw [after?_eq_some_iff.2 hx] at hafter
      cases hafter

theorem read?_append_space (t u : Text) :
    read? (t ++ ' ' :: d :: u) = (read? t).map fun p => (p.1, p.2 ++ ' ' :: d :: u) :=
  read?_append_of_after? (fun _ hp => after?_append_space hd hp t u) rfl

end Space

theorem afterKeyword?_append_space (t u : Text) :
    afterKeyword? (t ++ ' ' :: u) = (afterKeyword? t).map (· ++ ' ' :: u) := by
  rw [afterKeyword?, afterWord?_append_stop t (by decide), afterKeyword?, Option.filter_map]
  cases afterWord? t with
  | none => rfl
  | some rest => cases rest <;> simp [Option.filter, isBlank]

/-- The header that a line opens with is left out of it also where the line goes on with a space and
no word. -/
theorem skip_append_space {d : Char} (hd : isIdChar d = false)
    (hstop : (d == ' ' || d == '\t' || d == ';') = false) (t u : Text) :
    skip (t ++ ' ' :: d :: u) = skip t ++ ' ' :: d :: u ∨
      (skip t = [] ∧ skip (t ++ ' ' :: d :: u) = d :: u) := by
  have hleft : ((read? (t ++ ' ' :: d :: u)).map Prod.snd <|> afterKeyword? (t ++ ' ' :: d :: u)) =
      ((read? t).map Prod.snd <|> afterKeyword? t).map (· ++ ' ' :: d :: u) := by
    rw [read?_append_space hd, afterKeyword?_append_space]
    cases read? t <;> rfl
  unfold skip
  rw [hleft]
  cases (read? t).map Prod.snd <|> afterKeyword? t with
  | none => exact .inl rfl
  | some rest =>
    rw [Option.map_some]
    simp only [List.dropWhile_append]
    split
    · rename_i hnil
      refine .inr ⟨List.isEmpty_iff.1 hnil, ?_⟩
      rw [List.dropWhile_cons_of_pos (by decide), List.dropWhile_cons_of_neg (by simp [hstop])]
    · exact .inl rfl

end Header

/-! ## Headers of flowcharts -/

namespace Header

/-- The text is one of the headers of flowcharts. -/
def IsFlowchart (header : Text) : Prop := ∃ direction, (header, .flowchart direction) ∈ table

theorem mem_flowchart {header : Text} (h : IsFlowchart header) :
    header ∈ (table.filter fun p => p.2.isFlowchart).map Prod.fst := by
  obtain ⟨direction, h⟩ := h
  exact List.mem_map.2 ⟨_, List.mem_filter.2 ⟨h, rfl⟩, rfl⟩

/-- The kind that the header of a flowchart names is a flowchart. -/
theorem kind?_of_isFlowchart {header : Text} (h : IsFlowchart header) :
    ∃ direction, kind? header = some (.flowchart direction) := by
  have hall : ∀ header ∈ (table.filter fun p => p.2.isFlowchart).map Prod.fst,
      kind? header = some (.flowchart .down) ∨ kind? header = some (.flowchart .across) := by
    decide
  rcases hall header (mem_flowchart h) with h | h
  · exact ⟨_, h⟩
  · exact ⟨_, h⟩

/-- The header of a flowchart is a line of a document, neither a comment nor a directive, and no
statement is left of it. -/
theorem line_of_isFlowchart {header : Text} (h : IsFlowchart header) :
    isComment header = false ∧ isDirective header = false ∧ skip header = [] := by
  have hall : ∀ header ∈ (table.filter fun p => p.2.isFlowchart).map Prod.fst,
      isComment header = false ∧ isDirective header = false ∧ skip header = [] := by
    decide
  exact hall header (mem_flowchart h)

end Header

end Flowmend
