import Flowmend.Proofs.Header
import Flowmend.Proofs.Repair.Balance
import Flowmend.Proofs.Repair.Statement

/-!
# Documents of tidy statements

A document whose lines are mended without a repair (`Mends`) is mended without a repair as a whole:
its header stays, each line gives way to what it becomes, and the brackets balance
(`mend_of_mends`). Tidy nodes and rows are such lines (`Reference.Tidy.mends`, `Row.Tidy.mends`).
-/

namespace Flowmend

open Text

/-! ## Characters of tidy statements -/

theorem isPlain_of_isStroke {c : Char} (h : Connector.isStroke c = true) :
    Label.isPlain c = true := by
  simp only [Connector.isStroke, Bool.or_eq_true, beq_iff_eq] at h
  rcases h with (((rfl | rfl) | rfl) | rfl) | rfl <;> decide

/-- All characters are printable, and there are as many closing square brackets as opening ones. -/
structure Even (t : Text) : Prop where
  isPlain : ∀ c ∈ t, Label.isPlain c = true
  count_eq : count '[' t = count ']' t

theorem Even.append {t u : Text} (ht : Even t) (hu : Even u) : Even (t ++ u) where
  isPlain c hc := by
    rcases List.mem_append.1 hc with hc | hc
    · exact ht.isPlain c hc
    · exact hu.isPlain c hc
  count_eq := by
    have h₁ := ht.count_eq
    have h₂ := hu.count_eq
    simp only [count, List.count_append] at h₁ h₂ ⊢
    omega

theorem even_of_no_bracket {t : Text} (h : ∀ c ∈ t, Label.isPlain c = true ∧ c ≠ '[' ∧ c ≠ ']') :
    Even t where
  isPlain c hc := (h c hc).1
  count_eq := by
    rw [count, count, List.count_eq_zero.2 fun hm => (h _ hm).2.1 rfl,
      List.count_eq_zero.2 fun hm => (h _ hm).2.2 rfl]

theorem even_flatMap {α : Type} {f : α → Text} {xs : List α} (h : ∀ x ∈ xs, Even (f x)) :
    Even (xs.flatMap f) := by
  induction xs with
  | nil => exact even_of_no_bracket (by simp)
  | cons x xs ih =>
    exact (h x List.mem_cons_self).append (ih fun y hy => h y (List.mem_cons_of_mem x hy))

theorem Label.Plain.even {l : Text} (h : Label.Plain l) : Even l := by
  refine even_of_no_bracket fun c hc => ⟨h.isPlain hc, ?_, ?_⟩ <;>
  · rintro rfl
    cases h.not_special hc

theorem Frame.Tidy.even_text {f : Frame} (hf : f.Tidy) : Even f.text := by
  obtain ⟨h₁, h₂⟩ := hf.plain.even
  rw [hf.text_eq]
  constructor
  · intro c hc
    simp only [List.mem_append] at hc
    rcases hc with hc | hc | hc
    · cases hs : f.shape <;> rw [hs] at hc <;> decide +revert
    · exact h₁ c hc
    · cases hs : f.shape <;> rw [hs] at hc <;> decide +revert
  · have : count '[' f.shape.opener + count '[' f.shape.closer =
        count ']' f.shape.opener + count ']' f.shape.closer := by
      cases f.shape <;> decide
    simp only [count, List.count_append] at h₂ this ⊢
    omega

theorem Reference.Tidy.even_text {n : Reference} (hn : n.Tidy) : Even n.text := by
  have hid : Even n.id := even_of_no_bracket fun c hc => by
    have := hn.id.isIdChar c hc
    exact ⟨Label.isPlain_of_isIdChar this, ne_of_isIdChar this (by decide),
      ne_of_isIdChar this (by decide)⟩
  unfold text
  cases hfr : n.frame with
  | none => simpa using hid
  | some f => exact hid.append (hn.frame f hfr).even_text

theorem IsGroup.even_text {ns : List Reference} (h : IsGroup ns) : Even (groupText ns) := by
  induction h with
  | single hn => exact hn.even_text
  | @cons n ns hn hns ih =>
    have hsep : Even [' ', '&', ' '] := even_of_no_bracket (by decide)
    rw [groupText_cons n hns.ne_nil]
    exact hn.even_text.append (hsep.append ih)

theorem Connector.Tidy.even_text {k : Connector} (hk : k.Tidy) : Even k.text := by
  have htoken : Even k.token := even_of_no_bracket fun c hc => by
    have := hk.token.isStroke c hc
    refine ⟨isPlain_of_isStroke this, ?_, ?_⟩ <;> rintro rfl <;> cases this
  have hbar : Even ['|'] := even_of_no_bracket (by decide)
  unfold Connector.text gap
  cases hl : k.label with
  | none => simpa using htoken
  | some l => exact htoken.append (hbar.append ((hk.label_plain l hl).even.append hbar))

theorem Row.Tidy.even_text {r : Row} (hr : r.Tidy) : Even r.text := by
  have hspace : Even [' '] := even_of_no_bracket (by decide)
  refine hr.first.even_text.append (even_flatMap fun h hh => ?_)
  have := (hspace.append (hr.hops h hh).connector.even_text).append
    (hspace.append (hr.hops h hh).nodes.even_text)
  simpa [Hop.text] using this

/-! ## Lines mended without a repair -/

/-- The line is a statement, without a repair `out` takes its place, and the brackets of `out`
balance. -/
structure Mends (line : Text) (out : List Text) : Prop where
  isLine : IsLine line
  isComment : isComment line = false
  isDirective : isDirective line = false
  mendLine : ∀ supply, mendLine supply line = (⟨out, []⟩, supply)
  even : ∀ l ∈ out, Even l

namespace Reference

variable {n : Reference}

/-- What the id of a node at the start of a line is followed by. -/
theorem Tidy.text_append (hn : n.Tidy) {u : Text} (hu : Ends u) :
    ∃ v, n.text ++ u = n.id ++ v ∧ ∀ c ∈ v.head?, isIdChar c = false := by
  cases hfr : n.frame with
  | none => exact ⟨u, by simp [text, hfr], fun c hc => (hu c hc).1⟩
  | some f =>
    refine ⟨f.text ++ u, by simp [text, hfr], fun c hc => ?_⟩
    rw [(hn.frame f hfr).text_eq, List.append_assoc, List.head?_append] at hc
    rcases f.shape.head?_opener with h | h | h <;> rw [h] at hc <;> cases hc <;> decide

/-- A line that opens with an unreserved node is a statement. -/
theorem Tidy.isStatement (hn : n.Tidy) (hr : ¬Reserved n.id) {u : Text} (hu : Ends u) :
    Flowmend.isComment (n.text ++ u) = false ∧ Flowmend.isDirective (n.text ++ u) = false ∧
      Header.skip (n.text ++ u) = n.text ++ u := by
  obtain ⟨v, hv, hhead⟩ := hn.text_append hu
  rw [hv]
  exact ⟨isComment_append hn.id v, isDirective_append hn.id hr hhead,
    Header.skip_append hn.id hr hhead⟩

theorem Tidy.isLine (hn : n.Tidy) : IsLine n.text :=
  ⟨hn.whole.text_ne_nil, hn.whole.trimmed_text,
    fun c hc => Label.isBreak_of_isPlain (hn.even_text.isPlain c hc)⟩

/-- A line that holds an unreserved node only stays as it is. -/
theorem Tidy.mends (hn : n.Tidy) (hr : ¬Reserved n.id) : Mends n.text [n.text] := by
  obtain ⟨hcomment, hdirective, -⟩ := hn.isStatement hr (u := []) (by simp [Ends])
  rw [List.append_nil] at hcomment hdirective
  refine ⟨hn.isLine, hcomment, hdirective, hn.mendLine_text, ?_⟩
  simpa using hn.even_text

end Reference

theorem Row.Tidy.text_ne_nil {r : Row} (hr : r.Tidy) : r.text ≠ [] := by
  obtain ⟨n, v, -, hn, htext, -⟩ := hr.exists_text
  simp [htext, hn.whole.text_ne_nil]

theorem IsGroup.getLast?_append {ns : List Reference} (h : IsGroup ns) (t : Text) :
    ∀ c ∈ (t ++ groupText ns).getLast?, isBlank c = false := by
  intro c hc
  rw [List.getLast?_append_of_ne_nil _ h.text_ne_nil] at hc
  exact h.trimmed_text.2 c hc

theorem Row.Tidy.trimmed_text {r : Row} (hr : r.Tidy) : Trimmed r.text := by
  constructor
  · intro c hc
    obtain ⟨n, v, -, hn, htext, -⟩ := hr.exists_text
    rw [htext, List.head?_append_of_ne_nil _ hn.whole.text_ne_nil] at hc
    exact hn.whole.trimmed_text.1 c hc
  · intro c hc
    -- The last group of the row ends it.
    obtain ⟨hs, h, hhs⟩ := List.eq_nil_or_concat r.hops |>.resolve_left hr.hops_ne_nil
    have hh := hr.hops h (by simp [hhs])
    refine hh.nodes.getLast?_append (groupText r.first ++ hs.flatMap Hop.text ++
      (' ' :: h.connector.text ++ [' '])) c ?_
    simpa [Row.text, hhs, Hop.text] using hc

theorem Row.Tidy.isLine {r : Row} (hr : r.Tidy) : IsLine r.text :=
  ⟨hr.text_ne_nil, hr.trimmed_text,
    fun c hc => Label.isBreak_of_isPlain (hr.even_text.isPlain c hc)⟩

/-- A row of unreserved nodes becomes the rows of its single edges. -/
theorem Row.Tidy.mends {r : Row} (hr : r.Tidy) (hids : ∀ n ∈ r.references, ¬Reserved n.id) :
    Mends r.text (r.split.map Row.text) := by
  obtain ⟨n, v, hmem, hn, htext, hv⟩ := hr.exists_text
  obtain ⟨hcomment, hdirective, -⟩ := hn.isStatement (hids n hmem) hv
  rw [← htext] at hcomment hdirective
  refine ⟨hr.isLine, hcomment, hdirective, hr.mendLine_text, fun l hl => ?_⟩
  obtain ⟨s, hs, rfl⟩ := List.mem_map.1 hl
  exact (hr.split s hs).even_text

/-! ## Documents -/

theorem count_unlines_eq {ls : List Text} (h : ∀ l ∈ ls, Even l) :
    count '[' (unlines ls) = count ']' (unlines ls) := by
  rw [count_unlines (by decide), count_unlines (by decide), ← List.flatMap_id]
  exact (even_flatMap h).count_eq

theorem balance_eq_pure {ls : List Text} (h : ∀ l ∈ ls, Even l) : balance ls = ⟨ls, []⟩ := by
  rw [balance, count_unlines_eq h]
  simp only [if_pos]
  rfl

theorem even_of_isFlowchart {header : Text} (h : Header.IsFlowchart header) : Even header := by
  have hall : ∀ header ∈ (Header.table.filter fun p => p.2.isFlowchart).map Prod.fst,
      ∀ c ∈ header, Label.isPlain c = true ∧ c ≠ '[' ∧ c ≠ ']' := by
    decide
  exact even_of_no_bracket (hall header (Header.mem_flowchart h))

theorem isLine_of_isFlowchart {header : Text} (h : Header.IsFlowchart header) : IsLine header := by
  have hall : ∀ header ∈ (Header.table.filter fun p => p.2.isFlowchart).map Prod.fst,
      header ≠ [] ∧ (∀ c ∈ header.head?, isBlank c = false) ∧
        ∀ c ∈ header.getLast?, isBlank c = false := by
    decide
  obtain ⟨hne, hhead, hlast⟩ := hall header (Header.mem_flowchart h)
  exact ⟨hne, ⟨hhead, hlast⟩,
    fun c hc => Label.isBreak_of_isPlain ((even_of_isFlowchart h).isPlain c hc)⟩

section Document

variable {α : Type} {line : α → Text} {out : α → List Text} {items : List α}

theorem mendBody_of_mends (h : ∀ a ∈ items, Mends (line a) (out a)) (m : Mender)
    {kind : DiagramKind} (hk : kind.isFlowchart = true) (n : Nat) :
    m.mendBody kind (((items.map line).zipIdx n).map fun (l, i) => (i, l)) =
      (items.flatMap out, m) := by
  induction items generalizing n with
  | nil => rfl
  | cons a items ih =>
    obtain ⟨-, hcomment, hdirective, hmend, -⟩ := h a List.mem_cons_self
    have ih := ih (fun b hb => h b (List.mem_cons_of_mem a hb)) (n + 1)
    simp only [List.map_cons, List.zipIdx_cons] at ih ⊢
    rw [Mender.mendBody, hk, hcomment, hdirective]
    simp only [Mender.mendLine, hmend, Noted.events, List.map_nil, List.append_nil, ih,
      List.flatMap_cons, Bool.not_true, Bool.or_self, Bool.false_eq_true, if_false]

/-- A document whose lines are mended without a repair is mended without a repair: its header stays
and each line gives way to what it becomes. -/
theorem mend_of_mends (h : ∀ a ∈ items, Mends (line a) (out a)) {header : Text}
    (hheader : Header.IsFlowchart header) (usualHeader stem : Text) :
    (mend usualHeader stem (unlines (header :: items.map line))).repairs = [] ∧
      (mend usualHeader stem (unlines (header :: items.map line))).lines =
        header :: items.flatMap out := by
  obtain ⟨direction, hkind⟩ := Header.kind?_of_isFlowchart hheader
  obtain ⟨hcomment, -, -⟩ := Header.line_of_isFlowchart hheader
  have hlines : ∀ l ∈ header :: items.map line, IsLine l := by
    intro l hl
    rcases List.mem_cons.1 hl with rfl | hl
    · exact isLine_of_isFlowchart hheader
    · obtain ⟨a, ha, rfl⟩ := List.mem_map.1 hl
      exact (h a ha).isLine
  have heven : ∀ l ∈ header :: items.flatMap out, Even l := by
    intro l hl
    rcases List.mem_cons.1 hl with rfl | hl
    · exact even_of_isFlowchart hheader
    · obtain ⟨a, ha, hl⟩ := List.mem_flatMap.1 hl
      exact (h a ha).even l hl
  have hread := numberedLines_unlines hlines
  have hbody := fun m =>
    mendBody_of_mends h m (rfl : (DiagramKind.flowchart direction).isFlowchart = true) 2
  rw [List.zipIdx_cons, List.map_cons] at hread
  simp only [mend, Mender.mend, hread, List.takeWhile_cons, List.dropWhile_cons, hcomment,
    Bool.false_eq_true, if_false, Opening.ofLines, hkind, hbody, List.map_nil, List.nil_append,
    balance_eq_pure heven, and_true]
  rfl

end Document

end Flowmend
