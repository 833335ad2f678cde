import Flowmend.Proofs.Repair.Body
import Flowmend.Proofs.Repair.Written

/-!
# The lines of a mended document can be seen

A text is `Visible` if not all of it is blank. A mended document is the comments that open its
source, the header and the mended lines behind it, and all of these are visible but for a header
that was added (`exists_lines_mend_visible`). If such a header is left out, it is that line and no
other (`body?_of_headerAdded`), also where the document has it more than once.
-/

namespace Flowmend

/-! ## Texts -/

namespace Text

/-- Some character of the text is not blank. -/
def Visible (t : Text) : Prop := ∃ c ∈ t, isBlank c = false

variable {t u l : Text}

theorem allBlank_eq_false_iff : allBlank t = false ↔ Visible t := by
  simp [allBlank, Visible]

theorem Visible.ne_nil (h : Visible t) : t ≠ [] := by
  obtain ⟨c, hc, -⟩ := h
  exact List.ne_nil_of_mem hc

theorem Visible.mono (h : Visible t) (hu : t <:+: u) : Visible u := by
  obtain ⟨c, hc, hblank⟩ := h
  exact ⟨c, hu.subset hc, hblank⟩

theorem Visible.append_right (h : Visible t) (u : Text) : Visible (t ++ u) :=
  h.mono (List.prefix_append t u).isInfix

/-- What is trimmed off is blank. -/
theorem Visible.trim (h : Visible t) : Visible (trim t) := by
  obtain ⟨a, b, ht, ha, hb⟩ := exists_trim t
  obtain ⟨c, hc, hblank⟩ := h
  rw [ht, List.mem_append, List.mem_append] at hc
  rcases hc with (hc | hc) | hc
  · cases (ha c hc).symm.trans hblank
  · exact ⟨c, hc, hblank⟩
  · cases (hb c hc).symm.trans hblank

/-- What is left at the end of a line is visible, as the line is trimmed. -/
theorem IsLine.visible_of_suffix (h : IsLine l) (ht : t <:+ l) (hne : t ≠ []) : Visible t := by
  have hlast : t.getLast hne ∈ t.getLast? := List.getLast?_eq_some_getLast hne
  refine ⟨t.getLast hne, List.getLast_mem hne, h.trimmed.2 _ ?_⟩
  obtain ⟨p, rfl⟩ := ht
  rwa [List.getLast?_append_of_ne_nil p hne]

theorem IsLine.visible (h : IsLine l) : Visible l :=
  h.visible_of_suffix (List.suffix_refl l) h.ne_nil

theorem IsId.visible (h : IsId t) : Visible t := by
  obtain ⟨c, hc⟩ := List.exists_mem_of_ne_nil t h.ne_nil
  exact ⟨c, hc, isBlank_of_isIdChar (h.isIdChar c hc)⟩

theorem infix_unlines {ls : List Text} (h : l ∈ ls) : l <:+: unlines ls := by
  induction ls with
  | nil => cases h
  | cons m ls ih =>
    by_cases hls : ls = []
    · subst hls
      rw [List.mem_singleton.1 h]
      exact List.infix_refl m
    · rw [unlines_cons hls]
      rcases List.mem_cons.1 h with rfl | h
      · exact (List.prefix_append l _).isInfix
      · exact (ih h).trans ((List.suffix_cons '\n' _).trans (List.suffix_append m _)).isInfix

/-- Visible lines are a visible text, if there are any. -/
theorem visible_unlines {ls : List Text} (hne : ls ≠ []) (h : ∀ l ∈ ls, Visible l) :
    Visible (unlines ls) := by
  obtain ⟨l, hl⟩ := List.exists_mem_of_ne_nil ls hne
  exact (h l hl).mono (infix_unlines hl)

end Text

open Text

/-! ## Statements -/

/-- The line of an edge has its connector. -/
theorem WrittenEdge.Proper.visible {e : WrittenEdge} (h : e.Proper) : Visible e.line := by
  obtain ⟨c, hc⟩ := List.exists_mem_of_ne_nil e.token h.token.ne_nil
  refine ⟨c, ?_, Bool.eq_false_iff.2 fun hblank => ?_⟩
  · rw [WrittenEdge.line, edgeLine_eq]
    exact List.mem_append_right _ (List.mem_cons_of_mem _ (List.mem_append_left _ hc))
  · cases (h.token.isStroke c hc).symm.trans (inert_of_isBlank hblank).not_stroke

namespace Reference

/-- The line of a node has its id. -/
theorem visible_mend {n : Reference} (hid : IsId n.id) : Visible n.mend.value := by
  cases hf : n.frame with
  | none =>
    rw [mend, hf]
    exact hid.visible
  | some f =>
    rw [value_mend hf, framedText, List.append_assoc]
    exact hid.visible.append_right _

theorem visible_mendOpening {t : Text} (h : Visible t) : Visible (mendOpening t).value := by
  unfold mendOpening
  split
  · exact h
  · rename_i n rest hopening
    split
    · exact h
    · exact (visible_mend (isId_of_read? hopening)).append_right rest

end Reference

/-- The lines that take the place of a statement are visible, whatever the placeholders are. -/
theorem visible_of_mem_mendLine {s : Text} (hs : ∀ c ∈ s, isBreak c = false) (hvisible : Visible s)
    {supply : Placeholders} {l : Text} (hl : l ∈ (mendLine supply s).1.value) : Visible l := by
  obtain ⟨nodes, hvalue, hnodes⟩ := exists_value_mendLine hs supply
  rw [hvalue] at hl
  rcases List.mem_append.1 hl with hl | hl
  · rcases hnodes l hl with rfl | ⟨n, hn, rfl⟩
    · exact Reference.visible_mendOpening hvisible
    · exact Reference.visible_mend (Statement.of_node_mem_tokens hs hn).1
  · obtain ⟨e, he, rfl⟩ := List.mem_map.1 hl
    exact (proper_of_mem_writtenEdges he).visible

/-! ## Documents -/

/-- The comments that stand before the first line of a source that is none. -/
def leadingComments (source : Text) : List Text := source.statements.takeWhile isComment

theorem leadingComments_eq (source : Text) : leadingComments source =
    ((numberedLines source).takeWhile fun l => isComment l.2).map Prod.snd := by
  rw [leadingComments, statements, List.takeWhile_map]
  rfl

/-- The lines that are written behind the header for the lines of a source, before the brackets are
balanced. -/
def mendedBody (usualHeader stem source : Text) : List Text :=
  let opening := Opening.ofSource usualHeader source
  let m : Mender := ⟨usualHeader, (Placeholders.ofStem stem).reserve (ids source),
    opening.reason.toList⟩
  (m.mendBody opening.kind opening.body).1

section Source

variable (usualHeader stem source : Text)

theorem lines_mend_eq : (mend usualHeader stem source).lines =
    (balance (leadingComments source ++ (Opening.ofSource usualHeader source).header ::
      mendedBody usualHeader stem source)).value := by
  rw [leadingComments_eq]
  rfl

theorem visible_of_mem_mendedBody {l : Text} (hl : l ∈ mendedBody usualHeader stem source) :
    Visible l := by
  have hbody : ∀ s ∈ (Opening.ofSource usualHeader source).body.map Prod.snd, Visible s := by
    intro s hs
    obtain ⟨hne, line, hline, hsuffix, -⟩ := suffix_of_mem_body source hs
    exact hline.visible_of_suffix hsuffix hne
  -- The placeholders may be any texts: an edge is visible by its connector.
  rcases of_mem_mendBody (P := fun _ => True) (fun _ _ => trivial) trivial hl with
    ⟨hmem, -⟩ | ⟨s, hs, -, -, supply, -, hl⟩
  · exact hbody l hmem
  · exact visible_of_mem_mendLine (Opening.not_break_of_mem_body hs) (hbody s hs) hl

/-- The header was added, or it is a line of the source. -/
theorem header_cases :
    ((mend usualHeader stem source).headerAdded = true ∧
      (Opening.ofSource usualHeader source).header = usualHeader) ∨
    ((mend usualHeader stem source).headerAdded = false ∧
      IsLine (Opening.ofSource usualHeader source).header) := by
  have hadded : (mend usualHeader stem source).headerAdded =
      (Opening.ofSource usualHeader source).reason.isSome := rfl
  rw [hadded]
  unfold Opening.ofSource
  rcases Opening.ofLines_cases usualHeader
      ((numberedLines source).dropWhile fun l => isComment l.2) with
    ⟨n, first, rest, kind, hls, -, heq⟩ | ⟨n, reason, body, heq, -⟩
  · rw [heq]
    exact .inr ⟨rfl, isLine_of_mem_dropWhile source (p := (n, first)) (hls ▸ List.mem_cons_self)⟩
  · rw [heq]
    exact .inl ⟨rfl, rfl⟩

/-- A mended document is the comments that open its source, the header and visible lines, among them
all that are written behind the header, with closing brackets at most behind them. -/
theorem exists_lines_mend_visible : ∃ u rest, (∀ c ∈ u, c = ']') ∧
    (mend usualHeader stem source).lines =
      leadingComments source ++ ((Opening.ofSource usualHeader source).header ++ u) :: rest ∧
    (∀ l ∈ rest, Visible l) ∧
    ∀ k ∈ mendedBody usualHeader stem source, ∃ v, (∀ c ∈ v, c = ']') ∧ k ++ v ∈ rest := by
  obtain ⟨u, rest, hu, hvalue, hrest, hbody⟩ := balance_append_cons (leadingComments source)
    (Opening.ofSource usualHeader source).header (mendedBody usualHeader stem source)
  refine ⟨u, rest, hu, (lines_mend_eq usualHeader stem source).trans hvalue, fun l hl => ?_, hbody⟩
  rcases hrest l hl with ⟨-, hline⟩ | ⟨k, hk, v, -, rfl⟩
  · exact hline.visible
  · exact (visible_of_mem_mendedBody usualHeader stem source hk).append_right v

end Source

theorem of_mem_leadingComments {source l : Text} (hl : l ∈ leadingComments source) :
    IsLine l ∧ isComment l = true :=
  of_mem_comments source (leadingComments_eq source ▸ hl)

/-- The header that is left out is the line behind the comments that open the document. The same
line may stand behind it again, but it is no comment. -/
theorem Mended.body?_of_headerAdded {d : Mended} (hadded : d.headerAdded = true)
    {comments rest : List Text} {header : Text} (hcomments : ∀ l ∈ comments, isComment l = true)
    (hheader : isComment header = false) (hlines : d.lines = comments ++ header :: rest) :
    d.body? = some (unlines (comments ++ rest)) := by
  have hfind : d.header? = some header := by
    have hnone : comments.find? (fun l => !isComment l) = none :=
      List.find?_eq_none.2 fun l hl => by simp [hcomments l hl]
    rw [header?, hlines, List.find?_append, hnone, Option.none_or,
      List.find?_cons_of_pos (by simp [hheader])]
  have hnot : header ∉ comments := fun h => by simp [hcomments header h] at hheader
  rw [body?, if_pos hadded, hfind, hlines, Option.map_some, List.erase_append_right _ hnot,
    List.erase_cons_head]

end Flowmend
