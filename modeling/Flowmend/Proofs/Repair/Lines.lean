import Flowmend.Proofs.Repair.Fresh
import Flowmend.Proofs.Repair.Visible

/-!
# The lines of a mended text

A line is `Legible` if it is not blank and holds no break. All lines of a mended document are
(`legible_of_mem_lines_mend`): they are put together from stretches of one line of the source, ids,
strokes and labels that are safe to show. So the text of the document is read as the lines that were
written (`lines_mend_text`).
-/

namespace Flowmend

open Text

/-! ## Legible lines -/

namespace Text

variable {l u : Text}

/-- The text is a line that is not blank, with blanks at its ends or without. -/
structure Legible (l : Text) : Prop where
  visible : Visible l
  oneLine : OneLine l

theorem IsLine.legible (h : IsLine l) : Legible l := ⟨h.visible, h.not_break⟩

theorem Legible.append_closing (h : Legible l) (hu : ∀ c ∈ u, c = ']') : Legible (l ++ u) where
  visible := h.visible.append_right u
  oneLine := h.oneLine.append fun c hc => hu c hc ▸ rfl

/-- Legible lines are read back from the text that they are written to. -/
theorem lines_unlines_of_legible {ls : List Text} (h : ∀ l ∈ ls, Legible l) :
    lines (unlines ls) = ls ∧
      numberedLines (unlines ls) = (ls.zipIdx 1).map fun (l, n) => (n, trim l) :=
  ⟨lines_unlines fun l hl => ⟨(h l hl).visible.ne_nil, (h l hl).oneLine⟩,
    numberedLines_unlines_of_oneLine fun l hl =>
      ⟨(h l hl).visible.trim.ne_nil, (h l hl).oneLine⟩⟩

end Text

/-! ## Statements -/

namespace Reference

theorem oneLine_mend {n : Reference} (hid : IsId n.id) (hn : OneLine n.text) :
    OneLine n.mend.value := by
  cases hf : n.frame with
  | none =>
    rw [mend, hf]
    exact hid.oneLine
  | some f => exact (isLine_mend hid hf hn).not_break

theorem oneLine_mendOpening {t : Text} (h : OneLine t) : OneLine (mendOpening t).value := by
  unfold mendOpening
  split
  · exact h
  · rename_i n rest hopening
    split
    · exact h
    · have hstretch : n.text ++ rest <:+: t := by
        rw [← (eq_append_of_read? hopening).1]
        exact (List.dropWhile_suffix isPad).isInfix
      have hnode := h.within ((List.prefix_append n.text rest).isInfix.trans hstretch)
      have hrest := h.within ((List.suffix_append n.text rest).isInfix.trans hstretch)
      exact (oneLine_mend (isId_of_read? hopening) hnode).append hrest

end Reference

theorem Placeholders.oneLine_candidate {stem : Text} (h : OneLine stem) (n : Nat) :
    OneLine (candidate stem n) := fun c hc => (mem_candidate hc).elim (h c) isBreak_of_isIdChar

section Statement

variable {s : Text} {supply : Placeholders}

theorem stem_mendLine (supply : Placeholders) (s : Text) :
    (mendLine supply s).2.stem = supply.stem := by
  rw [supply_mendLine, Placeholders.stem_after]

variable (hs : OneLine s) (hstem : OneLine supply.stem)

include hs hstem

theorem oneLine_of_mem_writtenEdges {e : WrittenEdge} (he : e ∈ writtenEdges supply s) :
    OneLine e.line := by
  have hproper := proper_of_mem_writtenEdges he
  unfold writtenEdges at he
  split at he
  · obtain ⟨p, hp, he⟩ := List.mem_filterMap.1 he
    cases p with
    | declaration n => cases he
    | edge source k target =>
      cases he
      have hnode : ∀ n, Token.node n ∈ tokens s → OneLine n.id := fun n hn =>
        (Statement.of_node_mem_tokens hs hn).1.oneLine
      obtain ⟨hsource, -, htarget⟩ := Statement.ends_of_edge_mem_pieces hnode
        (Placeholders.oneLine_candidate hstem) hp
      exact not_break_edgeLine hsource hproper.token hproper.label htarget
  · rename_i hrestated
    obtain ⟨e, hstrand, rfl⟩ := List.mem_map.1 he
    -- A chain that has edges and is not written again from its tokens has nodes on every side.
    have hlinks : (Chain.ofText s).links ≠ [] := by
      intro hnil
      rw [Chain.strands, hnil] at hstrand
      cases hstrand
    have hsides : [] ∉ (Chain.ofText s).sides := fun hside =>
      hrestated (.inr (.inr ⟨hlinks, hside⟩))
    exact (isLine_of_mem_strands hs hsides hstrand).not_break

theorem oneLine_of_mem_mendLine {l : Text} (hl : l ∈ (mendLine supply s).1.value) : OneLine l := by
  obtain ⟨nodes, hvalue, hnodes⟩ := exists_value_mendLine hs supply
  rw [hvalue] at hl
  rcases List.mem_append.1 hl with hl | hl
  · rcases hnodes l hl with rfl | ⟨n, hn, rfl⟩
    · exact Reference.oneLine_mendOpening hs
    · obtain ⟨hid, htext⟩ := Statement.of_node_mem_tokens hs hn
      exact Reference.oneLine_mend hid htext
  · obtain ⟨e, he, rfl⟩ := List.mem_map.1 hl
    exact oneLine_of_mem_writtenEdges hs hstem he

end Statement

/-! ## Documents -/

section Source

variable {usualHeader stem : Text} (hstem : OneLine stem) (source : Text)

include hstem

theorem oneLine_of_mem_mendedBody {l : Text} (hl : l ∈ mendedBody usualHeader stem source) :
    OneLine l := by
  have hsupply : OneLine ((Placeholders.ofStem stem).reserve (ids source)).stem := by
    rwa [Placeholders.stem_reserve]
  have hkeeps : ∀ {supply : Placeholders}, OneLine supply.stem → ∀ s,
      OneLine (mendLine supply s).2.stem := fun h s => (stem_mendLine _ s).symm ▸ h
  rcases of_mem_mendBody (P := fun supply => OneLine supply.stem) hkeeps hsupply hl with
    ⟨hmem, -⟩ | ⟨s, hs, -, -, supply, hstem, hl⟩
  · exact Opening.not_break_of_mem_body hmem
  · exact oneLine_of_mem_mendLine (Opening.not_break_of_mem_body hs) hstem hl

/-- All lines of a mended document are legible, if the header for documents without one is. -/
theorem legible_of_mem_lines_mend (husual : Legible usualHeader) {l : Text}
    (hl : l ∈ (mend usualHeader stem source).lines) : Legible l := by
  have hbody : ∀ k ∈ mendedBody usualHeader stem source, Legible k := fun k hk =>
    ⟨visible_of_mem_mendedBody usualHeader stem source hk,
      oneLine_of_mem_mendedBody hstem source hk⟩
  have hheader : Legible (Opening.ofSource usualHeader source).header := by
    rcases header_cases usualHeader stem source with ⟨-, heq⟩ | ⟨-, hline⟩
    · rw [heq]
      exact husual
    · exact hline.legible
  obtain ⟨u, rest, hu, hvalue, hrest, -⟩ := balance_append_cons (leadingComments source)
    (Opening.ofSource usualHeader source).header (mendedBody usualHeader stem source)
  rw [lines_mend_eq, hvalue] at hl
  rcases List.mem_append.1 hl with hl | hl
  · exact (of_mem_leadingComments hl).1.legible
  · rcases List.mem_cons.1 hl with rfl | hl
    · exact hheader.append_closing hu
    · rcases hrest l hl with ⟨-, hline⟩ | ⟨k, hk, v, hv, rfl⟩
      · exact hline.legible
      · exact (hbody k hk).append_closing hv

end Source

/-- The text of a mended document falls into its lines again, and none of them is blank. So all that
is read off the text is read off the lines: those that are not blank with their numbers, what the
text declares, and the kind that its first line that is no comment names. -/
theorem lines_mend_text (source : Text) (limit : Option Int) :
    let mended := mend "graph TD".toList "MissingNode".toList source
    lines mended.text = mended.lines ∧
      (∀ l ∈ mended.lines, Visible l) ∧
      numberedLines mended.text = (mended.lines.zipIdx 1).map (fun (l, n) => (n, trim l)) ∧
      Extract.draft limit mended.text =
        (mended.lines.map trim).foldl (Extract.Draft.addLine limit) ⟨[], []⟩ ∧
      Header.ofSource? mended.text =
        ((mended.lines.map trim).find? fun l => !isComment l).bind Header.kind? := by
  intro mended
  have husual : Legible "graph TD".toList :=
    IsLine.legible (isLine_of_isFlowchart ⟨.down, by decide⟩)
  have hstem : OneLine "MissingNode".toList := IsId.oneLine ⟨by decide, by decide⟩
  have hlegible : ∀ l ∈ mended.lines, Legible l := fun l hl =>
    legible_of_mem_lines_mend hstem source husual hl
  obtain ⟨hlines, hnumbered⟩ := lines_unlines_of_legible hlegible
  have hstatements : (numberedLines mended.text).map Prod.snd = mended.lines.map trim := by
    conv => rhs; rw [← List.zipIdx_map_fst 1 mended.lines, List.map_map]
    rw [Mended.text, hnumbered, List.map_map]
    rfl
  refine ⟨hlines, fun l hl => (hlegible l hl).visible, hnumbered, ?_, ?_⟩
  · rw [Extract.draft, hstatements]
  · rw [← hstatements, List.find?_map, Header.ofSource?]
    show _ = (((numberedLines mended.text).find? fun p => !isComment p.2).map Prod.snd).bind _
    cases (numberedLines mended.text).find? fun p => !isComment p.2 <;> rfl

/-- A line can open with a blank that is neither a space nor a tab, and is read without it. -/
example : (mend "graph TD".toList "MissingNode".toList "graph ;\u00a0A[x]".toList).lines =
    ["graph TD".toList, "\u00a0A[x]".toList] := by
  decide +kernel

end Flowmend
