import Flowmend.Proofs.Repair.Brackets
import Flowmend.Proofs.Repair.Placeholder
import Flowmend.Proofs.Repair.Restate
import Flowmend.Proofs.Repair.Strand

/-!
# The structure that mending keeps

A line of a flowchart is written again from its tokens, becomes one edge per line, or stays but for
the node that it opens with (`mendLine_cases`). `Keeps` says for each of these ways which nodes and
edges stand on the lines that take its place (`shown_mendLine`), and `Survives` which of those of a
whole source stand on the mended document (`in_mend_of_survives`), each node and each edge for
itself. So the graph of a source loses nothing but what does not survive (`mend_keeps_structure`).
-/

namespace Flowmend

open Text Extract

/-! ## One statement -/

/-- The line is written again from its tokens. -/
def IsRestated (s : Text) : Prop :=
  Defect.hasGluedNodes s = true ∨ Defect.hasBrokenConnector s = true ∨
    ((Chain.ofText s).links ≠ [] ∧ [] ∈ (Chain.ofText s).sides)

instance (s : Text) : Decidable (IsRestated s) := inferInstanceAs (Decidable (_ ∨ _ ∨ _))

/-- The node or edge is kept when the line is mended. A line that is written again keeps what its
tokens tell, and a line with connectors what one of its edges keeps. Any other line keeps all that
stands on it; if it starts with a blank, or cleaning the label of the node that it opens with brings
out a connector, it keeps what is read on it then. -/
inductive Keeps (s : Text) (item : Item) : Prop
  | restated (h : IsRestated s) (told : Statement.Told s item)
  | chain (h : ¬IsRestated s) {e : Strand} (edge : e ∈ (Chain.ofText s).strands)
    (keeps : e.Keeps item)
  | node (h : ¬IsRestated s) (free : Connector.Free s) (isLine : IsLine s)
    (mended : Connector.Free (Reference.mendOpening s).value) (on : item.On s)
  | exposed (h : ¬IsRestated s) (free : Connector.Free s)
    (mended : ¬(IsLine s ∧ Connector.Free (Reference.mendOpening s).value))
    (shown : item.Shown [(Reference.mendOpening s).value])

/-- The ways in which a line is mended. What is written again from its tokens is noted. -/
theorem mendLine_cases (supply : Placeholders) (s : Text) :
    (IsRestated s ∧ (mendLine supply s).1.value = (Statement.restate supply s).1.value ∧
        (mendLine supply s).2 = (Statement.restate supply s).2 ∧
        (mendLine supply s).1.repairs ≠ []) ∨
      (¬IsRestated s ∧ Connector.Free s ∧
        (mendLine supply s).1.value = [(Reference.mendOpening s).value] ∧
        (mendLine supply s).2 = supply ∧
        (mendLine supply s).1.repairs = (Reference.mendOpening s).repairs) ∨
      (¬IsRestated s ∧ (Chain.ofText s).links ≠ [] ∧ [] ∉ (Chain.ofText s).sides ∧
        (mendLine supply s).1.value = (Chain.ofText s).mend.value ∧
        (mendLine supply s).2 = supply ∧
        (mendLine supply s).1.repairs = (Chain.ofText s).mend.repairs) := by
  by_cases hglued : Defect.hasGluedNodes s = true
  · refine .inl ⟨.inl hglued, ?_⟩
    rw [mendLine, if_pos hglued]
    exact ⟨rfl, rfl, List.cons_ne_nil _ _⟩
  by_cases hbroken : Defect.hasBrokenConnector s = true
  · refine .inl ⟨.inr (.inl hbroken), ?_⟩
    rw [mendLine, if_neg hglued, if_pos hbroken]
    exact ⟨rfl, rfl, List.cons_ne_nil _ _⟩
  by_cases hlinks : (Chain.ofText s).links = []
  · have hnot : ¬IsRestated s := by
      rintro (h | h | ⟨h, -⟩)
      · exact hglued h
      · exact hbroken h
      · exact h hlinks
    refine .inr (.inl ⟨hnot, Chain.links_ofText_eq_nil.1 hlinks, ?_⟩)
    rw [mendLine, if_neg hglued, if_neg hbroken, if_pos (by simp [hlinks])]
    exact ⟨rfl, rfl, List.append_nil _⟩
  have hempty : ¬(Chain.ofText s).links.isEmpty = true := by simpa using hlinks
  have hany : (Chain.ofText s).sides.any List.isEmpty = true ↔ [] ∈ (Chain.ofText s).sides := by
    simp [List.any_eq_true]
  by_cases hside : [] ∈ (Chain.ofText s).sides
  · refine .inl ⟨.inr (.inr ⟨hlinks, hside⟩), ?_⟩
    rw [mendLine, if_neg hglued, if_neg hbroken, if_neg hempty, if_pos (hany.2 hside)]
    exact ⟨rfl, rfl, List.cons_ne_nil _ _⟩
  · have hnot : ¬IsRestated s := by
      rintro (h | h | ⟨-, h⟩)
      · exact hglued h
      · exact hbroken h
      · exact hside h
    refine .inr (.inr ⟨hnot, hlinks, hside, ?_⟩)
    rw [mendLine, if_neg hglued, if_neg hbroken, if_neg hempty, if_neg (mt hany.1 hside)]
    exact ⟨rfl, rfl, rfl⟩

/-- What is kept of a statement is shown by the lines that take its place. -/
theorem shown_mendLine {s : Text} (hs : ∀ c ∈ s, isBreak c = false)
    (hdirective : isDirective s = false) {item : Item} (hkeeps : Keeps s item)
    {supply : Placeholders} (hsupply : supply.Leading) :
    item.Shown (mendLine supply s).1.value := by
  rcases mendLine_cases supply s with ⟨h, hvalue, -⟩ | ⟨h, hfree, hvalue, -⟩ |
    ⟨h, hlinks, hsides, hvalue, -⟩
  · rw [hvalue]
    cases hkeeps with
    | restated _ told => exact shown_restate hs hsupply told
    | chain hnot | node hnot | exposed hnot => exact absurd h hnot
  · rw [hvalue]
    cases hkeeps with
    | restated h' => exact absurd h' h
    | chain _ edge =>
      rw [Chain.strands, Chain.links_ofText_eq_nil.2 hfree] at edge
      cases edge
    | node _ _ isLine mended on =>
      exact (on_mendOpening isLine hdirective hfree mended on).shown
        (Reference.isLine_mendOpening isLine) (List.mem_singleton_self _)
    | exposed _ _ _ shown => exact shown
  · rw [hvalue]
    cases hkeeps with
    | restated h' => exact absurd h' h
    | node _ free | exposed _ free => exact absurd (Chain.links_ofText_eq_nil.2 free) hlinks
    | chain _ edge keeps =>
      obtain ⟨hsource, htarget, htoken⟩ := isPart_of_mem_strands hs hsides edge
      rw [value_mend_ofText hs hsides]
      exact (keeps.on hsource htarget htoken).shown (isLine_of_mem_strands hs hsides edge)
        (List.mem_map_of_mem edge)

/-! ## The supply of placeholders -/

theorem Statement.leading_pieces {ts : List Token} {declared : List Text} {standing : Standing}
    {supply : Placeholders} (h : supply.Leading) :
    (pieces declared standing supply ts).2.Leading := by
  induction ts generalizing declared standing supply with
  | nil =>
    cases standing with
    | start | node => exact h
    | connector source k => exact h.next
  | cons t ts ih =>
    cases t with
    | node n => exact ih h
    | connector k =>
      cases standing with
      | node id => exact ih h
      | start | connector => exact ih h.next

theorem leading_mendLine {supply : Placeholders} (h : supply.Leading) (s : Text) :
    (mendLine supply s).2.Leading := by
  rcases mendLine_cases supply s with
    ⟨-, -, heq, -⟩ | ⟨-, -, -, heq, -⟩ | ⟨-, -, -, -, heq, -⟩
  · rw [heq]
    exact Statement.leading_pieces h
  · rwa [heq]
  · rwa [heq]

/-- The usual placeholders are numbered ids, and no words of directives. -/
theorem leading_missingNode : (Placeholders.ofStem "MissingNode".toList).Leading := by
  intro n
  have hhead : (Placeholders.candidate "MissingNode".toList n).head? = some 'M' := by
    unfold Placeholders.candidate
    split <;> rfl
  have hwords : ∀ w ∈ directiveWords, w.head? ≠ some 'M' := by decide
  exact ⟨Placeholders.isId_candidate ⟨by decide, by decide⟩ n, fun h => hwords _ h hhead⟩

/-! ## The body of a document -/

section Body

variable {m : Mender} {kind : DiagramKind} {body : List (Nat × Text)}

/-- The lines of a diagram that is no flowchart stay. -/
theorem mendBody_of_not_flowchart (hkind : kind.isFlowchart = false) :
    (m.mendBody kind body).1 = body.map Prod.snd := by
  induction body with
  | nil => rfl
  | cons p body ih =>
    obtain ⟨n, line⟩ := p
    rw [Mender.mendBody, if_pos (by simp [hkind])]
    exact congrArg (line :: ·) ih

/-- The lines that take the place of a statement stand in the mended body. -/
theorem exists_mendLine_subset (hkind : kind.isFlowchart = true) (hm : m.supply.Leading) {s : Text}
    (hs : s ∈ body.map Prod.snd) (hstatement : (isComment s || isDirective s) = false) :
    ∃ supply : Placeholders, supply.Leading ∧
      ∀ l ∈ (mendLine supply s).1.value, l ∈ (m.mendBody kind body).1 := by
  induction body generalizing m with
  | nil => cases hs
  | cons p body ih =>
    obtain ⟨n, line⟩ := p
    rw [Mender.mendBody]
    by_cases hstays : (!kind.isFlowchart || isComment line || isDirective line) = true
    · simp only [if_pos hstays]
      rcases List.mem_cons.1 hs with rfl | hs
      · rw [hkind, Bool.not_true, Bool.false_or, hstatement] at hstays
        cases hstays
      · obtain ⟨supply, hsupply, hsub⟩ := ih hm hs
        exact ⟨supply, hsupply, fun l hl => List.mem_cons_of_mem _ (hsub l hl)⟩
    · simp only [if_neg hstays]
      rcases List.mem_cons.1 hs with rfl | hs
      · exact ⟨m.supply, hm, fun l hl => List.mem_append_left _ hl⟩
      · have hnext : (m.mendLine n line).2.supply.Leading := leading_mendLine hm line
        obtain ⟨supply, hsupply, hsub⟩ := ih hnext hs
        exact ⟨supply, hsupply, fun l hl => List.mem_append_right _ (hsub l hl)⟩

end Body

/-! ## Documents -/

/-- The node or edge stands on the mended document: on the header that the source has or gets, on a
line behind it that stays, as the diagram is no flowchart, or a statement of the source keeps it. -/
inductive Survives (usualHeader source : Text) (item : Item) : Prop
  | header (shown : item.Shown [(Opening.ofSource usualHeader source).header])
  | other (kind : (Opening.ofSource usualHeader source).kind.isFlowchart = false)
    (shown : item.Shown ((Opening.ofSource usualHeader source).body.map Prod.snd))
  | statement {s : Text} (mem : s ∈ (Opening.ofSource usualHeader source).statements)
    (keeps : Keeps s item)

/-- What survives is in the graph of the mended document. -/
theorem in_mend_of_survives {usualHeader source : Text} {item : Item}
    (h : Survives usualHeader source item) (limit : Option Int) :
    item.In (Graph.extract limit (mend usualHeader "MissingNode".toList source).text) := by
  obtain ⟨m, hm, hlines⟩ := exists_lines_mend usualHeader "MissingNode".toList source
  have hleading : m.supply.Leading := hm ▸ Placeholders.leading_reserve leading_missingNode _
  rw [Mended.text, hlines, Graph.extract_balance, Item.in_extract_unlines]
  refine Item.Shown.mono ?_ fun l hl => List.mem_append_right _ hl
  cases h with
  | header shown => exact shown.mono fun l hl => List.mem_singleton.1 hl ▸ List.mem_cons_self
  | other kind shown =>
    rw [← mendBody_of_not_flowchart (m := m) kind] at shown
    exact shown.mono fun l hl => List.mem_cons_of_mem _ hl
  | statement mem keeps =>
    obtain ⟨hkind, hs, hstatement⟩ := Opening.mem_statements.1 mem
    obtain ⟨-, l, hl, hsuffix, -⟩ := suffix_of_mem_body source hs
    obtain ⟨supply, hsupply, hsub⟩ := exists_mendLine_subset hkind hleading hs hstatement
    have hbreak := fun c hc => hl.not_break c (hsuffix.subset hc)
    exact (shown_mendLine hbreak (Bool.or_eq_false_iff.1 hstatement).2 keeps hsupply).mono
      fun l hl => List.mem_cons_of_mem _ (hsub l hl)

/-- The node or edge is in the graph of the source and not in that of the mended document. -/
def Lost (source : Text) (item : Item) : Prop :=
  item.In (Graph.extract (some 40) source) ∧
    ¬item.In (Graph.extract (some 40) (mend "graph TD".toList "MissingNode".toList source).text)

instance (source : Text) (item : Item) : Decidable (Lost source item) :=
  inferInstanceAs (Decidable (_ ∧ _))

end Flowmend
