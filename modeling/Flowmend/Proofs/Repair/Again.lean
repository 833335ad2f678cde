import Flowmend.Proofs.Repair.AtRest
import Flowmend.Proofs.Repair.Header

/-!
# Mending a mended document

A mended document is comments, a header and lines of a body, and mending it again reads it so
(`mend_unlines`). Its kind is always the same, and where the statements of the source settle, it
stays as it is (`mend_again`).
-/

namespace Flowmend

open Text

/-! ## Documents with a header -/

/-- Closing brackets behind a line do not matter for the kind that it names. -/
theorem Header.kind?_append_closing {u : Text} (hu : ∀ c ∈ u, c = ']') (line : Text) :
    kind? (line ++ u) = kind? line := by
  rcases eq_nil_or_closers hu with rfl | ⟨n, rfl⟩
  · rw [List.append_nil]
  · have hread := read?_append_stop line (c := ']') (by decide) rfl (List.replicate n ']')
    rw [closers, kind?, hread, Option.map_map]
    rfl

/-- The lines are comments, and behind them stands a header of the kind. -/
structure Headed (kind : DiagramKind) (comments : List Text) (header : Text) : Prop where
  isLine_comments : ∀ l ∈ comments, IsLine l
  isComment : ∀ l ∈ comments, isComment l = true
  isLine : IsLine header
  not_comment : Flowmend.isComment header = false
  kind? : Header.kind? header = some kind

/-- Closing brackets behind a header make no difference. -/
theorem Headed.append_closing {kind : DiagramKind} {comments : List Text} {header : Text}
    (h : Headed kind comments header) {u : Text} (hu : ∀ c ∈ u, c = ']') :
    Headed kind comments (header ++ u) where
  isLine_comments := h.isLine_comments
  isComment := h.isComment
  isLine := isLine_append_closing hu h.isLine
  not_comment := (statement_append_closing hu).1.trans h.not_comment
  kind? := (Header.kind?_append_closing hu header).trans h.kind?

section Written

variable {kind : DiagramKind} {comments : List Text} {header : Text}
  (h : Headed kind comments header) (body : List Text)

include h

/-- A text with comments, a header and other lines is read so. -/
theorem Headed.numberedLines_unlines :
    let numbered := numberedLines (unlines (comments ++ header :: body))
    (numbered.takeWhile fun l => Flowmend.isComment l.2).map Prod.snd = comments ∧
      ∃ n rest, (numbered.dropWhile fun l => Flowmend.isComment l.2) = (n, header) :: rest ∧
        rest.map Prod.snd = body.flatMap statements := by
  intro numbered
  have hstatements : numbered.map Prod.snd = comments ++ header :: body.flatMap statements := by
    show statements _ = _
    rw [statements_unlines, List.flatMap_append, List.flatMap_cons, h.isLine.statements_eq,
      List.flatMap_congr fun l hl => (h.isLine_comments l hl).statements_eq,
      List.flatMap_singleton']
    rfl
  have htake := congrArg (List.takeWhile Flowmend.isComment) hstatements
  have hdrop := congrArg (List.dropWhile Flowmend.isComment) hstatements
  rw [List.takeWhile_append_of_pos h.isComment,
    List.takeWhile_cons_of_neg (by simp [h.not_comment]), List.append_nil,
    List.takeWhile_map] at htake
  rw [List.dropWhile_append_of_pos h.isComment,
    List.dropWhile_cons_of_neg (by simp [h.not_comment]), List.dropWhile_map] at hdrop
  obtain ⟨⟨n, first⟩, rest, hrest, rfl, hbody⟩ := List.map_eq_cons_iff.1 hdrop
  exact ⟨htake, n, rest, hrest, hbody⟩

/-- The header names the kind of the mended document. -/
theorem Headed.kind_mend (usualHeader stem : Text) :
    (mend usualHeader stem (unlines (comments ++ header :: body))).kind = kind := by
  obtain ⟨-, n, rest, hrest, -⟩ := h.numberedLines_unlines body
  simp only [mend, Mender.mend, hrest, Opening.ofLines, h.kind?]

end Written

/-! ## Documents at rest -/

/-- Lines at rest stay as they are. -/
theorem mendBody_of_atRest {kind : DiagramKind} {body : List (Nat × Text)}
    (h : kind.isFlowchart = true → ∀ l ∈ body.map Prod.snd, AtRest l) (m : Mender) :
    m.mendBody kind body = (body.map Prod.snd, m) := by
  induction body with
  | nil => rfl
  | cons p body ih =>
    obtain ⟨n, line⟩ := p
    have ih := ih fun hk l hl => h hk l (List.mem_cons_of_mem line hl)
    rw [Mender.mendBody]
    by_cases hstays : (!kind.isFlowchart || isComment line || isDirective line) = true
    · simp only [if_pos hstays, ih, List.map_cons, List.singleton_append]
    · simp only [Bool.or_eq_true, Bool.not_eq_true', not_or, Bool.not_eq_false] at hstays
      have hleft : LeftAlone line := (h hstays.1.1 line List.mem_cons_self).resolve_left
        (by simp [hstays.1.2, hstays.2])
      simp [hstays, Mender.mendLine, hleft m.supply, Noted.events, ih]

/-- A document of lines at rest, the brackets of which balance, is mended without a repair and stays
as it is. -/
theorem Headed.mend_unlines {kind : DiagramKind} {comments : List Text} {header : Text}
    (h : Headed kind comments header) {body : List Text} (hbody : ∀ l ∈ body, IsLine l)
    (hrest : kind.isFlowchart = true → ∀ l ∈ body, AtRest l)
    (hcount : count '[' (unlines (comments ++ header :: body)) =
      count ']' (unlines (comments ++ header :: body))) (usualHeader stem : Text) :
    mend usualHeader stem (unlines (comments ++ header :: body)) =
      ⟨kind, comments ++ header :: body, [], false⟩ := by
  obtain ⟨hcomments, n, rest, hopening, hlines⟩ := h.numberedLines_unlines body
  rw [List.flatMap_congr fun l hl => (hbody l hl).statements_eq, List.flatMap_singleton'] at hlines
  subst hlines
  simp only [mend, Mender.mend, hcomments, hopening, Opening.ofLines, h.kind?,
    mendBody_of_atRest hrest, balance, if_pos hcount]
  rfl

/-! ## Mended documents -/

section Source

variable {usualHeader : Text} (husual : Header.IsFlowchart usualHeader) (source : Text)

include husual in
/-- The comments of a source, and the header that it has or that is added. -/
theorem headed_ofSource :
    Headed (Opening.ofSource usualHeader source).kind
      (((numberedLines source).takeWhile fun l => isComment l.2).map Prod.snd)
      (Opening.ofSource usualHeader source).header := by
  have hheader : IsLine (Opening.ofSource usualHeader source).header ∧
      Header.kind? (Opening.ofSource usualHeader source).header =
        some (Opening.ofSource usualHeader source).kind := by
    unfold Opening.ofSource
    rcases Opening.ofLines_cases usualHeader
        ((numberedLines source).dropWhile fun l => isComment l.2) with
      ⟨n, first, rest, kind, hls, hkind, heq⟩ | ⟨n, reason, body, heq, -⟩
    · rw [heq]
      exact ⟨isLine_of_mem_dropWhile source (p := (n, first)) (hls ▸ List.mem_cons_self), hkind⟩
    · obtain ⟨direction, hkind⟩ := Header.kind?_of_isFlowchart husual
      rw [heq]
      exact ⟨isLine_of_isFlowchart husual, by simp [Opening.added, hkind]⟩
  constructor
  · exact fun l hl => (of_mem_comments source hl).1
  · exact fun l hl => (of_mem_comments source hl).2
  · exact hheader.1
  · exact Opening.isComment_header (Header.line_of_isFlowchart husual).1 _
  · exact hheader.2

end Source

/-! ## The lines of the body -/

/-- Comments and directives do not start with a blank. -/
theorem not_blank_of_stays {s : Text} (h : (isComment s || isDirective s) = true) :
    ∀ c ∈ s.head?, isBlank c = false := by
  have hwords : ∀ w ∈ ['%', '%'] :: directiveWords, w ≠ [] ∧ ∀ c ∈ w.head?, isBlank c = false := by
    decide
  obtain ⟨w, hw, rest, hrest⟩ :
      ∃ w ∈ ['%', '%'] :: directiveWords, ∃ rest, after? w s = some rest := by
    rcases Bool.or_eq_true_iff.1 h with h | h
    · exact ⟨_, List.mem_cons_self, Option.isSome_iff_exists.1 h⟩
    · obtain ⟨w, hw, hopens⟩ := List.any_eq_true.1 h
      obtain ⟨rest, hrest, -⟩ := (Option.any_eq_true _ _).1 hopens
      exact ⟨w, List.mem_cons_of_mem _ hw, rest, hrest⟩
  obtain ⟨hne, hhead⟩ := hwords w hw
  rw [eq_append_of_after? hrest, List.head?_append_of_ne_nil _ hne]
  exact hhead

/-- A line of a mended body stayed, or took the place of a statement, with a supply that has what
every statement leaves to a supply. -/
theorem of_mem_mendBody {P : Placeholders → Prop}
    (hP : ∀ {supply}, P supply → ∀ s, P (mendLine supply s).2) {kind : DiagramKind}
    {body : List (Nat × Text)} {m : Mender} (hm : P m.supply) {l : Text}
    (hl : l ∈ (m.mendBody kind body).1) :
    (l ∈ body.map Prod.snd ∧ (kind.isFlowchart = true → (isComment l || isDirective l) = true)) ∨
      ∃ s ∈ body.map Prod.snd, kind.isFlowchart = true ∧ (isComment s || isDirective s) = false ∧
        ∃ supply, P supply ∧ l ∈ (mendLine supply s).1.value := by
  induction body generalizing m with
  | nil => cases hl
  | cons p body ih =>
    obtain ⟨n, line⟩ := p
    have hcons := fun (s : Text) (hs : s ∈ body.map Prod.snd) => List.mem_cons_of_mem line hs
    rw [Mender.mendBody] at hl
    by_cases hstays : (!kind.isFlowchart || isComment line || isDirective line) = true
    · simp only [if_pos hstays] at hl
      rcases List.mem_cons.1 hl with rfl | hl
      · refine .inl ⟨List.mem_cons_self, fun hk => ?_⟩
        simpa [hk] using hstays
      · rcases ih hm hl with ⟨hmem, h⟩ | ⟨s, hs, h⟩
        · exact .inl ⟨hcons l hmem, h⟩
        · exact .inr ⟨s, hcons s hs, h⟩
    · simp only [if_neg hstays] at hl
      rcases List.mem_append.1 hl with hl | hl
      · simp only [Bool.or_eq_true, Bool.not_eq_true', not_or, Bool.not_eq_false] at hstays
        exact .inr ⟨line, List.mem_cons_self, hstays.1.1, by simp [hstays], m.supply, hm, hl⟩
      · rcases ih (hP hm line) hl with ⟨hmem, h⟩ | ⟨s, hs, h⟩
        · exact .inl ⟨hcons l hmem, h⟩
        · exact .inr ⟨s, hcons s hs, h⟩

/-- A line of a body that is mended from statements that settle is at rest, also with closing
brackets behind it. -/
theorem atRest_of_mem_mendBody {usualHeader : Text} (husual : Header.IsFlowchart usualHeader)
    {source : Text} {lines : List Text}
    (hsettles : ∀ s ∈ (Opening.ofSource usualHeader source).statements, Settles lines s)
    {m : Mender} (hm : m.supply.Leading) {l : Text}
    (hl : l ∈ (m.mendBody (Opening.ofSource usualHeader source).kind
      (Opening.ofSource usualHeader source).body).1) :
    IsLine l ∧ ((Opening.ofSource usualHeader source).kind.isFlowchart = true →
      ∀ u, (∀ c ∈ u, c = ']') → l ++ u ∈ lines → AtRest (l ++ u)) := by
  rcases of_mem_mendBody leading_mendLine hm hl with
    ⟨hmem, hstays⟩ | ⟨s, hs, hkind, hstatement, supply, hsupply, hl⟩
  · obtain ⟨hne, line, hline, hsuffix, hsame⟩ := of_mem_body source husual hmem
    constructor
    · cases hkind : (Opening.ofSource usualHeader source).kind.isFlowchart with
      | false =>
        rw [hsame hkind]
        exact hline
      | true => exact hline.of_suffix hsuffix hne (not_blank_of_stays (hstays hkind))
    · intro hkind u hu _
      left
      rw [(statement_append_closing hu).1, (statement_append_closing hu).2]
      exact hstays hkind
  · obtain ⟨hne, line, hline, hsuffix, -⟩ := of_mem_body source husual hs
    have hsettled := hsettles s (Opening.mem_statements.2 ⟨hkind, hs, hstatement⟩)
    exact ⟨isLine_of_mem_mendLine hsettled hline hsuffix hne hsupply hl, fun _ u hu hmem =>
      atRest_of_mem_mendLine hsettled hline hsuffix hne hsupply hl hu hmem⟩

/-! ## Mending again -/

/-- A mended document is mended again as one of the same kind. If the statements of its source
settle, all of its lines stay, without a repair. -/
theorem mend_again (source : Text) :
    let d := mend "graph TD".toList "MissingNode".toList source
    let again := mend "graph TD".toList "MissingNode".toList d.text
    again.kind = d.kind ∧
      ((∀ s ∈ (Opening.ofSource "graph TD".toList source).statements, Settles d.lines s) →
        again.lines = d.lines ∧ again.repairs = [] ∧ again.valid = true) := by
  intro d again
  have husual : Header.IsFlowchart "graph TD".toList := ⟨.down, by decide⟩
  obtain ⟨m, hm, hlines⟩ := exists_lines_mend "graph TD".toList "MissingNode".toList source
  have hleading : m.supply.Leading := hm ▸ Placeholders.leading_reserve leading_missingNode _
  set opening := Opening.ofSource "graph TD".toList source with hopening
  obtain ⟨u, rest, hu, hvalue, hrest, -⟩ := balance_append_cons
    (((numberedLines source).takeWhile fun l => isComment l.2).map Prod.snd) opening.header
    (m.mendBody opening.kind opening.body).1
  have hd : d.lines = _ := hlines.trans hvalue
  -- In a document without a body, the header gets the closing brackets.
  have hheaded := (headed_ofSource husual source).append_closing hu
  have hcount := count_balance
    (((numberedLines source).takeWhile fun l => isComment l.2).map Prod.snd ++
      opening.header :: (m.mendBody opening.kind opening.body).1)
  rw [hvalue] at hcount
  refine ⟨?_, fun hsettles => ?_⟩
  · show (mend _ _ (unlines d.lines)).kind = opening.kind
    rw [hd]
    exact hheaded.kind_mend rest _ _
  · have hbody : ∀ l ∈ rest, IsLine l ∧ (opening.kind.isFlowchart = true → AtRest l) := by
      intro l hl
      have hmem : l ∈ d.lines := hd ▸ List.mem_append_right _ (List.mem_cons_of_mem _ hl)
      rcases hrest l hl with ⟨hcomment, hline⟩ | ⟨k, hk, v, hv, rfl⟩
      · exact ⟨hline, fun _ => .inl (by simp [hcomment])⟩
      · obtain ⟨hline, hatRest⟩ := atRest_of_mem_mendBody husual hsettles hleading hk
        exact ⟨isLine_append_closing hv hline, fun hkind => hatRest hkind v hv hmem⟩
    have hagain : again = ⟨opening.kind, d.lines, [], false⟩ := by
      show mend _ _ (unlines d.lines) = _
      rw [hd]
      exact hheaded.mend_unlines (fun l hl => (hbody l hl).1) (fun hk l hl => (hbody l hl).2 hk)
        hcount _ _
    rw [hagain]
    exact ⟨rfl, rfl, rfl⟩

/-- Declarations that run into one another, a connector that leads nowhere, a fan-out with a label
that is cleaned, a node with one and prose with an open bracket are written so that they stay. -/
theorem mend_again_mixed :
    let source := unlines (["%% draft", "A[One]B[*Two*] --> C", "style A fill:red",
      "C -->|\"go\"| D(x) & E[y", "E --> -.-> F", "G[*z]", "see [1"].map String.toList)
    let lines := ["%% draft", "graph TD", "A[One]", "B[Two]", "B --> C", "style A fill:red",
      "C -->|go| D(x)", "C -->|go| E[y]", "E --> MissingNode", "MissingNode -.-> F", "G[z]",
      "see [1]"].map String.toList
    let d := mend "graph TD".toList "MissingNode".toList source
    let again := mend "graph TD".toList "MissingNode".toList d.text
    d.lines = lines ∧ again.lines = d.lines ∧ again.repairs = [] ∧ again.valid = true := by
  intro source lines d again
  have hlines : d.lines = lines := by
    decide +kernel
  have hsettles : ∀ s ∈ (Opening.ofSource "graph TD".toList source).statements,
      Settles d.lines s := by
    rw [hlines]
    decide +kernel
  exact ⟨hlines, (mend_again source).2 hsettles⟩

/-- The mended document is mended again to the same lines of the same kind, without a repair. -/
def StaysMended (source : Text) : Prop :=
  let d := mend "graph TD".toList "MissingNode".toList source
  let again := mend "graph TD".toList "MissingNode".toList d.text
  again.kind = d.kind ∧ again.lines = d.lines ∧ again.repairs = [] ∧ again.valid = true

instance (source : Text) : Decidable (StaysMended source) :=
  inferInstanceAs (Decidable (_ ∧ _ ∧ _ ∧ _))

/-- Cleaning a label brings out a connector, also where a statement is written again, or leaves an
id that is not clean; what stood behind a keyword starts with a blank; an ampersand is no longer
inside of brackets, or only the closing brackets behind the line make a part of it; an id is glued
to the end of a source or a target; a target opens with a label; and a connector in a label goes on
behind a bar of the target. -/
theorem mend_changes_mended :
    ¬StaysMended "graph TD\nA[a -\"-\"- b]".toList ∧
    ¬StaysMended "graph TD\nA[a -\"-\"- b] C[x]".toList ∧
    ¬StaysMended "graph TD\nA[a -\"-\"- b] --> C".toList ∧
    ¬StaysMended "graph TD\n_(\")".toList ∧
    ¬StaysMended "graph ;\u00a0A[x]".toList ∧
    ¬StaysMended "graph TD\nA[x(y] & B --> C".toList ∧
    ¬StaysMended "graph TD\n[==>&".toList ∧
    ¬StaysMended "graph TD\n) A & --> B".toList ∧
    ¬StaysMended "graph TD\nA --> ) B &".toList ∧
    ¬StaysMended "graph TD\nA --> & |x| B".toList ∧
    ¬StaysMended "graph TD\nA -->|x ---\"| & B |y| C".toList := by
  decide +kernel

end Flowmend
