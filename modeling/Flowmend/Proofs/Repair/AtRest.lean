import Flowmend.Proofs.Repair.Settle
import Flowmend.Proofs.Repair.Structure

/-!
# What mending writes is at rest

A line is `AtRest` in a document if mending the document changes nothing of it. The lines that take
the place of a statement are lines (`isLine_of_mem_mendLine`), and they are at rest if the statement
`Settles` (`atRest_of_mem_mendLine`), also if closing brackets are added behind them.
-/

namespace Flowmend

open Text Defect Extract

/-- The line is a comment or a directive, or mending leaves it alone. -/
def AtRest (l : Text) : Prop := (isComment l || isDirective l) = true ∨ LeftAlone l

/-! ## Statements that settle -/

namespace Strand

/-- What stands behind the edge on lines of the document: closing brackets or nothing. -/
def endings (lines : List Text) (e : Strand) : List Text :=
  (lines.filterMap (after? e.line)).filter fun u => u.all (· == ']')

/-- The edge is read as it is written, with `u` behind it: its ends open with nodes that settle and
name one node each, no arrow follows an id that is glued to its source and none is glued to the end
of the line, without a label its target does not open with one, and no connector in its label goes
on behind a bar of the target. -/
structure Settles (e : Strand) (u : Text) : Prop where
  source_opens : OpensSettled e.source
  target_opens : OpensSettled e.target
  source_whole : Chain.sideParts e.sourceText = [e.sourceText]
  target_whole : Chain.sideParts (e.targetText ++ u) = [e.targetText ++ u]
  source_end : e.connector.token.getLast? = some '>' → endsGlued e.sourceText = false
  target_end : endsGlued (e.targetText ++ u) = false
  unlabelled : labelText e.label = [] → Connector.pipe? e.targetText = none
  tight : ∀ l ∈ e.label, endsInConnector l = true → idBehindBar e.targetText = false

instance (e : Strand) (u : Text) : Decidable (e.Settles u) :=
  decidable_of_iff (OpensSettled e.source ∧ OpensSettled e.target ∧
      Chain.sideParts e.sourceText = [e.sourceText] ∧
      Chain.sideParts (e.targetText ++ u) = [e.targetText ++ u] ∧
      (e.connector.token.getLast? = some '>' → endsGlued e.sourceText = false) ∧
      endsGlued (e.targetText ++ u) = false ∧
      (labelText e.label = [] → Connector.pipe? e.targetText = none) ∧
      ∀ l ∈ e.label, endsInConnector l = true → idBehindBar e.targetText = false)
    ⟨fun ⟨h₁, h₂, h₃, h₄, h₅, h₆, h₇, h₈⟩ => ⟨h₁, h₂, h₃, h₄, h₅, h₆, h₇, h₈⟩,
      fun ⟨h₁, h₂, h₃, h₄, h₅, h₆, h₇, h₈⟩ => ⟨h₁, h₂, h₃, h₄, h₅, h₆, h₇, h₈⟩⟩

end Strand

/-- The lines that take the place of the statement are at rest in the document. Where it is written
again, the declared nodes settle, which are the first framed ones with their ids; a line without
connectors starts without a blank and opens with a node that settles; and the edges of a chain
settle, unless they stand on comments or directives. -/
inductive Settles (lines : List Text) (s : Text) : Prop
  | restated (h : IsRestated s) (nodes : ∀ n ∈ framedNodes s, n.id ∉ directiveWords →
      (framedNodes s).find? (fun m => m.id == n.id) = some n → n.Settles)
  | node (h : ¬IsRestated s) (free : Connector.Free s) (start : ∀ c ∈ s.head?, isBlank c = false)
      (opens : OpensSettled s)
  | chain (h : ¬IsRestated s) (links : (Chain.ofText s).links ≠ [])
      (edges : ∀ e ∈ (Chain.ofText s).strands, (isComment e.line || isDirective e.line) = false →
        ∀ u ∈ e.endings lines, e.Settles u)

theorem settles_iff {lines : List Text} {s : Text} : Settles lines s ↔
    if IsRestated s then ∀ n ∈ framedNodes s, n.id ∉ directiveWords →
      (framedNodes s).find? (fun m => m.id == n.id) = some n → n.Settles
    else if (Chain.ofText s).links = [] then
      (∀ c ∈ s.head?, isBlank c = false) ∧ OpensSettled s
    else ∀ e ∈ (Chain.ofText s).strands, (isComment e.line || isDirective e.line) = false →
      ∀ u ∈ e.endings lines, e.Settles u := by
  constructor
  · intro h
    cases h with
    | restated h nodes => rwa [if_pos h]
    | node h free start opens =>
      rw [if_neg h, if_pos (Chain.links_ofText_eq_nil.2 free)]
      exact ⟨start, opens⟩
    | chain h links edges => rwa [if_neg h, if_neg links]
  · intro h
    by_cases hs : IsRestated s
    · rw [if_pos hs] at h
      exact .restated hs h
    rw [if_neg hs] at h
    by_cases hlinks : (Chain.ofText s).links = []
    · rw [if_pos hlinks] at h
      exact .node hs (Chain.links_ofText_eq_nil.1 hlinks) h.1 h.2
    · rw [if_neg hlinks] at h
      exact .chain hs hlinks h

instance (lines : List Text) (s : Text) : Decidable (Settles lines s) :=
  decidable_of_iff _ settles_iff.symm

theorem isDirective_of_mem : ∀ w ∈ directiveWords, isDirective w = true := by
  decide

/-! ## Closing brackets behind a line -/

theorem edgeLine_append (source token : Text) (label : Option Text) (target u : Text) :
    edgeLine source token label target ++ u = edgeLine source token label (target ++ u) := by
  simp [edgeLine_eq]

section Closing

variable {l u : Text} (hu : ∀ c ∈ u, c = ']')

include hu

theorem statement_append_closing :
    isComment (l ++ u) = isComment l ∧ isDirective (l ++ u) = isDirective l := by
  rcases eq_nil_or_closers hu with rfl | ⟨n, rfl⟩
  · simp
  · exact ⟨isComment_append_stop l (by decide) _, isDirective_append_stop l (by decide) _⟩

theorem isLine_append_closing (hl : IsLine l) : IsLine (l ++ u) := by
  rcases eq_nil_or_closers hu with rfl | ⟨n, rfl⟩
  · rwa [List.append_nil]
  · exact isLine_append_closers n hl

/-- A settled line that does not end glued is at rest. -/
theorem Settled.atRest_append (hl : Settled l) (hend : endsGlued l = false) : AtRest (l ++ u) :=
  .inr ((hl.append_closing hu).leftAlone (endsGlued_append_closing hu hend))

end Closing

/-! ## Statements written again -/

namespace Statement

theorem of_mem_restate {supply : Placeholders} {s l : Text} (h : l ∈ (restate supply s).1.value) :
    (∃ p ∈ (pieces [] .start supply (tokens s)).1, l = p.line.value) ∨
      ∃ n, .node n ∈ tokens s ∧ l = n.id := by
  unfold restate at h
  simp only [List.partition_eq_filter_filter, List.mem_append, List.mem_map, List.mem_filter] at h
  rcases h with (⟨p, ⟨hp, -⟩, rfl⟩ | ⟨hmem, -⟩) | ⟨p, ⟨hp, -⟩, rfl⟩
  · exact .inl ⟨p, hp, rfl⟩
  · refine .inr ?_
    obtain ⟨n, hn, hid⟩ := List.mem_filterMap.1 (List.mem_eraseDups.1 hmem)
    refine ⟨n, Token.mem_filterMap_node?.1 hn, ?_⟩
    split at hid
    · exact (Option.some.inj hid).symm
    · cases hid
  · exact .inl ⟨p, hp, rfl⟩

/-- A statement is written again as declarations, ids, and edges between ids. -/
theorem restate_cases {supply : Placeholders} {s l : Text} (hs : ∀ c ∈ s, isBreak c = false)
    (hsupply : supply.Leading) (h : l ∈ (restate supply s).1.value) :
    (∃ n f, n ∈ framedNodes s ∧ (framedNodes s).find? (fun m => m.id == n.id) = some n ∧
      n.frame = some f ∧ IsId n.id ∧ (∀ c ∈ n.text, isBreak c = false) ∧ l = n.mend.value) ∨
    IsId l ∨
    ∃ source target, ∃ k : Connector, IsId source ∧ Connector.IsToken k.token ∧ IsId target ∧
      l = edgeLine source k.token k.mendLabel.value target := by
  have hid : ∀ n, Token.node n ∈ tokens s → IsId n.id := fun n hn => (of_node_mem_tokens hs hn).1
  rcases of_mem_restate h with ⟨p, hp, rfl⟩ | ⟨n, hn, rfl⟩
  · cases p with
    | declaration n =>
      left
      have hfind : (framedNodes s).find? (fun m => m.id == n.id) = some n :=
        (of_declaration_mem_pieces hp).2
      have hframed := List.mem_of_find?_eq_some hfind
      obtain ⟨hmem, hbare⟩ := List.mem_filter.1 hframed
      have ht := Token.mem_filterMap_node?.1 hmem
      obtain ⟨f, hf⟩ : ∃ f, n.frame = some f := by
        rw [Reference.bare] at hbare
        exact Option.isSome_iff_exists.1 (by simpa using hbare)
      obtain ⟨hid, hbreak⟩ := of_node_mem_tokens hs ht
      exact ⟨n, f, hframed, hfind, hf, hid, hbreak, rfl⟩
    | edge source k target =>
      right; right
      obtain ⟨hsource, hk, htarget⟩ := ends_of_edge_mem_pieces hid (fun m => (hsupply m).1) hp
      exact ⟨source, target, k, hsource, isToken_of_mem_tokens hk, htarget, rfl⟩
  · exact .inr (.inl (hid n hn))

end Statement

/-! ## Edges -/

theorem plain_mendLabel (k : Connector) : ∀ l ∈ k.mendLabel.value, Label.Plain l := by
  unfold Connector.mendLabel
  cases k.label with
  | none => simp [pure]
  | some raw =>
    rintro l ⟨⟩
    exact Label.plain_clean raw

/-- An edge between ids is left alone, also with closing brackets behind it. -/
theorem leftAlone_edgeLine_of_isId {source target : Text} {k : Connector} (hsource : IsId source)
    (hk : Connector.IsToken k.token) (htarget : IsId target) {u : Text} (hu : ∀ c ∈ u, c = ']') :
    LeftAlone (edgeLine source k.token k.mendLabel.value target ++ u) := by
  obtain ⟨hsource_settled, hsource_end⟩ := settled_of_isId hsource
  obtain ⟨htarget_settled, htarget_end⟩ := settled_of_isId htarget
  have hnot : ∀ {id : Text}, IsId id → ∀ c, isIdChar c = false → c ∉ id := fun hid c hc hmem =>
    ne_of_isIdChar (hid.isIdChar c hmem) hc rfl
  have hampersand : '&' ∉ target ++ u := by
    rw [List.mem_append]
    rintro (h | h)
    · exact hnot htarget _ (by decide) h
    · cases hu _ h
  have hpipe : Connector.pipe? target = none := by
    cases hp : Connector.pipe? target with
    | none => rfl
    | some p =>
      refine absurd ?_ (hnot htarget '|' (by decide))
      rw [(Connector.pipe?_eq_some_iff.1 hp).1]
      exact List.mem_cons_self
  have hbar : target.dropWhile (· != '|') = [] := by
    rw [List.dropWhile_eq_nil_iff]
    rintro c hc
    rw [bne_iff_ne]
    rintro rfl
    exact hnot htarget '|' (by decide) hc
  have hline := (htarget_settled.append_closing hu).isLine
  rw [edgeLine_append]
  refine Firm.leftAlone ⟨hsource_settled, htarget_settled.append_closing hu, hk, plain_mendLabel k,
    Chain.sideParts_of_no_ampersand hsource_settled.isLine.trimmed hsource.ne_nil
      (hnot hsource _ (by decide)),
    Chain.sideParts_of_no_ampersand hline.trimmed hline.ne_nil hampersand,
    fun _ => hsource_end, endsGlued_append_closing hu htarget_end,
    fun _ => pipe?_append_closing hu htarget.ne_nil hpipe,
    fun _ _ _ => idBehindBar_append_closing hu (by rw [idBehindBar, hbar]; rfl)⟩

/-- An edge that settles is left alone with what stands behind it. -/
theorem Strand.Settles.leftAlone {s : Text} {e : Strand} (hsource : IsPart s e.source)
    (htarget : IsPart s e.target) (htoken : Connector.IsToken e.connector.token)
    (hclear : ∀ t, t <:+: s → Clear t) {u : Text} (hu : ∀ c ∈ u, c = ']') (h : e.Settles u) :
    LeftAlone (e.line ++ u) := by
  have hsource := (settled_mendOpening hsource.isLine hsource.free (hclear _ hsource.within)
    h.source_opens).1
  have htarget := (settled_mendOpening htarget.isLine htarget.free (hclear _ htarget.within)
    h.target_opens).1
  rw [Strand.line, edgeLine_append]
  exact Firm.leftAlone ⟨hsource, htarget.append_closing hu, htoken, plain_mendLabel e.connector,
    h.source_whole, h.target_whole, h.source_end, h.target_end,
    fun hl => pipe?_append_closing hu htarget.isLine.ne_nil (h.unlabelled hl),
    fun l hl hend => idBehindBar_append_closing hu (h.tight l hl hend)⟩

/-! ## The lines of a statement -/

section Lines

variable {lines : List Text} {s : Text} (hsettles : Settles lines s) {line : Text}
  (hline : IsLine line) (hs : s <:+ line) (hne : s ≠ []) {supply : Placeholders}
  (hsupply : supply.Leading) {l : Text} (hl : l ∈ (mendLine supply s).1.value)

include hsettles

/-- The ways in which a statement that settles is mended. -/
theorem Settles.mendLine_cases (supply : Placeholders) :
    (IsRestated s ∧ (mendLine supply s).1.value = (Statement.restate supply s).1.value ∧
        ∀ n ∈ framedNodes s, n.id ∉ directiveWords →
          (framedNodes s).find? (fun m => m.id == n.id) = some n → n.Settles) ∨
      (¬IsRestated s ∧ (mendLine supply s).1.value = [(Reference.mendOpening s).value] ∧
        Connector.Free s ∧ (∀ c ∈ s.head?, isBlank c = false) ∧ OpensSettled s) ∨
      (¬IsRestated s ∧ (mendLine supply s).1.value = (Chain.ofText s).mend.value ∧
        [] ∉ (Chain.ofText s).sides ∧
        ∀ e ∈ (Chain.ofText s).strands, (isComment e.line || isDirective e.line) = false →
          ∀ u ∈ e.endings lines, e.Settles u) := by
  rcases Flowmend.mendLine_cases supply s with ⟨h, hvalue, -⟩ | ⟨h, hfree, hvalue, -⟩ |
    ⟨h, hlinks, hsides, hvalue, -⟩
  · cases hsettles with
    | restated _ nodes => exact .inl ⟨h, hvalue, nodes⟩
    | node hnot | chain hnot => exact absurd h hnot
  · cases hsettles with
    | restated h' => exact absurd h' h
    | node _ _ start opens => exact .inr (.inl ⟨h, hvalue, hfree, start, opens⟩)
    | chain _ hlinks => exact absurd (Chain.links_ofText_eq_nil.2 hfree) hlinks
  · cases hsettles with
    | restated h' => exact absurd h' h
    | node _ hfree => exact absurd (Chain.links_ofText_eq_nil.2 hfree) hlinks
    | chain _ _ edges => exact .inr (.inr ⟨h, hvalue, hsides, edges⟩)

include hline hs hne hsupply hl

/-- The lines that take the place of a statement are lines. -/
theorem isLine_of_mem_mendLine : IsLine l := by
  have hbreak : ∀ c ∈ s, isBreak c = false := fun c hc => hline.not_break c (hs.subset hc)
  rcases hsettles.mendLine_cases supply with ⟨-, hvalue, -⟩ | ⟨-, hvalue, -, hstart, -⟩ |
    ⟨-, hvalue, hsides, -⟩
  · rw [hvalue] at hl
    rcases Statement.restate_cases hbreak hsupply hl with
      ⟨n, f, -, -, hf, hid, hbreak, rfl⟩ | hid | ⟨source, target, k, hsource, hk, htarget, rfl⟩
    · exact Reference.isLine_mend hid hf hbreak
    · exact (settled_of_isId hid).1.isLine
    · exact isLine_edgeLine (settled_of_isId hsource).1.isLine hk (isShown_mendLabel k)
        (settled_of_isId htarget).1.isLine
  · rw [hvalue, List.mem_singleton] at hl
    rw [hl]
    exact Reference.isLine_mendOpening (hline.of_suffix hs hne hstart)
  · rw [hvalue, value_mend_ofText hbreak hsides] at hl
    obtain ⟨e, he, rfl⟩ := List.mem_map.1 hl
    exact isLine_of_mem_strands hbreak hsides he

/-- The lines that take the place of a statement that settles are at rest, also with closing
brackets behind them. -/
theorem atRest_of_mem_mendLine {u : Text} (hu : ∀ c ∈ u, c = ']') (hmem : l ++ u ∈ lines) :
    AtRest (l ++ u) := by
  have hbreak : ∀ c ∈ s, isBreak c = false := fun c hc => hline.not_break c (hs.subset hc)
  -- A statement that is not written again shows no defect, and neither do its parts.
  have hclear : ¬IsRestated s → ∀ t, t <:+: s → Clear t := fun hnot t ht =>
    clear_of_mended (by simpa using mt Or.inl hnot)
      (by simpa using mt (fun h => Or.inr (Or.inl h)) hnot) ht
  rcases hsettles.mendLine_cases supply with ⟨-, hvalue, hnodes⟩ |
    ⟨hnot, hvalue, hfree, hstart, hopens⟩ | ⟨hnot, hvalue, hsides, hedges⟩
  · rw [hvalue] at hl
    rcases Statement.restate_cases hbreak hsupply hl with
      ⟨n, f, hn, hfind, hf, hid, hbreak, rfl⟩ | hid | ⟨source, target, k, hsource, hk, htarget, rfl⟩
    · by_cases hword : n.id ∈ directiveWords
      · -- A declaration with the id of a directive is one.
        left
        rw [(statement_append_closing hu).1, (statement_append_closing hu).2,
          Reference.value_mend hf, (line_framedText hid _).1, (line_framedText hid _).2.1,
          isDirective_of_mem n.id hword]
        rfl
      · obtain ⟨hsettled, hend⟩ := settled_mend hid hf hbreak (hnodes n hn hword hfind)
        exact hsettled.atRest_append hu hend
    · exact (settled_of_isId hid).1.atRest_append hu (settled_of_isId hid).2
    · exact .inr (leftAlone_edgeLine_of_isId hsource hk htarget hu)
  · rw [hvalue, List.mem_singleton] at hl
    obtain ⟨hsettled, hend⟩ := settled_mendOpening (hline.of_suffix hs hne hstart) hfree
      (hclear hnot s (List.infix_refl s)) hopens
    rw [hl]
    exact hsettled.atRest_append hu (hend (endsGlued_of_not_glued (by simpa using mt Or.inl hnot)))
  · rw [hvalue, value_mend_ofText hbreak hsides] at hl
    obtain ⟨e, he, rfl⟩ := List.mem_map.1 hl
    by_cases hstays : (isComment e.line || isDirective e.line) = true
    · left
      rwa [(statement_append_closing hu).1, (statement_append_closing hu).2]
    · obtain ⟨hsource, htarget, htoken⟩ := isPart_of_mem_strands hbreak hsides he
      have hending : u ∈ e.endings lines := by
        refine List.mem_filter.2 ⟨List.mem_filterMap.2 ⟨_, hmem, after?_append_self _ _⟩, ?_⟩
        simpa using hu
      exact .inr ((hedges e he (by simpa using hstays) u hending).leftAlone hsource htarget htoken
        (hclear hnot) hu)

end Lines

end Flowmend
