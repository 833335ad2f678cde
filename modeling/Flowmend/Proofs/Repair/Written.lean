import Flowmend.Proofs.Repair.Again

/-!
# Written edges are read back

A statement that is mended becomes edges of one line each, but for the nodes that it declares or
that stand alone (`exists_value_mendLine`). Written between ids, such a line is read as the edge it
was written for (`mend_edges_read`), also where its source stood in the middle of the statement. Not
so if the source is a word that opens a directive or a header, as now it opens a line
(`unread_of_mem_reservedIds`).
-/

namespace Flowmend

open Text Extract

/-- An edge as it is written on a line of its own. -/
structure WrittenEdge where
  source : Text
  token : Text
  label : Option Text
  target : Text
  deriving DecidableEq, Repr

namespace WrittenEdge

/-- The line. -/
def line (e : WrittenEdge) : Text := edgeLine e.source e.token e.label e.target

/-- The edge that the line is written for. -/
def arc (e : WrittenEdge) : Arc := ⟨e.source, e.target, EdgeKind.ofToken e.token⟩

/-- The token is a connector, and the label is safe to show. -/
structure Proper (e : WrittenEdge) : Prop where
  token : Connector.IsToken e.token
  label : ∀ l ∈ e.label, IsShown l

/-- A written edge between ids is read as its edge, unless its source opens another line than a
statement. -/
theorem Proper.on_line {e : WrittenEdge} (h : e.Proper) (hsource : IsId e.source)
    (htarget : IsId e.target) (hreserved : ¬Reserved e.source) : (Item.arc e.arc).On e.line := by
  refine on_edgeLine_of_ends (isSource_of_isId hsource fun hword => hreserved (.inl hword)) h.token
    h.label (isTarget_of_isId htarget _) ?_ ?_ rfl
  · rw [Header.skip_of_not_reserved hsource hreserved, lastId, references_of_isId hsource]
    rfl
  · rw [firstId, references_of_isId htarget]
    rfl

end WrittenEdge

/-! ## Statements -/

/-- The written edge of a piece. -/
def Statement.Piece.written? : Statement.Piece → Option WrittenEdge
  | declaration _ => none
  | edge source k target => some ⟨source, k.token, k.mendLabel.value, target⟩

/-- The written edge of a strand. -/
def Strand.written (e : Strand) : WrittenEdge :=
  ⟨e.sourceText, e.connector.token, e.label, e.targetText⟩

/-- The edges that take the place of a line of a flowchart. -/
def writtenEdges (supply : Placeholders) (s : Text) : List WrittenEdge :=
  if IsRestated s then
    (Statement.pieces [] .start supply (tokens s)).1.filterMap Statement.Piece.written?
  else (Chain.ofText s).strands.map Strand.written

theorem Statement.map_line_written (ps : List Statement.Piece) :
    (ps.filterMap Piece.written?).map WrittenEdge.line =
      (ps.filter fun p => !p.isDeclaration).map (·.line.value) := by
  induction ps with
  | nil => rfl
  | cons p ps ih =>
    cases p with
    | declaration n => exact ih
    | edge source k target => exact congrArg (_ :: ·) ih

/-- A statement that is written again has declarations of its nodes and ids that stand alone before
its edges. -/
theorem Statement.exists_value_restate (supply : Placeholders) (s : Text) :
    ∃ nodes, (restate supply s).1.value =
        nodes ++ ((pieces [] .start supply (tokens s)).1.filterMap Piece.written?).map
          WrittenEdge.line ∧
      ∀ l ∈ nodes, ∃ n, .node n ∈ tokens s ∧ l = n.mend.value := by
  rw [map_line_written, restate]
  simp only [List.partition_eq_filter_filter]
  refine ⟨_, rfl, fun l hl => ?_⟩
  rcases List.mem_append.1 hl with hl | hl
  · obtain ⟨p, hp, rfl⟩ := List.mem_map.1 hl
    obtain ⟨hp, hdeclares⟩ := List.mem_filter.1 hp
    cases p with
    | edge source k target => cases hdeclares
    | declaration n =>
      have hframed := List.mem_of_find?_eq_some (of_declaration_mem_pieces hp).2
      exact ⟨n, Token.mem_filterMap_node?.1 (List.mem_filter.1 hframed).1, rfl⟩
  · obtain ⟨n, hn, hid⟩ :=
      List.mem_filterMap.1 (List.mem_eraseDups.1 (List.mem_filter.1 hl).1)
    refine ⟨n, Token.mem_filterMap_node?.1 hn, ?_⟩
    split at hid
    · rename_i hbare
      rw [Reference.mend, Option.isNone_iff_eq_none.1 hbare]
      exact (Option.some.inj hid).symm
    · cases hid

/-- The lines that take the place of a statement are lines for its nodes, and then its edges. -/
theorem exists_value_mendLine {s : Text} (hs : ∀ c ∈ s, isBreak c = false)
    (supply : Placeholders) :
    ∃ nodes, (mendLine supply s).1.value =
        nodes ++ (writtenEdges supply s).map WrittenEdge.line ∧
      ∀ l ∈ nodes, l = (Reference.mendOpening s).value ∨
        ∃ n, .node n ∈ tokens s ∧ l = n.mend.value := by
  rcases mendLine_cases supply s with ⟨h, hvalue, -⟩ | ⟨h, hfree, hvalue, -⟩ |
    ⟨h, -, hsides, hvalue, -⟩
  · obtain ⟨nodes, hrestate, hnodes⟩ := Statement.exists_value_restate supply s
    rw [hvalue, writtenEdges, if_pos h]
    exact ⟨nodes, hrestate, fun l hl => .inr (hnodes l hl)⟩
  · have hlinks : (Chain.ofText s).links = [] := Chain.links_ofText_eq_nil.2 hfree
    rw [hvalue, writtenEdges, if_neg h, Chain.strands, hlinks]
    exact ⟨_, (List.append_nil _).symm, fun l hl => .inl (List.mem_singleton.1 hl)⟩
  · rw [hvalue, writtenEdges, if_neg h, value_mend_ofText hs hsides, List.map_map]
    exact ⟨[], rfl, by simp⟩

theorem proper_of_mem_writtenEdges {supply : Placeholders} {s : Text} {e : WrittenEdge}
    (h : e ∈ writtenEdges supply s) : e.Proper := by
  unfold writtenEdges at h
  split at h
  · obtain ⟨p, hp, he⟩ := List.mem_filterMap.1 h
    cases p with
    | declaration n => cases he
    | edge source k target =>
      cases he
      refine ⟨?_, isShown_mendLabel k⟩
      exact Statement.isToken_of_mem_tokens
        (Statement.ends_of_edge_mem_pieces (P := fun _ => True) (by simp) (by simp) hp).2.1
  · obtain ⟨e, he, rfl⟩ := List.mem_map.1 h
    obtain ⟨-, l, hl, hconnector, -⟩ := Chain.of_mem_strandsFrom he
    refine ⟨?_, isShown_mendLabel e.connector⟩
    show Connector.IsToken e.connector.token
    rw [hconnector]
    exact (Chain.of_mem_links_ofText hl).1

/-! ## Documents -/

/-- The edges that take the place of the lines after the header. -/
def writtenBody (kind : DiagramKind) (supply : Placeholders) :
    List (Nat × Text) → List WrittenEdge
  | [] => []
  | (_, line) :: rest =>
    if !kind.isFlowchart || isComment line || isDirective line then writtenBody kind supply rest
    else writtenEdges supply line ++ writtenBody kind (mendLine supply line).2 rest

/-- The edges that the lines of a document are written again as. -/
def mendEdges (usualHeader stem source : Text) : List WrittenEdge :=
  let opening := Opening.ofSource usualHeader source
  writtenBody opening.kind ((Placeholders.ofStem stem).reserve (ids source)) opening.body

theorem of_mem_writtenBody {kind : DiagramKind} {body : List (Nat × Text)} {m : Mender}
    (hbody : ∀ s ∈ body.map Prod.snd, ∀ c ∈ s, isBreak c = false) {e : WrittenEdge}
    (h : e ∈ writtenBody kind m.supply body) : e.Proper ∧ e.line ∈ (m.mendBody kind body).1 := by
  induction body generalizing m with
  | nil => cases h
  | cons p body ih =>
    obtain ⟨n, line⟩ := p
    obtain ⟨hline, hbody⟩ := List.forall_mem_cons.1 hbody
    rw [writtenBody] at h
    rw [Mender.mendBody]
    split at h
    · rename_i hstays
      simp only [if_pos hstays]
      exact (ih hbody h).imp_right fun h => List.mem_cons_of_mem _ h
    · rename_i hstays
      simp only [if_neg hstays]
      rcases List.mem_append.1 h with h | h
      · refine ⟨proper_of_mem_writtenEdges h, List.mem_append_left _ ?_⟩
        obtain ⟨nodes, hvalue, -⟩ := exists_value_mendLine hline m.supply
        show e.line ∈ (mendLine m.supply line).1.value
        rw [hvalue]
        exact List.mem_append_right _ (List.mem_map_of_mem h)
      · exact (ih hbody h).imp_right fun h => List.mem_append_right _ h

/-- A line is still there when the brackets are balanced, with closing ones if it is the last. -/
theorem exists_mem_balance {ls : List Text} {l : Text} (h : l ∈ ls) :
    ∃ n, l ++ List.replicate n ']' ∈ (balance ls).value := by
  have hsame : l ++ List.replicate 0 ']' = l := List.append_nil l
  rcases balance_cases ls with ⟨-, hvalue⟩ | ⟨init, last, n, rfl, -, hvalue⟩ | ⟨n, -, hvalue⟩
  · exact ⟨0, by rwa [hvalue, hsame]⟩
  · rcases List.mem_append.1 h with h | h
    · exact ⟨0, by rw [hvalue, hsame]; exact List.mem_append_left _ h⟩
    · obtain rfl := List.mem_singleton.1 h
      exact ⟨n + 1, by simp [hvalue]⟩
  · exact ⟨0, by rw [hvalue, hsame]; exact List.mem_append_left _ h⟩

/-- Every edge that is written when a source is mended is a line of the mended document, but for
closing brackets. If it joins ids, it is one of the graph of the document, unless its source opens
another line than a statement. -/
theorem mend_edges_read (stem source : Text) (limit : Option Int) {e : WrittenEdge}
    (h : e ∈ mendEdges "graph TD".toList stem source) :
    let mended := mend "graph TD".toList stem source
    (∃ n, e.line ++ List.replicate n ']' ∈ mended.lines) ∧
      (IsId e.source → IsId e.target → ¬Reserved e.source →
        e.arc ∈ (Graph.extract limit mended.text).edges.map Edge.arc) := by
  intro mended
  have husual : Header.IsFlowchart "graph TD".toList := ⟨.down, by decide⟩
  obtain ⟨m, hm, hlines⟩ := exists_lines_mend "graph TD".toList stem source
  have hbreak : ∀ s ∈ (Opening.ofSource "graph TD".toList source).body.map Prod.snd,
      ∀ c ∈ s, isBreak c = false := by
    intro s hs
    obtain ⟨-, l, hl, hsuffix, -⟩ := suffix_of_mem_body source hs
    exact fun c hc => hl.not_break c (hsuffix.subset hc)
  rw [mendEdges, ← hm] at h
  obtain ⟨hproper, hmem⟩ := of_mem_writtenBody hbreak h
  have hwritten := List.mem_append_right
    (((numberedLines source).takeWhile fun l => isComment l.2).map Prod.snd)
    (List.mem_cons_of_mem (Opening.ofSource "graph TD".toList source).header hmem)
  refine ⟨?_, fun hsource htarget hreserved => ?_⟩
  · show ∃ n, _ ∈ (mend "graph TD".toList stem source).lines
    rw [hlines]
    exact exists_mem_balance hwritten
  · have hline : IsLine e.line := isLine_edgeLine (isLine_of_isId hsource) hproper.token
      hproper.label (isLine_of_isId htarget)
    show (Item.arc e.arc).In (Graph.extract limit (mend "graph TD".toList stem source).text)
    rw [Mended.text, hlines, Graph.extract_balance, Item.in_extract_unlines]
    exact (hproper.on_line hsource htarget hreserved).shown hline hwritten

theorem mend_edges_read_chain :
    let source := "graph TD\nA & x -.->|go *x*| B --> C ==> \nE[x]F --> G[[".toList
    let e : WrittenEdge := ⟨['B'], "-->".toList, none, ['C']⟩
    e ∈ mendEdges "graph TD".toList "MissingNode".toList source ∧ IsId e.source ∧ IsId e.target ∧
      ¬Reserved e.source ∧
      (∃ n, e.line ++ List.replicate n ']' ∈
        (mend "graph TD".toList "MissingNode".toList source).lines) ∧
      e.arc ∈ (Graph.extract (some 40)
        (mend "graph TD".toList "MissingNode".toList source).text).edges.map Edge.arc := by
  intro source e
  have hmem : e ∈ mendEdges "graph TD".toList "MissingNode".toList source := by decide +kernel
  have hsource : IsId e.source := by decide
  have htarget : IsId e.target := by decide
  have hreserved : ¬Reserved e.source := by decide
  obtain ⟨hline, hread⟩ := mend_edges_read "MissingNode".toList source (some 40) hmem
  exact ⟨hmem, hsource, htarget, hreserved, hline, hread hsource htarget hreserved⟩

/-- The ids by which a line is recognised, but for the flowchart keywords with capital letters. -/
def reservedIds : List Text :=
  directiveWords ++ (Header.table.map Prod.fst).filter (fun w => w.all isIdChar) ++ flowchartWords

/-- The edge that is written from one of these ids, or from a flowchart keyword in capitals, is not
read: its line is taken for a directive, or for a header and what follows it. -/
theorem unread_of_mem_reservedIds :
    ∀ id ∈ "GRAPH".toList :: reservedIds,
      let source := "graph TD\nA --> ".toList ++ id ++ " --> B".toList
      let e : WrittenEdge := ⟨id, "-->".toList, none, ['B']⟩
      e ∈ mendEdges "graph TD".toList "MissingNode".toList source ∧
        IsId e.source ∧ IsId e.target ∧
        e.arc ∉ (Graph.extract (some 40)
          (mend "graph TD".toList "MissingNode".toList source).text).edges.map Edge.arc := by
  decide +kernel

/-- A word that closes a block leads nowhere once it opens a line. -/
theorem mend_edges_unread :
    let source := "graph TD\nA --> end --> B".toList
    let e : WrittenEdge := ⟨"end".toList, "-->".toList, none, ['B']⟩
    e ∈ mendEdges "graph TD".toList "MissingNode".toList source ∧ IsId e.source ∧ IsId e.target ∧
      e.arc ∉ (Graph.extract (some 40)
        (mend "graph TD".toList "MissingNode".toList source).text).edges.map Edge.arc :=
  unread_of_mem_reservedIds "end".toList (by decide)

end Flowmend
