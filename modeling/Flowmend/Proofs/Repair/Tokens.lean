import Flowmend.Proofs.Repair.Placeholder
import Flowmend.Proofs.Repair.Written

/-!
# The lines for the tokens of a statement

A statement that is written again has a declaration for each id of a framed node, a line for each
bare node that nothing else mentions, and one edge for each connector (`exists_restated`). The two
ends of an edge are the tokens that stand next to its connector, with placeholders in place of those
that are missing (`edges_append`), and the line of the edge is split into these ends again
(`ofText_line`).
-/

namespace Flowmend

open Text

/-! ## Tokens -/

namespace Token

/-- The id of a token that is a node. -/
def id? (t : Token) : Option Text := t.node?.map Reference.id

/-- The number of connectors that no node stands right before. A node stands before the first token
if it is `led`. -/
def unled (led : Bool) : List Token → Nat
  | [] => 0
  | node _ :: ts => unled true ts
  | connector _ :: ts => (if led then 0 else 1) + unled false ts

end Token

namespace Statement

/-! ## Declarations -/

/-- The framed nodes among the tokens. -/
def framed (ts : List Token) : List Reference :=
  (ts.filterMap Token.node?).filter fun n => !n.bare

/-- The node that a piece declares. -/
def Piece.declared? : Piece → Option Reference
  | declaration n => some n
  | edge .. => none

theorem map_line_declared (ps : List Piece) :
    (ps.filterMap Piece.declared?).map (·.mend.value) =
      (ps.filter Piece.isDeclaration).map (·.line.value) := by
  induction ps with
  | nil => rfl
  | cons p ps ih =>
    cases p with
    | declaration n => exact congrArg (_ :: ·) ih
    | edge source k target => exact ih

theorem declared_arrive (standing : Standing) (target : Text) :
    (standing.arrive target).filterMap Piece.declared? = [] := by
  cases standing <;> rfl

/-- Each id is declared by its first framed node. -/
theorem declared_pieces (ts : List Token) (declared : List Text) (standing : Standing)
    (supply : Placeholders) :
    (pieces declared standing supply ts).1.filterMap Piece.declared? =
      ((framed ts).filter fun n => !declared.contains n.id).eraseDupsBy
        fun m n => m.id == n.id := by
  induction ts generalizing declared standing supply with
  | nil => cases standing <;> rfl
  | cons t ts ih =>
    cases t with
    | connector k =>
      cases standing with
      | node id => exact ih ..
      | start => exact ih ..
      | connector source k' => exact ih ..
    | node n =>
      have hframed : framed (.node n :: ts) = if n.bare then framed ts else n :: framed ts := by
        cases hn : n.bare <;> simp [framed, Token.node?, hn]
      simp only [pieces, List.filterMap_append, declared_arrive, List.append_nil, ih, hframed]
      by_cases hbare : n.bare = true
      · simp [hbare]
      · simp only [hbare, Bool.false_eq_true, if_false, Bool.not_false, Bool.true_and]
        by_cases hmem : n.id ∈ declared
        · -- The id is declared already, and so are the other nodes with it.
          have hsame : ∀ m : Reference, (m.id = n.id ∨ m.id ∈ declared) ↔ m.id ∈ declared :=
            fun m => or_iff_right_of_imp fun h => h ▸ hmem
          simp [hmem, hsame]
        · have hnot : declared.contains n.id = false := by simpa using hmem
          have hlater : ∀ m ∈ framed ts,
              (decide ((m.id == n.id) = false) && !declared.contains m.id) =
                !(n.id :: declared).contains m.id := by
            intro m _
            rw [List.contains_cons, Bool.not_or, Bool.decide_eq_false]
          simp only [hnot, Bool.not_false, if_true, List.filter_cons_of_pos,
            List.eraseDupsBy_cons, List.filter_filter]
          rw [List.filter_congr hlater]
          rfl

theorem declared_pieces_nil (ts : List Token) (standing : Standing) (supply : Placeholders) :
    (pieces [] standing supply ts).1.filterMap Piece.declared? =
      (framed ts).eraseDupsBy fun m n => m.id == n.id := by
  rw [declared_pieces, List.filter_eq_self.2 (by simp)]

/-! ## Edges -/

/-- The edges of the pieces. -/
def edges (standing : Standing) (supply : Placeholders) (ts : List Token) : List WrittenEdge :=
  (pieces [] standing supply ts).1.filterMap Piece.written?

/-- What is declared does not matter for the edges. -/
theorem written_pieces (declared : List Text) (standing : Standing) (supply : Placeholders)
    (ts : List Token) :
    (pieces declared standing supply ts).1.filterMap Piece.written? =
      edges standing supply ts := by
  unfold edges
  generalize [] = declared'
  induction ts generalizing declared declared' standing supply with
  | nil => cases standing <;> rfl
  | cons t ts ih =>
    cases t with
    | connector k =>
      cases standing with
      | node id => exact ih ..
      | start => exact ih ..
      | connector source k' => exact congrArg (_ :: ·) (ih ..)
    | node n =>
      have hnew : ∀ b : Bool, (if b then [Piece.declaration n] else []).filterMap Piece.written? =
          [] := by
        intro b
        cases b <;> rfl
      simp only [pieces, List.filterMap_append, hnew, List.nil_append]
      exact congrArg _ (ih ..)

namespace Standing

/-- The node that stands before the next token. -/
def node? : Standing → Option Text
  | node id => some id
  | _ => none

/-- The number of connectors that wait for a target. -/
def waiting : Standing → Nat
  | connector _ _ => 1
  | _ => 0

theorem length_written_arrive (standing : Standing) (target : Text) :
    ((standing.arrive target).filterMap Piece.written?).length = standing.waiting := by
  cases standing <;> rfl

end Standing

section Edges

variable (standing : Standing) (supply : Placeholders) (ts : List Token)

theorem edges_node (n : Reference) : edges standing supply (.node n :: ts) =
    (standing.arrive n.id).filterMap Piece.written? ++ edges (.node n.id) supply ts := by
  have hnew : ∀ b : Bool, (if b then [Piece.declaration n] else []).filterMap Piece.written? =
      [] := by
    intro b
    cases b <;> rfl
  rw [edges, pieces]
  simp only [List.filterMap_append, hnew, List.nil_append, written_pieces]

variable (k : Connector)

/-- A connector ends the edge that waits for a target, and leaves from the node right before it, or
else from the next placeholder. -/
theorem edges_connector : ∃ es, es.length = standing.waiting ∧
    edges standing supply (.connector k :: ts) =
      es ++ edges (.connector (standing.node?.getD (supply.given 0)) k)
        (supply.after (if standing.node?.isSome then 0 else 1)) ts := by
  cases standing with
  | start => exact ⟨[], rfl, rfl⟩
  | node id => exact ⟨[], rfl, rfl⟩
  | connector source k' =>
    exact ⟨[⟨source, k'.token, k'.mendLabel.value, supply.next.1⟩], rfl, rfl⟩

/-- The edge of a connector arrives at the node right behind it, or else at the next placeholder. -/
theorem edges_of_connector (source : Text) : ∃ es, edges (.connector source k) supply ts =
    ⟨source, k.token, k.mendLabel.value, (ts.head?.bind Token.id?).getD (supply.given 0)⟩ ::
      es := by
  cases ts with
  | nil => exact ⟨[], rfl⟩
  | cons t ts =>
    cases t with
    | node n => exact ⟨_, edges_node ..⟩
    | connector k' => exact ⟨_, rfl⟩

end Edges

/-- The id of the node that stands right behind some tokens. -/
def nodeBehind (standing : Standing) (us : List Token) : Option Text :=
  us.getLast?.elim standing.node? Token.id?

theorem nodeBehind_cons (standing standing' : Standing) {t : Token} (us : List Token)
    (h : standing'.node? = t.id?) :
    nodeBehind standing (t :: us) = nodeBehind standing' us := by
  unfold nodeBehind
  cases us with
  | nil => exact h.symm
  | cons u us => rw [List.getLast?_cons_cons]; rfl

/-- The tokens before a connector give one edge for each of their connectors, and then the connector
leaves from the node right before it, or else from the next placeholder. -/
theorem edges_append (us vs : List Token) (k : Connector) (standing : Standing)
    (supply : Placeholders) :
    ∃ es, es.length = standing.waiting + (us.filterMap Token.connector?).length ∧
      edges standing supply (us ++ .connector k :: vs) =
        es ++ edges
          (.connector ((nodeBehind standing us).getD
            (supply.given (Token.unled standing.node?.isSome us))) k)
          (supply.after (Token.unled standing.node?.isSome (us ++ [.connector k]))) vs := by
  induction us generalizing standing supply with
  | nil => exact edges_connector standing supply vs k
  | cons t us ih =>
    cases t with
    | node n =>
      obtain ⟨es, hlength, hes⟩ := ih (.node n.id) supply
      refine ⟨(standing.arrive n.id).filterMap Piece.written? ++ es, ?_, ?_⟩
      · rw [List.length_append, standing.length_written_arrive, hlength]
        exact congrArg _ (Nat.zero_add _)
      · rw [List.cons_append, edges_node, hes, List.append_assoc,
          nodeBehind_cons standing (.node n.id) us rfl]
        rfl
    | connector k' =>
      obtain ⟨es, hlength, hes⟩ :=
        edges_connector standing supply (us ++ .connector k :: vs) k'
      obtain ⟨es', hlength', hes'⟩ :=
        ih (.connector (standing.node?.getD (supply.given 0)) k')
          (supply.after (if standing.node?.isSome then 0 else 1))
      refine ⟨es ++ es', ?_, ?_⟩
      · rw [List.length_append, hlength, hlength']
        exact congrArg _ (Nat.add_comm _ _)
      · rw [List.cons_append, hes, hes', List.append_assoc, Placeholders.given_after,
          ← Placeholders.after_add, nodeBehind_cons standing
            (.connector (standing.node?.getD (supply.given 0)) k') us rfl]
        rfl

/-- There is one edge for each connector. -/
theorem length_edges (ts : List Token) (standing : Standing) (supply : Placeholders) :
    (edges standing supply ts).length =
      standing.waiting + (ts.filterMap Token.connector?).length := by
  induction ts generalizing standing supply with
  | nil => cases standing <;> rfl
  | cons t ts ih =>
    cases t with
    | node n =>
      rw [edges_node, List.length_append, standing.length_written_arrive, ih]
      exact congrArg _ (Nat.zero_add _)
    | connector k =>
      obtain ⟨es, hlength, hes⟩ := edges_connector standing supply ts k
      rw [hes, List.length_append, hlength, ih]
      exact congrArg _ (Nat.add_comm _ _)

/-- The edge of a connector joins the nodes that stand next to it, with placeholders in place of
those that are missing. -/
theorem getElem?_edges (supply : Placeholders) (us vs : List Token) (k : Connector) :
    (edges .start supply (us ++ .connector k :: vs))[(us.filterMap Token.connector?).length]? =
      some {
        source := (us.getLast?.bind Token.id?).getD (supply.given (Token.unled false us))
        token := k.token
        label := k.mendLabel.value
        target := (vs.head?.bind Token.id?).getD
          (supply.given (Token.unled false (us ++ [.connector k]))) } := by
  have hsource : nodeBehind .start us = us.getLast?.bind Token.id? := by
    unfold nodeBehind
    cases us.getLast? <;> rfl
  obtain ⟨es, hlength, hes⟩ := edges_append us vs k .start supply
  obtain ⟨es', hes'⟩ := edges_of_connector
    (supply.after (Token.unled Standing.start.node?.isSome (us ++ [.connector k]))) vs k
    ((nodeBehind .start us).getD (supply.given (Token.unled false us)))
  have hlength : es.length = (us.filterMap Token.connector?).length :=
    hlength.trans (Nat.zero_add _)
  rw [Placeholders.given_after, Nat.add_zero] at hes'
  rw [hes, ← hlength, List.getElem?_append_right (Nat.le_refl _), Nat.sub_self, ← hsource]
  exact congrArg (·[0]?) hes'

/-- The edges of a line are written with connectors and safe labels, and with an id as the stem of
the placeholders they join ids. -/
theorem of_mem_edges {s : Text} {supply : Placeholders} (hstem : IsId supply.stem) {e : WrittenEdge}
    (he : e ∈ edges .start supply (tokens s)) : e.Proper ∧ IsId e.source ∧ IsId e.target := by
  obtain ⟨p, hp, he⟩ := List.mem_filterMap.1 he
  cases p with
  | declaration n => cases he
  | edge source k target =>
    cases he
    have hnode : ∀ n, Token.node n ∈ tokens s → IsId n.id := by
      intro n hn
      obtain ⟨u, rest, -, hread⟩ := exists_read?_of_mem_tokens hn
      exact Reference.isId_of_read? hread
    obtain ⟨hsource, hk, htarget⟩ :=
      ends_of_edge_mem_pieces hnode (Placeholders.isId_candidate hstem) hp
    exact ⟨⟨isToken_of_mem_tokens hk, isShown_mendLabel k⟩, hsource, htarget⟩

end Statement

/-! ## Edges as lines -/

theorem Connector.value_mendLabel (k : Connector) :
    k.mendLabel.value = k.label.map (Label.clean none) := by
  unfold mendLabel
  cases k.label <;> rfl

/-- The line of an edge between ids is split at its connector again, which has the label, if there
is one that is not empty. -/
theorem Chain.ofText_edgeLine_of_isId {source token target : Text} {label : Option Text}
    (hsource : IsId source) (htoken : Connector.IsToken token)
    (hlabel : ∀ l ∈ label, IsShown l) (htarget : IsId target) :
    Chain.ofText (edgeLine source token label target) =
      ⟨source ++ [' '],
        [⟨⟨token, label.filter fun l => !l.isEmpty⟩, labelText label, ' ' :: target⟩]⟩ := by
  have hspace : Connector.isStroke ' ' = false := by decide
  have hfree : Connector.Free (' ' :: target) :=
    (free_of_isId htarget).append_left (t := [' ']) (by decide)
  -- The label is read if it is there, and otherwise the target is no label.
  have htail : ∃ d v, labelText label ++ ' ' :: target = d :: v ∧ Connector.isStroke d = false ∧
      Chain.readTail (d :: v) =
        ⟨label.filter fun l => !l.isEmpty, labelText label, ' ' :: target⟩ := by
    have hnone : Chain.readTail (' ' :: target) = ⟨none, [], ' ' :: target⟩ :=
      Chain.readTail_of_notMem (by simpa using bar_notMem_of_isId htarget)
    rcases label with _ | _ | ⟨c, l⟩
    · exact ⟨' ', target, rfl, hspace, hnone⟩
    · exact ⟨' ', target, rfl, hspace, hnone⟩
    · refine ⟨'|', (c :: l) ++ '|' :: ' ' :: target, by simp [labelText], by decide, ?_⟩
      rw [Chain.readTail_pipe (hlabel _ rfl).ne_bar (' ' :: target)]
      rfl
  obtain ⟨d, v, hd, hstroke, htail⟩ := htail
  have hfind := Connector.find?_append_token (free_of_isId hsource) hspace htoken
    hstroke v
  rw [edgeLine_eq, hd, Chain.ofText_of_find? hfind, htail, Chain.ofText_of_free hfree]

namespace WrittenEdge

/-- The ids that the edge joins. -/
def ends (e : WrittenEdge) : List Text := [e.source, e.target]

/-- An edge between ids is split into its ends and its connector again. -/
theorem Proper.split_line {e : WrittenEdge} (h : e.Proper) (hsource : IsId e.source)
    (htarget : IsId e.target) :
    (Chain.ofText e.line).sides = e.ends ∧
      (Chain.ofText e.line).connectors = [⟨e.token, e.label.filter fun l => !l.isEmpty⟩] := by
  rw [line, Chain.ofText_edgeLine_of_isId hsource h.token h.label htarget]
  refine ⟨?_, rfl⟩
  simp only [Chain.sides, List.map_cons, List.map_nil, (isLine_of_isId hsource).trim_append_space,
    (isLine_of_isId htarget).trim_space_cons, ends]

end WrittenEdge

/-! ## The lines of a statement -/

namespace Statement

theorem flatMap_ends (ps : List Piece) :
    ps.flatMap Piece.ends = (ps.filterMap Piece.written?).flatMap WrittenEdge.ends := by
  induction ps with
  | nil => rfl
  | cons p ps ih =>
    cases p with
    | declaration n => exact ih
    | edge source k target => exact congrArg (source :: target :: ·) ih

theorem declaredIds_eq (ts : List Token) : declaredIds ts = (framed ts).map Reference.id := by
  unfold declaredIds framed
  induction ts.filterMap Token.node? with
  | nil => rfl
  | cons n ns ih => cases h : n.bare <;> simp [h, ih]

theorem mem_ids_declared {ts : List Token} {id : Text} :
    id ∈ ((framed ts).eraseDupsBy fun m n => m.id == n.id).map Reference.id ↔
      id ∈ (framed ts).map Reference.id := by
  -- Any supply will do, as declarations need no placeholder.
  rw [← declared_pieces_nil ts .start (.ofStem [])]
  constructor
  · intro h
    obtain ⟨n, hn, rfl⟩ := List.mem_map.1 h
    obtain ⟨p, hp, hn⟩ := List.mem_filterMap.1 hn
    cases p with
    | declaration m =>
      cases hn
      exact List.mem_map_of_mem (List.mem_of_find?_eq_some (of_declaration_mem_pieces hp).2)
    | edge source k target => cases hn
  · intro h
    obtain ⟨n, hn, rfl⟩ := List.mem_map.1 h
    obtain ⟨hn, hbare⟩ := List.mem_filter.1 hn
    have ht := Token.mem_filterMap_node?.1 hn
    rcases mem_pieces_declaration [] .start (.ofStem []) ht (by simpa using hbare) with
      h | ⟨m, hid, hm⟩
    · cases h
    · rw [← hid]
      exact List.mem_map_of_mem (List.mem_filterMap.2 ⟨_, hm, rfl⟩)

theorem value_restate (supply : Placeholders) (s : Text) : (restate supply s).1.value =
    ((framed (tokens s)).eraseDupsBy fun m n => m.id == n.id).map (·.mend.value) ++
      ((bareIds (tokens s)).eraseDups.filter fun id => !(declaredIds (tokens s) ++
        (edges .start supply (tokens s)).flatMap WrittenEdge.ends).contains id) ++
      (edges .start supply (tokens s)).map WrittenEdge.line := by
  rw [← declared_pieces_nil (tokens s) .start supply, map_line_declared, edges, map_line_written,
    ← flatMap_ends, restate]
  simp only [List.partition_eq_filter_filter]
  rfl

/-- The statement is written again as declarations of nodes, ids that stand alone and edges, all
told from its tokens. -/
structure Restated (supply : Placeholders) (s : Text) (nodes : List Reference) (ids : List Text)
    (es : List WrittenEdge) : Prop where
  lines : (restate supply s).1.value =
    nodes.map (·.mend.value) ++ ids ++ es.map WrittenEdge.line
  /-- Each id of a framed node is declared once, by the first framed node with it. -/
  declared : nodes = (framed (tokens s)).eraseDupsBy fun m n => m.id == n.id
  /-- The other bare nodes that no edge joins stand alone, once each. -/
  alone : ids = (bareIds (tokens s)).eraseDups.filter fun id =>
    !(nodes.map Reference.id ++ es.flatMap WrittenEdge.ends).contains id
  /-- There is one edge for each connector. -/
  length_edges : es.length = ((tokens s).filterMap Token.connector?).length
  /-- It joins the nodes right before and right behind its connector, with placeholders in place of
  those that are missing. -/
  edge : ∀ us k vs, tokens s = us ++ .connector k :: vs →
    es[(us.filterMap Token.connector?).length]? = some {
      source := (us.getLast?.bind Token.id?).getD (supply.given (Token.unled false us))
      token := k.token
      label := k.label.map (Label.clean none)
      target := (vs.head?.bind Token.id?).getD
        (supply.given (Token.unled false (us ++ [.connector k]))) }
  /-- The line of an edge is split into the edge again. -/
  split : ∀ e ∈ es, (Chain.ofText e.line).sides = [e.source, e.target] ∧
    (Chain.ofText e.line).connectors = [⟨e.token, e.label.filter fun l => !l.isEmpty⟩]
  /-- No node is lost. -/
  named : ∀ n, Token.node n ∈ tokens s →
    n.id ∈ nodes.map Reference.id ++ ids ++ es.flatMap WrittenEdge.ends

/-- A statement is written again as what its tokens tell. Its placeholders are ids, all different
and none of them in use before. -/
theorem exists_restated {supply : Placeholders} (hstem : IsId supply.stem) (s : Text) :
    (∃ nodes ids es, Restated supply s nodes ids es) ∧
      Function.Injective supply.given ∧
      ∀ n, IsId (supply.given n) ∧ supply.given n ∉ supply.inUse := by
  refine ⟨⟨_, _, edges .start supply (tokens s), ?_, rfl, rfl, ?_, ?_, ?_, ?_⟩,
    supply.given_injective,
    fun n => ⟨Placeholders.isId_given hstem n, supply.given_notMem n⟩⟩
  · have hused : ∀ id, (declaredIds (tokens s) ++
        (edges .start supply (tokens s)).flatMap WrittenEdge.ends).contains id =
          (((framed (tokens s)).eraseDupsBy fun m n => m.id == n.id).map Reference.id ++
            (edges .start supply (tokens s)).flatMap WrittenEdge.ends).contains id := by
      intro id
      rw [Bool.eq_iff_iff, List.contains_iff_mem, List.contains_iff_mem, List.mem_append,
        List.mem_append, mem_ids_declared, declaredIds_eq]
    rw [value_restate]
    simp only [hused]
  · exact (length_edges _ _ _).trans (Nat.zero_add _)
  · intro us k vs h
    rw [h, getElem?_edges, Connector.value_mendLabel]
  · intro e he
    obtain ⟨hproper, hsource, htarget⟩ := of_mem_edges hstem he
    exact hproper.split_line hsource htarget
  · intro n hn
    simp only [List.mem_append, mem_ids_declared]
    by_cases hbare : n.bare = true
    · have hmem : n.id ∈ (bareIds (tokens s)).eraseDups := by
        refine List.mem_eraseDups.2 (List.mem_filterMap.2
          ⟨n, List.mem_filterMap.2 ⟨_, hn, rfl⟩, ?_⟩)
        rw [if_pos hbare]
      by_cases hused : n.id ∈ (framed (tokens s)).map Reference.id ∨
          n.id ∈ (edges .start supply (tokens s)).flatMap WrittenEdge.ends
      · exact hused.imp_left .inl
      · refine .inl (.inr (List.mem_filter.2 ⟨hmem, ?_⟩))
        rw [← mem_ids_declared, ← List.mem_append] at hused
        simpa using hused
    · refine .inl (.inl (List.mem_map_of_mem (List.mem_filter.2
        ⟨List.mem_filterMap.2 ⟨_, hn, rfl⟩, ?_⟩)))
      simpa using hbare

theorem exists_restated_dangling :
    let supply : Placeholders := ⟨"N".toList, ["A".toList, "N2".toList], 0⟩
    let s := "--> A[x] B ==>|y*| -.-> C{c} D A(z) E D".toList
    IsId supply.stem ∧
      (restate supply s).1.value =
        ["A[x]", "C{c}", "D", "E", "N --> A", "B ==>|y| N3", "N3 -.-> C"].map String.toList ∧
      (∃ nodes ids es, Restated supply s nodes ids es) ∧
      Function.Injective supply.given ∧
      ∀ n, IsId (supply.given n) ∧ supply.given n ∉ supply.inUse := by
  intro supply s
  have hstem : IsId supply.stem := by decide
  exact ⟨hstem, by decide +kernel, exists_restated hstem s⟩

end Statement

end Flowmend
