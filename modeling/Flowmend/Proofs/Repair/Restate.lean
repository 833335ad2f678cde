import Flowmend.Proofs.Repair.EdgeLine
import Flowmend.Proofs.Repair.Node
import Flowmend.Proofs.Statement.Lexeme

/-!
# Statements that are written again

A broken statement is written again from its tokens: each framed node once as a declaration, and one
edge per connector, from the token before it to the token after it. `Statement.Told` says which
nodes and edges are read on these lines, one by one; all of them are shown (`shown_restate`).
-/

namespace Flowmend

open Text Extract

/-! ## Placeholders -/

namespace Placeholders

/-- All placeholders are ids, and none is the word of a directive. -/
def Leading (supply : Placeholders) : Prop :=
  ∀ n, IsId (candidate supply.stem n) ∧ candidate supply.stem n ∉ directiveWords

variable {supply : Placeholders}

theorem Leading.next (h : supply.Leading) : supply.next.2.Leading := h

theorem stem_reserve (supply : Placeholders) (ids : List Text) :
    (supply.reserve ids).stem = supply.stem := by
  induction ids generalizing supply with
  | nil => rfl
  | cons id ids ih =>
    refine (ih _).trans ?_
    unfold reserveOne
    split <;> rfl

theorem leading_reserve (h : supply.Leading) (ids : List Text) : (supply.reserve ids).Leading := by
  intro n
  rw [stem_reserve]
  exact h n

end Placeholders

namespace Statement

/-! ## Pieces -/

section Inversion

variable {declared : List Text} {standing : Standing} {supply : Placeholders} {ts : List Token}
  {p : Piece}

/-- The pieces of a node are its declaration, if it is new, the edge that arrives at it, and what
the tokens behind it give. -/
theorem mem_pieces_node {n : Reference} :
    p ∈ (pieces declared standing supply (.node n :: ts)).1 ↔
      (n.bare = false ∧ n.id ∉ declared ∧ p = .declaration n) ∨
      (∃ source k, standing = .connector source k ∧ p = .edge source k n.id) ∨
      p ∈ (pieces (if n.bare then declared else n.id :: declared) (.node n.id) supply ts).1 := by
  have harrive : p ∈ standing.arrive n.id ↔
      ∃ source k, standing = .connector source k ∧ p = .edge source k n.id := by
    cases standing <;> simp [Standing.arrive]
  rw [← harrive]
  simp [pieces, and_assoc]

/-- The pieces of a connector are an edge to a placeholder, if another connector has left its source
before, and what the tokens behind it give once it has left its own. -/
theorem mem_pieces_connector {k : Connector}
    (h : p ∈ (pieces declared standing supply (.connector k :: ts)).1) :
    (∃ source k', standing = .connector source k' ∧ p = .edge source k' supply.next.1) ∨
      ∃ source supply', (standing = .node source ∨ source = supply.next.1) ∧
        (supply' = supply ∨ supply' = supply.next.2) ∧
        p ∈ (pieces declared (.connector source k) supply' ts).1 := by
  cases standing with
  | node id => exact .inr ⟨id, _, .inl rfl, .inl rfl, h⟩
  | start => exact .inr ⟨_, _, .inr rfl, .inr rfl, h⟩
  | connector source k' =>
    rcases List.mem_cons.1 h with hp | h
    · exact .inl ⟨source, k', rfl, hp⟩
    · exact .inr ⟨_, _, .inr rfl, .inr rfl, h⟩

end Inversion

/-- The id that an edge leaves next, or has left, satisfies `P`. -/
def Standing.Has (P : Text → Prop) : Standing → Prop
  | start => True
  | node id | connector id _ => P id

/-- The ends of an edge have what the id before the tokens, the ids of their nodes and all
placeholders have. -/
theorem of_edge_mem_pieces {P : Text → Prop} {ts : List Token} {declared : List Text}
    {standing : Standing} {supply : Placeholders} {source target : Text} {k : Connector}
    (hstanding : standing.Has P) (hnode : ∀ n, Token.node n ∈ ts → P n.id)
    (hplaceholder : ∀ m, P (Placeholders.candidate supply.stem m))
    (h : .edge source k target ∈ (pieces declared standing supply ts).1) :
    P source ∧ ((∃ s, standing = .connector s k) ∨ .connector k ∈ ts) ∧ P target := by
  induction ts generalizing declared standing supply with
  | nil =>
    cases standing with
    | start | node => simp [pieces] at h
    | connector source' k' =>
      cases List.mem_singleton.1 h
      exact ⟨hstanding, .inl ⟨_, rfl⟩, hplaceholder _⟩
  | cons t ts ih =>
    have htail := fun n (hn : Token.node n ∈ ts) => hnode n (List.mem_cons_of_mem t hn)
    cases t with
    | node n =>
      have hnext : Standing.Has P (.node n.id) := hnode n List.mem_cons_self
      rcases mem_pieces_node.1 h with ⟨-, -, hp⟩ | ⟨source', k', rfl, hp⟩ | h
      · cases hp
      · cases hp
        exact ⟨hstanding, .inl ⟨_, rfl⟩, hnext⟩
      · obtain ⟨hsource, hk, htarget⟩ := ih hnext htail hplaceholder h
        exact ⟨hsource, .inr (List.mem_cons_of_mem _ (hk.resolve_left (by simp))), htarget⟩
    | connector k' =>
      rcases mem_pieces_connector h with ⟨source', k'', rfl, hp⟩ | ⟨s, supply', hs, hsupply, h⟩
      · cases hp
        exact ⟨hstanding, .inl ⟨_, rfl⟩, hplaceholder _⟩
      · have hnext : Standing.Has P (.connector s k') := by
          rcases hs with rfl | rfl
          · exact hstanding
          · exact hplaceholder _
        have hplaceholder' : ∀ m, P (Placeholders.candidate supply'.stem m) := by
          rcases hsupply with rfl | rfl <;> exact hplaceholder
        obtain ⟨hsource, hk, htarget⟩ := ih hnext htail hplaceholder' h
        refine ⟨hsource, .inr ?_, htarget⟩
        rcases hk with ⟨_, hk⟩ | hk
        · cases hk
          exact List.mem_cons_self
        · exact List.mem_cons_of_mem _ hk

/-- The ends of an edge of a statement have what the ids of its nodes and all placeholders have. -/
theorem ends_of_edge_mem_pieces {P : Text → Prop} {ts : List Token} {supply : Placeholders}
    {source target : Text} {k : Connector} (hnode : ∀ n, Token.node n ∈ ts → P n.id)
    (hplaceholder : ∀ m, P (Placeholders.candidate supply.stem m))
    (h : .edge source k target ∈ (pieces [] .start supply ts).1) :
    P source ∧ .connector k ∈ ts ∧ P target := by
  have hstart : Standing.Has P .start := trivial
  obtain ⟨hsource, hk, htarget⟩ := of_edge_mem_pieces hstart hnode hplaceholder h
  exact ⟨hsource, hk.resolve_left (by simp), htarget⟩

/-- A declaration declares the first framed node with its id. -/
theorem of_declaration_mem_pieces {ts : List Token} {declared : List Text} {standing : Standing}
    {supply : Placeholders} {n : Reference}
    (h : .declaration n ∈ (pieces declared standing supply ts).1) :
    n.id ∉ declared ∧ ((ts.filterMap Token.node?).filter fun m => !m.bare).find?
      (fun m => m.id == n.id) = some n := by
  induction ts generalizing declared standing supply with
  | nil => cases standing <;> simp [pieces] at h
  | cons t ts ih =>
    cases t with
    | node m =>
      rcases mem_pieces_node.1 h with ⟨hbare, hnew, hp⟩ | ⟨_, _, -, hp⟩ | h
      · cases hp
        exact ⟨hnew, by simp [Token.node?, hbare]⟩
      · cases hp
      · obtain ⟨hdeclared, hfind⟩ := ih h
        by_cases hm : m.bare = true
        · rw [if_pos hm] at hdeclared
          exact ⟨hdeclared, by simpa [Token.node?, hm] using hfind⟩
        · rw [if_neg hm, List.mem_cons, not_or] at hdeclared
          have hne : (m.id == n.id) = false := by simpa using Ne.symm hdeclared.1
          exact ⟨hdeclared.2, by simpa [Token.node?, hm, hne] using hfind⟩
    | connector k =>
      rcases mem_pieces_connector h with ⟨_, _, -, hp⟩ | ⟨_, _, -, -, h⟩
      · cases hp
      · exact ih h

/-! ## What the pieces hold -/

section Pieces

variable (declared : List Text) (standing : Standing) (supply : Placeholders) {ts : List Token}

/-- What later tokens contribute stays, whatever stands before them. -/
theorem exists_pieces_cons (t : Token) :
    ∃ declared' standing' supply', ∀ p ∈ (pieces declared' standing' supply' ts).1,
      p ∈ (pieces declared standing supply (t :: ts)).1 := by
  cases t with
  | node n => exact ⟨_, _, _, fun p hp => List.mem_append_right _ hp⟩
  | connector k =>
    cases standing with
    | node id => exact ⟨_, _, _, fun p hp => hp⟩
    | start => exact ⟨_, _, _, fun p hp => hp⟩
    | connector source k' => exact ⟨_, _, _, fun p hp => List.mem_cons_of_mem _ hp⟩

/-- A connector that has left its source gives an edge. -/
theorem exists_edge_of_standing (source : Text) (k : Connector) :
    ∃ target, .edge source k target ∈
      (pieces declared (.connector source k) supply ts).1 := by
  cases ts with
  | nil => exact ⟨_, List.mem_singleton_self _⟩
  | cons t ts =>
    cases t with
    | node n =>
      exact ⟨n.id, List.mem_append_left _ (List.mem_append_right _ (List.mem_singleton_self _))⟩
    | connector k' => exact ⟨_, List.mem_cons_self⟩

/-- A framed node is declared, unless it was before. -/
theorem mem_pieces_declaration {n : Reference} (hn : .node n ∈ ts) (hbare : n.bare = false) :
    n.id ∈ declared ∨ ∃ m, m.id = n.id ∧
      .declaration m ∈ (pieces declared standing supply ts).1 := by
  induction ts generalizing declared standing supply with
  | nil => cases hn
  | cons t ts ih =>
    rcases List.mem_cons.1 hn with rfl | hts
    · by_cases hmem : n.id ∈ declared
      · exact .inl hmem
      · exact .inr ⟨n, rfl, mem_pieces_node.2 (.inl ⟨hbare, hmem, rfl⟩)⟩
    · cases t with
      | node m =>
        rcases ih (if m.bare then declared else m.id :: declared) (.node m.id) supply hts with
          hmem | ⟨m', hid, hmem⟩
        · split at hmem
          · exact .inl hmem
          · rename_i hm
            rcases List.mem_cons.1 hmem with hid | hmem
            · by_cases hdeclared : m.id ∈ declared
              · exact .inl (hid ▸ hdeclared)
              · exact .inr ⟨m, hid.symm,
                  mem_pieces_node.2 (.inl ⟨by simpa using hm, hdeclared, rfl⟩)⟩
            · exact .inl hmem
        · exact .inr ⟨m', hid, mem_pieces_node.2 (.inr (.inr hmem))⟩
      | connector k =>
        cases standing with
        | node id => exact ih _ _ _ hts
        | start => exact ih _ _ _ hts
        | connector source k' =>
          rcases ih _ _ _ hts with hmem | ⟨m, hid, hmem⟩
          · exact .inl hmem
          · exact .inr ⟨m, hid, List.mem_cons_of_mem _ hmem⟩

/-- Between two nodes, a connector gives the edge that joins them. -/
theorem mem_pieces_edge {m n : Reference} {k : Connector}
    (h : [Token.node m, .connector k, .node n] <:+: ts) :
    .edge m.id k n.id ∈ (pieces declared standing supply ts).1 := by
  induction ts generalizing declared standing supply with
  | nil => cases List.infix_nil.1 h
  | cons t ts ih =>
    rcases List.infix_cons_iff.1 h with ⟨us, hus⟩ | h
    · cases hus
      exact List.mem_append_right _
        (List.mem_append_left _ (List.mem_append_right _ (List.mem_singleton_self _)))
    · obtain ⟨declared', standing', supply', hsub⟩ :=
        exists_pieces_cons declared standing supply t
      exact hsub _ (ih _ _ _ h)

/-- A connector behind a node gives an edge that leaves from the node. -/
theorem exists_edge_from {n : Reference} {k : Connector}
    (h : [Token.node n, .connector k] <:+: ts) :
    ∃ target, .edge n.id k target ∈ (pieces declared standing supply ts).1 := by
  induction ts generalizing declared standing supply with
  | nil => cases List.infix_nil.1 h
  | cons t ts ih =>
    rcases List.infix_cons_iff.1 h with ⟨us, hus⟩ | h
    · cases hus
      obtain ⟨target, hmem⟩ := exists_edge_of_standing
        (if n.bare then declared else n.id :: declared) supply n.id k
      exact ⟨target, List.mem_append_right _ hmem⟩
    · obtain ⟨declared', standing', supply', hsub⟩ :=
        exists_pieces_cons declared standing supply t
      exact (ih _ _ _ h).imp fun _ hmem => hsub _ hmem

/-- A connector before a node gives an edge that arrives at the node. It leaves the node right
before the connector, or a placeholder. -/
theorem exists_edge_to {P : Text → Prop} {us vs : List Token} {k : Connector} {n : Reference}
    (hlast : ∀ m, us.getLast? = some (.node m) → P m.id)
    (hstanding : us = [] → ∀ id, standing = .node id → P id)
    (hplaceholder : ∀ m, P (Placeholders.candidate supply.stem m)) :
    ∃ source, P source ∧ .edge source k n.id ∈
      (pieces declared standing supply (us ++ .connector k :: .node n :: vs)).1 := by
  have harrive : ∀ source (ps : List Piece), Piece.edge source k n.id ∈
      ps ++ (Standing.connector source k).arrive n.id := fun source ps =>
    List.mem_append_right _ (List.mem_singleton_self _)
  induction us generalizing declared standing supply with
  | nil =>
    cases standing with
    | node id => exact ⟨id, hstanding rfl id rfl, List.mem_append_left _ (harrive _ _)⟩
    | start => exact ⟨_, hplaceholder _, List.mem_append_left _ (harrive _ _)⟩
    | connector source k' =>
      exact ⟨_, hplaceholder _, List.mem_cons_of_mem _ (List.mem_append_left _ (harrive _ _))⟩
  | cons t us ih =>
    have hlast' : ∀ m, us.getLast? = some (.node m) → P m.id := by
      intro m hm
      refine hlast m ?_
      rwa [List.getLast?_cons_of_ne_nil (by rintro rfl; cases hm)]
    cases t with
    | node m =>
      obtain ⟨source, hsource, hmem⟩ := ih (if m.bare then declared else m.id :: declared)
        (.node m.id) supply hlast' (by rintro rfl id ⟨⟩; exact hlast m rfl) hplaceholder
      exact ⟨source, hsource, List.mem_append_right _ hmem⟩
    | connector k' =>
      have hnone : ∀ {s id}, Standing.connector s k' = .node id → P id := by simp
      cases standing with
      | node id => exact ih _ _ _ hlast' (fun _ _ => hnone) hplaceholder
      | start => exact ih _ _ _ hlast' (fun _ _ => hnone) hplaceholder
      | connector source k'' =>
        obtain ⟨source, hsource, hmem⟩ := ih declared (.connector supply.next.1 k') supply.next.2
          hlast' (fun _ _ => hnone) hplaceholder
        exact ⟨source, hsource, List.mem_cons_of_mem _ hmem⟩

end Pieces

/-! ## What the tokens tell -/

/-- What is read on the lines of a statement that is written again: framed nodes on their
declarations, and the nodes next to a connector on its edge, with the edge between them. A
declaration that opens with the word of a directive is none, and neither is such an edge; the edge
from any other reserved word leaves nothing. Where cleaning the label of a declared node brings out
a connector, the declaration tells what is read on it. -/
inductive Told (s : Text) : Item → Prop
  | declared {n : Reference} (framed : n ∈ framedNodes s) (word : n.id ∉ directiveWords) :
    Told s (.node n.id)
  | exposed {n : Reference} {item : Item}
    (first : (framedNodes s).find? (fun m => m.id == n.id) = some n)
    (mended : ¬Connector.Free n.mend.value) (on : item.On n.mend.value) : Told s item
  | source {n : Reference} {k : Connector} (next : [.node n, .connector k] <:+: tokens s)
    (reserved : ¬Reserved n.id) : Told s (.node n.id)
  | target {us vs : List Token} {k : Connector} {n : Reference}
    (split : tokens s = us ++ .connector k :: .node n :: vs)
    (word : ∀ m, us.getLast? = some (.node m) → m.id ∉ directiveWords) : Told s (.node n.id)
  | arc {m n : Reference} {k : Connector} (next : [.node m, .connector k, .node n] <:+: tokens s)
    (reserved : ¬Reserved m.id) : Told s (.arc ⟨m.id, n.id, k.kind⟩)

/-! ## Tokens of a statement -/

theorem mem_lexemes_of_mem_tokens {s : Text} {t : Token} (h : t ∈ tokens s) :
    ∃ l ∈ lexemes s, l.token? = some t.unlabelled := by
  have := List.mem_map_of_mem (f := Token.unlabelled) h
  rw [tokens, map_unlabelled_ofLexemes] at this
  exact List.mem_filterMap.1 this

/-- A reference of a text is read where it stands. -/
theorem exists_read?_of_mem_tokens {s : Text} {n : Reference} (hn : .node n ∈ tokens s) :
    ∃ u rest, u <:+ s ∧ Reference.read? u = some (n, rest) := by
  obtain ⟨l, hl, htoken⟩ := mem_lexemes_of_mem_tokens hn
  obtain ⟨c, u, rest, hu, hread⟩ := exists_read_of_mem_lexemes hl
  have hnode : l = .node n := by
    cases l <;> simp_all [Lexeme.token?, Token.unlabelled]
  subst hnode
  exact ⟨c :: u, rest, hu, Lexeme.read?_of_read hread⟩

theorem of_node_mem_tokens {s : Text} (hs : ∀ c ∈ s, isBreak c = false) {n : Reference}
    (hn : .node n ∈ tokens s) : IsId n.id ∧ ∀ c ∈ n.text, isBreak c = false := by
  obtain ⟨u, rest, hu, hread⟩ := exists_read?_of_mem_tokens hn
  refine ⟨Reference.isId_of_read? hread, fun d hd => hs d (hu.subset ?_)⟩
  rw [(Reference.eq_append_of_read? hread).1]
  exact List.mem_append_left rest hd

theorem isToken_of_mem_tokens {s : Text} {k : Connector} (hk : .connector k ∈ tokens s) :
    Connector.IsToken k.token := by
  obtain ⟨l, hl, htoken⟩ := mem_lexemes_of_mem_tokens hk
  obtain ⟨c, u, rest, -, hread⟩ := exists_read_of_mem_lexemes hl
  have hconnector : l = .connector k.token := by
    cases l <;> simp_all [Lexeme.token?, Token.unlabelled]
  subst hconnector
  exact Connector.isToken_of_token? (Lexeme.token?_of_read hread)

theorem mem_tokens_of_mem_framedNodes {s : Text} {n : Reference} (h : n ∈ framedNodes s) :
    .node n ∈ tokens s ∧ n.bare = false := by
  obtain ⟨hmem, hbare⟩ := List.mem_filter.1 h
  exact ⟨Token.mem_filterMap_node?.1 hmem, by simpa using hbare⟩

end Statement

open Statement

/-! ## Lines of pieces -/

/-- The lines of a statement that is written again have a line for each piece. -/
theorem mem_restate {s : Text} {supply : Placeholders} {p : Piece}
    (h : p ∈ (pieces [] .start supply (tokens s)).1) :
    p.line.value ∈ (restate supply s).1.value := by
  unfold restate
  simp only [List.partition_eq_filter_filter, List.mem_append, List.mem_map, List.mem_filter]
  by_cases hp : p.isDeclaration = true
  · exact .inl (.inl ⟨p, ⟨h, hp⟩, rfl⟩)
  · exact .inr ⟨p, ⟨h, by simpa using hp⟩, rfl⟩

section Restate

variable {s : Text} (hs : ∀ c ∈ s, isBreak c = false) {supply : Placeholders}

include hs

/-- The first framed node with its id is declared on a line of its own. -/
theorem isLine_mend_of_framed {n : Reference} (hn : n ∈ framedNodes s) :
    ∃ f, n.frame = some f ∧ IsId n.id ∧ IsLine n.mend.value := by
  obtain ⟨hmem, hbare⟩ := mem_tokens_of_mem_framedNodes hn
  obtain ⟨f, hf⟩ : ∃ f, n.frame = some f := by
    rw [Reference.bare] at hbare
    exact Option.isSome_iff_exists.1 (by simpa using hbare)
  obtain ⟨hid, hbreak⟩ := of_node_mem_tokens hs hmem
  exact ⟨f, hf, hid, Reference.isLine_mend hid hf hbreak⟩

theorem shown_of_declared {n : Reference} (hn : n ∈ framedNodes s) (hword : n.id ∉ directiveWords) :
    (Item.node n.id).Shown (restate supply s).1.value := by
  obtain ⟨hmem, hbare⟩ := mem_tokens_of_mem_framedNodes hn
  rcases mem_pieces_declaration [] .start supply hmem hbare with hnone | ⟨m, hid, hpiece⟩
  · cases hnone
  obtain ⟨f, hf, hmid, hline⟩ := isLine_mend_of_framed hs
    (List.mem_of_find?_eq_some (of_declaration_mem_pieces hpiece).2)
  refine Item.On.shown ?_ hline (mem_restate hpiece)
  rw [← hid] at hword ⊢
  rw [Reference.value_mend hf]
  exact mem_mentions_framed hmid hword _

theorem shown_of_exposed {n : Reference} {item : Item}
    (hfirst : (framedNodes s).find? (fun m => m.id == n.id) = some n) (hon : item.On n.mend.value) :
    item.Shown (restate supply s).1.value := by
  have hn := List.mem_of_find?_eq_some hfirst
  obtain ⟨hmem, hbare⟩ := mem_tokens_of_mem_framedNodes hn
  obtain ⟨-, -, -, hline⟩ := isLine_mend_of_framed hs hn
  rcases mem_pieces_declaration [] .start supply hmem hbare with hnone | ⟨m, hid, hpiece⟩
  · cases hnone
  have hm := (of_declaration_mem_pieces hpiece).2
  rw [hid] at hm
  obtain rfl : m = n := Option.some.inj (hm.symm.trans hfirst)
  exact hon.shown hline (mem_restate hpiece)

variable (hsupply : supply.Leading)

include hsupply

/-- The edge of a piece is written between ids. -/
theorem isId_of_edge_mem_pieces {source target : Text} {k : Connector}
    (h : .edge source k target ∈ (pieces [] .start supply (tokens s)).1) :
    IsId source ∧ Connector.IsToken k.token ∧ IsId target := by
  obtain ⟨hsource, hk, htarget⟩ := ends_of_edge_mem_pieces (P := IsId)
    (fun n hn => (of_node_mem_tokens hs hn).1) (fun m => (hsupply m).1) h
  exact ⟨hsource, isToken_of_mem_tokens hk, htarget⟩

theorem shown_of_edge_mem_pieces {source target : Text} {k : Connector} {item : Item}
    (h : .edge source k target ∈ (pieces [] .start supply (tokens s)).1)
    (hon : item.On (edgeLine source k.token k.mendLabel.value target)) :
    item.Shown (restate supply s).1.value := by
  obtain ⟨hsource, hk, htarget⟩ := isId_of_edge_mem_pieces hs hsupply h
  exact hon.shown (isLine_edgeLine (isLine_of_isId hsource) hk (isShown_mendLabel k)
    (isLine_of_isId htarget)) (mem_restate h)

/-- What the tokens of a statement tell is shown by the lines that take its place. -/
theorem shown_restate {item : Item} (h : Told s item) :
    item.Shown (restate supply s).1.value := by
  cases h with
  | declared framed word => exact shown_of_declared hs framed word
  | exposed first _ on => exact shown_of_exposed hs first on
  | @source n k next reserved =>
    obtain ⟨target, hmem⟩ := exists_edge_from [] .start supply next
    obtain ⟨hid, hk, htarget⟩ := isId_of_edge_mem_pieces hs hsupply hmem
    refine shown_of_edge_mem_pieces hs hsupply hmem (on_edgeLine_of_source
      (isSource_of_isId hid fun h => reserved (.inl h)) hk (isShown_mendLabel k)
      (isTarget_of_isId htarget _) ?_)
    rw [Header.skip_of_not_reserved hid reserved, references_of_isId hid]
    exact List.mem_singleton_self _
  | @target us vs k n split word =>
    obtain ⟨source, hword, hmem⟩ : ∃ source, source ∉ directiveWords ∧
        .edge source k n.id ∈ (pieces [] .start supply (tokens s)).1 := by
      rw [split]
      exact exists_edge_to [] .start supply word (fun _ _ => by simp) fun m => (hsupply m).2
    obtain ⟨hid, hk, htarget⟩ := isId_of_edge_mem_pieces hs hsupply hmem
    refine shown_of_edge_mem_pieces hs hsupply hmem (on_edgeLine_of_target
      (isSource_of_isId hid hword) hk (isShown_mendLabel k) (isTarget_of_isId htarget _) ?_)
    rw [references_of_isId htarget]
    exact List.mem_singleton_self _
  | @arc m n k next reserved =>
    have hmem := mem_pieces_edge [] .start supply next
    obtain ⟨hid, hk, htarget⟩ := isId_of_edge_mem_pieces hs hsupply hmem
    refine shown_of_edge_mem_pieces hs hsupply hmem (on_edgeLine_of_ends
      (isSource_of_isId hid fun h => reserved (.inl h)) hk (isShown_mendLabel k)
      (isTarget_of_isId htarget _) ?_ ?_ rfl)
    · rw [Header.skip_of_not_reserved hid reserved, lastId, references_of_isId hid]
      rfl
    · rw [firstId, references_of_isId htarget]
      rfl

end Restate

end Flowmend
