import Flowmend.Proofs.Graph.Side
import Flowmend.Proofs.Header
import Flowmend.Proofs.Statement.FanOut

/-!
# Lines that open with a framed node

A line that opens with a framed node declares this node, whatever the label of the node holds and
whatever follows (`mem_mentions_framed`), unless the id is the word of a directive.
-/

namespace Flowmend

open Text Extract

theorem Shape.isSome_open?_opener (s : Shape) (t : Text) :
    (open? (s.opener ++ t)).isSome = true := by
  rw [open?, List.findSome?_isSome_iff]
  refine ⟨s, by cases s <;> decide, ?_⟩
  rw [after?_append_self]
  rfl

/-- What a framed node starts with: its id and the brackets that open its label. -/
def framedText (id : Text) (s : Shape) : Text := id ++ s.opener

section Framed

variable {id : Text} {s : Shape} (hid : IsId id)

include hid

theorem isStroke_of_mem_framedText : ∀ c ∈ framedText id s, Connector.isStroke c = false := by
  intro c hc
  rcases List.mem_append.1 hc with hc | hc
  · exact isStroke_of_isIdChar (hid.isIdChar c hc)
  · exact s.isStroke_opener c hc

theorem framedText_ne_nil : framedText id s ≠ [] := by
  simp [framedText, hid.ne_nil]

theorem trimmed_framedText : Trimmed (framedText id s) := by
  constructor
  · intro c hc
    rw [framedText, List.head?_append_of_ne_nil _ hid.ne_nil] at hc
    exact isBlank_of_isIdChar (hid.isIdChar c (List.mem_of_mem_head? hc))
  · intro c hc
    rw [framedText, List.getLast?_append_of_ne_nil _ (by cases s <;> simp [Shape.opener])] at hc
    cases s <;> cases hc <;> decide

/-- The text of a framed node is read as this node. -/
theorem read?_framedText (t : Text) :
    ∃ f rest, Reference.read? (framedText id s ++ t) = some (⟨id, some f⟩, rest) := by
  have hhead : ∀ c ∈ (s.opener ++ t).head?, isIdChar c = false := by
    intro c hc
    rw [List.head?_append] at hc
    rcases s.head?_opener with h | h | h <;> rw [h] at hc <;> cases hc <;> decide
  have hempty : id.isEmpty = false := by simpa using hid.ne_nil
  obtain ⟨p, hp⟩ := Option.isSome_iff_exists.1 (s.isSome_open?_opener t)
  rw [framedText, List.append_assoc, Reference.read?, leadingId_append hid.isIdChar hhead,
    afterId_append hid.isIdChar hhead, hempty, Frame.read?, hp]
  exact ⟨_, _, rfl⟩

theorem opening?_framedText (t : Text) :
    ∃ f rest, Reference.opening? (framedText id s ++ t) = some (⟨id, some f⟩, rest) := by
  obtain ⟨c, u, hc⟩ := List.exists_cons_of_ne_nil hid.ne_nil
  have hpad : isPad c = false := by
    have := hid.isIdChar c (hc ▸ List.mem_cons_self)
    simp only [isPad, Bool.or_eq_false_iff, beq_eq_false_iff_ne]
    exact ⟨ne_of_isIdChar this (by decide), ne_of_isIdChar this (by decide)⟩
  have hdrop : (framedText id s ++ t).dropWhile isPad = framedText id s ++ t := by
    rw [framedText, hc]
    exact dropWhile_of_head isPad _ hpad
  rw [Reference.opening?, hdrop]
  exact read?_framedText hid t

theorem references_framedText (t : Text) :
    ∃ f ns, references (framedText id s ++ t) = ⟨id, some f⟩ :: ns := by
  obtain ⟨f, rest, hread⟩ := read?_framedText (s := s) hid t
  obtain ⟨c, u, hc⟩ := List.exists_cons_of_ne_nil (framedText_ne_nil (s := s) hid)
  have hstroke := isStroke_of_mem_framedText (s := s) hid c (hc ▸ List.mem_cons_self)
  rw [hc, List.cons_append] at hread ⊢
  exact ⟨f, _, references_of_read? (Connector.token?_cons_of_not_stroke _ hstroke) hread⟩

/-- The brackets of a framed node open before an ampersand behind it. -/
theorem skips_framedText : ∃ depth, FanOut.Skips 0 (framedText id s) depth := by
  have hnone : '&' ∉ framedText id s := fun h => by
    rcases List.mem_append.1 h with h | h
    · cases hid.isIdChar _ h
    · cases s <;> revert h <;> decide
  exact ⟨_, (FanOut.sheltered_of_notMem hnone).skips⟩

/-- The first part of a side keeps the framed node that the side opens with. -/
theorem mem_sideNodes_framedText (role : Role) (t : Text) :
    id ∈ (sideNodes role (framedText id s ++ t)).map Reference.id := by
  obtain ⟨depth, hskips⟩ := skips_framedText (s := s) hid
  obtain ⟨v, hv⟩ := (trimmed_framedText (s := s) hid).exists_trim_append (framedText_ne_nil hid)
    (FanOut.cut depth t).1
  have hne : (!(framedText id s ++ v).isEmpty) = true := by
    simp [framedText_ne_nil hid]
  have hmem : framedText id s ++ v ∈ fanOut (framedText id s ++ t) := by
    rw [fanOut_eq, FanOut.parts, hskips t, List.map_cons, hv]
    exact List.mem_filter.2 ⟨List.mem_cons_self, hne⟩
  obtain ⟨f, ns, hrefs⟩ := references_framedText (s := s) hid v
  refine List.mem_map.2 ⟨⟨id, some f⟩, List.mem_flatMap.2 ⟨_, List.mem_map_of_mem hmem, ?_⟩, rfl⟩
  rw [hrefs]
  simp [nodesOfPart, Reference.bare]

/-- A line that opens with a framed node is no comment and holds no header, and it is a directive
only if the id is. -/
theorem line_framedText (t : Text) :
    isComment (framedText id s ++ t) = false ∧
      isDirective (framedText id s ++ t) = isDirective id ∧
      Header.skip (framedText id s ++ t) = framedText id s ++ t := by
  obtain ⟨k, ks, hk, hbracket⟩ : ∃ k ks, s.opener = k :: ks ∧ (k = '[' ∨ k = '(' ∨ k = '{') := by
    cases s <;> exact ⟨_, _, rfl, by decide⟩
  have hkword : isWord k = false := by
    rcases hbracket with rfl | rfl | rfl <;> decide
  rw [framedText, hk, List.append_assoc, List.cons_append]
  exact ⟨isComment_append hid _, isDirective_append_stop id hkword _,
    Header.skip_append_bracket hid hbracket _⟩

/-- A line without connectors that opens with a framed node declares its framed nodes, and no
edge. -/
theorem mentions_framedText (hword : isDirective id = false) {t : Text}
    (hfree : Connector.Free (framedText id s ++ t)) :
    mentions (framedText id s ++ t) = framedNodes (framedText id s ++ t) ∧
      joins (framedText id s ++ t) = [] := by
  obtain ⟨hcomment, hdirective, hskip⟩ := line_framedText (s := s) hid t
  obtain ⟨f, rest, hopening⟩ := opening?_framedText (s := s) hid t
  rw [hword] at hdirective
  constructor
  · rw [mentions, hcomment, hdirective, hskip, statementNodes, Chain.ofText_of_free hfree,
      opensWithFrame, hopening]
    rfl
  · rw [joins, hcomment, hdirective, hskip, statementArcs, Chain.ofText_of_free hfree]
    rfl

/-- A line that opens with a framed node declares it. -/
theorem mem_mentions_framed (hword : id ∉ directiveWords) (t : Text) :
    id ∈ (mentions (framedText id s ++ t)).map Reference.id := by
  cases hfind : Connector.find? (framedText id s ++ t) with
  | none =>
    obtain ⟨f, ns, hrefs⟩ := references_framedText (s := s) hid t
    rw [(mentions_framedText hid (isDirective_of_isId hid hword) hfind).1, framedNodes, hrefs]
    simp [Reference.bare]
  | some found =>
    -- The first connector stands behind the bracket, on a line that is then a chain.
    obtain ⟨hcomment, hdirective, hskip⟩ := line_framedText (s := s) hid t
    rw [isDirective_of_isId hid hword] at hdirective
    have hbefore := Connector.find?_append_left (isStroke_of_mem_framedText (s := s) hid) t
    rw [hfind] at hbefore
    obtain ⟨g, -, hg⟩ := Option.map_eq_some_iff.1 hbefore.symm
    obtain ⟨v, hv⟩ := (trimmed_framedText (s := s) hid).exists_trim_append (framedText_ne_nil hid)
      g.before
    rw [mentions, hcomment, hdirective, hskip, statementNodes, Chain.ofText_of_find? hfind, ← hg]
    simp only [Bool.or_self, Bool.false_eq_true, if_false, List.isEmpty_cons, Bool.not_false,
      if_true, chainNodes, hv, List.map_append]
    exact List.mem_append_left _ (mem_sideNodes_framedText hid _ v)

end Framed

end Flowmend
