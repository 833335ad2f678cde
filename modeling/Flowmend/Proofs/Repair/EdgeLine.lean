import Flowmend.Proofs.Graph.Item
import Flowmend.Proofs.Graph.Side
import Flowmend.Proofs.Header
import Flowmend.Proofs.Repair.Document
import Flowmend.Proofs.Statement.Lexeme

/-!
# Reading written edges

An edge that is written between a source and a target (`IsSource`, `IsTarget`) is read as this edge:
it leaves from the last reference of the source, without the header that the source opens with, and
arrives at the first one of the target (`ids_mentions_edgeLine`, `joins_edgeLine`).
-/

namespace Flowmend

open Text Extract

/-! ## Sources and targets -/

/-- The text can stand before the connector of an edge: the line is a statement then, and one group
of nodes is read behind the header, if the text opens with one. -/
structure IsSource (t : Text) : Prop where
  comment : isComment t = false
  directive : isDirective t = false
  free : Connector.Free t
  undivided : Undivided (trim (Header.skip t))

/-- What an edge has between its connector and its target. -/
def labelText : Option Text → Text
  | some (c :: l) => '|' :: (c :: l ++ ['|'])
  | _ => []

/-- The text can stand after the connector of an edge with the label, also if the connector has none
and takes the one that the text opens with. -/
structure IsTarget (label : Option Text) (t : Text) : Prop where
  isLine : IsLine t
  free : Connector.Free t
  undivided : Undivided t
  undivided_rest : labelText label = [] → Undivided (trim (Chain.readTail t).rest)

section Id

variable {id : Text} (hid : IsId id)

include hid

theorem tidy_of_isId : (⟨id, none⟩ : Reference).Tidy := ⟨hid, by simp⟩

theorem references_of_isId : references id = [⟨id, none⟩] := by
  have := (tidy_of_isId hid).references_text
  rwa [Reference.text, List.append_nil] at this

theorem undivided_of_isId : Undivided id := by
  have := (IsGroup.single (tidy_of_isId hid)).fanOut_text
  rw [groupText_singleton, Reference.text, List.append_nil] at this
  rw [Undivided, this]
  exact Nat.le_refl 1

theorem isLine_of_isId : IsLine id := by
  have hline := (tidy_of_isId hid).isLine
  rwa [Reference.text, List.append_nil] at hline

theorem free_of_isId : Connector.Free id := by
  have hfree := (tidy_of_isId hid).free_text
  rwa [Reference.text, List.append_nil] at hfree

/-- An id can stand before a connector, unless it is the word of a directive. -/
theorem isSource_of_isId (hword : id ∉ directiveWords) : IsSource id := by
  have hcomment := isComment_append hid []
  rw [List.append_nil] at hcomment
  refine ⟨hcomment, isDirective_of_isId hid hword, free_of_isId hid, ?_⟩
  rcases Header.skip_of_isId hid with hskip | hskip
  · rw [hskip]
    exact Nat.zero_le 1
  · rw [hskip, (isLine_of_isId hid).trimmed.trim_eq]
    exact undivided_of_isId hid

theorem opening?_of_isId : Reference.opening? id = some (⟨id, none⟩, []) := by
  have hopening := (tidy_of_isId hid).opening?_text (u := []) (by simp [Reference.Ends])
  rwa [Reference.text, List.append_nil, List.append_nil] at hopening

/-- An id opens with no framed node. -/
theorem opensWithFrame_of_isId : opensWithFrame id = false := by
  rw [opensWithFrame, opening?_of_isId hid]
  rfl

theorem bar_notMem_of_isId : '|' ∉ id := by
  intro h
  have := hid.isIdChar '|' h
  cases this

/-- An id can stand after a connector. -/
theorem isTarget_of_isId (label : Option Text) : IsTarget label id := by
  have hline := isLine_of_isId hid
  refine ⟨hline, free_of_isId hid, undivided_of_isId hid, fun _ => ?_⟩
  rw [Chain.readTail_of_notMem (bar_notMem_of_isId hid), hline.trimmed.trim_eq]
  exact undivided_of_isId hid

end Id

/-- The characters of the label are those of labels that are safe to show. -/
def IsShown (label : Text) : Prop := ∀ c ∈ label, Label.isPlain c = true ∧ Label.isSpecial c = false

theorem isShown_clean (raw : Text) : IsShown (Label.clean none raw) :=
  fun _ => Label.isPlain_of_mem_plain

theorem IsShown.ne_bar {label : Text} (h : IsShown label) : ∀ c ∈ label, c ≠ '|' ∧ c ≠ '\n' := by
  intro c hc
  obtain ⟨hplain, hspecial⟩ := h c hc
  constructor
  · rintro rfl; cases hspecial
  · rintro rfl; cases hplain

theorem isShown_mendLabel (k : Connector) : ∀ l ∈ k.mendLabel.value, IsShown l := by
  unfold Connector.mendLabel
  cases k.label with
  | none => simp [pure]
  | some raw =>
    rintro l ⟨⟩
    exact isShown_clean raw

/-! ## The chain of an edge -/

namespace Chain

/-- Blanks before a text do not matter for the label that the text opens with. -/
theorem readTail_space {t : Text} (ht : ∀ c ∈ t.head?, isPad c = false) :
    (readTail (' ' :: t)).rest = ' ' :: t ∨ (readTail (' ' :: t)).rest = (readTail t).rest := by
  have hpad : t.dropWhile isPad = t := by
    cases t with
    | nil => rfl
    | cons c t => exact dropWhile_of_head isPad t (ht c rfl)
  have hspace : (' ' :: t).dropWhile isPad = t := by
    rw [List.dropWhile_cons_of_pos (by decide), hpad]
  unfold readTail
  rw [hspace, hpad]
  cases Connector.pipe? t with
  | none => exact .inl rfl
  | some p => exact .inr rfl

end Chain

section EdgeLine

variable {source token target : Text} {label : Option Text}

theorem edgeLine_eq (source token : Text) (label : Option Text) (target : Text) :
    edgeLine source token label target =
      source ++ ' ' :: (token ++ (labelText label ++ ' ' :: target)) := by
  unfold edgeLine labelText
  rcases label with _ | _ | ⟨c, l⟩ <;> simp

/-- The side declares what the target holds. -/
structure StandsFor (side target : Text) : Prop where
  free : Connector.Free side
  undivided : Undivided (trim side)
  marks_eq : marks side = marks target

/-- A target behind a space stands for itself. -/
theorem IsTarget.standsFor_space (h : IsTarget label target) :
    StandsFor (' ' :: target) target := by
  have hblank : ∀ c ∈ [' '], isBlank c = true := by decide
  have hinert : ∀ c ∈ [' '], Inert c := fun c hc => inert_of_isBlank (hblank c hc)
  refine ⟨h.free.append_left (t := [' ']) (by decide), ?_, ?_⟩
  · rw [h.isLine.trim_space_cons]
    exact h.undivided
  · exact congrArg (List.map Reference.mark) (references_inert_append hinert target)

/-- So does what is left of it if the connector takes the label that it opens with. -/
theorem IsTarget.standsFor_readTail (h : IsTarget label target) (hlabel : labelText label = []) :
    StandsFor (Chain.readTail (' ' :: target)).rest target := by
  have hpad : ∀ c ∈ target.head?, isPad c = false := by
    intro c hc
    have := h.isLine.trimmed.1 c hc
    by_contra hpad
    simp only [Bool.not_eq_false, isPad, Bool.or_eq_true, beq_iff_eq] at hpad
    rcases hpad with rfl | rfl <;> cases this
  rcases Chain.readTail_space hpad with heq | heq
  · rw [heq]
    exact h.standsFor_space
  · rw [heq]
    refine ⟨h.free.suffix ⟨_, (Chain.readTail_append target).symm⟩, h.undivided_rest hlabel, ?_⟩
    exact congrArg (List.map Reference.mark) (references_readTail target)

/-- What stands behind the connector is read as the target. -/
theorem IsTarget.exists_tail (hlabel : ∀ l ∈ label, IsShown l) (h : IsTarget label target) :
    ∃ d v, labelText label ++ ' ' :: target = d :: v ∧ Connector.isStroke d = false ∧
      StandsFor (Chain.readTail (d :: v)).rest target := by
  rcases label with _ | _ | ⟨c, l⟩
  · exact ⟨' ', target, rfl, by decide, h.standsFor_readTail rfl⟩
  · exact ⟨' ', target, rfl, by decide, h.standsFor_readTail rfl⟩
  · have htail := Chain.readTail_pipe (hlabel _ rfl).ne_bar (' ' :: target)
    refine ⟨'|', (c :: l) ++ '|' :: ' ' :: target, by simp [labelText], by decide, ?_⟩
    rw [htail]
    exact h.standsFor_space

/-- An edge goes on behind the header that its source opens with. Where nothing is left of the
source, the space before the connector goes too. -/
theorem skip_edgeLine (source : Text) (htoken : Connector.IsToken token) (label : Option Text)
    (target : Text) :
    Header.skip (edgeLine source token label target) =
        Header.skip source ++ ' ' :: (token ++ (labelText label ++ ' ' :: target)) ∨
      (Header.skip source = [] ∧ Header.skip (edgeLine source token label target) =
        token ++ (labelText label ++ ' ' :: target)) := by
  obtain ⟨e, token', rfl⟩ := List.exists_cons_of_ne_nil htoken.ne_nil
  have he := htoken.isStroke e List.mem_cons_self
  have hstop : (e == ' ' || e == '\t' || e == ';') = false := by
    simp only [Connector.isStroke, Bool.or_eq_true, beq_iff_eq] at he
    rcases he with (((rfl | rfl) | rfl) | rfl) | rfl <;> decide
  rw [edgeLine_eq]
  exact Header.skip_append_space (not_id_of_isStroke he) hstop source _

/-- The chain of an edge, without the header that it opens with, has one link from what is left of
the source to the target. -/
theorem ofText_skip_edgeLine (hsource : Connector.Free source) (htoken : Connector.IsToken token)
    (hlabel : ∀ l ∈ label, IsShown l) (htarget : IsTarget label target) :
    ∃ first k gap side, Chain.ofText (Header.skip (edgeLine source token label target)) =
        ⟨first, [⟨⟨token, k⟩, gap, side⟩]⟩ ∧
      trim first = trim (Header.skip source) ∧ StandsFor side target := by
  obtain ⟨d, v, hd, hstroke, hside⟩ := htarget.exists_tail hlabel
  have hskip := skip_edgeLine source htoken label target
  rw [hd] at hskip
  rcases hskip with hskip | ⟨hnil, hskip⟩
  · have hfind := Connector.find?_append_token (hsource.suffix (Header.skip_suffix source))
      (show Connector.isStroke ' ' = false by decide) htoken hstroke v
    refine ⟨_, (Chain.readTail (d :: v)).label, (Chain.readTail (d :: v)).gap,
      (Chain.readTail (d :: v)).rest, ?_, trim_append_blanks (b := [' ']) (by decide), hside⟩
    rw [hskip, Chain.ofText_of_find? hfind, Chain.ofText_of_free hside.free]
  · refine ⟨[], (Chain.readTail (d :: v)).label, (Chain.readTail (d :: v)).gap,
      (Chain.readTail (d :: v)).rest, ?_, by rw [hnil], hside⟩
    rw [hskip, Chain.ofText_of_find? (htoken.find?_append hstroke v),
      Chain.ofText_of_free hside.free]

/-- An edge is taken for a comment or a directive just if its source is. -/
theorem line_edgeLine (source token : Text) (label : Option Text) (target : Text) :
    isComment (edgeLine source token label target) = isComment source ∧
      isDirective (edgeLine source token label target) = isDirective source := by
  rw [edgeLine_eq]
  exact ⟨isComment_append_stop source (by decide) _, isDirective_append_stop source (by decide) _⟩

/-- An edge between texts without breaks is written without one. -/
theorem not_break_edgeLine (hs : ∀ c ∈ source, isBreak c = false)
    (htoken : Connector.IsToken token) (hlabel : ∀ l ∈ label, IsShown l)
    (ht : ∀ c ∈ target, isBreak c = false) :
    ∀ c ∈ edgeLine source token label target, isBreak c = false := by
  have hlabel' : ∀ c ∈ labelText label, isBreak c = false := by
    rcases label with _ | _ | ⟨c, l⟩
    · simp [labelText]
    · simp [labelText]
    · intro e he
      simp only [labelText, List.mem_cons, List.mem_append, List.not_mem_nil, or_false] at he
      rcases he with rfl | he | rfl
      · decide
      · exact Label.isBreak_of_isPlain (hlabel _ rfl e (List.mem_cons.2 he)).1
      · decide
  rw [edgeLine_eq]
  intro c hc
  simp only [List.mem_append, List.mem_cons] at hc
  rcases hc with hc | rfl | hc | hc | rfl | hc
  · exact hs c hc
  · decide
  · exact Label.isBreak_of_isPlain (isPlain_of_isStroke (htoken.isStroke c hc))
  · exact hlabel' c hc
  · decide
  · exact ht c hc

/-- An edge that is written is a line. -/
theorem isLine_edgeLine (hs : IsLine source) (htoken : Connector.IsToken token)
    (hlabel : ∀ l ∈ label, IsShown l) (ht : IsLine target) :
    IsLine (edgeLine source token label target) := by
  refine ⟨?_, ⟨fun c hc => ?_, fun c hc => ?_⟩,
    not_break_edgeLine hs.not_break htoken hlabel ht.not_break⟩
  · simp [edgeLine_eq]
  · rw [edgeLine_eq, List.head?_append_of_ne_nil _ hs.ne_nil] at hc
    exact hs.trimmed.1 c hc
  · have hsplit : source ++ ' ' :: (token ++ (labelText label ++ ' ' :: target)) =
        source ++ ' ' :: (token ++ (labelText label ++ [' '])) ++ target := by
      simp
    rw [edgeLine_eq, hsplit, List.getLast?_append_of_ne_nil _ ht.ne_nil] at hc
    exact ht.trimmed.2 c hc

variable (hsource : IsSource source) (htoken : Connector.IsToken token)
  (hlabel : ∀ l ∈ label, IsShown l) (htarget : IsTarget label target)

include hsource htoken hlabel htarget

/-- An edge that is written mentions the framed nodes of its ends, and the nodes that it joins. -/
theorem ids_mentions_edgeLine :
    (mentions (edgeLine source token label target)).map Reference.id =
      (nodesOfPart ⟨false, true⟩ (references (Header.skip source))).map Reference.id ++
        (nodesOfPart ⟨true, false⟩ (references target)).map Reference.id := by
  obtain ⟨hcomment, hdirective⟩ := line_edgeLine source token label target
  obtain ⟨first, k, gap, side, hchain, hfirst, hside⟩ :=
    ofText_skip_edgeLine hsource.free htoken hlabel htarget
  have hfree := hsource.free.suffix (Header.skip_suffix source)
  have hnodes := hside.undivided.ids_sideNodes (hside.free.within (infix_trim side)) ⟨true, false⟩
  have hids := map_id_of_map_mark (nodesOfPart_congr
    ((marks_trim hside.free).trans hside.marks_eq) ⟨true, false⟩)
  have hnodes' := hsource.undivided.ids_sideNodes (hfree.within (infix_trim _)) ⟨false, true⟩
  have hids' := map_id_of_map_mark (nodesOfPart_congr (marks_trim hfree) ⟨false, true⟩)
  rw [mentions, hcomment, hdirective, hsource.comment, hsource.directive, statementNodes, hchain]
  simp only [chainNodes, linkNodes, hfirst, List.isEmpty_cons, List.isEmpty_nil, Bool.not_true,
    Bool.not_false, Bool.or_self, Bool.false_eq_true, if_false, if_true, List.append_nil,
    List.map_append, hnodes, hids, hnodes', hids']

/-- An edge that is written leaves from the last reference of its source and arrives at the first
one of its target. -/
theorem joins_edgeLine :
    joins (edgeLine source token label target) =
      product (EdgeKind.ofToken token) (lastId (Header.skip source)).toList
        (firstId target).toList := by
  obtain ⟨hcomment, hdirective⟩ := line_edgeLine source token label target
  obtain ⟨first, k, gap, side, hchain, hfirst, hside⟩ :=
    ofText_skip_edgeLine hsource.free htoken hlabel htarget
  have hfree := hsource.free.suffix (Header.skip_suffix source)
  have htargets := hside.undivided.targets (hside.free.within (infix_trim side))
  rw [firstId_congr ((marks_trim hside.free).trans hside.marks_eq)] at htargets
  have hsources := hsource.undivided.sources (hfree.within (infix_trim _))
  rw [lastId_congr (marks_trim hfree)] at hsources
  rw [joins, hcomment, hdirective, hsource.comment, hsource.directive, statementArcs, hchain]
  simp only [chainArcs, linkArcs, hfirst, Bool.or_self, Bool.false_eq_true, if_false,
    List.append_nil, htargets, hsources]
  rfl

/-! ## What stands on the edge -/

theorem on_edgeLine_of_source {id : Text}
    (hid : id ∈ (nodesOfPart ⟨false, true⟩ (references (Header.skip source))).map Reference.id) :
    (Item.node id).On (edgeLine source token label target) := by
  rw [Item.On, ids_mentions_edgeLine hsource htoken hlabel htarget]
  exact List.mem_append_left _ hid

theorem on_edgeLine_of_target {id : Text}
    (hid : id ∈ (nodesOfPart ⟨true, false⟩ (references target)).map Reference.id) :
    (Item.node id).On (edgeLine source token label target) := by
  rw [Item.On, ids_mentions_edgeLine hsource htoken hlabel htarget]
  exact List.mem_append_right _ hid

theorem on_edgeLine_of_ends {a : Arc} (hs : lastId (Header.skip source) = some a.source)
    (ht : firstId target = some a.target) (hkind : EdgeKind.ofToken token = a.kind) :
    (Item.arc a).On (edgeLine source token label target) := by
  rw [Item.On, joins_edgeLine hsource htoken hlabel htarget, hs, ht]
  exact mem_product.2 ⟨List.mem_singleton_self _, List.mem_singleton_self _, hkind.symm⟩

end EdgeLine

end Flowmend
