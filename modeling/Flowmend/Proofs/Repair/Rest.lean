import Flowmend.Proofs.Repair.Chain
import Flowmend.Proofs.Repair.Clear

/-!
# Lines that are left alone

A line is `LeftAlone` if mending changes nothing of it. A `Settled` text is a line or a side of one
that holds no connector, shows no defect before its end and opens with no label that mending
changes. Alone it is left alone if it does not end glued (`Settled.leftAlone`), and an edge is left
alone if both of its ends are settled and neither is read otherwise than it is written
(`Firm.leftAlone`).
-/

namespace Flowmend

open Text Defect

/-- Mending the line gives the line back. -/
def LeftAlone (line : Text) : Prop := ∀ supply, mendLine supply line = (⟨[line], []⟩, supply)

/-- The text can be a line or a side of one that is not mended, also with closing brackets behind
it. -/
structure Settled (t : Text) : Prop where
  isLine : IsLine t
  free : Connector.Free t
  clear : Clear t
  mendOpening : ∀ u : Text, (∀ c ∈ u, c = ']') → Reference.mendOpening (t ++ u) = ⟨t ++ u, []⟩

namespace Settled

variable {t : Text} (h : Settled t)

include h

theorem mendOpening_self : Reference.mendOpening t = ⟨t, []⟩ := by
  simpa using h.mendOpening [] (by simp)

theorem append_closers (n : Nat) : Settled (t ++ closers n) where
  isLine := isLine_append_closers n h.isLine
  free := h.free.append_of_head
    (Connector.free_of_not_stroke fun c hc => (inert_of_mem_closers c hc).not_stroke)
    fun c hc => (inert_of_mem_closers c (List.mem_of_mem_head? hc)).not_stroke
  clear := h.clear.append_closers n
  mendOpening u hu := by
    rw [List.append_assoc]
    refine h.mendOpening _ fun c hc => ?_
    rcases List.mem_append.1 hc with hc | hc
    · by_contra hne
      exact notMem_closers hne hc
    · exact hu c hc

theorem token?_append_space (u : Text) : Connector.token? (t ++ ' ' :: u) = none := by
  rw [Connector.token?_append_stop t (by decide), h.free.token?_suffix (List.suffix_refl t)]
  rfl

/-- No arrow opens a line that opens with the text. -/
theorem arrow?_trimStart_append (u : Text) :
    Connector.arrow? (trimStart (t ++ u)) = Connector.arrow? (t ++ u) := by
  rw [trimStart_eq_self fun c hc => ?_]
  rw [List.head?_append_of_ne_nil _ h.isLine.ne_nil] at hc
  exact h.isLine.trimmed.1 c hc

/-- A settled line that does not end glued is left alone. -/
theorem leftAlone (hend : endsGlued t = false) : LeftAlone t := by
  intro supply
  have hcalm := h.clear.calm h.free hend
  have harrow : Connector.arrow? (trimStart t) = none := by
    have := h.arrow?_trimStart_append []
    rw [List.append_nil] at this
    rw [this]
    exact arrow?_eq_none (h.free.token?_suffix (List.suffix_refl t))
  rw [mendLine, hcalm.hasGluedNodes, hcalm.hasBrokenConnector harrow,
    Chain.ofText_of_free h.free, h.mendOpening_self]
  rfl

end Settled

/-! ## Edges -/

/-- A connector ends the label. -/
def endsInConnector (label : Text) : Bool :=
  anyTail (fun u => (Connector.token? u).any fun p => p.2.isEmpty) label

/-- An id stands directly behind the first bar of the text. -/
def idBehindBar (t : Text) : Bool := ((t.dropWhile (· != '|')).drop 1).head?.any isIdChar

/-- The edge is read as it is written: both ends are settled and name one node or none, no arrow
follows an id that is glued to its source and no id is glued to the end of the line, an edge without
a label has a target that opens with none, and its label is none that a connector within could take
the target's text for. -/
structure Firm (source token : Text) (label : Option Text) (target : Text) : Prop where
  source_settled : Settled source
  target_settled : Settled target
  isToken : Connector.IsToken token
  label_plain : ∀ l ∈ label, Label.Plain l
  source_whole : Chain.sideParts source = [source]
  target_whole : Chain.sideParts target = [target]
  source_end : token.getLast? = some '>' → endsGlued source = false
  target_end : endsGlued target = false
  unlabelled : labelText label = [] → Connector.pipe? target = none
  tight : ∀ l ∈ label, endsInConnector l = true → idBehindBar target = false

theorem labelText_cases (label : Option Text) :
    labelText label = [] ∨ ∃ c l, label = some (c :: l) ∧
      labelText label = '|' :: (c :: l ++ ['|']) := by
  rcases label with _ | _ | ⟨c, l⟩
  · exact .inl rfl
  · exact .inl rfl
  · exact .inr ⟨c, l, rfl, rfl⟩

theorem head_of_pipe?_space {target label rest : Text}
    (h : Connector.pipe? ('|' :: ' ' :: target) = some (label, rest))
    (htight : idBehindBar target = false) : ∀ c ∈ rest.head?, isIdChar c = false := by
  obtain ⟨hsplit, hlabel⟩ := Connector.pipe?_eq_some_iff.1 h
  have hsplit : ' ' :: target = label ++ '|' :: rest := (List.cons_eq_cons.1 hsplit).2
  have hlabel : ∀ c ∈ label, (c != '|') = true := fun c hc =>
    (Bool.and_eq_true_iff.1 (hlabel c hc)).1
  have hdrop : target.dropWhile (· != '|') = '|' :: rest := by
    have hspace : (' ' :: target).dropWhile (· != '|') = target.dropWhile (· != '|') := rfl
    rw [← hspace, hsplit, List.dropWhile_append_of_pos hlabel]
    rfl
  rw [idBehindBar, hdrop] at htight
  intro c hc
  have hc : rest.head? = some c := hc
  simpa [hc] using htight

/-- A settled text opens with neither a blank nor a connector. -/
theorem Settled.exists_cons {t : Text} (h : Settled t) : ∃ c u, t = c :: u ∧ isBlank c = false := by
  obtain ⟨c, u, rfl⟩ := List.exists_cons_of_ne_nil h.isLine.ne_nil
  exact ⟨c, u, rfl, h.isLine.trimmed.1 c rfl⟩

/-- No label between bars opens a text in which something else than blanks stands before the first
bar. -/
theorem pipe?_trimStart_append {t : Text} (ht : Trimmed t) (hne : t ≠ []) (hbar : '|' ∉ t)
    {y : Text} (hy : y <:+ t) (hyne : y ≠ []) (u : Text) :
    Connector.pipe? (trimStart (y ++ u)) = none := by
  have hlast : y.getLast hyne ∈ t.getLast? := by
    obtain ⟨x, rfl⟩ := hy
    rw [List.getLast?_append_of_ne_nil _ hyne]
    exact List.getLast?_eq_some_getLast hyne
  have hstart : trimStart y ≠ [] := by
    intro hnil
    have hblank := List.dropWhile_eq_nil_iff.1 hnil _ (List.getLast_mem hyne)
    rw [ht.2 _ hlast] at hblank
    cases hblank
  have happend : trimStart (y ++ u) = trimStart y ++ u := by
    rw [trimStart, List.dropWhile_append, if_neg (by simpa [trimStart] using hstart)]
    rfl
  obtain ⟨d, v, hdv⟩ := List.exists_cons_of_ne_nil hstart
  have hd : d ≠ '|' := by
    rintro rfl
    refine hbar (hy.subset ((List.dropWhile_suffix isBlank).subset ?_))
    rw [show List.dropWhile isBlank y = '|' :: v from hdv]
    exact List.mem_cons_self
  cases hp : Connector.pipe? (trimStart (y ++ u)) with
  | none => rfl
  | some p =>
    have := (Connector.pipe?_eq_some_iff.1 hp).1
    rw [happend, hdv] at this
    exact absurd (List.cons_eq_cons.1 this).1 hd

theorem endsInConnector_of_suffix {l y : Text} (hy : y <:+ l) {token : Text}
    (h : Connector.token? y = some (token, [])) : endsInConnector l = true := by
  by_contra hnot
  rw [Bool.not_eq_true, endsInConnector, anyTail_eq_false_iff] at hnot
  have := hnot y hy
  rw [h] at this
  cases this

/-- A bar that opens a line and is not closed is no label. -/
theorem skipLabel_of_pipe?_eq_none {t : Text} (h : Connector.pipe? t = none)
    (hbreak : ∀ c ∈ t, isBreak c = false) : skipLabel t = t := by
  unfold skipLabel
  split
  · rename_i inner
    split
    · rename_i c rest hdrop
      have hc : c = '|' := by
        have := List.head?_dropWhile_not (· != '|') inner
        rw [hdrop] at this
        simpa using this
      subst hc
      have hsplit := List.takeWhile_append_dropWhile (p := (· != '|')) (l := inner)
      rw [hdrop] at hsplit
      have hread : Connector.pipe? ('|' :: inner) = some (inner.takeWhile (· != '|'), rest) := by
        refine Connector.pipe?_eq_some_iff.2 ⟨by rw [hsplit], fun c hc => ?_⟩
        have hbar : (c != '|') = true := List.mem_takeWhile_imp (p := (· != '|')) hc
        have hmem : c ∈ '|' :: inner :=
          List.mem_cons_of_mem _ ((List.takeWhile_prefix _).subset hc)
        rw [hbar, Bool.true_and, bne_iff_ne]
        rintro rfl
        cases hbreak _ hmem
      rw [h] at hread
      cases hread
    · rfl
  · rfl

namespace Firm

variable {source token target : Text} {label : Option Text} (h : Firm source token label target)

include h

theorem calm_space_target : Calm (' ' :: target) :=
  (h.target_settled.clear.calm h.target_settled.free h.target_end).append_left (t := [' '])
    (by decide)

/-- The label of the edge shows no defect, although it may hold connectors. -/
theorem sound_label {l y : Text} (hl : label = some l) (hy : y <:+ l) (hne : y ≠ []) :
    Sound (y ++ '|' :: ' ' :: target) := by
  have hplain := h.label_plain l hl
  obtain ⟨c, y, rfl⟩ := List.exists_cons_of_ne_nil hne
  obtain ⟨hcloser, hbar⟩ := hplain.not_closer (hy.subset List.mem_cons_self)
  have htoken := Connector.token?_append_stop (c :: y) (by decide : Connector.isStroke '|' = false)
    (' ' :: target)
  cases hread : Connector.token? (c :: y) with
  | none =>
    rw [hread] at htoken
    exact sound_of_token?_eq_none hcloser hbar htoken
  | some p =>
    obtain ⟨t, rest⟩ := p
    rw [hread, Option.map_some] at htoken
    obtain ⟨hsplit, -⟩ := Connector.eq_append_of_token? hread
    have hrest : rest <:+ l := (hsplit ▸ List.suffix_append t rest).trans hy
    -- The connector is no arrow, as cleaning leaves none of their heads.
    have harrow : Connector.arrow? (c :: y ++ '|' :: ' ' :: target) = none := by
      rw [Connector.arrow?, htoken, Option.filter_some, if_neg]
      intro hlast
      have hlast : t.getLast? = some '>' := by simpa using hlast
      have hmem : '>' ∈ c :: y := by
        rw [hsplit]
        exact List.mem_append_left rest (List.mem_of_getLast? hlast)
      have := hplain.not_special (hy.subset hmem)
      cases this
    refine ⟨?_, ?_, by rw [isLostArrow, harrow]; rfl, ?_, ?_⟩
    · rw [isGlued, List.cons_append, afterGluedId?_of_not_closer hcloser]
      rfl
    · simp [isTightArrow, afterCloser?, hcloser]
    · have hpipe : ∀ p ∈ Connector.pipe? (trimStart (rest ++ '|' :: ' ' :: target)),
          p.2.head?.any isIdChar = false := by
        intro p hp
        by_cases hnil : rest = []
        · subst hnil
          have htight := h.tight l hl (endsInConnector_of_suffix hy hread)
          cases hc : p.2.head? with
          | none => rfl
          | some d => exact head_of_pipe?_space hp htight d hc
        · have hlne : l ≠ [] := fun hnil => hnil ▸ hy |>.ne_nil (by simp) |> absurd rfl
          rw [pipe?_trimStart_append hplain.trimmed hlne
            (fun hmem => (hplain.not_closer hmem).2 rfl) hrest hnil] at hp
          cases hp
      rw [isTightLabel, htoken, Option.any_some]
      cases hp : Connector.pipe? (trimStart (rest ++ '|' :: ' ' :: target)) with
      | none => simp [hp]
      | some p => simp only [hp, Option.any_some, hpipe p hp]
    · cases hrest : y ++ '|' :: ' ' :: target with
      | nil => simp at hrest
      | cons d r => simp [isTightBar, hcloser, hbar, hrest]

/-- What follows the connector shows no defect. -/
theorem calm_tail : Calm (labelText label ++ ' ' :: target) := by
  have hspace := h.calm_space_target
  rcases labelText_cases label with hnil | ⟨c, l, hl, htext⟩
  · rw [hnil]
    exact hspace
  · have hbars : Calm ('|' :: ' ' :: target) := hspace.cons (sound_bar (by simp))
    have hlabel : Calm (c :: l ++ '|' :: ' ' :: target) :=
      hbars.append fun y hy hne => h.sound_label hl hy hne
    have hopen : Calm ('|' :: (c :: l ++ '|' :: ' ' :: target)) := by
      refine hlabel.cons (sound_bar fun hhead => ?_)
      cases hhead
      cases (h.label_plain _ hl).not_special List.mem_cons_self
    rw [htext]
    simpa using hopen

/-- Neither the end of the line, nor an arrow, nor a label that an id touches follows the
connector. -/
theorem followsToken : FollowsToken (labelText label ++ ' ' :: target) := by
  obtain ⟨c, u, htarget, hc⟩ := h.target_settled.exists_cons
  have hnone := arrow?_eq_none (h.target_settled.free.token?_suffix (List.suffix_refl target))
  have hspace : trimStart (' ' :: target) = target := by
    rw [trimStart, List.dropWhile_cons_of_pos (by decide), htarget, dropWhile_of_head isBlank u hc]
  have hne : target ≠ [] := h.target_settled.isLine.ne_nil
  rcases labelText_cases label with hnil | ⟨d, l, hl, htext⟩
  · have hpipe := h.unlabelled hnil
    rw [hnil, List.nil_append]
    refine ⟨⟨' ', target, rfl, by decide⟩, ?_, ?_⟩
    · rw [hspace, skipLabel_of_pipe?_eq_none hpipe h.target_settled.isLine.not_break]
      simp [hne, hnone]
    · rw [hspace, hpipe]
      simp
  · have hread : Connector.pipe? ('|' :: (d :: l ++ '|' :: ' ' :: target)) =
        some (d :: l, ' ' :: target) := by
      refine Connector.pipe?_eq_some_iff.2 ⟨rfl, fun e he => ?_⟩
      obtain ⟨hbar, hreturn⟩ := (h.label_plain _ hl).ne_bar e he
      simp [hbar, hreturn]
    have hskip : skipLabel ('|' :: (d :: l ++ '|' :: ' ' :: target)) = target := by
      have hlabel : ∀ e ∈ d :: l, (e != '|') = true := fun e he => by
        simpa using ((h.label_plain _ hl).ne_bar e he).1
      rw [skipLabel, List.dropWhile_append_of_pos hlabel]
      exact hspace
    have hstart : trimStart ('|' :: (d :: l ++ '|' :: ' ' :: target)) =
        '|' :: (d :: l ++ '|' :: ' ' :: target) := dropWhile_of_head isBlank _ (by decide)
    have htail : labelText label ++ ' ' :: target = '|' :: (d :: l ++ '|' :: ' ' :: target) := by
      rw [htext]
      simp
    rw [htail]
    refine ⟨⟨'|', _, rfl, by decide⟩, ?_, ?_⟩
    · have harrow := arrow?_eq_none (Connector.token?_cons_of_not_stroke
        (d :: l ++ '|' :: ' ' :: target) (by decide : Connector.isStroke '|' = false))
      rw [hstart, hskip]
      simp only [List.mem_cons, List.not_mem_nil, or_false]
      rintro r (rfl | rfl)
      · exact ⟨by simp, harrow⟩
      · exact ⟨hne, hnone⟩
    · rw [hstart, hread]
      rintro p ⟨⟩ e he
      cases he
      rfl

theorem calm_token : Calm (token ++ (labelText label ++ ' ' :: target)) :=
  h.calm_tail.append fun _ hy hne => h.followsToken.sound h.isToken hy hne

/-- The edge shows no defect. -/
theorem calm : Calm (edgeLine source token label target) := by
  obtain ⟨c, t, hct⟩ := List.exists_cons_of_ne_nil h.isToken.ne_nil
  have hstroke := h.isToken.isStroke c (hct ▸ List.mem_cons_self)
  obtain ⟨hblank, hid, hopener⟩ : isBlank c = false ∧ isIdChar c = false ∧ isOpener c = false := by
    simp only [Connector.isStroke, Bool.or_eq_true, beq_iff_eq] at hstroke
    rcases hstroke with (((rfl | rfl) | rfl) | rfl) | rfl <;> decide
  have hspace := h.calm_token.append_left (t := [' ']) (by decide)
  have harrow : Connector.arrow? (token ++ (labelText label ++ ' ' :: target)) = none ∨
      endsGlued source = false := by
    by_cases hlast : token.getLast? = some '>'
    · exact .inr (h.source_end hlast)
    · left
      obtain ⟨d, v, htail, hd⟩ := h.followsToken.stop
      rw [htail, Connector.arrow?, h.isToken.token?_append hd, Option.filter_some, if_neg]
      simpa using hlast
  rw [edgeLine_eq]
  rw [hct, List.cons_append] at hspace harrow ⊢
  exact h.source_settled.clear.calm_append_space h.source_settled.free hblank hid hopener harrow
    hspace

/-- The chain of the edge has one link, from the source to the target. -/
theorem ofText_edgeLine : ∃ gap, Chain.ofText (edgeLine source token label target) =
    ⟨source ++ [' '],
      [⟨⟨token, if labelText label = [] then none else label⟩, gap, ' ' :: target⟩]⟩ := by
  have hfree : Connector.Free (' ' :: target) :=
    h.target_settled.free.append_left (t := [' ']) (by decide)
  have hread : ∃ d v gap, labelText label ++ ' ' :: target = d :: v ∧
      Connector.isStroke d = false ∧ Chain.readTail (d :: v) =
        ⟨if labelText label = [] then none else label, gap, ' ' :: target⟩ := by
    rcases labelText_cases label with hnil | ⟨c, l, hl, htext⟩
    · obtain ⟨c, u, htarget, hc⟩ := h.target_settled.exists_cons
      have hpad : isPad c = false := by
        by_contra hpad
        rw [Label.isBlank_of_isPad (by simpa using hpad)] at hc
        cases hc
      have hdrop : (' ' :: target).dropWhile isPad = target := by
        rw [List.dropWhile_cons_of_pos (by decide), htarget, dropWhile_of_head isPad u hpad]
      refine ⟨' ', target, [], by rw [hnil]; rfl, by decide, ?_⟩
      rw [Chain.readTail, hdrop, h.unlabelled hnil, if_pos hnil]
    · have htail := Chain.readTail_pipe (h.label_plain _ hl).ne_bar (' ' :: target)
      refine ⟨'|', c :: l ++ '|' :: ' ' :: target, '|' :: (c :: l ++ ['|']),
        by rw [htext]; simp, by decide, ?_⟩
      rw [htail, if_neg (by rw [htext]; simp), hl]
  obtain ⟨d, v, gap, hd, hstroke, hread⟩ := hread
  have hfind := Connector.find?_append_token h.source_settled.free
    (by decide : Connector.isStroke ' ' = false) h.isToken hstroke v
  refine ⟨gap, ?_⟩
  rw [edgeLine_eq, hd, Chain.ofText_of_find? hfind, hread, Chain.ofText_of_free hfree]

/-- A label that was read is mended to itself. -/
theorem mendLabel_eq :
    (⟨token, if labelText label = [] then none else label⟩ : Connector).mendLabel =
      ⟨if labelText label = [] then none else label, []⟩ := by
  split
  · rfl
  · cases hl : label with
    | none => rfl
    | some l =>
      have hplain := (h.label_plain l hl).mendEdge
      simp only [Connector.mendLabel, hplain]
      rfl

/-- The chain of the edge is written as the edge again. -/
theorem mend_ofText : (Chain.ofText (edgeLine source token label target)).mend =
    ⟨[edgeLine source token label target], []⟩ := by
  obtain ⟨gap, hchain⟩ := h.ofText_edgeLine
  have hline : edgeLine source token (if labelText label = [] then none else label) target =
      edgeLine source token label target := by
    rw [edgeLine_eq, edgeLine_eq]
    split
    · rename_i hnil
      rw [hnil]
      rfl
    · rfl
  have hsource : trim (source ++ [' ']) = source := h.source_settled.isLine.trim_append_space
  have htarget : trim (' ' :: target) = target := h.target_settled.isLine.trim_space_cons
  rw [hchain, Chain.mend_single (by rw [hsource, h.source_whole])
    (by rw [htarget, h.target_whole])]
  simp only [hsource, htarget, h.source_settled.mendOpening_self, h.target_settled.mendOpening_self,
    h.mendLabel_eq, hline, List.append_nil]

/-- A firm edge is left alone. -/
theorem leftAlone : LeftAlone (edgeLine source token label target) := by
  intro supply
  have hstart : Connector.arrow? (trimStart (edgeLine source token label target)) = none := by
    rw [edgeLine_eq, h.source_settled.arrow?_trimStart_append]
    exact arrow?_eq_none (h.source_settled.token?_append_space _)
  obtain ⟨gap, hchain⟩ := h.ofText_edgeLine
  have hsides : (Chain.ofText (edgeLine source token label target)).sides.any List.isEmpty =
      false := by
    rw [hchain]
    simp [Chain.sides, h.source_settled.isLine.trim_append_space, h.source_settled.isLine.ne_nil,
      h.target_settled.isLine.trim_space_cons, h.target_settled.isLine.ne_nil]
  have hlinks : (Chain.ofText (edgeLine source token label target)).links.isEmpty = false := by
    rw [hchain]
    rfl
  simp only [mendLine, h.calm.hasGluedNodes, h.calm.hasBrokenConnector hstart, hlinks, hsides,
    h.mend_ofText, Bool.false_eq_true, if_false]

end Firm

end Flowmend
