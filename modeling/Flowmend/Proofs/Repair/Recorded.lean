import Flowmend.Proofs.Repair.Structure

/-!
# Changes that are noted

Where nothing is noted, a label stays (`Label.value_mend_of_quiet`), a node stays
(`Reference.value_mend_of_quiet`), and of a text that a node opens only the spaces and tabs before
it are lost (`Reference.exists_blanks_of_quiet`). So a line with at most one connector and without
ampersands is one line again that differs in its blanks only, unless its connector has a label of
blanks: the bars around that label are lost with it (`recorded_mendLine`).
-/

namespace Flowmend

open Text

/-! ## Texts without their blanks -/

namespace Text

/-- The characters of a text that are no blanks. -/
def solid (t : Text) : Text := t.filter fun c => !isBlank c

@[simp] theorem solid_append (t u : Text) : solid (t ++ u) = solid t ++ solid u :=
  List.filter_append ..

theorem solid_of_blank {t : Text} (h : ∀ c ∈ t, isBlank c = true) : solid t = [] :=
  List.filter_eq_nil_iff.2 fun c hc => by simp [h c hc]

@[simp] theorem solid_trim (t : Text) : solid (trim t) = solid t := by
  obtain ⟨a, b, ht, ha, hb⟩ := exists_trim t
  conv => rhs; rw [ht, solid_append, solid_append, solid_of_blank ha, solid_of_blank hb]
  simp

end Text

/-! ## Labels and nodes -/

namespace Label

/-- A label of a node stays, if nothing is noted. -/
theorem value_mend_of_quiet {node raw : Text} (h : (mend node raw).repairs = []) :
    (mend node raw).value = raw := by
  by_cases htrim : clean none raw = trim raw
  · rw [mend, if_pos htrim]
  · rw [mend, if_neg htrim] at h
    exact absurd h (faults_ne_nil htrim)

end Label

/-- A label of a connector is trimmed, if nothing is noted. -/
theorem Connector.value_mendLabel_of_quiet {k : Connector} (h : k.mendLabel.repairs = []) :
    k.mendLabel.value = k.label.map trim := by
  obtain ⟨token, _ | raw⟩ := k
  · rfl
  · by_cases htrim : Label.clean none raw = trim raw
    · exact congrArg some htrim
    · have hrepairs :
          mendLabel ⟨token, some raw⟩ = ⟨some (Label.clean none raw), [.edgeLabel]⟩ := by
        simp only [mendLabel, Label.mendEdge, if_neg htrim]
        rfl
      rw [hrepairs] at h
      cases h

namespace Reference

/-- A node stays, if nothing is noted. -/
theorem value_mend_of_quiet {n : Reference} (h : n.mend.repairs = []) : n.mend.value = n.text := by
  obtain ⟨id, _ | f⟩ := n
  · exact (List.append_nil id).symm
  · have hrepairs : (if f.closed then [] else [Repair.unclosedLabel id]) ++
        ((Label.mend id f.label).repairs ++ []) = [] := h
    simp only [List.append_nil, List.append_eq_nil_iff, ite_eq_left_iff, reduceCtorEq, imp_false,
      Bool.not_eq_true, Bool.not_eq_false] at hrepairs
    obtain ⟨hclosed, hlabel⟩ := hrepairs
    rw [value_mend rfl, Label.value_mend_of_quiet hlabel, framedText, List.append_assoc,
      ← f.text_of_closed hclosed]
    rfl

/-- A text loses nothing but blanks at its start, if nothing is noted. -/
theorem exists_blanks_of_quiet {t : Text} (h : (mendOpening t).repairs = []) :
    ∃ a, t = a ++ (mendOpening t).value ∧ ∀ c ∈ a, isBlank c = true := by
  unfold mendOpening at h ⊢
  cases hread : opening? t with
  | none => exact ⟨[], rfl, by simp⟩
  | some p =>
    obtain ⟨n, rest⟩ := p
    rw [hread] at h
    by_cases hbare : n.bare = true
    · simp only [hbare, if_true]
      exact ⟨[], rfl, by simp⟩
    · simp only [hbare, if_false, Bool.false_eq_true] at h ⊢
      have hmend : n.mend.repairs = [] := (List.append_eq_nil_iff.1 h).1
      refine ⟨t.takeWhile isPad, ?_, fun c hc =>
        Label.isBlank_of_isPad (List.mem_takeWhile_imp hc)⟩
      rw [Noted.value_bind, Noted.value_pure, value_mend_of_quiet hmend,
        ← (eq_append_of_read? hread).1]
      exact List.takeWhile_append_dropWhile.symm

theorem solid_mendOpening {t : Text} (h : (mendOpening t).repairs = []) :
    solid (mendOpening t).value = solid t := by
  obtain ⟨a, ht, ha⟩ := exists_blanks_of_quiet h
  conv => rhs; rw [ht, solid_append, solid_of_blank ha, List.nil_append]

end Reference

/-! ## Lines -/

theorem solid_edgeLine (source token : Text) (label : Option Text) (target : Text) :
    solid (edgeLine source token label target) =
      solid source ++ (solid token ++ (solid (labelText label) ++ solid target)) := by
  have hspace : ∀ t, solid (' ' :: t) = solid t := fun _ => rfl
  rw [edgeLine_eq, solid_append, hspace, solid_append, solid_append, hspace]

namespace Chain

/-- A connector keeps what stands between it and its side, blanks apart, just if its label is not
blank. -/
theorem solid_labelText_eq_iff (t : Text) :
    solid (labelText ((readTail t).label.map trim)) = solid (readTail t).gap ↔
      ∀ raw ∈ (readTail t).label, trim raw ≠ [] := by
  unfold readTail
  split
  · rename_i raw rest _
    have hpads : solid (t.takeWhile isPad) = [] :=
      solid_of_blank fun c hc => Label.isBlank_of_isPad (List.mem_takeWhile_imp hc)
    have hgap : solid (t.takeWhile isPad ++ '|' :: raw ++ ['|']) = '|' :: (solid raw ++ ['|']) := by
      rw [solid_append, solid_append, hpads]
      rfl
    simp only [hgap, Option.map_some, Option.mem_some_iff, forall_eq']
    cases htrim : trim raw with
    | nil => simp [labelText, solid]
    | cons c l =>
      have hlabel : solid (labelText (some (trim raw))) = '|' :: (solid (trim raw) ++ ['|']) := by
        rw [htrim, labelText, ← List.singleton_append, solid_append, solid_append]
        rfl
      rw [← htrim, hlabel, solid_trim]
      simp [htrim]
  · simp [labelText]

/-- A line with one connector is one edge again, if nothing is noted. Blanks apart, it differs from
the line just if the label of the connector is blank. -/
theorem solid_mend_of_quiet {line : Text} (hlinks : (ofText line).links.length ≤ 1)
    (hne : (ofText line).links ≠ []) (hsides : [] ∉ (ofText line).sides) (hand : '&' ∉ line)
    (hquiet : (ofText line).mend.repairs = []) : ∃ out, (ofText line).mend.value = [out] ∧
      (solid out = solid line ↔
        ∀ l ∈ (ofText line).links, ∀ raw ∈ l.connector.label, trim raw ≠ []) := by
  obtain ⟨l, hl⟩ := List.length_eq_one_iff.1 (Nat.le_antisymm hlinks (List.length_pos_iff.2 hne))
  have hmem : l ∈ (ofText line).links := hl ▸ List.mem_singleton_self l
  have hchain : ofText line = ⟨(ofText line).first, [l]⟩ := by rw [← hl]
  have hnot : trim (ofText line).first ≠ [] ∧ trim l.side ≠ [] := by
    rw [hchain] at hsides
    exact ⟨fun h => hsides (by simp [sides, h]), fun h => hsides (by simp [sides, h])⟩
  have hparts : ∀ {t : Text}, t <:+: line → trim t ≠ [] → sideParts (trim t) = [trim t] :=
    fun {t} ht hne => sideParts_of_no_ampersand (trimmed_trim t) hne
      fun h => hand (((infix_trim t).trans ht).subset h)
  have hmend := mend_single (hparts (infix_first line) hnot.1) (hparts (infix_side hmem) hnot.2)
  rw [← hchain] at hmend
  simp only [hmend, List.append_eq_nil_iff] at hquiet
  obtain ⟨hfirst, hside, hlabel⟩ := hquiet
  rw [hmend]
  refine ⟨_, rfl, ?_⟩
  have hline : solid line = solid (ofText line).first ++
      (solid l.connector.token ++ (solid l.gap ++ solid l.side)) := by
    conv => lhs; rw [← text_ofText line, text, hl]
    simp [linkText]
  -- Both sides are the same but for blanks, so all depends on what stands between bars.
  obtain ⟨r, hgap, hread⟩ := gap_of_mem_links hmem
  rw [hline, hl, solid_edgeLine, Connector.value_mendLabel_of_quiet hlabel]
  simp only [Reference.solid_mendOpening hfirst, Reference.solid_mendOpening hside, solid_trim,
    List.append_cancel_left_eq, List.append_cancel_right_eq, hgap, hread, solid_labelText_eq_iff,
    List.mem_singleton, forall_eq]

end Chain

/-- If nothing is noted, a line with at most one connector and without ampersands becomes one line.
It has the same characters but for blanks, just if its connector has no label of blanks only. -/
theorem recorded_mendLine {m : Mender} {n : Int} {line : Text}
    (hlinks : (Chain.ofText line).links.length ≤ 1) (hand : '&' ∉ line)
    (hquiet : (m.mendLine n line).2.log = m.log) :
    ∃ out, (m.mendLine n line).1 = [out] ∧
      (solid out = solid line ↔
        ∀ l ∈ (Chain.ofText line).links, ∀ raw ∈ l.connector.label, trim raw ≠ []) := by
  have hrepairs : (mendLine m.supply line).1.repairs = [] := by
    simpa [Mender.mendLine, Noted.events] using hquiet
  show ∃ out, (mendLine m.supply line).1.value = [out] ∧ _
  rcases mendLine_cases m.supply line with ⟨-, -, -, hnoted⟩ | ⟨-, hfree, hvalue, -, hnoted⟩ |
    ⟨-, hne, hsides, hvalue, -, hnoted⟩
  · exact absurd hrepairs hnoted
  · rw [hnoted] at hrepairs
    refine ⟨_, hvalue, ?_⟩
    rw [Chain.links_ofText_eq_nil.2 hfree]
    simpa using Reference.solid_mendOpening hrepairs
  · rw [hnoted] at hrepairs
    rw [hvalue]
    exact Chain.solid_mend_of_quiet hlinks hne hsides hand hrepairs

/-- The label of the connector and those of the nodes are safe but for blanks around them. -/
theorem recorded_mendLine_label :
    let m := Mender.ofSettings "graph TD".toList "MissingNode".toList
    let line := "\tA[ 1 ] --> | yes | B((2))".toList
    (Chain.ofText line).links.length ≤ 1 ∧ '&' ∉ line ∧ (m.mendLine 1 line).2.log = m.log ∧
      ∃ out, (m.mendLine 1 line).1 = [out] ∧ solid out = solid line := by
  intro m line
  have hlinks : (Chain.ofText line).links.length ≤ 1 := by decide +kernel
  have hand : '&' ∉ line := by decide
  have hquiet : (m.mendLine 1 line).2.log = m.log := by decide +kernel
  obtain ⟨out, hout, hsame⟩ := recorded_mendLine hlinks hand hquiet
  exact ⟨hlinks, hand, hquiet, out, hout, hsame.2 (by decide +kernel)⟩

/-- A blank label is lost with its bars, and nothing is noted. -/
theorem mendLine_drops_bars :
    let m := Mender.ofSettings "graph TD".toList "MissingNode".toList
    let line := "A -->|| B".toList
    (Chain.ofText line).links.length ≤ 1 ∧ '&' ∉ line ∧ (m.mendLine 1 line).2.log = m.log ∧
      (m.mendLine 1 line).1 = ["A --> B".toList] ∧ solid "A --> B".toList ≠ solid line := by
  decide +kernel

end Flowmend
