import Flowmend.Proofs.Graph.Side
import Flowmend.Proofs.Label

/-!
# Loose ends

A graph shows of a reference its `look`: the id, whether it is bare, and the label that is safe to
show (`Draft.addAll_congr`). `Loose` characters, blanks and closing brackets, may stand behind a
text without any change to the looks of its references (`looks_append`): what they add to a label
that is not closed, cleaning takes away again (`Label.plain_append`).
-/

namespace Flowmend

open Text Extract

/-! ## Loose characters -/

/-- A blank or a closing bracket, and no line break. -/
structure Loose (c : Char) : Prop where
  blank_or_closer : isBlank c = true ∨ c ∈ [']', ')', '}']
  not_break : isBreak c = false

namespace Loose

variable {c : Char} (h : Loose c)

include h

/-- What holds of no blank and no closing bracket holds of no loose character. -/
theorem of_not {p : Char → Bool} (hblank : ∀ c, isBlank c = true → p c = false)
    (hcloser : ∀ c ∈ [']', ')', '}'], p c = false) : p c = false :=
  h.blank_or_closer.elim (hblank c) (hcloser c)

theorem inert : Inert c := by
  rcases h.blank_or_closer with hc | hc
  · exact inert_of_isBlank hc
  · have hclosers : ∀ c ∈ [']', ')', '}'], isIdChar c = false ∧ Connector.isStroke c = false ∧
        (c ≠ '[' ∧ c ≠ '(' ∧ c ≠ '{') ∧ c ≠ '|' := by decide
    obtain ⟨h₁, h₂, h₃, h₄⟩ := hclosers c hc
    exact ⟨h₁, h₂, h₃, h₄⟩

theorem not_word : isWord c = false := h.of_not (fun _ => isWord_of_isBlank) (by decide)

/-- A loose character is none of those that are neither blank nor a closing bracket. -/
theorem ne {d : Char} (hd : isBlank d = false ∧ d ∉ [']', ')', '}']) : c ≠ d := by
  rintro rfl
  rcases h.blank_or_closer with hc | hc
  · rw [hd.1] at hc
    cases hc
  · exact hd.2 hc

theorem blank_or_special : isBlank c = true ∨ Label.isSpecial c = true :=
  h.blank_or_closer.imp_right fun hc =>
    (by decide : ∀ c ∈ [']', ')', '}'], Label.isSpecial c = true) c hc

end Loose

theorem Shape.loose_of_mem_closer (s : Shape) : ∀ c ∈ s.closer, Loose c := by
  have hclosers : ∀ c ∈ s.closer, c ∈ [']', ')', '}'] ∧ isBreak c = false := by
    cases s <;> decide
  exact fun c hc => ⟨.inr (hclosers c hc).1, (hclosers c hc).2⟩

/-! ## Labels -/

namespace Label

theorem dropUnderscores_append (joined : Bool) (t : Text) {v : Text}
    (hv : ∀ c ∈ v, isIdChar c = false) :
    dropUnderscores joined (t ++ v) = dropUnderscores joined t ++ v := by
  have hv' : ∀ c ∈ v, c ≠ '_' ∧ isAlnum c = false := by
    intro c hc
    have := hv c hc
    simp only [isIdChar, Bool.or_eq_false_iff, beq_eq_false_iff_ne] at this
    exact ⟨this.2, this.1⟩
  induction t generalizing joined with
  | nil =>
    clear hv
    induction v generalizing joined with
    | nil => rfl
    | cons c v ih =>
      show dropUnderscores joined (c :: v) = c :: v
      rw [dropUnderscores, if_neg (hv' c List.mem_cons_self).1]
      exact congrArg (c :: ·) (ih (fun d hd => hv' d (List.mem_cons_of_mem c hd)) _)
  | cons c t ih =>
    -- No letter or digit comes behind underscores that was not there before.
    have hnext : ((t ++ v).dropWhile (· == '_')).head?.any isAlnum =
        (t.dropWhile (· == '_')).head?.any isAlnum := by
      cases v with
      | nil => rw [List.append_nil]
      | cons d v =>
        obtain ⟨hd, halnum⟩ := hv' d List.mem_cons_self
        rw [dropWhile_append_stop _ t (by simpa using hd)]
        cases t.dropWhile (· == '_') with
        | nil => simpa using halnum
        | cons e u => rfl
    rw [List.cons_append, dropUnderscores, dropUnderscores, hnext]
    split
    · split <;> simp [ih]
    · simp [ih]

/-- Loose characters at the end of a label do not show. -/
theorem plain_append {t v : Text} (ht : OneLine t) (hv : ∀ c ∈ v, Loose c) :
    plain (t ++ v) = plain t := by
  have hasterisk : dropAsterisks (t ++ v) = dropAsterisks t ++ v := by
    rw [dropAsterisks, List.filter_append]
    refine congrArg _ (List.filter_eq_self.2 fun c hc => ?_)
    simpa using (hv c hc).ne (d := '*') (by decide)
  have hunderscore := dropUnderscores_append false (dropAsterisks t)
    fun c hc => (hv c hc).inert.not_id
  have hreturn : ∀ {u : Text}, OneLine u → ∀ c ∈ u, isReturn c = false := by
    intro u hu c hc
    by_contra h
    have := hu c hc
    simp only [Bool.not_eq_false, isReturn, Bool.or_eq_true, beq_iff_eq] at h
    rcases h with rfl | rfl <;> cases this
  have hleft : OneLine (dropUnderscores false (dropAsterisks t)) := fun c hc =>
    ht c ((List.filter_sublist.subset) ((dropUnderscores_sublist ..).subset hc))
  have hboth : OneLine (dropUnderscores false (dropAsterisks t) ++ v) := fun c hc =>
    (List.mem_append.1 hc).elim (hleft c) fun hc => (hv c hc).not_break
  rw [plain, plain, hasterisk, hunderscore, foldLines_eq_self (hreturn hboth),
    foldLines_eq_self (hreturn hleft), List.filter_append, List.filter_append]
  refine trim_append_blanks fun c hc => ?_
  simp only [List.mem_filter, Bool.not_eq_true'] at hc
  refine (hv c hc.1.1).blank_or_special.resolve_right fun hspecial => ?_
  rw [hc.2] at hspecial
  cases hspecial

end Label

/-! ## Looks -/

/-- What a graph shows of a reference. -/
def Reference.look (n : Reference) : Text × Bool × Text :=
  (n.id, n.bare, Label.plain (n.frame.elim [] Frame.label))

/-- What a graph shows of the references of a text. -/
def looks (t : Text) : List (Text × Bool × Text) := (references t).map Reference.look

theorem Reference.bare_of_look {n m : Reference} (h : n.look = m.look) : n.bare = m.bare :=
  congrArg (fun p => p.2.1) h

theorem map_id_of_map_look {ns ms : List Reference}
    (h : ns.map Reference.look = ms.map Reference.look) :
    ns.map Reference.id = ms.map Reference.id := by
  have := congrArg (List.map Prod.fst) h
  simpa [List.map_map, Function.comp_def, Reference.look] using this

theorem Extract.labelOf_congr {limit : Option Int} {id raw raw' : Text}
    (h : Label.plain raw = Label.plain raw') : labelOf limit id raw = labelOf limit id raw' := by
  rw [labelOf, labelOf, Label.clean, Label.clean, h]

/-- References with the same looks declare the same nodes. -/
theorem Extract.Draft.addAll_congr {limit : Option Int} {ns ms : List Reference}
    (h : ns.map Reference.look = ms.map Reference.look) (d : Draft) :
    d.addAll limit ns = d.addAll limit ms := by
  induction ns generalizing d ms with
  | nil => rw [List.map_eq_nil_iff.1 h.symm]
  | cons n ns ih =>
    obtain ⟨m, ms, rfl, hm, hms⟩ := List.map_eq_cons_iff.1 h.symm
    have hnode : d.addReference limit m = d.addReference limit n := by
      simp only [Reference.look, Prod.mk.injEq] at hm
      rw [addReference, addReference, declare, declare, hm.1, labelOf_congr hm.2.2]
    show (d.addReference limit n).addAll limit ns = (d.addReference limit m).addAll limit ms
    rw [hnode]
    exact ih hms.symm _

theorem subset_of_mem_references {t : Text} {n : Reference} (h : n ∈ references t) :
    n.text ⊆ t := by
  rw [references_eq] at h
  obtain ⟨l, hl, hnode⟩ := List.mem_filterMap.1 h
  obtain rfl : l = .node n := by
    cases l <;> simp_all [Lexeme.node?]
  intro c hc
  rw [← text_lexemes t]
  exact List.mem_flatMap.2 ⟨_, hl, hc⟩

/-- Labels that are the same up to loose ends show the same. -/
theorem Frame.SameUpToEnd.plain_eq {shape : Shape} {w label label' : Text}
    (h : SameUpToEnd shape.closer w label label') (hline : OneLine label)
    (hw : ∀ c ∈ w, Loose c) : Label.plain label' = Label.plain label := by
  obtain ⟨l, v, v', rfl, rfl, hv, hv'⟩ := h
  have hl : OneLine l := hline.within (List.prefix_append l v).isInfix
  rw [Label.plain_append hl fun c hc => hw c (hv' c hc),
    Label.plain_append hl fun c hc => shape.loose_of_mem_closer c (hv c hc)]

theorem Reference.SameUpToEnd.look {w : Text} {n n' : Reference} (h : n.SameUpToEnd w n')
    (hline : OneLine n.text) (hw : ∀ c ∈ w, Loose c) : n'.look = n.look := by
  obtain ⟨hid, hframe⟩ := h
  cases n with
  | mk id frame =>
    cases n' with
    | mk id' frame' =>
      obtain rfl : id' = id := hid
      cases hframe with
      | none => rfl
      | @some f f' hsame =>
        have hlabel : OneLine f.label := by
          refine hline.within ⟨id' ++ f.shape.opener, if f.closed then f.shape.closer else [], ?_⟩
          simp [text, Frame.text]
        exact congrArg (fun l => (id', false, l)) (hsame.2.plain_eq hlabel hw)

/-- Loose characters behind a text do not change what shows of its references. -/
theorem looks_append {u w : Text} (hu : Connector.Free u) (hline : OneLine u)
    (hw : ∀ c ∈ w, Loose c) : looks (u ++ w) = looks u :=
  map_references_append_inert hu (fun c hc => (hw c hc).inert) fun _ _ hn hsame =>
    hsame.look (fun c hc => hline c (subset_of_mem_references hn hc)) hw

theorem looks_trim {t : Text} (h : Connector.Free t) (hline : OneLine t) :
    looks (trim t) = looks t := by
  have htrim := hline.within (infix_trim t)
  have hfree := h.within (infix_trim t)
  obtain ⟨a, b, ht, ha, hb⟩ := exists_trim t
  have hline' : OneLine b := hline.within ⟨a ++ trim t, [], by rw [List.append_nil]; exact ht.symm⟩
  conv => rhs; rw [ht, List.append_assoc]
  rw [looks, looks, references_inert_append fun c hc => inert_of_isBlank (ha c hc)]
  exact (looks_append hfree htrim fun c hc => ⟨.inl (hb c hc), hline' c hc⟩).symm

end Flowmend
