import Flowmend.Proofs.Repair.Rest

/-!
# When mended nodes are settled

A node settles if mending its label leaves nothing to mend (`Label.mend_mend`). Then the text that
it opens is settled once it is mended (`settled_mendOpening`, `settled_mend`), and so is an id alone
(`settled_of_isId`). Closing brackets behind a settled text make no difference.
-/

namespace Flowmend

open Text Defect Extract

/-! ## Nodes -/

/-- The label of the node is mended to one that mending leaves alone: cleaning it brings out no
connector, and where nothing is left of it, the id that takes its place is clean. -/
def Reference.Settles (n : Reference) : Prop :=
  ∀ f ∈ n.frame, Connector.Free (Label.mend n.id f.label).value ∧
    (Label.clean none f.label = [] → trim f.label ≠ [] → Label.Plain n.id)

instance (n : Reference) : Decidable n.Settles :=
  inferInstanceAs (Decidable (∀ f ∈ n.frame, _ ∧ _))

/-- The text opens with no framed node, or with one that settles. -/
def OpensSettled (t : Text) : Prop := ∀ p ∈ Reference.opening? t, p.1.Settles

instance (t : Text) : Decidable (OpensSettled t) :=
  inferInstanceAs (Decidable (∀ p ∈ Reference.opening? t, p.1.Settles))

/-- A mended label is mended to itself. -/
theorem Label.mend_mend {node raw : Text}
    (h : clean none raw = [] → trim raw ≠ [] → Plain node) :
    mend node (mend node raw).value = ⟨(mend node raw).value, []⟩ := by
  by_cases htrim : clean none raw = trim raw
  · have hraw : mend node raw = ⟨raw, []⟩ := if_pos htrim
    rw [hraw]
    exact hraw
  · have hvalue : (mend node raw).value =
        if (clean none raw).isEmpty then node else clean none raw := by
      rw [mend]
      simp only [if_neg htrim]
    rw [hvalue]
    split
    · rename_i hnil
      have hnil : clean none raw = [] := by simpa using hnil
      exact (h hnil fun hblank => htrim (by rw [hnil, hblank])).mend node
    · exact (plain_clean raw).mend node

theorem eq_nil_or_closers {u : Text} (hu : ∀ c ∈ u, c = ']') : u = [] ∨ ∃ n, u = closers n := by
  cases u with
  | nil => exact .inl rfl
  | cons c u =>
    refine .inr ⟨u.length, ?_⟩
    rw [closers, hu c List.mem_cons_self]
    exact congrArg _ (List.eq_replicate_iff.2 ⟨rfl, fun d hd => hu d (List.mem_cons_of_mem c hd)⟩)

theorem Shape.isCloser_of_mem_closer (s : Shape) : ∀ c ∈ s.closer, isCloser c = true := by
  cases s <;> decide

section Framed

variable {id label rest : Text} {s : Shape} (hid : IsId id)
  (hlabel : ∀ c ∈ label, Label.isSpecial c = false)

include hid hlabel

/-- Neither closing brackets nor bars stand before the bracket that closes the label. -/
theorem not_closer_of_mem_framed :
    ∀ c ∈ framedText id s ++ label, isCloser c = false ∧ c ≠ '|' := by
  intro c hc
  rcases List.mem_append.1 hc with hc | hc
  · rcases List.mem_append.1 hc with hc | hc
    · have := hid.isIdChar c hc
      refine ⟨?_, ne_of_isIdChar this (by decide)⟩
      by_contra hk
      rcases isCloser_iff.1 (by simpa using hk) with rfl | rfl | rfl <;> cases this
    · have : ∀ c ∈ s.opener, isCloser c = false ∧ c ≠ '|' := by cases s <;> decide
      exact this c hc
  · have := hlabel c hc
    constructor
    · by_contra hk
      rcases isCloser_iff.1 (by simpa using hk) with rfl | rfl | rfl <;> cases this
    · rintro rfl
      cases this

theorem endsGlued_framed (hend : endsGlued (s.closer ++ rest) = false) :
    endsGlued (framedText id s ++ (label ++ s.closer ++ rest)) = false := by
  rw [List.append_assoc label, ← List.append_assoc]
  exact endsGlued_append_left hend fun c hc => (not_closer_of_mem_framed hid hlabel c hc).1

/-- A framed node with a clean label opens a settled text, if the text shows no defect behind the
label. -/
theorem settled_framed (hmend : Label.mend id label = ⟨label, []⟩) (hfree : Connector.Free label)
    (hrest : Connector.Free rest) (hclear : Clear (s.closer ++ rest))
    (hline : IsLine (framedText id s ++ (label ++ s.closer ++ rest))) :
    Settled (framedText id s ++ (label ++ s.closer ++ rest)) where
  isLine := hline
  free := by
    have hcloser : Connector.Free (s.closer ++ rest) := hrest.append_left s.isStroke_closer
    have hhead : ∀ c ∈ (s.closer ++ rest).head?, Connector.isStroke c = false := by
      obtain ⟨k, ks, hk, -⟩ := s.closer_eq_cons
      intro c hc
      rw [hk] at hc
      cases hc
      exact s.isStroke_closer k (hk ▸ List.mem_cons_self)
    rw [List.append_assoc label]
    exact (hfree.append_of_head hcloser hhead).append_left (isStroke_of_mem_framedText hid)
  clear := by
    rw [List.append_assoc label, ← List.append_assoc]
    exact hclear.append_left (not_closer_of_mem_framed hid hlabel)
  mendOpening u _ := by
    have hmended : Reference.mend ⟨id, some ⟨s, label, true⟩⟩ =
        ⟨framedText id s ++ (label ++ s.closer), []⟩ := by
      simp only [Reference.mend, hmend, if_true, framedText, List.append_assoc]
      rfl
    have hhead : ∀ c ∈ (framedText id s ++ (label ++ s.closer ++ (rest ++ u))).head?,
        isBlank c = false := by
      rw [List.head?_append_of_ne_nil _ (framedText_ne_nil hid)]
      exact (trimmed_framedText hid).1
    rw [List.append_assoc (framedText id s), List.append_assoc (label ++ s.closer),
      Reference.mendOpening, Reference.opening?_eq_read? hhead,
      Reference.read?_mended hid hlabel hfree]
    simp only [Reference.bare, Option.isNone_some, Bool.false_eq_true, if_false, hmended]
    show (⟨framedText id s ++ (label ++ s.closer) ++ (rest ++ u), []⟩ : Noted Text) = _
    rw [List.append_assoc (framedText id s)]

end Framed

/-- Without connectors, a label that is not closed ends the text. -/
theorem Reference.rest_eq_nil_of_not_closed {t rest : Text} {n : Reference} {f : Frame}
    (hread : read? t = some (n, rest)) (hf : n.frame = some f) (hclosed : f.closed = false)
    (hfree : Connector.Free t) : rest = [] := by
  have hrest : rest <:+ t := ⟨_, (eq_append_of_read? hread).1.symm⟩
  refine (rest_of_not_closed hread hf hclosed).resolve_right ?_
  rw [hfree.token?_suffix hrest]
  exact Bool.false_ne_true

/-- The part of a line that opens with a node that settles is settled when this node is mended. -/
theorem settled_mendOpening {t : Text} (ht : IsLine t) (hfree : Connector.Free t) (hclear : Clear t)
    (hopens : OpensSettled t) : Settled (Reference.mendOpening t).value ∧
      (endsGlued t = false → endsGlued (Reference.mendOpening t).value = false) := by
  have hline := Reference.isLine_mendOpening ht
  rcases Reference.mendOpening_cases ht.trimmed with hframe | ⟨n, f, rest, hf, hread, hvalue⟩
  · rw [Reference.mendOpening_of_not_opensWithFrame hframe]
    refine ⟨⟨ht, hfree, hclear, fun u hu => ?_⟩, id⟩
    refine Reference.mendOpening_of_not_opensWithFrame ?_
    rcases eq_nil_or_closers hu with rfl | ⟨n, rfl⟩
    · rwa [List.append_nil]
    · rw [opensWithFrame_append_closers n hfree, hframe]
  · have hid := Reference.isId_of_read? hread
    have hlabel : ∀ c ∈ (Label.mend n.id f.label).value, Label.isSpecial c = false := fun c hc =>
      (Label.mem_mend hid hc).1
    have hopening := (Reference.opening?_eq_read? ht.trimmed.1).trans hread
    obtain ⟨hlabel_free, hclean⟩ := hopens (n, rest) hopening f hf
    have htext := Reference.text_of_read? hread hf
    rw [List.append_assoc f.label, ← List.append_assoc] at htext
    have hrest : Connector.Free rest :=
      hfree.suffix (htext ▸ ⟨_, List.append_assoc _ _ rest⟩)
    -- Behind the label stands what stood there before, or nothing.
    have htail : Clear (f.shape.closer ++ rest) ∧
        (endsGlued t = false → endsGlued (f.shape.closer ++ rest) = false) := by
      cases hclosed : f.closed with
      | true =>
        rw [hclosed, if_pos rfl] at htext
        have hsuffix : f.shape.closer ++ rest <:+ t := htext ▸ List.suffix_append _ _
        refine ⟨hclear.suffix hsuffix, fun hend => ?_⟩
        rw [endsGlued_eq_false_iff] at hend ⊢
        exact fun u hu => hend u (hu.trans hsuffix)
      | false =>
        rw [Reference.rest_eq_nil_of_not_closed hread hf hclosed hfree, List.append_nil]
        exact (clear_of_closers f.shape.isCloser_of_mem_closer).imp_right fun h _ => h
    rw [hvalue] at hline ⊢
    exact ⟨settled_framed hid hlabel (Label.mend_mend hclean) hlabel_free hrest htail.1 hline,
      fun hend => endsGlued_framed hid hlabel (htail.2 hend)⟩

/-- A declaration of a node that settles is settled. -/
theorem settled_mend {n : Reference} {f : Frame} (hid : IsId n.id) (hf : n.frame = some f)
    (hbreak : ∀ c ∈ n.text, isBreak c = false) (hn : n.Settles) :
    Settled n.mend.value ∧ endsGlued n.mend.value = false := by
  have hlabel : ∀ c ∈ (Label.mend n.id f.label).value, Label.isSpecial c = false := fun c hc =>
    (Label.mem_mend hid hc).1
  obtain ⟨hfree, hclean⟩ := hn f hf
  obtain ⟨hclear, hend⟩ := clear_of_closers f.shape.isCloser_of_mem_closer
  have hline := Reference.isLine_mend hid hf hbreak
  rw [← List.append_nil f.shape.closer] at hclear hend
  rw [Reference.value_mend hf,
    ← List.append_nil ((Label.mend n.id f.label).value ++ f.shape.closer)] at hline ⊢
  exact ⟨settled_framed hid hlabel (Label.mend_mend hclean) hfree
    Connector.free_nil hclear hline, endsGlued_framed hid hlabel hend⟩

section Id

variable {id : Text} (hid : IsId id)

include hid

theorem settled_of_isId : Settled id ∧ endsGlued id = false := by
  have hline := isLine_of_isId hid
  have hframed : ∀ c ∈ framedText id .rectangle ++ [], isCloser c = false ∧ c ≠ '|' :=
    not_closer_of_mem_framed hid (by simp)
  have hchars : ∀ c ∈ id, isCloser c = false ∧ c ≠ '|' := fun c hc =>
    hframed c (List.mem_append_left _ (List.mem_append_left _ hc))
  obtain ⟨hclear, hend⟩ := clear_of_closers (t := []) (by simp)
  have hclear := hclear.append_left hchars
  have hend := endsGlued_append_left hend fun c hc => (hchars c hc).1
  rw [List.append_nil] at hclear hend
  have hopens : OpensSettled id := by
    rw [OpensSettled, opening?_of_isId hid]
    rintro p ⟨⟩ f hf
    cases hf
  have hsettled := (settled_mendOpening hline (free_of_isId hid) hclear hopens).1
  rw [Reference.mendOpening_of_not_opensWithFrame (opensWithFrame_of_isId hid)] at hsettled
  exact ⟨hsettled, hend⟩

end Id

/-! ## Sides with closing brackets behind them -/

section Closing

variable {t u : Text} (hu : ∀ c ∈ u, c = ']')

include hu

theorem Settled.append_closing (ht : Settled t) : Settled (t ++ u) := by
  rcases eq_nil_or_closers hu with rfl | ⟨n, rfl⟩
  · rwa [List.append_nil]
  · exact ht.append_closers n

theorem endsGlued_append_closing (ht : endsGlued t = false) : endsGlued (t ++ u) = false := by
  rcases eq_nil_or_closers hu with rfl | ⟨n, rfl⟩
  · rwa [List.append_nil]
  · exact endsGlued_append_closers t n

theorem pipe?_append_closing (hne : t ≠ []) (h : Connector.pipe? t = none) :
    Connector.pipe? (t ++ u) = none := by
  cases hp : Connector.pipe? (t ++ u) with
  | none => rfl
  | some p =>
    have hbar := (Connector.length_lt_of_pipe?_append hne h hp).2
    cases hu _ hbar

theorem idBehindBar_append_closing (h : idBehindBar t = false) : idBehindBar (t ++ u) = false := by
  have hid : ∀ c ∈ u.head?, isIdChar c = false := by
    intro c hc
    rw [hu c (List.mem_of_mem_head? hc)]
    decide
  have hdrop : u.dropWhile (· != '|') = [] := by
    rw [List.dropWhile_eq_nil_iff]
    intro c hc
    rw [hu c hc]
    decide
  unfold idBehindBar at h ⊢
  rw [List.dropWhile_append]
  split
  · rw [hdrop]
    rfl
  · cases hrest : t.dropWhile (· != '|') with
    | nil => simp_all
    | cons c r =>
      rw [hrest] at h
      cases r with
      | nil =>
        cases hhead : u.head? with
        | none => simp [hhead]
        | some d => simp [hhead, hid d hhead]
      | cons d r => exact h

end Closing

end Flowmend
