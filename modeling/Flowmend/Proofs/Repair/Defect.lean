import Flowmend.Proofs.Statement.Row
import Flowmend.Repair.Defect

/-!
# Lines without defects

A `Calm` text shows no defect at any position. The text of a tidy reference is calm
(`Reference.Tidy.calm_text`), and so is that of a tidy row (`Row.Tidy.calm_text`): neither is
written again from its tokens.
-/

namespace Flowmend

open Text

namespace Defect

/-- No defect shows at the start of the text. -/
structure Sound (t : Text) : Prop where
  glued : isGlued t = false
  tightArrow : isTightArrow t = false
  lostArrow : isLostArrow t = false
  tightLabel : isTightLabel t = false
  tightBar : isTightBar t = false

/-- No defect shows anywhere in the text. -/
def Calm (t : Text) : Prop := ∀ x, x <:+ t → Sound x

theorem calm_nil : Calm [] := by
  intro x hx
  rw [List.suffix_nil.1 hx]
  constructor <;> decide

theorem Calm.append {a b : Text} (hb : Calm b) (h : ∀ y, y <:+ a → y ≠ [] → Sound (y ++ b)) :
    Calm (a ++ b) := by
  intro x hx
  rcases suffix_append_iff.1 hx with hx | ⟨y, hy, hne, rfl⟩
  · exact hb x hx
  · exact h y hy hne

theorem Calm.cons {c : Char} {t : Text} (ht : Calm t) (h : Sound (c :: t)) : Calm (c :: t) := by
  intro x hx
  rcases List.suffix_cons_iff.1 hx with rfl | hx
  · exact h
  · exact ht x hx

theorem Calm.hasGluedNodes {t : Text} (h : Calm t) : hasGluedNodes t = false :=
  anyTail_eq_false_iff.2 fun x hx => (h x hx).glued

theorem Calm.hasBrokenConnector {t : Text} (h : Calm t)
    (hstart : Connector.arrow? (trimStart t) = none) : hasBrokenConnector t = false := by
  rw [Defect.hasBrokenConnector, hstart, Option.isSome_none, Bool.false_or, anyTail_eq_false_iff]
  intro x hx
  obtain ⟨-, h₁, h₂, h₃, h₄⟩ := h x hx
  rw [h₁, h₂, h₃, h₄]
  rfl

/-! ## Positions without a defect -/

theorem arrow?_eq_none {t : Text} (h : Connector.token? t = none) : Connector.arrow? t = none := by
  rw [Connector.arrow?, h]
  rfl

/-- Where no connector starts, only closing brackets and bars show defects. -/
theorem sound_of_token?_eq_none {c : Char} {t : Text} (hc : isCloser c = false) (hb : c ≠ '|')
    (h : Connector.token? (c :: t) = none) : Sound (c :: t) where
  glued := by simp [isGlued, afterGluedId?, afterCloser?, hc]
  tightArrow := by simp [isTightArrow, afterCloser?, hc]
  lostArrow := by simp [isLostArrow, arrow?_eq_none h]
  tightLabel := by simp [isTightLabel, h]
  tightBar := by cases t <;> simp [isTightBar, hc, hb]

/-- A bar shows a defect only before a square bracket. -/
theorem sound_bar {t : Text} (h : '[' ∉ t.head?) : Sound ('|' :: t) where
  glued := rfl
  tightArrow := rfl
  lostArrow := by
    rw [isLostArrow, arrow?_eq_none (Connector.token?_cons_of_not_stroke t (by decide))]
    rfl
  tightLabel := by
    rw [isTightLabel, Connector.token?_cons_of_not_stroke t (by decide)]
    rfl
  tightBar := by
    cases t with
    | nil => rfl
    | cons d t =>
      have hd : d ≠ '[' := by rintro rfl; exact h rfl
      simp [isTightBar, isCloser, hd]

/-- What may follow a closing bracket: another one, nothing, or a space before what is no id. -/
inductive FollowsCloser : Text → Prop
  | closer {k : Char} (t : Text) : isCloser k = true → FollowsCloser (k :: t)
  | nothing : FollowsCloser []
  | space {d : Char} (t : Text) : isBlank d = false → isIdChar d = false →
    FollowsCloser (' ' :: d :: t)

theorem isCloser_iff {k : Char} : isCloser k = true ↔ k = ']' ∨ k = ')' ∨ k = '}' := by
  simp [isCloser, or_assoc]

theorem FollowsCloser.sound {k : Char} {t : Text} (hk : isCloser k = true)
    (ht : FollowsCloser t) : Sound (k :: t) := by
  have hstroke : Connector.isStroke k = false := by
    rcases isCloser_iff.1 hk with rfl | rfl | rfl <;> decide
  have htoken := Connector.token?_cons_of_not_stroke t hstroke
  have hbar : k ≠ '|' := by rintro rfl; cases hk
  -- What follows opens with neither an id, nor an arrow, nor a bar.
  obtain ⟨hid, harrow, hhead⟩ : leadingId (trimStart t) = [] ∧ Connector.arrow? t = none ∧
      '|' ∉ t.head? := by
    cases ht with
    | @closer k t hk =>
      have hstroke : Connector.isStroke k = false := by
        rcases isCloser_iff.1 hk with rfl | rfl | rfl <;> decide
      refine ⟨?_, arrow?_eq_none (Connector.token?_cons_of_not_stroke t hstroke), ?_⟩
      · rcases isCloser_iff.1 hk with rfl | rfl | rfl <;> rfl
      · rintro ⟨⟩; cases hk
    | nothing => exact ⟨rfl, rfl, by simp⟩
    | @space d t hd hid =>
      refine ⟨?_, arrow?_eq_none (Connector.token?_cons_of_not_stroke _ (by decide)), by simp⟩
      rw [trimStart, List.dropWhile_cons_of_pos (by decide), dropWhile_of_head isBlank t hd]
      simp [leadingId, hid]
  constructor
  · simp [isGlued, afterGluedId?, afterCloser?, hk, hid]
  · simp [isTightArrow, afterCloser?, hk, harrow]
  · simp [isLostArrow, arrow?_eq_none htoken]
  · simp [isTightLabel, htoken]
  · cases t with
    | nil => rfl
    | cons d t =>
      have hd : d ≠ '|' := by rintro rfl; exact hhead rfl
      simp [isTightBar, hd, hbar]

/-- What may follow a connector: neither the end of the line nor an arrow, also behind a label, and
no id directly behind a label. -/
structure FollowsToken (t : Text) : Prop where
  stop : ∃ d u, t = d :: u ∧ Connector.isStroke d = false
  lost : ∀ r ∈ [trimStart t, skipLabel (trimStart t)], r ≠ [] ∧ Connector.arrow? r = none
  label : ∀ p ∈ Connector.pipe? (trimStart t), ∀ c ∈ p.2.head?, isIdChar c = false

/-- No defect shows in a connector before what may follow it. -/
theorem FollowsToken.sound {t token y : Text} (ht : FollowsToken t)
    (htoken : Connector.IsToken token) (hy : y <:+ token) (hne : y ≠ []) : Sound (y ++ t) := by
  obtain ⟨e, y, rfl⟩ := List.exists_cons_of_ne_nil hne
  obtain ⟨⟨d, v, rfl, hd⟩, hlost, hlabel⟩ := ht
  have he := htoken.isStroke e (hy.subset List.mem_cons_self)
  have hcloser : isCloser e = false := by
    by_contra hcl
    rcases isCloser_iff.1 (by simpa using hcl) with rfl | rfl | rfl <;> cases he
  have hbar : e ≠ '|' := by rintro rfl; cases he
  rcases htoken.token?_suffix hy with hnone | htoken
  · have h := Connector.token?_append_stop (e :: y) hd v
    rw [hnone] at h
    exact sound_of_token?_eq_none hcloser hbar h
  · have htoken := htoken.token?_append hd v
    constructor
    · simp [isGlued, afterGluedId?, afterCloser?, hcloser]
    · simp [isTightArrow, afterCloser?, hcloser]
    · rw [isLostArrow, Connector.arrow?, htoken, Option.any_filter, Option.any_some]
      have hany : [trimStart (d :: v), skipLabel (trimStart (d :: v))].any
          (fun r => r.isEmpty || (Connector.arrow? r).isSome) = false := by
        rw [List.any_eq_false]
        intro r hr
        obtain ⟨hne, harrow⟩ := hlost r hr
        simp [hne, harrow]
      simp only [hany, Bool.and_false]
    · rw [isTightLabel, htoken, Option.any_some]
      cases hp : Connector.pipe? (trimStart (d :: v)) with
      | none => simp [hp]
      | some p =>
        have hhead : p.2.head?.any isIdChar = false := by
          cases hc : p.2.head? with
          | none => rfl
          | some c => exact hlabel p hp c hc
        simp only [hp, Option.any_some, hhead]
    · cases hrest : y ++ d :: v with
      | nil => simp at hrest
      | cons a r => simp [isTightBar, hcloser, hbar, hrest]

/-- A text without connectors, closing brackets and bars shows no defect, if what follows does not
go on as a connector. -/
theorem Calm.free_append {t u : Text} (hu : Calm u) (ht : Connector.Free t)
    (hc : ∀ c ∈ t, isCloser c = false ∧ c ≠ '|')
    (hhead : ∀ c ∈ u.head?, Connector.isStroke c = false) : Calm (t ++ u) := by
  refine hu.append fun y hy hne => ?_
  obtain ⟨c, y, rfl⟩ := List.exists_cons_of_ne_nil hne
  obtain ⟨h₁, h₂⟩ := hc c (hy.subset List.mem_cons_self)
  have htoken : Connector.token? (c :: y ++ u) = none := by
    cases u with
    | nil => simpa using ht.token?_suffix hy
    | cons d u =>
      rw [Connector.token?_append_stop (c :: y) (hhead d rfl) u, ht.token?_suffix hy]
      rfl
  exact sound_of_token?_eq_none h₁ h₂ htoken

/-- Characters at which no defect shows, whatever follows. -/
theorem Calm.append_left {t u : Text} (hu : Calm u)
    (ht : ∀ c ∈ t, Connector.isStroke c = false ∧ isCloser c = false ∧ c ≠ '|') :
    Calm (t ++ u) := by
  induction t with
  | nil => exact hu
  | cons c t ih =>
    obtain ⟨h₁, h₂, h₃⟩ := ht c List.mem_cons_self
    have ih := ih fun d hd => ht d (List.mem_cons_of_mem c hd)
    exact ih.cons (sound_of_token?_eq_none h₂ h₃ (Connector.token?_cons_of_not_stroke _ h₁))

/-- Closing brackets in a row show no defect if the last one does not. -/
theorem Calm.closers_append {ks u : Text} (hks : ∀ k ∈ ks, isCloser k = true) (hu : Calm u)
    (hend : FollowsCloser u) : Calm (ks ++ u) := by
  suffices h : Calm (ks ++ u) ∧ FollowsCloser (ks ++ u) from h.1
  induction ks with
  | nil => exact ⟨hu, hend⟩
  | cons k ks ih =>
    have hk := hks k List.mem_cons_self
    obtain ⟨hcalm, hfollows⟩ := ih fun c hc => hks c (List.mem_cons_of_mem k hc)
    exact ⟨hcalm.cons (hfollows.sound hk), .closer _ hk⟩

end Defect

open Defect

/-! ## Nodes -/

/-- A label that cleaning leaves alone has neither closing brackets nor bars. -/
theorem Label.Plain.not_closer {l : Text} (h : Label.Plain l) {c : Char} (hc : c ∈ l) :
    isCloser c = false ∧ c ≠ '|' := by
  have hspecial := h.not_special hc
  constructor
  · by_contra hk
    rcases isCloser_iff.1 (by simpa using hk) with rfl | rfl | rfl <;> cases hspecial
  · rintro rfl
    cases hspecial

theorem Frame.Tidy.calm_append {f : Frame} (hf : f.Tidy) {u : Text} (hu : Calm u)
    (hend : FollowsCloser u) : Calm (f.text ++ u) := by
  have hcloser : ∀ k ∈ f.shape.closer, isCloser k = true := by
    cases f.shape <;> decide
  have hopener : ∀ c ∈ f.shape.opener,
      Connector.isStroke c = false ∧ isCloser c = false ∧ c ≠ '|' := by
    cases f.shape <;> decide
  have hlabel : Calm (f.label ++ (f.shape.closer ++ u)) := by
    refine (Calm.closers_append hcloser hu hend).free_append hf.free
      (fun c hc => hf.plain.not_closer hc) fun c hc => ?_
    obtain ⟨k, ks, hk, hks⟩ := f.shape.closer_eq_cons
    rw [hk] at hc
    cases hc
    rcases hks with rfl | rfl | rfl <;> decide
  rw [hf.text_eq, List.append_assoc, List.append_assoc]
  exact hlabel.append_left hopener

theorem Reference.Tidy.calm_append {n : Reference} (hn : n.Tidy) {u : Text} (hu : Calm u)
    (hend : FollowsCloser u) : Calm (n.text ++ u) := by
  have hid : ∀ c ∈ n.id, Connector.isStroke c = false ∧ isCloser c = false ∧ c ≠ '|' := by
    intro c hc
    have := hn.id.isIdChar c hc
    refine ⟨isStroke_of_isIdChar this, ?_, ne_of_isIdChar this (by decide)⟩
    by_contra hk
    rcases isCloser_iff.1 (by simpa using hk) with rfl | rfl | rfl <;> cases this
  unfold text
  cases hfr : n.frame with
  | none => simpa using hu.append_left hid
  | some f => simpa using ((hn.frame f hfr).calm_append hu hend).append_left hid

/-- The text of a tidy reference shows no defect. -/
theorem Reference.Tidy.calm_text {n : Reference} (hn : n.Tidy) : Calm n.text := by
  simpa using hn.calm_append calm_nil .nothing

/-- A side shows no defect before the space that ends it. -/
theorem IsGroup.calm_append {ns : List Reference} (h : IsGroup ns) {u : Text} (hu : Calm u)
    (hend : FollowsCloser u) : Calm (groupText ns ++ u) := by
  induction h with
  | single hn => exact hn.calm_append hu hend
  | @cons n ns hn hns ih =>
    rw [groupText_cons n hns.ne_nil, List.append_assoc]
    refine hn.calm_append ?_ (.space _ (by decide) (by decide))
    exact ih.append_left (t := [' ', '&', ' ']) (by decide)

/-! ## Connectors -/

section Hop

variable {k : Connector} {c : Char} {u : Text}

/-- The label of a connector shows no defect. -/
theorem Connector.Tidy.calm_gap_append (hk : k.Tidy) (hu : Calm u) :
    Calm (k.gap ++ ' ' :: u) := by
  have hspace : Calm (' ' :: u) := hu.append_left (t := [' ']) (by decide)
  unfold gap
  cases hl : k.label with
  | none => exact hspace
  | some l =>
    have hclose : Calm ('|' :: ' ' :: u) := hspace.cons (sound_bar (by simp))
    have hlabel : Calm (l ++ '|' :: ' ' :: u) :=
      hclose.free_append (hk.label_free l hl) (fun c hc => (hk.label_plain l hl).not_closer hc)
        (by simp [isStroke])
    have hopen : Calm ('|' :: (l ++ '|' :: ' ' :: u)) := by
      refine hlabel.cons (sound_bar fun h => ?_)
      cases l with
      | nil => cases h
      | cons d l =>
        cases h
        cases (hk.label_plain _ hl).not_special List.mem_cons_self
    simpa using hopen

/-- What follows a connector is neither blank nor a connector, and after its label, if it has one,
comes an id behind a space. -/
theorem Connector.Tidy.trimStart_gap (hk : k.Tidy) (hc : isIdChar c = true) (u : Text) :
    trimStart (k.gap ++ ' ' :: c :: u) ≠ [] ∧
      token? (trimStart (k.gap ++ ' ' :: c :: u)) = none ∧
      skipLabel (trimStart (k.gap ++ ' ' :: c :: u)) = c :: u ∧
      ∀ p ∈ pipe? (trimStart (k.gap ++ ' ' :: c :: u)), p.2 = ' ' :: c :: u := by
  have hbar : c ≠ '|' := ne_of_isIdChar hc (by decide)
  have hspace : trimStart (' ' :: c :: u) = c :: u := by
    rw [trimStart, List.dropWhile_cons_of_pos (by decide),
      dropWhile_of_head isBlank u (isBlank_of_isIdChar hc)]
  unfold gap
  cases hl : k.label with
  | none =>
    simp only [List.nil_append, hspace]
    refine ⟨by simp, token?_cons_of_not_stroke u (isStroke_of_isIdChar hc), ?_, ?_⟩
    · unfold skipLabel
      split
      · rename_i he; cases he; exact absurd rfl hbar
      · rfl
    · intro p hp
      unfold pipe? at hp
      split at hp
      · rename_i he; cases he; exact absurd rfl hbar
      · cases hp
  | some l =>
    have hmem : ∀ d ∈ l, d ≠ '|' ∧ d ≠ '\n' := (hk.label_plain l hl).ne_bar
    have hlabel : ∀ d ∈ l, (d != '|') = true := fun d hd => by simpa using (hmem d hd).1
    have hinner : ∀ d ∈ l, (d != '|' && d != '\n') = true := fun d hd => by simpa using hmem d hd
    simp only [List.cons_append, List.append_assoc, List.nil_append]
    rw [show trimStart ('|' :: (l ++ '|' :: ' ' :: c :: u)) = '|' :: (l ++ '|' :: ' ' :: c :: u)
      from dropWhile_of_head isBlank _ (by decide)]
    refine ⟨by simp, token?_cons_of_not_stroke _ (by decide), ?_, ?_⟩
    · simp only [skipLabel, List.dropWhile_append_of_pos hlabel]
      exact hspace
    · intro p hp
      simp only [pipe?, List.dropWhile_append_of_pos hinner,
        List.takeWhile_append_of_pos hinner] at hp
      cases hp
      rfl

/-- A space and an id may follow a connector. -/
theorem Connector.Tidy.followsToken (hk : k.Tidy) (hc : isIdChar c = true) (u : Text) :
    FollowsToken (k.gap ++ ' ' :: c :: u) := by
  obtain ⟨hr, hnone, hskip, hpipe⟩ := hk.trimStart_gap hc u
  refine ⟨gap_append_eq_cons k (c :: u), fun r hr' => ?_, fun p hp d hd => ?_⟩
  · rcases List.mem_cons.1 hr' with rfl | hr'
    · exact ⟨hr, arrow?_eq_none hnone⟩
    · obtain rfl := List.mem_singleton.1 hr'
      rw [hskip]
      exact ⟨by simp, arrow?_eq_none (token?_cons_of_not_stroke u (isStroke_of_isIdChar hc))⟩
  · rw [hpipe p hp] at hd
    cases hd
    rfl

end Hop

/-! ## Rows -/

theorem Hop.Tidy.calm_append {h : Hop} (hh : h.Tidy) {u : Text} (hu : Calm u)
    (hend : FollowsCloser u) : Calm (h.text ++ u) := by
  obtain ⟨c, t, ht, hc⟩ := hh.nodes.text_eq_cons
  have hgap := hh.connector.calm_gap_append (hh.nodes.calm_append hu hend)
  have htoken :
      Calm (h.connector.token ++ (h.connector.gap ++ ' ' :: (groupText h.nodes ++ u))) := by
    refine hgap.append fun y hy hne => ?_
    rw [ht, List.cons_append]
    exact (hh.connector.followsToken hc _).sound hh.connector.token hy hne
  have := htoken.append_left (t := [' ']) (by decide)
  simpa [text, Connector.text] using this

theorem calm_hops {hs : List Hop} (h : ∀ h ∈ hs, h.Tidy) :
    Calm (hs.flatMap Hop.text) ∧ FollowsCloser (hs.flatMap Hop.text) := by
  induction hs with
  | nil => exact ⟨calm_nil, .nothing⟩
  | cons g hs ih =>
    have hg := h g List.mem_cons_self
    obtain ⟨hcalm, hfollows⟩ := ih fun f hf => h f (List.mem_cons_of_mem g hf)
    refine ⟨hg.calm_append hcalm hfollows, ?_⟩
    obtain ⟨e, y, hey⟩ := List.exists_cons_of_ne_nil hg.connector.token.ne_nil
    have he := hg.connector.token.isStroke e (hey ▸ List.mem_cons_self)
    have hblank : isBlank e = false ∧ isIdChar e = false := by
      simp only [Connector.isStroke, Bool.or_eq_true, beq_iff_eq] at he
      rcases he with (((rfl | rfl) | rfl) | rfl) | rfl <;> decide
    simp only [List.flatMap_cons, Hop.text, Connector.text, hey, List.cons_append]
    exact .space _ hblank.1 hblank.2

/-- The text of a tidy row shows no defect. -/
theorem Row.Tidy.calm_text {r : Row} (hr : r.Tidy) : Calm r.text := by
  obtain ⟨hcalm, hfollows⟩ := calm_hops hr.hops
  exact hr.first.calm_append hcalm hfollows

end Flowmend
