import Flowmend.Proofs.Graph.Closers
import Flowmend.Proofs.Repair.Defect

/-!
# Defects inside of a part

Part of a line without defects can show one at its end only: a closing bracket and an id are glued
if the line ends there or an arrow follows (`endsGlued`). A `Clear` text shows none before its end,
so it is calm as a line if it does not end so (`Clear.calm`), and it stays calm before a space and
what opens with neither a blank nor an id (`Clear.calm_append_space`).
-/

namespace Flowmend.Defect

open Text

/-- A closing bracket and an id end the text, with blanks around the id. -/
def endsGlued (t : Text) : Bool := anyTail (fun u => afterGluedId? u == some []) t

/-- No declaration is glued to the next one, and no bar touches a bracket. -/
structure Clear (t : Text) : Prop where
  glued : ∀ u, u <:+ t → ∀ rest ∈ afterGluedId? u, ∀ c ∈ rest.head?, isOpener c = false
  bar : ∀ u, u <:+ t → isTightBar u = false

theorem endsGlued_eq_false_iff {t : Text} :
    endsGlued t = false ↔ ∀ u, u <:+ t → afterGluedId? u ≠ some [] := by
  simp [endsGlued, anyTail_eq_false_iff]

theorem Clear.suffix {t u : Text} (h : Clear t) (hu : u <:+ t) : Clear u :=
  ⟨fun v hv => h.glued v (hv.trans hu), fun v hv => h.bar v (hv.trans hu)⟩

/-! ## Closing brackets and ids -/

theorem suffix_of_afterGluedId? {t rest : Text} (h : afterGluedId? t = some rest) : rest <:+ t := by
  unfold afterGluedId? at h
  split at h
  · cases h
  · rename_i u hu
    split at h
    · cases h
    · cases h
      have hut : u <:+ t := by
        unfold afterCloser? at hu
        split at hu
        · cases hu
        · split at hu
          · cases hu
            exact List.suffix_cons _ _
          · cases hu
      exact (List.dropWhile_suffix _).trans
        ((List.dropWhile_suffix _).trans ((List.dropWhile_suffix _).trans hut))

theorem afterGluedId?_of_not_closer {c : Char} (hc : isCloser c = false) (t : Text) :
    afterGluedId? (c :: t) = none := by
  simp [afterGluedId?, afterCloser?, hc]

/-- What follows a closing bracket and an id goes on with what is written behind, and the blanks in
between count only if something follows already. -/
theorem afterGluedId?_append {b : Text} {c : Char} (hb : ∀ d ∈ b, isBlank d = true)
    (hblank : isBlank c = false) (hid : isIdChar c = false) {t : Text} (ht : t ≠ []) (u : Text) :
    afterGluedId? (t ++ (b ++ c :: u)) =
      (afterGluedId? t).map fun rest => if rest = [] then c :: u else rest ++ (b ++ c :: u) := by
  obtain ⟨k, t, rfl⟩ := List.exists_cons_of_ne_nil ht
  by_cases hk : isCloser k = true
  swap
  · rw [List.cons_append, afterGluedId?_of_not_closer (by simpa using hk),
      afterGluedId?_of_not_closer (by simpa using hk)]
    rfl
  have hstart : ∀ t : Text, trimStart (t ++ (b ++ c :: u)) =
      if trimStart t = [] then c :: u else trimStart t ++ (b ++ c :: u) := by
    intro t
    rw [trimStart, List.dropWhile_append, List.dropWhile_append_of_pos hb,
      dropWhile_of_head isBlank u hblank]
    simp [trimStart]
  have hhead : ∀ d ∈ (b ++ c :: u).head?, isIdChar d = false := by
    cases b with
    | nil =>
      rintro d ⟨⟩
      exact hid
    | cons d b =>
      rintro d ⟨⟩
      exact not_id_of_isBlank (hb d List.mem_cons_self)
  simp only [afterGluedId?, List.cons_append, afterCloser?, hk, if_true]
  rw [hstart]
  by_cases hnil : trimStart t = []
  · simp [hnil, leadingId, hid]
  · rw [if_neg hnil, leadingId_append_stop _ hhead]
    split
    · rfl
    · rw [afterId_append_stop _ hhead, hstart]
      simp

/-- What stands behind the id stays there when the text goes on. -/
theorem afterGluedId?_append_of_ne_nil {t rest : Text} (h : afterGluedId? t = some rest)
    (hne : rest ≠ []) (u : Text) : afterGluedId? (t ++ u) = some (rest ++ u) := by
  have hdrop : ∀ {p : Char → Bool} {t : Text}, t.dropWhile p ≠ [] →
      (t ++ u).dropWhile p = t.dropWhile p ++ u := by
    intro p t hne
    rw [List.dropWhile_append, if_neg (by simpa using hne)]
  cases t with
  | nil => cases h
  | cons k t =>
    by_cases hk : isCloser k = true
    swap
    · rw [afterGluedId?_of_not_closer (by simpa using hk)] at h
      cases h
    simp only [afterGluedId?, afterCloser?, hk, if_true] at h
    split at h
    · cases h
    rename_i hid
    cases h
    have hafter : afterId (trimStart t) ≠ [] := fun hnil => hne (by rw [hnil]; rfl)
    have hstart : trimStart t ≠ [] := fun hnil => hid (by rw [hnil]; rfl)
    have hstart' : trimStart (t ++ u) = trimStart t ++ u := hdrop hstart
    have hafter' : afterId (trimStart t ++ u) = afterId (trimStart t) ++ u := hdrop hafter
    have hrest' : trimStart (afterId (trimStart t) ++ u) = trimStart (afterId (trimStart t)) ++ u :=
      hdrop hne
    have hleading : leadingId (trimStart t ++ u) = leadingId (trimStart t) :=
      leadingId_append_of_head? fun c hc => of_head?_dropWhile (p := isIdChar) (trimStart t) c
        (by rwa [List.head?_append_of_ne_nil _ hafter] at hc)
    simp only [List.cons_append, afterGluedId?, afterCloser?, hk, if_true, hstart', hleading,
      hafter', hrest']
    rw [if_neg hid]

/-! ## Where texts are clear -/

theorem isTightBar_append {t : Text} (h : isTightBar t = true) (u : Text) :
    isTightBar (t ++ u) = true := by
  match t with
  | [] | [_] => cases h
  | c :: d :: t => exact h

/-- Part of a line that is neither glued nor broken is clear. -/
theorem clear_of_mended {s t : Text} (hglued : hasGluedNodes s = false)
    (hbroken : hasBrokenConnector s = false) (ht : t <:+: s) : Clear t := by
  obtain ⟨a, b, rfl⟩ := ht
  have htail : ∀ u, u <:+ t → u ++ b <:+ a ++ t ++ b := by
    rintro u ⟨v, rfl⟩
    exact ⟨a ++ v, by simp⟩
  rw [hasGluedNodes, anyTail_eq_false_iff] at hglued
  rw [hasBrokenConnector, Bool.or_eq_false_iff, anyTail_eq_false_iff] at hbroken
  constructor
  · intro u hu rest hrest c hc
    have hne : rest ≠ [] := by
      rintro rfl
      cases hc
    have hnot := hglued _ (htail u hu)
    rw [isGlued, afterGluedId?_append_of_ne_nil hrest hne, Option.any_some,
      List.head?_append_of_ne_nil _ hne, hc, Bool.or_eq_false_iff, Bool.or_eq_false_iff] at hnot
    exact hnot.1.2
  · intro u hu
    have hnot := hbroken.2 _ (htail u hu)
    rw [Bool.or_eq_false_iff] at hnot
    by_contra h
    rw [isTightBar_append (by simpa using h) b] at hnot
    cases hnot.2

/-- A line that is not glued does not end so. -/
theorem endsGlued_of_not_glued {s : Text} (h : hasGluedNodes s = false) : endsGlued s = false := by
  rw [hasGluedNodes, anyTail_eq_false_iff] at h
  rw [endsGlued_eq_false_iff]
  intro u hu hnil
  have := h u hu
  rw [isGlued, hnil] at this
  cases this

section Append

variable {a t : Text}

/-- Neither closing brackets nor bars stand before a clear text. -/
theorem Clear.append_left (ht : Clear t) (ha : ∀ c ∈ a, isCloser c = false ∧ c ≠ '|') :
    Clear (a ++ t) := by
  constructor
  · intro u hu rest hrest
    rcases suffix_append_iff.1 hu with hu | ⟨y, hy, hne, rfl⟩
    · exact ht.glued u hu rest hrest
    · obtain ⟨c, y, rfl⟩ := List.exists_cons_of_ne_nil hne
      rw [List.cons_append, afterGluedId?_of_not_closer (ha c (hy.subset List.mem_cons_self)).1]
        at hrest
      cases hrest
  · intro u hu
    rcases suffix_append_iff.1 hu with hu | ⟨y, hy, hne, rfl⟩
    · exact ht.bar u hu
    · obtain ⟨c, y, rfl⟩ := List.exists_cons_of_ne_nil hne
      obtain ⟨hcloser, hbar⟩ := ha c (hy.subset List.mem_cons_self)
      cases hrest : y ++ t with
      | nil => simp [hrest, isTightBar]
      | cons d r => simp [hrest, isTightBar, hcloser, hbar]

theorem endsGlued_append_left (ht : endsGlued t = false) (ha : ∀ c ∈ a, isCloser c = false) :
    endsGlued (a ++ t) = false := by
  rw [endsGlued_eq_false_iff] at ht ⊢
  intro u hu
  rcases suffix_append_iff.1 hu with hu | ⟨y, hy, hne, rfl⟩
  · exact ht u hu
  · obtain ⟨c, y, rfl⟩ := List.exists_cons_of_ne_nil hne
    rw [List.cons_append, afterGluedId?_of_not_closer (ha c (hy.subset List.mem_cons_self))]
    simp

end Append

/-! ## Closing brackets at the end -/

theorem afterGluedId?_append_closers {t : Text} (ht : t ≠ []) (n : Nat) :
    afterGluedId? (t ++ closers n) = (afterGluedId? t).map (· ++ closers n) := by
  have := afterGluedId?_append (b := []) (by simp) (by decide : isBlank ']' = false) (by decide) ht
    (List.replicate n ']')
  rw [List.nil_append] at this
  rw [closers, this]
  congr 1
  funext rest
  split
  · rename_i hnil
    rw [hnil]
    rfl
  · rfl

/-- No id stands among closing brackets. -/
theorem afterGluedId?_of_closers {t : Text} (ht : ∀ c ∈ t, isCloser c = true) :
    afterGluedId? t = none := by
  cases t with
  | nil => rfl
  | cons k t =>
    have hid : leadingId (trimStart t) = [] := by
      cases t with
      | nil => rfl
      | cons c t =>
        have hc := ht c (by simp)
        rcases isCloser_iff.1 hc with rfl | rfl | rfl <;> rfl
    simp [afterGluedId?, afterCloser?, ht k List.mem_cons_self, hid]

theorem clear_of_closers {t : Text} (ht : ∀ c ∈ t, isCloser c = true) :
    Clear t ∧ endsGlued t = false := by
  have hnone : ∀ u, u <:+ t → afterGluedId? u = none := fun u hu =>
    afterGluedId?_of_closers fun c hc => ht c (hu.subset hc)
  have hbar : ∀ c ∈ t, c ≠ '|' := by
    intro c hc hbar
    have := ht c hc
    rw [hbar] at this
    cases this
  refine ⟨⟨fun u hu rest hrest => ?_, fun u hu => ?_⟩, ?_⟩
  · rw [hnone u hu] at hrest
    cases hrest
  · match u with
    | [] | [_] => rfl
    | c :: d :: u =>
      simp [isTightBar, hbar c (hu.subset List.mem_cons_self), hbar d (hu.subset (by simp))]
  · rw [endsGlued_eq_false_iff]
    intro u hu
    rw [hnone u hu]
    simp

theorem isCloser_of_mem_closers {n : Nat} : ∀ c ∈ closers n, isCloser c = true := by
  intro c hc
  obtain rfl : c = ']' := by
    by_contra h
    exact notMem_closers h hc
  rfl

theorem Clear.append_closers {t : Text} (ht : Clear t) (n : Nat) : Clear (t ++ closers n) := by
  constructor
  · intro u hu rest hrest c hc
    rcases suffix_append_iff.1 hu with hu | ⟨y, hy, hne, rfl⟩
    · exact (clear_of_closers isCloser_of_mem_closers).1.glued u hu rest hrest c hc
    · rw [afterGluedId?_append_closers hne, Option.mem_def, Option.map_eq_some_iff] at hrest
      obtain ⟨r, hr, rfl⟩ := hrest
      by_cases hnil : r = []
      · subst hnil
        cases hc
        rfl
      · rw [List.head?_append_of_ne_nil _ hnil] at hc
        exact ht.glued y hy r hr c hc
  · intro u hu
    rcases suffix_append_iff.1 hu with hu | ⟨y, hy, hne, rfl⟩
    · exact (clear_of_closers isCloser_of_mem_closers).1.bar u hu
    · match y with
      | [c] => simp [closers, isTightBar]
      | c :: d :: y =>
        have := ht.bar _ hy
        exact this

theorem endsGlued_append_closers (t : Text) (n : Nat) : endsGlued (t ++ closers n) = false := by
  rw [endsGlued_eq_false_iff]
  intro u hu
  rcases suffix_append_iff.1 hu with hu | ⟨y, hy, hne, rfl⟩
  · exact endsGlued_eq_false_iff.1 (clear_of_closers isCloser_of_mem_closers).2 u hu
  · rw [afterGluedId?_append_closers hne]
    simp [closers]

/-! ## Calm texts -/

section Calm

variable {t : Text} (hclear : Clear t) (hfree : Connector.Free t)

include hclear hfree

/-- A clear text without connectors shows no defect, if it does not end glued. -/
theorem Clear.calm (hend : endsGlued t = false) : Calm t := by
  rw [endsGlued_eq_false_iff] at hend
  intro y hy
  have htoken := hfree.token?_suffix hy
  refine ⟨?_, ?_, by simp [isLostArrow, arrow?_eq_none htoken], by simp [isTightLabel, htoken],
    hclear.bar y hy⟩
  · cases hrest : afterGluedId? y with
    | none => rw [isGlued, hrest]; rfl
    | some rest =>
      have hne : rest ≠ [] := fun h => hend y hy (h ▸ hrest)
      obtain ⟨c, r, rfl⟩ := List.exists_cons_of_ne_nil hne
      have hopener := hclear.glued y hy _ hrest c rfl
      have harrow := arrow?_eq_none (hfree.token?_suffix ((suffix_of_afterGluedId? hrest).trans hy))
      simp [isGlued, hrest, hopener, harrow]
  · cases y with
    | nil => rfl
    | cons k y =>
      have harrow := arrow?_eq_none (hfree.token?_suffix ((List.suffix_cons k y).trans hy))
      by_cases hk : isCloser k = true <;> simp [isTightArrow, afterCloser?, hk, harrow]

/-- Before a space and what opens with neither a blank nor an id, it shows none either, if it does
not end glued or no arrow follows. -/
theorem Clear.calm_append_space {c : Char} {u : Text} (hblank : isBlank c = false)
    (hid : isIdChar c = false) (hopener : isOpener c = false)
    (harrow : Connector.arrow? (c :: u) = none ∨ endsGlued t = false) (hu : Calm (' ' :: c :: u)) :
    Calm (t ++ ' ' :: c :: u) := by
  refine hu.append fun y hy hne => ?_
  have hspace : Connector.isStroke ' ' = false := by decide
  have hnone : ∀ y, y <:+ t → Connector.token? (y ++ ' ' :: c :: u) = none := fun y hy => by
    rw [Connector.token?_append_stop y hspace, hfree.token?_suffix hy]
    rfl
  have htoken := hnone y hy
  refine ⟨?_, ?_, by simp [isLostArrow, arrow?_eq_none htoken], by simp [isTightLabel, htoken], ?_⟩
  · have happend := afterGluedId?_append (b := [' ']) (by decide) hblank hid hne u
    rw [List.singleton_append] at happend
    rw [isGlued, happend]
    cases hrest : afterGluedId? y with
    | none => rfl
    | some rest =>
      by_cases hnil : rest = []
      · have harrow : Connector.arrow? (c :: u) = none := by
          refine harrow.resolve_right fun hend => ?_
          rw [endsGlued_eq_false_iff] at hend
          exact hend y hy (hnil ▸ hrest)
        simp [hnil, hopener, harrow]
      · obtain ⟨d, r, rfl⟩ := List.exists_cons_of_ne_nil hnil
        have hopener := hclear.glued y hy _ hrest d rfl
        have harrow := arrow?_eq_none (hnone _ ((suffix_of_afterGluedId? hrest).trans hy))
        rw [List.cons_append] at harrow
        simp [hopener, harrow]
  · obtain ⟨k, y, rfl⟩ := List.exists_cons_of_ne_nil hne
    have harrow := arrow?_eq_none (hnone y ((List.suffix_cons k y).trans hy))
    by_cases hk : isCloser k = true <;> simp [isTightArrow, afterCloser?, hk, harrow]
  · obtain ⟨d, y, rfl⟩ := List.exists_cons_of_ne_nil hne
    cases y with
    | nil => simp [isTightBar]
    | cons e y =>
      have := hclear.bar _ hy
      exact this

end Calm

end Flowmend.Defect
