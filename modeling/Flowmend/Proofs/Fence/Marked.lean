import Flowmend.Fence
import Flowmend.Proofs.Text.Scan
import Mathlib.Data.List.Forall2
import Mathlib.Data.List.Infix

/-!
# Diagrams in marked fences

The first mark in a message opens the fence that is read, whatever stands before it
(`fenced?_mark`), and the fence ends at the next three backquotes or with the message. So what is
put in a marked fence is found again, trimmed (`diagram_fenced`).
-/

namespace Flowmend

open Text

namespace Text

/-- A text ends where `p` stands first, if `p` neither stands in it nor starts at its end. -/
theorem splitAt?_append {p t : Text} (hp : p ≠ []) (ht : ¬p <:+: t)
    (hlast : ∀ c ∈ t.getLast?, c ∉ p) (u : Text) :
    splitAt? p (t ++ (p ++ u)) = some (t, u) := by
  induction t with
  | nil =>
    obtain ⟨a, p, rfl⟩ := List.exists_cons_of_ne_nil hp
    rw [List.nil_append, List.cons_append, splitAt?, ← List.cons_append, after?_append_self]
  | cons c t ih =>
    have hnone : after? p (c :: t ++ (p ++ u)) = none := by
      refine Option.eq_none_iff_forall_ne_some.2 fun rest hrest => ?_
      rcases List.append_eq_append_iff.1 (after?_eq_some_iff.1 hrest) with ⟨x, hx, -⟩ | ⟨x, hx, -⟩
      · -- All of the text is the start of `p`, and so is its last character.
        obtain ⟨d, hd⟩ := Option.isSome_iff_exists.1 (List.getLast?_isSome.2 (List.cons_ne_nil c t))
        exact hlast d hd (hx ▸ List.mem_append_left x (List.mem_of_getLast? hd))
      · exact ht (hx ▸ (List.prefix_append p x).isInfix)
    have ht' : ¬p <:+: t := fun h => ht (h.trans (List.suffix_cons c t).isInfix)
    have hlast' : ∀ d ∈ t.getLast?, d ∉ p := fun d hd => by
      refine hlast d ?_
      rw [List.getLast?_cons_of_ne_nil (List.ne_nil_of_mem (List.mem_of_getLast? hd))]
      exact hd
    rw [List.cons_append] at hnone
    rw [List.cons_append, splitAt?, hnone, ih ht' hlast']
    rfl

/-- A text in which `p` does not stand has no end before `p`. -/
theorem splitAt?_eq_none {p t : Text} (hp : p ≠ []) (ht : ¬p <:+: t) : splitAt? p t = none := by
  induction t with
  | nil => simp [splitAt?, hp]
  | cons c t ih =>
    have hnone : after? p (c :: t) = none := by
      refine Option.eq_none_iff_forall_ne_some.2 fun rest hrest => ht ?_
      rw [after?_eq_some_iff.1 hrest]
      exact (List.prefix_append p rest).isInfix
    rw [splitAt?, hnone, ih fun h => ht (h.trans (List.suffix_cons c t).isInfix)]
    rfl

end Text

namespace Fence

/-! ## Marks -/

/-- What opens a marked fence: three backquotes, spaces and tabs, and the word `mermaid` in any
case. -/
def IsMark (m : Text) : Prop :=
  ∃ pads word, m = fence ++ (pads ++ word) ∧ (∀ c ∈ pads, isPad c = true) ∧
    List.Forall₂ (fun a c => sameLetter a c = true) "mermaid".toList word

theorem afterLetters?_eq_some_iff {w t rest : Text} : afterLetters? w t = some rest ↔
    ∃ word, t = word ++ rest ∧ List.Forall₂ (fun a c => sameLetter a c = true) w word := by
  induction w generalizing t with
  | nil => simp [afterLetters?]
  | cons a w ih =>
    cases t with
    | nil => simp [afterLetters?, List.forall₂_cons_left_iff]
    | cons c t =>
      by_cases hletter : sameLetter a c = true
      · rw [afterLetters?, if_pos hletter, ih]
        constructor
        · rintro ⟨word, rfl, hword⟩
          exact ⟨c :: word, rfl, .cons hletter hword⟩
        · rintro ⟨word, heq, hword⟩
          obtain ⟨d, word, -, htail, rfl⟩ := List.forall₂_cons_left_iff.1 hword
          exact ⟨word, (List.cons_eq_cons.1 heq).2, htail⟩
      · rw [afterLetters?, if_neg hletter]
        refine iff_of_false (by simp) ?_
        rintro ⟨word, heq, hword⟩
        obtain ⟨d, word, hd, -, rfl⟩ := List.forall₂_cons_left_iff.1 hword
        exact hletter ((List.cons_eq_cons.1 heq).1 ▸ hd)

theorem exists_sameLetter {w word : Text}
    (h : List.Forall₂ (fun a c => sameLetter a c = true) w word) {c : Char} (hc : c ∈ word) :
    ∃ a ∈ w, sameLetter a c = true := by
  induction h with
  | nil => cases hc
  | cons hletter _ ih =>
    rcases List.mem_cons.1 hc with rfl | hc
    · exact ⟨_, List.mem_cons_self, hletter⟩
    · obtain ⟨a, ha, h⟩ := ih hc
      exact ⟨a, List.mem_cons_of_mem _ ha, h⟩

/-- A letter of the word is neither a space or tab nor a backquote. -/
theorem of_sameLetter {a c : Char} (ha : a ∈ "mermaid".toList) (h : sameLetter a c = true) :
    isPad c = false ∧ c ≠ '\x60' := by
  have hletters : ∀ a ∈ "mermaid".toList, ∀ c ∈ [' ', '\t', '\x60'], sameLetter a c = false := by
    decide
  have hnot : c ∉ [' ', '\t', '\x60'] := fun hc => by
    rw [hletters a ha c hc] at h
    cases h
  simp only [List.mem_cons, List.not_mem_nil, or_false, not_or] at hnot
  exact ⟨by simp [isPad, hnot.1, hnot.2.1], hnot.2.2⟩

/-- The only backquotes of a mark are the first three characters. -/
theorem IsMark.exists_tail {m : Text} (h : IsMark m) :
    ∃ tail, m = fence ++ tail ∧ tail ≠ [] ∧ '\x60' ∉ tail := by
  obtain ⟨pads, word, rfl, hpads, hword⟩ := h
  refine ⟨pads ++ word, rfl, ?_, fun hmem => ?_⟩
  · have := hword.length_eq
    exact List.append_ne_nil_of_right_ne_nil _ (List.ne_nil_of_length_pos (this ▸ by decide))
  · rcases List.mem_append.1 hmem with hmem | hmem
    · exact absurd (hpads _ hmem) (by decide)
    · obtain ⟨a, ha, hletter⟩ := exists_sameLetter hword hmem
      exact (of_sameLetter ha hletter).2 rfl

/-- What follows the mark at the start of the text, if the text starts with one. -/
def afterMark? (t : Text) : Option Text :=
  match after? fence t with
  | none => none
  | some rest => afterLetters? "mermaid".toList (rest.dropWhile isPad)

theorem afterMark?_eq_some_iff {t rest : Text} :
    afterMark? t = some rest ↔ ∃ m, IsMark m ∧ t = m ++ rest := by
  constructor
  · intro h
    unfold afterMark? at h
    split at h
    · cases h
    rename_i behind hbehind
    obtain ⟨word, hword, hletters⟩ := afterLetters?_eq_some_iff.1 h
    refine ⟨fence ++ (behind.takeWhile isPad ++ word),
      ⟨_, _, rfl, fun c hc => List.mem_takeWhile_imp hc, hletters⟩, ?_⟩
    rw [after?_eq_some_iff.1 hbehind, List.append_assoc, List.append_assoc, ← hword,
      List.takeWhile_append_dropWhile]
  · rintro ⟨_, ⟨pads, word, rfl, hpads, hword⟩, rfl⟩
    have hpad : (pads ++ (word ++ rest)).dropWhile isPad = word ++ rest := by
      rw [List.dropWhile_append_of_pos hpads]
      obtain ⟨c, word, hc, -, rfl⟩ := List.forall₂_cons_left_iff.1 hword
      exact dropWhile_of_head _ _ (of_sameLetter (by decide) hc).1
    rw [afterMark?, List.append_assoc, List.append_assoc, after?_append_self]
    simp only [hpad, afterLetters?_eq_some_iff.2 ⟨word, rfl, hword⟩]

/-- A text is searched for marks from each of its characters on. -/
theorem not_mark_iff {t : Text} :
    (∀ m, IsMark m → ¬m <:+: t) ↔ ∀ v ∈ t.tails, afterMark? v = none := by
  constructor
  · intro h v hv
    refine Option.eq_none_iff_forall_ne_some.2 fun rest hrest => ?_
    obtain ⟨m, hm, rfl⟩ := afterMark?_eq_some_iff.1 hrest
    exact h m hm ((List.prefix_append m rest).isInfix.trans ((List.mem_tails _ _).1 hv).isInfix)
  · intro h m hm hinfix
    obtain ⟨v, ⟨rest, rfl⟩, hv⟩ := List.infix_iff_prefix_suffix.1 hinfix
    have hnone := h _ ((List.mem_tails _ _).2 hv)
    rw [afterMark?_eq_some_iff.2 ⟨m, hm, rfl⟩] at hnone
    cases hnone

/-- A line that opens a fence is a mark and any text behind it. -/
theorem afterOpening?_eq_some_iff {t body : Text} : afterOpening? t = some body ↔
    ∃ m info, IsMark m ∧ '\n' ∉ info ∧ t = m ++ (info ++ '\n' :: body) := by
  have hopening : afterOpening? t = (afterMark? t).bind fun info =>
      (info.dropWhile (· != '\n')).tail? := by
    unfold afterOpening? afterMark?
    cases after? fence t with
    | none => rfl
    | some rest =>
      simp only []
      cases afterLetters? "mermaid".toList (rest.dropWhile isPad) with
      | none => rfl
      | some info =>
        simp only [Option.bind_some]
        cases info.dropWhile (· != '\n') <;> rfl
  rw [hopening, Option.bind_eq_some_iff]
  constructor
  · rintro ⟨behind, hmark, htail⟩
    obtain ⟨m, hm, rfl⟩ := afterMark?_eq_some_iff.1 hmark
    refine ⟨m, behind.takeWhile (· != '\n'), hm, fun hmem => ?_, ?_⟩
    · simpa using List.mem_takeWhile_imp (p := (· != '\n')) hmem
    · obtain ⟨c, hdrop⟩ : ∃ c, behind.dropWhile (· != '\n') = c :: body := by
        cases hdrop : behind.dropWhile (· != '\n') with
        | nil => simp [hdrop] at htail
        | cons c u =>
          rw [hdrop] at htail
          exact ⟨c, congrArg (c :: ·) (Option.some.inj htail)⟩
      have hfeed : c = '\n' := by
        simpa using of_head?_dropWhile (p := (· != '\n')) behind c (by rw [hdrop]; rfl)
      rw [← hfeed, ← hdrop, hfeed, List.takeWhile_append_dropWhile]
  · rintro ⟨m, info, hm, hinfo, rfl⟩
    refine ⟨_, afterMark?_eq_some_iff.2 ⟨m, hm, rfl⟩, ?_⟩
    rw [List.dropWhile_append_of_pos fun c hc => by
      simpa using (fun h => hinfo (h ▸ hc) : c ≠ '\n')]
    rfl

/-! ## Fences in messages -/

/-- Backquotes that are followed by other characters end before a fence does. -/
theorem prefix_of_fence_behind {v tail rest u : Text} (hne : v ≠ []) (htail : tail ≠ [])
    (hquote : '\x60' ∉ tail) (h : v ++ (fence ++ rest) = fence ++ tail ++ u) :
    fence ++ tail <+: v := by
  rcases List.append_eq_append_iff.1 h with ⟨x, hx, hrest⟩ | ⟨x, hx, -⟩
  swap
  · exact ⟨x, hx.symm⟩
  rcases x with _ | ⟨d, x⟩
  · exact ⟨[], by rw [hx, List.append_nil, List.append_nil]⟩
  exfalso
  obtain ⟨e, tail, rfl⟩ := List.exists_cons_of_ne_nil htail
  rw [List.mem_cons, not_or] at hquote
  -- One or two of three backquotes stand before the fence, so there is a fourth one behind them.
  rcases v with _ | ⟨_, _ | ⟨_, _ | ⟨_, v⟩⟩⟩
  · exact hne rfl
  all_goals
    simp only [fence, List.cons_append, List.nil_append, List.cons.injEq] at hx hrest
    obtain ⟨rfl, hrest⟩ := hrest
  · obtain ⟨-, -, rfl⟩ := hx
    exact hquote.1 (List.cons_eq_cons.1 (List.cons_eq_cons.1 hrest).2).1
  · obtain ⟨-, -, -, rfl⟩ := hx
    exact hquote.1 (List.cons_eq_cons.1 hrest).1
  · obtain ⟨-, -, -, hx⟩ := hx
    have hmem : '\x60' ∈ e :: tail := hx ▸ List.mem_append_right v List.mem_cons_self
    exact (List.mem_cons.1 hmem).elim hquote.1 hquote.2

/-- No mark starts in a text without marks, also if a fence follows it. -/
theorem afterOpening?_before {before v rest : Text} (hbefore : ∀ m, IsMark m → ¬m <:+: before)
    (hv : v <:+ before) (hne : v ≠ []) : afterOpening? (v ++ (fence ++ rest)) = none := by
  refine Option.eq_none_iff_forall_ne_some.2 fun body hbody => ?_
  obtain ⟨m, info, hm, -, heq⟩ := afterOpening?_eq_some_iff.1 hbody
  obtain ⟨tail, rfl, htail, hquote⟩ := hm.exists_tail
  exact hbefore _ hm ((prefix_of_fence_behind hne htail hquote heq).isInfix.trans hv.isInfix)

theorem fenced?_append {before t : Text}
    (h : ∀ v, v <:+ before → v ≠ [] → afterOpening? (v ++ t) = none) :
    fenced? (before ++ t) = fenced? t := by
  induction before with
  | nil => rfl
  | cons c before ih =>
    have hnone := h (c :: before) (List.suffix_refl _) (List.cons_ne_nil c before)
    rw [List.cons_append] at hnone
    rw [List.cons_append, fenced?, hnone]
    exact ih fun v hv hne => h v (hv.trans (List.suffix_cons c before)) hne

/-- The first mark of a message opens the fence that is read. -/
theorem fenced?_mark {before m info : Text} (hbefore : ∀ m, IsMark m → ¬m <:+: before)
    (hm : IsMark m) (hinfo : '\n' ∉ info) (t : Text) :
    fenced? (before ++ (m ++ (info ++ '\n' :: t))) = some ((splitAt? fence t).elim t Prod.fst) := by
  have hopening : afterOpening? (m ++ (info ++ '\n' :: t)) = some t :=
    afterOpening?_eq_some_iff.2 ⟨m, info, hm, hinfo, rfl⟩
  obtain ⟨tail, rfl, -, -⟩ := hm.exists_tail
  rw [fenced?_append fun v hv hne => by
    rw [List.append_assoc]
    exact afterOpening?_before hbefore hv hne]
  rw [fence, List.cons_append, List.cons_append] at hopening ⊢
  rw [fenced?, hopening]
  rfl

theorem isMark_mermaid : IsMark (fence ++ "mermaid".toList) :=
  ⟨[], _, rfl, by simp, by decide⟩

/-- What stands in a fence marked `mermaid` is found, trimmed, behind any text without a mark: up to
the next fence, whatever follows that one, or up to the end of the message. -/
theorem diagram_fenced {before info body : Text} (hbefore : ∀ m, IsMark m → ¬m <:+: before)
    (hinfo : '\n' ∉ info) (hbody : ¬fence <:+: body) (hlast : body.getLast? ≠ some '\x60') :
    (∀ after, diagram (before ++ (fence ++ "mermaid".toList ++
        (info ++ '\n' :: (body ++ (fence ++ after))))) = trim body) ∧
      diagram (before ++ (fence ++ "mermaid".toList ++ (info ++ '\n' :: body))) = trim body := by
  have hend : ∀ c ∈ body.getLast?, c ∉ fence := by
    rintro c hc hmem
    simp only [fence, List.mem_cons, List.not_mem_nil, or_false, or_self] at hmem
    exact hlast (hmem ▸ hc)
  have hfence : fence ≠ [] := by decide
  constructor
  · intro after
    rw [diagram, fenced?_mark hbefore isMark_mermaid hinfo, splitAt?_append hfence hbody hend]
    rfl
  · rw [diagram, fenced?_mark hbefore isMark_mermaid hinfo, splitAt?_eq_none hfence hbody]
    rfl

/-- A fence with another mark, backquotes at the end of the text before and another diagram behind
do not matter. -/
theorem diagram_fenced_among :
    let before := "`x`:\n```python\nx\n```\nmermaid ``".toList
    let info := " title".toList
    let body := "graph TD\nA[``x] --> B\n".toList
    let after := "mermaid\ngraph LR\n```".toList
    (∀ m, IsMark m → ¬m <:+: before) ∧ '\n' ∉ info ∧ ¬fence <:+: body ∧
      body.getLast? ≠ some '\x60' ∧
      diagram (before ++ (fence ++ "mermaid".toList ++
          (info ++ '\n' :: (body ++ (fence ++ after))))) =
        "graph TD\nA[``x] --> B".toList ∧
      diagram (before ++ (fence ++ "mermaid".toList ++ (info ++ '\n' :: body))) =
        "graph TD\nA[``x] --> B".toList := by
  intro before info body after
  have hbefore : ∀ m, IsMark m → ¬m <:+: before := not_mark_iff.2 (by decide +kernel)
  have hinfo : '\n' ∉ info := by decide
  have hbody : ¬fence <:+: body := by decide +kernel
  have hlast : body.getLast? ≠ some '\x60' := by decide
  have htrim : trim body = "graph TD\nA[``x] --> B".toList := by decide
  obtain ⟨hclosed, hopen⟩ := diagram_fenced hbefore hinfo hbody hlast
  exact ⟨hbefore, hinfo, hbody, hlast, (hclosed after).trans htrim, hopen.trans htrim⟩

end Fence

end Flowmend
