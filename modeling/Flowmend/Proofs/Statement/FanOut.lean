import Flowmend.Proofs.Statement.Chain
import Flowmend.Proofs.Statement.Node

/-!
# Where a side is cut

A side is cut at the ampersands before which all brackets are closed. Brackets of all kinds are
counted alike, so a closing bracket in a label can end the shelter that the frame of the node gives,
and an opening one can go on sheltering behind the frame. Node references that are joined by
ampersands are parted again exactly if neither happens (`fanOut_groupText_iff`); labels whose
brackets pair up are safe (`fanOut_groupText_of_paired`).
-/

namespace Flowmend

open Text

/-! ## Depth -/

namespace FanOut

/-- The depth of brackets behind a text, `d` of which are open before it. -/
def depthBehind (d : Nat) (t : Text) : Nat := t.foldl depthAfter d

theorem depthBehind_append (d : Nat) (t u : Text) :
    depthBehind d (t ++ u) = depthBehind (depthBehind d t) u := List.foldl_append

/-- Each ampersand of the text stands in brackets, `d` of which are open before the text. -/
def Sheltered (d : Nat) (t : Text) : Prop := ∀ a b, t = a ++ '&' :: b → depthBehind d a ≠ 0

theorem sheltered_of_notMem {d : Nat} {t : Text} (h : '&' ∉ t) : Sheltered d t := by
  rintro a b rfl
  simp at h

theorem sheltered_cons {d : Nat} {c : Char} {t : Text} :
    Sheltered d (c :: t) ↔ ¬(c = '&' ∧ d = 0) ∧ Sheltered (depthAfter d c) t := by
  constructor
  · intro h
    refine ⟨?_, fun a b hab => h (c :: a) b (by rw [hab]; rfl)⟩
    rintro ⟨rfl, rfl⟩
    exact h [] t rfl rfl
  · rintro ⟨hc, ht⟩ (_ | ⟨e, a⟩) b hab
    · obtain ⟨rfl, -⟩ := List.cons_eq_cons.1 hab
      exact fun hd => hc ⟨rfl, hd⟩
    · obtain ⟨rfl, rfl⟩ := List.cons_eq_cons.1 hab
      exact ht a b rfl

instance decidableSheltered : (d : Nat) → (t : Text) → Decidable (Sheltered d t)
  | _, [] => isTrue (sheltered_of_notMem (by simp))
  | d, c :: t =>
    have := decidableSheltered (depthAfter d c) t
    decidable_of_iff _ sheltered_cons.symm

theorem sheltered_append {d : Nat} {t u : Text} :
    Sheltered d (t ++ u) ↔ Sheltered d t ∧ Sheltered (depthBehind d t) u := by
  induction t generalizing d with
  | nil => exact ⟨fun h => ⟨sheltered_of_notMem (by simp), h⟩, And.right⟩
  | cons c t ih => rw [List.cons_append, sheltered_cons, sheltered_cons, ih, and_assoc]; rfl

theorem Sheltered.skips {d : Nat} {t : Text} (h : Sheltered d t) : Skips d t (depthBehind d t) := by
  induction t generalizing d with
  | nil => exact skips_nil d
  | cons c t ih =>
    obtain ⟨hc, ht⟩ := sheltered_cons.1 h
    exact (skips_singleton hc).append (ih ht)

/-- The first ampersand of a text at depth 0, if there is one. -/
theorem sheltered_or_exists (d : Nat) (t : Text) :
    Sheltered d t ∨ ∃ a b, t = a ++ '&' :: b ∧ Sheltered d a ∧ depthBehind d a = 0 := by
  induction t generalizing d with
  | nil => exact .inl (sheltered_of_notMem (by simp))
  | cons c t ih =>
    by_cases hc : c = '&' ∧ d = 0
    · obtain ⟨rfl, rfl⟩ := hc
      exact .inr ⟨[], t, rfl, sheltered_of_notMem (by simp), rfl⟩
    · rcases ih (depthAfter d c) with h | ⟨a, b, rfl, ha, hdepth⟩
      · exact .inl (sheltered_cons.2 ⟨hc, h⟩)
      · exact .inr ⟨c :: a, b, rfl, sheltered_cons.2 ⟨hc, ha⟩, hdepth⟩

/-! ## Brackets that pair up -/

/-- The number of brackets of any kind that open in a text. -/
def opened (t : Text) : Nat := t.countP fun c => c ∈ ['[', '(', '{']

/-- The number of brackets of any kind that close in a text. -/
def closed (t : Text) : Nat := t.countP fun c => c ∈ [']', ')', '}']

/-- Each bracket that closes in the text has one that opens before it, of whatever kind, and none
stays open. -/
structure Paired (t : Text) : Prop where
  closed_le : ∀ a, a <+: t → closed a ≤ opened a
  opened_le : opened t ≤ closed t

theorem opened_append (t u : Text) : opened (t ++ u) = opened t + opened u := List.countP_append

theorem closed_append (t u : Text) : closed (t ++ u) = closed t + closed u := List.countP_append

theorem depthAfter_add {d : Nat} {c : Char} (h : closed [c] ≤ d + opened [c]) :
    depthAfter d c + closed [c] = d + opened [c] := by
  unfold depthAfter
  split
  · rename_i hopen
    rcases hopen with rfl | rfl | rfl <;> rfl
  · rename_i hopen
    have hopened : opened [c] = 0 := by simpa [opened] using hopen
    split
    · rename_i hclose
      have hclosed : closed [c] = 1 := by rcases hclose with rfl | rfl | rfl <;> rfl
      omega
    · rename_i hclose
      have hclosed : closed [c] = 0 := by simpa [closed] using hclose
      omega

/-- As long as no more brackets close than open, the depth behind a text is what they add up to. -/
theorem depthBehind_add {t : Text} (h : ∀ a, a <+: t → closed a ≤ opened a) (d : Nat) :
    depthBehind d t + closed t = d + opened t := by
  induction t using List.reverseRecOn with
  | nil => rfl
  | append_singleton t c ih =>
    have hbefore := ih fun a ha => h a (ha.trans (List.prefix_append t [c]))
    have hbehind := h (t ++ [c]) List.prefix_rfl
    rw [opened_append, closed_append] at hbehind ⊢
    have hstep := depthAfter_add (d := depthBehind d t) (c := c) (by omega)
    have hdepth : depthBehind d (t ++ [c]) = depthAfter (depthBehind d t) c := depthBehind_append ..
    omega

theorem paired_of_no_bracket {t : Text} (h : ∀ c ∈ t, c ∉ ['[', '(', '{', ']', ')', '}']) :
    Paired t := by
  have hopened : ∀ a, a <+: t → opened a = 0 := fun a ha => List.countP_eq_zero.2 fun c hc => by
    have := h c (ha.subset hc)
    simp only [List.mem_cons, not_or] at this
    simp [this]
  have hclosed : ∀ a, a <+: t → closed a = 0 := fun a ha => List.countP_eq_zero.2 fun c hc => by
    have := h c (ha.subset hc)
    simp only [List.mem_cons, not_or] at this
    simp [this]
  exact ⟨fun a ha => by rw [hopened a ha, hclosed a ha],
    by rw [hopened t List.prefix_rfl, hclosed t List.prefix_rfl]⟩

variable {t : Text}

theorem Paired.depthBehind_eq (h : Paired t) (d : Nat) : depthBehind d t = d := by
  have := depthBehind_add h.closed_le d
  have := h.closed_le t List.prefix_rfl
  have := h.opened_le
  omega

/-- In brackets, a text whose brackets pair up stays in these. -/
theorem Paired.sheltered (h : Paired t) {d : Nat} (hd : d ≠ 0) : Sheltered d t := by
  rintro a b rfl
  have hprefix : a <+: a ++ '&' :: b := List.prefix_append _ _
  have := depthBehind_add (fun a' ha' => h.closed_le a' (ha'.trans hprefix)) d
  have := h.closed_le a hprefix
  omega

section Blank

variable (h : ∀ c ∈ t, isBlank c = true)

include h

theorem depthBehind_of_blank (d : Nat) : depthBehind d t = d := by
  have hnone : ∀ c ∈ ['[', '(', '{', ']', ')', '}'], isBlank c = false := by decide
  refine (paired_of_no_bracket fun c hc hmem => ?_).depthBehind_eq d
  have := h c hc
  rw [hnone c hmem] at this
  cases this

theorem skips_of_blank {d : Nat} : Skips d t d := by
  have hskips := (sheltered_of_notMem fun hand => by cases h '&' hand : Sheltered d t).skips
  rwa [depthBehind_of_blank h] at hskips

end Blank

end FanOut

/-! ## Cuts -/

section Cut

open FanOut

variable {t : Text}

theorem fanOut_of_sheltered (h : Sheltered 0 t) (ht : Trimmed t) (hne : t ≠ []) :
    fanOut t = [t] := by
  simp [fanOut_eq, parts_of_skips h.skips, ht.trim_eq, hne]

/-- The first ampersand at depth 0 ends the first part. -/
theorem fanOut_append_ampersand (h : Sheltered 0 t) (hdepth : depthBehind 0 t = 0)
    (hne : trim t ≠ []) (u : Text) : fanOut (t ++ '&' :: u) = trim t :: fanOut u := by
  have hskips := h.skips
  rw [hdepth] at hskips
  simp [fanOut_eq, parts_append_ampersand hskips, hne]

/-- If a text with more behind it has this text as its first part, then no ampersand in the text
stands at depth 0, and one behind it does if there are more parts. -/
theorem of_fanOut_append_eq (ht : Trimmed t) (hne : t ≠ []) (hhead : '&' ∉ t.head?) {u : Text}
    {ps : List Text} (h : fanOut (t ++ u) = t :: ps) :
    Sheltered 0 t ∧ (ps ≠ [] → depthBehind 0 t = 0) := by
  obtain ⟨c, r, rfl⟩ := List.exists_cons_of_ne_nil hne
  have hblank : isBlank c = false := ht.1 c rfl
  rcases sheltered_or_exists 0 (c :: r ++ u) with hs | ⟨a, b, hab, ha, hdepth⟩
  · have hskips := parts_of_skips hs.skips
    refine ⟨(sheltered_append.1 hs).1, fun hps => absurd ?_ hps⟩
    rw [fanOut_eq, hskips, List.map_singleton] at h
    have := (List.length_filter_le ..).trans_eq' (congrArg List.length h)
    simpa using this
  · -- The first part is what stands before the ampersand, so blanks are all there is behind `t`.
    cases a with
    | nil =>
      obtain ⟨rfl, -⟩ := List.cons_eq_cons.1 hab
      exact absurd rfl hhead
    | cons d a =>
      obtain ⟨rfl, -⟩ := List.cons_eq_cons.1 hab
      obtain ⟨y, hy, hyblank⟩ := exists_trimEnd (c :: a)
      have htrim : trim (c :: a) = trimEnd (c :: a) := by
        rw [trim, trimStart_eq_self (by simpa using hblank)]
      have hpart : trim (c :: a) ≠ [] := by
        intro hnil
        rw [← htrim, hnil] at hy
        have := hyblank c (by rw [← List.nil_append y, ← hy]; exact List.mem_cons_self)
        rw [hblank] at this
        cases this
      rw [hab, fanOut_append_ampersand ha hdepth hpart] at h
      have hfirst := (List.cons_eq_cons.1 h).1
      rw [← htrim, hfirst] at hy
      rw [hy] at ha hdepth
      refine ⟨(sheltered_append.1 ha).1, fun _ => ?_⟩
      rwa [depthBehind_append, depthBehind_of_blank hyblank] at hdepth

theorem fanOut_space_cons (t : Text) : fanOut (' ' :: t) = fanOut t := by
  have htrim : trim (' ' :: (cut 0 t).1) = trim (cut 0 t).1 := rfl
  have hcut : cut 0 (' ' :: t) = (' ' :: (cut 0 t).1, (cut 0 t).2) :=
    skips_singleton (by decide) t
  simp only [fanOut_eq, parts, hcut, List.map_cons, htrim]

end Cut

/-! ## Node references -/

namespace Shape

variable (s : Shape)

theorem sheltered_opener : FanOut.Sheltered 0 s.opener := by
  cases s <;> decide

theorem depthBehind_opener : FanOut.depthBehind 0 s.opener = s.opener.length := by
  cases s <;> rfl

theorem sheltered_closer (d : Nat) : FanOut.Sheltered d s.closer :=
  FanOut.sheltered_of_notMem (by cases s <;> decide)

theorem depthBehind_closer (d : Nat) : FanOut.depthBehind d s.closer = d - s.closer.length := by
  cases s <;> rfl

end Shape

namespace Frame

/-- Each ampersand of the label stands in brackets. -/
def Shelters (f : Frame) : Prop := FanOut.Sheltered f.shape.opener.length f.label

instance (f : Frame) : Decidable f.Shelters := inferInstanceAs (Decidable (FanOut.Sheltered _ _))

/-- Behind the frame all brackets are closed. -/
def Levels (f : Frame) : Prop :=
  FanOut.depthBehind f.shape.opener.length f.label ≤ f.shape.closer.length

instance (f : Frame) : Decidable f.Levels := inferInstanceAs (Decidable (_ ≤ _))

variable {f : Frame}

theorem shelters_of_paired (h : FanOut.Paired f.label) : f.Shelters :=
  h.sheltered (by cases f.shape <;> decide)

theorem levels_of_paired (h : FanOut.Paired f.label) : f.Levels := by
  rw [Levels, h.depthBehind_eq]
  cases f.shape <;> decide

end Frame

namespace Reference

/-- The id is one id, and a frame is closed. -/
structure Whole (n : Reference) : Prop where
  id : IsId n.id
  closed : ∀ f ∈ n.frame, f.closed = true

instance (n : Reference) : Decidable n.Whole :=
  decidable_of_iff (IsId n.id ∧ ∀ f ∈ n.frame, f.closed = true)
    ⟨fun h => ⟨h.1, h.2⟩, fun h => ⟨h.id, h.closed⟩⟩

variable {n : Reference}

namespace Whole

theorem text_ne_nil (hn : n.Whole) : n.text ≠ [] := by
  simp [text, hn.id.ne_nil]

theorem text_of_frame (hn : n.Whole) {f : Frame} (hf : n.frame = some f) :
    n.text = n.id ++ (f.shape.opener ++ (f.label ++ f.shape.closer)) := by
  rw [← f.text_of_closed (hn.closed f hf), text, hf]

theorem trimmed_text (hn : n.Whole) : Trimmed n.text := by
  constructor
  · intro c hc
    rw [text, List.head?_append_of_ne_nil _ hn.id.ne_nil] at hc
    exact isBlank_of_isIdChar (hn.id.isIdChar c (List.mem_of_mem_head? hc))
  · intro c hc
    cases hf : n.frame with
    | none =>
      simp only [text, hf, List.append_nil] at hc
      exact isBlank_of_isIdChar (hn.id.isIdChar c (List.mem_of_mem_getLast? hc))
    | some f =>
      rw [hn.text_of_frame hf, ← List.append_assoc, ← List.append_assoc,
        List.getLast?_append_of_ne_nil _ (by cases f.shape <;> simp [Shape.closer])] at hc
      cases hs : f.shape <;> rw [hs] at hc <;> cases hc <;> decide

theorem paired_id (hn : n.Whole) : FanOut.Paired n.id :=
  FanOut.paired_of_no_bracket fun c hc hmem => by
    have := hn.id.isIdChar c hc
    simp only [List.mem_cons, List.not_mem_nil, or_false] at hmem
    rcases hmem with rfl | rfl | rfl | rfl | rfl | rfl <;> cases this

theorem sheltered_id (hn : n.Whole) : FanOut.Sheltered 0 n.id :=
  FanOut.sheltered_of_notMem fun h => by cases hn.id.isIdChar _ h

/-- The frame of a node shelters the ampersands of its text. -/
theorem sheltered_text (hn : n.Whole) :
    FanOut.Sheltered 0 n.text ↔ ∀ f ∈ n.frame, f.Shelters := by
  cases hf : n.frame with
  | none => simpa [text, hf] using hn.sheltered_id
  | some f =>
    rw [hn.text_of_frame hf]
    simp [FanOut.sheltered_append, hn.sheltered_id, hn.paired_id.depthBehind_eq,
      f.shape.sheltered_opener, f.shape.depthBehind_opener, f.shape.sheltered_closer,
      Frame.Shelters]

theorem depthBehind_text (hn : n.Whole) :
    FanOut.depthBehind 0 n.text = 0 ↔ ∀ f ∈ n.frame, f.Levels := by
  cases hf : n.frame with
  | none => simpa [text, hf] using hn.paired_id.depthBehind_eq 0
  | some f =>
    rw [hn.text_of_frame hf]
    simp [FanOut.depthBehind_append, hn.paired_id.depthBehind_eq, f.shape.depthBehind_opener,
      f.shape.depthBehind_closer, Frame.Levels, Nat.sub_eq_zero_iff_le]

end Whole

end Reference

/-! ## Several references -/

/-- The nodes of a side as written. -/
def groupText (ns : List Reference) : Text := join [' ', '&', ' '] (ns.map Reference.text)

theorem groupText_singleton (n : Reference) : groupText [n] = n.text := rfl

theorem groupText_cons (n : Reference) {ns : List Reference} (h : ns ≠ []) :
    groupText (n :: ns) = n.text ++ ' ' :: '&' :: ' ' :: groupText ns := by
  obtain ⟨m, ms, rfl⟩ := List.exists_cons_of_ne_nil h
  simp [groupText, join]

section References

open FanOut

variable {n : Reference} {ns : List Reference}

theorem Reference.Whole.fanOut_text (hn : n.Whole) (hshelters : ∀ f ∈ n.frame, f.Shelters) :
    fanOut n.text = [n.text] :=
  fanOut_of_sheltered (hn.sheltered_text.2 hshelters) hn.trimmed_text hn.text_ne_nil

/-- A node is the first part of a side if the ampersand behind it stands at depth 0 and none in it
does. -/
theorem Reference.Whole.fanOut_append (hn : n.Whole) (hshelters : ∀ f ∈ n.frame, f.Shelters)
    (hlevels : ∀ f ∈ n.frame, f.Levels) (u : Text) :
    fanOut (n.text ++ ' ' :: '&' :: ' ' :: u) = n.text :: fanOut u := by
  have htrim : trim (n.text ++ [' ']) = n.text := by
    rw [trim_append_blanks (by decide), hn.trimmed_text.trim_eq]
  have hsheltered : Sheltered 0 (n.text ++ [' ']) :=
    sheltered_append.2 ⟨hn.sheltered_text.2 hshelters, sheltered_of_notMem (by decide)⟩
  have hdepth : depthBehind 0 (n.text ++ [' ']) = 0 := by
    rw [depthBehind_append, hn.depthBehind_text.2 hlevels]
    rfl
  have := fanOut_append_ampersand hsheltered hdepth (by rw [htrim]; exact hn.text_ne_nil) (' ' :: u)
  rwa [htrim, fanOut_space_cons, List.append_assoc] at this

theorem Reference.Whole.of_fanOut_append_eq (hn : n.Whole) {u : Text} {ps : List Text}
    (h : fanOut (n.text ++ u) = n.text :: ps) :
    (∀ f ∈ n.frame, f.Shelters) ∧ (ps ≠ [] → ∀ f ∈ n.frame, f.Levels) := by
  have hhead : '&' ∉ n.text.head? := by
    rw [text, List.head?_append_of_ne_nil _ hn.id.ne_nil]
    intro hand
    cases hn.id.isIdChar _ (List.mem_of_mem_head? hand)
  obtain ⟨hsheltered, hdepth⟩ := Flowmend.of_fanOut_append_eq hn.trimmed_text hn.text_ne_nil hhead h
  exact ⟨hn.sheltered_text.1 hsheltered, fun hps => hn.depthBehind_text.1 (hdepth hps)⟩

/-- References whose frames shelter their ampersands are parted, if all but the last one close their
brackets. -/
theorem fanOut_groupText (hne : ns ≠ []) (h : ∀ n ∈ ns, n.Whole)
    (hshelters : ∀ n ∈ ns, ∀ f ∈ n.frame, f.Shelters)
    (hlevels : ∀ n ∈ ns.dropLast, ∀ f ∈ n.frame, f.Levels) :
    fanOut (groupText ns) = ns.map Reference.text := by
  induction ns with
  | nil => exact absurd rfl hne
  | cons n ns ih =>
    have hn := h n List.mem_cons_self
    by_cases hns : ns = []
    · subst hns
      exact hn.fanOut_text (hshelters n List.mem_cons_self)
    · rw [List.dropLast_cons_of_ne_nil hns] at hlevels
      rw [groupText_cons n hns, hn.fanOut_append (hshelters n List.mem_cons_self)
        (hlevels n List.mem_cons_self), ih hns (fun m hm => h m (List.mem_cons_of_mem n hm))
        (fun m hm => hshelters m (List.mem_cons_of_mem n hm))
        (fun m hm => hlevels m (List.mem_cons_of_mem n hm))]
      rfl

theorem of_fanOut_groupText (h : ∀ n ∈ ns, n.Whole)
    (hparts : fanOut (groupText ns) = ns.map Reference.text) :
    (∀ n ∈ ns, ∀ f ∈ n.frame, f.Shelters) ∧ ∀ n ∈ ns.dropLast, ∀ f ∈ n.frame, f.Levels := by
  induction ns with
  | nil => simp
  | cons n ns ih =>
    have hn := h n List.mem_cons_self
    by_cases hns : ns = []
    · subst hns
      rw [groupText_singleton, ← List.append_nil n.text] at hparts
      simpa using (hn.of_fanOut_append_eq hparts).1
    · rw [groupText_cons n hns] at hparts
      obtain ⟨hshelters, hlevels⟩ := hn.of_fanOut_append_eq hparts
      have hlevels := hlevels (by simpa using hns)
      rw [hn.fanOut_append hshelters hlevels] at hparts
      obtain ⟨hrest, hrest'⟩ := ih (fun m hm => h m (List.mem_cons_of_mem n hm))
        (List.cons_eq_cons.1 hparts).2
      rw [List.dropLast_cons_of_ne_nil hns]
      exact ⟨List.forall_mem_cons.2 ⟨hshelters, hrest⟩, List.forall_mem_cons.2 ⟨hlevels, hrest'⟩⟩

/-- References with labels whose brackets pair up are parted. -/
theorem fanOut_groupText_of_paired (hne : ns ≠ []) (h : ∀ n ∈ ns, n.Whole)
    (hpaired : ∀ n ∈ ns, ∀ f ∈ n.frame, Paired f.label) :
    fanOut (groupText ns) = ns.map Reference.text :=
  fanOut_groupText hne h (fun n hn f hf => Frame.shelters_of_paired (hpaired n hn f hf))
    fun n hn f hf => Frame.levels_of_paired (hpaired n (List.dropLast_subset _ hn) f hf)

/-- References joined by ampersands are parted again exactly if each ampersand in a label stands in
brackets, and each frame but the last one closes the brackets that are still open. -/
theorem fanOut_groupText_iff (hne : ns ≠ []) (h : ∀ n ∈ ns, n.Whole) :
    fanOut (groupText ns) = ns.map Reference.text ↔
      (∀ n ∈ ns, ∀ f ∈ n.frame, f.Shelters) ∧ ∀ n ∈ ns.dropLast, ∀ f ∈ n.frame, f.Levels :=
  ⟨of_fanOut_groupText h, fun ⟨hshelters, hlevels⟩ => fanOut_groupText hne h hshelters hlevels⟩

/-- Of two opening brackets the label closes one, and the last label need not close its own. -/
theorem fanOut_groupText_iff_subroutine :
    let ns : List Reference := [⟨['A'], some ⟨.subroutine, "1) read & 2".toList, true⟩⟩,
      ⟨['B'], none⟩, ⟨['C'], some ⟨.rounded, "3[ & 4".toList, true⟩⟩]
    ns ≠ [] ∧ (∀ n ∈ ns, n.Whole) ∧
      fanOut "A[[1) read & 2]] & B & C(3[ & 4)".toList =
        ["A[[1) read & 2]]".toList, ['B'], "C(3[ & 4)".toList] := by
  intro ns
  have hwhole : ∀ n ∈ ns, n.Whole := by decide
  exact ⟨by decide, hwhole, (fanOut_groupText_iff (by decide) hwhole).2 (by decide)⟩

/-- A parenthesis in the label closes the bracket of the frame for the count, and an ampersand of
the label cuts the node. -/
theorem fanOut_cuts_label :
    let n : Reference := ⟨['A'], some ⟨.rectangle, "1) read & 2) write".toList, true⟩⟩
    n.Whole ∧ Connector.Free n.text ∧ fanOut (groupText [n]) ≠ [n.text] ∧
      fanOut (groupText [n]) = ["A[1) read".toList, "2) write]".toList] := by
  decide

end References

end Flowmend
