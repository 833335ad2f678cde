import Flowmend.Text.Word
import Mathlib.Data.List.DropRight

/-!
# Reading texts from the left

How the functions that read a text from the left go on when the text is longer: a stretch ends at
the first character that stops it, whatever follows. `Trimmed` are the texts that trimming leaves
alone.
-/

namespace Flowmend.Text

/-! ## Characters of a text -/

-- What is said of the characters of a text is decided along the text, not along all characters.

instance (p : Char → Prop) [DecidablePred p] (t : Text) : Decidable (∀ c ∈ t, p c) :=
  List.decidableBAll p t

instance (p : Char → Prop) [DecidablePred p] (o : Option Char) : Decidable (∀ c ∈ o, p c) :=
  Option.decidableForallMem o

/-! ## Stretches -/

section Stretch

variable (p : Char → Bool) {c : Char}

theorem takeWhile_append_stop (t : Text) (h : p c = false) (u : Text) :
    (t ++ c :: u).takeWhile p = t.takeWhile p := by
  induction t with
  | nil => simp [h]
  | cons d t ih =>
    by_cases hd : p d
    · simp [hd, ih]
    · simp [hd]

theorem dropWhile_append_stop (t : Text) (h : p c = false) (u : Text) :
    (t ++ c :: u).dropWhile p = t.dropWhile p ++ c :: u := by
  induction t with
  | nil => simp [h]
  | cons d t ih =>
    by_cases hd : p d
    · simp [hd, ih]
    · simp [hd]

theorem dropWhile_of_head (t : Text) (h : p c = false) : (c :: t).dropWhile p = c :: t := by
  simp [h]

/-- A stretch ends where its characters do. -/
theorem of_head?_dropWhile {p : Char → Bool} (t : Text) :
    ∀ c ∈ (t.dropWhile p).head?, p c = false := by
  intro c hc
  have := List.head?_dropWhile_not p t
  rw [hc] at this
  simpa using this

end Stretch

/-! ## A fixed beginning -/

@[simp] theorem after?_append_self (p t : Text) : after? p (p ++ t) = some t := by
  induction p with
  | nil => rfl
  | cons a p ih => simpa [after?] using ih

theorem after?_eq_some_iff {p t rest : Text} : after? p t = some rest ↔ t = p ++ rest :=
  ⟨eq_append_of_after?, fun h => h ▸ after?_append_self p rest⟩

theorem after?_append {p t rest : Text} (h : after? p t = some rest) (u : Text) :
    after? p (t ++ u) = some (rest ++ u) := by
  rw [eq_append_of_after? h, List.append_assoc, after?_append_self]

theorem after?_eq_none_of_head {a c : Char} (p t : Text) (h : a ≠ c) :
    after? (a :: p) (c :: t) = none := by
  simp [after?, h]

/-- A beginning without the character `c` is found before `c` or not at all. -/
theorem after?_append_stop {p : Text} {c : Char} (t : Text) (h : c ∉ p) (u : Text) :
    after? p (t ++ c :: u) = (after? p t).map (· ++ c :: u) := by
  induction p generalizing t with
  | nil => rfl
  | cons a p ih =>
    simp only [List.mem_cons, not_or] at h
    cases t with
    | nil => simp [after?, Ne.symm h.1]
    | cons d t =>
      by_cases had : a = d
      · simpa [after?, had] using ih t h.2
      · simp [after?, had]

/-- A beginning is found before what follows or not at all, if its last character is not there. -/
theorem after?_append_of_last {p w : Text} (t : Text) (h : ∀ c ∈ p.getLast?, c ∉ w) :
    after? p (t ++ w) = (after? p t).map (· ++ w) := by
  cases hafter : after? p t with
  | some rest => exact after?_append hafter w
  | none =>
    cases hlong : after? p (t ++ w) with
    | none => rfl
    | some rest =>
      rcases List.append_eq_append_iff.1 (eq_append_of_after? hlong) with ⟨x, hx, hw⟩ | ⟨x, hx, -⟩
      · have hne : x ≠ [] := by
          rintro rfl
          have hself := after?_append_self p []
          rw [List.append_nil] at hx hself
          rw [← hx, hself] at hafter
          cases hafter
        have hlast : x.getLast hne ∈ p.getLast? := by
          rw [hx, List.getLast?_append_of_ne_nil _ hne]
          exact List.getLast?_eq_some_getLast hne
        exact absurd (hw ▸ List.mem_append_left rest (List.getLast_mem hne)) (h _ hlast)
      · rw [hx, after?_append_self] at hafter
        cases hafter

/-! ## Tails -/

theorem anyTail_eq_false_iff {p : Text → Bool} {t : Text} :
    anyTail p t = false ↔ ∀ x, x <:+ t → p x = false := by
  induction t with
  | nil => simp [anyTail, List.suffix_nil]
  | cons c t ih =>
    simp only [anyTail, Bool.or_eq_false_iff, ih, List.suffix_cons_iff, forall_eq_or_imp]

/-- A tail of two texts in a row is a tail of the second, or a tail of the first with the second
after it. -/
theorem suffix_append_iff {x a b : Text} :
    x <:+ a ++ b ↔ x <:+ b ∨ ∃ y, y <:+ a ∧ y ≠ [] ∧ x = y ++ b := by
  induction a with
  | nil => simp [List.suffix_nil]
  | cons c a ih =>
    rw [List.cons_append, List.suffix_cons_iff, ih]
    constructor
    · rintro (rfl | h | ⟨y, hy, hne, rfl⟩)
      · exact .inr ⟨c :: a, List.suffix_refl _, by simp, rfl⟩
      · exact .inl h
      · exact .inr ⟨y, hy.trans (List.suffix_cons c a), hne, rfl⟩
    · rintro (h | ⟨y, hy, hne, rfl⟩)
      · exact .inr (.inl h)
      · rcases List.suffix_cons_iff.1 hy with rfl | hy
        · exact .inl rfl
        · exact .inr (.inr ⟨y, hy, hne, rfl⟩)

/-! ## Ends -/

section Ends

variable (p : Char → Bool)

theorem dropEndWhile_eq_self {t : Text} (h : ∀ c ∈ t.getLast?, p c = false) :
    dropEndWhile p t = t := by
  refine List.rdropWhile_eq_self_iff.2 fun hne => ?_
  simp [h _ (List.getLast?_eq_some_getLast hne)]

theorem of_getLast?_dropEndWhile (t : Text) :
    ∀ c ∈ (dropEndWhile p t).getLast?, p c = false := by
  intro c hc
  have hne : dropEndWhile p t ≠ [] := by
    rintro h
    simp [h] at hc
  have := List.rdropWhile_last_not p t hne
  rw [Option.mem_def, List.getLast?_eq_some_getLast hne] at hc
  rw [← Option.some.inj hc]
  exact Bool.not_eq_true _ ▸ this

/-- A text is what stands before the characters at its end that satisfy `p`, and these. -/
theorem exists_dropEndWhile (t : Text) : ∃ b, t = dropEndWhile p t ++ b ∧ ∀ c ∈ b, p c = true := by
  refine ⟨(t.reverse.takeWhile p).reverse, ?_, fun c hc => ?_⟩
  · have h := congrArg List.reverse (List.takeWhile_append_dropWhile (p := p) (l := t.reverse))
    rw [List.reverse_append, List.reverse_reverse] at h
    exact h.symm
  · exact List.mem_takeWhile_imp (List.mem_reverse.1 hc)

theorem dropEndWhile_append_of_pos (t : Text) {b : Text} (hb : ∀ c ∈ b, p c = true) :
    dropEndWhile p (t ++ b) = dropEndWhile p t := by
  rw [dropEndWhile, List.reverse_append,
    List.dropWhile_append_of_pos fun c hc => hb c (List.mem_reverse.1 hc)]
  rfl

/-- What is dropped at the end of a text does not matter for what is dropped at the end of its first
characters. -/
theorem dropEndWhile_take_dropEndWhile (t : Text) (n : Nat) :
    dropEndWhile p ((dropEndWhile p t).take n) = dropEndWhile p (t.take n) := by
  obtain ⟨b, ht, hb⟩ := exists_dropEndWhile p t
  conv => rhs; rw [ht, List.take_append]
  exact (dropEndWhile_append_of_pos p _ fun c hc => hb c (List.mem_of_mem_take hc)).symm

end Ends

/-! ## Trimmed texts -/

/-- Neither the first nor the last character is blank. -/
def Trimmed (t : Text) : Prop :=
  (∀ c ∈ t.head?, isBlank c = false) ∧ ∀ c ∈ t.getLast?, isBlank c = false

theorem trimStart_eq_self {t : Text} (h : ∀ c ∈ t.head?, isBlank c = false) : trimStart t = t := by
  cases t with
  | nil => rfl
  | cons c t => exact dropWhile_of_head isBlank t (h c rfl)

theorem trimEnd_eq_self {t : Text} (h : ∀ c ∈ t.getLast?, isBlank c = false) : trimEnd t = t :=
  dropEndWhile_eq_self isBlank h

theorem Trimmed.trim_eq {t : Text} (h : Trimmed t) : trim t = t := by
  rw [trim, trimStart_eq_self h.1, trimEnd_eq_self h.2]

/-- Trimming takes away the blanks around a trimmed text. -/
theorem Trimmed.trim_append {a t b : Text} (ht : Trimmed t) (hne : t ≠ [])
    (ha : ∀ c ∈ a, isBlank c = true) (hb : ∀ c ∈ b, isBlank c = true) :
    trim (a ++ t ++ b) = t := by
  have hstart : trimStart (a ++ t ++ b) = t ++ b := by
    rw [trimStart, List.append_assoc, List.dropWhile_append_of_pos ha]
    refine trimStart_eq_self fun c hc => ht.1 c ?_
    rwa [List.head?_append_of_ne_nil _ hne] at hc
  have hend : trimEnd (t ++ b) = trimEnd t := dropEndWhile_append_of_pos isBlank t hb
  rw [trim, hstart, hend, trimEnd_eq_self ht.2]

theorem head?_trimStart (t : Text) : ∀ c ∈ (trimStart t).head?, isBlank c = false :=
  of_head?_dropWhile t

theorem trimmed_trim (t : Text) : Trimmed (trim t) := by
  constructor
  · intro c hc
    obtain ⟨u, hu⟩ : trim t <+: trimStart t := List.rdropWhile_prefix isBlank (trimStart t)
    refine head?_trimStart t c ?_
    rw [← hu, List.head?_append, Option.mem_def.1 hc]
    rfl
  · exact of_getLast?_dropEndWhile isBlank (trimStart t)

/-- A text is what stands before the blanks at its end, and these blanks. -/
theorem exists_trimEnd (t : Text) : ∃ b, t = trimEnd t ++ b ∧ ∀ c ∈ b, isBlank c = true :=
  exists_dropEndWhile isBlank t

/-- A prefix that does not end with a blank is left by trimming. -/
theorem prefix_trimEnd {u t : Text} (h : u <+: t) (hlast : ∀ c ∈ u.getLast?, isBlank c = false) :
    u <+: trimEnd t := by
  obtain ⟨b, ht, hb⟩ := exists_trimEnd t
  generalize trimEnd t = s at ht
  subst ht
  rcases List.prefix_or_prefix_of_prefix h (List.prefix_append s b) with h' | ⟨v, rfl⟩
  · exact h'
  -- What `u` has more than the trimmed text is blank.
  rw [List.prefix_append_right_inj] at h
  by_cases hv : v = []
  · simp [hv]
  · have := hlast _ (by
      rw [List.getLast?_append_of_ne_nil _ hv]; exact List.getLast?_eq_some_getLast hv)
    rw [hb _ (h.subset (List.getLast_mem hv))] at this
    cases this

/-- A text is its trimmed text with blanks around it. -/
theorem exists_trim (t : Text) : ∃ a b, t = a ++ trim t ++ b ∧ (∀ c ∈ a, isBlank c = true) ∧
    ∀ c ∈ b, isBlank c = true := by
  have hstart : t = t.takeWhile isBlank ++ trimStart t := List.takeWhile_append_dropWhile.symm
  obtain ⟨b, hb, hblank⟩ := exists_trimEnd (trimStart t)
  refine ⟨t.takeWhile isBlank, b, ?_, fun c hc => List.mem_takeWhile_imp hc, hblank⟩
  rw [List.append_assoc, trim, ← hb]
  exact hstart

/-- Trimming a text that does not start with a blank takes blanks from its end. -/
theorem exists_trim_of_head {t : Text} (h : ∀ c ∈ t.head?, isBlank c = false) :
    ∃ b, t = trim t ++ b ∧ ∀ c ∈ b, isBlank c = true := by
  obtain ⟨b, ht, hb⟩ := exists_trimEnd t
  refine ⟨b, ?_, hb⟩
  rw [trim, trimStart_eq_self h]
  exact ht

theorem infix_trim (t : Text) : trim t <:+: t := by
  obtain ⟨a, b, h, -, -⟩ := exists_trim t
  exact ⟨a, b, h.symm⟩

/-- Blanks at the end do not matter for what trimming leaves. -/
theorem trim_append_blanks {t b : Text} (hb : ∀ c ∈ b, isBlank c = true) :
    trim (t ++ b) = trim t := by
  obtain ⟨u, v, ht, hu, hv⟩ := exists_trim t
  by_cases hnil : trim t = []
  · have hblank : ∀ c ∈ t ++ b, isBlank c = true := by
      intro c hc
      rw [ht, hnil, List.append_nil] at hc
      simp only [List.mem_append] at hc
      exact hc.elim (fun hc => hc.elim (hu c) (hv c)) (hb c)
    rw [hnil, trim, trimStart, List.dropWhile_eq_nil_iff.2 hblank]
    rfl
  · conv => lhs; rw [ht, List.append_assoc]
    refine (trimmed_trim t).trim_append hnil hu fun c hc => ?_
    exact (List.mem_append.1 hc).elim (hv c) (hb c)

/-- A trimmed text that another one starts with stays when that one is trimmed. -/
theorem Trimmed.exists_trim_append {t : Text} (ht : Trimmed t) (hne : t ≠ []) (u : Text) :
    ∃ v, trim (t ++ u) = t ++ v := by
  obtain ⟨a, b, h, ha, hb⟩ := exists_trim (t ++ u)
  have ha : a = [] := by
    cases a with
    | nil => rfl
    | cons c a =>
      obtain ⟨d, t, rfl⟩ := List.exists_cons_of_ne_nil hne
      obtain ⟨rfl, -⟩ := List.cons_eq_cons.1 h
      have := ha d List.mem_cons_self
      rw [ht.1 d rfl] at this
      cases this
  subst ha
  rw [List.nil_append] at h
  rcases List.append_eq_append_iff.1 h with ⟨x, hx, -⟩ | ⟨x, hx, hb'⟩
  · exact ⟨x, hx⟩
  · -- The text does not end with blanks.
    have hx' : x = [] := by
      by_contra hne
      have hlast : x.getLast hne ∈ t.getLast? := by
        rw [hx, List.getLast?_append_of_ne_nil _ hne]
        exact List.getLast?_eq_some_getLast hne
      have hblank : isBlank (x.getLast hne) = true :=
        hb _ (hb' ▸ List.mem_append_left u (List.getLast_mem hne))
      rw [ht.2 _ hlast] at hblank
      cases hblank
    refine ⟨[], ?_⟩
    rw [hx', List.append_nil] at hx
    rw [List.append_nil, ← hx]

theorem trim_sublist (t : Text) : List.Sublist (trim t) t :=
  (List.rdropWhile_prefix isBlank (trimStart t)).sublist.trans
    (List.dropWhile_suffix isBlank).sublist

end Flowmend.Text
