import Flowmend.Label
import Flowmend.Proofs.Text.Word

/-!
# Labels that cleaning leaves alone

`Plain` labels are those that cleaning without a limit leaves as they are: they are trimmed and hold
only printable characters without a meaning in diagrams. A label that cleaning with a limit leaves
as it is is one of them (`plain_of_clean_eq`), and so is each label that was cleaned
(`plain_clean`): its characters are safe (`isSafe`), its runs of underscores stand between letters
or digits (`Linked`), and no later step of cleaning parts them from these.
-/

namespace Flowmend.Label

open Text

/-! ## Line breaks -/

theorem isBlank_of_isPad {c : Char} (h : isPad c = true) : isBlank c = true := by
  simp only [isPad, Bool.or_eq_true, beq_iff_eq] at h
  rcases h with rfl | rfl <;> decide

theorem isBlank_of_isReturn {c : Char} (h : isReturn c = true) : isBlank c = true := by
  simp only [isReturn, Bool.or_eq_true, beq_iff_eq] at h
  rcases h with rfl | rfl <;> decide

/-- A space takes the place of a stretch of blanks. -/
theorem exists_folded {c b : Char} {t rest : Text} (hdrop : (c :: t).dropWhile isPad = b :: rest)
    (hreturn : isReturn b = true) :
    ∃ w, c :: t = w ++ rest.dropWhile isBlank ∧ w ≠ [] ∧ ∀ d ∈ w, isBlank d = true := by
  refine ⟨(c :: t).takeWhile isPad ++ b :: rest.takeWhile isBlank, ?_, by simp, fun d hd => ?_⟩
  · conv => lhs; rw [← List.takeWhile_append_dropWhile (p := isPad) (l := c :: t), hdrop,
      ← List.takeWhile_append_dropWhile (p := isBlank) (l := rest)]
    simp
  · rcases List.mem_append.1 hd with hd | hd
    · exact isBlank_of_isPad (List.mem_takeWhile_imp hd)
    · rcases List.mem_cons.1 hd with rfl | hd
      · exact isBlank_of_isReturn hreturn
      · exact List.mem_takeWhile_imp hd

/-! ## Cleaning never adds characters -/

theorem length_dropUnderscores_le (joined : Bool) (t : Text) :
    (dropUnderscores joined t).length ≤ t.length := by
  fun_induction dropUnderscores joined t with
  | case1 => exact Nat.le_refl _
  | case2 _ _ _ ih => exact Nat.succ_le_succ ih
  | case3 _ _ _ ih => exact Nat.le_succ_of_le ih
  | case4 _ _ _ _ ih => exact Nat.succ_le_succ ih

theorem length_foldLines_le (t : Text) : (foldLines t).length ≤ t.length := by
  fun_induction foldLines t with
  | case1 => exact Nat.le_refl _
  | case2 _ _ _ ih => exact Nat.succ_le_succ ih
  | case3 c t b rest h hreturn ih =>
    obtain ⟨w, hw, hne, -⟩ := exists_folded h hreturn
    have := List.length_pos_iff.2 hne
    rw [hw, List.length_append, List.length_cons]
    omega
  | case4 _ _ _ _ _ _ ih => exact Nat.succ_le_succ ih

theorem length_plain_le (raw : Text) : (plain raw).length ≤ raw.length :=
  calc (plain raw).length
    _ ≤ _ := (trim_sublist _).length_le
    _ ≤ _ := List.length_filter_le ..
    _ ≤ _ := List.length_filter_le ..
    _ ≤ _ := length_foldLines_le _
    _ ≤ _ := length_dropUnderscores_le ..
    _ ≤ _ := List.length_filter_le ..

/-! ## Labels left alone -/

/-- Cleaning leaves the label as it is. -/
def Plain (l : Text) : Prop := clean none l = l

instance (l : Text) : Decidable (Plain l) := inferInstanceAs (Decidable (clean none l = l))

theorem plain_nil : Plain [] := by
  simp [Plain, clean, truncate, plain, dropAsterisks, dropUnderscores, foldLines, trim, trimStart,
    trimEnd, dropEndWhile]

theorem trimmed_plain (raw : Text) : Trimmed (plain raw) := trimmed_trim _

theorem isBreak_of_isPlain {c : Char} (h : isPlain c = true) : isBreak c = false := by
  simp only [isPlain, Bool.and_eq_true, decide_eq_true_eq] at h
  simp only [isBreak, Bool.or_eq_false_iff, Bool.and_eq_false_iff, decide_eq_false_iff_not,
    beq_eq_false_iff_ne]
  omega

theorem isPlain_of_mem_plain {raw : Text} {c : Char} (h : c ∈ plain raw) :
    isPlain c = true ∧ isSpecial c = false := by
  have h := (trim_sublist _).subset h
  simp only [List.mem_filter, Bool.not_eq_true'] at h
  exact ⟨h.1.2, h.2⟩

theorem Plain.trimmed {l : Text} (h : Plain l) : Trimmed l := by
  rw [← show plain l = l from h]
  exact trimmed_plain l

theorem Plain.isPlain {l : Text} (h : Plain l) {c : Char} (hc : c ∈ l) : isPlain c = true := by
  rw [← show plain l = l from h] at hc
  exact (isPlain_of_mem_plain hc).1

theorem Plain.not_special {l : Text} (h : Plain l) {c : Char} (hc : c ∈ l) :
    isSpecial c = false := by
  rw [← show plain l = l from h] at hc
  exact (isPlain_of_mem_plain hc).2

/-- A label left alone can stand between bars. -/
theorem Plain.ne_bar {l : Text} (h : Plain l) : ∀ c ∈ l, c ≠ '|' ∧ c ≠ '\n' := by
  intro c hc
  have hplain := h.isPlain hc
  have hspecial := h.not_special hc
  constructor
  · rintro rfl; cases hspecial
  · rintro rfl; cases hplain

theorem length_takeUpTo_lt {limit : Int} {t : Text} (h : limit < t.length) (hne : t ≠ []) :
    (takeUpTo limit t).length < t.length := by
  have := List.length_pos_iff.2 hne
  unfold takeUpTo
  split <;> rw [List.length_take] <;> omega

/-- A label that cleaning with a limit leaves as it is was not cut. -/
theorem plain_of_clean_eq {limit : Int} {l : Text} (h : clean (some limit) l = l) : Plain l := by
  unfold clean truncate at h
  simp only [] at h
  split at h
  · rename_i hlt
    by_cases hne : plain l = []
    · have hl : l = [] := by rw [← h, hne]; simp [takeUpTo, dropEndWhile]
      rw [hl]; exact plain_nil
    · have hcut := (List.rdropWhile_prefix (fun c => c == ' ' || c == '_')
        (takeUpTo limit (plain l))).length_le
      have hlt := length_takeUpTo_lt hlt hne
      have hle := length_plain_le l
      have hl := congrArg List.length h
      simp only [List.rdropWhile, dropEndWhile] at hcut hl
      omega
  · exact h

/-! ## Characters of ids -/

theorem isPlain_of_isIdChar {c : Char} (h : isIdChar c = true) : isPlain c = true := by
  rw [isIdChar_iff] at h
  simp only [isPlain, Bool.and_eq_true, decide_eq_true_eq]
  omega

/-- A kind of characters that has none of the special ones. -/
theorem isSpecial_eq_false {p : Char → Bool} {c : Char} (h : p c = true)
    (hp : ∀ d ∈ ['(', ')', '<', '>', '"', '\x60', '[', ']', '{', '}', '|'], p d = false) :
    isSpecial c = false := by
  by_contra hc
  rw [Bool.not_eq_false, isSpecial, List.contains_iff_mem] at hc
  rw [hp c hc] at h
  cases h

/-! ## Cleaning again -/

theorem not_alnum_of_isBlank {c : Char} (h : isBlank c = true) : isAlnum c = false ∧ c ≠ '_' := by
  simpa [isIdChar] using not_id_of_isBlank h

/-- The first character behind underscores is a letter or digit. -/
def GoesOn (t : Text) : Prop := (t.dropWhile (· == '_')).head?.any isAlnum = true

theorem goesOn_underscore {t : Text} : GoesOn ('_' :: t) ↔ GoesOn t := Iff.rfl

theorem goesOn_cons {c : Char} {t : Text} (hc : c ≠ '_') : GoesOn (c :: t) ↔ isAlnum c = true := by
  have hne : (c == '_') = false := by simpa using hc
  rw [GoesOn, List.dropWhile_cons, hne]
  exact Iff.rfl

/-- Every run of underscores stands between two letters or digits. `joined` says whether a letter or
digit stands before the text. -/
def Linked (joined : Bool) : Text → Prop
  | [] => True
  | c :: t => if c = '_' then joined = true ∧ GoesOn t ∧ Linked joined t else Linked (isAlnum c) t

theorem linked_underscore {joined : Bool} {t : Text} :
    Linked joined ('_' :: t) ↔ joined = true ∧ GoesOn t ∧ Linked joined t := by
  rw [Linked, if_pos rfl]

theorem linked_cons {joined : Bool} {c : Char} {t : Text} (hc : c ≠ '_') :
    Linked joined (c :: t) ↔ Linked (isAlnum c) t := by
  rw [Linked, if_neg hc]

theorem Linked.dropUnderscores_eq {joined : Bool} {t : Text} (h : Linked joined t) :
    dropUnderscores joined t = t := by
  fun_induction dropUnderscores joined t with
  | case1 => rfl
  | case2 joined t _ ih => rw [ih (linked_underscore.1 h).2.2]
  | case3 joined t hnot =>
    obtain ⟨hjoined, hnext, -⟩ := linked_underscore.1 h
    rw [GoesOn] at hnext
    rw [hjoined, hnext] at hnot
    exact absurd rfl hnot
  | case4 joined c t hc ih => rw [ih ((linked_cons hc).1 h)]

/-- A function that keeps the underscores, letters and digits at the start of a text keeps the
character that follows underscores. -/
theorem goesOn_congr {f : Text → Text} (hnil : f [] = [])
    (hf : ∀ c t, isIdChar c = true → f (c :: t) = c :: f t) {t : Text} (h : GoesOn t) :
    GoesOn (f t) := by
  induction t with
  | nil => rwa [hnil]
  | cons c t ih =>
    by_cases hc : c = '_'
    · subst hc
      rw [hf _ t (by decide)]
      exact ih h
    · have halnum := (goesOn_cons hc).1 h
      rw [hf c t (by rw [isIdChar, halnum]; rfl)]
      exact (goesOn_cons hc).2 halnum

theorem goesOn_dropUnderscores {t : Text} (h : GoesOn t) : GoesOn (dropUnderscores true t) := by
  induction t with
  | nil => exact h
  | cons c t ih =>
    by_cases hc : c = '_'
    · subst hc
      replace h := goesOn_underscore.1 h
      rw [dropUnderscores, if_pos rfl, if_pos (Bool.and_eq_true_iff.2 ⟨rfl, h⟩)]
      exact ih h
    · rw [dropUnderscores, if_neg hc]
      exact (goesOn_cons hc).2 ((goesOn_cons hc).1 h)

theorem linked_dropUnderscores (joined : Bool) (t : Text) :
    Linked joined (dropUnderscores joined t) := by
  fun_induction dropUnderscores joined t with
  | case1 => trivial
  | case2 joined t h ih =>
    obtain ⟨rfl, hnext⟩ := Bool.and_eq_true_iff.1 h
    exact linked_underscore.2 ⟨rfl, goesOn_dropUnderscores hnext, ih⟩
  | case3 joined t _ ih => exact ih
  | case4 joined c t hc ih => exact (linked_cons hc).2 ih

/-- Leaving out other characters than those of ids keeps the runs as they are. -/
theorem Linked.filter {p : Char → Bool} (hp : ∀ c, isIdChar c = true → p c = true)
    {joined joined' : Bool} {t : Text} (h : Linked joined t) (hj : joined = true → joined' = true) :
    Linked joined' (t.filter p) := by
  induction t generalizing joined joined' with
  | nil => trivial
  | cons c t ih =>
    by_cases hc : c = '_'
    · subst hc
      obtain ⟨hjoined, hnext, hlinked⟩ := linked_underscore.1 h
      rw [List.filter_cons_of_pos (hp _ (by decide))]
      exact linked_underscore.2 ⟨hj hjoined, goesOn_congr (f := List.filter p) rfl
        (fun d u hd => List.filter_cons_of_pos (hp d hd)) hnext, ih hlinked hj⟩
    · have hlinked := (linked_cons hc).1 h
      by_cases hpc : p c = true
      · rw [List.filter_cons_of_pos hpc]
        exact (linked_cons hc).2 (ih hlinked id)
      · rw [List.filter_cons_of_neg hpc]
        refine ih hlinked fun halnum => absurd (hp c ?_) hpc
        rw [isIdChar, halnum]
        rfl

/-- Behind blanks stands no letter or digit. -/
theorem Linked.of_blanks_append {joined : Bool} {b t : Text} (h : Linked joined (b ++ t))
    (hb : ∀ c ∈ b, isBlank c = true) (hne : b ≠ []) : Linked false t := by
  induction b generalizing joined with
  | nil => exact absurd rfl hne
  | cons c b ih =>
    obtain ⟨halnum, hc⟩ := not_alnum_of_isBlank (hb c List.mem_cons_self)
    have h := (linked_cons hc).1 h
    rw [halnum] at h
    by_cases hnil : b = []
    · rwa [hnil] at h
    · exact ih h (fun d hd => hb d (List.mem_cons_of_mem c hd)) hnil

theorem GoesOn.of_append_blanks {t b : Text} (h : GoesOn (t ++ b))
    (hb : ∀ c ∈ b, isBlank c = true) : GoesOn t := by
  induction t with
  | nil =>
    obtain ⟨c, hc, halnum⟩ := (Option.any_eq_true _ _).1 h
    have hmem := (List.dropWhile_suffix _).subset (List.mem_of_mem_head? hc)
    rw [(not_alnum_of_isBlank (hb c hmem)).1] at halnum
    cases halnum
  | cons c t ih =>
    by_cases hc : c = '_'
    · subst hc
      exact ih h
    · exact (goesOn_cons hc).2 ((goesOn_cons hc).1 h)

theorem Linked.of_append_blanks {joined : Bool} {t b : Text} (h : Linked joined (t ++ b))
    (hb : ∀ c ∈ b, isBlank c = true) : Linked joined t := by
  induction t generalizing joined with
  | nil => trivial
  | cons c t ih =>
    by_cases hc : c = '_'
    · subst hc
      obtain ⟨hjoined, hnext, hlinked⟩ := linked_underscore.1 h
      exact linked_underscore.2 ⟨hjoined, hnext.of_append_blanks hb, ih hlinked⟩
    · exact (linked_cons hc).2 (ih ((linked_cons hc).1 h))

theorem Linked.trim {t : Text} (h : Linked false t) : Linked false (trim t) := by
  obtain ⟨a, b, ht, ha, hb⟩ := exists_trim t
  rw [ht, List.append_assoc] at h
  refine Linked.of_append_blanks (b := b) ?_ hb
  by_cases hnil : a = []
  · rwa [hnil] at h
  · exact h.of_blanks_append ha hnil

theorem foldLines_cons_of_isIdChar {c : Char} (hc : isIdChar c = true) (t : Text) :
    foldLines (c :: t) = c :: foldLines t := by
  have hblank := isBlank_of_isIdChar hc
  have hpad : isPad c = false := by
    by_contra h
    rw [isBlank_of_isPad (by simpa using h)] at hblank
    cases hblank
  have hreturn : isReturn c = false := by
    by_contra h
    rw [isBlank_of_isReturn (by simpa using h)] at hblank
    cases hblank
  rw [foldLines]
  split
  · rfl
  · rename_i b rest hdrop
    rw [dropWhile_of_head isPad t hpad] at hdrop
    cases hdrop
    rw [hreturn]
    rfl

/-- Folding line breaks makes spaces of blanks only. -/
theorem Linked.foldLines {joined : Bool} {t : Text} (h : Linked joined t) :
    Linked joined (foldLines t) := by
  have hcons : ∀ {joined : Bool} {c : Char} {t : Text}, Linked joined (c :: t) →
      (∀ {j : Bool}, Linked j t → Linked j (Label.foldLines t)) →
      Linked joined (c :: Label.foldLines t) := by
    intro joined c t h ih
    by_cases hc : c = '_'
    · subst hc
      obtain ⟨hjoined, hnext, hlinked⟩ := linked_underscore.1 h
      exact linked_underscore.2 ⟨hjoined,
        goesOn_congr (by rw [Label.foldLines]) (fun d u hd => foldLines_cons_of_isIdChar hd u)
          hnext,
        ih hlinked⟩
    · exact (linked_cons hc).2 (ih ((linked_cons hc).1 h))
  fun_induction Label.foldLines t generalizing joined with
  | case1 => trivial
  | case2 c t _ ih => exact hcons h ih
  | case3 c t b rest hdrop hreturn ih =>
    obtain ⟨w, hw, hne, hblank⟩ := exists_folded hdrop hreturn
    rw [hw] at h
    exact (linked_cons (by decide)).2 (ih (h.of_blanks_append hblank hne))
  | case4 c t b rest _ _ ih => exact hcons h ih

theorem foldLines_eq_self {t : Text} (h : ∀ c ∈ t, isReturn c = false) : foldLines t = t := by
  fun_induction foldLines t with
  | case1 => rfl
  | case2 c t _ ih => rw [ih fun d hd => h d (List.mem_cons_of_mem c hd)]
  | case3 c t b rest hdrop hreturn =>
    have hmem : b ∈ c :: t := (List.dropWhile_suffix isPad).subset (hdrop ▸ List.mem_cons_self)
    rw [h b hmem] at hreturn
    cases hreturn
  | case4 c t _ _ _ _ ih => rw [ih fun d hd => h d (List.mem_cons_of_mem c hd)]

theorem mem_foldLines {t : Text} {c : Char} (h : c ∈ foldLines t) : c = ' ' ∨ c ∈ t := by
  fun_induction foldLines t with
  | case1 => cases h
  | case2 d t _ ih =>
    rcases List.mem_cons.1 h with rfl | h
    · exact .inr List.mem_cons_self
    · exact (ih h).imp_right (List.mem_cons_of_mem d)
  | case3 d t b rest hdrop hreturn ih =>
    obtain ⟨w, hw, -, -⟩ := exists_folded hdrop hreturn
    rcases List.mem_cons.1 h with rfl | h
    · exact .inl rfl
    · exact (ih h).imp_right fun h => hw ▸ List.mem_append_right w h
  | case4 d t _ _ _ _ ih =>
    rcases List.mem_cons.1 h with rfl | h
    · exact .inr List.mem_cons_self
    · exact (ih h).imp_right (List.mem_cons_of_mem d)

theorem dropUnderscores_sublist (joined : Bool) (t : Text) :
    List.Sublist (dropUnderscores joined t) t := by
  fun_induction dropUnderscores joined t with
  | case1 => exact List.Sublist.refl _
  | case2 _ _ _ ih => exact ih.cons_cons _
  | case3 _ _ _ ih => exact ih.cons _
  | case4 _ _ _ _ ih => exact ih.cons_cons _

/-- A character that labels show: printable, without a meaning in diagrams, and no asterisk. -/
def isSafe (c : Char) : Bool := isPlain c && !isSpecial c && c != '*'

theorem isSafe_iff {c : Char} :
    isSafe c = true ↔ isPlain c = true ∧ isSpecial c = false ∧ c ≠ '*' := by
  simp [isSafe, and_assoc]

theorem isSafe_of_mem_plain {raw : Text} {c : Char} (h : c ∈ plain raw) : isSafe c = true := by
  obtain ⟨hplain, hspecial⟩ := isPlain_of_mem_plain h
  refine isSafe_iff.2 ⟨hplain, hspecial, ?_⟩
  have h := (trim_sublist _).subset h
  simp only [List.mem_filter] at h
  rcases mem_foldLines h.1.1 with rfl | h
  · decide
  · simpa using (List.mem_filter.1 ((dropUnderscores_sublist ..).subset h)).2

/-- The space is the only safe blank. -/
theorem eq_space_of_isSafe {c : Char} (h : isSafe c = true) (hc : isBlank c = true) : c = ' ' := by
  have hplain := (isSafe_iff.1 h).1
  simp only [isPlain, Bool.and_eq_true, decide_eq_true_eq] at hplain
  simp only [isBlank, Bool.or_eq_true, Bool.and_eq_true, decide_eq_true_eq, beq_iff_eq] at hc
  have hspace : c.toNat = 32 := by omega
  exact Char.toNat_inj.1 hspace

theorem isReturn_of_isPlain {c : Char} (h : isPlain c = true) : isReturn c = false := by
  by_contra hc
  simp only [isReturn, Bool.not_eq_false, Bool.or_eq_true, beq_iff_eq] at hc
  rcases hc with rfl | rfl <;> cases h

/-- Where nothing is left out, cleaning does no more than trim. -/
theorem plain_eq_trim {raw : Text} (hsafe : ∀ c ∈ raw, isSafe c = true)
    (hunderscores : dropUnderscores false raw = raw) : plain raw = trim raw := by
  have hsafe := fun c hc => isSafe_iff.1 (hsafe c hc)
  have hasterisks : dropAsterisks raw = raw :=
    List.filter_eq_self.2 fun c hc => by simpa using (hsafe c hc).2.2
  have hlines : foldLines raw = raw :=
    foldLines_eq_self fun c hc => isReturn_of_isPlain (hsafe c hc).1
  have hplain : raw.filter isPlain = raw := List.filter_eq_self.2 fun c hc => (hsafe c hc).1
  have hspecial : (raw.filter fun c => !isSpecial c) = raw :=
    List.filter_eq_self.2 fun c hc => by rw [(hsafe c hc).2.1]; rfl
  rw [plain, hasterisks, hunderscores, hlines, hplain, hspecial]

theorem linked_plain (raw : Text) : Linked false (plain raw) := by
  refine Linked.trim (Linked.filter (fun c hc => ?_) (Linked.filter (fun c hc => ?_)
    (linked_dropUnderscores false (dropAsterisks raw)).foldLines id) id)
  · rw [isSpecial_eq_false hc (by decide)]
    rfl
  · exact isPlain_of_isIdChar hc

/-- Cleaning leaves a trimmed label of safe characters alone if its underscores join words. -/
theorem plain_of_linked {l : Text} (hsafe : ∀ c ∈ l, isSafe c = true) (htrimmed : Trimmed l)
    (hlinked : Linked false l) : Plain l := by
  show plain l = l
  rw [plain_eq_trim hsafe hlinked.dropUnderscores_eq, htrimmed.trim_eq]

/-- Cleaning a label again changes nothing. -/
theorem plain_clean (raw : Text) : Plain (clean none raw) :=
  plain_of_linked (fun _ => isSafe_of_mem_plain) (trimmed_plain raw) (linked_plain raw)

end Flowmend.Label
