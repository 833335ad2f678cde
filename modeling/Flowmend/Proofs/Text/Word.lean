import Flowmend.Proofs.Text.Lines
import Flowmend.Text.Word

/-!
# The characters of ids

The code points of id characters, from which it follows what they are not. `IsId` are the texts that
are read as one id. The id that a text opens with stays in front of more text that it does not go on
in (`leadingId_append_of_head?`).
-/

namespace Flowmend.Text

/-- The code points of ASCII letters, digits and the underscore. -/
theorem isIdChar_iff {c : Char} : isIdChar c = true ↔
    (48 ≤ c.toNat ∧ c.toNat ≤ 57) ∨ (65 ≤ c.toNat ∧ c.toNat ≤ 90) ∨
      (97 ≤ c.toNat ∧ c.toNat ≤ 122) ∨ c.toNat = 95 := by
  have h95 : c = '_' ↔ c.toNat = 95 := by
    rw [← Char.toNat_inj]; rfl
  have hranges : isIdChar c =
      (decide (c.val ≥ 'A'.val ∧ c.val ≤ 'Z'.val) || (c.val ≥ 'a'.val && c.val ≤ 'z'.val) ||
        (c.val ≥ '0'.val && c.val ≤ '9'.val) || c == '_') := rfl
  simp only [hranges, Bool.or_eq_true, Bool.and_eq_true, decide_eq_true_eq, beq_iff_eq, h95,
    UInt32.le_iff_toNat_le, ge_iff_le, Char.toNat]
  simp only [show ('A' : Char).val.toNat = 65 from rfl, show ('Z' : Char).val.toNat = 90 from rfl,
    show ('a' : Char).val.toNat = 97 from rfl, show ('z' : Char).val.toNat = 122 from rfl,
    show ('0' : Char).val.toNat = 48 from rfl, show ('9' : Char).val.toNat = 57 from rfl]
  omega

theorem isBlank_of_isIdChar {c : Char} (h : isIdChar c = true) : isBlank c = false := by
  rw [isIdChar_iff] at h
  simp only [isBlank, Bool.or_eq_false_iff, Bool.and_eq_false_iff, decide_eq_false_iff_not,
    beq_eq_false_iff_ne]
  omega

theorem not_id_of_isBlank {c : Char} (h : isBlank c = true) : isIdChar c = false := by
  by_contra hid
  rw [isBlank_of_isIdChar (by simpa using hid)] at h
  cases h

theorem not_id_of_isBreak {c : Char} (h : isBreak c = true) : isIdChar c = false :=
  not_id_of_isBlank (isBlank_of_isBreak h)

theorem isBreak_of_isIdChar {c : Char} (h : isIdChar c = true) : isBreak c = false := by
  rw [isIdChar_iff] at h
  simp only [isBreak, Bool.or_eq_false_iff, Bool.and_eq_false_iff, decide_eq_false_iff_not,
    beq_eq_false_iff_ne]
  omega

theorem isWord_of_isIdChar {c : Char} (h : isIdChar c = true) : isWord c = true := by
  have := isIdChar_iff.1 h
  rw [isWord, if_pos (by omega), h]

theorem isWord_of_isBlank {c : Char} (h : isBlank c = true) : isWord c = false := by
  have hblanks : ∀ n ∈ [9, 10, 11, 12, 13, 28, 29, 30, 31, 32, 0x85, 0xA0, 0x1680, 0x2000, 0x2001,
      0x2002, 0x2003, 0x2004, 0x2005, 0x2006, 0x2007, 0x2008, 0x2009, 0x200A, 0x2028, 0x2029,
      0x202F, 0x205F, 0x3000], isWord (Char.ofNat n) = false := by
    decide +kernel
  have hc := hblanks c.toNat
  rw [Char.ofNat_toNat] at hc
  refine hc ?_
  simp only [isBlank, Bool.or_eq_true, Bool.and_eq_true, decide_eq_true_eq, beq_iff_eq] at h
  simp only [List.mem_cons, List.not_mem_nil, or_false]
  omega

/-- A character of no id is none of an id. -/
theorem ne_of_isIdChar {c d : Char} (h : isIdChar c = true) (hd : isIdChar d = false) : c ≠ d := by
  rintro rfl
  simp [h] at hd

/-- The text is one id. -/
structure IsId (t : Text) : Prop where
  ne_nil : t ≠ []
  isIdChar : ∀ c ∈ t, isIdChar c = true

instance (t : Text) : Decidable (IsId t) :=
  decidable_of_iff (t ≠ [] ∧ ∀ c ∈ t, isIdChar c = true)
    ⟨fun ⟨h₁, h₂⟩ => ⟨h₁, h₂⟩, fun ⟨h₁, h₂⟩ => ⟨h₁, h₂⟩⟩

theorem IsId.oneLine {t : Text} (h : IsId t) : OneLine t := fun c hc =>
  isBreak_of_isIdChar (h.isIdChar c hc)

/-! ## The id that a text opens with -/

section LeadingId

variable {t u : Text}

theorem leadingId_append (h : ∀ c ∈ t, isIdChar c = true)
    (hu : ∀ c ∈ u.head?, isIdChar c = false) : leadingId (t ++ u) = t := by
  rw [leadingId, List.takeWhile_append_of_pos h]
  cases u with
  | nil => simp
  | cons c u => simp [hu c rfl]

theorem afterId_append (h : ∀ c ∈ t, isIdChar c = true)
    (hu : ∀ c ∈ u.head?, isIdChar c = false) : afterId (t ++ u) = u := by
  rw [afterId, List.dropWhile_append_of_pos h]
  cases u with
  | nil => rfl
  | cons c u => simp [hu c rfl]

theorem leadingId_append_afterId (t : Text) : leadingId t ++ afterId t = t :=
  List.takeWhile_append_dropWhile

theorem leadingId_cons {c : Char} (hc : isIdChar c = true) (t : Text) :
    leadingId (c :: t) = c :: leadingId t :=
  List.takeWhile_cons_of_pos hc

theorem isIdChar_leadingId (t : Text) : ∀ c ∈ leadingId t, isIdChar c = true :=
  fun _ hc => List.mem_takeWhile_imp hc

theorem isId_leadingId (h : leadingId t ≠ []) : IsId (leadingId t) := ⟨h, isIdChar_leadingId t⟩

/-- The id ends where it did, if it does not go on in the text behind. -/
theorem leadingId_append_of_head? (h : ∀ c ∈ (afterId t ++ u).head?, isIdChar c = false) :
    leadingId (t ++ u) = leadingId t := by
  have := leadingId_append (isIdChar_leadingId t) h
  rwa [← List.append_assoc, leadingId_append_afterId] at this

theorem afterId_append_of_head? (h : ∀ c ∈ (afterId t ++ u).head?, isIdChar c = false) :
    afterId (t ++ u) = afterId t ++ u := by
  have := afterId_append (isIdChar_leadingId t) h
  rwa [← List.append_assoc, leadingId_append_afterId] at this

theorem of_head?_afterId_append (t : Text) (hu : ∀ c ∈ u.head?, isIdChar c = false) :
    ∀ c ∈ (afterId t ++ u).head?, isIdChar c = false := by
  cases h : afterId t with
  | nil => exact hu
  | cons d rest =>
    rintro c ⟨⟩
    exact of_head?_dropWhile t _ (by rw [← afterId, h]; rfl)

theorem leadingId_append_stop (t : Text) (hu : ∀ c ∈ u.head?, isIdChar c = false) :
    leadingId (t ++ u) = leadingId t :=
  leadingId_append_of_head? (of_head?_afterId_append t hu)

theorem afterId_append_stop (t : Text) (hu : ∀ c ∈ u.head?, isIdChar c = false) :
    afterId (t ++ u) = afterId t ++ u :=
  afterId_append_of_head? (of_head?_afterId_append t hu)

end LeadingId

end Flowmend.Text
