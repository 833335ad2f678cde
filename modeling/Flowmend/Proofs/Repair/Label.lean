import Flowmend.Proofs.Label
import Flowmend.Repair.Node

/-!
# Labels of mended nodes

A label stays, if cleaning does no more than trim it; else the cleaned label takes its place, or the
id of the node (`mend_cases`). What is read between the blanks around a mended label is safe, but a
label that stays keeps these blanks, of whatever kind they are (`mend_safe_iff`). A label that does
not stay has a fault that is noted (`faults_ne_nil`).
-/

namespace Flowmend.Label

open Text

/-! ## Safe characters -/

theorem isSafe_of_isIdChar {c : Char} (h : isIdChar c = true) : isSafe c = true :=
  isSafe_iff.2 ⟨isPlain_of_isIdChar h, isSpecial_eq_false h (by decide),
    ne_of_isIdChar h (by decide)⟩

/-! ## What a mended label holds -/

variable {node raw : Text}

/-- A label stays, or safe characters take its place. -/
theorem mend_cases (hnode : IsId node) (raw : Text) :
    clean none raw = trim raw ∧ mend node raw = ⟨raw, []⟩ ∨
      clean none raw ≠ trim raw ∧ (mend node raw).repairs = faults node raw ∧
        ∀ c ∈ (mend node raw).value, isSafe c = true := by
  by_cases h : clean none raw = trim raw
  · exact .inl ⟨h, by rw [mend, if_pos h]⟩
  · refine .inr ⟨h, ?_⟩
    rw [mend, if_neg h]
    refine ⟨rfl, fun c hc => ?_⟩
    simp only [] at hc
    split at hc
    · exact isSafe_of_isIdChar (hnode.isIdChar c hc)
    · exact isSafe_of_mem_plain hc

/-- What is not safe in a mended label is a blank of the raw one. -/
theorem isSafe_or_isBlank_of_mem_mend (hnode : IsId node) {c : Char}
    (hc : c ∈ (mend node raw).value) : isSafe c = true ∨ isBlank c = true ∧ c ∈ raw := by
  rcases mend_cases hnode raw with ⟨htrim, hmend⟩ | ⟨-, -, hsafe⟩
  · rw [hmend] at hc
    obtain ⟨a, b, hraw, ha, hb⟩ := exists_trim raw
    have hmem := hc
    rw [hraw] at hc
    rcases List.mem_append.1 hc with hc | hc
    · rcases List.mem_append.1 hc with hc | hc
      · exact .inr ⟨ha c hc, hmem⟩
      · exact .inl (isSafe_of_mem_plain (htrim ▸ hc))
    · exact .inr ⟨hb c hc, hmem⟩
  · exact .inl (hsafe c hc)

/-- A mended label holds no character with a meaning in diagrams, and no break that was not
there. -/
theorem mem_mend (hnode : IsId node) {c : Char} (hc : c ∈ (mend node raw).value) :
    isSpecial c = false ∧ (isBreak c = true → c ∈ raw) := by
  rcases isSafe_or_isBlank_of_mem_mend hnode hc with hsafe | ⟨hblank, hmem⟩
  · obtain ⟨hplain, hspecial, -⟩ := isSafe_iff.1 hsafe
    refine ⟨hspecial, fun h => ?_⟩
    rw [isBreak_of_isPlain hplain] at h
    cases h
  · exact ⟨isSpecial_eq_false hblank (by decide), fun _ => hmem⟩

/-- A mended label is safe, unless it is one that stays and holds a blank other than the space. -/
theorem mend_safe_iff (hnode : IsId node) :
    (∀ c ∈ (mend node raw).value, isSafe c = true) ↔
      (clean none raw = trim raw → ∀ c ∈ raw, isBlank c = true → c = ' ') := by
  constructor
  · intro hsafe htrim c hc hblank
    refine eq_space_of_isSafe (hsafe c ?_) hblank
    rwa [mend, if_pos htrim]
  · intro hspaces c hc
    rcases mend_cases hnode raw with ⟨htrim, -⟩ | ⟨-, -, hsafe⟩
    · rcases isSafe_or_isBlank_of_mem_mend hnode hc with hsafe | ⟨hblank, hmem⟩
      · exact hsafe
      · rw [hspaces htrim c hmem hblank]
        decide
    · exact hsafe c hc

/-- Blanks of other kinds are left out, if something else in the label is. -/
theorem mend_safe_iff_quoted :
    let raw := "\u00a0\"Start\"\t".toList
    IsId ['A'] ∧ clean none raw ≠ trim raw ∧
      ∀ c ∈ (mend ['A'] raw).value, isSafe c = true := by
  intro raw
  have hclean : clean none raw ≠ trim raw := by decide +kernel
  exact ⟨by decide, hclean, (mend_safe_iff (by decide)).2 fun h => absurd h hclean⟩

/-- A blank outside printable ASCII stays before a label that is safe without it, and nothing is
noted. -/
theorem mend_keeps_blank :
    let raw := "\u00a0Start".toList
    IsId ['A'] ∧ mend ['A'] raw = ⟨raw, []⟩ ∧ ¬∀ c ∈ (mend ['A'] raw).value, isSafe c = true := by
  decide +kernel

/-! ## Faults -/

/-- A label that cleaning does more to than trim has a fault. -/
theorem faults_ne_nil (h : clean none raw ≠ trim raw) : faults node raw ≠ [] := by
  intro hnone
  simp only [faults, List.append_eq_nil_iff, ite_eq_right_iff, reduceCtorEq, imp_false] at hnone
  obtain ⟨⟨hemphatic, hforeign⟩, hmarked⟩ := hnone
  simp only [isEmphatic, Bool.or_eq_true, not_or, bne_iff_ne, ne_eq, not_not,
    List.contains_iff_mem] at hemphatic
  simp only [isForeign, List.any_eq_true, not_exists, not_and, Bool.not_eq_true',
    Bool.not_eq_false] at hforeign
  simp only [isMarked, List.any_eq_true, not_exists, not_and, Bool.not_eq_true] at hmarked
  refine h (plain_eq_trim (fun c hc => isSafe_iff.2 ⟨hforeign c hc, hmarked c hc, ?_⟩) hemphatic.2)
  rintro rfl
  exact hemphatic.1 hc

end Flowmend.Label
