import Flowmend.Proofs.Label

/-!
# Labels that are cut

A cut label is a beginning of the label (`prefix_truncate`), without the spaces and underscores
that the cut would leave at its end (`firm_truncate`); so cleaning leaves it alone as it does the
whole label (`Plain.truncate`). Of two limits, one after the other, only the smaller one counts
(`truncate_truncate`, `clean_clean`).
-/

namespace Flowmend

open Text

/-! ## Cuts -/

theorem Text.prefix_takeUpTo (limit : Int) (t : Text) : takeUpTo limit t <+: t := by
  unfold takeUpTo
  split <;> exact List.take_prefix _ _

theorem Text.mem_of_mem_takeUpTo {limit : Int} {t : Text} {c : Char} (h : c ∈ takeUpTo limit t) :
    c ∈ t :=
  (prefix_takeUpTo limit t).subset h

theorem Text.length_takeUpTo_le {limit : Int} (h : 0 ≤ limit) (t : Text) :
    (takeUpTo limit t).length ≤ limit := by
  rw [takeUpTo, if_pos h]
  have := List.length_take_le limit.toNat t
  omega

theorem Text.takeUpTo_ne_nil {limit : Int} (h : 1 ≤ limit) {t : Text} (ht : t ≠ []) :
    takeUpTo limit t ≠ [] := by
  rw [takeUpTo, if_pos (by omega)]
  obtain ⟨c, t, rfl⟩ := List.exists_cons_of_ne_nil ht
  obtain ⟨n, hn⟩ : ∃ n, limit.toNat = n + 1 := ⟨limit.toNat - 1, by omega⟩
  rw [hn]
  simp

namespace Label

/-- A space or an underscore: what stands between the words of a label. -/
def isJoint (c : Char) : Bool := c == ' ' || c == '_'

theorem prefix_truncate (limit : Option Int) (l : Text) : truncate limit l <+: l := by
  unfold truncate
  split
  · exact List.prefix_refl l
  · split
    · exact (List.rdropWhile_prefix _ _).trans (prefix_takeUpTo _ l)
    · exact List.prefix_refl l

theorem mem_of_mem_truncate {limit : Option Int} {l : Text} {c : Char}
    (h : c ∈ truncate limit l) : c ∈ l :=
  (prefix_truncate limit l).subset h

theorem length_truncate_le {limit : Int} (h : 0 ≤ limit) (l : Text) :
    (truncate (some limit) l).length ≤ limit := by
  unfold truncate
  simp only []
  split
  · have hcut := (List.rdropWhile_prefix isJoint (takeUpTo limit l)).length_le
    have hlimit := length_takeUpTo_le h l
    show ((List.rdropWhile isJoint _).length : Int) ≤ limit
    omega
  · omega

/-! ## The end of a label -/

/-- The label ends with no space or underscore. -/
def Firm (l : Text) : Prop := ∀ c ∈ l.getLast?, isJoint c = false

theorem isJoint_eq_false_iff {c : Char} : isJoint c = false ↔ c ≠ ' ' ∧ c ≠ '_' := by
  simp [isJoint]

theorem Linked.tail {joined : Bool} {c : Char} {t : Text} (h : Linked joined (c :: t)) :
    ∃ joined', Linked joined' t := by
  by_cases hc : c = '_'
  · subst hc
    exact ⟨joined, (linked_underscore.1 h).2.2⟩
  · exact ⟨isAlnum c, (linked_cons hc).1 h⟩

theorem GoesOn.of_append {t u : Text} (h : GoesOn (t ++ u)) (hne : t ≠ [])
    (ht : ∀ c ∈ t.getLast?, c ≠ '_') : GoesOn t := by
  induction t with
  | nil => exact absurd rfl hne
  | cons c t ih =>
    by_cases hc : c = '_'
    · subst hc
      refine ih h ?_ fun d hd => ht d (List.mem_getLast?_cons hd)
      rintro rfl
      exact ht '_' rfl rfl
    · exact (goesOn_cons hc).2 ((goesOn_cons hc).1 h)

/-- A beginning keeps its runs of underscores, if it ends with none. -/
theorem Linked.of_append {joined : Bool} {t u : Text} (h : Linked joined (t ++ u))
    (ht : ∀ c ∈ t.getLast?, c ≠ '_') : Linked joined t := by
  induction t generalizing joined with
  | nil => trivial
  | cons c t ih =>
    have htail : ∀ d ∈ t.getLast?, d ≠ '_' := fun d hd => ht d (List.mem_getLast?_cons hd)
    by_cases hc : c = '_'
    · subst hc
      obtain ⟨hjoined, hnext, hlinked⟩ := linked_underscore.1 h
      have hne : t ≠ [] := by
        rintro rfl
        exact ht '_' rfl rfl
      exact linked_underscore.2 ⟨hjoined, hnext.of_append hne htail, ih hlinked htail⟩
    · exact (linked_cons hc).2 (ih ((linked_cons hc).1 h) htail)

/-- A letter or digit follows the last underscore. -/
theorem Linked.getLast?_ne {joined : Bool} {t : Text} (h : Linked joined t) :
    ∀ c ∈ t.getLast?, c ≠ '_' := by
  induction t generalizing joined with
  | nil => simp
  | cons c t ih =>
    cases t with
    | nil =>
      rintro d hd rfl
      obtain rfl : c = '_' := Option.some.inj hd
      cases (linked_underscore.1 h).2.1
    | cons e t =>
      obtain ⟨joined, htail⟩ := h.tail
      rw [List.getLast?_cons_cons]
      exact ih htail

theorem firm_plain (raw : Text) : Firm (plain raw) := by
  intro c hc
  have hblank := (trimmed_plain raw).2 c hc
  refine isJoint_eq_false_iff.2 ⟨?_, (linked_plain raw).getLast?_ne c hc⟩
  rintro rfl
  cases hblank

theorem firm_truncate {l : Text} (h : Firm l) (limit : Option Int) : Firm (truncate limit l) := by
  unfold truncate
  split
  · exact h
  · split
    · exact of_getLast?_dropEndWhile isJoint _
    · exact h

/-! ## Cleaning a cut label -/

theorem Plain.isSafe {l : Text} (h : Plain l) {c : Char} (hc : c ∈ l) : isSafe c = true := by
  rw [← show plain l = l from h] at hc
  exact isSafe_of_mem_plain hc

theorem Plain.linked {l : Text} (h : Plain l) : Linked false l := by
  rw [← show plain l = l from h]
  exact linked_plain l

theorem Plain.firm {l : Text} (h : Plain l) : Firm l := by
  rw [← show plain l = l from h]
  exact firm_plain l

/-- Cleaning leaves a label alone that is cut from one that it leaves alone. -/
theorem Plain.truncate {l : Text} (h : Plain l) (limit : Option Int) :
    Plain (Label.truncate limit l) := by
  have hsafe : ∀ c ∈ Label.truncate limit l, Label.isSafe c = true := fun c hc =>
    h.isSafe (mem_of_mem_truncate hc)
  have hlast : ∀ c ∈ (Label.truncate limit l).getLast?, c ≠ ' ' ∧ c ≠ '_' := fun c hc =>
    isJoint_eq_false_iff.1 (firm_truncate h.firm limit c hc)
  obtain ⟨u, hu⟩ := prefix_truncate limit l
  refine plain_of_linked hsafe ⟨fun c hc => ?_, fun c hc => ?_⟩ ?_
  · refine h.trimmed.1 c ?_
    rw [← hu, List.head?_append, Option.mem_def.1 hc]
    rfl
  · by_contra hblank
    rw [Bool.not_eq_false] at hblank
    exact (hlast c hc).1 (eq_space_of_isSafe (hsafe c (List.mem_of_getLast? hc)) hblank)
  · have hlinked := h.linked
    rw [← hu] at hlinked
    exact hlinked.of_append fun c hc => (hlast c hc).2

/-! ## One cut after another -/

/-- A cut at a limit that is not negative takes the characters up to the limit. -/
theorem truncate_eq {l : Text} (hl : Firm l) {limit : Int} (h : 0 ≤ limit) :
    truncate (some limit) l = dropEndWhile isJoint (l.take limit.toNat) := by
  have hcut : takeUpTo limit l = l.take limit.toNat := by rw [takeUpTo, if_pos h]
  unfold truncate
  simp only []
  split
  · rw [hcut]
    rfl
  · rw [List.take_of_length_le (by omega), dropEndWhile_eq_self isJoint hl]

section Limits

variable {m k : Option Int} (hm : ∀ n ∈ m, 0 ≤ n) (hk : ∀ n ∈ k, 0 ≤ n)

include hm hk

/-- Of two cuts, one after the other, the shorter one counts. -/
theorem truncate_truncate {l : Text} (hl : Firm l) :
    truncate k (truncate m l) = truncate (m.merge min k) l := by
  cases m with
  | none => cases k <;> rfl
  | some m =>
    cases k with
    | none => rfl
    | some k =>
      have hm := hm m rfl
      have hk := hk k rfl
      have hmin : min k.toNat m.toNat = (min m k).toNat := by omega
      rw [truncate_eq (firm_truncate hl _) hk, truncate_eq hl hm, dropEndWhile_take_dropEndWhile,
        List.take_take, hmin, ← truncate_eq hl (by omega)]
      rfl

/-- Cleaning a label that was cleaned only cuts it. -/
theorem clean_clean_eq (raw : Text) :
    clean k (clean m raw) = clean (m.merge min k) raw := by
  have hplain : plain (clean m raw) = truncate m (plain raw) := (plain_clean raw).truncate m
  rw [clean, hplain, truncate_truncate hm hk (firm_plain raw)]
  rfl

/-- Cleaning with one limit and then with another is cleaning with the smaller one, where no limit
is larger than all. So cleaning twice changes nothing, and a label that is cleaned without a limit
first is cut as it would have been at once. -/
theorem clean_clean (raw : Text) :
    clean k (clean m raw) = clean (m.merge min k) raw ∧
      clean m (clean m raw) = clean m raw ∧ clean k (clean none raw) = clean k raw := by
  refine ⟨clean_clean_eq hm hk raw, ?_, ?_⟩
  · rw [clean_clean_eq hm hm]
    cases m <;> simp
  · rw [clean_clean_eq (by simp) hk, Option.merge_none_left]

end Limits

/-- The first cut falls between an underscore and a letter, the second one between two spaces. -/
theorem clean_clean_between :
    let raw := "a_b  **c_d**_e".toList
    (∀ n ∈ some (9 : Int), 0 ≤ n) ∧ (∀ n ∈ some (4 : Int), 0 ≤ n) ∧
      clean (some 9) raw = "a_b  c_d".toList ∧ clean (some 4) raw = "a_b".toList ∧
      clean (some 4) (clean (some 9) raw) = clean (some 4) raw := by
  intro raw
  have h := (clean_clean (m := some 9) (k := some 4) (by simp) (by simp) raw).1
  exact ⟨by simp, by simp, by decide +kernel, by decide +kernel, h⟩

end Label

end Flowmend
