import Flowmend.Proofs.Drawing.Canvas

/-!
# Arms that stay

A mark that draws a line or adds arms never takes an arm away: the cell has the arms of the mark
afterwards, and those that it had before (`reaches_ink`, `Reaches.ink`). So a cell that is marked in
these ways only has the arms of each of its marks (`reaches_inks`).
-/

namespace Flowmend

namespace Arms

instance : LE Arms := ⟨fun a b => a.merge b = b⟩

instance (a b : Arms) : Decidable (a ≤ b) := inferInstanceAs (Decidable (a.merge b = b))

theorem merge_assoc (a b c : Arms) : (a.merge b).merge c = a.merge (b.merge c) := by
  simp [merge, Bool.or_assoc]

theorem merge_comm (a b : Arms) : a.merge b = b.merge a := by
  simp [merge, Bool.or_comm]

theorem merge_self (a : Arms) : a.merge a = a := by
  simp [merge]

theorem le_refl (a : Arms) : a ≤ a := a.merge_self

theorem le_merge_left (a b : Arms) : a ≤ a.merge b := by
  show a.merge (a.merge b) = a.merge b
  rw [← merge_assoc, merge_self]

theorem le_merge_right (a b : Arms) : b ≤ a.merge b := by
  rw [merge_comm]
  exact le_merge_left b a

theorem le_trans {a b c : Arms} (hab : a ≤ b) (hbc : b ≤ c) : a ≤ c := by
  show a.merge c = c
  rw [← show b.merge c = c from hbc, ← merge_assoc, show a.merge b = b from hab]

/-- The character leaves its cell in all these directions. -/
def Reaches (c : Char) (a : Arms) : Prop := ∃ b ∈ ofChar? c, a ≤ b

theorem Reaches.mono {c : Char} {a b : Arms} (h : Reaches c b) (hab : a ≤ b) : Reaches c a := by
  obtain ⟨d, hd, hbd⟩ := h
  exact ⟨d, hd, le_trans hab hbd⟩

/-- A line character has an arm. -/
theorem ne_of_ofChar? {c : Char} {a : Arms} (h : ofChar? c = some a) : a ≠ {} := by
  unfold ofChar? at h
  split at h <;> cases h <;> decide

/-- The character for some arms has them all. -/
theorem reaches_toChar {a : Arms} (h : a ≠ {}) : Reaches (a.toChar .unicode) a := by
  obtain ⟨up, down, left, right⟩ := a
  cases up <;> cases down <;> cases left <;> cases right
  case false.false.false.false => exact absurd rfl h
  all_goals exact ⟨_, rfl, by decide⟩

end Arms

namespace Mark

open Arms

/-- The arms that a mark adds to its cell; a mark that puts a character there adds none. -/
def arms? : Mark → Option Arms
  | put _ _ _ => none
  | stroke _ _ c => Arms.ofChar? c
  | addArms _ _ arms => some arms

variable {m : Mark} {old : Char} {a b : Arms}

/-- The cell has the arms that it had before, and those of the mark. -/
theorem Reaches.ink (hold : Reaches old b) (hm : m.arms? = some a) :
    Reaches (m.ink .unicode old) (b.merge a) := by
  obtain ⟨o, ho, hbo⟩ := hold
  have hmerge : b.merge a ≤ o.merge a := by
    show (b.merge a).merge (o.merge a) = o.merge a
    rw [merge_assoc, ← merge_assoc a, merge_comm a o, merge_assoc o, merge_self, ← merge_assoc,
      show b.merge o = o from hbo]
  have hne : o.merge a ≠ {} := by
    intro h
    have hle : o ≤ {} := h ▸ le_merge_left o a
    refine ne_of_ofChar? ho ?_
    rw [← show o.merge {} = {} from hle]
    simp [merge]
  have hink : m.ink .unicode old = (o.merge a).toChar .unicode := by
    cases m with
    | put => cases hm
    | stroke col row c =>
      rw [ink, Option.mem_def.1 ho, show Arms.ofChar? c = some a from hm]
    | addArms col row arms =>
      cases hm
      rw [ink, Option.mem_def.1 ho, Option.getD_some]
  rw [hink]
  exact (reaches_toChar hne).mono hmerge

/-- The cell has the arms of the mark, whatever it held before. -/
theorem reaches_ink (hm : m.arms? = some a) (hne : a ≠ {}) : Reaches (m.ink .unicode old) a := by
  cases hold : Arms.ofChar? old with
  | some o => exact (Reaches.ink ⟨o, hold, o.le_refl⟩ hm).mono (le_merge_right o a)
  | none =>
    cases m with
    | put => cases hm
    | stroke col row c =>
      rw [ink, hold]
      exact ⟨a, hm, a.le_refl⟩
    | addArms col row arms =>
      cases hm
      rw [ink, hold, Option.getD_none, show ({} : Arms).merge a = a by simp [merge]]
      exact reaches_toChar hne

/-- A cell whose marks all add arms has those of each of its marks. -/
theorem reaches_inks {ms : List Mark} (hms : ∀ m ∈ ms, m.arms?.isSome) (hmem : m ∈ ms)
    (hm : m.arms? = some a) (hne : a ≠ {}) : Reaches (inks .unicode old ms) a := by
  obtain ⟨before, after, rfl⟩ := List.append_of_mem hmem
  rw [inks_append, inks_cons]
  refine inks_induction (P := fun c => Reaches c a) (reaches_ink hm hne) fun n hn c hc => ?_
  obtain ⟨d, hd⟩ := Option.isSome_iff_exists.1
    (hms n (List.mem_append_right _ (List.mem_cons_of_mem m hn)))
  exact (Reaches.ink hc hd).mono (le_merge_left a d)

end Mark

end Flowmend
