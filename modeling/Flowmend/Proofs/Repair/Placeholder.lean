import Flowmend.Proofs.Text.Word
import Flowmend.Repair.Placeholder
import Mathlib.Data.List.Nodup
import Mathlib.Data.List.Perm.Subperm

/-!
# Fresh placeholders

The search for a placeholder passes over candidates that are in use only, and as all candidates
differ it ends at one that is not (`exists_finds`). `given` are the placeholders that a supply gives
out one after the other: none of them was in use before (`given_notMem`), and no two are the same
(`given_injective`).
-/

namespace Flowmend.Placeholders

open Text

/-! ## Candidates -/

theorem candidate_injective (stem : Text) : Function.Injective (candidate stem) := by
  have hdigits : ∀ n, stem ≠ stem ++ Nat.toDigits 10 n := by
    intro n h
    exact Nat.toDigits_ne_nil (List.append_right_eq_self.1 h.symm)
  intro m n h
  unfold candidate at h
  split at h <;> split at h
  · rename_i hm hn
    rw [hm, hn]
  · exact absurd h (hdigits n)
  · exact absurd h.symm (hdigits m)
  · have := congrArg (Nat.ofDigitChars 10 · 0) (List.append_cancel_left h)
    simpa only [Nat.ofDigitChars_ten_toDigits] using this

/-- Behind the stem, a candidate has digits. -/
theorem mem_candidate {stem : Text} {n : Nat} {c : Char} (hc : c ∈ candidate stem n) :
    c ∈ stem ∨ isIdChar c = true := by
  unfold candidate at hc
  split at hc
  · exact .inl hc
  · refine (List.mem_append.1 hc).imp_right fun hc => ?_
    have := Nat.isDigit_of_mem_toDigits (by decide) (by decide) hc
    simp [isIdChar, isAlnum, Char.isAlphanum, this]

/-- With an id as the stem, all candidates are ids. -/
theorem isId_candidate {stem : Text} (h : IsId stem) (n : Nat) : IsId (candidate stem n) := by
  refine ⟨?_, fun c hc => (mem_candidate hc).elim (h.isIdChar c) id⟩
  unfold candidate
  split
  · exact h.ne_nil
  · exact List.append_ne_nil_of_left_ne_nil h.ne_nil _

/-! ## The search -/

/-- The search ends at the first candidate that is not in use, or after as many as it may pass
over. -/
theorem exists_firstFree (stem : Text) (inUse : List Text) (tried fuel : Nat) :
    ∃ k, firstFree stem inUse tried fuel = tried + 1 + k ∧
      (∀ i < k, candidate stem (tried + 1 + i) ∈ inUse) ∧
      (candidate stem (tried + 1 + k) ∉ inUse ∨ k = fuel) := by
  induction fuel generalizing tried with
  | zero => exact ⟨0, rfl, by simp, .inr rfl⟩
  | succ fuel ih =>
    unfold firstFree
    split
    · rename_i hused
      obtain ⟨k, hk, hpassed, hend⟩ := ih (tried + 1)
      have hshift : ∀ i, tried + 1 + 1 + i = tried + 1 + (i + 1) := by omega
      refine ⟨k + 1, by rw [hk, hshift], fun i hi => ?_, ?_⟩
      · cases i with
        | zero => simpa using hused
        | succ i => exact hshift i ▸ hpassed i (Nat.lt_of_succ_lt_succ hi)
      · exact hend.imp (fun h => hshift k ▸ h) (congrArg (· + 1))
    · rename_i hfree
      exact ⟨0, rfl, by simp, .inl (by simpa using hfree)⟩

variable (p : Placeholders)

/-- There are not more candidates in use than ids, as all candidates differ. -/
theorem le_length_inUse {n : Nat} (h : ∀ i < n, candidate p.stem (p.tried + 1 + i) ∈ p.inUse) :
    n ≤ p.inUse.length := by
  have hnodup : ((List.range n).map fun i => candidate p.stem (p.tried + 1 + i)).Nodup :=
    List.nodup_range.map fun i j h => Nat.add_left_cancel (candidate_injective p.stem h)
  have hsub : ((List.range n).map fun i => candidate p.stem (p.tried + 1 + i)) ⊆ p.inUse := by
    intro id hid
    obtain ⟨i, hi, rfl⟩ := List.mem_map.1 hid
    exact h i (List.mem_range.1 hi)
  have := (List.subperm_of_subset hnodup hsub).length_le
  rwa [List.length_map, List.length_range] at this

/-- The search passes over some candidates, all of them in use, and takes the one behind them, which
is not. -/
structure Finds (passed : Nat) : Prop where
  next_eq : p.next = (candidate p.stem (p.tried + 1 + passed),
    { p with
      inUse := candidate p.stem (p.tried + 1 + passed) :: p.inUse
      tried := p.tried + 1 + passed })
  passed_mem : ∀ i < passed, candidate p.stem (p.tried + 1 + i) ∈ p.inUse
  passed_le : passed ≤ p.inUse.length
  notMem : p.next.1 ∉ p.inUse

theorem exists_finds : ∃ passed, p.Finds passed := by
  obtain ⟨k, hk, hpassed, hend⟩ := exists_firstFree p.stem p.inUse p.tried p.inUse.length
  have hnext : p.next = (candidate p.stem (p.tried + 1 + k),
      { p with
        inUse := candidate p.stem (p.tried + 1 + k) :: p.inUse
        tried := p.tried + 1 + k }) := by
    rw [← hk]
    rfl
  refine ⟨k, hnext, hpassed, p.le_length_inUse hpassed, fun hmem => ?_⟩
  rw [hnext] at hmem
  obtain rfl := hend.resolve_left fun h => h hmem
  -- One more candidate would be in use than there are ids in use.
  have := p.le_length_inUse (n := p.inUse.length + 1) fun i hi => by
    rcases Nat.lt_succ_iff_lt_or_eq.1 hi with hi | rfl
    · exact hpassed i hi
    · exact hmem
  omega

/-- The next placeholder is not in use. -/
theorem next_notMem : p.next.1 ∉ p.inUse := by
  obtain ⟨passed, h⟩ := p.exists_finds
  exact h.notMem

/-! ## Ids in use -/

theorem mem_inUse_reserve {id : Text} {ids : List Text} :
    id ∈ (p.reserve ids).inUse ↔ id ∈ ids ∨ id ∈ p.inUse := by
  induction ids generalizing p with
  | nil => simp [reserve]
  | cons i ids ih =>
    refine (ih (p.reserveOne i)).trans ?_
    have hone : id ∈ (p.reserveOne i).inUse ↔ id = i ∨ id ∈ p.inUse := by
      unfold reserveOne
      split
      · rename_i hi
        refine (or_iff_right_of_imp ?_).symm
        rintro rfl
        simpa using hi
      · exact List.mem_cons
    rw [hone, List.mem_cons, or_left_comm, or_assoc]

variable {p}

/-- No id is in use twice. -/
theorem nodup_reserve (h : p.inUse.Nodup) (ids : List Text) : (p.reserve ids).inUse.Nodup := by
  induction ids generalizing p with
  | nil => exact h
  | cons i ids ih =>
    refine ih (p := p.reserveOne i) ?_
    unfold reserveOne
    split
    · exact h
    · rename_i hi
      exact List.nodup_cons.2 ⟨by simpa using hi, h⟩

theorem nodup_next (h : p.inUse.Nodup) : p.next.2.inUse.Nodup :=
  List.nodup_cons.2 ⟨next_notMem p, h⟩

variable (p)

/-! ## One placeholder after the other -/

/-- The supply after it has given out `n` placeholders. -/
def after (p : Placeholders) : Nat → Placeholders
  | 0 => p
  | n + 1 => after p.next.2 n

/-- The placeholder that the supply gives out after `n` others. -/
def given (n : Nat) : Text := (p.after n).next.1

theorem after_add (m n : Nat) : p.after (m + n) = (p.after m).after n := by
  induction m generalizing p with
  | zero => rw [Nat.zero_add]; rfl
  | succ m ih =>
    rw [Nat.succ_add]
    exact ih p.next.2

theorem given_after (m n : Nat) : (p.after m).given n = p.given (m + n) := by
  rw [given, given, after_add]

theorem stem_after (n : Nat) : (p.after n).stem = p.stem := by
  induction n generalizing p with
  | zero => rfl
  | succ n ih => exact ih p.next.2

theorem isId_given {p : Placeholders} (h : IsId p.stem) (n : Nat) : IsId (p.given n) := by
  induction n generalizing p with
  | zero => exact isId_candidate h _
  | succ n ih => exact ih (p := p.next.2) h

/-- What is in use stays in use. -/
theorem inUse_subset_after (n : Nat) : p.inUse ⊆ (p.after n).inUse := by
  induction n generalizing p with
  | zero => exact List.Subset.refl _
  | succ n ih => exact List.Subset.trans (List.subset_cons_self p.next.1 p.inUse) (ih p.next.2)

theorem nodup_after (h : p.inUse.Nodup) (n : Nat) : (p.after n).inUse.Nodup := by
  induction n generalizing p with
  | zero => exact h
  | succ n ih => exact ih p.next.2 (nodup_next h)

/-- A placeholder that was given out is in use. -/
theorem given_mem_after {i n : Nat} (h : i < n) : p.given i ∈ (p.after n).inUse := by
  obtain ⟨k, rfl⟩ := Nat.exists_eq_add_of_lt h
  rw [Nat.add_assoc, after_add]
  exact inUse_subset_after _ k List.mem_cons_self

/-- No placeholder was in use before. -/
theorem given_notMem (n : Nat) : p.given n ∉ p.inUse := fun h =>
  next_notMem (p.after n) (inUse_subset_after p n h)

/-- No placeholder is given out twice. -/
theorem given_injective : Function.Injective p.given := by
  have hlt : ∀ m n, m < n → p.given m ≠ p.given n := by
    intro m n hmn h
    -- The first one is in use as soon as it is given out.
    have hmem := given_mem_after p hmn
    rw [h] at hmem
    exact next_notMem (p.after n) hmem
  intro m n h
  rcases Nat.lt_trichotomy m n with hmn | rfl | hmn
  · exact absurd h (hlt m n hmn)
  · rfl
  · exact absurd h.symm (hlt n m hmn)

end Flowmend.Placeholders
