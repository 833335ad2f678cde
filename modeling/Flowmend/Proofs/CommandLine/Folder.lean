import Flowmend.CommandLine.Folder
import Mathlib.Data.List.Basic

/-!
# Files are read as they were written

Writing a file changes what is at its location and nothing else (`find?_put_folder`), so that the
way to it is still there afterwards (`follow_put`) and its bytes are read back (`read_of_write`).
-/

namespace Flowmend.CommandLine.Folder

variable {f f' : Folder} {l k : Location} {bytes : List UInt8}

/-! ## One location -/

theorem lookup_put (f : Folder) (l k : Location) (bytes : List UInt8) :
    (f.put l bytes).files.lookup k = if k = l then some bytes else f.files.lookup k := by
  have hself : ([(l, bytes)] : List (Location × List UInt8)).lookup k =
      if k = l then some bytes else none := by
    by_cases h : k = l
    · simp [h]
    · simp [h, List.lookup_cons, beq_eq_false_iff_ne.2 h]
  have hfilter : (f.files.filter fun q => q.1 != l).lookup k =
      if k = l then none else f.files.lookup k := by
    induction f.files with
    | nil => simp
    | cons q files ih =>
      obtain ⟨m, content⟩ := q
      by_cases hm : m = l
      · rw [List.filter_cons_of_neg (by simpa using hm), ih]
        by_cases hk : k = l
        · rw [if_pos hk, if_pos hk]
        · have hkm : k ≠ m := fun h => hk (h.trans hm)
          rw [if_neg hk, if_neg hk, List.lookup_cons, beq_eq_false_iff_ne.2 hkm]
      · rw [List.filter_cons_of_pos (by simpa using hm), List.lookup_cons, List.lookup_cons, ih]
        by_cases hk : k = m
        · have hne : k ≠ l := fun h => hm (hk.symm.trans h)
          simp only [beq_iff_eq.2 hk, if_neg hne]
        · rw [beq_eq_false_iff_ne.2 hk]
  rw [put, List.lookup_append, hself, hfilter]
  by_cases h : k = l <;> simp [h]

theorem isFolder_put (h : f.isFolder k = true) : (f.put l bytes).isFolder k = true := by
  simp only [isFolder, Bool.or_eq_true, List.any_eq_true] at h ⊢
  refine h.imp_right fun ⟨q, hq, hprefix⟩ => ?_
  by_cases hl : q.1 = l
  · exact ⟨(l, bytes), by simp [put], hl ▸ hprefix⟩
  · exact ⟨q, by simp [put, hq, hl], hprefix⟩

theorem find?_put_self : (f.put l bytes).find? l = some (.file l bytes) := by
  rw [find?, lookup_put, if_pos rfl]

/-- What is found at a location is at this location. -/
theorem find?_cases {place : Place} (h : f.find? k = some place) :
    (∃ bytes, place = .file k bytes) ∨ place = .folder k ∧ f.isFolder k = true := by
  unfold find? at h
  split at h
  · cases h
    exact .inl ⟨_, rfl⟩
  · split at h
    · rename_i hfolder
      cases h
      exact .inr ⟨rfl, hfolder⟩
    · cases h

/-- A folder is still one after a file was written elsewhere. -/
theorem find?_put_folder (h : f.find? k = some (.folder k)) (hne : k ≠ l) :
    (f.put l bytes).find? k = some (.folder k) := by
  unfold find? at h ⊢
  rw [lookup_put, if_neg hne]
  cases hlookup : f.files.lookup k with
  | some content =>
    rw [hlookup] at h
    cases h
  | none =>
    rw [hlookup] at h
    by_cases hfolder : f.isFolder k = true
    · exact if_pos (isFolder_put hfolder)
    · exact absurd h (by simp [hfolder])

/-! ## Ways -/

variable {place place' : Place} {name : Text}

/-- A way to a folder only leads through folders. -/
theorem step_put (hl : ∀ k, f.find? l ≠ some (.folder k)) {s : Step}
    (h : f.step place s = .ok place') (hfile : ∀ k content, place' ≠ .file k content) :
    (f.put l bytes).step place s = .ok place' := by
  cases place with
  | file k content => cases h
  | outside => cases s <;> exact h
  | folder k =>
    cases s with
    | here | up => exact h
    | into name =>
      simp only [step, into] at h ⊢
      by_cases hlimit : nameLimit < name.str.utf8ByteSize
      · rw [if_pos hlimit] at h
        cases h
      · rw [if_neg hlimit] at h ⊢
        cases hfind : f.find? (k ++ [name]) with
        | none =>
          rw [hfind] at h
          cases h
        | some found =>
          rw [hfind] at h
          cases h
          rcases find?_cases hfind with ⟨content, rfl⟩ | ⟨rfl, -⟩
          · exact absurd rfl (hfile _ _)
          · rw [find?_put_folder hfind fun heq => hl _ (heq ▸ hfind)]

theorem follow_put (hl : ∀ k, f.find? l ≠ some (.folder k)) {steps : List Step}
    (h : f.follow place steps = .ok (.folder k)) :
    (f.put l bytes).follow place steps = .ok (.folder k) := by
  induction steps generalizing place with
  | nil => exact h
  | cons s steps ih =>
    rw [follow] at h ⊢
    cases hstep : f.step place s with
    | error e =>
      rw [hstep] at h
      cases h
    | ok next =>
      rw [hstep] at h
      have hfile : ∀ k content, next ≠ .file k content := by
        rintro k content rfl
        cases steps with
        | nil => cases h
        | cons s steps => cases h
      rw [step_put hl hstep hfile]
      exact ih h

theorem follow_append {steps : List Step} (h : f.follow place steps = .ok place')
    (more : List Step) : f.follow place (steps ++ more) = f.follow place' more := by
  induction steps generalizing place with
  | nil =>
    cases h
    rfl
  | cons s steps ih =>
    rw [List.cons_append, follow]
    rw [follow] at h
    cases hstep : f.step place s with
    | error e =>
      rw [hstep] at h
      cases h
    | ok next =>
      rw [hstep] at h
      exact ih h

/-- Writing a file in a folder puts it at its location, where there is no folder. -/
theorem writeInto_folder (h : f.writeInto (.folder k) name bytes = .ok f') :
    f' = f.put (k ++ [name]) bytes ∧ (∀ l, f.find? (k ++ [name]) ≠ some (.folder l)) ∧
      ¬nameLimit < name.str.utf8ByteSize := by
  unfold writeInto into at h
  by_cases hlimit : nameLimit < name.str.utf8ByteSize
  · simp only [if_pos hlimit] at h
    cases h
  · simp only [if_neg hlimit] at h
    cases hfind : f.find? (k ++ [name]) with
    | none =>
      simp only [hfind] at h
      cases h
      exact ⟨rfl, by simp, hlimit⟩
    | some found =>
      simp only [hfind] at h
      rcases find?_cases hfind with ⟨content, rfl⟩ | ⟨rfl, -⟩
      · cases h
        exact ⟨rfl, by simp, hlimit⟩
      · cases h

/-- What was written to a file in the working folder or below it is read back. -/
theorem read_of_write (h : f.write name bytes = .ok f')
    (hinside : f.follow (start (Path.ofText name)) (Path.ofText name).steps.dropLast ≠
      .ok .outside) : f'.read name = .ok bytes := by
  unfold write at h
  by_cases hlimit : pathLimit < name.str.utf8ByteSize
  · rw [if_pos hlimit] at h
    cases h
  rw [if_neg hlimit] at h
  simp only [] at h
  split at h
  · cases h
  · cases h
  rename_i place hfile hplace
  split at h
  swap
  · cases h
  rename_i step last hlast
  split at h
  · cases h
  rename_i htoFolder
  cases place with
  | file l content => exact absurd rfl (hfile l content)
  | outside => exact absurd hplace hinside
  | folder k =>
    obtain ⟨rfl, hnone, hname⟩ := writeInto_folder h
    have hsteps : (Path.ofText name).steps =
        (Path.ofText name).steps.dropLast ++ [.into last] :=
      (List.dropLast_append_getLast? _ hlast).symm
    have hread : (f.put (k ++ [last]) bytes).into (.folder k) last =
        .ok (.file (k ++ [last]) bytes) := by
      rw [into, if_neg hname]
      simp only [find?_put_self]
    have hfollow : (f.put (k ++ [last]) bytes).follow (start (Path.ofText name))
        (Path.ofText name).steps = .ok (.file (k ++ [last]) bytes) := by
      rw [hsteps, follow_append (follow_put hnone hplace)]
      simp only [follow, Folder.step, hread]
    rw [read, if_neg hlimit]
    simp only [hfollow, if_neg htoFolder]

end Flowmend.CommandLine.Folder
