import Flowmend.Proofs.Repair.Again

/-!
# The lines that are mended

The lines behind the header are numbered lines of the source, each one as it stands there, but for
the keyword of a first line without a header (`Opening.exists_body`). An event for a missing header
belongs to a line before them (`Opening.of_reason`).
-/

namespace Flowmend

open Text

namespace Opening

/-- What of a numbered line is mended: the first one that is no comment leaves its flowchart
keyword, if it is no header. -/
def spoken (source : Text) (p : Nat × Text) : Text :=
  if (numberedLines source).find? (fun l => !isComment l.2) = some p ∧ Header.kind? p.2 = none then
    Header.skip p.2
  else p.2

section Source

variable {usualHeader source : Text}

theorem spoken_suffix (p : Nat × Text) : spoken source p <:+ p.2 := by
  unfold spoken
  split
  · exact Header.skip_suffix p.2
  · exact List.suffix_refl p.2

/-- A line behind the first one that is no comment is mended as it is. -/
theorem spoken_of_mem_rest {first : Nat × Text} {rest : List (Nat × Text)}
    (hls : ((numberedLines source).dropWhile fun l => isComment l.2) = first :: rest)
    {p : Nat × Text} (hp : p ∈ rest) : spoken source p = p.2 := by
  have hnumbers := (pairwise_numberedLines source).sublist
    (List.dropWhile_sublist fun l => isComment l.2)
  rw [hls] at hnumbers
  have hlt := List.rel_of_pairwise_cons hnumbers hp
  refine if_neg fun h => ?_
  rw [find?_of_dropWhile hls] at h
  cases h.1
  exact Nat.lt_irrefl _ hlt

/-- The lines behind the header, with their numbers in the source. -/
theorem exists_body (usualHeader source : Text) : ∃ ls, ls <:+ numberedLines source ∧
    (ofSource usualHeader source).body = ls.map fun p => (p.1, spoken source p) := by
  have hsuffix := List.dropWhile_suffix (l := numberedLines source) fun l => isComment l.2
  unfold ofSource
  cases hls : (numberedLines source).dropWhile fun l => isComment l.2 with
  | nil => exact ⟨[], List.nil_suffix, rfl⟩
  | cons p rest =>
    obtain ⟨n, first⟩ := p
    rw [hls] at hsuffix
    have hrest : rest.map (fun p => (p.1, spoken source p)) = rest :=
      (List.map_congr_left fun p hp => by rw [spoken_of_mem_rest hls hp]).trans (List.map_id' rest)
    cases hkind : Header.kind? first with
    | some kind =>
      refine ⟨rest, (List.suffix_cons _ _).trans hsuffix, ?_⟩
      rw [hrest, ofLines, hkind]
    | none =>
      rcases body_cases usualHeader n rest hkind with hbody | hbody
      · exact ⟨rest, (List.suffix_cons _ _).trans hsuffix, by rw [hrest, hbody]⟩
      · refine ⟨(n, first) :: rest, hsuffix, ?_⟩
        rw [List.map_cons, hrest, hbody, spoken, if_pos ⟨find?_of_dropWhile hls, hkind⟩]

/-- A line behind the header comes from a numbered line of the source. -/
theorem exists_of_mem_body {p : Nat × Text} (hp : p ∈ (ofSource usualHeader source).body) :
    ∃ l, (p.1, l) ∈ numberedLines source ∧ p.2 = spoken source (p.1, l) := by
  obtain ⟨ls, hsuffix, hbody⟩ := exists_body usualHeader source
  obtain ⟨⟨n, l⟩, hmem, rfl⟩ := List.mem_map.1 (hbody ▸ hp)
  exact ⟨l, hsuffix.subset hmem, rfl⟩

/-- A line that is mended has no breaks. -/
theorem not_break_of_mem_body {s : Text}
    (hs : s ∈ (ofSource usualHeader source).body.map Prod.snd) :
    ∀ c ∈ s, isBreak c = false := by
  obtain ⟨p, hp, rfl⟩ := List.mem_map.1 hs
  obtain ⟨l, hmem, heq⟩ := exists_of_mem_body hp
  rw [heq]
  exact fun c hc => (isLine_of_mem_statements (List.mem_map_of_mem hmem)).not_break c
    ((spoken_suffix (p.1, l)).subset hc)

/-- The lines behind the header stand in the order of their numbers. -/
theorem pairwise_body (usualHeader source : Text) :
    (ofSource usualHeader source).body.Pairwise fun p q => p.1 < q.1 := by
  obtain ⟨ls, hsuffix, hbody⟩ := exists_body usualHeader source
  rw [hbody, List.pairwise_map]
  exact (pairwise_numberedLines source).sublist hsuffix.sublist

/-- The event for a missing header comes before all lines behind the header. -/
theorem of_reason {e : Event} (h : e ∈ (ofSource usualHeader source).reason) :
    e.kind = .missingHeader ∧ ∃ n : Nat, e.line = n ∧ 1 ≤ n ∧ n ≤ max 1 (lines source).length ∧
      ∀ p ∈ (ofSource usualHeader source).body, n ≤ p.1 := by
  unfold ofSource at h ⊢
  cases hls : (numberedLines source).dropWhile fun l => isComment l.2 with
  | nil =>
    rw [hls] at h
    cases h
    exact ⟨rfl, 1, rfl, by omega, by omega, by simp [ofLines, added]⟩
  | cons p rest =>
    obtain ⟨n, first⟩ := p
    rw [hls] at h
    have hnumbers := (pairwise_numberedLines source).sublist
      (List.dropWhile_sublist fun l => isComment l.2)
    have hmem : (n, first) ∈ numberedLines source :=
      (List.dropWhile_suffix _).subset (hls ▸ List.mem_cons_self)
    rw [hls, List.pairwise_cons] at hnumbers
    obtain ⟨hone, hlength⟩ := bounds_of_mem_numberedLines hmem
    have hkind : Header.kind? first = none := by
      cases hkind : Header.kind? first with
      | none => rfl
      | some kind =>
        rw [ofLines, hkind] at h
        cases h
    have hevent : e.kind = .missingHeader ∧ e.line = n := by
      simp only [ofLines, hkind] at h
      generalize (if Header.isLoneKeyword first then [] else Header.skip first) = statements at h
      split at h
      · split at h <;> cases h <;> exact ⟨rfl, rfl⟩
      · cases h
        exact ⟨rfl, rfl⟩
    refine ⟨hevent.1, n, hevent.2, hone, by omega, fun p hp => ?_⟩
    rcases body_cases usualHeader n rest hkind with hbody | hbody
    · exact Nat.le_of_lt (hnumbers.1 p (hbody ▸ hp))
    · rcases List.mem_cons.1 (hbody ▸ hp) with rfl | hp
      · exact Nat.le_refl _
      · exact Nat.le_of_lt (hnumbers.1 p hp)

end Source

end Opening

end Flowmend
