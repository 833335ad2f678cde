import Flowmend.Proofs.Label.Cut

/-!
# The form of cleaned labels

A cleaned label has the form `Normal`: safe characters only, neither a space nor an underscore at
its ends, each run of underscores between two letters or digits, and no more characters than the
limit allows. And it keeps the content of the label as written (`isContent`), in order: what the
steps of cleaning take away or add is blanks, underscores and characters that are not safe
(`filter_content_plain`).
-/

namespace Flowmend.Label

open Text

/-! ## Runs of underscores -/

/-- Every whole run of underscores stands between two letters or digits. -/
def Flanked (l : Text) : Prop :=
  ∀ (a : Text) (n : Nat) (b : Text), l = a ++ List.replicate (n + 1) '_' ++ b →
    (∀ c ∈ a.getLast?, c ≠ '_') → (∀ c ∈ b.head?, c ≠ '_') →
      a.getLast?.any isAlnum = true ∧ b.head?.any isAlnum = true

/-- Behind a character that is no underscore, a text is linked to that character. -/
theorem Linked.behind {joined : Bool} {a t : Text} (h : Linked joined (a ++ t)) {c : Char}
    (hc : c ∈ a.getLast?) (hne : c ≠ '_') : Linked (isAlnum c) t := by
  induction a generalizing joined with
  | nil => cases hc
  | cons d a ih =>
    cases a with
    | nil =>
      obtain rfl : d = c := Option.some.inj hc
      exact (linked_cons hne).1 h
    | cons e a =>
      obtain ⟨joined, htail⟩ := Linked.tail h
      rw [List.getLast?_cons_cons] at hc
      exact ih htail hc

theorem GoesOn.behind {n : Nat} {b : Text} (h : GoesOn (List.replicate n '_' ++ b))
    (hb : ∀ c ∈ b.head?, c ≠ '_') : b.head?.any isAlnum = true := by
  induction n with
  | zero =>
    cases b with
    | nil => exact h
    | cons c b => exact (goesOn_cons (hb c rfl)).1 h
  | succ n ih => exact ih h

theorem Linked.flanked {l : Text} (h : Linked false l) : Flanked l := by
  rintro a n b rfl ha hb
  rw [List.append_assoc] at h
  cases hlast : a.getLast? with
  | none =>
    obtain rfl := List.getLast?_eq_none_iff.1 hlast
    cases (linked_underscore.1 h).1
  | some c =>
    obtain ⟨hjoined, hnext, -⟩ := linked_underscore.1 (h.behind hlast (ha c hlast))
    exact ⟨hjoined, hnext.behind hb⟩

/-! ## Content -/

/-- A safe character that stands in words: neither a space nor an underscore. -/
def isContent (c : Char) : Bool := isSafe c && !isJoint c

theorem isContent_iff {c : Char} :
    isContent c = true ↔ isSafe c = true ∧ isJoint c = false := by
  simp [isContent]

theorem isContent_of_isBlank {c : Char} (h : isBlank c = true) : isContent c = false := by
  by_contra hc
  rw [Bool.not_eq_false, isContent_iff] at hc
  have hspace := eq_space_of_isSafe hc.1 h
  rw [hspace] at hc
  cases hc.2

theorem filter_content_of_blank {w : Text} (h : ∀ c ∈ w, isBlank c = true) :
    w.filter isContent = [] :=
  List.filter_eq_nil_iff.2 fun c hc => by simp [isContent_of_isBlank (h c hc)]

/-- A step that keeps the content keeps the content. -/
theorem filter_content_filter {p : Char → Bool} (hp : ∀ c, isContent c = true → p c = true)
    (t : Text) : (t.filter p).filter isContent = t.filter isContent := by
  rw [List.filter_filter]
  refine List.filter_congr fun c _ => ?_
  cases hc : isContent c with
  | false => rfl
  | true => rw [hp c hc]; rfl

theorem filter_content_trim (t : Text) : (trim t).filter isContent = t.filter isContent := by
  obtain ⟨a, b, ht, ha, hb⟩ := exists_trim t
  conv => rhs; rw [ht]
  rw [List.filter_append, List.filter_append, filter_content_of_blank ha,
    filter_content_of_blank hb, List.nil_append, List.append_nil]

theorem filter_content_foldLines (t : Text) :
    (foldLines t).filter isContent = t.filter isContent := by
  fun_induction foldLines t with
  | case1 => rfl
  | case2 c t _ ih => rw [List.filter_cons, List.filter_cons, ih]
  | case3 c t b rest hdrop hreturn ih =>
    obtain ⟨w, hw, -, hblank⟩ := exists_folded hdrop hreturn
    rw [hw, List.filter_append, filter_content_of_blank hblank, List.nil_append, ← ih]
    rfl
  | case4 c t _ _ _ _ ih => rw [List.filter_cons, List.filter_cons, ih]

theorem filter_content_dropUnderscores (joined : Bool) (t : Text) :
    (dropUnderscores joined t).filter isContent = t.filter isContent := by
  fun_induction dropUnderscores joined t with
  | case1 => rfl
  | case2 joined t _ ih => rw [List.filter_cons, List.filter_cons, ih]
  | case3 joined t _ ih => exact ih
  | case4 joined c t _ ih => rw [List.filter_cons, List.filter_cons, ih]

/-- Cleaning keeps the content of a label, in order. -/
theorem filter_content_plain (raw : Text) :
    (plain raw).filter isContent = raw.filter isContent := by
  have hsafe : ∀ c, isContent c = true → isPlain c = true ∧ isSpecial c = false ∧ c ≠ '*' :=
    fun c hc => isSafe_iff.1 (isContent_iff.1 hc).1
  calc (plain raw).filter isContent
    _ = _ := filter_content_trim _
    _ = _ := filter_content_filter (fun c hc => by rw [(hsafe c hc).2.1]; rfl) _
    _ = _ := filter_content_filter (fun c hc => (hsafe c hc).1) _
    _ = _ := filter_content_foldLines _
    _ = _ := filter_content_dropUnderscores ..
    _ = raw.filter isContent :=
      filter_content_filter (fun c hc => by simpa using (hsafe c hc).2.2) raw

/-! ## The form -/

/-- The form of a label that was cleaned with this limit. -/
structure Normal (limit : Option Int) (l : Text) : Prop where
  safe : ∀ c ∈ l, isSafe c = true
  head : ∀ c ∈ l.head?, isJoint c = false
  last : ∀ c ∈ l.getLast?, isJoint c = false
  flanked : Flanked l
  length_le : ∀ n ∈ limit, l.length ≤ n

theorem Linked.head?_ne {l : Text} (h : Linked false l) : ∀ c ∈ l.head?, c ≠ '_' := by
  cases l with
  | nil => simp
  | cons c l =>
    rintro d hd rfl
    obtain rfl : c = '_' := Option.some.inj hd
    cases (linked_underscore.1 h).1

theorem Plain.head?_joint {l : Text} (h : Plain l) : ∀ c ∈ l.head?, isJoint c = false := by
  intro c hc
  have hblank := h.trimmed.1 c hc
  refine isJoint_eq_false_iff.2 ⟨?_, h.linked.head?_ne c hc⟩
  rintro rfl
  cases hblank

/-- A cleaned label has the normal form. Without its spaces and underscores, a label that is cleaned
without a limit is the content of the label as written. -/
theorem normal_clean {limit : Option Int} (hlimit : ∀ n ∈ limit, 0 ≤ n) (raw : Text) :
    Normal limit (clean limit raw) ∧
      (clean none raw).filter (fun c => !isJoint c) = raw.filter isContent := by
  have hplain : Plain (clean limit raw) := (plain_clean raw).truncate limit
  constructor
  · refine ⟨fun c => hplain.isSafe, hplain.head?_joint, hplain.firm, hplain.linked.flanked, ?_⟩
    rintro n rfl
    exact length_truncate_le (hlimit n rfl) _
  · rw [← filter_content_plain]
    refine List.filter_congr fun c hc => ?_
    rw [isContent, isSafe_of_mem_plain hc, Bool.true_and]

/-- The underscore between brackets goes with them, and the cut leaves no space at the end. -/
theorem normal_clean_brackets :
    let raw := "x_y(_)z **w**".toList
    (∀ n ∈ some (5 : Int), 0 ≤ n) ∧ clean (some 5) raw = "x_yz".toList ∧
      Normal (some 5) (clean (some 5) raw) ∧
      (clean none raw).filter (fun c => !isJoint c) = raw.filter isContent := by
  intro raw
  exact ⟨by simp, by decide +kernel, normal_clean (by simp) raw⟩

end Flowmend.Label
