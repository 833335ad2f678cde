import Flowmend.Proofs.Text.Word

/-!
# Runs of id characters

An id stands in a text as a whole where no id character touches it (`IsRun`). Two texts in a row are
`Apart` if no id goes on from the first into the second; then the runs of either are runs of both
together (`IsRun.append`, `IsRun.behind`), and the ids of both together are those of either
(`ids_append`). So a text has the ids of its statements (`ids_eq_flatMap_statements`).
-/

namespace Flowmend.Text

/-- The id is a stretch of id characters of the text that is not part of a longer one. -/
structure IsRun (id t : Text) : Prop where
  isId : IsId id
  maximal : ∃ u v, t = u ++ id ++ v ∧ (∀ c ∈ u.getLast?, isIdChar c = false) ∧
    ∀ c ∈ v.head?, isIdChar c = false

/-- No id goes on from the first text into the second one. -/
def Apart (t u : Text) : Prop :=
  ∀ c ∈ t.getLast?, ∀ d ∈ u.head?, isIdChar c = true → isIdChar d = false

namespace Apart

variable {t u : Text}

theorem of_head (h : ∀ d ∈ u.head?, isIdChar d = false) : Apart t u := fun _ _ d hd _ => h d hd

theorem of_last (h : ∀ c ∈ t.getLast?, isIdChar c = false) : Apart t u := by
  intro c hc _ _ hid
  rw [h c hc] at hid
  cases hid

theorem of_suffix {v : Text} (h : Apart t u) (hv : v <:+ t) : Apart v u := by
  obtain ⟨w, rfl⟩ := hv
  intro c hc
  refine h c ?_
  rwa [List.getLast?_append_of_ne_nil w (by rintro rfl; cases hc)]

/-- What stands behind the characters at the start of a text that satisfy `p`, no id characters, is
apart from all before it if the text is. -/
theorem dropWhile {p : Char → Bool} (h : Apart t u) (hp : ∀ c, p c = true → isIdChar c = false) :
    Apart (t ++ u.takeWhile p) (u.dropWhile p) := by
  by_cases hnil : u.takeWhile p = []
  · have hu := List.takeWhile_append_dropWhile (p := p) (l := u)
    rw [hnil, List.nil_append] at hu
    rwa [hnil, hu, List.append_nil]
  · refine of_last fun c hc => hp c ?_
    rw [List.getLast?_append_of_ne_nil _ hnil] at hc
    exact List.mem_takeWhile_imp (List.mem_of_getLast? hc)

end Apart

namespace IsRun

variable {id t u : Text}

/-- A run of a text is one of the longer text, if no id goes on at its end. -/
theorem append (h : IsRun id t) (hu : Apart t u) : IsRun id (t ++ u) := by
  obtain ⟨hid, a, b, rfl, ha, hb⟩ := h
  refine ⟨hid, a, b ++ u, by simp, ha, fun c hc => ?_⟩
  cases b with
  | nil =>
    -- The run ends where the texts meet.
    have hlast : id.getLast hid.ne_nil ∈ (a ++ id ++ []).getLast? := by
      rw [List.append_nil, List.getLast?_append_of_ne_nil _ hid.ne_nil]
      exact List.getLast?_eq_some_getLast hid.ne_nil
    exact hu _ hlast c hc (hid.isIdChar _ (List.getLast_mem hid.ne_nil))
  | cons d b => exact hb c hc

/-- A run of a text is one of the longer text, if no id goes on at its start. -/
theorem behind (h : IsRun id u) (ht : Apart t u) : IsRun id (t ++ u) := by
  obtain ⟨hid, a, b, rfl, ha, hb⟩ := h
  refine ⟨hid, t ++ a, b, by simp, fun c hc => ?_, hb⟩
  cases a with
  | nil =>
    rw [List.append_nil] at hc
    obtain ⟨d, id, rfl⟩ := List.exists_cons_of_ne_nil hid.ne_nil
    by_contra hid'
    have := ht c hc d rfl (by simpa using hid')
    rw [hid.isIdChar d List.mem_cons_self] at this
    cases this
  | cons d a =>
    rw [List.getLast?_append_of_ne_nil _ (by simp)] at hc
    exact ha c hc

/-- Between other characters than those of ids, a text keeps its runs. -/
theorem surround {a b : Text} (h : IsRun id t) (ha : ∀ c ∈ a.getLast?, isIdChar c = false)
    (hb : ∀ c ∈ b.head?, isIdChar c = false) : IsRun id (a ++ t ++ b) :=
  (h.behind (.of_last ha)).append (.of_head hb)

/-- The id that a text opens with is a run. -/
theorem leadingId (h : Text.leadingId t ≠ []) : IsRun (Text.leadingId t) t where
  isId := isId_leadingId h
  maximal :=
    ⟨[], afterId t, (leadingId_append_afterId t).symm, by simp, of_head?_dropWhile t⟩

end IsRun

/-! ## The ids of a text -/

theorem isRun_of_mem_ids {id t : Text} (h : id ∈ ids t) : IsRun id t := by
  fun_induction ids t with
  | case1 => cases h
  | case2 c t hc ih =>
    have htext : c :: t = (c :: leadingId t) ++ afterId t :=
      congrArg (c :: ·) (leadingId_append_afterId t).symm
    rcases List.mem_cons.1 h with rfl | h
    · have hid := leadingId_cons hc t
      exact hid ▸ .leadingId (by simp [hid])
    · rw [htext]
      exact (ih h).behind (.of_head (of_head?_dropWhile t))
  | case3 c t hc ih => exact (ih h).behind (t := [c]) (.of_last (by rintro d ⟨⟩; simpa using hc))

theorem IsRun.mem_ids {id t : Text} (h : IsRun id t) : id ∈ ids t := by
  obtain ⟨hid, u, v, ht, hu, hv⟩ := h
  fun_induction ids t generalizing u with
  | case1 =>
    have hnil : u = [] ∧ id = [] ∧ v = [] := by simpa using ht
    exact absurd hnil.2.1 hid.ne_nil
  | case2 c t hc ih =>
    cases u with
    | nil =>
      have hlead := leadingId_append hid.isIdChar hv
      rw [List.nil_append] at ht
      rw [← ht, leadingId_cons hc] at hlead
      exact hlead ▸ List.mem_cons_self
    | cons d u =>
      obtain ⟨rfl, ht⟩ := List.cons_eq_cons.1 ht
      -- The text before the id ends in a character of no id, at which the first run has ended.
      rcases List.eq_nil_or_concat' u with rfl | ⟨u, e, rfl⟩
      · rw [hu c rfl] at hc
        cases hc
      have he : isIdChar e = false := hu e (by rw [← List.cons_append, List.getLast?_concat]; rfl)
      refine List.mem_cons_of_mem _ (ih (u.dropWhile isIdChar ++ [e]) ?_ (by simpa using he))
      have ht : t = u ++ e :: (id ++ v) := by simpa using ht
      rw [ht, afterId_append_stop u (by simp [he]), afterId]
      simp
  | case3 c t hc ih =>
    cases u with
    | nil =>
      obtain ⟨d, id, rfl⟩ := List.exists_cons_of_ne_nil hid.ne_nil
      obtain ⟨rfl, -⟩ := List.cons_eq_cons.1 ht
      exact absurd (hid.isIdChar _ List.mem_cons_self) hc
    | cons d u =>
      obtain ⟨rfl, rfl⟩ := List.cons_eq_cons.1 ht
      refine ih u rfl fun e hlast => hu e ?_
      cases u with
      | nil => cases hlast
      | cons f u => exact hlast

/-- The ids of a text are its runs. -/
theorem mem_ids_iff {id t : Text} : id ∈ ids t ↔ IsRun id t := ⟨isRun_of_mem_ids, IsRun.mem_ids⟩

/-! ## The ids of the parts of a text -/

theorem ids_of_not_id {t : Text} (h : ∀ c ∈ t, isIdChar c = false) : ids t = [] := by
  induction t with
  | nil => rw [ids]
  | cons c t ih =>
    rw [ids, if_neg (by simp [h c]), ih fun d hd => h d (List.mem_cons_of_mem c hd)]

/-- Texts that are apart keep their ids. -/
theorem ids_append {t u : Text} (h : Apart t u) : ids (t ++ u) = ids t ++ ids u := by
  fun_induction ids t with
  | case1 => rfl
  | case2 c t hc ih =>
    -- The first run ends before the second text, or where the texts meet.
    have hhead : ∀ d ∈ (afterId t ++ u).head?, isIdChar d = false := by
      cases hrest : afterId t with
      | nil =>
        have ht := leadingId_append_afterId t
        rw [hrest, List.append_nil] at ht
        refine fun d hd => h _ (List.getLast?_eq_some_getLast (List.cons_ne_nil c t)) d hd ?_
        rcases List.mem_cons.1 (List.getLast_mem (List.cons_ne_nil c t)) with heq | hmem
        · rwa [heq]
        · exact isIdChar_leadingId t _ (ht.symm ▸ hmem)
      | cons e rest =>
        rintro d ⟨⟩
        exact of_head?_dropWhile t _ (by rw [← afterId, hrest]; rfl)
    have hlead := leadingId_append_of_head? hhead
    have hafter := afterId_append_of_head? hhead
    have hsuffix : afterId t <:+ c :: t :=
      (List.dropWhile_suffix isIdChar).trans (List.suffix_cons c t)
    rw [List.cons_append, ids, if_pos hc, hlead, hafter, ih (h.of_suffix hsuffix),
      List.cons_append]
  | case3 c t hc ih =>
    rw [List.cons_append, ids, if_neg hc, ih (h.of_suffix (List.suffix_cons c t))]

theorem ids_trim (t : Text) : ids (trim t) = ids t := by
  obtain ⟨a, b, ht, ha, hb⟩ := exists_trim t
  have ha' : ∀ c ∈ a, isIdChar c = false := fun c hc => not_id_of_isBlank (ha c hc)
  have hb' : ∀ c ∈ b, isIdChar c = false := fun c hc => not_id_of_isBlank (hb c hc)
  conv => rhs; rw [ht]
  rw [ids_append (.of_head fun c hc => hb' c (List.mem_of_mem_head? hc)),
    ids_append (.of_last fun c hc => ha' c (List.mem_of_getLast? hc)), ids_of_not_id ha',
    ids_of_not_id hb', List.nil_append, List.append_nil]

theorem ids_eq_flatMap_lines (t : Text) : ids t = (lines t).flatMap ids := by
  generalize hls : lines t = ls
  induction ls generalizing t with
  | nil => rw [lines_eq_nil hls, ids, List.flatMap_nil]
  | cons l ls ih =>
    obtain ⟨b, rest, rfl, hb, hend, hrest⟩ := exists_of_lines_cons hls
    have hb' : ∀ c ∈ b, isIdChar c = false := fun c hc => not_id_of_isBreak (hb c hc)
    rw [ids_append (.of_head fun c hc => not_id_of_isBreak (isBreak_of_head? hb hend c hc)),
      ids_append (.of_last fun c hc => hb' c (List.mem_of_getLast? hc)), ids_of_not_id hb',
      List.nil_append, ih rest hrest, List.flatMap_cons]

/-- The ids of a text are those of its statements: none is lost or joined to another one by breaks,
blank lines and blanks around lines. -/
theorem ids_eq_flatMap_statements (t : Text) : ids t = (statements t).flatMap ids := by
  rw [flatMap_statements (by rw [ids]), ids_eq_flatMap_lines]
  exact List.flatMap_congr fun l _ => (ids_trim l).symm

namespace IsRun

variable {id t : Text}

theorem of_trim (h : IsRun id (trim t)) : IsRun id t := by
  rwa [← mem_ids_iff, ids_trim, mem_ids_iff] at h

theorem of_mem_statements {l : Text} (h : IsRun id l) (hl : l ∈ statements t) : IsRun id t := by
  rw [← mem_ids_iff, ids_eq_flatMap_statements]
  exact List.mem_flatMap.2 ⟨l, hl, h.mem_ids⟩

end IsRun

end Flowmend.Text
