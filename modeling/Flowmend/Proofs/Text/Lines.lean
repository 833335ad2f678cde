import Flowmend.Proofs.Text.Scan
import Flowmend.Text.Lines

/-!
# Lines of a written text

A text written line by line is read back as these lines (`lines_unlines`), if none of them is empty
or holds a break (`OneLine`); with their numbers, if they are trimmed as well (`IsLine`,
`numberedLines_unlines`). In any text a break or the end stands behind the first line, and the other
lines behind that break (`exists_of_lines_cons`).
-/

namespace Flowmend.Text

/-- The text stands on one line. -/
def OneLine (t : Text) : Prop := ∀ c ∈ t, isBreak c = false

theorem OneLine.within {t u : Text} (h : OneLine t) (hu : u <:+: t) : OneLine u :=
  fun c hc => h c (hu.subset hc)

theorem OneLine.append {t u : Text} (ht : OneLine t) (hu : OneLine u) : OneLine (t ++ u) :=
  fun c hc => (List.mem_append.1 hc).elim (ht c) (hu c)

/-- A line as it stands in a document: trimmed, not empty, and without breaks. -/
structure IsLine (l : Text) : Prop where
  ne_nil : l ≠ []
  trimmed : Trimmed l
  not_break : ∀ c ∈ l, isBreak c = false

/-- A trimmed stretch of a text without breaks is a line, if it is not empty. -/
theorem isLine_of_stretch {t u : Text} (ht : ∀ c ∈ t, isBreak c = false) (hu : u <:+: t)
    (hne : u ≠ []) (htrim : Trimmed u) : IsLine u :=
  ⟨hne, htrim, fun c hc => ht c (hu.subset hc)⟩

theorem IsLine.within {l t : Text} (h : IsLine l) (ht : t <:+: l) (hne : t ≠ [])
    (htrim : Trimmed t) : IsLine t := isLine_of_stretch h.not_break ht hne htrim

/-- What a line ends with is a line, if it does not start with a blank. -/
theorem IsLine.of_suffix {l t : Text} (h : IsLine l) (ht : t <:+ l) (hne : t ≠ [])
    (hhead : ∀ c ∈ t.head?, isBlank c = false) : IsLine t := by
  obtain ⟨p, rfl⟩ := ht
  refine h.within (List.suffix_append p t).isInfix hne ⟨hhead, fun c hc => h.trimmed.2 c ?_⟩
  rwa [List.getLast?_append_of_ne_nil p hne]

theorem IsLine.trim_append_space {l : Text} (h : IsLine l) : trim (l ++ [' ']) = l := by
  have := h.trimmed.trim_append h.ne_nil (a := []) (b := [' ']) (by simp) (by decide)
  rwa [List.nil_append] at this

theorem IsLine.trim_space_cons {l : Text} (h : IsLine l) : trim (' ' :: l) = l := by
  have := h.trimmed.trim_append h.ne_nil (a := [' ']) (b := []) (by decide) (by simp)
  rwa [List.append_nil] at this

theorem lines_cons_of_not_break {c : Char} (t : Text) (h : isBreak c = false) :
    lines (c :: t) =
      match lines t with
      | [] => [[c]]
      | l :: ls => (c :: l) :: ls := by
  rw [lines.eq_def]
  split
  · rename_i he; cases he
  · rename_i he; cases he; simp [isBreak] at h
  · rename_i he
    cases he
    exact (if_neg (by simp [h])).trans (by cases lines t <;> rfl)

theorem lines_of_not_break {l : Text} (hne : l ≠ []) (h : ∀ c ∈ l, isBreak c = false) :
    lines l = [l] := by
  induction l with
  | nil => exact absurd rfl hne
  | cons c l ih =>
    rw [lines_cons_of_not_break l (h c List.mem_cons_self)]
    cases l with
    | nil => rfl
    | cons d l => rw [ih (by simp) fun e he => h e (List.mem_cons_of_mem c he)]

theorem lines_append_newline {l : Text} (h : ∀ c ∈ l, isBreak c = false) (t : Text) :
    lines (l ++ '\n' :: t) = l :: lines t := by
  induction l with
  | nil => rfl
  | cons c l ih =>
    rw [List.cons_append, lines_cons_of_not_break _ (h c List.mem_cons_self),
      ih fun d hd => h d (List.mem_cons_of_mem c hd)]

theorem unlines_cons {l : Text} {ls : List Text} (h : ls ≠ []) :
    unlines (l :: ls) = l ++ '\n' :: unlines ls := by
  obtain ⟨m, ms, rfl⟩ := List.exists_cons_of_ne_nil h
  simp [unlines, join]

/-- What stands behind the last line stands behind the text. -/
theorem unlines_concat_append (init : List Text) (last u : Text) :
    unlines (init ++ [last ++ u]) = unlines (init ++ [last]) ++ u := by
  induction init with
  | nil => simp [unlines, join]
  | cons l init ih =>
    rw [List.cons_append, List.cons_append, unlines_cons (by simp), unlines_cons (by simp), ih]
    simp

/-- Texts on one line each that are not empty are read back one by one. -/
theorem lines_unlines {ls : List Text} (h : ∀ l ∈ ls, l ≠ [] ∧ OneLine l) :
    lines (unlines ls) = ls := by
  induction ls with
  | nil => rfl
  | cons l ls ih =>
    obtain ⟨hne, hl⟩ := h l List.mem_cons_self
    by_cases hls : ls = []
    · subst hls
      exact lines_of_not_break hne hl
    · rw [unlines_cons hls, lines_append_newline hl, ih fun m hm => h m (List.mem_cons_of_mem l hm)]

/-- A text written line by line, with a line feed at its end, is read back as these lines. -/
theorem lines_unlines_append_newline {ls : List Text} (hne : ls ≠ [])
    (h : ∀ l ∈ ls, ∀ c ∈ l, isBreak c = false) : lines (unlines ls ++ ['\n']) = ls := by
  induction ls with
  | nil => exact absurd rfl hne
  | cons l ls ih =>
    have hl := h l List.mem_cons_self
    by_cases hls : ls = []
    · subst hls
      exact lines_append_newline hl []
    · rw [unlines_cons hls, List.append_assoc, List.cons_append, lines_append_newline hl,
        ih hls fun m hm => h m (List.mem_cons_of_mem l hm)]

/-- The lines of a text written line by line, each trimmed and with its number, if none of them is
blank. -/
theorem numberedLines_unlines_of_oneLine {ls : List Text}
    (h : ∀ l ∈ ls, trim l ≠ [] ∧ OneLine l) :
    numberedLines (unlines ls) = (ls.zipIdx 1).map fun (l, n) => (n, trim l) := by
  have hne : ∀ l ∈ ls, l ≠ [] := by
    rintro l hl rfl
    exact (h [] hl).1 rfl
  rw [numberedLines, lines_unlines fun l hl => ⟨hne l hl, (h l hl).2⟩,
    ← List.filterMap_eq_map]
  refine List.filterMap_congr fun ⟨l, n⟩ hmem => ?_
  simp [(h l (List.fst_mem_of_mem_zipIdx hmem)).1]

theorem numberedLines_unlines {ls : List Text} (h : ∀ l ∈ ls, IsLine l) :
    numberedLines (unlines ls) = (ls.zipIdx 1).map fun (l, n) => (n, l) := by
  have htrim : ∀ l ∈ ls, trim l = l := fun l hl => (h l hl).trimmed.trim_eq
  rw [numberedLines_unlines_of_oneLine fun l hl =>
    ⟨(htrim l hl).symm ▸ (h l hl).ne_nil, (h l hl).not_break⟩]
  exact List.map_congr_left fun ⟨l, n⟩ hmem =>
    congrArg (n, ·) (htrim l (List.fst_mem_of_mem_zipIdx hmem))

/-! ## Statements -/

/-- The trimmed lines of a text that are not blank. -/
def statements (t : Text) : List Text := (numberedLines t).map Prod.snd

/-- The statement of a line, if it is not blank. -/
def statement? (l : Text) : Option Text := if (trim l).isEmpty then none else some (trim l)

theorem statements_eq (t : Text) : statements t = (lines t).filterMap statement? := by
  have hfst : (lines t).filterMap statement? =
      ((lines t).zipIdx 1).filterMap fun p => statement? p.1 := by
    conv => lhs; rw [← List.zipIdx_map_fst 1 (lines t), List.filterMap_map]
    rfl
  rw [statements, numberedLines, List.map_filterMap, hfst]
  refine List.filterMap_congr fun p _ => ?_
  unfold statement?
  simp only []
  split <;> rfl

/-- A function that gives nothing for blank lines can be read off the lines, trimmed. -/
theorem flatMap_statements {α : Type} {f : Text → List α} (hf : f [] = []) (t : Text) :
    t.statements.flatMap f = t.lines.flatMap fun l => f (trim l) := by
  rw [statements_eq]
  induction lines t with
  | nil => rfl
  | cons l ls ih =>
    rw [List.filterMap_cons, List.flatMap_cons, ← ih, statement?]
    by_cases hblank : trim l = []
    · simp [hblank, hf]
    · simp [hblank]

theorem IsLine.statement?_eq {l : Text} (h : IsLine l) : statement? l = some l := by
  rw [statement?, h.trimmed.trim_eq, if_neg (by simpa using h.ne_nil)]

theorem IsLine.statements_eq {l : Text} (h : IsLine l) : statements l = [l] := by
  rw [Text.statements_eq, lines_of_not_break h.ne_nil h.not_break, List.filterMap_cons,
    h.statement?_eq]
  rfl

theorem not_break_of_mem_lines {t l : Text} (h : l ∈ lines t) : ∀ c ∈ l, isBreak c = false := by
  fun_induction lines t generalizing l with
  | case1 => cases h
  | case2 t ih =>
    rcases List.mem_cons.1 h with rfl | h
    · simp
    · exact ih h
  | case3 c t _ _ ih =>
    rcases List.mem_cons.1 h with rfl | h
    · simp
    · exact ih h
  | case4 c t _ hbreak hnil ih =>
    obtain rfl := List.mem_singleton.1 h
    simpa using hbreak
  | case5 c t _ hbreak m ms hcons ih =>
    rw [hcons] at ih
    rcases List.mem_cons.1 h with rfl | h
    · intro d hd
      rcases List.mem_cons.1 hd with rfl | hd
      · simpa using hbreak
      · exact ih List.mem_cons_self d hd
    · exact ih (List.mem_cons_of_mem m h)

theorem mem_of_mem_lines {t l : Text} (h : l ∈ lines t) : ∀ c ∈ l, c ∈ t := by
  fun_induction lines t generalizing l with
  | case1 => cases h
  | case2 t ih =>
    rcases List.mem_cons.1 h with rfl | h
    · simp
    · exact fun c hc => List.mem_cons_of_mem _ (List.mem_cons_of_mem _ (ih h c hc))
  | case3 c t _ _ ih =>
    rcases List.mem_cons.1 h with rfl | h
    · simp
    · exact fun d hd => List.mem_cons_of_mem c (ih h d hd)
  | case4 c t _ _ _ ih =>
    obtain rfl := List.mem_singleton.1 h
    exact fun d hd => List.mem_singleton.1 hd ▸ List.mem_cons_self
  | case5 c t _ _ m ms hcons ih =>
    rw [hcons] at ih
    rcases List.mem_cons.1 h with rfl | h
    · intro d hd
      rcases List.mem_cons.1 hd with rfl | hd
      · exact List.mem_cons_self
      · exact List.mem_cons_of_mem c (ih List.mem_cons_self d hd)
    · exact fun d hd => List.mem_cons_of_mem c (ih (List.mem_cons_of_mem m h) d hd)

/-- A blank text has no lines to read. -/
theorem numberedLines_of_allBlank {t : Text} (h : allBlank t = true) : numberedLines t = [] := by
  refine List.filterMap_eq_nil_iff.2 fun p hp => ?_
  have htrim : trim p.1 = [] := by
    have hline := mem_of_mem_lines (List.fst_mem_of_mem_zipIdx hp)
    have hstart : trimStart p.1 = [] := List.dropWhile_eq_nil_iff.2 fun c hc =>
      List.all_eq_true.1 h c (hline c hc)
    rw [trim, hstart]
    rfl
  simp [htrim]

/-- The statements of a text are lines as they stand in a document. -/
theorem isLine_of_mem_statements {t l : Text} (h : l ∈ statements t) : IsLine l := by
  rw [statements_eq] at h
  obtain ⟨u, hu, h⟩ := List.mem_filterMap.1 h
  unfold statement? at h
  split at h
  · cases h
  · rename_i hne
    cases h
    exact ⟨by simpa using hne, trimmed_trim u, fun c hc =>
      not_break_of_mem_lines hu c ((infix_trim u).subset hc)⟩

theorem lines_cons_of_break {c : Char} {t : Text} (h : isBreak c = true)
    (hc : c ≠ '\r' ∨ '\n' ∉ t.head?) : lines (c :: t) = [] :: lines t := by
  rw [lines.eq_def]
  split
  · rename_i he; cases he
  · rename_i he; cases he; simp at hc
  · rename_i he
    cases he
    rw [if_pos h]

/-- A break that is not the first half of a pair stays whole in front of more text, if a carriage
return at its end does not meet a line feed there. -/
theorem not_paired_append {c : Char} {t w : Text} (hnot : ∀ u, c = '\r' → t = '\n' :: u → False)
    (hw : c = '\r' → t = [] → '\n' ∉ w.head?) : c ≠ '\r' ∨ '\n' ∉ (t ++ w).head? := by
  by_cases hc : c = '\r'
  · refine .inr fun hhead => ?_
    cases t with
    | nil => exact hw hc rfl hhead
    | cons d t =>
      cases hhead
      exact hnot t hc rfl
  · exact .inl hc

/-- A line feed ends the line before it, or is part of its break. -/
theorem lines_append (t u : Text) : ∃ m, m ≠ [] ∧ lines (t ++ '\n' :: u) = m ++ lines u ∧
    (m = lines t ∨ m = lines t ++ [[]]) := by
  fun_induction lines t with
  | case1 => exact ⟨[[]], by simp, rfl, .inr rfl⟩
  | case2 t ih =>
    obtain ⟨m, -, hm, hlines⟩ := ih
    refine ⟨[] :: m, by simp, ?_, ?_⟩
    · exact congrArg ([] :: ·) hm
    · rcases hlines with rfl | rfl
      · exact .inl rfl
      · exact .inr rfl
  | case3 c t hnot hbreak ih =>
    by_cases hreturn : c = '\r' ∧ t = []
    · obtain ⟨rfl, rfl⟩ := hreturn
      exact ⟨[[]], by simp, rfl, .inl rfl⟩
    · obtain ⟨m, -, hm, hlines⟩ := ih
      refine ⟨[] :: m, by simp, ?_, ?_⟩
      · have hc := not_paired_append (w := '\n' :: u) hnot fun hc ht => absurd ⟨hc, ht⟩ hreturn
        rw [List.cons_append, lines_cons_of_break hbreak hc, hm, List.cons_append]
      · rcases hlines with rfl | rfl
        · exact .inl rfl
        · exact .inr rfl
  | case4 c t _ hbreak hnil ih =>
    obtain ⟨m, hne, hm, hlines⟩ := ih
    have hm' : m = [[]] := by
      rcases hlines with rfl | rfl
      · exact absurd hnil hne
      · rw [hnil]
        rfl
    refine ⟨[[c]], by simp, ?_, .inl rfl⟩
    rw [List.cons_append, lines_cons_of_not_break _ (by simpa using hbreak), hm, hm']
    rfl
  | case5 c t _ hbreak l ls hcons ih =>
    obtain ⟨m, -, hm, hlines⟩ := ih
    rw [hcons] at hlines
    rcases hlines with rfl | rfl
    · refine ⟨(c :: l) :: ls, by simp, ?_, .inl rfl⟩
      rw [List.cons_append, lines_cons_of_not_break _ (by simpa using hbreak), hm]
      rfl
    · refine ⟨(c :: l) :: (ls ++ [[]]), by simp, ?_, .inr rfl⟩
      rw [List.cons_append, lines_cons_of_not_break _ (by simpa using hbreak), hm]
      rfl

/-- A text without breaks goes on the last line of the text before it, or starts a line behind its
last break. -/
theorem exists_lines_append {w : Text} (hw : ∀ c ∈ w, isBreak c = false) (hne : w ≠ []) (t : Text) :
    ∃ init last, lines (t ++ w) = init ++ [last ++ w] ∧
      (lines t = init ++ [last] ∨ last = [] ∧ lines t = init) := by
  fun_induction lines t with
  | case1 => exact ⟨[], [], lines_of_not_break hne hw, .inr ⟨rfl, rfl⟩⟩
  | case2 t ih =>
    obtain ⟨init, last, hlong, hlines⟩ := ih
    exact ⟨[] :: init, last, congrArg ([] :: ·) hlong,
      hlines.imp (congrArg ([] :: ·)) (And.imp_right (congrArg ([] :: ·)))⟩
  | case3 c t hnot hbreak ih =>
    obtain ⟨init, last, hlong, hlines⟩ := ih
    have hc := not_paired_append (w := w) hnot fun _ _ hhead =>
      absurd (hw '\n' (List.mem_of_mem_head? hhead)) (by decide)
    refine ⟨[] :: init, last, ?_, hlines.imp (congrArg ([] :: ·))
      (And.imp_right (congrArg ([] :: ·)))⟩
    rw [List.cons_append, lines_cons_of_break hbreak hc, hlong]
    rfl
  | case4 c t _ hbreak hnil ih =>
    obtain ⟨init, last, hlong, hlines⟩ := ih
    obtain ⟨rfl, rfl⟩ : last = [] ∧ [] = init := hlines.resolve_left (by simp [hnil]) |>.imp_right
      fun h => hnil ▸ h
    refine ⟨[], [c], ?_, .inl rfl⟩
    rw [List.cons_append, lines_cons_of_not_break _ (by simpa using hbreak), hlong]
    rfl
  | case5 c t _ hbreak l ls hcons ih =>
    obtain ⟨init, last, hlong, hlines⟩ := ih
    rw [List.cons_append, lines_cons_of_not_break _ (by simpa using hbreak), hlong]
    rw [hcons] at hlines
    cases init with
    | nil =>
      obtain ⟨rfl, rfl⟩ : l = last ∧ ls = [] := by simpa using hlines
      exact ⟨[], c :: l, rfl, .inl rfl⟩
    | cons m init =>
      rcases hlines with h | ⟨rfl, h⟩
      · obtain ⟨rfl, rfl⟩ := List.cons_eq_cons.1 h
        exact ⟨(c :: l) :: init, last, rfl, .inl rfl⟩
      · obtain ⟨rfl, rfl⟩ := List.cons_eq_cons.1 h
        exact ⟨(c :: l) :: ls, [], rfl, .inr ⟨rfl, rfl⟩⟩

/-- Lines that a line feed parts are read one by one. -/
theorem statements_append_newline (t u : Text) :
    statements (t ++ '\n' :: u) = statements t ++ statements u := by
  obtain ⟨m, -, hm, hlines⟩ := lines_append t u
  rw [statements_eq, statements_eq, statements_eq, hm, List.filterMap_append]
  rcases hlines with rfl | rfl
  · rfl
  · rw [List.filterMap_append]
    exact congrArg (· ++ _) (List.append_nil _)

/-- The statements of a text written line by line are those of its lines. -/
theorem statements_unlines (ls : List Text) : statements (unlines ls) = ls.flatMap statements := by
  induction ls with
  | nil => rfl
  | cons l ls ih =>
    by_cases hls : ls = []
    · subst hls
      simp [unlines, join]
    · rw [unlines_cons hls, statements_append_newline, ih, List.flatMap_cons]

theorem statements_unlines_of_isLine {ls : List Text} (h : ∀ l ∈ ls, IsLine l) :
    statements (unlines ls) = ls := by
  rw [statements_unlines, List.flatMap_congr fun l hl => (h l hl).statements_eq,
    List.flatMap_singleton']

/-! ## Lines between breaks -/

theorem isBlank_of_isBreak {c : Char} (h : isBreak c = true) : isBlank c = true := by
  simp only [isBreak, isBlank, Bool.or_eq_true, Bool.and_eq_true, decide_eq_true_eq,
    beq_iff_eq] at h ⊢
  omega

theorem lines_eq_nil {t : Text} (h : lines t = []) : t = [] := by
  rw [lines.eq_def] at h
  split at h
  · rfl
  · cases h
  · split at h
    · cases h
    · split at h <;> cases h

/-- The first line goes up to a break, behind which the other lines stand, or to the end. -/
theorem exists_of_lines_cons {t l : Text} {ls : List Text} (h : lines t = l :: ls) :
    ∃ b rest, t = l ++ (b ++ rest) ∧ (∀ c ∈ b, isBreak c = true) ∧ (b = [] → rest = []) ∧
      lines rest = ls := by
  fun_induction lines t generalizing l with
  | case1 => cases h
  | case2 t =>
    obtain ⟨rfl, rfl⟩ := List.cons_eq_cons.1 h
    exact ⟨['\r', '\n'], t, rfl, by decide, by simp, rfl⟩
  | case3 c t _ hbreak =>
    obtain ⟨rfl, rfl⟩ := List.cons_eq_cons.1 h
    exact ⟨[c], t, rfl, by simpa using hbreak, by simp, rfl⟩
  | case4 c t _ _ hnil =>
    obtain ⟨rfl, rfl⟩ := List.cons_eq_cons.1 h
    obtain rfl := lines_eq_nil hnil
    exact ⟨[], [], rfl, by simp, fun _ => rfl, rfl⟩
  | case5 c t _ _ m ms hcons ih =>
    obtain ⟨rfl, rfl⟩ := List.cons_eq_cons.1 h
    obtain ⟨b, rest, ht, hb⟩ := ih hcons
    exact ⟨b, rest, congrArg (c :: ·) ht, hb⟩

theorem isBreak_of_head? {b rest : Text} (hb : ∀ c ∈ b, isBreak c = true)
    (hend : b = [] → rest = []) : ∀ c ∈ (b ++ rest).head?, isBreak c = true := by
  cases b with
  | nil => simp [hend rfl]
  | cons d b =>
    rintro c ⟨⟩
    exact hb _ List.mem_cons_self

/-- The first statement of a text that does not start with a blank: behind it stand blanks, and then
a break or the end. -/
theorem exists_statements_cons {t : Text} (hne : t ≠ [])
    (hhead : ∀ c ∈ t.head?, isBlank c = false) :
    ∃ s b rest ss, statements t = s :: ss ∧ t = s ++ (b ++ rest) ∧ (∀ c ∈ b, isBlank c = true) ∧
      ∀ c ∈ rest.head?, isBreak c = true := by
  obtain ⟨l, ls, hls⟩ := List.exists_cons_of_ne_nil (mt lines_eq_nil hne)
  obtain ⟨w, rest, rfl, hw, hend, -⟩ := exists_of_lines_cons hls
  have hbreak := isBreak_of_head? hw hend
  obtain ⟨c, l, rfl⟩ : ∃ c u, l = c :: u := by
    refine List.exists_cons_of_ne_nil ?_
    rintro rfl
    obtain ⟨c, u, hcons⟩ := List.exists_cons_of_ne_nil hne
    rw [List.nil_append] at hcons hhead
    rw [hcons] at hbreak hhead
    have := hhead c rfl
    rw [isBlank_of_isBreak (hbreak c rfl)] at this
    cases this
  have hc : isBlank c = false := hhead c rfl
  obtain ⟨b, htrim, hb⟩ := exists_trim_of_head (t := c :: l) (by rintro d ⟨⟩; exact hc)
  have hs : trim (c :: l) ≠ [] := by
    intro hnil
    rw [hnil, List.nil_append] at htrim
    rw [hb c (htrim ▸ List.mem_cons_self)] at hc
    cases hc
  refine ⟨trim (c :: l), b, w ++ rest, ls.filterMap statement?, ?_, ?_, hb, hbreak⟩
  · rw [statements_eq, hls, List.filterMap_cons, statement?, if_neg (by simpa using hs)]
  · conv => lhs; rw [htrim]
    rw [List.append_assoc]

/-- Behind a text stand blanks, and then a break or the end: so its second character is blank as
well, if the first one is no break. -/
theorem isBlank_of_cons_cons {b rest t : Text} {c d : Char} (hb : ∀ c ∈ b, isBlank c = true)
    (hrest : ∀ c ∈ rest.head?, isBreak c = true) (hc : isBreak c = false)
    (h : b ++ rest = c :: d :: t) : isBlank d = true := by
  rcases b with _ | ⟨e, _ | ⟨f, b⟩⟩
  · rw [List.nil_append] at h
    rw [hrest c (h ▸ rfl)] at hc
    cases hc
  · have htail : rest = d :: t := (List.cons_eq_cons.1 h).2
    exact isBlank_of_isBreak (hrest d (htail ▸ rfl))
  · obtain rfl : f = d := (List.cons_eq_cons.1 (List.cons_eq_cons.1 h).2).1
    exact hb f (by simp)

/-! ## Line numbers -/

/-- The lines that are not blank, each with its number. -/
theorem mem_numberedLines {t : Text} {n : Nat} {l : Text} : (n, l) ∈ numberedLines t ↔
    ∃ i raw, (lines t)[i]? = some raw ∧ n = i + 1 ∧ l = trim raw ∧ l ≠ [] := by
  unfold numberedLines
  rw [List.mem_filterMap]
  constructor
  · rintro ⟨⟨raw, m⟩, hmem, h⟩
    obtain ⟨i, hi, rfl⟩ : ∃ i, (lines t)[i]? = some raw ∧ m = i + 1 := by
      obtain ⟨hle, hi⟩ := List.mk_mem_zipIdx_iff_le_and_getElem?_sub.1 hmem
      exact ⟨m - 1, hi, by omega⟩
    simp only [] at h
    split at h
    · cases h
    · rename_i hne
      cases h
      exact ⟨i, raw, hi, rfl, rfl, by simpa using hne⟩
  · rintro ⟨i, raw, hi, rfl, rfl, hne⟩
    refine ⟨(raw, i + 1), List.mk_mem_zipIdx_iff_le_and_getElem?_sub.2 ⟨by omega, hi⟩, ?_⟩
    simp [hne]

theorem bounds_of_mem_numberedLines {t : Text} {n : Nat} {l : Text} (h : (n, l) ∈ numberedLines t) :
    1 ≤ n ∧ n ≤ (lines t).length := by
  obtain ⟨i, raw, hi, rfl, -⟩ := mem_numberedLines.1 h
  exact ⟨Nat.le_add_left .., (List.getElem?_eq_some_iff.1 hi).1⟩

/-- The numbers of lines go up. -/
theorem pairwise_numberedLines (t : Text) : (numberedLines t).Pairwise fun p q => p.1 < q.1 := by
  have hnumbers : ((lines t).zipIdx 1).Pairwise fun p q => p.2 < q.2 := by
    rw [← List.pairwise_map (f := Prod.snd), List.zipIdx_map_snd]
    exact List.pairwise_lt_range'
  refine hnumbers.filterMap _ fun p q hpq a ha b hb => ?_
  simp only [] at ha hb
  split at ha
  · cases ha
  split at hb
  · cases hb
  cases ha
  cases hb
  exact hpq

end Flowmend.Text
