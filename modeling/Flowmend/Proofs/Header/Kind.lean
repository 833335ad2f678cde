import Flowmend.Proofs.Header

/-!
# The kind that a text names

A line names the kind of the one header that it starts with, if what follows ends the header
(`Header.kind?_eq_some_iff`). A text names the kind of its first line that is neither blank nor a
comment; read from that line on, the blanks behind it and the other lines make no difference
(`Header.ofSource?_unlines`).
-/

namespace Flowmend

open Text

namespace Header

/-! ## Headers -/

/-- The directions of flowcharts, as headers name them. -/
def directions : List Text := ["TD", "TB", "BT", "LR", "RL"].map String.toList

theorem isIdChar_of_mem_directions : ∀ d ∈ directions, ∀ c ∈ d, isIdChar c = true := by decide

theorem exists_cons_of_mem_directions {d : Text} (h : d ∈ directions) :
    ∃ c t, d = c :: t ∧ isBlank c = false := by
  have hne : ∀ d ∈ directions, d ≠ [] := by decide
  obtain ⟨c, t, rfl⟩ := List.exists_cons_of_ne_nil (hne d h)
  exact ⟨c, t, rfl, isBlank_of_isIdChar (isIdChar_of_mem_directions _ h c List.mem_cons_self)⟩

/-- A header is one word, or a flowchart keyword and a direction with one space between them. -/
theorem of_mem_table : ∀ p ∈ table.map Prod.fst,
    (∀ c ∈ p, isIdChar c = true) ∨ ∃ w ∈ flowchartWords, ∃ d ∈ directions, p = w ++ ' ' :: d := by
  decide

/-- The only blank of a header is the space before the direction. -/
theorem blank_of_mem_table {s x : Text} {c : Char} (hp : s ++ c :: x ∈ table.map Prod.fst)
    (hc : isBlank c = true) : c = ' ' ∧ x ∈ directions := by
  have hnot : isIdChar c ≠ true := by simp [not_id_of_isBlank hc]
  rcases of_mem_table _ hp with hword | ⟨w, hw, d, hd, heq⟩
  · exact absurd (hword c (by simp)) hnot
  rcases List.append_eq_append_iff.1 heq with ⟨y, rfl, hy⟩ | ⟨y, rfl, hy⟩
  · cases y with
    | nil =>
      obtain ⟨rfl, rfl⟩ := List.cons_eq_cons.1 hy
      exact ⟨rfl, hd⟩
    | cons e y =>
      obtain rfl : c = e := (List.cons_eq_cons.1 hy).1
      exact absurd (isIdChar_of_mem_flowchartWords _ hw c (by simp)) hnot
  · cases y with
    | nil =>
      obtain ⟨rfl, rfl⟩ := List.cons_eq_cons.1 hy
      exact ⟨rfl, hd⟩
    | cons e y =>
      obtain ⟨-, rfl⟩ := List.cons_eq_cons.1 hy
      exact absurd (isIdChar_of_mem_directions _ hd c (by simp)) hnot

/-! ## The kind of a line -/

/-- No header starts with another one, so a line starts with one header at most. -/
theorem eq_of_append_eq {p q : Text × DiagramKind} (hp : p ∈ table) (hq : q ∈ table) {t u : Text}
    (h : p.1 ++ t = q.1 ++ u) : p = q ∧ t = u := by
  have hapart : ∀ p ∈ table, ∀ q ∈ table, p.1 <+: q.1 → p = q := by decide +kernel
  have hpq : p = q := by
    rcases List.prefix_or_prefix_of_prefix (List.prefix_append p.1 t)
        (h ▸ List.prefix_append q.1 u) with hle | hle
    · exact hapart p hp q hq hle
    · exact (hapart q hq p hp hle).symm
  subst hpq
  exact ⟨rfl, List.append_cancel_left h⟩

/-- Behind a header, what follows it decides whether the line names its kind. -/
theorem kind?_append {header : Text} {kind : DiagramKind} (hmem : (header, kind) ∈ table)
    (rest : Text) : kind? (header ++ rest) = if endsHeader rest then some kind else none := by
  cases hread : read? (header ++ rest) with
  | none =>
    have hnone := List.findSome?_eq_none_iff.1 hread _ hmem
    have hends : ¬endsHeader rest = true := by
      rw [Option.map_eq_none_iff, after?_append_self, Option.filter_eq_none_iff] at hnone
      exact hnone rest rfl
    rw [if_neg hends, kind?, hread]
    rfl
  | some r =>
    obtain ⟨p, hp, h⟩ := List.exists_of_findSome?_eq_some hread
    obtain ⟨rest', hrest, rfl⟩ := Option.map_eq_some_iff.1 h
    obtain ⟨hafter, hends⟩ := Option.filter_eq_some_iff.1 hrest
    obtain ⟨rfl, rfl⟩ := eq_of_append_eq hmem hp (eq_append_of_after? hafter)
    rw [if_pos hends, kind?, hread]
    rfl

/-- A line names the kind of the header that it starts with. -/
theorem kind?_eq_some_iff {line : Text} {kind : DiagramKind} : kind? line = some kind ↔
    ∃ header rest, (header, kind) ∈ table ∧ line = header ++ rest ∧ endsHeader rest = true := by
  constructor
  · intro h
    obtain ⟨r, hread, rfl⟩ := Option.map_eq_some_iff.1 h
    obtain ⟨p, hp, h⟩ := List.exists_of_findSome?_eq_some hread
    obtain ⟨rest, hrest, rfl⟩ := Option.map_eq_some_iff.1 h
    obtain ⟨hafter, hends⟩ := Option.filter_eq_some_iff.1 hrest
    exact ⟨p.1, rest, hp, eq_append_of_after? hafter, hends⟩
  · rintro ⟨header, rest, hmem, rfl, hends⟩
    rw [kind?_append hmem, if_pos hends]

/-- A header is neither empty nor a comment, and does not start with a blank. -/
theorem of_kind? {t : Text} {kind : DiagramKind} (h : kind? t = some kind) :
    t ≠ [] ∧ (∀ c ∈ t.head?, isBlank c = false) ∧ isComment t = false := by
  have hheaders : ∀ p ∈ table.map Prod.fst, p ≠ [] ∧ ∀ c ∈ p.head?, isIdChar c = true := by decide
  obtain ⟨p, rest, hmem, rfl, -⟩ := kind?_eq_some_iff.1 h
  obtain ⟨hne, hhead⟩ := hheaders p (List.mem_map_of_mem hmem)
  obtain ⟨c, p, rfl⟩ := List.exists_cons_of_ne_nil hne
  have hc : isIdChar c = true := hhead c rfl
  refine ⟨by simp, ?_, ?_⟩
  · rintro d ⟨⟩
    exact isBlank_of_isIdChar hc
  · have : '%' ≠ c := (ne_of_isIdChar hc (by decide)).symm
    simp [isComment, startsWith, after?, this]

theorem endsHeader_of_isBlank {c : Char} (h : isBlank c = true) (u : Text) :
    endsHeader (c :: u) = true := by
  have hbracket : ∀ d, d = '[' ∨ d = '(' ∨ d = '{' → c ≠ d := by
    rintro d hd rfl
    rcases hd with rfl | rfl | rfl <;> cases h
  simp [endsHeader, isWord_of_isBlank h, hbracket]

/-- A text goes on behind a header as before, and with blanks where it was at its end. -/
theorem endsHeader_append {t u : Text} (hu : ∀ c ∈ u.head?, isBlank c = true) :
    endsHeader (t ++ u) = endsHeader t := by
  cases t with
  | cons c t => rfl
  | nil =>
    cases u with
    | nil => rfl
    | cons c u => exact endsHeader_of_isBlank (hu c rfl) u

/-- Neither the blanks behind a line nor the lines behind it matter for the kind that it names. -/
theorem kind?_append_blanks {s b rest : Text} (hb : ∀ c ∈ b, isBlank c = true)
    (hrest : ∀ c ∈ rest.head?, isBreak c = true) : kind? (s ++ (b ++ rest)) = kind? s := by
  have hblank : ∀ c ∈ (b ++ rest).head?, isBlank c = true := by
    cases b with
    | nil => exact fun c hc => isBlank_of_isBreak (hrest c hc)
    | cons d b =>
      rintro c ⟨⟩
      exact hb _ List.mem_cons_self
  refine Option.ext fun kind => ?_
  rw [kind?_eq_some_iff, kind?_eq_some_iff]
  refine exists_congr fun header => ?_
  constructor
  · rintro ⟨r, hmem, hline, hends⟩
    rcases List.append_eq_append_iff.1 hline with ⟨x, rfl, hx⟩ | ⟨x, rfl, rfl⟩
    · cases x with
      | nil => exact ⟨[], by simpa using hmem, by simp, rfl⟩
      | cons c x =>
        -- The direction goes on behind the space of the header, on the same line.
        obtain ⟨rfl, hdirection⟩ := blank_of_mem_table (List.mem_map_of_mem (f := Prod.fst) hmem)
          (hblank c (hx ▸ rfl))
        obtain ⟨d, x, rfl, hnot⟩ := exists_cons_of_mem_directions hdirection
        rw [isBlank_of_cons_cons hb hrest (by decide) hx] at hnot
        cases hnot
    · exact ⟨x, hmem, rfl, endsHeader_append hblank ▸ hends⟩
  · rintro ⟨r, hmem, rfl, hends⟩
    exact ⟨r ++ (b ++ rest), hmem, List.append_assoc .., (endsHeader_append hblank).trans hends⟩

/-! ## The kind of a text -/

/-- A text names the kind that its first statement names. -/
theorem ofSource?_eq (source : Text) :
    ofSource? source = (source.statements.find? fun l => !isComment l).bind kind? := by
  have hfind : (source.statements.find? fun l => !isComment l) =
      ((numberedLines source).find? fun p => !isComment p.2).map Prod.snd := List.find?_map
  rw [hfind, ofSource?]
  split
  · rename_i h
    rw [h]
    rfl
  · rename_i h
    rw [h]
    rfl

/-- A document of comments and a text that is none has the kind that this text names. -/
theorem ofSource?_unlines {comments : List Text} {t : Text} (hline : ∀ l ∈ comments, IsLine l)
    (hcomments : ∀ l ∈ comments, isComment l = true) (hne : t ≠ [])
    (hhead : ∀ c ∈ t.head?, isBlank c = false) (hcomment : isComment t = false) (rest : List Text) :
    ofSource? (unlines (comments ++ t :: rest)) = kind? t := by
  obtain ⟨s, b, u, ss, hs, rfl, hb, hu⟩ := exists_statements_cons hne hhead
  have hnot : ¬isComment s = true := by
    intro hs
    obtain ⟨v, hv⟩ := Option.isSome_iff_exists.1 (show (after? ['%', '%'] s).isSome = true from hs)
    rw [isComment, startsWith, after?_append hv] at hcomment
    cases hcomment
  have hstatements : statements (unlines (comments ++ (s ++ (b ++ u)) :: rest)) =
      comments ++ s :: (ss ++ rest.flatMap statements) := by
    rw [statements_unlines, List.flatMap_append, List.flatMap_cons, hs,
      List.flatMap_congr fun l hl => (hline l hl).statements_eq, List.flatMap_singleton',
      List.cons_append]
  rw [ofSource?_eq, hstatements, List.find?_append, List.find?_eq_none.2 (by simpa using hcomments),
    Option.none_or, List.find?_cons_of_pos (by simpa using hnot), Option.bind_some,
    kind?_append_blanks hb hu]

end Header

end Flowmend
