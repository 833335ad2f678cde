import Flowmend.Proofs.Header
import Flowmend.Proofs.Repair.Balance

/-!
# The start of a mended document

A source is opened by its header or by one that is added, and the lines of its body are lines of the
source, but for the keyword of a first line without a header (`suffix_of_mem_body`). A mended
document has a line that is no comment (`header?_mend_isSome`), as balancing the brackets only
appends. So there is always a header to leave out (`body?_mend_isSome`).
-/

namespace Flowmend

open Text

/-- Closing brackets at the end do not make a comment of a line. -/
theorem isComment_append_brackets {l : Text} (n : Nat) (h : isComment l = false) :
    isComment (l ++ List.replicate n ']') = false := by
  cases n with
  | zero => rwa [List.replicate_zero, List.append_nil]
  | succ n => rwa [List.replicate_succ, isComment_append_stop l (by decide)]

/-- Balancing leaves a line that is no comment. -/
theorem exists_not_comment_balance {ls : List Text} (h : ∃ l ∈ ls, isComment l = false) :
    ∃ l ∈ (balance ls).value, isComment l = false := by
  obtain ⟨l, hl, hc⟩ := h
  rcases balance_cases ls with ⟨-, hvalue⟩ | ⟨init, last, n, rfl, -, hvalue⟩ | ⟨n, -, hvalue⟩
  · rw [hvalue]
    exact ⟨l, hl, hc⟩
  · rw [hvalue]
    rcases List.mem_append.1 hl with hl | hl
    · exact ⟨l, List.mem_append_left _ hl, hc⟩
    · rw [List.mem_singleton.1 hl] at hc
      exact ⟨_, List.mem_append_right _ List.mem_cons_self, isComment_append_brackets _ hc⟩
  · rw [hvalue]
    exact ⟨l, List.mem_append_left _ hl, hc⟩

namespace Opening

/-- The ways in which a document opens: with the header that it has, or with one that is added to
its lines, of which the first one may lose a keyword. -/
theorem ofLines_cases (usualHeader : Text) (ls : List (Nat × Text)) :
    (∃ n first rest kind, ls = (n, first) :: rest ∧ Header.kind? first = some kind ∧
        ofLines usualHeader ls = ⟨kind, first, none, rest⟩) ∨
      ∃ n reason body, ofLines usualHeader ls = added usualHeader n reason body ∧
        (body <:+ ls ∨ ∃ first rest, ls = (n, first) :: rest ∧ Header.skip first ≠ [] ∧
          body = (n, Header.skip first) :: rest) := by
  cases ls with
  | nil => exact .inr ⟨1, .noHeader, [], rfl, .inl (List.suffix_refl [])⟩
  | cons p rest =>
    obtain ⟨n, first⟩ := p
    cases hkind : Header.kind? first with
    | some kind => exact .inl ⟨n, first, rest, kind, rfl, hkind, by rw [ofLines, hkind]⟩
    | none =>
      right
      simp only [ofLines, hkind]
      by_cases hkeyword : Header.opensWithKeyword first = true
      · simp only [if_pos hkeyword]
        generalize hs : (if Header.isLoneKeyword first then [] else Header.skip first) = statements
        by_cases hnone : statements.isEmpty = true
        · rw [if_pos hnone]
          exact ⟨n, _, rest, rfl, .inl (List.suffix_cons _ _)⟩
        · rw [if_neg hnone]
          have hskip : statements = Header.skip first := by
            split at hs
            · exact absurd (by rw [← hs]; rfl) hnone
            · exact hs.symm
          exact ⟨n, _, _, rfl, .inr ⟨first, rest, rfl, by simpa [hskip] using hnone, by rw [hskip]⟩⟩
      · simp only [if_neg hkeyword]
        exact ⟨n, _, _, rfl, .inl (List.suffix_refl _)⟩

/-- A first line without a header leaves its statement to the body, if there is one. -/
theorem body_cases (usualHeader : Text) (n : Nat) {first : Text} (rest : List (Nat × Text))
    (hkind : Header.kind? first = none) :
    (ofLines usualHeader ((n, first) :: rest)).body = rest ∨
      (ofLines usualHeader ((n, first) :: rest)).body = (n, Header.skip first) :: rest := by
  by_cases hkeyword : Header.opensWithKeyword first = true
  · by_cases hlone : Header.isLoneKeyword first = true
    · exact .inl (by simp [ofLines, hkind, hkeyword, hlone, added])
    · by_cases hskip : Header.skip first = []
      · exact .inl (by simp [ofLines, hkind, hkeyword, hskip, added])
      · exact .inr (by simp [ofLines, hkind, hkeyword, hlone, hskip, added])
  · right
    have hskip : Header.skip first = first := by
      rw [Header.skip, Option.map_eq_none_iff.1 hkind, Option.not_isSome_iff_eq_none.1 hkeyword]
      rfl
    simp [ofLines, hkind, hkeyword, hskip, added]

/-- The header of an opening is no comment: comments were taken off the lines before. -/
theorem isComment_header {usualHeader : Text} (h : isComment usualHeader = false)
    (ls : List (Nat × Text)) :
    isComment (ofLines usualHeader (ls.dropWhile fun l => isComment l.2)).header = false := by
  have hfirst := List.head?_dropWhile_not (fun l : Nat × Text => isComment l.2) ls
  rcases ofLines_cases usualHeader (ls.dropWhile fun l => isComment l.2) with
    ⟨n, first, rest, kind, hls, -, heq⟩ | ⟨n, reason, body, heq, -⟩
  · rw [heq]
    simpa [hls] using hfirst
  · rw [heq]
    exact h

end Opening

/-! ## Sources -/

/-- The source as it is read before its lines are mended. -/
def Opening.ofSource (usualHeader source : Text) : Opening :=
  ofLines usualHeader ((numberedLines source).dropWhile fun l => isComment l.2)

namespace Opening

/-- The statements that are mended: of a flowchart, the lines behind the header that are neither
comments nor directives. -/
def statements (opening : Opening) : List Text :=
  if opening.kind.isFlowchart then
    (opening.body.map Prod.snd).filter fun s => !(isComment s || isDirective s)
  else []

theorem mem_statements {opening : Opening} {s : Text} : s ∈ opening.statements ↔
    opening.kind.isFlowchart = true ∧ s ∈ opening.body.map Prod.snd ∧
      (isComment s || isDirective s) = false := by
  unfold statements
  split
  · rename_i h
    rw [List.mem_filter, Bool.not_eq_true']
    exact (and_iff_right h).symm
  · rename_i h
    simp [h]

end Opening

section Source

variable {usualHeader : Text} (source : Text)

/-- The lines of a source behind its comments. -/
theorem isLine_of_mem_dropWhile {p : Nat × Text}
    (hp : p ∈ (numberedLines source).dropWhile fun l => isComment l.2) : IsLine p.2 :=
  isLine_of_mem_statements (List.mem_map_of_mem ((List.dropWhile_suffix _).subset hp))

/-- The lines of a source before its first line that is no comment. -/
theorem of_mem_comments {l : Text}
    (hl : l ∈ ((numberedLines source).takeWhile fun l => isComment l.2).map Prod.snd) :
    IsLine l ∧ isComment l = true := by
  obtain ⟨p, hp, rfl⟩ := List.mem_map.1 hl
  refine ⟨isLine_of_mem_statements (List.mem_map_of_mem ((List.takeWhile_prefix _).subset hp)), ?_⟩
  exact List.mem_takeWhile_imp (p := fun l : Nat × Text => isComment l.2) hp

/-- A line of the body is a line of the source, or with a header that was added what is left of one
without its keyword. -/
theorem suffix_of_mem_body {s : Text}
    (hs : s ∈ (Opening.ofSource usualHeader source).body.map Prod.snd) :
    s ≠ [] ∧ ∃ l, IsLine l ∧ s <:+ l ∧ (s = l ∨
      (Opening.ofSource usualHeader source).kind = (Header.kind? usualHeader).getD .default) := by
  have hline : ∀ p ∈ (numberedLines source).dropWhile (fun l => isComment l.2), ∀ q : Prop,
      p.2 ≠ [] ∧ ∃ l, IsLine l ∧ p.2 <:+ l ∧ (p.2 = l ∨ q) := fun p hp q =>
    ⟨(isLine_of_mem_dropWhile source hp).ne_nil, p.2, isLine_of_mem_dropWhile source hp,
      List.suffix_refl _, .inl rfl⟩
  obtain ⟨p, hp, rfl⟩ := List.mem_map.1 hs
  unfold Opening.ofSource at hp ⊢
  rcases Opening.ofLines_cases usualHeader
      ((numberedLines source).dropWhile fun l => isComment l.2) with
    ⟨n, first, rest, kind, hls, -, heq⟩ | ⟨n, reason, body, heq, hbody⟩
  · rw [heq] at hp
    exact hline p (hls ▸ List.mem_cons_of_mem _ hp) _
  rw [heq] at hp ⊢
  rcases hbody with hsuffix | ⟨first, rest, hls, hne, rfl⟩
  · exact hline p (hsuffix.subset hp) _
  · rcases List.mem_cons.1 hp with rfl | hp
    · have hfirst := isLine_of_mem_dropWhile source (p := (n, first)) (hls ▸ List.mem_cons_self)
      exact ⟨hne, first, hfirst, Header.skip_suffix first, .inr rfl⟩
    · exact hline p (hls ▸ List.mem_cons_of_mem _ hp) _

/-- A line of the body is a line of the source, or in a flowchart what is left of one without its
keyword. -/
theorem of_mem_body (husual : Header.IsFlowchart usualHeader) {s : Text}
    (hs : s ∈ (Opening.ofSource usualHeader source).body.map Prod.snd) :
    s ≠ [] ∧ ∃ l, IsLine l ∧ s <:+ l ∧
      ((Opening.ofSource usualHeader source).kind.isFlowchart = false → s = l) := by
  obtain ⟨hne, l, hline, hsuffix, hsame⟩ := suffix_of_mem_body source hs
  obtain ⟨direction, hkind⟩ := Header.kind?_of_isFlowchart husual
  refine ⟨hne, l, hline, hsuffix, fun h => hsame.resolve_right fun hdefault => ?_⟩
  rw [hdefault, hkind] at h
  cases h

end Source

/-- The line after the comments is the first one that is none. -/
theorem find?_of_dropWhile {source : Text} {p : Nat × Text} {rest : List (Nat × Text)}
    (h : ((numberedLines source).dropWhile fun l => isComment l.2) = p :: rest) :
    (numberedLines source).find? (fun l => !isComment l.2) = some p := by
  rw [List.find?_not_eq_head?_dropWhile, h]
  rfl

/-- The line after the comments names the kind of a document. -/
theorem ofSource?_of_dropWhile {source : Text} {n : Nat} {first : Text} {rest : List (Nat × Text)}
    (h : ((numberedLines source).dropWhile fun l => isComment l.2) = (n, first) :: rest) :
    Header.ofSource? source = Header.kind? first := by
  unfold Header.ofSource?
  rw [find?_of_dropWhile h]

/-! ## Mended documents -/

/-- The lines of a mended document, before the brackets are balanced. -/
theorem exists_lines_mend (usualHeader stem source : Text) :
    let opening := Opening.ofSource usualHeader source
    ∃ m : Mender, m.supply = (Placeholders.ofStem stem).reserve (ids source) ∧
      (mend usualHeader stem source).lines =
        (balance (((numberedLines source).takeWhile fun l => isComment l.2).map Prod.snd ++
          opening.header :: (m.mendBody opening.kind opening.body).1)).value :=
  ⟨_, rfl, rfl⟩

/-- The lines of a mended document are its leading comments, its header and what follows, with
their brackets balanced. -/
theorem lines_mend (usualHeader stem source : Text) : ∃ body,
    (mend usualHeader stem source).lines =
      (balance (((numberedLines source).takeWhile fun l => isComment l.2).map Prod.snd ++
        (Opening.ofSource usualHeader source).header :: body)).value :=
  ⟨_, rfl⟩

/-- A mended document has a line that is no comment, if the header for documents without one is
none. -/
theorem header?_mend_isSome {usualHeader : Text} (h : isComment usualHeader = false)
    (stem source : Text) : (mend usualHeader stem source).header?.isSome := by
  obtain ⟨body, hb⟩ := lines_mend usualHeader stem source
  obtain ⟨l, hl, hc⟩ := exists_not_comment_balance
    ⟨_, List.mem_append_right _ (List.mem_cons_self (l := body)), Opening.isComment_header h _⟩
  rw [Mended.header?, List.find?_isSome]
  exact ⟨l, by rw [hb]; exact hl, by simp [hc]⟩

theorem body?_mend_isSome {usualHeader : Text} (h : isComment usualHeader = false)
    (stem source : Text) : (mend usualHeader stem source).body?.isSome := by
  unfold Mended.body?
  split
  · simpa using header?_mend_isSome h stem source
  · rfl

end Flowmend
