import Flowmend.Proofs.Repair.Visible
import Flowmend.Proofs.Session.Isolation

/-!
# The text that is shown

In place of a document without nodes stands the text of its lines. They are all lines of the mended
document but for a header that was added (`Substitute.kept`), and never blank, as the trimmed source
is shown if there are none (`Substitute.visible_whole`). So a text that is a result shows what the
source has, cut at the limit (`Session.text_shows_source`).
-/

namespace Flowmend

open Text

namespace Substitute

variable (s : Settings) (source : Text)

/-- The lines that are shown: those of the mended document, without the line behind the comments
that open the source if it is a header that was added. -/
def kept : List Text :=
  let mended := mend s.usualHeader s.placeholderStem source
  if mended.headerAdded then mended.lines.eraseIdx (leadingComments source).length
  else mended.lines

/-- The text that is shown if it is not too long: the lines that are kept, or the trimmed source if
that is empty. -/
def whole : Text :=
  if (unlines (kept s source)).isEmpty then trim source else unlines (kept s source)

/-- The text shows the source: of the mended document only a header that was added is left out,
which stands behind the comments that open the source, and no line that stems from the source; what
is left is not blank; and it is shown whole, or cut at the limit with an ellipsis. -/
structure Shows (shown : Text) : Prop where
  header : (mend s.usualHeader s.placeholderStem source).headerAdded = true →
    ∃ u rest, (∀ c ∈ u, c = ']') ∧
      (mend s.usualHeader s.placeholderStem source).lines =
        leadingComments source ++ (s.usualHeader ++ u) :: rest ∧
      kept s source = leadingComments source ++ rest
  keeps : ∀ l ∈ leadingComments source ++ mendedBody s.usualHeader s.placeholderStem source,
    ∃ u, (∀ c ∈ u, c = ']') ∧ l ++ u ∈ kept s source
  not_blank : allBlank (whole s source) = false
  shown_eq : shown =
    if (whole s source).length ≤ s.textLimit then whole s source
    else (whole s source).take s.textLimit.toNat ++ s.ellipsis

/-! ## The lines that are kept -/

/-- What is left out is a header that was added, and else nothing. The lines are visible, and all
that are written for lines of the source are among them. -/
theorem exists_kept : ∃ header u rest, (∀ c ∈ u, c = ']') ∧
    (mend s.usualHeader s.placeholderStem source).lines =
      leadingComments source ++ (header ++ u) :: rest ∧
    (∀ k ∈ mendedBody s.usualHeader s.placeholderStem source,
      ∃ v, (∀ c ∈ v, c = ']') ∧ k ++ v ∈ rest) ∧
    (∀ l ∈ rest, Visible l) ∧
    (((mend s.usualHeader s.placeholderStem source).headerAdded = true ∧ header = s.usualHeader ∧
        kept s source = leadingComments source ++ rest) ∨
      ((mend s.usualHeader s.placeholderStem source).headerAdded = false ∧ Visible header ∧
        kept s source = leadingComments source ++ (header ++ u) :: rest)) := by
  obtain ⟨u, rest, hu, hlines, hrest, hbody⟩ :=
    exists_lines_mend_visible s.usualHeader s.placeholderStem source
  refine ⟨_, u, rest, hu, hlines, hbody, hrest, ?_⟩
  rcases header_cases s.usualHeader s.placeholderStem source with
    ⟨hadded, hheader⟩ | ⟨hadded, hheader⟩
  · refine .inl ⟨hadded, hheader, ?_⟩
    rw [kept, if_pos hadded, hlines, List.eraseIdx_append_of_length_le (Nat.le_refl _),
      Nat.sub_self, List.eraseIdx_cons_zero]
  · exact .inr ⟨hadded, hheader.visible, by rw [kept, if_neg (by simp [hadded]), hlines]⟩

theorem visible_of_mem_kept {l : Text} (hl : l ∈ kept s source) : Visible l := by
  obtain ⟨header, u, rest, -, -, -, hrest, hkept⟩ := exists_kept s source
  have hcomments : ∀ l ∈ leadingComments source, Visible l := fun l hl =>
    (of_mem_leadingComments hl).1.visible
  rcases hkept with ⟨-, -, hkept⟩ | ⟨-, hheader, hkept⟩
  · rw [hkept] at hl
    exact (List.mem_append.1 hl).elim (hcomments l) (hrest l)
  · rw [hkept] at hl
    rcases List.mem_append.1 hl with hl | hl
    · exact hcomments l hl
    · rcases List.mem_cons.1 hl with rfl | hl
      · exact hheader.append_right u
      · exact hrest l hl

/-- The text that is shown of a source that is not blank is not blank. -/
theorem visible_whole (h : Visible source) : Visible (whole s source) := by
  unfold whole
  split
  · exact h.trim
  · rename_i hsome
    refine visible_unlines (fun hnil => hsome ?_) fun l => visible_of_mem_kept s source
    rw [hnil]
    rfl

/-- The lines that are kept are those of the document without a header that was added. -/
theorem body?_eq (hheader : isComment s.usualHeader = false) :
    (mend s.usualHeader s.placeholderStem source).body? = some (unlines (kept s source)) := by
  obtain ⟨header, u, rest, hu, hlines, -, -, ⟨hadded, rfl, hkept⟩ | ⟨hadded, -, hkept⟩⟩ :=
    exists_kept s source
  · rw [hkept]
    exact Mended.body?_of_headerAdded hadded (fun l hl => (of_mem_leadingComments hl).2)
      ((statement_append_closing hu).1.trans hheader) hlines
  · rw [hkept, ← hlines, Mended.body?, if_neg (by simp [hadded])]
    rfl

/-! ## The text that is shown -/

theorem abridge_eq (hlimit : 0 ≤ s.textLimit) (t : Text) : abridge s t =
    if t.length ≤ s.textLimit then t else t.take s.textLimit.toNat ++ s.ellipsis := by
  unfold abridge takeUpTo
  by_cases h : (t.length : Int) ≤ s.textLimit
  · rw [if_pos h, if_neg (Int.not_lt.2 h)]
  · rw [if_neg h, if_pos (Int.not_le.1 h), if_pos hlimit]

variable {s source}

theorem shown_mend (hheader : isComment s.usualHeader = false) :
    shown s source (mend s.usualHeader s.placeholderStem source) =
      .ok (abridge s (whole s source)) := by
  rw [shown, body?_eq s source hheader]
  rfl

/-- What is shown of a source that is not blank shows the source. -/
theorem shows_abridge (hlimit : 0 ≤ s.textLimit) (hsource : allBlank source = false) :
    Shows s source (abridge s (whole s source)) where
  header hadded := by
    obtain ⟨header, u, rest, hu, hlines, -, -, ⟨-, rfl, hkept⟩ | ⟨hnot, -⟩⟩ := exists_kept s source
    · exact ⟨u, rest, hu, hlines, hkept⟩
    · cases hadded.symm.trans hnot
  keeps l hl := by
    obtain ⟨header, u, rest, -, -, hbody, -, hkept⟩ := exists_kept s source
    have hrest : ∀ l, l ∈ leadingComments source ∨ l ∈ rest → l ∈ kept s source := by
      rcases hkept with ⟨-, -, hkept⟩ | ⟨-, -, hkept⟩ <;> rw [hkept] <;> simp +contextual [or_imp]
    rcases List.mem_append.1 hl with hl | hl
    · exact ⟨[], by simp, by rw [List.append_nil]; exact hrest l (.inl hl)⟩
    · obtain ⟨v, hv, hmem⟩ := hbody l hl
      exact ⟨v, hv, hrest _ (.inr hmem)⟩
  not_blank := allBlank_eq_false_iff.2 (visible_whole s source (allBlank_eq_false_iff.1 hsource))
  shown_eq := abridge_eq s hlimit _

end Substitute

/-! ## Renders -/

namespace Session

variable {settings : Settings} {source : Text}

/-- A text that is the result of a render is what is shown of the document. -/
theorem shown_of_resultOf {mended : Mended} {outcome : Engine.Outcome} {shown : Text}
    (h : resultOf settings source mended outcome = .ok (.text shown)) :
    Substitute.shown settings source mended = .ok shown := by
  cases outcome with
  | svg document => cases h
  | failed failure =>
    unfold resultOf at h
    simp only [] at h
    split at h
    · cases h
    · cases hshown : Substitute.shown settings source mended with
      | error e =>
        rw [hshown] at h
        cases h
      | ok t =>
        rw [hshown] at h
        cases h
        rfl

/-- Without a graph, a failure leads to what is shown of the document. -/
theorem resultOf_of_positioned?_eq_none (hheader : isComment settings.usualHeader = false)
    (hnone : Substitute.positioned? settings source
      (mend settings.usualHeader settings.placeholderStem source) = none)
    (failure : Engine.Failure) :
    resultOf settings source (mend settings.usualHeader settings.placeholderStem source)
      (.failed failure) =
      .ok (.text (Substitute.abridge settings (Substitute.whole settings source))) := by
  unfold resultOf
  simp only [hnone, Substitute.shown_mend hheader]
  rfl

/-- A text that is the result of a single render shows the source, if that is not blank. -/
theorem shows_of_renderOnce (hheader : isComment settings.usualHeader = false)
    (hlimit : 0 ≤ settings.textLimit) (hsource : allBlank source = false) {diagram shown : Text}
    {engine : Text → Engine.Outcome}
    (h : renderOnce settings source diagram engine = .ok (.text shown)) :
    Substitute.Shows settings source shown := by
  rw [renderOnce_eq] at h
  simp only [hsource, Bool.false_eq_true, if_false] at h
  have hshown := shown_of_resultOf h
  rw [Substitute.shown_mend hheader] at hshown
  cases hshown
  exact Substitute.shows_abridge hlimit hsource

/-- If a render of a source that is not blank ends in a text, the text shows the source. It ends in
one if the engine fails or has no time and no graph has nodes. And so do the renders of every run of
a session show their own sources, whatever overlaps. -/
theorem text_shows_source (hheader : isComment settings.usualHeader = false)
    (hlimit : 0 ≤ settings.textLimit) :
    (∀ source diagram engine, allBlank source = false →
      (∀ shown, renderOnce settings source diagram engine = .ok (.text shown) →
        Substitute.Shows settings source shown) ∧
      let mended := mend settings.usualHeader settings.placeholderStem source
      ∀ failure, (settings.engineHasTime = true → engine mended.text = .failed failure) →
        Substitute.positioned? settings source mended = none →
        ∃ shown, renderOnce settings source diagram engine = .ok (.text shown)) ∧
    ∀ sources replies s, Dialogue settings sources replies s → ∀ r ∈ replies,
      ∀ source, sources[r.generation - 1]? = some source → allBlank source = false →
        ∀ shown, r.result = .ok (.text shown) → Substitute.Shows settings source shown := by
  refine ⟨fun source diagram engine hsource => ⟨fun shown => ?_, fun failure hfails hnone => ?_⟩,
    fun sources replies s hd r hr source hget hsource shown hresult => ?_⟩
  · exact shows_of_renderOnce hheader hlimit hsource
  · have hresult := resultOf_of_positioned?_eq_none hheader hnone
    refine ⟨Substitute.abridge settings (Substitute.whole settings source), ?_⟩
    rw [renderOnce_eq]
    simp only [hsource, Bool.false_eq_true, if_false]
    split
    · rename_i htime
      rw [hfails htime, hresult]
    · exact hresult _
  · obtain ⟨-, source', hget', halone⟩ := (hd.conversed hheader).alone r hr
    cases hget.symm.trans hget'
    -- Any engine that gives the answer of the reply has the same result.
    rw [halone [] (fun _ => r.outcome.getD (.failed .timedOut)) (by simp +contextual)] at hresult
    exact shows_of_renderOnce hheader hlimit hsource hresult

/-- A source without a header is shown with the comment before it, cut at the limit. -/
theorem text_shows_source_cut :
    let settings : Settings := { textLimit := 12 }
    let source := "%% [\n plain  words".toList
    isComment settings.usualHeader = false ∧ 0 ≤ settings.textLimit ∧ allBlank source = false ∧
    renderOnce settings source [] (fun _ => .failed .timedOut) =
      .ok (.text "%% [\nplain  ...".toList) ∧
    Substitute.Shows settings source "%% [\nplain  ...".toList := by
  intro settings source
  have hheader : isComment settings.usualHeader = false := by decide
  have hlimit : 0 ≤ settings.textLimit := by decide
  have hsource : allBlank source = false := by decide
  have hshown : renderOnce settings source [] (fun _ => .failed .timedOut) =
      .ok (.text "%% [\nplain  ...".toList) := by
    have hnone : (Substitute.positioned? settings source
        (mend settings.usualHeader settings.placeholderStem source)).isNone := by
      decide +kernel
    have htext : Substitute.whole settings source = "%% [\nplain  words]".toList := by
      decide +kernel
    have hresult := resultOf_of_positioned?_eq_none hheader (Option.isNone_iff_eq_none.1 hnone)
    rw [renderOnce_eq]
    simp only [hsource, Bool.false_eq_true, if_false, ite_self, hresult, htext]
    rfl
  exact ⟨hheader, hlimit, hsource, hshown,
    ((text_shows_source hheader hlimit).1 source [] _ hsource).1 _ hshown⟩

end Session

end Flowmend
