import Flowmend.Proofs.Header.Kind
import Flowmend.Proofs.Repair.Again

/-!
# The kind of a mended document

A document is mended as one of the kind that its source names, with the header that it has. A source
that names no kind gets a header. Whatever was done to the lines, the mended document names its own
kind (`mend_kind`).
-/

namespace Flowmend

open Text

namespace Opening

/-- The header with which a document opens names its kind. -/
theorem kind?_header {usualHeader : Text} (husual : (Header.kind? usualHeader).isSome)
    (ls : List (Nat × Text)) :
    Header.kind? (ofLines usualHeader ls).header = some (ofLines usualHeader ls).kind := by
  rcases ofLines_cases usualHeader ls with
    ⟨n, first, rest, kind, -, hkind, heq⟩ | ⟨n, reason, body, heq, -⟩
  · rw [heq]
    exact hkind
  · obtain ⟨kind, hkind⟩ := Option.isSome_iff_exists.1 husual
    rw [heq]
    simp [added, hkind]

/-- A source that names a kind keeps its header, and any other one gets one. -/
theorem ofSource_cases (usualHeader source : Text) :
    (∃ kind, Header.ofSource? source = some kind ∧ (ofSource usualHeader source).reason = none ∧
        (ofSource usualHeader source).kind = kind) ∨
      (Header.ofSource? source = none ∧ (ofSource usualHeader source).reason.isSome) := by
  unfold ofSource
  rcases ofLines_cases usualHeader ((numberedLines source).dropWhile fun l => isComment l.2) with
    ⟨n, first, rest, kind, hls, hkind, heq⟩ | ⟨n, reason, body, heq, -⟩
  · refine .inl ⟨kind, ?_, by rw [heq], by rw [heq]⟩
    rw [ofSource?_of_dropWhile hls, hkind]
  · refine .inr ⟨?_, by rw [heq]; rfl⟩
    cases hls : (numberedLines source).dropWhile fun l => isComment l.2 with
    | nil =>
      have hfind : (numberedLines source).find? (fun l => !isComment l.2) = none := by
        rw [List.find?_not_eq_head?_dropWhile, hls]
        rfl
      unfold Header.ofSource?
      rw [hfind]
    | cons p rest =>
      obtain ⟨m, first⟩ := p
      rw [ofSource?_of_dropWhile hls]
      cases hkind : Header.kind? first with
      | none => rfl
      | some kind =>
        rw [hls, ofLines, hkind] at heq
        cases heq

end Opening

/-- A source that names a kind is mended as one of this kind, and any other one gets a header. -/
theorem mend_kind_cases (usualHeader stem source : Text) :
    let d := mend usualHeader stem source
    (Header.ofSource? source = some d.kind ∧ d.headerAdded = false) ∨
      (Header.ofSource? source = none ∧ d.headerAdded = true) := by
  intro d
  have hadded : d.headerAdded = (Opening.ofSource usualHeader source).reason.isSome := rfl
  have hkind : d.kind = (Opening.ofSource usualHeader source).kind := rfl
  rcases Opening.ofSource_cases usualHeader source with
    ⟨kind, hsource, hreason, heq⟩ | ⟨hsource, hreason⟩
  · refine .inl ⟨by rw [hsource, hkind, heq], ?_⟩
    rw [hadded, hreason]
    rfl
  · exact .inr ⟨hsource, hadded.trans hreason⟩

/-- A document is mended with a header that was added just if its source names no kind, and
otherwise its kind is the one of the source. Read again, it names its kind. -/
theorem mend_kind {usualHeader : Text} (husual : (Header.kind? usualHeader).isSome)
    (stem source : Text) :
    let d := mend usualHeader stem source
    (d.headerAdded = true ↔ Header.ofSource? source = none) ∧
      (d.headerAdded = false → Header.ofSource? source = some d.kind) ∧
      Header.ofSource? d.text = some d.kind := by
  intro d
  set opening := Opening.ofSource usualHeader source with hopening
  have hkind : d.kind = opening.kind := rfl
  refine ⟨?_, ?_, ?_⟩
  · rcases mend_kind_cases usualHeader stem source with ⟨hsource, hadded⟩ | ⟨hsource, hadded⟩
    · simp [d, hsource, hadded]
    · simp [d, hsource, hadded]
  · rcases mend_kind_cases usualHeader stem source with ⟨hsource, -⟩ | ⟨-, hadded⟩
    · exact fun _ => hsource
    · simp [d, hadded]
  · obtain ⟨m, -, hlines⟩ := exists_lines_mend usualHeader stem source
    obtain ⟨u, rest, hu, hvalue, -⟩ := balance_append_cons
      (((numberedLines source).takeWhile fun l => isComment l.2).map Prod.snd) opening.header
      (m.mendBody opening.kind opening.body).1
    -- In a document without a body, the header gets the closing brackets.
    have hheader : Header.kind? (opening.header ++ u) = some opening.kind :=
      (Header.kind?_append_closing hu _).trans (Opening.kind?_header husual _)
    obtain ⟨hne, hhead, hcomment⟩ := Header.of_kind? hheader
    rw [Mended.text, hkind, hlines.trans hvalue, ← hheader]
    exact Header.ofSource?_unlines (fun l hl => (of_mem_comments source hl).1)
      (fun l hl => (of_mem_comments source hl).2) hne hhead hcomment rest

/-- The one line of the document is the header that was added, with a bracket to close it. -/
theorem mend_kind_closed :
    let usualHeader := "flowchart RL [\n".toList
    let d := mend usualHeader "MissingNode".toList "graph  TD".toList
    (Header.kind? usualHeader).isSome ∧ d.lines = ["flowchart RL [\n]".toList] ∧
      d.headerAdded = true ∧ d.kind = .flowchart .across ∧
      Header.ofSource? "graph  TD".toList = none ∧ Header.ofSource? d.text = some d.kind := by
  intro usualHeader d
  have husual : (Header.kind? usualHeader).isSome := by decide +kernel
  obtain ⟨hadded, -, hread⟩ := mend_kind husual "MissingNode".toList "graph  TD".toList
  have hd : d.headerAdded = true := by decide +kernel
  exact ⟨husual, by decide +kernel, hd, by decide +kernel, hadded.1 hd, hread⟩

end Flowmend
