import Flowmend.Fence
import Flowmend.Proofs.Repair.Kind

/-!
# Diagrams found in messages

A diagram that is found without a fence opens with a flowchart keyword, blanks and a direction. It
names a kind, and keeps its header when it is mended, just if the blanks are one space and the
header ends behind the direction (`Fence.kind_diagram`).
-/

namespace Flowmend

open Text

namespace Fence

/-- A text opens with a flowchart keyword, blanks and a direction, and with no longer word. -/
structure Opens (t keyword gap direction rest : Text) : Prop where
  text_eq : t = keyword ++ (gap ++ (direction ++ rest))
  mem_flowchartWords : keyword ∈ flowchartWords
  gap_ne_nil : gap ≠ []
  isBlank_gap : ∀ c ∈ gap, isBlank c = true
  mem_directions : direction ∈ Header.directions
  opensWord : opensWord rest = false

/-! ## The start of a diagram -/

theorem exists_opens_of_opensFlowchart {t : Text} (h : opensFlowchart t = true) :
    ∃ keyword gap direction rest, Opens (t.dropWhile isPad) keyword gap direction rest := by
  unfold opensFlowchart at h
  obtain ⟨keyword, hkeyword, h⟩ := List.any_eq_true.1 h
  obtain ⟨u, hu, h⟩ := (Option.any_eq_true _ _).1 h
  obtain ⟨hblank, h⟩ := Bool.and_eq_true_iff.1 h
  obtain ⟨direction, hdirection, h⟩ := List.any_eq_true.1 h
  obtain ⟨rest, hrest, hword⟩ := (Option.any_eq_true _ _).1 h
  refine ⟨keyword.toList, u.takeWhile isBlank, direction.toList, rest, ?_, ?_, ?_, ?_, ?_, ?_⟩
  · rw [eq_append_of_after? hu, ← eq_append_of_after? hrest]
    exact congrArg _ List.takeWhile_append_dropWhile.symm
  · exact List.mem_map_of_mem (f := String.toList) hkeyword
  · obtain ⟨c, hc, hblank⟩ := (Option.any_eq_true _ _).1 hblank
    obtain ⟨v, rfl⟩ := List.head?_eq_some_iff.1 hc
    rw [List.takeWhile_cons_of_pos (p := isBlank) hblank]
    exact List.cons_ne_nil c _
  · exact fun c hc => List.mem_takeWhile_imp hc
  · exact List.mem_map_of_mem (f := String.toList) hdirection
  · simpa using hword

/-- The end of a message that is taken opens with a flowchart header. -/
theorem opensFlowchart_of_bareFrom? {atStart : Bool} {message t : Text}
    (h : bareFrom? atStart message = some t) : opensFlowchart t = true := by
  fun_induction bareFrom? atStart message with
  | case1 => cases h
  | case2 atStart c u hopens =>
    cases h
    exact (Bool.and_eq_true_iff.1 hopens).2
  | case3 atStart c u _ ih => exact ih h

namespace Opens

variable {t keyword gap direction rest : Text} (h : Opens t keyword gap direction rest)

include h

/-- The text starts with a word, so neither with a blank nor with a comment. -/
theorem start : t ≠ [] ∧ (∀ c ∈ t.head?, isBlank c = false) ∧ isComment t = false := by
  have hkeywords : ∀ k ∈ flowchartWords, IsId k ∧ ∀ c ∈ k.head?, isBlank c = false := by decide
  obtain ⟨hid, hhead⟩ := hkeywords _ h.mem_flowchartWords
  rw [h.text_eq]
  refine ⟨by simp [hid.ne_nil], fun c hc => hhead c ?_, isComment_append hid _⟩
  rwa [List.head?_append_of_ne_nil _ hid.ne_nil] at hc

/-- The header stays when the text is trimmed. -/
theorem exists_trim : ∃ v, Opens (trim t) keyword gap direction v := by
  have hdirections : ∀ d ∈ Header.directions, d ≠ [] ∧ ∀ c ∈ d.getLast?, isBlank c = false := by
    decide
  obtain ⟨hne, hlast⟩ := hdirections _ h.mem_directions
  obtain ⟨-, hhead, -⟩ := h.start
  have ht : t = keyword ++ (gap ++ direction) ++ rest := by
    rw [h.text_eq, List.append_assoc, List.append_assoc]
  have hheader : keyword ++ (gap ++ direction) ≠ [] := by simp [hne]
  have htrimmed : Trimmed (keyword ++ (gap ++ direction)) := by
    constructor
    · rwa [ht, List.head?_append_of_ne_nil _ hheader] at hhead
    · rwa [← List.append_assoc, List.getLast?_append_of_ne_nil _ hne]
  obtain ⟨v, hv⟩ := htrimmed.exists_trim_append hheader rest
  rw [← ht] at hv
  obtain ⟨b, hb, -⟩ := exists_trim_of_head hhead
  have hrest : rest = v ++ b := by
    have happend := ht.symm.trans hb
    rw [hv, List.append_assoc _ v b] at happend
    exact List.append_cancel_left happend
  refine ⟨v, ?_, h.mem_flowchartWords, h.gap_ne_nil, h.isBlank_gap, h.mem_directions, ?_⟩
  · rw [hv, List.append_assoc, List.append_assoc]
  · have hword := h.opensWord
    rw [hrest] at hword
    cases v with
    | nil => rfl
    | cons c v => exact hword

/-- A text that names its kind has one space before the direction. -/
theorem gap_eq_of_kind? (hkind : Header.kind? t ≠ none) : gap = [' '] := by
  obtain ⟨kind, hkind⟩ := Option.ne_none_iff_exists'.1 hkind
  obtain ⟨header, u, hmem, ht, -⟩ := Header.kind?_eq_some_iff.1 hkind
  have hmem : header ∈ Header.table.map Prod.fst := List.mem_map_of_mem hmem
  rw [h.text_eq] at ht
  have hlong : ∀ p ∈ Header.table.map Prod.fst, ∀ k ∈ flowchartWords, ¬p <+: k := by decide +kernel
  have hlong := hlong header hmem keyword h.mem_flowchartWords
  rcases List.append_eq_append_iff.1 ht with ⟨x, rfl, hx⟩ | ⟨x, hx, -⟩
  · obtain ⟨c, gap, rfl⟩ := List.exists_cons_of_ne_nil h.gap_ne_nil
    cases x with
    | nil => exact absurd (by simp) hlong
    | cons e x =>
      obtain ⟨rfl, htail⟩ := List.cons_eq_cons.1 hx
      obtain ⟨rfl, hdirection⟩ := Header.blank_of_mem_table hmem
        (h.isBlank_gap c List.mem_cons_self)
      cases gap with
      | nil => rfl
      | cons c gap =>
        -- The direction of the header does not start with a blank.
        obtain ⟨d, x, rfl, hnot⟩ := Header.exists_cons_of_mem_directions hdirection
        obtain rfl : c = d := (List.cons_eq_cons.1 htail).1
        rw [h.isBlank_gap c (by simp)] at hnot
        cases hnot
  · exact absurd ⟨x, hx.symm⟩ hlong

/-- The text names the kind of its header, if this has one space and ends behind the direction. -/
theorem exists_kind : ∃ kind : DiagramKind, kind.isFlowchart = true ∧
    (keyword ++ ' ' :: direction, kind) ∈ Header.table ∧
    Header.kind? t = if gap = [' '] ∧ Header.endsHeader rest = true then some kind else none := by
  have htable : ∀ keyword ∈ flowchartWords, ∀ direction ∈ Header.directions,
      ∃ p ∈ Header.table, p.1 = keyword ++ ' ' :: direction ∧ p.2.isFlowchart = true := by
    decide +kernel
  obtain ⟨⟨header, kind⟩, hmem, rfl, hkind⟩ :=
    htable _ h.mem_flowchartWords _ h.mem_directions
  refine ⟨kind, hkind, hmem, ?_⟩
  by_cases hgap : gap = [' ']
  · have ht : t = (keyword ++ ' ' :: direction) ++ rest := by
      rw [h.text_eq, hgap]
      simp
    rw [ht, Header.kind?_append hmem]
    simp [hgap]
  · rw [if_neg (by simp [hgap])]
    exact not_not.1 (mt h.gap_eq_of_kind? hgap)

end Opens

/-! ## Diagrams -/

theorem trim_dropWhile_isPad (t : Text) : trim (t.dropWhile isPad) = trim t := by
  have hpads : ∀ c ∈ t.takeWhile isPad, isBlank c = true := fun c hc =>
    Label.isBlank_of_isPad (List.mem_takeWhile_imp hc)
  conv => rhs; rw [← List.takeWhile_append_dropWhile (p := isPad) (l := t), trim, trimStart,
    List.dropWhile_append_of_pos hpads]
  rfl

/-- A diagram that is found without a fence opens with a flowchart header. -/
theorem exists_opens_diagram {message : Text} (hfenced : fenced? message = none)
    (hne : diagram message ≠ []) :
    ∃ keyword gap direction rest, Opens (diagram message) keyword gap direction rest := by
  unfold diagram at hne ⊢
  rw [hfenced] at hne ⊢
  cases hbare : bareFrom? true message with
  | none => simp [hbare] at hne
  | some t =>
    simp only [Option.orElse_eq_orElse, Option.orElse_none]
    obtain ⟨keyword, gap, direction, rest, h⟩ :=
      exists_opens_of_opensFlowchart (opensFlowchart_of_bareFrom? hbare)
    obtain ⟨v, hv⟩ := h.exists_trim
    rw [trim_dropWhile_isPad] at hv
    exact ⟨keyword, gap, direction, v, hv⟩

/-- A diagram that is found without a fence opens with a flowchart keyword, blanks and a direction.
If the blanks are one space and the header ends behind the direction, the diagram names the kind of
this header and is mended with it. Otherwise it names no kind, and another header is added. -/
theorem kind_diagram {message : Text} (hfenced : fenced? message = none)
    (hne : diagram message ≠ []) :
    ∃ keyword gap direction rest, Opens (diagram message) keyword gap direction rest ∧
      ∃ kind : DiagramKind, kind.isFlowchart = true ∧
        (keyword ++ ' ' :: direction, kind) ∈ Header.table ∧
        Header.ofSource? (diagram message) =
          (if gap = [' '] ∧ Header.endsHeader rest = true then some kind else none) ∧
        ∀ usualHeader stem,
          let d := mend usualHeader stem (diagram message)
          (d.headerAdded = false ↔ gap = [' '] ∧ Header.endsHeader rest = true) ∧
            (d.headerAdded = false → d.kind = kind) := by
  obtain ⟨keyword, gap, direction, rest, h⟩ := exists_opens_diagram hfenced hne
  obtain ⟨kind, hflowchart, hmem, hkind⟩ := h.exists_kind
  have hsource : Header.ofSource? (diagram message) =
      if gap = [' '] ∧ Header.endsHeader rest = true then some kind else none := by
    obtain ⟨hne, hhead, hcomment⟩ := h.start
    have hread := Header.ofSource?_unlines (List.forall_mem_nil _) (List.forall_mem_nil _) hne
      hhead hcomment []
    rw [← hkind]
    exact hread
  refine ⟨keyword, gap, direction, rest, h, kind, hflowchart, hmem, hsource,
    fun usualHeader stem => ?_⟩
  intro d
  have hcases : (Header.ofSource? (diagram message) = some d.kind ∧ d.headerAdded = false) ∨
      (Header.ofSource? (diagram message) = none ∧ d.headerAdded = true) :=
    mend_kind_cases usualHeader stem (diagram message)
  rw [hsource] at hcases
  split at hcases
  · rename_i hkept
    obtain ⟨heq, hadded⟩ := hcases.resolve_right (by simp)
    exact ⟨iff_of_true hadded hkept, fun _ => (Option.some.inj heq).symm⟩
  · rename_i hnot
    obtain ⟨-, hadded⟩ := hcases.resolve_left (by simp)
    simp [hadded, hnot]

/-- A header that a statement follows on its line is kept, whatever header is usual. -/
theorem kind_diagram_across :
    let message := "Sure!\n\tgraph LR; A --> B\n".toList
    fenced? message = none ∧ diagram message = "graph LR; A --> B".toList ∧
      Header.ofSource? (diagram message) = some (.flowchart .across) ∧
      ∀ usualHeader stem,
        let d := mend usualHeader stem (diagram message)
        d.headerAdded = false ∧ d.kind = .flowchart .across := by
  intro message
  have hfenced : fenced? message = none := by decide +kernel
  have hdiagram : diagram message = "graph LR; A --> B".toList := by decide +kernel
  have hread : Header.ofSource? (diagram message) = some (.flowchart .across) := by decide +kernel
  obtain ⟨keyword, gap, direction, rest, -, kind, -, -, hsource, hmend⟩ :=
    kind_diagram hfenced (by rw [hdiagram]; decide)
  refine ⟨hfenced, hdiagram, hread, fun usualHeader stem => ?_⟩
  obtain ⟨hadded, hkind⟩ := hmend usualHeader stem
  rw [hread] at hsource
  split at hsource
  · rename_i hkept
    cases hsource
    exact ⟨hadded.2 hkept, hkind (hadded.2 hkept)⟩
  · cases hsource

/-- With two spaces in its header, a diagram that is found names no kind. It is mended with another
header, so its direction is lost. -/
theorem kind_diagram_lost :
    let message := "Sure!\ngraph  LR\nA --> B".toList
    let d := mend "graph TD".toList "MissingNode".toList (diagram message)
    fenced? message = none ∧ diagram message = "graph  LR\nA --> B".toList ∧
      Header.ofSource? (diagram message) = none ∧ d.headerAdded = true ∧
      d.kind = .flowchart .down ∧ d.lines = ["graph TD".toList, "A --> B".toList] := by
  decide +kernel

end Fence

end Flowmend
