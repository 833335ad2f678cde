import Flowmend.Proofs.Drawing.Alphabet
import Flowmend.Proofs.Graph.Labels
import Flowmend.Proofs.Session.Isolation
import Flowmend.Proofs.Session.Results

/-!
# Renders against drawings

With the usual settings, a render whose engine fails has the graph that is drawn for its source, and
a text if the drawing is empty (`renderOnce_cases`). How the engine fails makes no difference
(`renderOnce_of_failsFor`). A drawing has no escape character, as its labels are cleaned
(`escape_notMem_drawing`).
-/

namespace Flowmend

open Text

/-- The document that a source is mended to with the usual settings. -/
def mendUsual (source : Text) : Mended :=
  mend ({} : Settings).usualHeader ({} : Settings).placeholderStem source

/-! ## Blank sources -/

theorem text_mendUsual_of_allBlank {source : Text} (h : allBlank source = true) :
    (mendUsual source).text = "graph TD".toList := by
  have hlines := numberedLines_of_allBlank h
  simp only [mendUsual, mend, Mender.mend, hlines]
  rfl

/-- A blank source has no graph. -/
theorem Substitute.positioned?_of_allBlank {source : Text} (h : allBlank source = true) :
    positioned? {} source (mendUsual source) = none := by
  have hmended : Graph.extract ({} : Settings).labelLimit "graph TD".toList = .empty := by
    decide +kernel
  have hsource : Graph.extract ({} : Settings).labelLimit source = .empty := by
    rw [Graph.extract, Extract.draft, numberedLines_of_allBlank h]
    rfl
  rw [positioned?, graph, text_mendUsual_of_allBlank h, hmended, hsource]
  rfl

/-! ## Drawings of sources -/

/-- What is drawn of a source is the graph that takes the place of its document. -/
theorem drawSource_eq (cs : Charset) (padding : Int) (source : Text) :
    drawSource cs padding source =
      match Substitute.positioned? {} source (mendUsual source) with
      | some p => draw cs padding p
      | none => .ok [] := by
  unfold drawSource Substitute.positioned?
  show draw cs padding (layout {} (Substitute.graph _ source (mendUsual source))) = _
  simp only []
  split
  · rename_i p hp
    split at hp
    · cases hp
    · rw [← Option.some.inj hp]
  · rename_i hnone
    split at hnone
    · rename_i hempty
      have hnodes := List.isEmpty_iff.1 hempty
      rw [draw, if_pos (by simp [layout, hnodes])]
    · cases hnone

/-- A graph in place of a document is placed, and its drawing is not empty. -/
theorem Substitute.exists_drawing {source : Text} {p : Positioned}
    (h : positioned? {} source (mendUsual source) = some p) (cs : Charset) (padding : Int) :
    p.Placed ∧ ∃ drawing, draw cs padding p = .ok drawing ∧ drawing ≠ [] := by
  have hg := wellFormed_graph ({} : Settings).labelLimit source (mendUsual source)
  simp only [positioned?] at h
  split at h
  · cases h
  · rename_i hsome
    rw [← Option.some.inj h]
    have hplaced := hg.placed_layout {}
    refine ⟨hplaced, _, hplaced.draw_eq cs padding, ?_⟩
    have hpositions : (layout {} (graph ({} : Settings).labelLimit source
        (mendUsual source))).positions.isEmpty = false := by
      simpa [layout, Graph.isEmpty] using hsome
    rw [hpositions, if_neg Bool.false_ne_true]
    exact List.append_ne_nil_of_right_ne_nil _ (List.cons_ne_nil _ _)

/-- A drawing has no escape character. -/
theorem escape_notMem_drawing {cs : Charset} {padding : Int} {source drawing : Text}
    (h : drawSource cs padding source = .ok drawing) : '\x1b' ∉ drawing := by
  intro hc
  have hplaced := (Substitute.wellFormed_graph ({} : Settings).labelLimit source
    (mendUsual source)).placed_layout {}
  rcases draw_chars hplaced h hc with hc | hc | ⟨n, hn, hc⟩
  · exact absurd hc (by decide)
  · revert hc
    cases cs <;> decide
  · have hplain : Label.isPlain '\x1b' = true := by
      change n ∈ (Substitute.graph ({} : Settings).labelLimit source (mendUsual source)).nodes at hn
      simp only [Substitute.graph] at hn
      split at hn <;> exact Graph.isPlain_of_mem_label hn hc
    exact absurd hplain (by decide)

/-! ## Renders -/

/-- The engine fails for the document that the source is mended to. -/
def FailsFor (source : Text) (engine : Text → Engine.Outcome) : Prop :=
  ∃ failure, engine (mendUsual source).text = .failed failure

theorem failsFor_unavailable (source : Text) : FailsFor source fun _ => .failed .unavailable :=
  ⟨_, rfl⟩

variable {source : Text} {engine : Text → Engine.Outcome}

/-- What a render gives if the engine fails. -/
theorem renderOnce_eq_of_failsFor (h : FailsFor source engine) (diagram : Text) :
    renderOnce {} source diagram engine =
      if allBlank source = true then .ok (.text ({} : Settings).blankNotice)
      else Session.resultOf {} source (mendUsual source) (.failed .unavailable) := by
  obtain ⟨failure, hfailure⟩ := h
  have heq := Session.renderOnce_eq {} source diagram engine
  change _ = if _ then _ else Session.resultOf {} source (mendUsual source)
    (engine (mendUsual source).text) at heq
  rw [heq, hfailure, Session.resultOf_failed _ _ _ failure .unavailable]

/-- The result of a render does not depend on how the engine fails. -/
theorem renderOnce_of_failsFor (h : FailsFor source engine) (diagram : Text) :
    renderOnce {} source diagram engine =
      renderOnce {} source [] fun _ => .failed .unavailable := by
  rw [renderOnce_eq_of_failsFor h, renderOnce_eq_of_failsFor (failsFor_unavailable source)]

/-- A render whose engine fails has the graph that is drawn, or a text if there is no graph. -/
theorem renderOnce_cases (h : FailsFor source engine) (diagram : Text) :
    (∃ p, Substitute.positioned? {} source (mendUsual source) = some p ∧
      renderOnce {} source diagram engine = .ok (.graph p)) ∨
    Substitute.positioned? {} source (mendUsual source) = none ∧
      ∃ shown, renderOnce {} source diagram engine = .ok (.text shown) ∧
        (allBlank source = false → Substitute.shown {} source (mendUsual source) = .ok shown) := by
  have heq := renderOnce_eq_of_failsFor h diagram
  by_cases hb : allBlank source = true
  · rw [if_pos hb] at heq
    exact .inr ⟨Substitute.positioned?_of_allBlank hb, _, heq, fun hb' => by simp [hb] at hb'⟩
  rw [if_neg hb, Session.resultOf] at heq
  cases hp : Substitute.positioned? {} source (mendUsual source) with
  | some p =>
    rw [hp] at heq
    exact .inl ⟨p, rfl, heq⟩
  | none =>
    rw [hp] at heq
    obtain ⟨body, hbody⟩ := Option.isSome_iff_exists.1
      (body?_mend_isSome (by decide : isComment ({} : Settings).usualHeader = false)
        ({} : Settings).placeholderStem source)
    have hshows : ∃ shown, Substitute.shown {} source (mendUsual source) = .ok shown := by
      rw [Substitute.shown, show (mendUsual source).body? = some body from hbody]
      exact ⟨_, rfl⟩
    obtain ⟨shown, hshown⟩ := hshows
    rw [hshown] at heq
    exact .inr ⟨rfl, shown, heq, fun _ => hshown⟩

end Flowmend
