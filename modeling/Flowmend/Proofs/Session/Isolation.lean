import Flowmend.Proofs.Session.Run

/-!
# Renders that overlap do not influence each other

`Dialogue` is a run together with the answers of the engine. What the caller of a render gets is a
function of the settings, the source and the answer (`resultOf`), whatever other renders do in
between: it is the result of a single render (`dialogue_results_alone`). The engine is given the
text of each source that is not blank once, if it has time at all; without time it is given none
(`requests_without_time`). Which failure it was only shows in the reasons of transitions.
-/

namespace Flowmend.Session

open Text

/-! ## Runs with their answers -/

/-- The end of a render, with the answer of the engine if the render waited for one. -/
structure Reply extends Ending where
  outcome : Option Engine.Outcome

/-- The runs of a session, each end with the answer that led to it. -/
inductive Dialogue (settings : Settings) : List Text → List Reply → Session → Prop
  | opened : Dialogue settings [] [] { settings }
  | waits {sources : List Text} {replies : List Reply} {s s' : Session} {source : Text}
      {p : Pending} : Dialogue settings sources replies s → s.start source = (s', .waiting p) →
      Dialogue settings (sources ++ [source]) replies s'
  | endsAtOnce {sources : List Text} {replies : List Reply} {s s' : Session} {source : Text}
      {result : Except RenderError Result} : Dialogue settings sources replies s →
      s.start source = (s', .done result) →
      Dialogue settings (sources ++ [source])
        (replies ++ [⟨⟨sources.length + 1, sources.length + 1, result⟩, none⟩]) s'
  | answered {sources : List Text} {replies : List Reply} {s s' : Session} {generation : Nat}
      {diagram : Text} {outcome : Engine.Outcome} {result : Except RenderError Result} :
      Dialogue settings sources replies s →
      s.finish generation diagram outcome = some (s', result) →
      Dialogue settings sources
        (replies ++ [⟨⟨generation, sources.length, result⟩, some outcome⟩]) s'

section Dialogue

variable {settings : Settings} {sources : List Text} {s : Session}

theorem Dialogue.run {replies : List Reply} (h : Dialogue settings sources replies s) :
    Run settings sources (replies.map Reply.toEnding) s := by
  induction h with
  | opened => exact .opened
  | waits _ hs ih => exact ih.waits hs
  | endsAtOnce _ hs ih =>
    rw [List.map_append]
    exact ih.endsAtOnce hs
  | answered _ hf ih =>
    rw [List.map_append]
    exact ih.answered hf

end Dialogue

/-! ## What the caller gets -/

/-- The result of a render of a source that is not blank, from the answer of the engine. -/
def resultOf (settings : Settings) (source : Text) (mended : Mended) :
    Engine.Outcome → Except RenderError Result
  | .svg document => .ok (.svg document)
  | .failed _ =>
    match Substitute.positioned? settings source mended with
    | some positioned => .ok (.graph positioned)
    | none => (Substitute.shown settings source mended).map .text

/-- The result of a render does not tell one failure from another. -/
theorem resultOf_failed (settings : Settings) (source : Text) (mended : Mended)
    (failure failure' : Engine.Failure) :
    resultOf settings source mended (.failed failure) =
      resultOf settings source mended (.failed failure') :=
  rfl

theorem result_substitute (s : Session) (p : Pending) (reason : String)
    (failure : Engine.Failure) :
    (s.substitute p reason).2 = resultOf s.settings p.source p.mended (.failed failure) := by
  simp only [substitute, resultOf, settings_advance]
  cases Substitute.positioned? s.settings p.source p.mended with
  | some positioned => rfl
  | none => cases Substitute.shown s.settings p.source p.mended <;> rfl

theorem result_answer (s : Session) (p : Pending) (diagram : Text) (outcome : Engine.Outcome) :
    (s.answer p diagram outcome).2 =
      resultOf s.settings p.source p.mended (heard s.settings outcome) := by
  rcases answer_cases s p diagram outcome with ⟨document, hheard, heq⟩ | ⟨failure, hheard, heq⟩
  · rw [heq, hheard]
    rfl
  · rw [heq, hheard]
    exact result_substitute _ _ _ failure

/-- What a start gives depends on the settings and the source only, but for its number. -/
theorem started_eq (s : Session) (source : Text) :
    (s.start source).2 =
      if allBlank source then .done (.ok (.text s.settings.blankNotice))
      else .waiting ⟨s.generation + 1, source,
        mend s.settings.usualHeader s.settings.placeholderStem source⟩ := by
  unfold start
  by_cases hb : allBlank source <;> simp [hb]

/-- The result of a single render. -/
theorem renderOnce_eq (settings : Settings) (source diagram : Text)
    (engine : Text → Engine.Outcome) :
    renderOnce settings source diagram engine =
      let mended := mend settings.usualHeader settings.placeholderStem source
      if allBlank source then .ok (.text settings.blankNotice)
      else resultOf settings source mended
        (if settings.engineHasTime then engine mended.text else .failed .timedOut) := by
  unfold renderOnce render start
  by_cases hb : allBlank source
  · simp only [hb, if_true]
  · simp only [hb, Bool.false_eq_true, if_false, settings_advance]
    exact result_answer _ _ _ _

/-- The texts that the engine is given for a source. -/
def asked (settings : Settings) (source : Text) : List Text :=
  if allBlank source || !settings.engineHasTime then []
  else [(mend settings.usualHeader settings.placeholderStem source).text]

theorem requests_start (s : Session) (source : Text) :
    (s.start source).1.requests = s.requests ++ asked s.settings source := by
  unfold start asked
  by_cases hb : allBlank source
  · simp only [hb, if_true, Bool.true_or, List.append_nil]
    exact (commit_closes _ _).of_advance.requests
  · by_cases ht : s.settings.engineHasTime <;> simp [hb, ht, advance]

/-! ## Failures -/

/-- The session with the reasons of its transitions left out. -/
def withoutReasons (s : Session) : Session :=
  { s with transitions := s.transitions.map fun t => { t with reason := "" } }

/-- Two failures lead to the same result and to sessions that differ only in reasons. -/
theorem substitute_congr (s : Session) (p : Pending) (reason reason' : String) :
    (s.substitute p reason).2 = (s.substitute p reason').2 ∧
      (s.substitute p reason).1.withoutReasons = (s.substitute p reason').1.withoutReasons := by
  refine ⟨?_, ?_⟩
  · rw [result_substitute _ _ _ .timedOut, result_substitute _ _ _ .timedOut]
  · simp only [substitute, settings_advance]
    cases Substitute.positioned? s.settings p.source p.mended with
    | some positioned =>
      by_cases hg : p.generation = s.generation <;>
        simp [commit, advance, withoutReasons, hg]
    | none =>
      cases Substitute.shown s.settings p.source p.mended <;>
        by_cases hg : p.generation = s.generation <;>
          simp [commit, advance, withoutReasons, hg]

/-- A failure is heard as a failure. -/
theorem heard_failed (settings : Settings) (failure : Engine.Failure) :
    ∃ failure', heard settings (.failed failure) = .failed failure' := by
  unfold heard
  split <;> exact ⟨_, rfl⟩

theorem answer_failed_congr (s : Session) (p : Pending) (diagram diagram' : Text)
    (failure failure' : Engine.Failure) :
    (s.answer p diagram (.failed failure)).map withoutReasons id =
      (s.answer p diagram' (.failed failure')).map withoutReasons id := by
  obtain ⟨f, hf⟩ := heard_failed s.settings failure
  obtain ⟨f', hf'⟩ := heard_failed s.settings failure'
  obtain ⟨hresult, hsession⟩ := substitute_congr
    { s with pending := s.pending.filter fun q => q.generation != p.generation } p
    (f.reason diagram) (f'.reason diagram')
  simp only [answer, hf, hf']
  refine Prod.ext ?_ ?_
  · rw [Prod.map_fst, Prod.map_fst, hsession]
  · rw [Prod.map_snd, Prod.map_snd, hresult]

theorem finish_failed_congr (s : Session) (generation : Nat) (diagram diagram' : Text)
    (failure failure' : Engine.Failure) :
    (s.finish generation diagram (.failed failure)).map (Prod.map withoutReasons id) =
      (s.finish generation diagram' (.failed failure')).map (Prod.map withoutReasons id) := by
  rw [finish, finish, Option.map_map, Option.map_map]
  refine congrArg (fun f => Option.map f _) (funext fun p => ?_)
  exact answer_failed_congr s p diagram diagram' failure failure'

/-! ## The invariant -/

/-- The reply is that of a single render of the source, with an engine that answers the same. -/
def IsAlone (settings : Settings) (sources : List Text) (r : Reply) : Prop :=
  0 < r.generation ∧ ∃ source, sources[r.generation - 1]? = some source ∧
    ∀ diagram engine, (∀ outcome, r.outcome = some outcome →
      engine (mend settings.usualHeader settings.placeholderStem source).text = outcome) →
      r.result = renderOnce settings source diagram engine

theorem IsAlone.append {settings : Settings} {sources : List Text} {r : Reply}
    (h : IsAlone settings sources r) (source : Text) :
    IsAlone settings (sources ++ [source]) r := by
  obtain ⟨hpos, t, ht, heq⟩ := h
  obtain ⟨hlt, -⟩ := List.getElem?_eq_some_iff.1 ht
  exact ⟨hpos, t, by rw [List.getElem?_append_left hlt]; exact ht, heq⟩

/-- What the engine was given and gave in every run with answers. -/
structure Conversed (settings : Settings) (sources : List Text) (replies : List Reply)
    (s : Session) : Prop where
  alone : ∀ r ∈ replies, IsAlone settings sources r
  requests_eq : s.requests = sources.flatMap (asked settings)

/-- A start that ends at once has the result of a single render, with any engine. -/
theorem alone_of_done {s s' : Session} {source : Text} {result : Except RenderError Result}
    (h : s.start source = (s', .done result)) (diagram : Text) (engine : Text → Engine.Outcome) :
    result = renderOnce s.settings source diagram engine := by
  have hstarted := started_eq s source
  rw [h] at hstarted
  rw [renderOnce_eq]
  by_cases hb : allBlank source
  · simpa [hb] using hstarted
  · simp [hb] at hstarted

/-- A render that waited has the result of a single render, with an engine that answers the same. -/
theorem alone_of_answer {settings : Settings} {source : Text} (hb : allBlank source = false)
    (diagram : Text) {engine : Text → Engine.Outcome} {outcome : Engine.Outcome}
    (he : engine (mend settings.usualHeader settings.placeholderStem source).text = outcome) :
    resultOf settings source (mend settings.usualHeader settings.placeholderStem source)
        (heard settings outcome) =
      renderOnce settings source diagram engine := by
  rw [renderOnce_eq]
  simp [hb, he, heard]

/-! ## The steps -/

namespace Conversed

variable {settings : Settings} {sources : List Text} {replies : List Reply} {s s' : Session}
  (h : Conversed settings sources replies s)
  (hc : Consistent settings sources (replies.map Reply.toEnding) s)

include h hc

/-- With a start, the engine is given what is asked for its source. -/
theorem start {source : Text} {started : Started} (hs : s.start source = (s', started)) :
    Conversed settings (sources ++ [source]) replies s' where
  alone r hr := (h.alone r hr).append source
  requests_eq := by
    have hrequests := requests_start s source
    rw [hs, h.requests_eq, hc.settings_eq] at hrequests
    simpa using hrequests

/-- A render that ends at once has its reply without the engine. -/
theorem endsAtOnce {source : Text} {result : Except RenderError Result}
    (hs : s.start source = (s', .done result)) : Conversed settings (sources ++ [source])
      (replies ++ [⟨⟨sources.length + 1, sources.length + 1, result⟩, none⟩]) s' where
  alone r hr := by
    rcases List.mem_append.1 hr with hr | hr
    · exact (h.start hc hs).alone r hr
    obtain rfl := List.mem_singleton.1 hr
    exact ⟨Nat.succ_pos _, source, by simp,
      fun diagram engine _ => hc.settings_eq ▸ alone_of_done hs diagram engine⟩
  requests_eq := (h.start hc hs).requests_eq

/-- The engine answers a render that waits, which has the result of its own source. -/
theorem answered (hh : isComment settings.usualHeader = false) {generation : Nat} {diagram : Text}
    {outcome : Engine.Outcome} {result : Except RenderError Result}
    (hf : s.finish generation diagram outcome = some (s', result)) :
    Conversed settings sources
      (replies ++ [⟨⟨generation, sources.length, result⟩, some outcome⟩]) s' := by
  obtain ⟨p, hp, ha⟩ := Option.map_eq_some_iff.1 hf
  have hmem := List.mem_of_find?_eq_some hp
  have hg : p.generation = generation := by simpa using List.find?_some hp
  obtain ⟨hb, hm⟩ := mendedOf_eq_some (hc.pending_mended p hmem)
  have hresult : result = resultOf settings p.source p.mended (heard settings outcome) := by
    rw [← hc.settings_eq, ← result_answer s p diagram outcome, ha]
  obtain ⟨_, -, -, _, -, hcloses⟩ := finish_cases (fun p hp => hc.pending_body hh hp) hf
  constructor
  · intro r hr
    rcases List.mem_append.1 hr with hr | hr
    · exact h.alone r hr
    obtain rfl := List.mem_singleton.1 hr
    subst hg
    refine ⟨hc.pending_pos p hmem, p.source, hc.pending_source p hmem, fun diagram engine he => ?_⟩
    rw [← alone_of_answer hb diagram (he outcome rfl), hm]
    exact hresult
  · exact hcloses.requests.trans h.requests_eq

end Conversed

/-- In every run with answers the replies are those of single renders, and the engine was given the
texts of the sources. -/
theorem Dialogue.conversed {settings : Settings} {sources : List Text} {replies : List Reply}
    {s : Session} (hh : isComment settings.usualHeader = false)
    (hd : Dialogue settings sources replies s) : Conversed settings sources replies s := by
  induction hd with
  | opened => constructor <;> simp
  | waits hd hs ih => exact ih.start (hd.run.consistent hh) hs
  | endsAtOnce hd hs ih => exact ih.endsAtOnce (hd.run.consistent hh) hs
  | answered hd hf ih => exact ih.answered (hd.run.consistent hh) hh hf

/-! ## Sessions against single renders -/

theorem flatMap_asked (settings : Settings) (sources : List Text) :
    sources.flatMap (asked settings) =
      if settings.engineHasTime then
        (sources.filter fun t => !allBlank t).map fun t =>
          (mend settings.usualHeader settings.placeholderStem t).text
      else [] := by
  induction sources with
  | nil => simp
  | cons t ts ih =>
    rw [List.flatMap_cons, ih]
    by_cases hb : allBlank t <;> by_cases ht : settings.engineHasTime <;> simp [asked, hb, ht]

/-- In every run, whatever overlaps, each render that has ended gave its caller the result of a
single render of its source with an engine that answers the same. An engine with time was given
the mended text of each source that is not blank once, in the order of the starts, and nothing
else; an engine without time was given nothing. And two answers that are failures lead to the same
result and to sessions that differ only in reasons. -/
theorem dialogue_results_alone {settings : Settings} {sources : List Text} {replies : List Reply}
    {s : Session} (hh : isComment settings.usualHeader = false)
    (hd : Dialogue settings sources replies s) :
    (∀ r ∈ replies, 0 < r.generation ∧ ∃ source, sources[r.generation - 1]? = some source ∧
      ∀ diagram engine, (∀ outcome, r.outcome = some outcome →
        engine (mend settings.usualHeader settings.placeholderStem source).text = outcome) →
        r.result = renderOnce settings source diagram engine) ∧
    s.requests =
      (if settings.engineHasTime then
        (sources.filter fun t => !allBlank t).map fun t =>
          (mend settings.usualHeader settings.placeholderStem t).text
      else []) ∧
    (∀ generation diagram diagram' failure failure',
      (s.finish generation diagram (.failed failure)).map (Prod.map withoutReasons id) =
        (s.finish generation diagram' (.failed failure')).map (Prod.map withoutReasons id)) := by
  have h := hd.conversed hh
  exact ⟨h.alone, by rw [h.requests_eq, flatMap_asked], finish_failed_congr s⟩

/-- A render that was overtaken gets the document that the engine gave for it. -/
theorem dialogue_results_alone_overlap : ∃ s : Session,
    isComment ({} : Settings).usualHeader = false ∧
    Dialogue {} [['A'], []]
      [⟨⟨2, 2, .ok (.text ({} : Settings).blankNotice)⟩, none⟩,
        ⟨⟨1, 2, .ok (.svg ['x'])⟩, some (.svg ['x'])⟩] s ∧
    renderOnce {} ['A'] [] (fun _ => .svg ['x']) = .ok (.svg ['x']) ∧
    s.requests =
      [(mend ({} : Settings).usualHeader ({} : Settings).placeholderStem ['A']).text] := by
  have hh : isComment ({} : Settings).usualHeader = false := by decide
  have h₀ : Dialogue {} [] [] _ := .opened
  have h₁ : Dialogue {} [['A']] [] _ := .waits h₀ rfl
  have h₂ : Dialogue {} [['A'], []] [⟨⟨2, 2, _⟩, none⟩] _ := .endsAtOnce h₁ rfl
  have h₃ := h₂.answered (rfl : finish _ 1 [] (.svg ['x']) = some (_, .ok (.svg ['x'])))
  obtain ⟨halone, hrequests, -⟩ := dialogue_results_alone hh h₃
  refine ⟨_, hh, h₃, ?_, hrequests⟩
  obtain ⟨-, source, hsource, heq⟩ := halone ⟨⟨1, 2, .ok (.svg ['x'])⟩, some (.svg ['x'])⟩ (by simp)
  cases hsource
  exact (heq [] (fun _ => .svg ['x']) (by rintro _ ⟨⟩; rfl)).symm

/-- An engine without time is not given the text of a source that is not blank. -/
theorem requests_without_time :
    ¬∀ (settings : Settings) (sources : List Text) (replies : List Reply) (s : Session),
      isComment settings.usualHeader = false → Dialogue settings sources replies s →
      s.requests = (sources.filter fun t => !allBlank t).map fun t =>
        (mend settings.usualHeader settings.placeholderStem t).text := by
  intro h
  let settings : Settings := { engineHasTime := false }
  have hh : isComment settings.usualHeader = false := by decide
  have hd : Dialogue settings [['A']] [] _ := .waits .opened rfl
  have hrequests := h settings _ _ _ hh hd
  cases hrequests

end Flowmend.Session
