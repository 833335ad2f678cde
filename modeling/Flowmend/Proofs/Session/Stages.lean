import Flowmend.Proofs.Session.Run

/-!
# The stages of a render

The log of a session holds the changes of stage of all its renders, one among the other; the stage
of the session follows the newest render only. `recorded` picks out one render.

* `Moves s s' generation steps`: the session goes on from `s` to `s'` by changes of stage of one
  render. `start_moves` and `finish_moves` say which way a start and an answer take.
* `Logged`: the inductive invariant. A render that waits has asked the engine, and one that has
  ended has gone one of four ways to its result (`run_recorded_paths`).
-/

namespace Flowmend.Session

open Text

/-! ## Ways through the stages -/

/-- The changes of stage of one render, in order. -/
def recorded (s : Session) (generation : Nat) : List Transition :=
  s.transitions.filter fun t => t.generation == generation

/-- The changes of stage of one render without their reasons. -/
def steps (s : Session) (generation : Nat) : List (Stage × Stage) :=
  (s.recorded generation).map fun t => (t.source, t.target)

/-- The changes of stage along a way. -/
def stepsOf (path : List Stage) : List (Stage × Stage) := path.zip path.tail

/-- The ways of a render to its result: at once, by the engine, by its graph, and by its text. -/
def paths : List (List Stage) :=
  [[.idle, .textShown],
   [.idle, .askingEngine, .documentShown],
   [.idle, .askingEngine, .readingGraph, .graphShown],
   [.idle, .askingEngine, .readingGraph, .takingText, .textShown]]

/-- The way leads to the result. -/
structure LeadsTo (path : List Stage) (r : Result) : Prop where
  mem : path ∈ paths
  last : path.getLast? = some r.stage

/-! ## What a session records -/

/-- The session goes on by changes of stage of one render; its stage follows them if the render is
the newest. -/
structure Moves (s s' : Session) (generation : Nat) (steps : List (Stage × Stage)) : Prop where
  newest : s'.generation = s.generation
  transitions : ∃ ts : List Transition, s'.transitions = s.transitions ++ ts ∧
    (∀ t ∈ ts, t.generation = generation) ∧ (ts.map fun t => (t.source, t.target)) = steps
  stage : s'.stage =
    if generation = s.generation then (steps.getLast?.map Prod.snd).getD s.stage else s.stage

theorem advance_moves (s : Session) (generation : Nat) (source target : Stage) (reason : String) :
    Moves s (s.advance generation source target reason) generation [(source, target)] where
  newest := rfl
  transitions := ⟨[⟨generation, source, target, reason⟩], rfl, by simp, rfl⟩
  stage := rfl

theorem commit_moves (s : Session) (c : Commit) : Moves s (s.commit c) c.generation [] := by
  have hfields : (s.commit c).generation = s.generation ∧
      (s.commit c).transitions = s.transitions ∧ (s.commit c).stage = s.stage := by
    unfold commit
    split <;> exact ⟨rfl, rfl, rfl⟩
  obtain ⟨h₁, h₂, h₃⟩ := hfields
  exact ⟨h₁, ⟨[], by simp [h₂], by simp, rfl⟩, by simp [h₃]⟩

theorem Moves.trans {s₁ s₂ s₃ : Session} {generation : Nat} {as bs : List (Stage × Stage)}
    (h₁ : Moves s₁ s₂ generation as) (h₂ : Moves s₂ s₃ generation bs) :
    Moves s₁ s₃ generation (as ++ bs) where
  newest := h₂.newest.trans h₁.newest
  transitions := by
    obtain ⟨ts, ht, htg, rfl⟩ := h₁.transitions
    obtain ⟨us, hu, hug, rfl⟩ := h₂.transitions
    refine ⟨ts ++ us, by rw [hu, ht, List.append_assoc], ?_, List.map_append⟩
    intro t hmem
    exact (List.mem_append.1 hmem).elim (htg t) (hug t)
  stage := by
    rw [h₂.stage, h₁.newest, h₁.stage]
    by_cases hg : generation = s₁.generation
    · simp only [if_pos hg, List.getLast?_append]
      cases bs.getLast? <;> rfl
    · simp only [if_neg hg]

section Moves

variable {s s' : Session} {generation : Nat} {as : List (Stage × Stage)}
  (h : Moves s s' generation as)

include h

/-- The changes are those of the one render. -/
theorem Moves.recorded_self : ∃ ts : List Transition,
    s'.recorded generation = s.recorded generation ++ ts ∧
      (ts.map fun t => (t.source, t.target)) = as := by
  obtain ⟨ts, ht, hg, hs⟩ := h.transitions
  refine ⟨ts, ?_, hs⟩
  rw [recorded, ht, List.filter_append]
  exact congrArg _ (List.filter_eq_self.2 fun t hmem => by simp [hg t hmem])

theorem Moves.recorded_other {other : Nat} (hne : other ≠ generation) :
    s'.recorded other = s.recorded other := by
  obtain ⟨ts, ht, hg, -⟩ := h.transitions
  have hnone : (ts.filter fun t => t.generation == other) = [] := by
    refine List.filter_eq_nil_iff.2 fun t hmem => ?_
    simpa [hg t hmem] using hne.symm
  rw [recorded, ht, List.filter_append, hnone, List.append_nil]
  rfl

theorem Moves.steps_self : s'.steps generation = s.steps generation ++ as := by
  obtain ⟨ts, ht, rfl⟩ := h.recorded_self
  rw [steps, ht, List.map_append]
  rfl

theorem Moves.steps_other {other : Nat} (hne : other ≠ generation) :
    s'.steps other = s.steps other := by
  rw [steps, h.recorded_other hne]
  rfl

end Moves

/-! ## Starts and answers -/

/-- A render that has asked the engine goes on to its result. -/
theorem succeed_moves (s : Session) (p : Pending) (document : Text) :
    ∃ path, LeadsTo (.idle :: .askingEngine :: path) (.svg document) ∧
      Moves s (s.succeed p document).1 p.generation (stepsOf (.askingEngine :: path)) :=
  ⟨[.documentShown], ⟨by simp [paths], rfl⟩, (advance_moves s _ _ _ _).trans (commit_moves _ _)⟩

theorem substitute_moves (s : Session) {p : Pending} (reason : String)
    (hb : p.mended.body?.isSome) :
    ∃ r path, (s.substitute p reason).2 = .ok r ∧
      LeadsTo (.idle :: .askingEngine :: path) r ∧
      Moves s (s.substitute p reason).1 p.generation (stepsOf (.askingEngine :: path)) := by
  obtain ⟨body, hb⟩ := Option.isSome_iff_exists.1 hb
  have hasked := advance_moves s p.generation .askingEngine .readingGraph reason
  unfold substitute
  simp only []
  split
  · rename_i positioned _
    exact ⟨.graph positioned, [.readingGraph, .graphShown], rfl, ⟨by simp [paths], rfl⟩,
      hasked.trans ((advance_moves _ _ _ _ _).trans (commit_moves _ _))⟩
  · simp only [Substitute.shown, hb]
    exact ⟨_, [.readingGraph, .takingText, .textShown], rfl, ⟨by simp [paths], rfl⟩,
      hasked.trans ((advance_moves _ _ _ _ _).trans
        ((advance_moves _ _ _ _ _).trans (commit_moves _ _)))⟩

/-- A start leads to a result at once, or as far as the engine. -/
theorem start_moves {s s' : Session} {source : Text} {started : Started}
    (h : s.start source = (s', started)) :
    (∃ r path, started = .done (.ok r) ∧ LeadsTo path r ∧
      Moves { s with generation := s.generation + 1 } s' (s.generation + 1) (stepsOf path)) ∨
    (∃ p, started = .waiting p ∧
      Moves { s with generation := s.generation + 1 } s' (s.generation + 1)
        (stepsOf [.idle, .askingEngine])) := by
  unfold start at h
  simp only [] at h
  by_cases hb : allBlank source
  · simp only [hb, if_true, Prod.mk.injEq] at h
    obtain ⟨rfl, rfl⟩ := h
    exact .inl ⟨_, [.idle, .textShown], rfl, ⟨by simp [paths], rfl⟩,
      (advance_moves _ _ _ _ _).trans (commit_moves _ _)⟩
  · simp only [hb, Bool.false_eq_true, if_false, Prod.mk.injEq] at h
    obtain ⟨rfl, rfl⟩ := h
    have hasked := advance_moves { s with generation := s.generation + 1 } (s.generation + 1)
      .idle .askingEngine ""
    exact .inr ⟨_, rfl, hasked.newest, hasked.transitions, hasked.stage⟩

/-- An answer leads from the engine to a result. -/
theorem finish_moves {s s' : Session} {generation : Nat} {diagram : Text}
    {outcome : Engine.Outcome} {result : Except RenderError Result}
    (hb : ∀ p ∈ s.pending, p.mended.body?.isSome)
    (h : s.finish generation diagram outcome = some (s', result)) :
    ∃ r path, result = .ok r ∧ LeadsTo (.idle :: .askingEngine :: path) r ∧
      Moves s s' generation (stepsOf (.askingEngine :: path)) := by
  obtain ⟨p, hp, ha⟩ := Option.map_eq_some_iff.1 h
  have hg : p.generation = generation := by simpa using List.find?_some hp
  subst hg
  rcases answer_cases s p diagram outcome with ⟨document, -, heq⟩ | ⟨failure, -, heq⟩
  · obtain ⟨path, hpath, hmoves⟩ := succeed_moves
      { s with pending := s.pending.filter fun q => q.generation != p.generation } p document
    obtain ⟨rfl, rfl⟩ := Prod.ext_iff.1 (heq.symm.trans ha)
    exact ⟨_, path, rfl, hpath, hmoves.newest, hmoves.transitions, hmoves.stage⟩
  · obtain ⟨r, path, hr, hpath, hmoves⟩ := substitute_moves
      { s with pending := s.pending.filter fun q => q.generation != p.generation }
      (failure.reason diagram) (hb p (List.mem_of_find?_eq_some hp))
    rw [← heq, ha] at hr hmoves
    exact ⟨r, path, hr, hpath, hmoves.newest, hmoves.transitions, hmoves.stage⟩

/-! ## The invariant -/

/-- The render waits, and has gone as far as the engine. -/
def Waits (s : Session) (generation : Nat) : Prop :=
  (∃ p ∈ s.pending, p.generation = generation) ∧
    s.steps generation = stepsOf [.idle, .askingEngine]

/-- The render has ended, and has gone the way to its result. -/
def HasEnded (endings : List Ending) (s : Session) (generation : Nat) : Prop :=
  ∃ e ∈ endings, e.generation = generation ∧
    ∃ r path, e.result = .ok r ∧ LeadsTo path r ∧ s.steps generation = stepsOf path

/-- What is recorded in every session of a run. -/
structure Logged (endings : List Ending) (s : Session) : Prop where
  started : ∀ g, 0 < g → g ≤ s.generation → s.Waits g ∨ HasEnded endings s g
  unstarted : ∀ g, g = 0 ∨ s.generation < g → s.steps g = []
  /-- The stage is that of the last change of the newest render. -/
  stage_eq : s.stage = ((s.steps s.generation).getLast?.map Prod.snd).getD .idle

namespace Logged

variable {settings : Settings} {sources : List Text} {endings endings' : List Ending}
  {s s' : Session}

theorem opened : Logged [] { settings } where
  started _ h₁ h₂ := absurd h₁ (Nat.not_lt.2 h₂)
  unstarted _ _ := rfl
  stage_eq := rfl

/-- One render moves, and waits or has ended then: one that waited, or one that is just started and
is the newest. -/
theorem move {n g : Nat} {as : List (Stage × Stage)} (h : Logged endings s)
    (hm : Moves { s with generation := n } s' g as) (has : as ≠ [])
    (hn : n = s.generation ∨ n = s.generation + 1 ∧ g = n) (hpos : 0 < g) (hle : g ≤ n)
    (hpending : ∀ p ∈ s.pending, p.generation ≠ g → p ∈ s'.pending)
    (hendings : ∀ e ∈ endings, e ∈ endings') (hself : s'.Waits g ∨ HasEnded endings' s' g) :
    Logged endings' s' where
  started k hk hkn := by
    by_cases hkg : k = g
    · rwa [hkg]
    have hkn : k ≤ n := hkn.trans_eq hm.newest
    have hsteps : s'.steps k = s.steps k := hm.steps_other hkg
    rcases h.started k hk (by omega) with ⟨⟨p, hp, hpk⟩, hw⟩ | ⟨e, he, hek, r, path, hr, hl, hw⟩
    · exact .inl ⟨⟨p, hpending p hp (hpk ▸ hkg), hpk⟩, hsteps.trans hw⟩
    · exact .inr ⟨e, hendings e he, hek, r, path, hr, hl, hsteps.trans hw⟩
  unstarted k hk := by
    have hnew : s'.generation = n := hm.newest
    have hsteps : s'.steps k = s.steps k := hm.steps_other (by omega)
    rw [hsteps]
    exact h.unstarted k (by omega)
  stage_eq := by
    have hnew : s'.generation = n := hm.newest
    rw [hm.stage, hnew]
    by_cases hg : g = n
    · subst hg
      simp [hm.steps_self, List.getLast?_eq_some_getLast has]
    · have hsteps : s'.steps n = s.steps n := hm.steps_other (Ne.symm hg)
      have hns : n = s.generation := hn.resolve_right fun hn => hg hn.2
      rw [if_neg hg, hsteps, hns]
      exact h.stage_eq

end Logged

theorem LeadsTo.stepsOf_ne_nil {path : List Stage} {r : Result} (h : LeadsTo path r) :
    stepsOf path ≠ [] := by
  have hpaths : ∀ path ∈ paths, stepsOf path ≠ [] := by decide
  exact hpaths path h.mem

/-- The engine is not where a way ends. -/
theorem LeadsTo.asked_ne_nil {path : List Stage} {r : Result}
    (h : LeadsTo (.idle :: .askingEngine :: path) r) : stepsOf (.askingEngine :: path) ≠ [] := by
  cases path with
  | nil =>
    have hlast := h.last
    cases r <;> cases hlast
  | cons stage path => simp [stepsOf]

/-- Every session of a run is logged. -/
theorem Run.logged {settings : Settings} {sources : List Text} {endings : List Ending}
    {s : Session} (hh : isComment settings.usualHeader = false)
    (hr : Run settings sources endings s) : Logged endings s := by
  induction hr with
  | opened => exact .opened
  | @waits sources endings s s' source p hr hs ih =>
    rcases start_moves hs with ⟨r, path, hd, -⟩ | ⟨q, -, hm⟩
    · cases hd
    rcases start_cases hs with ⟨r, hd, -⟩ | ⟨mended, hw, -, -, -, hp, -, -⟩
    · cases hd
    cases hw
    refine ih.move hm (by simp [stepsOf]) (.inr ⟨rfl, rfl⟩) (Nat.succ_pos _) (Nat.le_refl _)
      (fun q hq _ => by rw [hp]; exact List.mem_append_left _ hq) (fun e he => he)
      (.inl ⟨⟨_, by rw [hp]; exact List.mem_append_right _ (List.mem_singleton_self _), rfl⟩, ?_⟩)
    rw [hm.steps_self]
    exact congrArg (· ++ _) (ih.unstarted _ (.inr (Nat.lt_succ_self _)))
  | @endsAtOnce sources endings s s' source result hr hs ih =>
    have hc := hr.consistent hh
    rcases start_moves hs with ⟨r, path, hd, hl, hm⟩ | ⟨q, hw, -⟩
    swap
    · cases hw
    rcases start_cases hs with ⟨r', hd', hcloses⟩ | ⟨mended, hw, -⟩
    swap
    · cases hw
    cases hd
    refine ih.move hm hl.stepsOf_ne_nil (.inr ⟨rfl, rfl⟩) (Nat.succ_pos _) (Nat.le_refl _)
      (fun q hq _ => by rw [hcloses.pending]; exact hq) (fun e he => List.mem_append_left _ he)
      (.inr ⟨_, List.mem_append_right _ (List.mem_singleton_self _), ?_, r, path, rfl, hl, ?_⟩)
    · rw [hc.generation_eq]
    · rw [hm.steps_self]
      exact congrArg (· ++ _) (ih.unstarted _ (.inr (Nat.lt_succ_self _)))
  | @answered sources endings s s' generation diagram outcome result hr hf ih =>
    have hc := hr.consistent hh
    have hb := fun p hp => hc.pending_body hh (p := p) hp
    obtain ⟨r, path, rfl, hl, hm⟩ := finish_moves hb hf
    obtain ⟨p, hp, rfl, _, -, hcloses⟩ := finish_cases hb hf
    have hle : p.generation ≤ s.generation := hc.generation_eq ▸ hc.pending_le hp
    -- A render that waits has not ended before, so that it has asked the engine and no more.
    have hasked : s.steps p.generation = stepsOf [.idle, .askingEngine] := by
      rcases ih.started _ (hc.pending_pos p hp) hle with ⟨-, hw⟩ | ⟨e, he, heg, -⟩
      · exact hw
      · exact absurd heg (hc.pending_open p hp e he)
    refine ih.move hm hl.asked_ne_nil (.inl rfl) (hc.pending_pos p hp) hle (fun q hq hne => ?_)
      (fun e he => List.mem_append_left _ he)
      (.inr ⟨_, List.mem_append_right _ (List.mem_singleton_self _), rfl, r, _, rfl, hl, ?_⟩)
    · rw [hcloses.pending]
      exact List.mem_filter.2 ⟨hq, by simpa using hne⟩
    · rw [hm.steps_self, hasked]
      rfl

/-! ## The log of a run -/

/-- In every run, each render that was started either waits, and has then asked the engine, or has
ended once, and has then gone one of the four ways to the result that it gave its caller. The stage
of the session is that of the last change of the newest render. -/
theorem run_recorded_paths {settings : Settings} {sources : List Text} {endings : List Ending}
    {s : Session} (hh : isComment settings.usualHeader = false)
    (hr : Run settings sources endings s) :
    (∀ g, 0 < g → g ≤ sources.length →
      ((∃ p ∈ s.pending, p.generation = g) ∧ (∀ e ∈ endings, e.generation ≠ g) ∧
        s.steps g = [(.idle, .askingEngine)]) ∨
      ((∀ p ∈ s.pending, p.generation ≠ g) ∧ ∃ e ∈ endings, e.generation = g ∧
        ∃ r path, e.result = .ok r ∧ path ∈ paths ∧ path.getLast? = some r.stage ∧
          s.steps g = stepsOf path)) ∧
    (sources = [] → s.stage = .idle) ∧
    (sources ≠ [] → ∃ t, (s.recorded sources.length).getLast? = some t ∧ s.stage = t.target) := by
  have hc := hr.consistent hh
  have hl := hr.logged hh
  refine ⟨fun g hpos hle => ?_, fun hnone => ?_, fun hsome => ?_⟩
  · rcases hl.started g hpos (hc.generation_eq ▸ hle) with
      ⟨⟨p, hp, hpg⟩, hw⟩ | ⟨e, he, heg, r, path, hres, hpath, hw⟩
    · exact .inl ⟨⟨p, hp, hpg⟩, fun e he => hpg ▸ hc.pending_open p hp e he, hw⟩
    · exact .inr ⟨fun p hp hpg => hc.pending_open p hp e he (heg.trans hpg.symm),
        e, he, heg, r, path, hres, hpath.mem, hpath.last, hw⟩
  · have hzero : s.generation = 0 := by rw [hc.generation_eq, hnone]; rfl
    rw [hl.stage_eq, hl.unstarted _ (.inl hzero)]
    rfl
  · have hpos : 0 < s.generation := hc.generation_eq ▸ List.length_pos_iff.2 hsome
    have hne : s.steps s.generation ≠ [] := by
      rcases hl.started _ hpos (Nat.le_refl _) with ⟨-, hw⟩ | ⟨e, -, -, r, path, -, hpath, hw⟩
      · rw [hw]
        simp [stepsOf]
      · rw [hw]
        exact hpath.stepsOf_ne_nil
    have hstage := hl.stage_eq
    rw [← hc.generation_eq]
    rw [steps, List.getLast?_map] at hstage
    rw [steps, Ne, List.map_eq_nil_iff] at hne
    obtain ⟨t, ht⟩ : ∃ t, (s.recorded s.generation).getLast? = some t :=
      ⟨_, List.getLast?_eq_some_getLast hne⟩
    rw [ht] at hstage
    exact ⟨t, ht, hstage⟩

/-- The first render waits while the second one ends at once, and then ends behind its back. -/
theorem run_recorded_paths_overlap : ∃ s : Session,
    isComment ({} : Settings).usualHeader = false ∧
    Run {} [['A'], []]
      [⟨2, 2, .ok (.text ({} : Settings).blankNotice)⟩, ⟨1, 2, .ok (.svg ['x'])⟩] s ∧
    (∃ path ∈ paths, path.getLast? = some .documentShown ∧ s.steps 1 = stepsOf path) ∧
    ∃ t, (s.recorded 2).getLast? = some t ∧ s.stage = t.target := by
  have hh : isComment ({} : Settings).usualHeader = false := by decide
  have h₀ : Run {} [] [] _ := .opened
  have h₁ : Run {} [['A']] [] _ := .waits h₀ rfl
  have h₂ : Run {} [['A'], []] [⟨2, 2, _⟩] _ := .endsAtOnce h₁ rfl
  have h₃ := h₂.answered (rfl : finish _ 1 [] (.svg ['x']) = some (_, .ok (.svg ['x'])))
  obtain ⟨hpaths, -, hstage⟩ := run_recorded_paths hh h₃
  refine ⟨_, hh, h₃, ?_, hstage (by decide)⟩
  rcases hpaths 1 (by decide) (by decide) with
    ⟨⟨p, hp, -⟩, -⟩ | ⟨-, e, he, heg, r, path, hr, hp, hl, hs⟩
  · cases (show p ∈ ([] : List Pending) from hp)
  · simp only [List.cons_append, List.nil_append, List.mem_cons, List.not_mem_nil, or_false] at he
    rcases he with rfl | rfl
    · cases heg
    · cases hr
      exact ⟨path, hp, hl, hs⟩

end Flowmend.Session
