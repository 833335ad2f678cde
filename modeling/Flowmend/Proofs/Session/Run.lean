import Flowmend.Session
import Flowmend.Proofs.Repair.Header

/-!
# Runs of a session

`Run settings sources endings s`: starting renders of `sources` in that order, with the answers of
the engine coming in any order in between, leads to the session `s`; `endings` are the renders that
have ended, in the order of their ends. The runs are the states of all interleavings.

* `Closes s s' c`: all that the end of a render does to a session. `succeed_closes` and
  `substitute_closes` say it of the two ways to end, `start_cases` and `finish_cases` of the two
  operations of a session.
* `Consistent`: the inductive invariant, kept by every start (`Consistent.start`,
  `Consistent.wait`) and by every end (`Consistent.close`), hence true of every run
  (`Run.consistent`).
-/

namespace Flowmend.Session

open Text

/-! ## The runs -/

/-- The end of a render: its number, how many renders had been started by then, and its result. -/
structure Ending where
  generation : Nat
  started : Nat
  result : Except RenderError Result

/-- No later render had been started by the time of the end. -/
def Ending.isNewest (e : Ending) : Bool := e.generation == e.started

/-- The sessions that starts and answers lead to, with the sources in the order of the starts and
the endings in the order of the ends. A render is numbered by its place among the starts. -/
inductive Run (settings : Settings) : List Text → List Ending → Session → Prop
  | opened : Run settings [] [] { settings }
  | waits {sources : List Text} {endings : List Ending} {s s' : Session} {source : Text}
      {p : Pending} : Run settings sources endings s → s.start source = (s', .waiting p) →
      Run settings (sources ++ [source]) endings s'
  | endsAtOnce {sources : List Text} {endings : List Ending} {s s' : Session} {source : Text}
      {result : Except RenderError Result} : Run settings sources endings s →
      s.start source = (s', .done result) →
      Run settings (sources ++ [source])
        (endings ++ [⟨sources.length + 1, sources.length + 1, result⟩]) s'
  | answered {sources : List Text} {endings : List Ending} {s s' : Session} {generation : Nat}
      {diagram : Text} {outcome : Engine.Outcome} {result : Except RenderError Result} :
      Run settings sources endings s → s.finish generation diagram outcome = some (s', result) →
      Run settings sources (endings ++ [⟨generation, sources.length, result⟩]) s'

/-! ## What a session does -/

/-- All that the end of a render with the commit `c` does to a session: the result becomes current,
and the stage follows, if no newer render was started; the rest stays. -/
structure Closes (s s' : Session) (c : Commit) : Prop where
  settings : s'.settings = s.settings
  generation : s'.generation = s.generation
  pending : s'.pending = s.pending
  requests : s'.requests = s.requests
  committed : s'.committed =
    if c.generation = s.generation then s.committed ++ [c.generation] else s.committed
  current : s'.current = if c.generation = s.generation then some c else s.current
  stage : c.generation ≠ s.generation → s'.stage = s.stage

@[simp] theorem settings_advance (s : Session) (generation : Nat) (source target : Stage)
    (reason : String) : (s.advance generation source target reason).settings = s.settings := rfl

theorem commit_closes (s : Session) (c : Commit) : Closes s (s.commit c) c := by
  unfold commit
  by_cases h : c.generation = s.generation
  · simp only [h, if_true]
    constructor <;> simp [h]
  · simp only [h, if_false]
    constructor <;> simp [h]

/-- Changes of stage before the end are part of it. -/
theorem Closes.of_advance {s s' : Session} {c : Commit} {source target : Stage} {reason : String}
    (h : Closes (s.advance c.generation source target reason) s' c) : Closes s s' c where
  settings := h.settings
  generation := h.generation
  pending := h.pending
  requests := h.requests
  committed := h.committed
  current := h.current
  stage hn := by
    rw [h.stage hn]
    simp [advance, hn]

theorem succeed_closes (s : Session) (p : Pending) (document : Text) :
    (s.succeed p document).2 = .ok (.svg document) ∧
      Closes s (s.succeed p document).1 ⟨p.generation, .svg document, some p.mended⟩ :=
  ⟨rfl, (commit_closes _ _).of_advance⟩

/-- A render whose engine failed ends with a result, if its document has a header to leave out. -/
theorem substitute_closes (s : Session) {p : Pending} (reason : String)
    (hb : p.mended.body?.isSome) :
    ∃ r, (s.substitute p reason).2 = .ok r ∧
      Closes s (s.substitute p reason).1 ⟨p.generation, r, some p.mended⟩ := by
  obtain ⟨body, hb⟩ := Option.isSome_iff_exists.1 hb
  unfold substitute
  simp only []
  split
  · rename_i positioned _
    exact ⟨.graph positioned, rfl, (commit_closes _ _).of_advance.of_advance⟩
  · simp only [Substitute.shown, hb]
    exact ⟨_, rfl, (commit_closes _ _).of_advance.of_advance.of_advance⟩

/-- The mended document that a render of `source` commits: none if the source is blank. -/
def mendedOf (settings : Settings) (source : Text) : Option Mended :=
  if allBlank source then none
  else some (mend settings.usualHeader settings.placeholderStem source)

/-- Only of a source that is not blank there is a mended document to commit. -/
theorem mendedOf_eq_some {settings : Settings} {source : Text} {mended : Mended}
    (h : mendedOf settings source = some mended) :
    allBlank source = false ∧
      mend settings.usualHeader settings.placeholderStem source = mended := by
  unfold mendedOf at h
  split at h
  · cases h
  · rename_i hb
    exact ⟨Bool.eq_false_iff.2 hb, Option.some.inj h⟩

/-- A start ends the render at once, or adds it to those that wait. -/
theorem start_cases {s s' : Session} {source : Text} {started : Started}
    (h : s.start source = (s', started)) :
    (∃ r, started = .done (.ok r) ∧ Closes { s with generation := s.generation + 1 } s'
      ⟨s.generation + 1, r, mendedOf s.settings source⟩) ∨
    (∃ mended, started = .waiting ⟨s.generation + 1, source, mended⟩ ∧
      mendedOf s.settings source = some mended ∧ s'.settings = s.settings ∧
      s'.generation = s.generation + 1 ∧
      s'.pending = s.pending ++ [⟨s.generation + 1, source, mended⟩] ∧
      s'.committed = s.committed ∧ s'.current = s.current) := by
  unfold start at h
  simp only [] at h
  by_cases hb : allBlank source
  · simp only [hb, if_true, Prod.mk.injEq] at h
    obtain ⟨rfl, rfl⟩ := h
    refine .inl ⟨_, rfl, ?_⟩
    simp only [mendedOf, hb, if_true]
    exact (commit_closes _ _).of_advance
  · simp only [advance, hb, Bool.false_eq_true, if_false, Prod.mk.injEq] at h
    obtain ⟨rfl, rfl⟩ := h
    refine .inr ⟨_, rfl, ?_, rfl, rfl, rfl, rfl, rfl⟩
    simp [mendedOf, hb]

/-- A render that waits is taken from those that do, and ends by what is heard of the answer. -/
theorem answer_cases (s : Session) (p : Pending) (diagram : Text) (outcome : Engine.Outcome) :
    let left := { s with pending := s.pending.filter fun q => q.generation != p.generation }
    (∃ document, heard s.settings outcome = .svg document ∧
      s.answer p diagram outcome = left.succeed p document) ∨
    ∃ failure, heard s.settings outcome = .failed failure ∧
      s.answer p diagram outcome = left.substitute p (failure.reason diagram) := by
  intro left
  unfold answer
  cases h : heard s.settings outcome with
  | svg document => exact .inl ⟨document, rfl, by simp only [h, left]⟩
  | failed failure => exact .inr ⟨failure, rfl, by simp only [h, left]⟩

/-- A finish takes a render from those that wait and ends it. -/
theorem finish_cases {s s' : Session} {generation : Nat} {diagram : Text}
    {outcome : Engine.Outcome} {result : Except RenderError Result}
    (hb : ∀ p ∈ s.pending, p.mended.body?.isSome)
    (h : s.finish generation diagram outcome = some (s', result)) :
    ∃ p ∈ s.pending, p.generation = generation ∧ ∃ r, result = .ok r ∧
      Closes { s with pending := s.pending.filter fun q => q.generation != generation } s'
        ⟨generation, r, some p.mended⟩ := by
  obtain ⟨p, hp, ha⟩ := Option.map_eq_some_iff.1 h
  have hmem := List.mem_of_find?_eq_some hp
  have hg : p.generation = generation := by simpa using List.find?_some hp
  subst hg
  refine ⟨p, hmem, rfl, ?_⟩
  rcases answer_cases s p diagram outcome with ⟨document, -, heq⟩ | ⟨failure, -, heq⟩
  · obtain ⟨h₁, h₂⟩ := succeed_closes
      { s with pending := s.pending.filter fun q => q.generation != p.generation } p document
    rw [← heq, ha] at h₁ h₂
    exact ⟨_, h₁, h₂⟩
  · obtain ⟨r, h₁, h₂⟩ := substitute_closes
      { s with pending := s.pending.filter fun q => q.generation != p.generation }
      (failure.reason diagram) (hb p hmem)
    rw [← heq, ha] at h₁ h₂
    exact ⟨r, h₁, h₂⟩

/-! ## The invariant -/

/-- The commit `c` is that of the ending `e`: it holds the result that the render gave its caller,
and the mended document of that render's own source. -/
def Ending.StemsFrom (settings : Settings) (sources : List Text) (c : Commit) (e : Ending) : Prop :=
  c.generation = e.generation ∧ e.result = .ok c.result ∧
    ∃ source, sources[e.generation - 1]? = some source ∧ c.mended = mendedOf settings source

theorem Ending.StemsFrom.append {settings : Settings} {sources : List Text} {c : Commit}
    {e : Ending} (h : e.StemsFrom settings sources c) (source : Text) :
    e.StemsFrom settings (sources ++ [source]) c := by
  obtain ⟨hg, hr, t, ht, hm⟩ := h
  obtain ⟨hlt, -⟩ := List.getElem?_eq_some_iff.1 ht
  exact ⟨hg, hr, t, by rw [List.getElem?_append_left hlt]; exact ht, hm⟩

/-- What holds in every session of a run. -/
structure Consistent (settings : Settings) (sources : List Text) (endings : List Ending)
    (s : Session) : Prop where
  settings_eq : s.settings = settings
  generation_eq : s.generation = sources.length
  /-- A render that waits has a number and a source of its own, and has not ended. -/
  pending_pos : ∀ p ∈ s.pending, 0 < p.generation
  pending_source : ∀ p ∈ s.pending, sources[p.generation - 1]? = some p.source
  pending_mended : ∀ p ∈ s.pending, mendedOf settings p.source = some p.mended
  pending_open : ∀ p ∈ s.pending, ∀ e ∈ endings, e.generation ≠ p.generation
  /-- A render ends once, after its start. -/
  generation_le : ∀ e ∈ endings, e.generation ≤ e.started
  started_le : ∀ e ∈ endings, e.started ≤ sources.length
  started_sorted : endings.Pairwise fun e f => e.started ≤ f.started
  endings_nodup : endings.Pairwise fun e f => e.generation ≠ f.generation
  endings_ok : ∀ e ∈ endings, ∃ r, e.result = .ok r
  /-- The endings of the newest renders are those that commit. -/
  committed_eq : s.committed = (endings.filter Ending.isNewest).map Ending.generation
  current_rel : Option.Rel (fun c e => e.StemsFrom settings sources c) s.current
    (endings.filter Ending.isNewest).getLast?

namespace Consistent

variable {settings : Settings} {sources : List Text} {endings : List Ending} {s s' : Session}

theorem pending_le (h : Consistent settings sources endings s) {p : Pending} (hp : p ∈ s.pending) :
    p.generation ≤ sources.length := by
  obtain ⟨hlt, -⟩ := List.getElem?_eq_some_iff.1 (h.pending_source p hp)
  omega

theorem pending_body (h : Consistent settings sources endings s)
    (hh : isComment settings.usualHeader = false) {p : Pending} (hp : p ∈ s.pending) :
    p.mended.body?.isSome := by
  rw [← (mendedOf_eq_some (h.pending_mended p hp)).2]
  exact body?_mend_isSome hh _ _

theorem opened : Consistent settings [] [] { settings } := by
  constructor <;> simp

/-- A start makes a further render the newest. -/
theorem start (h : Consistent settings sources endings s) (source : Text) :
    Consistent settings (sources ++ [source]) endings
      { s with generation := s.generation + 1 } where
  settings_eq := h.settings_eq
  generation_eq := by simp [h.generation_eq]
  pending_pos := h.pending_pos
  pending_source p hp := by
    obtain ⟨hlt, -⟩ := List.getElem?_eq_some_iff.1 (h.pending_source p hp)
    rw [List.getElem?_append_left hlt]
    exact h.pending_source p hp
  pending_mended := h.pending_mended
  pending_open := h.pending_open
  generation_le := h.generation_le
  started_le e he := by
    have := h.started_le e he
    simp only [List.length_append, List.length_singleton]
    omega
  started_sorted := h.started_sorted
  endings_nodup := h.endings_nodup
  endings_ok := h.endings_ok
  committed_eq := h.committed_eq
  current_rel := by
    have := h.current_rel
    revert this
    generalize s.current = current
    generalize (endings.filter Ending.isNewest).getLast? = last
    rintro (hs | _)
    · exact .some (hs.append source)
    · exact .none

/-- The render that was started is one of those that wait. -/
theorem wait (h : Consistent settings sources endings s) {source : Text} {mended : Mended}
    (hm : mendedOf settings source = some mended) (h₁ : s'.settings = s.settings)
    (h₂ : s'.generation = s.generation + 1)
    (h₃ : s'.pending = s.pending ++ [⟨s.generation + 1, source, mended⟩])
    (h₄ : s'.committed = s.committed) (h₅ : s'.current = s.current) :
    Consistent settings (sources ++ [source]) endings s' := by
  have hs := h.start source
  have hp : ∀ p ∈ s'.pending, p ∈ s.pending ∨ p = ⟨sources.length + 1, source, mended⟩ := by
    intro p hp
    rw [h₃, h.generation_eq] at hp
    simpa using hp
  constructor
  case settings_eq => exact h₁.trans hs.settings_eq
  case generation_eq => exact h₂.trans hs.generation_eq
  case pending_pos =>
    intro p hmem
    rcases hp p hmem with hmem | rfl
    · exact hs.pending_pos p hmem
    · exact Nat.succ_pos _
  case pending_source =>
    intro p hmem
    rcases hp p hmem with hmem | rfl
    · exact hs.pending_source p hmem
    · simp
  case pending_mended =>
    intro p hmem
    rcases hp p hmem with hmem | rfl
    · exact hs.pending_mended p hmem
    · exact hm
  case pending_open =>
    intro p hmem e he
    rcases hp p hmem with hmem | rfl
    · exact hs.pending_open p hmem e he
    · have h₁ := h.generation_le e he
      have h₂ := h.started_le e he
      simp only
      omega
  case generation_le => exact hs.generation_le
  case started_le => exact hs.started_le
  case started_sorted => exact hs.started_sorted
  case endings_nodup => exact hs.endings_nodup
  case endings_ok => exact hs.endings_ok
  case committed_eq => exact h₄.trans hs.committed_eq
  case current_rel => rw [h₅]; exact hs.current_rel

/-- A render is taken from those that wait. -/
theorem leave (h : Consistent settings sources endings s) (generation : Nat) :
    Consistent settings sources endings
      { s with pending := s.pending.filter fun q => q.generation != generation } where
  settings_eq := h.settings_eq
  generation_eq := h.generation_eq
  pending_pos p hp := h.pending_pos p (List.mem_filter.1 hp).1
  pending_source p hp := h.pending_source p (List.mem_filter.1 hp).1
  pending_mended p hp := h.pending_mended p (List.mem_filter.1 hp).1
  pending_open p hp := h.pending_open p (List.mem_filter.1 hp).1
  generation_le := h.generation_le
  started_le := h.started_le
  started_sorted := h.started_sorted
  endings_nodup := h.endings_nodup
  endings_ok := h.endings_ok
  committed_eq := h.committed_eq
  current_rel := h.current_rel

/-- A render that was started and is not among those that wait ends. -/
theorem close (h : Consistent settings sources endings s) {c : Commit} {source : Text}
    (hc : Closes s s' c) (hpos : 0 < c.generation)
    (hs : sources[c.generation - 1]? = some source) (hm : c.mended = mendedOf settings source)
    (he : ∀ e ∈ endings, e.generation ≠ c.generation)
    (hp : ∀ p ∈ s.pending, p.generation ≠ c.generation) :
    Consistent settings sources (endings ++ [⟨c.generation, sources.length, .ok c.result⟩]) s' := by
  obtain ⟨hlt, -⟩ := List.getElem?_eq_some_iff.1 hs
  have hmem : ∀ e ∈ endings ++ [⟨c.generation, sources.length, .ok c.result⟩],
      e ∈ endings ∨ e = ⟨c.generation, sources.length, .ok c.result⟩ := by simp
  have hnew : [⟨c.generation, sources.length, .ok c.result⟩].filter Ending.isNewest =
      if c.generation = s.generation then [⟨c.generation, sources.length, .ok c.result⟩]
      else [] := by
    rw [h.generation_eq, List.filter_cons, List.filter_nil, Ending.isNewest]
    by_cases hg : c.generation = sources.length <;> simp [hg]
  constructor
  case settings_eq => exact hc.settings.trans h.settings_eq
  case generation_eq => exact hc.generation.trans h.generation_eq
  case pending_pos => rw [hc.pending]; exact h.pending_pos
  case pending_source => rw [hc.pending]; exact h.pending_source
  case pending_mended => rw [hc.pending]; exact h.pending_mended
  case pending_open =>
    rw [hc.pending]
    intro p hpm e hem
    rcases hmem e hem with hem | rfl
    · exact h.pending_open p hpm e hem
    · exact (hp p hpm).symm
  case generation_le =>
    intro e hem
    rcases hmem e hem with hem | rfl
    · exact h.generation_le e hem
    · simp only; omega
  case started_le =>
    intro e hem
    rcases hmem e hem with hem | rfl
    · exact h.started_le e hem
    · exact Nat.le_refl _
  case started_sorted =>
    refine List.pairwise_append.2 ⟨h.started_sorted, List.pairwise_singleton .., ?_⟩
    intro e hem f hf
    rw [List.mem_singleton.1 hf]
    exact h.started_le e hem
  case endings_nodup =>
    refine List.pairwise_append.2 ⟨h.endings_nodup, List.pairwise_singleton .., ?_⟩
    intro e hem f hf
    rw [List.mem_singleton.1 hf]
    exact he e hem
  case endings_ok =>
    intro e hem
    rcases hmem e hem with hem | rfl
    · exact h.endings_ok e hem
    · exact ⟨_, rfl⟩
  case committed_eq =>
    rw [hc.committed, h.committed_eq, List.filter_append, hnew]
    split
    · rw [List.map_append, List.map_singleton]
    · rw [List.append_nil]
  case current_rel =>
    rw [hc.current, List.filter_append, hnew]
    split
    · rw [List.getLast?_concat]
      exact .some ⟨rfl, rfl, source, hs, hm⟩
    · rw [List.append_nil]
      exact h.current_rel

end Consistent

/-- Every session of a run is consistent. -/
theorem Run.consistent {settings : Settings} {sources : List Text} {endings : List Ending}
    {s : Session} (hh : isComment settings.usualHeader = false)
    (hr : Run settings sources endings s) : Consistent settings sources endings s := by
  induction hr with
  | opened => exact .opened
  | waits _ hs ih =>
    rcases start_cases hs with ⟨r, hr, -⟩ | hw
    · cases hr
    · obtain ⟨mended, hw, hm, h₁, h₂, h₃, h₄, h₅⟩ := hw
      rw [ih.settings_eq] at hm
      cases hw
      exact ih.wait hm h₁ h₂ h₃ h₄ h₅
  | @endsAtOnce sources endings s s' source result _ hs ih =>
    rcases start_cases hs with ⟨r, hr, hc⟩ | ⟨_, hr, -⟩
    · cases hr
      have hg := ih.generation_eq
      have hsrc : (sources ++ [source])[s.generation + 1 - 1]? = some source := by simp [hg]
      have h := (ih.start source).close hc (Nat.succ_pos _) hsrc (by rw [ih.settings_eq])
        (fun e he => by
          have h₁ := ih.generation_le e he
          have h₂ := ih.started_le e he
          simp only
          omega)
        (fun p hp => by
          have := ih.pending_le hp
          simp only
          omega)
      simpa [hg] using h
    · cases hr
  | @answered sources endings s s' generation diagram outcome result _ hf ih =>
    obtain ⟨p, hp, hg, r, rfl, hc⟩ := finish_cases (fun p hp => ih.pending_body hh hp) hf
    subst hg
    refine (ih.leave p.generation).close hc (ih.pending_pos p hp) (ih.pending_source p hp)
      (ih.pending_mended p hp).symm (ih.pending_open p hp) ?_
    intro q hq
    simpa using (List.mem_filter.1 hq).2

end Flowmend.Session
