import Flowmend.Proofs.Drawing.Plan
import Flowmend.Proofs.Session.Isolation

/-!
# The results of renders

Every render has a result (`every_render_presentable`): a mended document has a header to leave out,
unless the header for documents without one is a comment, and a graph in place of a document has
nodes, points for just these, and a drawing.
-/

namespace Flowmend

open Text

/-- The result can be shown as it is. A graph has nodes, each with one point, and can be drawn in
either charset and with any padding. -/
def Result.Presentable : Result → Prop
  | .graph p =>
    p.graph.isEmpty = false ∧ p.positions.map Prod.fst = p.graph.ids ∧ p.graph.ids.Nodup ∧
      ∀ cs padding, ∃ drawing, draw cs padding p = .ok drawing
  | .svg _ | .text _ => True

theorem Substitute.wellFormed_graph (limit : Option Int) (source : Text) (mended : Mended) :
    (graph limit source mended).WellFormed := by
  simp only [graph]
  split <;> exact .extract limit _

theorem Substitute.positioned?_presentable {s : Settings} {source : Text} {mended : Mended}
    {p : Positioned} (h : positioned? s source mended = some p) :
    (Result.graph p).Presentable := by
  have hg := wellFormed_graph s.labelLimit source mended
  simp only [positioned?] at h
  split at h
  · cases h
  · rename_i hsome
    cases h
    exact ⟨(Bool.not_eq_true _).mp hsome, map_fst_positions_layout s _, hg.nodes_nodup,
      hg.exists_draw_layout s⟩

/-- The header that is left out of a mended document is one of its lines. -/
theorem Mended.mem_lines_of_header? {d : Mended} {header : Text} (h : d.header? = some header) :
    header ∈ d.lines := List.mem_of_find?_eq_some h

namespace Session

/-- A render whose engine failed has a result. -/
theorem substitute_presentable (s : Session) {p : Pending} (reason : String)
    (hb : p.mended.body?.isSome) :
    ∃ r, (s.substitute p reason).2 = .ok r ∧ r.Presentable := by
  obtain ⟨body, hb⟩ := Option.isSome_iff_exists.1 hb
  unfold substitute
  simp only []
  split
  · rename_i positioned hp
    exact ⟨.graph positioned, rfl, Substitute.positioned?_presentable hp⟩
  · simp only [Substitute.shown, hb]
    exact ⟨_, rfl, trivial⟩

theorem answer_presentable (s : Session) {p : Pending} (diagram : Text)
    (outcome : Engine.Outcome) (hb : p.mended.body?.isSome) :
    ∃ r, (s.answer p diagram outcome).2 = .ok r ∧ r.Presentable := by
  rcases answer_cases s p diagram outcome with ⟨document, -, heq⟩ | ⟨failure, -, heq⟩
  · exact ⟨.svg document, by rw [heq]; rfl, trivial⟩
  · rw [heq]
    exact substitute_presentable _ _ hb

/-- A start gives a result, or a render that waits with a document whose header can be left out. -/
theorem start_presentable {s : Session} (hh : isComment s.settings.usualHeader = false)
    (source : Text) :
    (∃ r, (s.start source).2 = .done (.ok r) ∧ r.Presentable) ∨
      ∃ p, (s.start source).2 = .waiting p ∧ p.mended.body?.isSome := by
  rw [started_eq]
  by_cases hb : allBlank source
  · exact .inl ⟨.text s.settings.blankNotice, by rw [if_pos hb], trivial⟩
  · exact .inr ⟨_, by rw [if_neg hb], body?_mend_isSome hh s.settings.placeholderStem source⟩

/-- A render that is run to its end has a result, in whatever session. -/
theorem render_presentable {s : Session} (hh : isComment s.settings.usualHeader = false)
    (source diagram : Text) (engine : Text → Engine.Outcome) :
    ∃ r, (s.render source diagram engine).2 = .ok r ∧ r.Presentable := by
  unfold render
  rcases start_presentable hh source with ⟨r, hr, hp⟩ | ⟨p, hw, hb⟩
  · split
    · rename_i hs
      rw [hs] at hr
      cases hr
      exact ⟨r, rfl, hp⟩
    · rename_i hs
      rw [hs] at hr
      cases hr
  · split
    · rename_i hs
      rw [hs] at hw
      cases hw
    · rename_i hs
      rw [hs] at hw
      cases hw
      exact answer_presentable _ _ _ hb

/-- A render that waits can be finished, and then has a result. -/
theorem finish_presentable {s : Session} {p : Pending} (hp : p ∈ s.pending)
    (hb : ∀ p ∈ s.pending, p.mended.body?.isSome) (diagram : Text) (outcome : Engine.Outcome) :
    ∃ s' r, s.finish p.generation diagram outcome = some (s', .ok r) ∧ r.Presentable := by
  have hfound : (s.pending.find? fun q => q.generation == p.generation).isSome :=
    List.find?_isSome.2 ⟨p, hp, by simp⟩
  obtain ⟨q, hq⟩ := Option.isSome_iff_exists.1 hfound
  obtain ⟨r, hr, hpres⟩ :=
    answer_presentable s diagram outcome (hb q (List.mem_of_find?_eq_some hq))
  refine ⟨(s.answer q diagram outcome).1, r, ?_, hpres⟩
  rw [finish, hq, Option.map_some, ← hr]

/-- All renders that have ended in a run have results. -/
theorem Run.endings_presentable {settings : Settings} {sources : List Text}
    {endings : List Ending} {s : Session} (hh : isComment settings.usualHeader = false)
    (hr : Run settings sources endings s) :
    ∀ e ∈ endings, ∃ r, e.result = .ok r ∧ r.Presentable := by
  induction hr with
  | opened => simp
  | waits _ _ ih => exact ih
  | @endsAtOnce sources endings s s' source result hr hs ih =>
    intro e he
    rcases List.mem_append.1 he with he | he
    · exact ih e he
    obtain rfl := List.mem_singleton.1 he
    rw [← (hr.consistent hh).settings_eq] at hh
    rcases start_presentable hh source with ⟨r, hd, hp⟩ | ⟨p, hw, -⟩
    · rw [hs] at hd
      cases hd
      exact ⟨r, rfl, hp⟩
    · rw [hs] at hw
      cases hw
  | @answered sources endings s s' generation diagram outcome result hr hf ih =>
    intro e he
    rcases List.mem_append.1 he with he | he
    · exact ih e he
    obtain rfl := List.mem_singleton.1 he
    have hb := fun p hp => (hr.consistent hh).pending_body hh (p := p) hp
    obtain ⟨p, hp, rfl, -⟩ := finish_cases hb hf
    obtain ⟨s'', r, hf', hpres⟩ := finish_presentable hp hb diagram outcome
    rw [hf] at hf'
    cases hf'
    exact ⟨r, rfl, hpres⟩

/-- No failure leaves the pipeline. If the header for documents without one is no comment, then
every mended document has a header among its lines that can be left out; a single render has a
result that can be shown; and in every run of a session all renders that have ended have one, a
start gives one or waits, and each render that waits gives one to any answer of the engine. -/
theorem every_render_presentable {settings : Settings}
    (hh : isComment settings.usualHeader = false) :
    (∀ stem source, ∃ header body, (mend settings.usualHeader stem source).header? = some header ∧
      header ∈ (mend settings.usualHeader stem source).lines ∧
      (mend settings.usualHeader stem source).body? = some body) ∧
    (∀ source diagram engine, ∃ r,
      renderOnce settings source diagram engine = .ok r ∧ r.Presentable) ∧
    (∀ sources endings s, Run settings sources endings s →
      (∀ e ∈ endings, ∃ r, e.result = .ok r ∧ r.Presentable) ∧
      (∀ source, (∃ r, (s.start source).2 = .done (.ok r) ∧ r.Presentable) ∨
        ∃ p, (s.start source).2 = .waiting p) ∧
      (∀ p ∈ s.pending, ∀ diagram outcome, ∃ s' r,
        s.finish p.generation diagram outcome = some (s', .ok r) ∧ r.Presentable)) := by
  refine ⟨fun stem source => ?_, render_presentable hh, fun sources endings s hr => ?_⟩
  · obtain ⟨header, hheader⟩ := Option.isSome_iff_exists.1 (header?_mend_isSome hh stem source)
    obtain ⟨body, hbody⟩ := Option.isSome_iff_exists.1 (body?_mend_isSome hh stem source)
    exact ⟨header, body, hheader, Mended.mem_lines_of_header? hheader, hbody⟩
  · have hc := hr.consistent hh
    have hb := fun p hp => hc.pending_body hh (p := p) hp
    refine ⟨hr.endings_presentable hh, fun source => ?_,
      fun p hp => finish_presentable hp hb⟩
    rw [← hc.settings_eq] at hh
    exact (start_presentable hh source).imp_right fun ⟨p, hw, _⟩ => ⟨p, hw⟩

/-- A source that is only a comment gets a header, and has a result when the engine is too slow. -/
theorem every_render_presentable_usual :
    isComment ({} : Settings).usualHeader = false ∧
    ∃ r, renderOnce {} ['%', '%'] [] (fun _ => .failed .timedOut) = .ok r ∧ r.Presentable :=
  have hh : isComment ({} : Settings).usualHeader = false := by decide
  ⟨hh, (every_render_presentable hh).2.1 _ _ _⟩

end Session

end Flowmend
