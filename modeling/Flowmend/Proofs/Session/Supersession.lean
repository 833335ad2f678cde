import Flowmend.Proofs.Session.Run

/-!
# Supersession

In every run of a session the renders that commit are exactly those that no later start had
overtaken when they ended (`run_commits_newest`). So the committed generations increase, and what is
current is the last committed result, together with the mended document of the same render.
-/

namespace Flowmend.Session

open Text

variable {settings : Settings} {sources : List Text} {endings : List Ending} {s : Session}

namespace Consistent

/-- Of two endings that commit, the later one is that of the later start. -/
theorem newest_sorted (h : Consistent settings sources endings s) :
    (endings.filter Ending.isNewest).Pairwise fun e f => e.generation < f.generation := by
  have hboth := (h.started_sorted.and h.endings_nodup).filter Ending.isNewest
  refine hboth.imp_of_mem ?_
  intro e f he hf ⟨hle, hne⟩
  have he : e.generation = e.started := by simpa [Ending.isNewest] using (List.mem_filter.1 he).2
  have hf : f.generation = f.started := by simpa [Ending.isNewest] using (List.mem_filter.1 hf).2
  omega

/-- The ending of the render that was started last is the last one that commits. -/
theorem getLast?_newest (h : Consistent settings sources endings s) {e : Ending} (he : e ∈ endings)
    (hg : e.generation = sources.length) :
    (endings.filter Ending.isNewest).getLast? = some e := by
  have hn : e ∈ endings.filter Ending.isNewest := by
    have h₁ := h.generation_le e he
    have h₂ := h.started_le e he
    refine List.mem_filter.2 ⟨he, ?_⟩
    simp only [Ending.isNewest, beq_iff_eq]
    omega
  rcases List.eq_nil_or_concat (endings.filter Ending.isNewest) with hl | ⟨init, f, hl⟩
  · simp [hl] at hn
  rw [List.concat_eq_append] at hl
  have hsorted := h.newest_sorted
  rw [hl] at hn hsorted ⊢
  rw [List.getLast?_concat]
  rcases List.mem_append.1 hn with hi | hf
  · have hlt := (List.pairwise_append.1 hsorted).2.2 e hi f List.mem_cons_self
    have hf : f ∈ endings := by
      have : f ∈ endings.filter Ending.isNewest := by simp [hl]
      exact (List.mem_filter.1 this).1
    have h₁ := h.generation_le f hf
    have h₂ := h.started_le f hf
    omega
  · rw [List.mem_singleton.1 hf]

end Consistent

/-- In every run: each render ends at most once, and with a result; exactly the renders that were
the newest when they ended commit, hence in increasing order; the current result and mended document
are those of the last one that committed; the end of a superseded render leaves the session's view
as it was; and if the render started last has ended, its result is the current one. -/
theorem run_commits_newest (hh : isComment settings.usualHeader = false)
    (hr : Run settings sources endings s) :
    s.generation = sources.length ∧
    (endings.Pairwise fun e f => e.generation ≠ f.generation) ∧
    (∀ e ∈ endings, ∃ r, e.result = .ok r) ∧
    s.committed = (endings.filter Ending.isNewest).map Ending.generation ∧
    s.committed.Pairwise (· < ·) ∧
    Option.Rel (fun c e => e.StemsFrom settings sources c) s.current
      (endings.filter Ending.isNewest).getLast? ∧
    (∀ generation diagram outcome s' result, generation ≠ sources.length →
      s.finish generation diagram outcome = some (s', result) →
      s'.current = s.current ∧ s'.stage = s.stage ∧ s'.generation = s.generation ∧
        s'.committed = s.committed) ∧
    (∀ e ∈ endings, e.generation = sources.length →
      ∃ c, s.current = some c ∧ e.StemsFrom settings sources c) := by
  have h := hr.consistent hh
  refine ⟨h.generation_eq, h.endings_nodup, h.endings_ok, h.committed_eq, ?_, h.current_rel, ?_, ?_⟩
  · rw [h.committed_eq]
    exact List.pairwise_map.2 h.newest_sorted
  · intro generation diagram outcome s' result hne hf
    obtain ⟨p, hp, -, r, -, hc⟩ := finish_cases (fun p hp => h.pending_body hh hp) hf
    have hne : generation ≠ s.generation := by rw [h.generation_eq]; exact hne
    exact ⟨by rw [hc.current, if_neg hne], hc.stage hne, hc.generation,
      by rw [hc.committed, if_neg hne]⟩
  · intro e he hg
    have hrel := h.current_rel
    rw [h.getLast?_newest he hg] at hrel
    generalize s.current = current at hrel ⊢
    cases hrel with
    | some hs => exact ⟨_, rfl, hs⟩

/-- The first of two overlapping renders answers after the second one was started. -/
theorem run_commits_newest_overlap : ∃ s : Session,
    isComment ({} : Settings).usualHeader = false ∧
    Run {} [['A'], [], ['B']]
      [⟨2, 2, .ok (.text ({} : Settings).blankNotice)⟩, ⟨1, 3, .ok (.svg ['x'])⟩,
        ⟨3, 3, .ok (.svg ['y'])⟩] s ∧
    s.committed = [2, 3] := by
  have hh : isComment ({} : Settings).usualHeader = false := by decide
  have h₀ : Run {} [] [] _ := .opened
  have h₁ : Run {} [['A']] [] _ := .waits h₀ rfl
  have h₂ : Run {} [['A'], []] [⟨2, 2, _⟩] _ := .endsAtOnce h₁ rfl
  have h₃ : Run {} [['A'], [], ['B']] [⟨2, 2, _⟩] _ := .waits h₂ rfl
  have h₄ := h₃.answered (rfl : finish _ 1 [] (.svg ['x']) = some (_, .ok (.svg ['x'])))
  have h₅ := h₄.answered (rfl : finish _ 3 [] (.svg ['y']) = some (_, .ok (.svg ['y'])))
  exact ⟨_, hh, h₅, (run_commits_newest hh h₅).2.2.2.1⟩

end Flowmend.Session
