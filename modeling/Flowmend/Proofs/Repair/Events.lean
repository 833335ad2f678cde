import Flowmend.Proofs.Repair.Body

/-!
# Events and their lines

When a document is mended, an event for its header comes first, then the events of its lines, and in
the end one for its brackets (`mend_attributed`). The events of lines are in the order of the lines,
and each one is a repair of the statement that stands on its line.
-/

namespace Flowmend

open Text

/-! ## Repairs of statements -/

/-- The repair is one of a statement, not of the header or of the brackets. -/
def Repair.OfStatement (r : Repair) : Prop :=
  r.kind ≠ .missingHeader ∧ r.kind ≠ .mismatchedBracketCount

instance (r : Repair) : Decidable r.OfStatement := inferInstanceAs (Decidable (_ ∧ _))

namespace Noted

variable {α β : Type}

/-- All repairs are repairs of statements. -/
def OfStatement (x : Noted α) : Prop := ∀ r ∈ x.repairs, r.OfStatement

theorem OfStatement.pure (a : α) : (Pure.pure a : Noted α).OfStatement := by simp [OfStatement]

theorem OfStatement.bind {x : Noted α} {f : α → Noted β} (hx : x.OfStatement)
    (hf : (f x.value).OfStatement) : (x >>= f).OfStatement := by
  intro r hr
  rw [repairs_bind] at hr
  exact (List.mem_append.1 hr).elim (hx r) (hf r)

theorem OfStatement.each {f : α → Noted β} {xs : List α} (h : ∀ x ∈ xs, (f x).OfStatement) :
    (Noted.each f xs).OfStatement := by
  intro r hr
  obtain ⟨x, hx, hr⟩ := List.mem_flatMap.1 hr
  exact h x hx r hr

end Noted

theorem Label.ofStatement_mend (node raw : Text) : (mend node raw).OfStatement := by
  have hfaults : ∀ r ∈ faults node raw, r.OfStatement := by
    intro r hr
    simp only [faults, List.mem_append] at hr
    rcases hr with (hr | hr) | hr
    all_goals
      split at hr
      · rw [List.mem_singleton.1 hr]
        simp [Repair.OfStatement, Repair.kind]
      · cases hr
  unfold mend
  simp only []
  split
  · simp [Noted.OfStatement]
  · exact hfaults

theorem Connector.ofStatement_mendLabel (k : Connector) : k.mendLabel.OfStatement := by
  unfold mendLabel
  split
  · exact .pure none
  · rename_i raw _
    refine .bind ?_ (.pure _)
    intro r hr
    simp only [Label.mendEdge] at hr
    split at hr
    · cases hr
    · rw [List.mem_singleton.1 hr]
      decide

namespace Reference

theorem ofStatement_mend (n : Reference) : n.mend.OfStatement := by
  unfold mend
  split
  · exact .pure _
  · rename_i f _
    refine .bind ?_ (.bind (Label.ofStatement_mend n.id f.label) (.pure _))
    intro r hr
    rw [Noted.repairs_note] at hr
    split at hr
    · cases hr
    · rw [List.mem_singleton.1 hr]
      simp [Repair.OfStatement, Repair.kind]

theorem ofStatement_mendOpening (t : Text) : (mendOpening t).OfStatement := by
  unfold mendOpening
  split
  · exact .pure t
  · split
    · exact .pure t
    · exact .bind (ofStatement_mend _) (.pure _)

end Reference

/-- A line that is written again from its tokens. -/
theorem Statement.ofStatement_restate (supply : Placeholders) (s : Text) :
    (restate supply s).1.OfStatement := by
  have hpiece : ∀ p : Piece, p.line.OfStatement := by
    intro p
    cases p with
    | declaration n => exact Reference.ofStatement_mend n
    | edge source k target => exact .bind (Connector.ofStatement_mendLabel k) (.pure _)
  intro r hr
  obtain ⟨p, -, hr⟩ := List.mem_flatMap.1 hr
  exact hpiece p r hr

namespace Chain

theorem ofStatement_mendSide (side : Text) : (mendSide side).OfStatement :=
  .each fun t _ => Reference.ofStatement_mendOpening t

theorem ofStatement_edgeLines (sources : List Text) (links : List (Connector × List Text)) :
    (edgeLines sources links).OfStatement := by
  induction links generalizing sources with
  | nil => exact .pure []
  | cons l links ih =>
    obtain ⟨k, targets⟩ := l
    exact .bind (Connector.ofStatement_mendLabel k) (.bind (ih _) (.pure _))

theorem ofStatement_mend (c : Chain) : c.mend.OfStatement :=
  .bind (ofStatement_mendSide _) (.bind
    (.each fun _ _ => .bind (ofStatement_mendSide _) (.pure _)) (ofStatement_edgeLines _ _))

end Chain

theorem ofStatement_mendLine (supply : Placeholders) (s : Text) :
    (mendLine supply s).1.OfStatement := by
  have hrestate : ∀ defect : Repair, defect.OfStatement →
      (do Noted.note [defect]; (Statement.restate supply s).1).OfStatement := by
    intro defect hdefect
    refine .bind (fun r hr => ?_) (Statement.ofStatement_restate supply s)
    rwa [List.mem_singleton.1 hr]
  unfold mendLine
  simp only []
  split
  · exact hrestate _ (by decide)
  split
  · exact hrestate _ (by decide)
  split
  · exact .bind (Reference.ofStatement_mendOpening s) (.pure _)
  split
  · exact hrestate _ (by decide)
  · exact Chain.ofStatement_mend _

/-! ## The log -/

/-- Each line that is mended adds its events to the log. -/
theorem Mender.exists_log_mendBody (kind : DiagramKind) {body : List (Nat × Text)}
    (hbody : body.Pairwise fun p q => p.1 < q.1) (m : Mender) :
    ∃ events, (m.mendBody kind body).2.log = m.log ++ events ∧
      (events.Pairwise fun d e => d.line ≤ e.line) ∧
      ∀ e ∈ events, kind.isFlowchart = true ∧ ∃ p ∈ body, e.line = p.1 ∧
        (isComment p.2 || isDirective p.2) = false ∧
        ∃ supply, e.repair ∈ (Flowmend.mendLine supply p.2).1.repairs := by
  induction body generalizing m with
  | nil => exact ⟨[], (List.append_nil _).symm, .nil, by simp⟩
  | cons p body ih =>
    obtain ⟨n, line⟩ := p
    obtain ⟨hlt, hbody⟩ := List.pairwise_cons.1 hbody
    rw [mendBody]
    by_cases hstays : (!kind.isFlowchart || isComment line || isDirective line) = true
    · obtain ⟨events, hlog, hsorted, hevents⟩ := ih hbody m
      simp only [if_pos hstays]
      refine ⟨events, hlog, hsorted, fun e he => ?_⟩
      obtain ⟨hkind, p, hp, h⟩ := hevents e he
      exact ⟨hkind, p, List.mem_cons_of_mem _ hp, h⟩
    · obtain ⟨events, hlog, hsorted, hevents⟩ := ih hbody (m.mendLine n line).2
      simp only [if_neg hstays]
      simp only [Bool.or_eq_true, Bool.not_eq_true', not_or, Bool.not_eq_false] at hstays
      obtain ⟨⟨hkind, hcomment⟩, hdirective⟩ := hstays
      have hfirst : ∀ e ∈ (Flowmend.mendLine m.supply line).1.events n,
          e.line = n ∧ e.repair ∈ (Flowmend.mendLine m.supply line).1.repairs := by
        intro e he
        obtain ⟨r, hr, rfl⟩ := List.mem_map.1 he
        exact ⟨rfl, hr⟩
      refine ⟨(Flowmend.mendLine m.supply line).1.events n ++ events, ?_, ?_, fun e he => ?_⟩
      · rw [hlog, ← List.append_assoc]
        rfl
      · refine List.pairwise_append.2 ⟨?_, hsorted, fun d hd e he => ?_⟩
        · exact List.pairwise_of_forall_mem_list fun d hd e he =>
            Int.le_of_eq ((hfirst d hd).1.trans (hfirst e he).1.symm)
        · obtain ⟨-, p, hp, hline, -⟩ := hevents e he
          rw [(hfirst d hd).1, hline]
          exact Int.ofNat_le.2 (Nat.le_of_lt (hlt p hp))
      · rcases List.mem_append.1 he with he | he
        · obtain ⟨hline, hrepair⟩ := hfirst e he
          exact ⟨hkind, (n, line), List.mem_cons_self, hline, by simp [hcomment, hdirective],
            m.supply, hrepair⟩
        · obtain ⟨hkind, p, hp, h⟩ := hevents e he
          exact ⟨hkind, p, List.mem_cons_of_mem _ hp, h⟩

/-- The event of a line behind the header belongs to a line of the source, behind the header that
was missing. -/
theorem Mender.exists_log_ofSource (m : Mender) (usualHeader source : Text) :
    let opening := Opening.ofSource usualHeader source
    ∃ events, (m.mendBody opening.kind opening.body).2.log = m.log ++ events ∧
      (events.Pairwise fun d e => d.line ≤ e.line) ∧
      ∀ e ∈ events, opening.kind.isFlowchart = true ∧ (∀ d ∈ opening.reason, d.line ≤ e.line) ∧
        ∃ n l, (n, l) ∈ numberedLines source ∧ e.line = n ∧
          let s := Opening.spoken source (n, l)
          (isComment s || isDirective s) = false ∧
            ∃ supply, e.repair ∈ (Flowmend.mendLine supply s).1.repairs := by
  intro opening
  obtain ⟨events, hlog, hsorted, hevents⟩ :=
    m.exists_log_mendBody opening.kind (Opening.pairwise_body usualHeader source)
  refine ⟨events, hlog, hsorted, fun e he => ?_⟩
  obtain ⟨hkind, ⟨n, s⟩, hp, hline, hstays, hrepair⟩ := hevents e he
  refine ⟨hkind, fun d hd => ?_, ?_⟩
  · obtain ⟨-, k, hk, -, -, hbefore⟩ := Opening.of_reason hd
    rw [hk, hline]
    exact Int.ofNat_le.2 (hbefore _ hp)
  · obtain ⟨l, hmem, hs⟩ := Opening.exists_of_mem_body hp
    exact ⟨n, l, hmem, hline, by rwa [← hs], by rwa [← hs]⟩

/-- The brackets of a document are one event at most, and its line stands for the whole. -/
theorem exists_events_balance (ls : List Text) : ∃ brackets : Option Event,
    (balance ls).events 0 = brackets.toList ∧
      ∀ e ∈ brackets, e.kind = .mismatchedBracketCount ∧ e.line = 0 := by
  unfold balance
  simp only []
  split
  · exact ⟨none, rfl, nofun⟩
  · refine ⟨some ⟨0, .brackets _ _⟩, rfl, ?_⟩
    rintro e ⟨⟩
    exact ⟨rfl, rfl⟩

/-! ## Documents -/

/-- The repairs of a document: an event for a missing header, the events of lines, and one for the
brackets. -/
structure Attributed (source : Text) (d : Mended) (header : Option Event) (events : List Event)
    (brackets : Option Event) : Prop where
  repairs : d.repairs = header.toList ++ events ++ brackets.toList
  headerAdded : d.headerAdded = header.isSome
  kind_header : ∀ e ∈ header, e.kind = .missingHeader
  of_brackets : ∀ e ∈ brackets, e.kind = .mismatchedBracketCount ∧ e.line = 0
  ofStatement : ∀ e ∈ events, e.repair.OfStatement
  /-- Lines are mended in order, and the header before them. -/
  sorted : (header.toList ++ events).Pairwise fun d e => d.line ≤ e.line
  /-- An empty source has a line 1, too. -/
  bounds : ∀ e ∈ header.toList ++ events, 1 ≤ e.line ∧ e.line ≤ max 1 source.lines.length
  isFlowchart : ∀ e ∈ events, d.kind.isFlowchart = true
  /-- An event belongs to a line that is not blank. What is mended of this line is neither a comment
  nor a directive, and the event is one of its repairs. -/
  line : ∀ e ∈ events, ∃ (i : Nat) (raw : Text), source.lines[i]? = some raw ∧
    e.line = (i + 1 : Nat) ∧ trim raw ≠ [] ∧
    let s := Opening.spoken source (i + 1, trim raw)
    isComment s = false ∧ isDirective s = false ∧
      ∃ supply, e.repair ∈ (mendLine supply s).1.repairs

/-- All that is recorded when a document is mended belongs to its header, to one of its lines or to
its brackets, in this order. -/
theorem mend_attributed (usualHeader stem source : Text) :
    ∃ header events brackets,
      Attributed source (mend usualHeader stem source) header events brackets := by
  set opening := Opening.ofSource usualHeader source with hopening
  let m : Mender := ⟨usualHeader, (Placeholders.ofStem stem).reserve (ids source),
    opening.reason.toList⟩
  obtain ⟨events, hlog, hsorted, hevents⟩ := m.exists_log_ofSource usualHeader source
  obtain ⟨brackets, hbrackets, hof⟩ := exists_events_balance
    (((numberedLines source).takeWhile fun l => isComment l.2).map Prod.snd ++
      opening.header :: (m.mendBody opening.kind opening.body).1)
  have hrepairs : (mend usualHeader stem source).repairs =
      opening.reason.toList ++ events ++ brackets.toList := by
    rw [← hbrackets]
    exact congrArg (· ++ _) hlog
  refine ⟨opening.reason, events, brackets, hrepairs, rfl, fun e he => (Opening.of_reason he).1,
    hof, ?_, ?_, ?_, fun e he => (hevents e he).1, ?_⟩
  · intro e he
    obtain ⟨-, -, n, l, -, -, -, supply, hrepair⟩ := hevents e he
    exact ofStatement_mendLine supply _ _ hrepair
  · refine List.pairwise_append.2 ⟨?_, hsorted, fun d hd e he => ?_⟩
    · cases opening.reason <;> simp
    · exact (hevents e he).2.1 d (Option.mem_toList.1 hd)
  · intro e he
    rcases List.mem_append.1 he with he | he
    · obtain ⟨-, n, hline, hone, hlength, -⟩ := Opening.of_reason (Option.mem_toList.1 he)
      rw [hline]
      omega
    · obtain ⟨-, -, n, l, hmem, hline, -⟩ := hevents e he
      obtain ⟨hone, hlength⟩ := bounds_of_mem_numberedLines hmem
      rw [hline]
      omega
  · intro e he
    obtain ⟨-, -, n, l, hmem, hline, hstays, hrepair⟩ := hevents e he
    obtain ⟨i, raw, hraw, rfl, rfl, hne⟩ := mem_numberedLines.1 hmem
    exact ⟨i, raw, hraw, hline, hne, (Bool.or_eq_false_iff.1 hstays).1,
      (Bool.or_eq_false_iff.1 hstays).2, hrepair⟩

end Flowmend
