import Flowmend.Proofs.Graph.Runs
import Flowmend.Proofs.Repair.Body
import Flowmend.Proofs.Repair.Tokens

/-!
# Placeholders of a mender

A statement takes one placeholder for each end of an edge that no node stands at
(`Statement.supply_pieces`), and a document those of its statements, from a supply in which the ids
of its source are in use (`Mender.supply_use`). Whatever a mender is used for, no id is given out
twice or while it is in use (`Mender.fresh_calls`), and none that the source of a document has
stands in its edges for a node that is missing.
-/

namespace Flowmend

open Text Extract

/-! ## Placeholders of a statement -/

namespace Statement

/-- The number of ends of edges at which no node stands: connectors with none right before them, and
one that waits for a target behind the last token. -/
def lacking (standing : Standing) (ts : List Token) : Nat :=
  Token.unled standing.node?.isSome ts +
    ts.getLast?.elim standing.waiting fun t => if t.connector?.isSome then 1 else 0

theorem lacking_node (standing : Standing) (n : Reference) (ts : List Token) :
    lacking standing (.node n :: ts) = lacking (.node n.id) ts := by
  unfold lacking
  cases ts with
  | nil => rfl
  | cons t ts => rw [List.getLast?_cons_cons]; rfl

theorem lacking_connector (standing : Standing) (source : Text) (k k' : Connector)
    (ts : List Token) : lacking standing (.connector k :: ts) =
      (if standing.node?.isSome then 0 else 1) + lacking (.connector source k') ts := by
  unfold lacking
  rw [← Nat.add_assoc]
  cases ts with
  | nil => rfl
  | cons t ts => rw [List.getLast?_cons_cons]; rfl

/-- A connector takes the placeholder for its source, if no node leads to it. -/
theorem supply_connector (declared : List Text) (standing : Standing) (supply : Placeholders)
    (k : Connector) (ts : List Token) : (pieces declared standing supply (.connector k :: ts)).2 =
      (pieces declared (.connector (standing.node?.getD (supply.given 0)) k)
        (supply.after (if standing.node?.isSome then 0 else 1)) ts).2 := by
  cases standing <;> rfl

/-- A placeholder is taken for each end without a node, and for nothing else. -/
theorem supply_pieces (declared : List Text) (standing : Standing) (supply : Placeholders)
    (ts : List Token) :
    (pieces declared standing supply ts).2 = supply.after (lacking standing ts) := by
  induction ts generalizing declared standing supply with
  | nil => cases standing <;> rfl
  | cons t ts ih =>
    cases t with
    | node n => exact (ih ..).trans (congrArg _ (lacking_node ..).symm)
    | connector k =>
      rw [supply_connector, ih, lacking_connector, Placeholders.after_add]

/-- Each placeholder that is taken is an end of an edge. -/
theorem exists_end (standing : Standing) (supply : Placeholders) (ts : List Token) {i : Nat}
    (hi : i < lacking standing ts) : ∃ e ∈ edges standing supply ts, supply.given i ∈ e.ends := by
  induction ts generalizing standing supply i with
  | nil =>
    cases standing with
    | start | node => cases hi
    | connector source k =>
      obtain rfl : i = 0 := Nat.lt_one_iff.1 hi
      exact ⟨_, List.mem_singleton_self _, List.mem_cons_of_mem _ List.mem_cons_self⟩
  | cons t ts ih =>
    cases t with
    | node n =>
      rw [lacking_node] at hi
      obtain ⟨e, he, hend⟩ := ih (.node n.id) supply hi
      exact ⟨e, by rw [edges_node]; exact List.mem_append_right _ he, hend⟩
    | connector k =>
      -- The first placeholder, if the connector takes one, is the source of its edge.
      obtain ⟨es, -, hes⟩ := edges_connector standing supply ts k
      obtain ⟨es', hes'⟩ := edges_of_connector
        (supply.after (if standing.node?.isSome then 0 else 1)) ts k
        (standing.node?.getD (supply.given 0))
      rw [lacking_connector _ (standing.node?.getD (supply.given 0)) k k] at hi
      rw [hes]
      cases hnode : standing.node? with
      | some id =>
        simp only [hnode, Option.isSome_some, if_true, Nat.zero_add] at hi ⊢
        obtain ⟨e, he, hend⟩ := ih _ supply hi
        exact ⟨e, List.mem_append_right _ he, hend⟩
      | none =>
        simp only [hnode, Option.isSome_none, Bool.false_eq_true, if_false, Option.getD_none]
          at hi hes' ⊢
        cases i with
        | zero =>
          rw [hes']
          exact ⟨_, List.mem_append_right _ List.mem_cons_self, List.mem_cons_self⟩
        | succ i =>
          have hi : i < lacking (.connector (supply.given 0) k) ts := by omega
          obtain ⟨e, he, hend⟩ := ih _ (supply.after 1) hi
          exact ⟨e, List.mem_append_right _ he, hend⟩

end Statement

/-- The number of placeholders that a statement takes. -/
def lackingEnds (s : Text) : Nat :=
  if IsRestated s then Statement.lacking .start (tokens s) else 0

theorem supply_mendLine (supply : Placeholders) (s : Text) :
    (mendLine supply s).2 = supply.after (lackingEnds s) := by
  unfold lackingEnds
  rcases mendLine_cases supply s with
    ⟨h, -, heq, -⟩ | ⟨h, -, -, heq, -⟩ | ⟨h, -, -, -, heq, -⟩
  · rw [heq, if_pos h]
    exact Statement.supply_pieces ..
  · rw [heq, if_neg h]
    rfl
  · rw [heq, if_neg h]
    rfl

theorem exists_end_writtenEdges (supply : Placeholders) {s : Text} {i : Nat}
    (hi : i < lackingEnds s) : ∃ e ∈ writtenEdges supply s, supply.given i ∈ e.ends := by
  unfold lackingEnds at hi
  unfold writtenEdges
  split at hi
  · rename_i h
    rw [if_pos h]
    exact Statement.exists_end .start supply (tokens s) hi
  · cases hi

/-! ## Placeholders of a document -/

namespace Opening

/-- The number of placeholders that the statements take. -/
def lackingEnds (opening : Opening) : Nat :=
  opening.statements.foldr (fun s n => Flowmend.lackingEnds s + n) 0

theorem lackingEnds_cons (kind : DiagramKind) (header : Text) (reason : Option Event) (n : Nat)
    (line : Text) (body : List (Nat × Text)) :
    lackingEnds ⟨kind, header, reason, (n, line) :: body⟩ =
      (if !kind.isFlowchart || isComment line || isDirective line then 0
        else Flowmend.lackingEnds line) + lackingEnds ⟨kind, header, reason, body⟩ := by
  unfold lackingEnds statements
  cases hkind : kind.isFlowchart with
  | false => simp
  | true =>
    simp only [if_true, List.map_cons, Bool.not_true, Bool.false_or]
    by_cases hstays : (isComment line || isDirective line) = true
    · rw [List.filter_cons_of_neg (by simp [hstays]), if_pos hstays, Nat.zero_add]
    · rw [List.filter_cons_of_pos (by simp [hstays]), if_neg hstays, List.foldr_cons]

theorem supply_mendBody (opening : Opening) (m : Mender) :
    (m.mendBody opening.kind opening.body).2.supply = m.supply.after opening.lackingEnds := by
  obtain ⟨kind, header, reason, body⟩ := opening
  simp only []
  induction body generalizing m with
  | nil =>
    unfold lackingEnds statements
    cases kind.isFlowchart <;> rfl
  | cons p body ih =>
    obtain ⟨n, line⟩ := p
    rw [lackingEnds_cons, Mender.mendBody, Placeholders.after_add]
    by_cases hstays : (!kind.isFlowchart || isComment line || isDirective line) = true
    · simp only [if_pos hstays]
      exact ih m
    · simp only [if_neg hstays]
      rw [ih]
      exact congrArg (Placeholders.after · _) (supply_mendLine m.supply line)

theorem exists_end_writtenBody (opening : Opening) (supply : Placeholders) {i : Nat}
    (hi : i < opening.lackingEnds) :
    ∃ e ∈ writtenBody opening.kind supply opening.body, supply.given i ∈ e.ends := by
  obtain ⟨kind, header, reason, body⟩ := opening
  simp only []
  induction body generalizing supply i with
  | nil =>
    unfold lackingEnds statements at hi
    cases hkind : kind.isFlowchart <;> simp [hkind] at hi
  | cons p body ih =>
    obtain ⟨n, line⟩ := p
    rw [lackingEnds_cons] at hi
    rw [writtenBody]
    by_cases hstays : (!kind.isFlowchart || isComment line || isDirective line) = true
    · rw [if_pos hstays, Nat.zero_add] at hi
      rw [if_pos hstays]
      exact ih supply hi
    · rw [if_neg hstays] at hi
      rw [if_neg hstays]
      by_cases hfirst : i < Flowmend.lackingEnds line
      · obtain ⟨e, he, hend⟩ := exists_end_writtenEdges supply hfirst
        exact ⟨e, List.mem_append_left _ he, hend⟩
      · obtain ⟨j, rfl⟩ := Nat.exists_eq_add_of_le (Nat.le_of_not_lt hfirst)
        obtain ⟨e, he, hend⟩ := ih (mendLine supply line).2 (i := j) (by omega)
        refine ⟨e, List.mem_append_right _ he, ?_⟩
        rwa [supply_mendLine, Placeholders.given_after] at hend

/-! ## Runs of the source -/

variable {usualHeader source s : Text}

/-- A run of a line that is mended is one of the source, also behind a keyword that goes. -/
theorem isRun_of_mem_body {id : Text} (h : IsRun id s)
    (hs : s ∈ (ofSource usualHeader source).body.map Prod.snd) : IsRun id source := by
  obtain ⟨p, hp, rfl⟩ := List.mem_map.1 hs
  obtain ⟨l, hmem, heq⟩ := exists_of_mem_body hp
  rw [heq] at h
  have h : IsRun id l := by
    unfold spoken at h
    split at h
    · exact isRun_of_skip h
    · exact h
  exact h.of_mem_statements (List.mem_map_of_mem (f := Prod.snd) hmem)

end Opening

/-! ## Menders -/

/-- What a mender is used for: to put ids in use, to give out a placeholder, and to mend a
document. -/
inductive Use
  | reserve (ids : List Text)
  | next
  | mend (source : Text)
  deriving DecidableEq, Repr

/-- The ids that a use puts in use before it takes placeholders. -/
def Use.reserved : Use → List Text
  | reserve ids => ids
  | next => []
  | mend source => ids source

namespace Mender

/-- The mender after a use. -/
def use (m : Mender) : Use → Mender
  | .reserve ids => { m with supply := m.supply.reserve ids }
  | .next => { m with supply := m.supply.next.2 }
  | .mend source => (m.mend source).2

/-- The number of placeholders that a use takes. -/
def taken (m : Mender) : Use → Nat
  | .reserve _ => 0
  | .next => 1
  | .mend source => (Opening.ofSource m.usualHeader source).lackingEnds

/-- The supplies from which a use takes its placeholders, each one as it is then. -/
def calls (m : Mender) (u : Use) : List Placeholders :=
  (List.range (m.taken u)).map (m.supply.reserve u.reserved).after

/-- The supplies from which placeholders are taken in one use after the other. -/
def allCalls (m : Mender) : List Use → List Placeholders
  | [] => []
  | u :: us => m.calls u ++ (m.use u).allCalls us

/-- A use puts its ids in use and takes its placeholders, and does nothing else to the supply. -/
theorem supply_use (m : Mender) (u : Use) :
    (m.use u).supply = (m.supply.reserve u.reserved).after (m.taken u) := by
  cases u with
  | reserve ids => rfl
  | next => rfl
  | mend source => exact Opening.supply_mendBody (Opening.ofSource m.usualHeader source) _

section Calls

variable {m : Mender} (h : m.supply.inUse.Nodup)

include h

/-- The placeholders of one use are new and in use after it. -/
theorem of_calls (u : Use) :
    ((m.calls u).map fun p => p.next.1).Nodup ∧
      (∀ p ∈ m.calls u, p.inUse.Nodup ∧ p.next.1 ∉ m.supply.inUse ∧
        p.next.1 ∈ (m.use u).supply.inUse) ∧
      m.supply.inUse ⊆ (m.use u).supply.inUse ∧ (m.use u).supply.inUse.Nodup := by
  set reserved := m.supply.reserve u.reserved with hreserved
  have hnodup : reserved.inUse.Nodup := Placeholders.nodup_reserve h _
  have hsubset : m.supply.inUse ⊆ reserved.inUse := fun id hid =>
    (Placeholders.mem_inUse_reserve _).2 (.inr hid)
  rw [supply_use, ← hreserved]
  refine ⟨?_, fun p hp => ?_, fun id hid => Placeholders.inUse_subset_after _ _ (hsubset hid),
    Placeholders.nodup_after _ hnodup _⟩
  · rw [calls, List.map_map]
    exact List.nodup_range.map reserved.given_injective
  · obtain ⟨i, hi, rfl⟩ := List.mem_map.1 hp
    exact ⟨Placeholders.nodup_after _ hnodup i, fun hmem => reserved.given_notMem i (hsubset hmem),
      reserved.given_mem_after (List.mem_range.1 hi)⟩

/-- No placeholder is given out twice, and none that was in use in the beginning. -/
theorem of_allCalls (us : List Use) :
    ((m.allCalls us).map fun p => p.next.1).Nodup ∧
      ∀ p ∈ m.allCalls us, p.inUse.Nodup ∧ p.next.1 ∉ m.supply.inUse := by
  induction us generalizing m with
  | nil => exact ⟨.nil, by simp [allCalls]⟩
  | cons u us ih =>
    obtain ⟨hfirst, hcalls, hsubset, hnodup⟩ := of_calls h u
    obtain ⟨hrest, hlater⟩ := ih hnodup
    refine ⟨?_, fun p hp => ?_⟩
    · rw [allCalls, List.map_append]
      refine List.nodup_append.2 ⟨hfirst, hrest, ?_⟩
      rintro _ hid _ hlate rfl
      obtain ⟨p, hp, rfl⟩ := List.mem_map.1 hid
      obtain ⟨q, hq, heq⟩ := List.mem_map.1 hlate
      -- What was given out is in use from then on.
      exact (hlater q hq).2 (heq ▸ (hcalls p hp).2.2)
    · rcases List.mem_append.1 hp with hp | hp
      · exact ⟨(hcalls p hp).1, (hcalls p hp).2.1⟩
      · exact (hlater p hp).imp_right fun hnot hmem => hnot (hsubset hmem)

end Calls

/-- The id stands in the mended document at an end of an edge, and the source does not have it:
neither as a run of id characters nor as a node of a line, as it stands there or as it is mended. -/
structure StandsIn (m : Mender) (source id : Text) : Prop where
  written : ∃ e : WrittenEdge, id ∈ e.ends ∧
    ∃ n, e.line ++ List.replicate n ']' ∈ (m.mend source).1.lines
  not_run : ¬IsRun id source
  not_node : ∀ s ∈ source.statements ++ (Opening.ofSource m.usualHeader source).body.map Prod.snd,
    ∀ n, Token.node n ∈ tokens s → n.id ≠ id

theorem standsIn_of_mem_calls {m : Mender} {source : Text} {p : Placeholders}
    (hp : p ∈ m.calls (.mend source)) : m.StandsIn source p.next.1 := by
  set opening := Opening.ofSource m.usualHeader source with hopening
  set reserved := m.supply.reserve (ids source) with hreserved
  obtain ⟨i, hi, rfl⟩ := List.mem_map.1 hp
  have hnot : ¬IsRun (reserved.given i) source := fun hrun =>
    reserved.given_notMem i ((Placeholders.mem_inUse_reserve _).2 (.inl hrun.mem_ids))
  refine ⟨?_, hnot, fun s hs n hn heq => hnot ?_⟩
  · obtain ⟨e, he, hend⟩ := opening.exists_end_writtenBody reserved (List.mem_range.1 hi)
    let m' : Mender := { m with supply := reserved, log := m.log ++ opening.reason.toList }
    obtain ⟨-, hmem⟩ := of_mem_writtenBody (m := m')
      (fun s hs => Opening.not_break_of_mem_body hs) he
    exact ⟨e, hend, exists_mem_balance (List.mem_append_right _ (List.mem_cons_of_mem _ hmem))⟩
  · have hrun : IsRun n.id s :=
      isRun_of_mem_references (List.mem_filterMap.2 ⟨_, hn, rfl⟩)
    rw [show reserved.given i = n.id from heq.symm]
    rcases List.mem_append.1 hs with hs | hs
    · exact hrun.of_mem_statements hs
    · exact Opening.isRun_of_mem_body hrun hs

/-- Whatever a mender is used for, no placeholder is given out twice or while it is in use, and the
search for it passes over no more candidates than there are ids in use. Any use takes its
placeholders one after the other, behind the ids that it puts in use. Those that are taken when a
document is mended stand in the mended document, and its source has none of them. -/
theorem fresh_calls (usualHeader stem : Text) (us : List Use) :
    let calls := (ofSettings usualHeader stem).allCalls us
    (calls.map fun p => p.next.1).Nodup ∧
      (∀ p ∈ calls, p.inUse.Nodup ∧ ∃ passed, p.Finds passed) ∧
      ∀ m : Mender,
        (∀ u, (m.use u).supply = (m.supply.reserve u.reserved).after (m.taken u)) ∧
        ∀ source, ∀ p ∈ m.calls (.mend source), m.StandsIn source p.next.1 := by
  intro calls
  obtain ⟨hnodup, hcalls⟩ := of_allCalls (m := ofSettings usualHeader stem) .nil us
  exact ⟨hnodup, fun p hp => ⟨(hcalls p hp).1, p.exists_finds⟩, fun m =>
    ⟨m.supply_use, fun source p hp => standsIn_of_mem_calls hp⟩⟩

end Mender

end Flowmend
