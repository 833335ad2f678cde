import Flowmend.Proofs.Drawing.Plan

/-!
# Drawings that fail

A drawing takes two rounds of lookups: first the nodes of the ids with positions, row by row, and
then the rows of both ends of each edge, its target first. It fails at the first lookup that finds
nothing (`Positioned.FirstMissing`), and only there (`draw_fails_iff`). Without positions nothing is
looked up.
-/

namespace Flowmend

namespace Drawing

variable {α β ε : Type} {P : α → Prop} [DecidablePred P] {xs : List α}

theorem exists_find?_iff : (∃ x, xs.find? (P ·) = some x) ↔ ∃ x ∈ xs, P x := by
  simp [← Option.isSome_iff_exists, List.find?_isSome]

/-- Lookups of all members of a list fail at the first one that fails, with its error. -/
theorem mapM_eq_error_iff {f : α → Except ε β} (h : ∀ x, (∃ e, f x = .error e) ↔ P x) {err : ε} :
    xs.mapM f = .error err ↔ ∃ x, xs.find? (P ·) = some x ∧ f x = .error err := by
  induction xs with
  | nil => simp [pure, Except.pure]
  | cons x xs ih =>
    rw [List.mapM_cons]
    cases hx : f x with
    | error e =>
      have hP : P x := (h x).1 ⟨e, hx⟩
      simp [hP, hx, bind, Except.bind]
    | ok b =>
      have hP : ¬P x := fun hP => by
        obtain ⟨e, he⟩ := (h x).2 hP
        rw [hx] at he
        cases he
      have hrest : (do let bs ← xs.mapM f; pure (b :: bs)) = .error err ↔
          xs.mapM f = .error err := by
        cases xs.mapM f <;> simp [bind, Except.bind, pure, Except.pure]
      rw [List.find?_cons_of_neg (by simpa using hP)]
      exact hrest.trans ih

/-- A second step is taken if the first one succeeds. -/
theorem bind_eq_error_iff {x : Except ε α} {f : α → Except ε β} {err : ε} :
    (x >>= f) = .error err ↔ x = .error err ∨ ∃ a, x = .ok a ∧ f a = .error err := by
  cases x <;> simp [bind, Except.bind]

/-! ## Lookups -/

theorem node?_eq_none_iff {g : Graph} {id : Text} : g.node? id = none ↔ id ∉ g.ids := by
  simp [Graph.node?, Graph.ids]

/-- The first id that is no node is reported. -/
theorem labelsOf_eq_error_iff {g : Graph} {ids : List Text} {err : DrawError} :
    labelsOf g ids = .error err ↔
      ∃ id, ids.find? (· ∉ g.ids) = some id ∧ err = .unknownNode id := by
  rw [labelsOf, mapM_eq_error_iff (P := (· ∉ g.ids))]
  · refine exists_congr fun id => and_congr_right fun hid => ?_
    have hnode : g.node? id = none := node?_eq_none_iff.2 (by simpa using List.find?_some hid)
    rw [hnode, Except.error.injEq, eq_comm]
  · intro id
    rw [← node?_eq_none_iff]
    cases g.node? id <;> simp

theorem rowOf_eq_error {ids : List Text} {id : Text} (h : id ∉ ids) :
    rowOf ids id = .error (.unplacedEnd id) := by
  rw [rowOf, List.idxOf?_eq_none_iff.2 h]

/-- An end without a row is reported: the target, and the source if the target has a row. -/
theorem wireOf_eq_error_iff {ids : List Text} {e : Edge} {err : DrawError} :
    wireOf ids e = .error err ↔
      e.target ∉ ids ∧ err = .unplacedEnd e.target ∨
      e.target ∈ ids ∧ e.source ∉ ids ∧ err = .unplacedEnd e.source := by
  by_cases ht : e.target ∈ ids
  · by_cases hs : e.source ∈ ids
    · simp [wireOf_eq hs ht, ht, hs]
    · simp [wireOf, rowOf_eq ht, rowOf_eq_error hs, bind, Except.bind, ht, hs, eq_comm]
  · simp [wireOf, rowOf_eq_error ht, bind, Except.bind, ht, eq_comm]

end Drawing

/-! ## The first lookup that fails -/

namespace Positioned

/-- The ids with positions. -/
def placed (p : Positioned) : List Text := p.positions.map Prod.fst

/-- Some end of the edge has no position. -/
def Loose (p : Positioned) (e : Edge) : Prop := e.target ∉ p.placed ∨ e.source ∉ p.placed

instance (p : Positioned) : DecidablePred p.Loose := fun _ => inferInstanceAs (Decidable (_ ∨ _))

/-- The first lookup that finds nothing, in the order in which a drawing looks things up. -/
inductive FirstMissing (p : Positioned) : DrawError → Prop
  /-- The first row whose id is no node. -/
  | node {id : Text} (hrow : p.positions.rows.find? (· ∉ p.graph.ids) = some id) :
      FirstMissing p (.unknownNode id)
  /-- All ids are nodes, and the first loose edge has no position at its target. -/
  | target {e : Edge} (hnodes : ∀ id ∈ p.placed, id ∈ p.graph.ids)
      (hedge : p.graph.edges.find? (p.Loose ·) = some e) (htarget : e.target ∉ p.placed) :
      FirstMissing p (.unplacedEnd e.target)
  /-- All ids are nodes, and the first loose edge has a position at its target. -/
  | source {e : Edge} (hnodes : ∀ id ∈ p.placed, id ∈ p.graph.ids)
      (hedge : p.graph.edges.find? (p.Loose ·) = some e) (htarget : e.target ∈ p.placed) :
      FirstMissing p (.unplacedEnd e.source)

variable {p : Positioned}

theorem mem_rows_iff {id : Text} : id ∈ p.positions.rows ↔ id ∈ p.placed := Positions.mem_rows

/-- A lookup fails just if an id with a position is no node, or an edge is loose. -/
theorem exists_firstMissing_iff : (∃ err, p.FirstMissing err) ↔
    (∃ id ∈ p.placed, id ∉ p.graph.ids) ∨ ∃ e ∈ p.graph.edges, p.Loose e := by
  constructor
  · rintro ⟨err, hrow | ⟨-, hedge, -⟩ | ⟨-, hedge, -⟩⟩
    · obtain ⟨id, hid, hnot⟩ := Drawing.exists_find?_iff.1 ⟨_, hrow⟩
      exact .inl ⟨id, mem_rows_iff.1 hid, hnot⟩
    all_goals exact .inr (Drawing.exists_find?_iff.1 ⟨_, hedge⟩)
  · intro h
    by_cases hnodes : ∃ id ∈ p.placed, id ∉ p.graph.ids
    · obtain ⟨id, hid, hnot⟩ := hnodes
      obtain ⟨first, hfirst⟩ := Drawing.exists_find?_iff (P := (· ∉ p.graph.ids)).2
        ⟨id, mem_rows_iff.2 hid, hnot⟩
      exact ⟨_, .node hfirst⟩
    · obtain ⟨e, hedge⟩ := Drawing.exists_find?_iff.2 (h.resolve_left hnodes)
      push Not at hnodes
      by_cases htarget : e.target ∈ p.placed
      · exact ⟨_, .source hnodes hedge htarget⟩
      · exact ⟨_, .target hnodes hedge htarget⟩

end Positioned

section Failure

variable {p : Positioned} {err : DrawError}

open Drawing Positioned

/-- The labels are there just if all ids with positions are nodes. -/
theorem exists_labelsOf_eq_ok_iff :
    (∃ labels, labelsOf p.graph p.positions.rows = .ok labels) ↔
      ∀ id ∈ p.placed, id ∈ p.graph.ids := by
  constructor
  · rintro ⟨labels, hlabels⟩ id hid
    by_contra hnot
    obtain ⟨first, hfirst⟩ := exists_find?_iff (P := (· ∉ p.graph.ids)).2
      ⟨id, mem_rows_iff.2 hid, hnot⟩
    rw [labelsOf_eq_error_iff.2 ⟨first, hfirst, rfl⟩] at hlabels
    cases hlabels
  · exact fun h => ⟨_, labelsOf_eq fun id hid => h id (mem_rows_iff.1 hid)⟩

/-- The edges have no rows if one of them is loose; the first such edge is reported. -/
theorem wires_eq_error_iff : p.graph.edges.mapM (wireOf p.positions.rows) = .error err ↔
    ∃ e, p.graph.edges.find? (p.Loose ·) = some e ∧
      (e.target ∉ p.placed ∧ err = .unplacedEnd e.target ∨
        e.target ∈ p.placed ∧ err = .unplacedEnd e.source) := by
  rw [mapM_eq_error_iff (P := p.Loose)]
  · refine exists_congr fun e => and_congr_right fun hedge => ?_
    have hloose : p.Loose e := by simpa using List.find?_some hedge
    simp only [wireOf_eq_error_iff, mem_rows_iff]
    unfold Loose at hloose
    tauto
  · intro e
    simp only [wireOf_eq_error_iff, mem_rows_iff, Loose]
    by_cases htarget : e.target ∈ p.placed <;> simp [htarget]

/-- The plan of a drawing is missing just if a lookup fails, and the first such lookup is
reported. -/
theorem planOf_eq_error_iff : planOf p = .error err ↔ p.FirstMissing err := by
  have hplan : planOf p = .error err ↔
      labelsOf p.graph p.positions.rows = .error err ∨
        (∃ labels, labelsOf p.graph p.positions.rows = .ok labels) ∧
          p.graph.edges.mapM (wireOf p.positions.rows) = .error err := by
    simp only [planOf, bind_eq_error_iff, pure, Except.pure, reduceCtorEq, and_false, exists_false,
      or_false, exists_and_right]
  rw [hplan, labelsOf_eq_error_iff, exists_labelsOf_eq_ok_iff, wires_eq_error_iff]
  constructor
  · rintro (⟨id, hrow, rfl⟩ | ⟨hnodes, e, hedge, ⟨htarget, rfl⟩ | ⟨htarget, rfl⟩⟩)
    · exact .node hrow
    · exact .target hnodes hedge htarget
    · exact .source hnodes hedge htarget
  · rintro (hrow | ⟨hnodes, hedge, htarget⟩ | ⟨hnodes, hedge, htarget⟩)
    · exact .inl ⟨_, hrow, rfl⟩
    · exact .inr ⟨hnodes, _, hedge, .inl ⟨htarget, rfl⟩⟩
    · exact .inr ⟨hnodes, _, hedge, .inr ⟨htarget, rfl⟩⟩

theorem draw_eq_error_iff {cs : Charset} {padding : Int} :
    draw cs padding p = .error err ↔ p.positions ≠ [] ∧ p.FirstMissing err := by
  have hmap : ∀ x : Except DrawError Plan,
      x.map (fun plan => (plan.canvas cs padding).text) = .error err ↔ x = .error err := by
    intro x
    cases x <;> simp [Except.map]
  unfold draw
  cases hps : p.positions with
  | nil => simp
  | cons q qs => simp [hmap, planOf_eq_error_iff]

/-- Whatever the graph and the positions, a drawing fails just if there are positions, and one of
them is for an id that is no node, or an edge has an end without one. What is reported is the first
row whose id is no node; if there is none, it is the target of the first edge with an end without a
position, or its source if the target has one. Without positions the drawing is empty. -/
theorem draw_fails_iff (cs : Charset) (padding : Int) (p : Positioned) :
    ((∃ err, draw cs padding p = .error err) ↔ p.positions ≠ [] ∧
      ((∃ id ∈ p.placed, id ∉ p.graph.ids) ∨
        ∃ e ∈ p.graph.edges, e.target ∉ p.placed ∨ e.source ∉ p.placed)) ∧
    (∀ err, draw cs padding p = .error err ↔ p.positions ≠ [] ∧ p.FirstMissing err) ∧
    draw cs padding ⟨p.graph, []⟩ = .ok [] := by
  refine ⟨?_, fun err => draw_eq_error_iff, rfl⟩
  simp only [draw_eq_error_iff, exists_and_left, exists_firstMissing_iff]
  rfl

/-- Of two ids that are no nodes, the one in the higher row is reported, and before any edge. -/
example :
    draw .ascii 0 ⟨knot.graph, [(['Z'], ⟨0, 9⟩), (['A'], ⟨0, 0⟩), (['Y'], ⟨7, 0⟩)]⟩ =
      .error (.unknownNode ['Y']) := by
  cbv

end Failure

end Flowmend
