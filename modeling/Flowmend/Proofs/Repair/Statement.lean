import Flowmend.Proofs.Repair.Defect
import Flowmend.Repair.Statement

/-!
# Repair of tidy statements

A tidy statement is mended without a repair. A node keeps its text (`Reference.Tidy.mendLine_text`),
and a row becomes the rows of its single edges (`Row.Tidy.mendLine_text`). `Row.split` are these
rows: a node is written out on one side of the first connector that joins it, and is bare
afterwards.
-/

namespace Flowmend

open Text

/-! ## Labels -/

namespace Label

theorem Plain.mend {l : Text} (h : Plain l) (node : Text) : mend node l = ⟨l, []⟩ := by
  simp only [Label.mend, show clean none l = l from h, h.trimmed.trim_eq, if_pos]

theorem Plain.mendEdge {l : Text} (h : Plain l) : mendEdge l = ⟨l, []⟩ := by
  simp only [Label.mendEdge, show clean none l = l from h, h.trimmed.trim_eq, if_pos]

end Label

theorem Connector.Tidy.mendLabel {k : Connector} (hk : k.Tidy) : k.mendLabel = ⟨k.label, []⟩ := by
  unfold Connector.mendLabel
  cases hl : k.label with
  | none => rfl
  | some l =>
    simp only []
    rw [(hk.label_plain l hl).mendEdge]
    rfl

/-! ## Nodes -/

namespace Reference

variable {n : Reference}

/-- The node as it is mentioned after its label is known. -/
def mentioned (n : Reference) : Reference := ⟨n.id, none⟩

theorem Tidy.mentioned (hn : n.Tidy) : n.mentioned.Tidy := ⟨hn.id, by simp [Reference.mentioned]⟩

theorem text_mentioned (n : Reference) : n.mentioned.text = n.id := by
  simp [text, mentioned]

theorem Tidy.mend (hn : n.Tidy) : n.mend = ⟨n.text, []⟩ := by
  unfold Reference.mend text
  cases hfr : n.frame with
  | none => simp only [List.append_nil]; rfl
  | some f =>
    have hf : f.Tidy := hn.frame f hfr
    simp only [hf.closed, if_true]
    rw [hf.plain.mend, hf.text_eq, ← List.append_assoc, ← List.append_assoc]
    rfl

/-- A tidy node stays as it is. -/
theorem Tidy.mendOpening_text (hn : n.Tidy) : mendOpening n.text = ⟨n.text, []⟩ := by
  have hopening := hn.opening?_text (u := []) (by simp [Ends])
  rw [List.append_nil] at hopening
  rw [mendOpening, hopening]
  simp only []
  split
  · rfl
  · rw [hn.mend]
    show (⟨n.text ++ [], []⟩ : Noted Text) = _
    rw [List.append_nil]

theorem Tidy.leadingId_text (hn : n.Tidy) : leadingId n.text = n.id := by
  refine leadingId_append hn.id.isIdChar fun c hc => ?_
  cases hfr : n.frame with
  | none => simp [hfr] at hc
  | some f =>
    simp only [hfr, (hn.frame f hfr).text_eq, List.head?_append] at hc
    rcases f.shape.head?_opener with h | h | h <;> rw [h] at hc <;> cases hc <;> decide

theorem Tidy.mention_text (hn : n.Tidy) : Chain.mention n.text = n.mentioned.text := by
  have hne : n.id.isEmpty = false := by simpa using hn.id.ne_nil
  rw [Chain.mention, hn.leadingId_text, hne, text_mentioned]
  rfl

/-- Only an arrow at the start of a line is looked for behind its blanks. -/
theorem Tidy.arrow?_trimStart (hn : n.Tidy) (u : Text) :
    Connector.arrow? (trimStart (n.text ++ u)) = none := by
  obtain ⟨c, t, ht, hc⟩ := hn.text_eq_cons
  rw [ht, List.cons_append, trimStart, dropWhile_of_head isBlank _ (isBlank_of_isIdChar hc)]
  exact Defect.arrow?_eq_none (Connector.token?_cons_of_not_stroke _ (isStroke_of_isIdChar hc))

/-- A line that holds a tidy node only stays as it is. -/
theorem Tidy.mendLine_text (hn : n.Tidy) (supply : Placeholders) :
    mendLine supply n.text = (⟨[n.text], []⟩, supply) := by
  have harrow := hn.arrow?_trimStart []
  rw [List.append_nil] at harrow
  rw [mendLine, hn.calm_text.hasGluedNodes, hn.calm_text.hasBrokenConnector harrow,
    Chain.ofText_of_free hn.free_text, hn.mendOpening_text]
  rfl

end Reference

/-! ## Rows of single edges -/

/-- The row of one edge. -/
def Row.single (source : Reference) (k : Connector) (target : Reference) : Row :=
  ⟨[source], [⟨k, [target]⟩]⟩

/-- One row for each edge from the sources to the nodes of the next group, and so on from there. -/
def splitHops (sources : List Reference) : List Hop → List Row
  | [] => []
  | h :: hs =>
    (sources.flatMap fun s => h.nodes.map fun t => Row.single s h.connector t) ++
      splitHops (h.nodes.map Reference.mentioned) hs

/-- The rows of the single edges of a row. -/
def Row.split (r : Row) : List Row := splitHops r.first r.hops

theorem IsGroup.map_mentioned {ns : List Reference} (h : IsGroup ns) :
    IsGroup (ns.map Reference.mentioned) := by
  induction h with
  | single hn => exact .single hn.mentioned
  | cons hn _ ih => exact .cons hn.mentioned ih

/-- The rows of single edges are tidy. -/
theorem tidy_of_mem_splitHops {sources : List Reference} {hs : List Hop}
    (hsources : IsGroup sources) (hhs : ∀ h ∈ hs, h.Tidy) :
    ∀ r ∈ splitHops sources hs, r.Tidy := by
  induction hs generalizing sources with
  | nil => simp [splitHops]
  | cons h hs ih =>
    have hh := hhs h List.mem_cons_self
    intro r hr
    rcases List.mem_append.1 hr with hr | hr
    · obtain ⟨s, hs, hr⟩ := List.mem_flatMap.1 hr
      obtain ⟨t, ht, rfl⟩ := List.mem_map.1 hr
      refine ⟨.single (hsources.tidy s hs), by simp [Row.single], ?_⟩
      intro g hg
      obtain rfl := List.mem_singleton.1 hg
      exact ⟨hh.connector, .single (hh.nodes.tidy t ht)⟩
    · exact ih hh.nodes.map_mentioned (fun g hg => hhs g (List.mem_cons_of_mem h hg)) r hr

theorem Row.Tidy.split {r : Row} (hr : r.Tidy) : ∀ s ∈ r.split, s.Tidy :=
  tidy_of_mem_splitHops hr.first hr.hops

/-- An edge as written is the row of this edge. -/
theorem Connector.Tidy.edgeLine_text {k : Connector} (hk : k.Tidy) (s t : Reference) :
    edgeLine s.text k.token k.label t.text = (Row.single s k t).text := by
  unfold edgeLine
  cases hl : k.label with
  | none => simp [Row.single, Row.text, Hop.text, Connector.text, groupText_singleton, gap, hl]
  | some l =>
    obtain ⟨c, l, rfl⟩ := List.exists_cons_of_ne_nil (hk.label_ne_nil l hl)
    simp [Row.single, Row.text, Hop.text, Connector.text, groupText_singleton, gap, hl]

/-! ## Chains -/

@[simp] theorem Noted.quiet_bind {α β : Type} (a : α) (f : α → Noted β) :
    ((⟨a, []⟩ : Noted α) >>= f) = f a := rfl

theorem Noted.each_cons {α β : Type} (f : α → Noted β) (x : α) (xs : List α) :
    Noted.each f (x :: xs) = (do
      let y ← f x
      let ys ← Noted.each f xs
      pure (y :: ys)) := by
  show _ = (⟨_, _ ++ (_ ++ [])⟩ : Noted (List β))
  rw [List.append_nil]
  rfl

/-- Nothing is noted if nothing is noted for any member. -/
theorem Noted.each_eq_self {α : Type} {f : α → Noted α} {xs : List α}
    (h : ∀ x ∈ xs, f x = ⟨x, []⟩) : Noted.each f xs = ⟨xs, []⟩ := by
  induction xs with
  | nil => rfl
  | cons x xs ih =>
    rw [Noted.each_cons, h x List.mem_cons_self, ih fun y hy => h y (List.mem_cons_of_mem x hy)]
    rfl

/-- The nodes of a side stay as they are. -/
theorem IsGroup.mendSide_text {ns : List Reference} (h : IsGroup ns) :
    Chain.mendSide (groupText ns) = ⟨ns.map Reference.text, []⟩ := by
  have hmend : ∀ t ∈ ns.map Reference.text, Reference.mendOpening t = ⟨t, []⟩ := by
    intro t ht
    obtain ⟨n, hn, rfl⟩ := List.mem_map.1 ht
    exact (h.tidy n hn).mendOpening_text
  obtain ⟨m, ms, rfl⟩ := List.exists_cons_of_ne_nil h.ne_nil
  rw [Chain.mendSide, h.fanOut_text]
  simp only [List.map_cons] at hmend ⊢
  rw [Noted.each_eq_self hmend]

/-- The edges of a chain as written are the rows of its single edges. -/
theorem edgeLines_text {sources : List Reference} {hs : List Hop} (hsources : IsGroup sources)
    (hhs : ∀ h ∈ hs, h.Tidy) :
    Chain.edgeLines (sources.map Reference.text)
        (hs.map fun h => (h.connector, h.nodes.map Reference.text)) =
      ⟨(splitHops sources hs).map Row.text, []⟩ := by
  induction hs generalizing sources with
  | nil => rfl
  | cons h hs ih =>
    have hh := hhs h List.mem_cons_self
    have ih := ih hh.nodes.map_mentioned fun g hg => hhs g (List.mem_cons_of_mem h hg)
    have hmention : (h.nodes.map Reference.text).map Chain.mention =
        (h.nodes.map Reference.mentioned).map Reference.text := by
      rw [List.map_map, List.map_map]
      exact List.map_congr_left fun n hn => (hh.nodes.tidy n hn).mention_text
    rw [List.map_cons, Chain.edgeLines, hh.connector.mendLabel, hmention, ih]
    rw [Noted.quiet_bind, Noted.quiet_bind]
    simp only [splitHops, List.map_append, List.map_flatMap, List.flatMap_map, List.map_map,
      Function.comp_def, hh.connector.edgeLine_text]
    rfl

/-- The groups after the connectors of a row stay as they are. -/
theorem mend_links {hs : List Hop} (hhs : ∀ h ∈ hs, h.Tidy) :
    Noted.each (fun l : Link => do
        let side ← Chain.mendSide (trim l.side)
        pure (l.connector, side)) (links hs) =
      ⟨hs.map fun h => (h.connector, h.nodes.map Reference.text), []⟩ := by
  induction hs with
  | nil => rfl
  | cons h hs ih =>
    have hh := hhs h List.mem_cons_self
    rw [links, Noted.each_cons, ih fun g hg => hhs g (List.mem_cons_of_mem h hg),
      hh.nodes.trim_space_pad, hh.nodes.mendSide_text]
    rfl

/-- The chain of a tidy row becomes the rows of its single edges. -/
theorem Row.Tidy.mend_chain {r : Row} (hr : r.Tidy) :
    (Chain.ofText r.text).mend = ⟨r.split.map Row.text, []⟩ := by
  rw [hr.ofText_text, Chain.mend, mend_links hr.hops, hr.first.trim_pad, hr.first.mendSide_text]
  exact edgeLines_text hr.first hr.hops

/-- A tidy row becomes the rows of its single edges. -/
theorem Row.Tidy.mendLine_text {r : Row} (hr : r.Tidy) (supply : Placeholders) :
    mendLine supply r.text = (⟨r.split.map Row.text, []⟩, supply) := by
  have hsides : (Chain.ofText r.text).sides.any List.isEmpty = false := by
    rw [hr.ofText_text, Chain.sides, hr.first.trim_pad, map_trim_links hr.hops, List.any_eq_false]
    intro side hside
    rcases List.mem_cons.1 hside with rfl | hside
    · simpa using hr.first.text_ne_nil
    · obtain ⟨h, hh, rfl⟩ := List.mem_map.1 hside
      simpa using (hr.hops h hh).nodes.text_ne_nil
  have hlinks : (Chain.ofText r.text).links.isEmpty = false := by
    rw [hr.ofText_text]
    obtain ⟨h, hs, hhs⟩ := List.exists_cons_of_ne_nil hr.hops_ne_nil
    rw [hhs]
    rfl
  obtain ⟨n, u, -, hn, htext, -⟩ := hr.exists_text
  have harrow := hn.arrow?_trimStart u
  rw [← htext] at harrow
  rw [mendLine, hr.calm_text.hasGluedNodes, hr.calm_text.hasBrokenConnector harrow]
  simp only [hsides, hlinks, hr.mend_chain, Bool.false_eq_true, if_false]

end Flowmend
