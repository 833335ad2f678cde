import Flowmend.Proofs.Graph.Extract
import Flowmend.Proofs.Repair.Document

/-!
# What tidy statements declare

A tidy row mentions its nodes and has the edges from each group to the next (`Row.Tidy.mentions`,
`Row.Tidy.joins`). Its single edges are the same edges in the same order (`Row.arcs_split`), and
they mention the same nodes, each with its label before it is bare (`Row.find?_split`).
-/

namespace Flowmend

open Text Extract

/-! ## Nodes -/

/-- A line that holds a framed node only declares this node. -/
theorem Reference.Tidy.mentions_text {n : Reference} (hn : n.Tidy) (hr : ¬Reserved n.id)
    (hframe : n.bare = false) : mentions n.text = [n] := by
  obtain ⟨hcomment, hdirective, hskip⟩ := hn.isStatement hr (u := []) (by simp [Ends])
  have hopening := hn.opening?_text (u := []) (by simp [Ends])
  rw [List.append_nil] at hcomment hdirective hskip hopening
  rw [mentions, hcomment, hdirective, hskip, statementNodes, Chain.ofText_of_free hn.free_text,
    opensWithFrame, hopening, framedNodes, hn.references_text]
  simp [hframe]

theorem Reference.Tidy.joins_text {n : Reference} (hn : n.Tidy) (hr : ¬Reserved n.id) :
    joins n.text = [] := by
  obtain ⟨hcomment, hdirective, hskip⟩ := hn.isStatement hr (u := []) (by simp [Ends])
  rw [List.append_nil] at hcomment hdirective hskip
  rw [joins, hcomment, hdirective, hskip, statementArcs, Chain.ofText_of_free hn.free_text]
  rfl

/-! ## Groups -/

namespace IsGroup

variable {ns : List Reference}

theorem partReferences_text (h : IsGroup ns) :
    partReferences (groupText ns) = ns.map fun n => [n] := by
  rw [partReferences, h.fanOut_text, List.map_map]
  exact List.map_congr_left fun n hn => (h.tidy n hn).references_text

theorem endsOf_text (h : IsGroup ns) :
    endsOf (groupText ns) = ⟨ns.map Reference.id, ns.map Reference.id⟩ := by
  simp [endsOf, h.partReferences_text, List.filterMap_map, Function.comp_def]

/-- On a side that is joined to another one, all nodes count. -/
theorem sideNodes_text (h : IsGroup ns) {role : Role}
    (hrole : role.arrives = true ∨ role.leaves = true) : sideNodes role (groupText ns) = ns := by
  have hone : ∀ n : Reference, nodesOfPart role [n] = [n] := by
    intro n
    rcases hrole with h | h <;> simp [nodesOfPart, h]
  rw [sideNodes, h.partReferences_text, List.flatMap_map]
  simp only [hone, List.flatMap_singleton']

end IsGroup

/-! ## Rows -/

/-- The edges of the hops, the first of which leaves from `sources`. -/
def hopArcs (sources : List Text) : List Hop → List Arc
  | [] => []
  | h :: hs =>
    product h.connector.kind sources (h.nodes.map Reference.id) ++
      hopArcs (h.nodes.map Reference.id) hs

/-- The edges of a row. -/
def Row.arcs (r : Row) : List Arc := hopArcs (r.first.map Reference.id) r.hops

theorem linkNodes_links {hs : List Hop} (hhs : ∀ h ∈ hs, h.Tidy) :
    linkNodes (links hs) = hs.flatMap Hop.nodes := by
  induction hs with
  | nil => rfl
  | cons h hs ih =>
    have hh := hhs h List.mem_cons_self
    rw [links, linkNodes, ih fun g hg => hhs g (List.mem_cons_of_mem h hg), hh.nodes.trim_space_pad,
      hh.nodes.sideNodes_text (.inl rfl)]
    rfl

theorem linkArcs_links {hs : List Hop} (hhs : ∀ h ∈ hs, h.Tidy) (sources : List Text) :
    linkArcs sources (links hs) = hopArcs sources hs := by
  induction hs generalizing sources with
  | nil => rfl
  | cons h hs ih =>
    have hh := hhs h List.mem_cons_self
    rw [links, linkArcs, hh.nodes.trim_space_pad, hh.nodes.endsOf_text,
      ih fun g hg => hhs g (List.mem_cons_of_mem h hg)]
    rfl

namespace Row

variable {r : Row}

theorem Tidy.isStatement (hr : r.Tidy) (hids : ∀ n ∈ r.references, ¬Reserved n.id) :
    isComment r.text = false ∧ isDirective r.text = false ∧ Header.skip r.text = r.text := by
  obtain ⟨n, v, hmem, hn, htext, hv⟩ := hr.exists_text
  rw [htext]
  exact hn.isStatement (hids n hmem) hv

/-- A tidy row mentions its nodes. -/
theorem Tidy.mentions_text (hr : r.Tidy) (hids : ∀ n ∈ r.references, ¬Reserved n.id) :
    mentions r.text = r.references := by
  obtain ⟨hcomment, hdirective, hskip⟩ := hr.isStatement hids
  obtain ⟨h, hs, hhs⟩ := List.exists_cons_of_ne_nil hr.hops_ne_nil
  have hlinks : (links r.hops).isEmpty = false := by rw [hhs]; rfl
  have hfirst : sideNodes ⟨false, !false⟩ (groupText r.first) = r.first :=
    hr.first.sideNodes_text (.inr rfl)
  rw [mentions, hcomment, hdirective, hskip, statementNodes, hr.ofText_text]
  simp only [hlinks, chainNodes, hr.first.trim_pad, linkNodes_links hr.hops, hfirst]
  rfl

/-- A tidy row has the edges from each group to the next. -/
theorem Tidy.joins_text (hr : r.Tidy) (hids : ∀ n ∈ r.references, ¬Reserved n.id) :
    joins r.text = r.arcs := by
  obtain ⟨hcomment, hdirective, hskip⟩ := hr.isStatement hids
  rw [joins, hcomment, hdirective, hskip, statementArcs, hr.ofText_text, chainArcs,
    hr.first.trim_pad, hr.first.endsOf_text, linkArcs_links hr.hops]
  rfl

end Row

/-! ## Single edges -/

theorem arcs_single (s : Reference) (k : Connector) (t : Reference) :
    (Row.single s k t).arcs = [⟨s.id, t.id, k.kind⟩] := by
  simp [Row.arcs, Row.single, hopArcs, product]

theorem references_single (s : Reference) (k : Connector) (t : Reference) :
    (Row.single s k t).references = [s, t] := rfl

theorem arcs_splitHops (sources : List Reference) (hs : List Hop) :
    (splitHops sources hs).flatMap Row.arcs = hopArcs (sources.map Reference.id) hs := by
  induction hs generalizing sources with
  | nil => rfl
  | cons h hs ih =>
    have hids : (h.nodes.map Reference.mentioned).map Reference.id = h.nodes.map Reference.id := by
      rw [List.map_map]
      rfl
    rw [splitHops, List.flatMap_append, ih, hids, hopArcs]
    simp [List.flatMap_assoc, arcs_single, product, List.map_eq_flatMap]

/-- The single edges of a row are its edges, in the same order. -/
theorem Row.arcs_split (r : Row) : r.split.flatMap Row.arcs = r.arcs :=
  arcs_splitHops r.first r.hops

/-- Lists with the same members find the same one if its id belongs to no other. -/
theorem find?_eq_of_mem_iff {ns ms : List Reference} (hmem : ∀ n, n ∈ ns ↔ n ∈ ms)
    (hinj : ∀ n ∈ ns, ∀ m ∈ ns, n.id = m.id → n = m) (id : Text) :
    ns.find? (fun n => n.id == id) = ms.find? fun n => n.id == id := by
  cases h : ns.find? fun n => n.id == id with
  | none =>
    rw [List.find?_eq_none] at h
    exact (List.find?_eq_none.2 fun m hm => h m ((hmem m).2 hm)).symm
  | some n =>
    have hn := List.mem_of_find?_eq_some h
    have hid := List.find?_some h
    obtain ⟨m, hm⟩ := Option.isSome_iff_exists.1
      (List.find?_isSome.2 ⟨n, (hmem n).1 hn, hid⟩ : (ms.find? fun n => n.id == id).isSome)
    have hmid := List.find?_some hm
    rw [hm, hinj n hn m ((hmem m).2 (List.mem_of_find?_eq_some hm))]
    exact (beq_iff_eq.1 hid).trans (beq_iff_eq.1 hmid).symm

/-- The edges of one connector mention each of its sources and targets. -/
theorem find?_pairs {sources targets : List Reference} (hsources : sources ≠ [])
    (htargets : targets ≠ []) (k : Connector)
    (hnodup : ((sources ++ targets).map Reference.id).Nodup) (id : Text) :
    ((sources.flatMap fun s => targets.map fun t => Row.single s k t).flatMap
        Row.references).find? (fun n => n.id == id) =
      (sources ++ targets).find? fun n => n.id == id := by
  obtain ⟨s₀, hs₀⟩ := List.exists_mem_of_ne_nil sources hsources
  obtain ⟨t₀, ht₀⟩ := List.exists_mem_of_ne_nil targets htargets
  have hinj := List.inj_on_of_nodup_map hnodup
  refine (find?_eq_of_mem_iff (fun n => ?_) (fun n hn m hm => hinj hn hm) id).symm
  simp only [List.mem_append, List.mem_flatMap, List.mem_map]
  constructor
  · rintro (hn | hn)
    · exact ⟨_, ⟨n, hn, t₀, ht₀, rfl⟩, by simp [references_single]⟩
    · exact ⟨_, ⟨s₀, hs₀, n, hn, rfl⟩, by simp [references_single]⟩
  · rintro ⟨_, ⟨s, hs, t, ht, rfl⟩, hn⟩
    simp only [references_single, List.mem_cons, List.not_mem_nil, or_false] at hn
    rcases hn with rfl | rfl
    · exact .inl hs
    · exact .inr ht

/-- The nodes that the rows of single edges mention first are those of the groups. -/
theorem find?_splitHops {sources : List Reference} {hs : List Hop} (hsources : sources ≠ [])
    (hnodes : ∀ h ∈ hs, h.nodes ≠ []) (hne : hs ≠ [])
    (hnodup : ((sources ++ hs.flatMap Hop.nodes).map Reference.id).Nodup) (id : Text) :
    ((splitHops sources hs).flatMap Row.references).find? (fun n => n.id == id) =
      (sources ++ hs.flatMap Hop.nodes).find? fun n => n.id == id := by
  induction hs generalizing sources with
  | nil => exact absurd rfl hne
  | cons h hs ih =>
    have hh := hnodes h List.mem_cons_self
    rw [List.flatMap_cons, ← List.append_assoc] at hnodup ⊢
    have hfirst := hnodup
    rw [List.map_append] at hfirst
    have hright : (sources ++ h.nodes ++ hs.flatMap Hop.nodes).find? (fun n => n.id == id) =
        ((sources ++ h.nodes).find? fun n => n.id == id).or
          ((hs.flatMap Hop.nodes).find? fun n => n.id == id) := List.find?_append
    rw [splitHops, List.flatMap_append, List.find?_append, find?_pairs hsources hh _
      hfirst.of_append_left, hright]
    cases hfound : (sources ++ h.nodes).find? fun n => n.id == id with
    | some n => rw [Option.some_or, Option.some_or]
    | none =>
      -- Nodes that the first connector does not mention stand behind it.
      rw [Option.none_or, Option.none_or]
      have hmentioned : ((h.nodes.map Reference.mentioned).find? fun n => n.id == id) = none := by
        rw [List.find?_eq_none] at hfound ⊢
        intro m hm
        obtain ⟨n, hn, rfl⟩ := List.mem_map.1 hm
        exact hfound n (List.mem_append_right _ hn)
      by_cases hhs : hs = []
      · subst hhs
        rfl
      · rw [ih (by simpa using hh) (fun g hg => hnodes g (List.mem_cons_of_mem h hg)) hhs,
          List.find?_append, hmentioned, Option.none_or]
        rw [List.append_assoc, List.map_append] at hnodup
        have hids : (h.nodes.map Reference.mentioned).map Reference.id =
            h.nodes.map Reference.id := by
          rw [List.map_map]
          rfl
        rw [List.map_append, hids, ← List.map_append]
        exact hnodup.of_append_right

/-- The single edges of a row mention the same nodes first as the row. -/
theorem Row.find?_split {r : Row} (hr : r.Tidy) (hnodup : (r.references.map Reference.id).Nodup)
    (id : Text) :
    (r.split.flatMap Row.references).find? (fun n => n.id == id) =
      r.references.find? fun n => n.id == id :=
  find?_splitHops hr.first.ne_nil (fun h hh => (hr.hops h hh).nodes.ne_nil) hr.hops_ne_nil hnodup id

/-! ## Documents -/

section Document

variable {header : Text} {ls : List Text}

/-- The header of a flowchart declares nothing. -/
theorem mentions_header (h : Header.IsFlowchart header) :
    mentions header = [] ∧ joins header = [] := by
  obtain ⟨hcomment, hdirective, hskip⟩ := Header.line_of_isFlowchart h
  simp [mentions, joins, hcomment, hdirective, hskip, statementNodes_nil, statementArcs_nil]

/-- The graph of a document is that of the lines after its header. -/
theorem extract_unlines (hheader : Header.IsFlowchart header) (h : ∀ l ∈ ls, IsLine l)
    (limit : Option Int) :
    Graph.extract limit (unlines (header :: ls)) =
      ⟨((⟨[], []⟩ : Draft).addAll limit (ls.flatMap mentions)).nodes,
        Arc.number 0 (ls.flatMap joins)⟩ := by
  obtain ⟨hmentions, hjoins⟩ := mentions_header hheader
  rw [Graph.extract_eq,
    statements_unlines_of_isLine (List.forall_mem_cons.2 ⟨isLine_of_isFlowchart hheader, h⟩)]
  simp only [List.flatMap_cons, hmentions, hjoins, List.nil_append]

theorem node?_unlines (hheader : Header.IsFlowchart header) (h : ∀ l ∈ ls, IsLine l)
    (limit : Option Int) (id : Text) :
    (Graph.extract limit (unlines (header :: ls))).node? id =
      ((ls.flatMap mentions).find? fun n => n.id == id).map (Draft.nodeOf limit) := by
  rw [Graph.node?_extract,
    statements_unlines_of_isLine (List.forall_mem_cons.2 ⟨isLine_of_isFlowchart hheader, h⟩),
    List.flatMap_cons, (mentions_header hheader).1, List.nil_append]

end Document

end Flowmend
