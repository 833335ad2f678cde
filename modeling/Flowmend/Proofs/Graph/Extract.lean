import Flowmend.Graph.Extract
import Flowmend.Proofs.Graph.Basic
import Flowmend.Proofs.Statement.Chain
import Flowmend.Proofs.Text.Lines

/-!
# What the lines of a text declare

Each line declares nodes and edges on its own: `mentions` and `joins`. The edges of a line join
nodes of the line (`mem_mentions_of_mem_joins`), so the graph of a text has the nodes that its lines
mention, each as it is first mentioned, and all edges of its lines, numbered (`Graph.extract_eq`).
-/

namespace Flowmend

namespace Extract

open Text

/-! ## Nodes -/

namespace Draft

variable {limit : Option Int} {d : Draft} {id : Text}

/-- The ids of the nodes. -/
def ids (d : Draft) : List Text := d.nodes.map Node.id

/-- The node that a reference declares. -/
def nodeOf (limit : Option Int) (n : Reference) : Node :=
  ⟨n.id, labelOf limit n.id (n.frame.elim [] Frame.label)⟩

/-- Adds the nodes of references. -/
def addAll (limit : Option Int) (d : Draft) (ns : List Reference) : Draft :=
  ns.foldl (addReference limit) d

theorem declare_of_mem {raw : Text} (h : id ∈ d.ids) : d.declare limit id raw = d := by
  have : d.nodes.any (fun n => n.id == id) = true := by
    simpa [ids, List.any_eq_true] using h
  rw [declare, if_pos this]

theorem declare_of_notMem {raw : Text} (h : id ∉ d.ids) :
    d.declare limit id raw = ⟨d.nodes ++ [⟨id, labelOf limit id raw⟩], d.edges⟩ := by
  have : ¬d.nodes.any (fun n => n.id == id) = true := by
    simpa [ids, List.any_eq_true] using h
  rw [declare, if_neg this]

theorem edges_declare {raw : Text} : (d.declare limit id raw).edges = d.edges := by
  unfold declare
  split <;> rfl

theorem mem_ids_declare {raw a : Text} :
    a ∈ (d.declare limit id raw).ids ↔ a ∈ d.ids ∨ a = id := by
  by_cases h : id ∈ d.ids
  · rw [declare_of_mem h]
    exact ⟨.inl, fun ha => ha.elim (fun ha => ha) fun ha => ha ▸ h⟩
  · rw [declare_of_notMem h]
    simp [ids]

theorem nodup_declare {raw : Text} (h : d.ids.Nodup) : (d.declare limit id raw).ids.Nodup := by
  by_cases hmem : id ∈ d.ids
  · rwa [declare_of_mem hmem]
  · rw [declare_of_notMem hmem, ids, List.map_append]
    refine List.nodup_append.2 ⟨h, List.nodup_singleton id, ?_⟩
    rintro a ha b hb rfl
    obtain rfl : a = id := List.mem_singleton.1 hb
    exact hmem ha

theorem edges_addAll {ns : List Reference} : (d.addAll limit ns).edges = d.edges := by
  induction ns generalizing d with
  | nil => rfl
  | cons n ns ih => exact ih.trans edges_declare

theorem mem_ids_addAll {ns : List Reference} {a : Text} :
    a ∈ (d.addAll limit ns).ids ↔ a ∈ d.ids ∨ a ∈ ns.map Reference.id := by
  induction ns generalizing d with
  | nil => simp [addAll]
  | cons n ns ih =>
    rw [addAll, List.foldl_cons, ← addAll, ih, addReference, mem_ids_declare, List.map_cons,
      List.mem_cons, or_assoc]

/-- The edges that are there do not matter for the nodes that are added. -/
theorem nodes_addAll_congr {d' : Draft} (h : d.nodes = d'.nodes) (ns : List Reference) :
    (d.addAll limit ns).nodes = (d'.addAll limit ns).nodes := by
  induction ns generalizing d d' with
  | nil => exact h
  | cons n ns ih =>
    refine ih ?_
    unfold addReference declare
    rw [h]
    split <;> simp [h]

theorem addAll_append {ns ms : List Reference} :
    d.addAll limit (ns ++ ms) = (d.addAll limit ns).addAll limit ms := List.foldl_append

/-- A node is the one that was there, or else the one that the first reference to it declares. -/
theorem find?_addAll {ns : List Reference} (a : Text) :
    (d.addAll limit ns).nodes.find? (fun n => n.id == a) =
      (d.nodes.find? fun n => n.id == a).or
        ((ns.find? fun n => n.id == a).map (nodeOf limit)) := by
  induction ns generalizing d with
  | nil => simp [addAll]
  | cons n ns ih =>
    have hmem : ∀ b, (d.nodes.find? fun n => n.id == b).isSome = true ↔ b ∈ d.ids := by
      intro b
      simp [ids]
    rw [addAll, List.foldl_cons, ← addAll, ih, addReference]
    by_cases hn : n.id ∈ d.ids
    · rw [declare_of_mem hn]
      by_cases ha : n.id = a
      · obtain ⟨m, hm⟩ := Option.isSome_iff_exists.1 ((hmem a).2 (ha ▸ hn))
        rw [hm, Option.some_or, Option.some_or]
      · rw [List.find?_cons_of_neg (by simpa using ha)]
    · rw [declare_of_notMem hn, List.find?_append]
      by_cases ha : n.id = a
      · subst ha
        have hnone : (d.nodes.find? fun m => m.id == n.id) = none := by
          rw [← Option.not_isSome_iff_eq_none, hmem]
          exact hn
        simp [hnone, nodeOf]
      · have hne : (n.id == a) = false := by simpa using ha
        rw [List.find?_cons_of_neg (by simpa using ha), List.find?_cons_of_neg (by simpa using ha)]
        simp

/-- References to new ids, all distinct, each add a node. -/
theorem addAll_of_nodup {ns : List Reference} (h : (d.ids ++ ns.map Reference.id).Nodup) :
    d.addAll limit ns = ⟨d.nodes ++ ns.map (nodeOf limit), d.edges⟩ := by
  induction ns generalizing d with
  | nil => simp [addAll]
  | cons n ns ih =>
    have hnew : n.id ∉ d.ids := fun hmem =>
      List.disjoint_of_nodup_append h hmem List.mem_cons_self
    rw [addAll, List.foldl_cons, ← addAll, addReference, declare_of_notMem hnew, ih]
    · simp [nodeOf]
    · simpa [ids] using h

/-- References to nodes that are there add none. -/
theorem addAll_of_mem {ns : List Reference} (h : ∀ n ∈ ns, n.id ∈ d.ids) :
    d.addAll limit ns = d := by
  induction ns with
  | nil => rfl
  | cons n ns ih =>
    rw [addAll, List.foldl_cons, ← addAll, addReference, declare_of_mem (h n List.mem_cons_self)]
    exact ih fun m hm => h m (List.mem_cons_of_mem n hm)

theorem nodup_addAll {ns : List Reference} (h : d.ids.Nodup) : (d.addAll limit ns).ids.Nodup := by
  induction ns generalizing d with
  | nil => exact h
  | cons n ns ih => exact ih (nodup_declare h)

/-! ## Edges -/

/-- Adds edges. -/
def addArcs (d : Draft) (as : List Arc) : Draft :=
  as.foldl (fun d a => d.connect a.kind a.source a.target) d

theorem addArcs_append {as bs : List Arc} :
    d.addArcs (as ++ bs) = (d.addArcs as).addArcs bs := List.foldl_append

/-- The edges that are added are numbered from the number of those that are there. -/
theorem addArcs_eq {as : List Arc} :
    d.addArcs as = ⟨d.nodes, d.edges ++ Arc.number d.edges.length as⟩ := by
  induction as generalizing d with
  | nil => simp [addArcs, Arc.number]
  | cons a as ih =>
    rw [addArcs, List.foldl_cons, ← addArcs, ih]
    simp [connect, Arc.number, Arc.edge]

end Draft

/-- The edges from each source to each target. -/
def product (kind : EdgeKind) (sources targets : List Text) : List Arc :=
  sources.flatMap fun s => targets.map fun t => ⟨s, t, kind⟩

theorem mem_product {kind : EdgeKind} {sources targets : List Text} {a : Arc} :
    a ∈ product kind sources targets ↔
      a.source ∈ sources ∧ a.target ∈ targets ∧ a.kind = kind := by
  obtain ⟨s, t, k⟩ := a
  simp only [product, List.mem_flatMap, List.mem_map, Arc.mk.injEq]
  constructor
  · rintro ⟨s, hs, t, ht, rfl, rfl, rfl⟩
    exact ⟨hs, ht, rfl⟩
  · rintro ⟨hs, ht, rfl⟩
    exact ⟨s, hs, t, ht, rfl, rfl, rfl⟩

theorem Draft.connectAll_eq (d : Draft) (kind : EdgeKind) (sources targets : List Text) :
    d.connectAll kind sources targets = d.addArcs (product kind sources targets) := by
  have : product kind sources targets =
      (sources.flatMap fun s => targets.map fun t => (s, t)).map fun p => ⟨p.1, p.2, kind⟩ := by
    simp [product, List.map_flatMap, Function.comp_def]
  rw [this, addArcs, List.foldl_map]
  rfl

/-! ## Chains -/

/-- The references of a side that are nodes. -/
def sideNodes (role : Role) (side : Text) : List Reference :=
  (partReferences side).flatMap (nodesOfPart role)

/-- The nodes of the sides after the first one. -/
def linkNodes : List Link → List Reference
  | [] => []
  | l :: ls => sideNodes ⟨true, !ls.isEmpty⟩ (trim l.side) ++ linkNodes ls

/-- The edges of the links, the first of which leaves from `sources`. -/
def linkArcs (sources : List Text) : List Link → List Arc
  | [] => []
  | l :: ls =>
    product l.connector.kind sources (endsOf (trim l.side)).targets ++
      linkArcs (endsOf (trim l.side)).sources ls

/-- The nodes of a chain. -/
def chainNodes (c : Chain) : List Reference :=
  sideNodes ⟨false, !c.links.isEmpty⟩ (trim c.first) ++ linkNodes c.links

/-- The edges of a chain. -/
def chainArcs (c : Chain) : List Arc := linkArcs (endsOf (trim c.first)).sources c.links

section Chain

variable {limit : Option Int} {d : Draft}

theorem Draft.addSides_eq (ls : List Link) :
    d.addSides limit ls = d.addAll limit (linkNodes ls) := by
  induction ls generalizing d with
  | nil => rfl
  | cons l ls ih => rw [addSides, ih, linkNodes, addAll_append]; rfl

theorem Draft.addEdges_eq (sources : List Text) (ls : List Link) :
    d.addEdges sources ls = d.addArcs (linkArcs sources ls) := by
  induction ls generalizing d sources with
  | nil => rfl
  | cons l ls ih => rw [addEdges, ih, connectAll_eq, linkArcs, addArcs_append]

theorem Draft.addChain_eq (c : Chain) :
    d.addChain limit c = (d.addAll limit (chainNodes c)).addArcs (chainArcs c) := by
  rw [addChain, addSides_eq, addEdges_eq, chainNodes, addAll_append]
  rfl

end Chain

/-! ## The ends of edges -/

theorem mem_nodesOfPart_of_head? {role : Role} (h : role.arrives = true) {ns : List Reference}
    {n : Reference} (hn : ns.head? = some n) : n ∈ nodesOfPart role ns := by
  cases ns with
  | nil => cases hn
  | cons m ns =>
    cases hn
    simp [nodesOfPart, h]

theorem mem_nodesOfPart_of_getLast? {role : Role} (h : role.leaves = true) {ns : List Reference}
    {n : Reference} (hn : ns.getLast? = some n) : n ∈ nodesOfPart role ns := by
  induction ns generalizing role with
  | nil => cases hn
  | cons m ns ih =>
    by_cases hns : ns = []
    · subst hns
      cases hn
      simp [nodesOfPart, h]
    · rw [List.getLast?_cons_of_ne_nil hns] at hn
      have hmem : n ∈ nodesOfPart { role with arrives := false } ns := ih h hn
      unfold nodesOfPart
      split
      · exact List.mem_cons_of_mem m hmem
      · exact hmem

/-- The ids that edges arrive at are those of nodes of the side. -/
theorem mem_sideNodes_of_mem_targets {role : Role} (h : role.arrives = true) {side a : Text}
    (ha : a ∈ (endsOf side).targets) : a ∈ (sideNodes role side).map Reference.id := by
  obtain ⟨ns, hns, ha⟩ := List.mem_filterMap.1 ha
  obtain ⟨n, hn, rfl⟩ := Option.map_eq_some_iff.1 ha
  exact List.mem_map_of_mem (List.mem_flatMap.2 ⟨ns, hns, mem_nodesOfPart_of_head? h hn⟩)

/-- The ids that edges leave from are those of nodes of the side. -/
theorem mem_sideNodes_of_mem_sources {role : Role} (h : role.leaves = true) {side a : Text}
    (ha : a ∈ (endsOf side).sources) : a ∈ (sideNodes role side).map Reference.id := by
  obtain ⟨ns, hns, ha⟩ := List.mem_filterMap.1 ha
  obtain ⟨n, hn, rfl⟩ := Option.map_eq_some_iff.1 ha
  exact List.mem_map_of_mem (List.mem_flatMap.2 ⟨ns, hns, mem_nodesOfPart_of_getLast? h hn⟩)

theorem mem_of_mem_linkArcs {sources : List Text} {ls : List Link} {a : Arc}
    (ha : a ∈ linkArcs sources ls) :
    (a.source ∈ sources ∨ a.source ∈ (linkNodes ls).map Reference.id) ∧
      a.target ∈ (linkNodes ls).map Reference.id := by
  induction ls generalizing sources with
  | nil => cases ha
  | cons l ls ih =>
    rw [linkNodes, List.map_append, List.mem_append, List.mem_append]
    rcases List.mem_append.1 ha with ha | ha
    · obtain ⟨hs, ht, -⟩ := mem_product.1 ha
      exact ⟨.inl hs, .inl (mem_sideNodes_of_mem_targets rfl ht)⟩
    · obtain ⟨hs, ht⟩ := ih ha
      refine ⟨.inr ?_, .inr ht⟩
      rcases hs with hs | hs
      · -- An edge leaves from this side, so there is a next one.
        have hls : ls.isEmpty = false := by
          cases ls with
          | nil => cases ha
          | cons => rfl
        exact .inl (mem_sideNodes_of_mem_sources (by rw [hls]; rfl) hs)
      · exact .inr hs

theorem mem_chainNodes_of_mem_chainArcs {c : Chain} {a : Arc} (ha : a ∈ chainArcs c) :
    a.source ∈ (chainNodes c).map Reference.id ∧ a.target ∈ (chainNodes c).map Reference.id := by
  obtain ⟨hs, ht⟩ := mem_of_mem_linkArcs ha
  rw [chainNodes, List.map_append, List.mem_append, List.mem_append]
  refine ⟨?_, .inr ht⟩
  rcases hs with hs | hs
  · have hlinks : c.links.isEmpty = false := by
      cases h : c.links with
      | nil => rw [chainArcs, h] at ha; cases ha
      | cons => rfl
    exact .inl (mem_sideNodes_of_mem_sources (by rw [hlinks]; rfl) hs)
  · exact .inr hs

/-! ## Nodes without connectors -/

theorem boxes_cons_of_not_id {c : Char} (hc : isIdChar c = false) (t : Text) :
    boxes (c :: t) = boxes t := by
  rw [boxes, if_neg (by simp [hc])]

theorem boxes_cons_of_bracket {c : Char} {t inner : Text} (hc : isIdChar c = true)
    (h : afterId t = '[' :: inner) :
    boxes (c :: t) =
      (c :: leadingId t, inner.takeWhile isBoxed) :: boxes (inner.dropWhile isBoxed) := by
  rw [boxes, if_pos hc]
  split
  · rename_i inner' h'
    rw [h] at h'
    cases h'
    rfl
  · rename_i hne
    exact absurd h (hne inner)

theorem boxes_cons_of_id {c : Char} {t : Text} (hc : isIdChar c = true)
    (h : ∀ inner, afterId t ≠ '[' :: inner) : boxes (c :: t) = boxes (afterId t) := by
  rw [boxes, if_pos hc]
  split
  · rename_i inner h'
    exact absurd h' (h inner)
  · rfl

theorem boxes_eq_nil {t : Text} (h : '[' ∉ t) : boxes t = [] := by
  induction t using boxes.induct with
  | case1 => rw [boxes]
  | case2 c t hc inner hinner ih =>
    refine absurd (List.mem_cons_of_mem c ?_) h
    have : '[' ∈ afterId t := hinner ▸ List.mem_cons_self
    exact (List.dropWhile_suffix isIdChar).subset this
  | case3 c t hc hne ih =>
    rw [boxes_cons_of_id hc hne]
    exact ih fun hmem => h (List.mem_cons_of_mem c ((List.dropWhile_suffix isIdChar).subset hmem))
  | case4 c t hc ih =>
    rw [boxes_cons_of_not_id (by simpa using hc)]
    exact ih fun hmem => h (List.mem_cons_of_mem c hmem)

/-! ## Lines -/

/-- A node written `id[label`, as a reference. -/
def boxed (box : Text × Text) : Reference := ⟨box.1, some ⟨.rectangle, box.2, false⟩⟩

/-- The nodes of a statement. -/
def statementNodes (statement : Text) : List Reference :=
  let chain := Chain.ofText statement
  if !chain.links.isEmpty then chainNodes chain
  else if opensWithFrame statement then framedNodes statement
  else (boxes statement).map boxed

/-- The edges of a statement. -/
def statementArcs (statement : Text) : List Arc := chainArcs (Chain.ofText statement)

/-- The nodes that a trimmed line mentions. -/
def mentions (line : Text) : List Reference :=
  if isComment line || isDirective line then [] else statementNodes (Header.skip line)

/-- The edges of a trimmed line. -/
def joins (line : Text) : List Arc :=
  if isComment line || isDirective line then [] else statementArcs (Header.skip line)

/-- The edges of a line join nodes that the line mentions. -/
theorem mem_mentions_of_mem_joins {line : Text} {a : Arc} (ha : a ∈ joins line) :
    a.source ∈ (mentions line).map Reference.id ∧ a.target ∈ (mentions line).map Reference.id := by
  unfold joins at ha
  unfold mentions
  split at ha
  · cases ha
  · rename_i hline
    have hlinks : (Chain.ofText (Header.skip line)).links.isEmpty = false := by
      cases h : (Chain.ofText (Header.skip line)).links with
      | nil => rw [statementArcs, chainArcs, h] at ha; cases ha
      | cons => rfl
    rw [if_neg hline, statementNodes, hlinks]
    exact mem_chainNodes_of_mem_chainArcs ha

section Line

variable {limit : Option Int} {d : Draft}

/-- The character is part of no connector, and no label opens with it. -/
structure Mute (c : Char) : Prop where
  not_stroke : Connector.isStroke c = false
  not_opener : c ≠ '[' ∧ c ≠ '(' ∧ c ≠ '{'

/-- Without connectors and brackets, a statement declares nothing. -/
theorem statementNodes_eq_nil {t : Text} (h : ∀ c ∈ t, Mute c) : statementNodes t = [] := by
  have hfree : Connector.Free t := Connector.free_of_not_stroke fun c hc => (h c hc).not_stroke
  have hopens : opensWithFrame t = false := by
    unfold opensWithFrame
    cases hopening : Reference.opening? t with
    | none => rfl
    | some p =>
      obtain ⟨n, rest⟩ := p
      cases hf : n.frame with
      | none => simp [Reference.bare, hf]
      | some f =>
        -- The bracket that opens the label stands in the text.
        obtain ⟨k, ks, hk, hbracket⟩ : ∃ k ks, f.shape.opener = k :: ks ∧
            (k = '[' ∨ k = '(' ∨ k = '{') := by
          cases f.shape <;> exact ⟨_, _, rfl, by decide⟩
        have htext := (Reference.eq_append_of_read? hopening).1
        have hmem : k ∈ t := by
          refine (List.dropWhile_suffix isPad).subset ?_
          rw [htext, Reference.text, hf]
          simp [Frame.text, hk]
        obtain ⟨h₁, h₂, h₃⟩ := (h k hmem).not_opener
        rcases hbracket with rfl | rfl | rfl
        · exact absurd rfl h₁
        · exact absurd rfl h₂
        · exact absurd rfl h₃
  have hboxes : boxes t = [] := boxes_eq_nil fun hmem => (h _ hmem).not_opener.1 rfl
  rw [statementNodes, Chain.ofText_of_free hfree, hopens, hboxes]
  rfl

theorem statementNodes_nil : statementNodes [] = [] := statementNodes_eq_nil (by simp)

theorem statementArcs_nil : statementArcs [] = [] := by
  rw [statementArcs, Chain.ofText_of_free Connector.free_nil]
  rfl

theorem Draft.addStatement_eq (statement : Text) :
    d.addStatement limit statement =
      (d.addAll limit (statementNodes statement)).addArcs (statementArcs statement) := by
  unfold addStatement statementNodes statementArcs
  simp only []
  split
  · exact addChain_eq _
  · rename_i hlinks
    have harcs : chainArcs (Chain.ofText statement) = [] := by
      have : (Chain.ofText statement).links = [] := by simpa using hlinks
      rw [chainArcs, this]
      rfl
    rw [harcs]
    split
    · rfl
    · rw [addAll, List.foldl_map]
      rfl

/-- A line adds the nodes that it mentions and its edges. -/
theorem Draft.addLine_eq (line : Text) :
    d.addLine limit line = (d.addAll limit (mentions line)).addArcs (joins line) := by
  unfold addLine mentions joins
  split
  · rfl
  · simp only []
    split
    · rename_i hskip
      rw [List.isEmpty_iff.1 hskip, statementNodes_nil, statementArcs_nil]
      rfl
    · exact addStatement_eq _

end Line

/-! ## Texts -/

/-- The nodes that the lines mention, and their edges. -/
theorem foldl_addLine (limit : Option Int) (d : Draft) (ls : List Text) :
    ls.foldl (Draft.addLine limit) d =
      ⟨(d.addAll limit (ls.flatMap mentions)).nodes,
        d.edges ++ Arc.number d.edges.length (ls.flatMap joins)⟩ := by
  induction ls generalizing d with
  | nil => simp [Draft.addAll, Arc.number]
  | cons l ls ih =>
    have hnodes : ((d.addLine limit l).addAll limit (ls.flatMap mentions)).nodes =
        ((d.addAll limit (mentions l)).addAll limit (ls.flatMap mentions)).nodes :=
      Draft.nodes_addAll_congr (by rw [Draft.addLine_eq, Draft.addArcs_eq]) _
    have hedges : (d.addLine limit l).edges =
        d.edges ++ Arc.number d.edges.length (joins l) := by
      rw [Draft.addLine_eq, Draft.addArcs_eq, Draft.edges_addAll]
    rw [List.foldl_cons, ih, hnodes, hedges, List.flatMap_cons, List.flatMap_cons,
      Draft.addAll_append, Arc.number_append, List.length_append, Arc.length_number,
      List.append_assoc]

theorem draft_eq (limit : Option Int) (source : Text) :
    draft limit source =
      ⟨((⟨[], []⟩ : Draft).addAll limit (source.statements.flatMap mentions)).nodes,
        Arc.number 0 (source.statements.flatMap joins)⟩ :=
  foldl_addLine limit ⟨[], []⟩ source.statements

end Extract

open Extract

/-- The graph of a text has the nodes that its lines mention, each as it is first mentioned, and all
edges of its lines, numbered. -/
theorem Graph.extract_eq (limit : Option Int) (source : Text) :
    Graph.extract limit source =
      ⟨((⟨[], []⟩ : Draft).addAll limit (source.statements.flatMap mentions)).nodes,
        Arc.number 0 (source.statements.flatMap joins)⟩ := by
  rw [Graph.extract, draft_eq]
  refine Graph.ofLists_eq (Draft.nodup_addAll List.nodup_nil) (fun e he => ?_)
    (Arc.nodup_number 0 _)
  -- The edge belongs to a line, which mentions both its ends.
  obtain ⟨l, hl, ha⟩ := List.mem_flatMap.1 (Arc.mem_number he)
  have hsub : ∀ a ∈ (mentions l).map Reference.id,
      a ∈ ((⟨[], []⟩ : Draft).addAll limit (source.statements.flatMap mentions)).ids := by
    intro a ha
    obtain ⟨n, hn, rfl⟩ := List.mem_map.1 ha
    exact Draft.mem_ids_addAll.2 (.inr (List.mem_map_of_mem (List.mem_flatMap.2 ⟨l, hl, hn⟩)))
  obtain ⟨hs, ht⟩ := mem_mentions_of_mem_joins ha
  exact ⟨hsub _ hs, hsub _ ht⟩

/-- The node with some id is the one that the first mention of the id declares. -/
theorem Graph.node?_extract (limit : Option Int) (source id : Text) :
    (Graph.extract limit source).node? id =
      ((source.statements.flatMap mentions).find? fun n => n.id == id).map
        (Draft.nodeOf limit) := by
  rw [Graph.extract_eq, Graph.node?, Draft.find?_addAll]
  rfl

/-- The nodes of a graph are those that its lines mention. -/
theorem Graph.mem_ids_extract {limit : Option Int} {source id : Text} :
    id ∈ (Graph.extract limit source).ids ↔
      ∃ l ∈ source.statements, id ∈ (mentions l).map Reference.id := by
  rw [Graph.extract_eq]
  show id ∈ Draft.ids _ ↔ _
  rw [Draft.mem_ids_addAll]
  simp only [Draft.ids, List.map_nil, List.not_mem_nil, false_or, List.map_flatMap,
    List.mem_flatMap]

/-- The edges of a graph are those of its lines. -/
theorem Graph.mem_arcs_extract {limit : Option Int} {source : Text} {a : Arc} :
    a ∈ (Graph.extract limit source).edges.map Edge.arc ↔
      ∃ l ∈ source.statements, a ∈ joins l := by
  rw [Graph.extract_eq]
  show a ∈ (Arc.number 0 _).map Edge.arc ↔ _
  rw [Arc.map_arc_number, List.mem_flatMap]

end Flowmend
