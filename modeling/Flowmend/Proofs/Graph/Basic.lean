import Flowmend.Graph.Basic
import Mathlib.Data.List.Nodup

/-!
# Graphs from lists

`Graph.ofLists` passes over nodes and edges that do not fit. Lists that fit as they are make the
graph of just these nodes and edges (`Graph.ofLists_eq`). `Arc.number` gives edges the ids by which
they fit.
-/

namespace Flowmend

/-! ## Numbered edges -/

/-- An edge without an id. -/
structure Arc where
  source : Text
  target : Text
  kind : EdgeKind
  deriving DecidableEq, Repr

/-- An edge without its id. -/
def Edge.arc (e : Edge) : Arc := ⟨e.source, e.target, e.kind⟩

namespace Arc

/-- The edge with its number in its id. -/
def edge (a : Arc) (n : Nat) : Edge :=
  ⟨'e' :: '-' :: a.source ++ '-' :: a.target ++ '-' :: Nat.toDigits 10 n,
    a.source, a.target, a.kind⟩

/-- The edges, numbered from `n`. -/
def number (n : Nat) (as : List Arc) : List Edge := (as.zipIdx n).map fun (a, i) => a.edge i

theorem number_append (n : Nat) (as bs : List Arc) :
    number n (as ++ bs) = number n as ++ number (n + as.length) bs := by
  rw [number, List.zipIdx_append, List.map_append]
  rfl

theorem length_number (n : Nat) (as : List Arc) : (number n as).length = as.length := by
  simp [number]

theorem mem_number {n : Nat} {as : List Arc} {e : Edge} (h : e ∈ number n as) :
    (⟨e.source, e.target, e.kind⟩ : Arc) ∈ as := by
  obtain ⟨⟨a, i⟩, hmem, rfl⟩ := List.mem_map.1 h
  exact List.fst_mem_of_mem_zipIdx hmem

theorem map_arc_number (n : Nat) (as : List Arc) : (number n as).map Edge.arc = as := by
  rw [number, List.map_map]
  exact List.zipIdx_map_fst n as

theorem eq_edge_of_getElem?_number {n i : Nat} {as : List Arc} {e : Edge}
    (h : (number n as)[i]? = some e) : e = e.arc.edge (n + i) := by
  rw [number, List.getElem?_map, List.getElem?_zipIdx, Option.map_map] at h
  obtain ⟨a, -, rfl⟩ := Option.map_eq_some_iff.1 h
  rfl

theorem dash_notMem_toDigits (n : Nat) : '-' ∉ Nat.toDigits 10 n := by
  intro h
  have := Nat.isDigit_of_mem_toDigits (by decide) (by decide) h
  cases this

/-- The number of an edge is what stands behind the last dash of its id. -/
theorem number_of_id_eq {a b : Arc} {i j : Nat} (h : (a.edge i).id = (b.edge j).id) : i = j := by
  have hread : ∀ (t : Text) (n : Nat),
      (t ++ '-' :: Nat.toDigits 10 n).reverse.takeWhile (· != '-') =
        (Nat.toDigits 10 n).reverse := by
    intro t n
    rw [List.reverse_append, List.reverse_cons, List.append_assoc, List.takeWhile_append_of_pos]
    · simp
    · intro c hc
      have : c ≠ '-' := fun he => dash_notMem_toDigits n (he ▸ List.mem_reverse.1 hc)
      simpa using this
  have h := congrArg (fun t : Text => t.reverse.takeWhile (· != '-')) h
  simp only [edge] at h
  rw [hread, hread, List.reverse_inj] at h
  have hdigits := congrArg (Nat.ofDigitChars 10 · 0) h
  simpa only [Nat.ofDigitChars_ten_toDigits] using hdigits

theorem nodup_number (n : Nat) (as : List Arc) : ((number n as).map Edge.id).Nodup := by
  induction as generalizing n with
  | nil => exact List.nodup_nil
  | cons a as ih =>
    rw [number, List.zipIdx_cons, List.map_cons, List.map_cons, List.nodup_cons]
    refine ⟨fun hmem => ?_, ih (n + 1)⟩
    obtain ⟨e, he, hid⟩ := List.mem_map.1 hmem
    obtain ⟨⟨b, i⟩, hb, rfl⟩ := List.mem_map.1 he
    have := List.le_snd_of_mem_zipIdx hb
    have := number_of_id_eq hid
    omega

end Arc

/-! ## Lists that fit -/

namespace Graph

/-- The ids of the nodes. -/
def ids (g : Graph) : List Text := g.nodes.map Node.id

theorem hasNode_iff {g : Graph} {id : Text} : g.hasNode id = true ↔ id ∈ g.ids := by
  simp [hasNode, ids, List.any_eq_true]

theorem foldl_insertNode {g : Graph} {nodes : List Node}
    (h : (g.ids ++ nodes.map Node.id).Nodup) :
    nodes.foldl insertNode g = ⟨g.nodes ++ nodes, g.edges⟩ := by
  induction nodes generalizing g with
  | nil => simp
  | cons n nodes ih =>
    have hnew : g.hasNode n.id = false := by
      by_contra hmem
      rw [Bool.not_eq_false, hasNode_iff] at hmem
      exact List.disjoint_of_nodup_append h hmem List.mem_cons_self
    rw [List.foldl_cons, insertNode, hnew, if_neg (by decide), ih]
    · simp
    · simpa [ids] using h

theorem foldl_insertEdge {g : Graph} {edges : List Edge}
    (hends : ∀ e ∈ edges, e.source ∈ g.ids ∧ e.target ∈ g.ids)
    (h : ((g.edges ++ edges).map Edge.id).Nodup) :
    edges.foldl insertEdge g = ⟨g.nodes, g.edges ++ edges⟩ := by
  induction edges generalizing g with
  | nil => simp
  | cons e edges ih =>
    obtain ⟨hsource, htarget⟩ := hends e List.mem_cons_self
    have hnew : g.edges.any (fun f => f.id == e.id) = false := by
      by_contra hmem
      rw [Bool.not_eq_false, List.any_eq_true] at hmem
      obtain ⟨f, hf, hid⟩ := hmem
      rw [List.map_append] at h
      refine List.disjoint_of_nodup_append h (List.mem_map_of_mem hf) ?_
      rw [beq_iff_eq.1 hid]
      exact List.mem_cons_self
    rw [List.foldl_cons, insertEdge, hasNode_iff.2 hsource, hasNode_iff.2 htarget, hnew,
      if_pos (by decide), ih]
    · simp
    · exact fun f hf => hends f (List.mem_cons_of_mem e hf)
    · simpa using h

/-- Lists of nodes with distinct ids and of edges with distinct ids between them are the nodes and
edges of their graph. -/
theorem ofLists_eq {nodes : List Node} {edges : List Edge} (hnodes : (nodes.map Node.id).Nodup)
    (hends : ∀ e ∈ edges, e.source ∈ nodes.map Node.id ∧ e.target ∈ nodes.map Node.id)
    (hedges : (edges.map Edge.id).Nodup) : ofLists nodes edges = ⟨nodes, edges⟩ := by
  rw [ofLists, foldl_insertNode (g := empty) (by simpa [ids, empty] using hnodes),
    foldl_insertEdge]
  · simp [empty]
  · simpa [ids, empty] using hends
  · simpa [empty] using hedges

end Graph

end Flowmend
