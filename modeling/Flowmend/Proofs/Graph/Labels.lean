import Flowmend.Proofs.Graph.Runs
import Flowmend.Proofs.Label.Cut

/-!
# Labels of graphs

The label of a node that is read from a text is a cleaned one, or the id of the node where nothing
is left of it. So it consists of printable ASCII characters (`Graph.isPlain_of_mem_label`), and it
is neither empty nor longer than the limit, if that is positive (`Graph.label_of_mem`).
-/

namespace Flowmend

open Text

/-! ## Labels -/

namespace Extract

variable {limit : Option Int} {id raw : Text}

theorem isPlain_of_mem_labelOf (hid : IsId id) {c : Char} (h : c ∈ labelOf limit id raw) :
    Label.isPlain c = true := by
  unfold labelOf at h
  simp only [] at h
  split at h
  · have hc : c ∈ id := by
      cases limit with
      | none => exact h
      | some n => exact mem_of_mem_takeUpTo h
    exact Label.isPlain_of_isIdChar (hid.isIdChar c hc)
  · exact (Label.isPlain_of_mem_plain (Label.mem_of_mem_truncate h)).1

section Limit

variable (hlimit : ∀ k ∈ limit, 1 ≤ k)

include hlimit

theorem labelOf_ne_nil (hid : id ≠ []) : labelOf limit id raw ≠ [] := by
  unfold labelOf
  simp only []
  split
  · cases limit with
    | none => exact hid
    | some k => exact takeUpTo_ne_nil (hlimit k rfl) hid
  · rename_i hlabel
    simpa using hlabel

theorem length_labelOf_le {k : Int} (hk : k ∈ limit) : (labelOf limit id raw).length ≤ k := by
  obtain rfl : limit = some k := hk
  have hk : 0 ≤ k := by
    have := hlimit k rfl
    omega
  unfold labelOf
  simp only []
  split
  · exact length_takeUpTo_le hk id
  · exact Label.length_truncate_le hk _

end Limit

theorem Draft.of_mem_nodes_addAll {limit : Option Int} {d : Draft} {ns : List Reference} {n : Node}
    (h : n ∈ (d.addAll limit ns).nodes) : n ∈ d.nodes ∨ n ∈ ns.map (nodeOf limit) := by
  induction ns generalizing d with
  | nil => exact .inl h
  | cons m ns ih =>
    rcases ih h with h | h
    · unfold addReference declare at h
      split at h
      · exact .inl h
      · exact (List.mem_append.1 h).imp_right fun h =>
          List.mem_cons.2 (.inl (List.mem_singleton.1 h))
    · exact .inr (List.mem_cons_of_mem _ h)

end Extract

open Extract

namespace Graph

variable {limit : Option Int} {source : Text} {n : Node}

/-- A node of the graph is declared by a reference of a line. -/
theorem exists_mention (h : n ∈ (extract limit source).nodes) :
    ∃ l ∈ source.statements, ∃ m ∈ mentions l, n = Draft.nodeOf limit m := by
  rw [extract_eq] at h
  rcases Draft.of_mem_nodes_addAll h with h | h
  · cases h
  · obtain ⟨m, hm, rfl⟩ := List.mem_map.1 h
    obtain ⟨l, hl, hm⟩ := List.mem_flatMap.1 hm
    exact ⟨l, hl, m, hm, rfl⟩

/-- The labels of the nodes that a text declares are printable. -/
theorem isPlain_of_mem_label (h : n ∈ (extract limit source).nodes) {c : Char} (hc : c ∈ n.label) :
    Label.isPlain c = true := by
  obtain ⟨l, -, m, hm, rfl⟩ := exists_mention h
  exact isPlain_of_mem_labelOf (isRun_of_mem_mentions hm).isId hc

/-- The labels of the nodes that a text declares are not empty, and keep to the limit. -/
theorem label_of_mem (hlimit : ∀ k ∈ limit, 1 ≤ k) (h : n ∈ (extract limit source).nodes) :
    n.label ≠ [] ∧ ∀ k ∈ limit, n.label.length ≤ k := by
  obtain ⟨l, -, m, hm, rfl⟩ := exists_mention h
  exact ⟨labelOf_ne_nil hlimit (isRun_of_mem_mentions hm).isId.ne_nil,
    fun k hk => length_labelOf_le hlimit hk⟩

/-- The ids of the nodes that a text declares are runs of id characters of its lines. -/
theorem exists_isRun (h : n ∈ (extract limit source).nodes) : ∃ l ∈ source.lines, IsRun n.id l := by
  obtain ⟨l, hl, m, hm, rfl⟩ := exists_mention h
  rw [statements_eq] at hl
  obtain ⟨line, hline, hl⟩ := List.mem_filterMap.1 hl
  unfold statement? at hl
  split at hl
  · cases hl
  · cases hl
    exact ⟨line, hline, (isRun_of_mem_mentions hm).of_trim⟩

end Graph

end Flowmend
