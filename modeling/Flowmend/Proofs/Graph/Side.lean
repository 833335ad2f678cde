import Flowmend.Proofs.Graph.Extract
import Flowmend.Proofs.Statement.Token

/-!
# Sides that no ampersand parts

What a side declares depends on its `marks` only: the ids of its references, and which of them are
bare. On an `Undivided` side these are the marks of the whole side, also untrimmed
(`Undivided.partReferences`).
-/

namespace Flowmend

open Text Extract

/-! ## Blanks and ampersands around a text -/

theorem inert_ampersand : Inert '&' := by
  refine ⟨?_, ?_, ?_, ?_⟩ <;> decide

/-- Inert characters around a text change no marks. -/
theorem marks_surround {a t b : Text} (ha : ∀ c ∈ a, Inert c) (ht : Connector.Free t)
    (hb : ∀ c ∈ b, Inert c) : marks (a ++ t ++ b) = marks t := by
  rw [List.append_assoc, marks, references_inert_append ha]
  exact marks_append_inert ht hb

theorem marks_trim {t : Text} (h : Connector.Free t) : marks (trim t) = marks t := by
  have hfree := h.within (infix_trim t)
  obtain ⟨a, b, ht, ha, hb⟩ := exists_trim t
  conv => rhs; rw [ht]
  exact (marks_surround (fun c hc => inert_of_isBlank (ha c hc)) hfree
    fun c hc => inert_of_isBlank (hb c hc)).symm

/-! ## Undivided sides -/

/-- No ampersand stands between nodes of the side: it has one part at most. -/
def Undivided (side : Text) : Prop := (fanOut side).length ≤ 1

instance (side : Text) : Decidable (Undivided side) :=
  inferInstanceAs (Decidable (_ ≤ _))

theorem inert_of_trim_eq_nil {p : Text} (h : trim p = []) : ∀ c ∈ p, Inert c := by
  obtain ⟨a, b, hp, ha, hb⟩ := exists_trim p
  rw [h, List.append_nil] at hp
  intro c hc
  rw [hp] at hc
  rcases List.mem_append.1 hc with hc | hc
  · exact inert_of_isBlank (ha c hc)
  · exact inert_of_isBlank (hb c hc)

/-- Blank parts hold nothing but inert characters, and so do the ampersands before them. -/
theorem inert_of_blank_parts {ps : List Text} (h : ∀ p ∈ ps, trim p = []) :
    ∀ c ∈ ps.flatMap ('&' :: ·), Inert c := by
  intro c hc
  obtain ⟨p, hp, hc⟩ := List.mem_flatMap.1 hc
  rcases List.mem_cons.1 hc with rfl | hc
  · exact inert_ampersand
  · exact inert_of_trim_eq_nil (h p hp) c hc

/-- The parts of a side that are not blank, one or none, stand between inert characters. -/
theorem exists_surround_of_parts {p : Text} {ps : List Text}
    (h : (((p :: ps).map trim).filter fun p => !p.isEmpty).length ≤ 1) :
    ∃ a q b, p ++ ps.flatMap ('&' :: ·) = a ++ q ++ b ∧
      (((p :: ps).map trim).filter fun p => !p.isEmpty) = [q].filter (fun p => !p.isEmpty) ∧
      (∀ c ∈ a, Inert c) ∧ ∀ c ∈ b, Inert c := by
  induction ps generalizing p with
  | nil =>
    obtain ⟨a, b, hp, ha, hb⟩ := exists_trim p
    refine ⟨a, trim p, b, by simpa using hp, rfl, fun c hc => inert_of_isBlank (ha c hc),
      fun c hc => inert_of_isBlank (hb c hc)⟩
  | cons p' ps ih =>
    rw [List.map_cons] at h ⊢
    by_cases hblank : trim p = []
    · -- The part is blank, so what counts stands behind the ampersand.
      rw [hblank, List.filter_cons_of_neg (by decide)] at h
      obtain ⟨a, q, b, htext, hparts, ha, hb⟩ := ih h
      refine ⟨p ++ '&' :: a, q, b, by simpa using htext, ?_, fun c hc => ?_, hb⟩
      · rw [hblank, List.filter_cons_of_neg (by decide), hparts]
      · rcases List.mem_append.1 hc with hc | hc
        · exact inert_of_trim_eq_nil hblank c hc
        · rcases List.mem_cons.1 hc with rfl | hc
          · exact inert_ampersand
          · exact ha c hc
    · -- All other parts are blank.
      rw [List.filter_cons_of_pos (by simpa using hblank), List.length_cons] at h
      have hnil : (((p' :: ps).map trim).filter fun p => !p.isEmpty) = [] :=
        List.length_eq_zero_iff.1 (by omega)
      have hrest : ∀ q ∈ p' :: ps, trim q = [] := by
        intro q hq
        have := List.filter_eq_nil_iff.1 hnil (trim q) (List.mem_map_of_mem hq)
        simpa using this
      obtain ⟨a, b, hp, ha, hb⟩ := exists_trim p
      refine ⟨a, trim p, b ++ (p' :: ps).flatMap ('&' :: ·), ?_, ?_,
        fun c hc => inert_of_isBlank (ha c hc), fun c hc => ?_⟩
      · rw [← List.append_assoc, ← hp]
      · rw [List.filter_cons_of_pos (by simpa using hblank), hnil,
          List.filter_cons_of_pos (by simpa using hblank), List.filter_nil]
      · rcases List.mem_append.1 hc with hc | hc
        · exact inert_of_isBlank (hb c hc)
        · exact inert_of_blank_parts hrest c hc

/-- The references of an undivided side are those of its only part. -/
theorem Undivided.partReferences {side : Text} (h : Undivided side) (hf : Connector.Free side) :
    (∃ ns, Extract.partReferences side = [ns] ∧ ns.map Reference.mark = marks side) ∨
      (Extract.partReferences side = [] ∧ marks side = []) := by
  obtain ⟨a, q, b, htext, hparts, ha, hb⟩ := exists_surround_of_parts h
  have hside : side = a ++ q ++ b := (FanOut.cut_append 0 side).symm.trans htext
  have hq : Connector.Free q := hf.within ⟨a, b, hside.symm⟩
  have hmarks : marks side = marks q := by
    rw [hside]
    exact marks_surround ha hq hb
  have hfan : fanOut side = [q].filter fun p => !p.isEmpty := hparts
  rw [hmarks, Extract.partReferences, hfan]
  by_cases hne : q = []
  · subst hne
    refine .inr ⟨rfl, ?_⟩
    rw [marks, references_nil]
    rfl
  · refine .inl ⟨references q, ?_, rfl⟩
    rw [List.filter_cons_of_pos (by simpa using hne)]
    rfl

/-! ## What an undivided side declares -/

theorem ids_framedNodes (t : Text) :
    (framedNodes t).map Reference.id = ((marks t).filter fun m => !m.2).map Prod.fst := by
  rw [framedNodes, marks, List.filter_map, List.map_map]
  rfl

/-- Which references of a part are nodes depends on which ones are bare. -/
theorem map_nodesOfPart_congr {α : Type} {f : Reference → α}
    (hf : ∀ n m, f n = f m → n.bare = m.bare) {ns ms : List Reference} (h : ns.map f = ms.map f)
    (role : Role) : (nodesOfPart role ns).map f = (nodesOfPart role ms).map f := by
  induction ns generalizing ms role with
  | nil => rw [List.map_eq_nil_iff.1 h.symm]
  | cons n ns ih =>
    obtain ⟨m, ms, rfl, hm, hms⟩ := List.map_eq_cons_iff.1 h.symm
    have ih := ih hms.symm { role with arrives := false }
    have hempty : ns.isEmpty = ms.isEmpty := by
      have := congrArg List.length hms
      rw [List.length_map, List.length_map] at this
      cases ns <;> cases ms <;> simp_all
    unfold nodesOfPart
    rw [hf n m hm.symm, hempty]
    split
    · rw [List.map_cons, List.map_cons, hm, ih]
    · exact ih

/-- Which references are nodes depends on the marks only. -/
theorem nodesOfPart_congr {ns ms : List Reference}
    (h : ns.map Reference.mark = ms.map Reference.mark) (role : Role) :
    (nodesOfPart role ns).map Reference.mark = (nodesOfPart role ms).map Reference.mark :=
  map_nodesOfPart_congr (fun _ _ h => congrArg Prod.snd h) h role

section Undivided

variable {side : Text}

theorem map_id_of_map_mark {ns ms : List Reference}
    (h : ns.map Reference.mark = ms.map Reference.mark) :
    ns.map Reference.id = ms.map Reference.id := by
  have := congrArg (List.map Prod.fst) h
  simpa [List.map_map, Function.comp_def, Reference.mark] using this

/-- The id that an edge arrives at. -/
def firstId (t : Text) : Option Text := ((references t).map Reference.id).head?

/-- The id that an edge leaves from. -/
def lastId (t : Text) : Option Text := ((references t).map Reference.id).getLast?

theorem firstId_congr {t u : Text} (h : marks t = marks u) : firstId t = firstId u := by
  rw [firstId, firstId, map_id_of_map_mark h]

theorem lastId_congr {t u : Text} (h : marks t = marks u) : lastId t = lastId u := by
  rw [lastId, lastId, map_id_of_map_mark h]

theorem Undivided.targets (h : Undivided side) (hf : Connector.Free side) :
    (endsOf side).targets = (firstId side).toList := by
  rcases h.partReferences hf with ⟨ns, hns, hmarks⟩ | ⟨hnil, hmarks⟩
  · rw [firstId, ← map_id_of_map_mark hmarks, endsOf, hns, List.head?_map]
    simp only [List.filterMap_cons]
    cases ns.head? <;> rfl
  · rw [endsOf, hnil, firstId, List.map_eq_nil_iff.1 hmarks]
    rfl

theorem Undivided.sources (h : Undivided side) (hf : Connector.Free side) :
    (endsOf side).sources = (lastId side).toList := by
  rcases h.partReferences hf with ⟨ns, hns, hmarks⟩ | ⟨hnil, hmarks⟩
  · rw [lastId, ← map_id_of_map_mark hmarks, endsOf, hns, List.getLast?_map]
    simp only [List.filterMap_cons]
    cases ns.getLast? <;> rfl
  · rw [endsOf, hnil, lastId, List.map_eq_nil_iff.1 hmarks]
    rfl

theorem Undivided.ids_sideNodes (h : Undivided side) (hf : Connector.Free side) (role : Role) :
    (sideNodes role side).map Reference.id =
      (nodesOfPart role (references side)).map Reference.id := by
  rcases h.partReferences hf with ⟨ns, hns, hmarks⟩ | ⟨hnil, hmarks⟩
  · rw [sideNodes, hns, List.flatMap_singleton]
    exact map_id_of_map_mark (nodesOfPart_congr hmarks role)
  · rw [sideNodes, hnil, List.map_eq_nil_iff.1 hmarks]
    rfl

end Undivided

/-- A node of a part is framed, or its first reference where edges arrive, or its last one where
edges leave. -/
theorem of_mem_nodesOfPart {role : Role} {ns : List Reference} {n : Reference}
    (h : n ∈ nodesOfPart role ns) :
    n ∈ ns ∧ (n.bare = false ∨ (role.arrives = true ∧ ns.head? = some n) ∨
      (role.leaves = true ∧ ns.getLast? = some n)) := by
  induction ns generalizing role with
  | nil => cases h
  | cons m ns ih =>
    have hrest : n ∈ nodesOfPart { role with arrives := false } ns →
        n ∈ m :: ns ∧ (n.bare = false ∨ (role.arrives = true ∧ (m :: ns).head? = some n) ∨
          (role.leaves = true ∧ (m :: ns).getLast? = some n)) := by
      intro h
      obtain ⟨hmem, h⟩ := ih h
      refine ⟨List.mem_cons_of_mem m hmem, ?_⟩
      rcases h with h | ⟨h, -⟩ | ⟨hleaves, h⟩
      · exact .inl h
      · cases h
      · refine .inr (.inr ⟨hleaves, ?_⟩)
        rw [List.getLast?_cons_of_ne_nil (List.ne_nil_of_mem hmem), h]
    unfold nodesOfPart at h
    split at h
    · rename_i hm
      rcases List.mem_cons.1 h with rfl | h
      · refine ⟨List.mem_cons_self, ?_⟩
        simp only [Bool.or_eq_true, Bool.and_eq_true, Bool.not_eq_true', List.isEmpty_iff] at hm
        rcases hm with (hm | hm) | ⟨hm, rfl⟩
        · exact .inl hm
        · exact .inr (.inl ⟨hm, rfl⟩)
        · exact .inr (.inr ⟨hm, rfl⟩)
      · exact hrest h
    · exact hrest h

end Flowmend
