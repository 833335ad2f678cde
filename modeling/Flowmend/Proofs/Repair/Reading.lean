import Flowmend.Graph.Extract
import Flowmend.Proofs.Text.Runs
import Flowmend.Repair.Document

/-!
# What is read of a source

A source is read by its statements: its trimmed lines that are not blank. Sources with the same
statements are mended alike and have the same graph (`mend_extract_of_statements_eq`), whatever
their breaks, their blank lines and the blanks around their lines. The numbers of the lines go into
the events and nowhere else, and the ids of a source, which are no placeholders, are those of its
statements (`Text.ids_eq_flatMap_statements`).
-/

namespace Flowmend

open Text

/-! ## Alike but for line numbers -/

/-- Openings that differ in line numbers only. -/
structure Opening.Alike (o o' : Opening) : Prop where
  kind : o.kind = o'.kind
  header : o.header = o'.header
  reason : o.reason.map Event.repair = o'.reason.map Event.repair
  body : o.body.map Prod.snd = o'.body.map Prod.snd

/-- Menders that differ in the line numbers of their logs only. -/
structure Mender.Alike (m m' : Mender) : Prop where
  usualHeader : m.usualHeader = m'.usualHeader
  supply : m.supply = m'.supply
  log : m.log.map Event.repair = m'.log.map Event.repair

/-- Mended documents that differ in the line numbers of their repairs only. -/
structure Mended.Alike (d d' : Mended) : Prop where
  kind : d.kind = d'.kind
  lines : d.lines = d'.lines
  repairs : d.repairs.map Event.repair = d'.repairs.map Event.repair
  headerAdded : d.headerAdded = d'.headerAdded

namespace Mended.Alike

variable {d d' : Mended} (h : d.Alike d')

include h

theorem valid_eq : d.valid = d'.valid := by
  have hlength := congrArg List.isEmpty h.repairs
  rwa [List.isEmpty_map, List.isEmpty_map] at hlength

theorem map_kind_eq : d.repairs.map Event.kind = d'.repairs.map Event.kind := by
  have hkinds := congrArg (List.map Repair.kind) h.repairs
  rwa [List.map_map, List.map_map] at hkinds

end Mended.Alike

/-! ## Steps -/

/-- The header is found in the texts of the lines. -/
theorem Opening.alike_ofLines (usualHeader : Text) {ls ls' : List (Nat × Text)}
    (h : ls.map Prod.snd = ls'.map Prod.snd) :
    (ofLines usualHeader ls).Alike (ofLines usualHeader ls') := by
  cases ls with
  | nil =>
    rw [List.map_nil, eq_comm, List.map_eq_nil_iff] at h
    rw [h]
    exact ⟨rfl, rfl, rfl, rfl⟩
  | cons p rest =>
    obtain ⟨n, _⟩ := p
    obtain ⟨⟨n', first⟩, rest', rfl, rfl, hrest⟩ := List.map_eq_cons_iff.1 h.symm
    simp only [ofLines]
    generalize (if Header.isLoneKeyword first then [] else Header.skip first) = statements
    split
    · exact ⟨rfl, rfl, rfl, hrest.symm⟩
    · split
      · split
        · exact ⟨rfl, rfl, rfl, hrest.symm⟩
        · exact ⟨rfl, rfl, rfl, congrArg (_ :: ·) hrest.symm⟩
      · exact ⟨rfl, rfl, rfl, congrArg (_ :: ·) hrest.symm⟩

namespace Mender.Alike

variable {m m' : Mender} (h : m.Alike m')

include h

theorem record {es es' : List Event} (hes : es.map Event.repair = es'.map Event.repair) :
    (m.record es).Alike (m'.record es') where
  usualHeader := h.usualHeader
  supply := h.supply
  log := by
    simp only [Mender.record, List.map_append, h.log, hes]

theorem reserve (ids : List Text) :
    Mender.Alike { m with supply := m.supply.reserve ids }
      { m' with supply := m'.supply.reserve ids } where
  usualHeader := h.usualHeader
  supply := congrArg (Placeholders.reserve · ids) h.supply
  log := h.log

/-- A statement gives way to the same lines, whatever its number. -/
theorem mendLine (n n' : Int) (line : Text) :
    (m.mendLine n line).1 = (m'.mendLine n' line).1 ∧
      (m.mendLine n line).2.Alike (m'.mendLine n' line).2 := by
  unfold Mender.mendLine
  rw [← h.supply]
  refine ⟨rfl, h.usualHeader, rfl, ?_⟩
  simp only [Noted.events, List.map_append, List.map_map, h.log]
  rfl

/-- So do the lines after the header. -/
theorem mendBody (kind : DiagramKind) {body body' : List (Nat × Text)}
    (hbody : body.map Prod.snd = body'.map Prod.snd) :
    (m.mendBody kind body).1 = (m'.mendBody kind body').1 ∧
      (m.mendBody kind body).2.Alike (m'.mendBody kind body').2 := by
  induction body generalizing m m' body' with
  | nil =>
    obtain rfl := List.map_eq_nil_iff.1 hbody.symm
    exact ⟨rfl, h⟩
  | cons p body ih =>
    obtain ⟨n, _⟩ := p
    obtain ⟨⟨n', line⟩, body', rfl, rfl, hrest⟩ := List.map_eq_cons_iff.1 hbody.symm
    obtain ⟨hlines, hstep⟩ := h.mendLine n n' line
    simp only [Mender.mendBody]
    split
    · obtain ⟨hmore, hlast⟩ := ih h hrest.symm
      exact ⟨congrArg ([line] ++ ·) hmore, hlast⟩
    · obtain ⟨hmore, hlast⟩ := ih hstep hrest.symm
      exact ⟨by rw [hlines, hmore], hlast⟩

/-- Sources with the same statements are mended alike. -/
theorem mend {a b : Text} (hstatements : statements a = statements b) :
    (m.mend a).1.Alike (m'.mend b).1 ∧ (m.mend a).2.Alike (m'.mend b).2 := by
  have hsplit (p : Text → Bool) :
      ((numberedLines a).takeWhile (p ·.2)).map Prod.snd =
          ((numberedLines b).takeWhile (p ·.2)).map Prod.snd ∧
        ((numberedLines a).dropWhile (p ·.2)).map Prod.snd =
          ((numberedLines b).dropWhile (p ·.2)).map Prod.snd := by
    have htake := congrArg (List.takeWhile p) hstatements
    have hdrop := congrArg (List.dropWhile p) hstatements
    simp only [statements, List.takeWhile_map, List.dropWhile_map] at htake hdrop
    exact ⟨htake, hdrop⟩
  have hids : ids a = ids b := by
    rw [ids_eq_flatMap_statements, hstatements, ← ids_eq_flatMap_statements]
  obtain ⟨hcomments, hlines⟩ := hsplit isComment
  have hopening := Opening.alike_ofLines m.usualHeader hlines
  nth_rewrite 2 [h.usualHeader] at hopening
  simp only [Mender.mend, hcomments, ← hids]
  generalize Opening.ofLines m.usualHeader _ = o at hopening ⊢
  generalize Opening.ofLines m'.usualHeader _ = o' at hopening ⊢
  obtain ⟨hkind, hheader, hreason, hbody⟩ := hopening
  have hreasons : o.reason.toList.map Event.repair = o'.reason.toList.map Event.repair := by
    rw [← Option.toList_map, ← Option.toList_map, hreason]
  have hadded : o.reason.isSome = o'.reason.isSome := by
    simpa using congrArg Option.isSome hreason
  obtain ⟨hmended, hlast⟩ := ((h.reserve (ids a)).record hreasons).mendBody o.kind hbody
  simp only [← hkind, ← hheader, ← hmended]
  generalize balance _ = balanced
  have hend := hlast.record (Eq.refl ((balanced.events 0).map Event.repair))
  exact ⟨⟨rfl, rfl, hend.log, hadded⟩, hend⟩

end Mender.Alike

/-! ## Two sources -/

/-- What a text declares is declared by its statements. -/
theorem Extract.draft_eq_of_statements_eq {a b : Text} (h : statements a = statements b)
    (limit : Option Int) : draft limit a = draft limit b :=
  congrArg (List.foldl (Draft.addLine limit) ⟨[], []⟩) h

/-- Sources with the same statements are mended to the same lines, by repairs of the same kinds in
the same order, and have the same graph. -/
theorem mend_extract_of_statements_eq {a b : Text} (h : statements a = statements b)
    (usualHeader stem : Text) (limit : Option Int) :
    (mend usualHeader stem a).kind = (mend usualHeader stem b).kind ∧
      (mend usualHeader stem a).lines = (mend usualHeader stem b).lines ∧
      (mend usualHeader stem a).valid = (mend usualHeader stem b).valid ∧
      (mend usualHeader stem a).headerAdded = (mend usualHeader stem b).headerAdded ∧
      (mend usualHeader stem a).repairs.map Event.kind =
        (mend usualHeader stem b).repairs.map Event.kind ∧
      Graph.extract limit a = Graph.extract limit b := by
  have hnew : (Mender.ofSettings usualHeader stem).Alike (Mender.ofSettings usualHeader stem) :=
    ⟨rfl, rfl, rfl⟩
  have halike := (hnew.mend h).1
  have hgraph : Graph.extract limit a = Graph.extract limit b := by
    simp only [Graph.extract, Extract.draft_eq_of_statements_eq h]
  exact ⟨halike.kind, halike.lines, halike.valid_eq, halike.headerAdded, halike.map_kind_eq,
    hgraph⟩

/-- Other breaks, blank lines and blanks around the lines change the numbers in the events only. In
both sources a placeholder stands in for the missing end, which is none of the ids in use. -/
theorem mend_extract_of_indented :
    let a := "graph TD\nA[x --> B\n--> C".toList
    let b := "\r\n  graph TD\r\r\n\tA[x --> B \x0c\u2028 --> C\n\n".toList
    let header := "graph LR".toList
    let stem := "A".toList
    statements a = statements b ∧
      (mend header stem a).lines = (mend header stem b).lines ∧
      (mend header stem a).repairs.map Event.kind = (mend header stem b).repairs.map Event.kind ∧
      (mend header stem a).repairs ≠ (mend header stem b).repairs ∧
      Graph.extract (some 30) a = Graph.extract (some 30) b := by
  intro a b header stem
  have hstatements : statements a = statements b := by decide +kernel
  have halike := mend_extract_of_statements_eq hstatements header stem (some 30)
  have hnumbers : (mend header stem a).repairs ≠ (mend header stem b).repairs := by decide +kernel
  exact ⟨hstatements, halike.2.1, halike.2.2.2.2.1, hnumbers, halike.2.2.2.2.2⟩

end Flowmend
