import Flowmend.Proofs.Repair.Chain

/-!
# What the edges of a chain keep

The line of a `Strand` is read as what its ends tell (`Strand.Tells`), unless a comment mark or the
word of a directive opens it, or cleaning the labels of its ends brings out a connector or an
ampersand (`Strand.Sound`). `Strand.Keeps` says which nodes and edges stand on it for that
(`Strand.Keeps.on`).
-/

namespace Flowmend

open Text Extract

namespace Strand

variable {e : Strand}

/-- Cleaning the labels of the ends brings out no connector, and the ends name one group of nodes
each, the target also if the connector is without a label and takes the one that the target opens
with. -/
structure Sound (e : Strand) : Prop where
  source_free : Connector.Free e.sourceText
  source_undivided : Undivided (trim (Header.skip e.sourceText))
  target_free : Connector.Free e.targetText
  target_undivided : Undivided e.targetText
  rest_undivided : labelText e.label = [] → Undivided (trim (Chain.readTail e.targetText).rest)

instance (e : Strand) : Decidable e.Sound :=
  decidable_of_iff (Connector.Free e.sourceText ∧ Undivided (trim (Header.skip e.sourceText)) ∧
      Connector.Free e.targetText ∧ Undivided e.targetText ∧
      (labelText e.label = [] → Undivided (trim (Chain.readTail e.targetText).rest)))
    ⟨fun ⟨h₁, h₂, h₃, h₄, h₅⟩ => ⟨h₁, h₂, h₃, h₄, h₅⟩,
      fun ⟨h₁, h₂, h₃, h₄, h₅⟩ => ⟨h₁, h₂, h₃, h₄, h₅⟩⟩

/-- What the ends tell, before they are mended: their framed nodes, the last node of the source,
without a header that the source opens with, the first one of the target, and the edge between these
two. -/
inductive Tells (e : Strand) : Item → Prop
  | source {id : Text} (mem : id ∈
      (nodesOfPart ⟨false, true⟩ (references (Header.skip e.source))).map Reference.id) :
    Tells e (.node id)
  | target {id : Text} (mem : id ∈
      (nodesOfPart ⟨true, false⟩ (references e.target)).map Reference.id) : Tells e (.node id)
  | arc {a : Arc} (source : lastId (Header.skip e.source) = some a.source)
    (target : firstId e.target = some a.target) (kind : e.connector.kind = a.kind) :
    Tells e (.arc a)

/-- The node or edge stands on the line of the edge: its ends tell it, the line is neither a comment
nor a directive, and the edge is sound. The line of an edge that is not keeps what is read on it. -/
inductive Keeps (e : Strand) (item : Item) : Prop
  | told (sound : e.Sound) (comment : isComment e.source = false)
    (directive : isDirective e.source = false) (tells : e.Tells item)
  | exposed (sound : ¬e.Sound) (on : item.On e.line)

section Part

variable {s : Text} (hsource : IsPart s e.source) (htarget : IsPart s e.target) (h : e.Sound)

include hsource h in
theorem isSource_sourceText (hcomment : isComment e.source = false)
    (hdirective : isDirective e.source = false) : IsSource e.sourceText := by
  obtain ⟨hcomment', hdirective'⟩ := Reference.line_mendOpening hsource.isLine.trimmed
  exact ⟨hcomment'.trans hcomment, hdirective'.trans hdirective, h.source_free,
    h.source_undivided⟩

include htarget h in
theorem isTarget_targetText : IsTarget e.label e.targetText :=
  ⟨Reference.isLine_mendOpening htarget.isLine, h.target_free, h.target_undivided, h.rest_undivided⟩

include hsource htarget in
/-- What the edge keeps stands on its line. -/
theorem Keeps.on (htoken : Connector.IsToken e.connector.token) {item : Item} (h : e.Keeps item) :
    item.On e.line := by
  cases h with
  | exposed _ on => exact on
  | told sound comment directive tells =>
    have hs := isSource_sourceText hsource sound comment directive
    have ht := isTarget_targetText htarget sound
    have hlabel := isShown_mendLabel e.connector
    have hsource_marks := Reference.marks_skip_mendOpening hsource.isLine.trimmed hsource.free
      sound.source_free
    have htarget_marks := Reference.marks_mendOpening htarget.isLine.trimmed htarget.free
      sound.target_free
    cases tells with
    | source mem =>
      refine on_edgeLine_of_source hs htoken hlabel ht ?_
      rwa [sourceText, map_id_of_map_mark (nodesOfPart_congr hsource_marks _)]
    | target mem =>
      refine on_edgeLine_of_target hs htoken hlabel ht ?_
      rwa [targetText, map_id_of_map_mark (nodesOfPart_congr htarget_marks _)]
    | arc source target kind =>
      refine on_edgeLine_of_ends hs htoken hlabel ht ?_ ?_ kind
      · rwa [sourceText, lastId_congr hsource_marks]
      · rwa [targetText, firstId_congr htarget_marks]

end Part

end Strand

end Flowmend
