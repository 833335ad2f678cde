import Flowmend.Proofs.Repair.EdgeLine
import Flowmend.Proofs.Repair.Node

/-!
# Repair of chains

A chain becomes one edge per line. A `Strand` is such an edge before its nodes are mended: the text
that it leaves, its connector and the text that it arrives at. The first side of the chain keeps the
texts of its parts, and so does each side after a connector; where a side is left again, its parts
are mentioned by their ids. The chain is written as its strands (`value_mend_ofText`), each end of
which is part of the line (`IsPart`).
-/

namespace Flowmend

open Text Extract

namespace Chain

/-! ## Sides -/

/-- The nodes of a side, before they are mended. -/
def sideParts (side : Text) : List Text :=
  match fanOut side with
  | [] => [side]
  | parts => parts

theorem value_mendSide (side : Text) :
    (mendSide side).value = (sideParts side).map fun p => (Reference.mendOpening p).value := rfl

/-- A side without ampersands is one part. -/
theorem sideParts_of_no_ampersand {side : Text} (hside : Trimmed side) (hne : side ≠ [])
    (h : '&' ∉ side) : sideParts side = [side] := by
  rw [sideParts, fanOut_of_sheltered (FanOut.sheltered_of_notMem h) hside hne]

/-- A chain of two sides of one part each is one edge. -/
theorem mend_single {first : Text} {l : Link} (hfirst : sideParts (trim first) = [trim first])
    (hside : sideParts (trim l.side) = [trim l.side]) :
    mend ⟨first, [l]⟩ =
      ⟨[edgeLine (Reference.mendOpening (trim first)).value l.connector.token
          l.connector.mendLabel.value (Reference.mendOpening (trim l.side)).value],
        (Reference.mendOpening (trim first)).repairs ++
          ((Reference.mendOpening (trim l.side)).repairs ++ l.connector.mendLabel.repairs)⟩ := by
  have hmend : ∀ {t : Text}, sideParts t = [t] →
      mendSide t = ⟨[(Reference.mendOpening t).value], (Reference.mendOpening t).repairs⟩ := by
    intro t ht
    show Noted.each Reference.mendOpening (sideParts t) = _
    simp [ht, Noted.each]
  have hlinks : Noted.each (fun l : Link => do
        let side ← mendSide (trim l.side)
        pure (l.connector, side)) [l] =
      ⟨[(l.connector, [(Reference.mendOpening (trim l.side)).value])],
        (Reference.mendOpening (trim l.side)).repairs⟩ := by
    simp [Noted.each, hmend hside]
  have hedges : ∀ s t : Text, edgeLines [s] [(l.connector, [t])] =
      ⟨[edgeLine s l.connector.token l.connector.mendLabel.value t],
        l.connector.mendLabel.repairs⟩ := by
    intro s t
    show (⟨_, l.connector.mendLabel.repairs ++ []⟩ : Noted (List Text)) = _
    rw [List.append_nil]
    rfl
  rw [mend, hmend hfirst, hlinks]
  show (⟨(edgeLines _ _).value, _ ++ (_ ++ (edgeLines _ _).repairs)⟩ : Noted (List Text)) = _
  rw [hedges]

theorem of_mem_sideParts {side p : Text} (hside : IsLine side) (hfree : Connector.Free side)
    (h : p ∈ sideParts side) : IsLine p ∧ Connector.Free p := by
  unfold sideParts at h
  split at h
  · obtain rfl := List.mem_singleton.1 h
    exact ⟨hside, hfree⟩
  · obtain ⟨hne, htrim, hinfix⟩ := of_mem_fanOut h
    exact ⟨hside.within hinfix hne htrim, hfree.within hinfix⟩

end Chain

/-! ## Edges -/

/-- An edge of a chain, with its ends as they stand on the line. -/
structure Strand where
  source : Text
  connector : Connector
  target : Text
  deriving DecidableEq, Repr

namespace Strand

/-- The source as it is written. -/
def sourceText (e : Strand) : Text := (Reference.mendOpening e.source).value

/-- The target as it is written. -/
def targetText (e : Strand) : Text := (Reference.mendOpening e.target).value

/-- The label as it is written. -/
def label (e : Strand) : Option Text := e.connector.mendLabel.value

/-- The edge as it is written. -/
def line (e : Strand) : Text := edgeLine e.sourceText e.connector.token e.label e.targetText

end Strand

namespace Chain

/-- The edges from the sources to the parts of the next side, and so on from there. -/
def strandsFrom (sources : List Text) : List Link → List Strand
  | [] => []
  | l :: ls =>
    (sources.flatMap fun s => (sideParts (trim l.side)).map fun t => ⟨s, l.connector, t⟩) ++
      strandsFrom ((sideParts (trim l.side)).map mention) ls

/-- The edges of the chain. -/
def strands (c : Chain) : List Strand := strandsFrom (sideParts (trim c.first)) c.links

/-- An edge leaves a source or a node that is mentioned again, and arrives at a part of a side. -/
theorem of_mem_strandsFrom {sources : List Text} {ls : List Link} {e : Strand}
    (h : e ∈ strandsFrom sources ls) :
    (e.source ∈ sources ∨ ∃ l ∈ ls, ∃ p ∈ sideParts (trim l.side), e.source = mention p) ∧
      ∃ l ∈ ls, e.connector = l.connector ∧ e.target ∈ sideParts (trim l.side) := by
  induction ls generalizing sources with
  | nil => cases h
  | cons l ls ih =>
    rcases List.mem_append.1 h with h | h
    · obtain ⟨s, hs, h⟩ := List.mem_flatMap.1 h
      obtain ⟨t, ht, rfl⟩ := List.mem_map.1 h
      exact ⟨.inl hs, l, List.mem_cons_self, rfl, ht⟩
    · obtain ⟨hsource, m, hm, htarget⟩ := ih h
      refine ⟨.inr ?_, m, List.mem_cons_of_mem l hm, htarget⟩
      rcases hsource with hsource | ⟨m, hm, hsource⟩
      · obtain ⟨p, hp, heq⟩ := List.mem_map.1 hsource
        exact ⟨l, List.mem_cons_self, p, hp, heq.symm⟩
      · exact ⟨m, List.mem_cons_of_mem l hm, hsource⟩

theorem mention_framedText {id : Text} (hid : IsId id) (s : Shape) (t : Text) :
    mention (framedText id s ++ t) = id := by
  have hhead : ∀ c ∈ (s.opener ++ t).head?, isIdChar c = false := by
    intro c hc
    rw [List.head?_append] at hc
    rcases s.head?_opener with h | h | h <;> rw [h] at hc <;> cases hc <;> decide
  have hleading : leadingId (framedText id s ++ t) = id := by
    rw [framedText, List.append_assoc, leadingId_append hid.isIdChar hhead]
  rw [mention, hleading, if_neg (by simpa using hid.ne_nil)]

/-- A node is mentioned again by the same text, whether it was mended before or not. -/
theorem mention_mendOpening {t : Text} (ht : Trimmed t) :
    mention (Reference.mendOpening t).value = (Reference.mendOpening (mention t)).value := by
  have hmention : mention (Reference.mendOpening t).value = mention t := by
    rcases Reference.mendOpening_cases ht with hframe | ⟨n, f, rest, -, hread, hvalue⟩
    · rw [Reference.mendOpening_of_not_opensWithFrame hframe]
    · have hid := Reference.isId_of_read? hread
      rw [hvalue, mention_framedText hid, mention, ← Reference.id_of_read? hread,
        if_neg (by simpa using hid.ne_nil)]
  rw [hmention]
  by_cases hid : leadingId t = []
  · have hread : Reference.read? t = none := if_pos (by simp [hid])
    have hframe : opensWithFrame t = false := by
      rw [opensWithFrame, Reference.opening?_eq_read? ht.1, hread]
      rfl
    rw [mention, if_pos (by simp [hid]), Reference.mendOpening_of_not_opensWithFrame hframe]
  · rw [mention, if_neg (by simpa using hid),
      Reference.mendOpening_of_not_opensWithFrame (opensWithFrame_of_isId (isId_leadingId hid))]

/-- The groups after the connectors, mended. -/
def mendedLinks (ls : List Link) : List (Connector × List Text) :=
  ls.map fun l => (l.connector, (mendSide (trim l.side)).value)

theorem value_edgeLines {ls : List Link} (hls : ∀ l ∈ ls, ∀ p ∈ sideParts (trim l.side), Trimmed p)
    (sources : List Text) :
    (edgeLines (sources.map fun p => (Reference.mendOpening p).value) (mendedLinks ls)).value =
      (strandsFrom sources ls).map Strand.line := by
  induction ls generalizing sources with
  | nil => rfl
  | cons l ls ih =>
    have hmention : ((mendSide (trim l.side)).value.map mention) =
        ((sideParts (trim l.side)).map mention).map fun p => (Reference.mendOpening p).value := by
      rw [value_mendSide, List.map_map, List.map_map]
      exact List.map_congr_left fun p hp => mention_mendOpening (hls l List.mem_cons_self p hp)
    have hrest := ih (fun m hm => hls m (List.mem_cons_of_mem l hm))
      ((sideParts (trim l.side)).map mention)
    rw [← hmention] at hrest
    rw [strandsFrom, List.map_append, ← hrest, List.map_flatMap]
    refine congrArg (· ++ _) ?_
    rw [List.flatMap_map]
    refine List.flatMap_congr fun s _ => ?_
    rw [List.map_map, value_mendSide, List.map_map]
    rfl

end Chain

/-! ## The ends of edges -/

/-- Part of the line that is a line without connectors. -/
structure IsPart (s t : Text) : Prop where
  isLine : IsLine t
  free : Connector.Free t
  within : t <:+: s

section Part

variable {s : Text}

theorem IsPart.of_mem_sideParts {side t : Text} (hside : IsPart s side)
    (h : t ∈ Chain.sideParts side) : IsPart s t := by
  obtain ⟨hline, hfree⟩ := Chain.of_mem_sideParts hside.isLine hside.free h
  refine ⟨hline, hfree, ?_⟩
  unfold Chain.sideParts at h
  split at h
  · rw [List.mem_singleton.1 h]
    exact hside.within
  · exact (of_mem_fanOut h).2.2.trans hside.within

theorem IsPart.mention {t : Text} (h : IsPart s t) : IsPart s (Chain.mention t) := by
  unfold Chain.mention
  split
  · exact h
  · rename_i hne
    have hid : IsId (leadingId t) := isId_leadingId (by simpa using hne)
    exact ⟨isLine_of_isId hid, free_of_isId hid,
      (List.takeWhile_prefix _).isInfix.trans h.within⟩

variable (hs : ∀ c ∈ s, isBreak c = false) (hsides : [] ∉ (Chain.ofText s).sides)

include hs hsides

theorem isPart_of_mem_sides {side : Text} (hmem : side ∈ (Chain.ofText s).sides) :
    IsPart s side := by
  obtain ⟨t, ht, hfree, rfl⟩ : ∃ t, t <:+: s ∧ Connector.Free t ∧ side = trim t := by
    rcases List.mem_cons.1 hmem with hside | hside
    · exact ⟨_, Chain.infix_first s, Chain.free_first_ofText s, hside⟩
    · obtain ⟨l, hl, rfl⟩ := List.mem_map.1 hside
      exact ⟨_, Chain.infix_side hl, (Chain.of_mem_links_ofText hl).2, rfl⟩
  have hwithin := (infix_trim t).trans ht
  exact ⟨isLine_of_stretch hs hwithin (fun hnil => hsides (hnil ▸ hmem)) (trimmed_trim t),
    hfree.within (infix_trim t), hwithin⟩

theorem isPart_of_mem_link {l : Link} (hl : l ∈ (Chain.ofText s).links) :
    ∀ p ∈ Chain.sideParts (trim l.side), IsPart s p := fun _ hp =>
  (isPart_of_mem_sides hs hsides (List.mem_cons_of_mem _ (List.mem_map_of_mem hl))).of_mem_sideParts
    hp

/-- The ends of an edge are parts of the line. -/
theorem isPart_of_mem_strands {e : Strand} (he : e ∈ (Chain.ofText s).strands) :
    IsPart s e.source ∧ IsPart s e.target ∧ Connector.IsToken e.connector.token := by
  obtain ⟨hsource, l, hl, hconnector, htarget⟩ := Chain.of_mem_strandsFrom he
  refine ⟨?_, isPart_of_mem_link hs hsides hl _ htarget,
    hconnector ▸ (Chain.of_mem_links_ofText hl).1⟩
  rcases hsource with hsource | ⟨m, hm, p, hp, hsource⟩
  · exact (isPart_of_mem_sides hs hsides List.mem_cons_self).of_mem_sideParts hsource
  · rw [hsource]
    exact (isPart_of_mem_link hs hsides hm p hp).mention

/-- A chain with nodes on all sides is written as its edges. -/
theorem value_mend_ofText :
    (Chain.ofText s).mend.value = (Chain.ofText s).strands.map Strand.line :=
  Chain.value_edgeLines (fun _ hl p hp => (isPart_of_mem_link hs hsides hl p hp).isLine.trimmed) _

/-- An edge is written as a line. -/
theorem isLine_of_mem_strands {e : Strand} (he : e ∈ (Chain.ofText s).strands) : IsLine e.line := by
  obtain ⟨hsource, htarget, htoken⟩ := isPart_of_mem_strands hs hsides he
  exact isLine_edgeLine (Reference.isLine_mendOpening hsource.isLine) htoken
    (isShown_mendLabel e.connector) (Reference.isLine_mendOpening htarget.isLine)

end Part

end Flowmend
