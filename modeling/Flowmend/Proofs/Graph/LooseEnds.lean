import Flowmend.Proofs.Graph.Looks
import Flowmend.Proofs.Header
import Flowmend.Proofs.Statement.FanOut

/-!
# Loose ends of lines

Loose characters at the end of a line change nothing of what the line declares (`mentions_append`):
what they add belongs to the last part of the last side, where it opens no lexeme, and where it runs
on in a label it does not show.
-/

namespace Flowmend

open Text Extract

/-! ## Texts that go on with loose characters -/

/-- The characters at the start of a text that satisfy `p` end before what follows, or they are the
whole text. -/
theorem dropWhile_append_cases (p : Char → Bool) (t w : Text) :
    t.dropWhile p = [] ∧ (t ++ w).dropWhile p = w.dropWhile p ∨
      (t ++ w).dropWhile p = t.dropWhile p ++ w ∧ (t ++ w).takeWhile p = t.takeWhile p := by
  induction t with
  | nil => exact .inl ⟨rfl, rfl⟩
  | cons c t ih =>
    by_cases hc : p c = true
    · simpa [hc] using ih
    · simp [hc]

section Append

variable {w : Text} (hw : ∀ c ∈ w, Loose c)

include hw

theorem Connector.find?_append_loose (t : Text) :
    find? (t ++ w) = (find? t).map fun f => { f with rest := f.rest ++ w } := by
  cases w with
  | nil => simp
  | cons d w =>
    have hd := (hw d List.mem_cons_self).inert.not_stroke
    cases hf : find? t with
    | some f => exact find?_append_stop hf hd w
    | none =>
      have hfree := free_of_not_stroke fun c hc => (hw c hc).inert.not_stroke
      exact Free.append hf hd hfree

theorem notMem_of_loose {d : Char} (hd : isBlank d = false ∧ d ∉ [']', ')', '}']) : d ∉ w :=
  fun h => (hw d h).ne hd rfl

/-- Behind loose characters no label between bars begins. -/
theorem Chain.readTail_append_loose (t : Text) :
    readTail (t ++ w) = ⟨(readTail t).label, (readTail t).gap, (readTail t).rest ++ w⟩ := by
  have hbar : '|' ∉ w := notMem_of_loose hw (by decide)
  rcases dropWhile_append_cases isPad t w with ⟨hnil, hdrop⟩ | ⟨hdrop, htake⟩
  · have hmem : ∀ c ∈ ((t ++ w).dropWhile isPad).head?, c ∈ w := fun c hc =>
      (List.dropWhile_suffix isPad).subset (hdrop ▸ List.mem_of_mem_head? hc)
    rw [readTail_of_no_pipe fun h => hbar (hmem _ h), readTail_of_no_pipe (by simp [hnil])]
  · unfold readTail
    rw [hdrop, htake]
    cases h : Connector.pipe? (t.dropWhile isPad) with
    | some p => rw [Connector.pipe?_append h]
    | none =>
      have hnone : Connector.pipe? (t.dropWhile isPad ++ w) = none := by
        cases h' : Connector.pipe? (t.dropWhile isPad ++ w) with
        | none => rfl
        | some p =>
          by_cases hnil : t.dropWhile isPad = []
          · rw [hnil, List.nil_append] at h'
            exact absurd (Connector.eq_append_of_pipe? h' ▸ List.mem_cons_self) hbar
          · exact absurd (Connector.length_lt_of_pipe?_append hnil h h').2 hbar
      rw [hnone]

end Append

/-! ## Sides -/

/-- The text can be a side: it holds no connector, and it stands on one line. -/
structure IsSide (t : Text) : Prop where
  free : Connector.Free t
  oneLine : OneLine t

theorem IsSide.within {t u : Text} (h : IsSide t) (hu : u <:+: t) : IsSide u :=
  ⟨h.free.within hu, h.oneLine.within hu⟩

theorem IsSide.append_loose {t w : Text} (h : IsSide t) (hw : ∀ c ∈ w, Loose c) :
    IsSide (t ++ w) where
  free := by rw [Connector.Free, Connector.find?_append_loose hw, h.free]; rfl
  oneLine c hc := (List.mem_append.1 hc).elim (h.oneLine c) fun hc => (hw c hc).not_break

/-- Without ampersands, the end of a longer side belongs to the last part. -/
theorem FanOut.exists_parts_append (u : Text) {w : Text} (hw : '&' ∉ w) :
    ∃ init last, parts u = init ++ [last] ∧ parts (u ++ w) = init ++ [last ++ w] := by
  unfold parts
  generalize 0 = depth
  induction u generalizing depth with
  | nil =>
    refine ⟨[], [], rfl, ?_⟩
    induction w generalizing depth with
    | nil => rfl
    | cons c w ih =>
      have hc : ¬(c = '&' ∧ depth = 0) := by
        rintro ⟨rfl, -⟩
        exact hw List.mem_cons_self
      have := ih (fun hmem => hw (List.mem_cons_of_mem c hmem)) (depthAfter depth c)
      simp only [List.nil_append, List.cons.injEq] at this ⊢
      rw [cut, if_neg hc]
      exact ⟨congrArg (c :: ·) this.1, this.2⟩
  | cons c u ih =>
    rw [List.cons_append, cut, cut]
    split
    · obtain ⟨init, last, h₁, h₂⟩ := ih 0
      exact ⟨[] :: init, last, congrArg ([] :: ·) h₁, congrArg ([] :: ·) h₂⟩
    · obtain ⟨init, last, h₁, h₂⟩ := ih (depthAfter depth c)
      cases init with
      | nil =>
        obtain ⟨h₁, h₁'⟩ := List.cons_eq_cons.1 h₁
        obtain ⟨h₂, h₂'⟩ := List.cons_eq_cons.1 h₂
        exact ⟨[], c :: last, by simp [h₁, h₁'], by simp [h₂, h₂']⟩
      | cons p init =>
        obtain ⟨h₁, h₁'⟩ := List.cons_eq_cons.1 h₁
        obtain ⟨h₂, h₂'⟩ := List.cons_eq_cons.1 h₂
        exact ⟨(c :: p) :: init, last, by simp [h₁, h₁'], by simp [h₂, h₂']⟩

/-- What shows of the parts of a side that have references. -/
def sideLooks (side : Text) : List (List (Text × Bool × Text)) :=
  ((FanOut.parts side).map looks).filter fun ls => !ls.isEmpty

theorem sideLooks_append {u w : Text} (hu : IsSide u) (hw : ∀ c ∈ w, Loose c) :
    sideLooks (u ++ w) = sideLooks u := by
  obtain ⟨init, last, h₁, h₂⟩ := FanOut.exists_parts_append u (notMem_of_loose hw (by decide))
  have hlast : IsSide last := hu.within (FanOut.isInfix_of_mem_parts (by rw [h₁]; simp))
  rw [sideLooks, sideLooks, h₁, h₂, List.map_append, List.map_append, List.map_singleton,
    List.map_singleton, looks_append hlast.free hlast.oneLine hw]

theorem sideLooks_trim {t : Text} (ht : IsSide t) : sideLooks (trim t) = sideLooks t := by
  obtain ⟨a, b, htext, ha, hb⟩ := exists_trim t
  have hb' : OneLine b :=
    ht.oneLine.within ⟨a ++ trim t, [], by rw [List.append_nil]; exact htext.symm⟩
  have hstart : sideLooks (a ++ (trim t ++ b)) = sideLooks (trim t ++ b) := by
    have hlooks : ∀ p, looks (a ++ p) = looks p := fun p =>
      congrArg (List.map Reference.look)
        (references_inert_append (fun c hc => inert_of_isBlank (ha c hc)) p)
    rw [sideLooks, sideLooks, FanOut.parts, FanOut.skips_of_blank ha, List.map_cons, hlooks]
    rfl
  conv => rhs; rw [htext, List.append_assoc, hstart]
  exact (sideLooks_append (ht.within (infix_trim t))
    fun c hc => ⟨.inl (hb c hc), hb' c hc⟩).symm

/-- The parts of a side that have references. -/
def nodeParts (side : Text) : List (List Reference) :=
  (partReferences side).filter fun ns => !ns.isEmpty

theorem map_look_nodeParts {t : Text} (ht : IsSide t) :
    (nodeParts t).map (List.map Reference.look) = sideLooks t := by
  have hparts : ∀ p ∈ FanOut.parts t, looks (trim p) = looks p := fun p hp =>
    have hp := ht.within (FanOut.isInfix_of_mem_parts hp)
    looks_trim hp.free hp.oneLine
  rw [nodeParts, partReferences, fanOut_eq, sideLooks]
  generalize FanOut.parts t = ps at hparts
  induction ps with
  | nil => rfl
  | cons p ps ih =>
    have ih := ih fun q hq => hparts q (List.mem_cons_of_mem p hq)
    have hp := hparts p List.mem_cons_self
    by_cases hblank : trim p = []
    · have hlooks : looks p = [] := by
        rw [← hp, hblank, looks, references_nil]
        rfl
      simpa [hblank, hlooks] using ih
    · by_cases hrefs : references (trim p) = []
      · have hlooks : looks p = [] := by
          rw [← hp, looks, hrefs]
          rfl
        simpa [hblank, hrefs, hlooks] using ih
      · have hlooks : looks p ≠ [] := by
          rw [← hp, looks]
          simpa using hrefs
        have hp' : (references (trim p)).map Reference.look = looks p := hp
        simpa [hblank, hrefs, hlooks, hp'] using ih

theorem flatMap_nodeParts {α : Type} {f : List Reference → List α} (hf : f [] = []) (side : Text) :
    (partReferences side).flatMap f = (nodeParts side).flatMap f := by
  rw [nodeParts]
  induction partReferences side with
  | nil => rfl
  | cons ns nss ih =>
    cases ns with
    | nil => simpa [hf] using ih
    | cons n ns => simp [ih]

/-- Functions of the looks agree on lists with the same looks. -/
theorem flatMap_congr_looks {α : Type} {f : List Reference → List α}
    (hf : ∀ ns ms, ns.map Reference.look = ms.map Reference.look → f ns = f ms)
    {nss mss : List (List Reference)}
    (h : nss.map (List.map Reference.look) = mss.map (List.map Reference.look)) :
    nss.flatMap f = mss.flatMap f := by
  induction nss generalizing mss with
  | nil => rw [List.map_eq_nil_iff.1 h.symm]
  | cons ns nss ih =>
    obtain ⟨ms, mss, rfl, hms, hmss⟩ := List.map_eq_cons_iff.1 h.symm
    rw [List.flatMap_cons, List.flatMap_cons, hf ns ms hms.symm, ih hmss.symm]

/-- Two sides show the same. -/
structure SameSide (side side' : Text) : Prop where
  left : IsSide side
  right : IsSide side'
  looks : sideLooks side = sideLooks side'

namespace SameSide

theorem refl {t : Text} (h : IsSide t) : SameSide t t := ⟨h, h, rfl⟩

theorem append_loose {t w : Text} (h : IsSide t) (hw : ∀ c ∈ w, Loose c) : SameSide (t ++ w) t :=
  ⟨h.append_loose hw, h, sideLooks_append h hw⟩

variable {side side' : Text} (h : SameSide side side')

include h

/-- A function of what shows of each part agrees on sides that show the same. -/
theorem flatMap_congr {α : Type} {f : List Reference → List α} (hnil : f [] = [])
    (hf : ∀ ns ms, ns.map Reference.look = ms.map Reference.look → f ns = f ms) :
    (partReferences (trim side)).flatMap f = (partReferences (trim side')).flatMap f := by
  rw [flatMap_nodeParts hnil, flatMap_nodeParts hnil]
  refine flatMap_congr_looks hf ?_
  rw [map_look_nodeParts (h.left.within (infix_trim _)), sideLooks_trim h.left, h.looks,
    ← sideLooks_trim h.right, ← map_look_nodeParts (h.right.within (infix_trim _))]

theorem looks_sideNodes (role : Role) : (sideNodes role (trim side)).map Reference.look =
    (sideNodes role (trim side')).map Reference.look := by
  rw [sideNodes, sideNodes, List.map_flatMap, List.map_flatMap]
  exact h.flatMap_congr rfl fun ns ms hlooks =>
    map_nodesOfPart_congr (fun _ _ => Reference.bare_of_look) hlooks role

theorem endsOf_eq : endsOf (trim side) = endsOf (trim side') := by
  have htargets := h.flatMap_congr (f := fun ns => (ns.head?.map Reference.id).toList) rfl
    fun ns ms hlooks => by
      rw [← List.head?_map, ← List.head?_map, map_id_of_map_look hlooks]
  have hsources := h.flatMap_congr (f := fun ns => (ns.getLast?.map Reference.id).toList) rfl
    fun ns ms hlooks => by
      rw [← List.getLast?_map, ← List.getLast?_map, map_id_of_map_look hlooks]
  simp only [endsOf, List.filterMap_eq_flatMap_toList, htargets, hsources]

end SameSide

/-! ## Chains -/

/-- Two links are of the same kind, to sides that show the same. -/
def SameLink (l l' : Link) : Prop :=
  l.connector.kind = l'.connector.kind ∧ SameSide l.side l'.side

/-- Chains whose sides show the same, joined in the same way. -/
structure Chain.Same (c c' : Chain) : Prop where
  first : SameSide c.first c'.first
  links : List.Forall₂ SameLink c.links c'.links

/-- The sides of a chain show the same with loose characters behind the last one. -/
theorem same_append_loose {t w : Text} (ht : OneLine t) (hw : ∀ c ∈ w, Loose c) :
    (Chain.ofText (t ++ w)).Same (Chain.ofText t) := by
  induction t using Chain.ofText.induct with
  | case1 t hf =>
    have hside : IsSide t := ⟨hf, ht⟩
    rw [Chain.ofText_of_free hf, Chain.ofText_of_free (hside.append_loose hw).free]
    exact ⟨.append_loose hside hw, .nil⟩
  | case2 t f hf ih =>
    have htext := (Connector.eq_append_of_find? hf).1
    have hf' := Connector.find?_append_loose hw t
    rw [hf] at hf'
    have hrest : OneLine (Chain.readTail f.rest).rest := by
      refine ht.within ⟨f.before ++ f.token ++ (Chain.readTail f.rest).gap, [], ?_⟩
      rw [htext, List.append_nil, List.append_assoc, ← Chain.readTail_append]
    have ih := ih hrest
    have hbefore : IsSide f.before :=
      ⟨Connector.free_before hf, ht.within ⟨[], f.token ++ f.rest, by rw [htext]; simp⟩⟩
    rw [Chain.ofText_of_find? hf, Chain.ofText_of_find? hf', Chain.readTail_append_loose hw]
    exact ⟨.refl hbefore, .cons ⟨rfl, ih.first⟩ ih.links⟩

theorem linkNodes_congr {ls ls' : List Link} (h : List.Forall₂ SameLink ls ls') :
    (linkNodes ls).map Reference.look = (linkNodes ls').map Reference.look ∧
      ∀ ids, linkArcs ids ls = linkArcs ids ls' := by
  induction h with
  | nil => exact ⟨rfl, fun _ => rfl⟩
  | @cons l l' ls ls' h hls ih =>
    obtain ⟨hkind, hside⟩ := h
    have hempty : ls.isEmpty = ls'.isEmpty := by
      cases hls <;> rfl
    constructor
    · rw [linkNodes, linkNodes, List.map_append, List.map_append, hempty, hside.looks_sideNodes,
        ih.1]
    · intro ids
      rw [linkArcs, linkArcs, hkind, hside.endsOf_eq, ih.2]

/-! ## Lines without connectors -/

theorem opensWithFrame_append_loose {t w : Text} (ht : Connector.Free t) (hw : ∀ c ∈ w, Loose c) :
    opensWithFrame (t ++ w) = opensWithFrame t := by
  have hnone : ∀ u : Text, (∀ c ∈ u, c ∈ w) → Reference.read? u = none := by
    intro u hu
    have hid : leadingId u = [] := by
      cases u with
      | nil => rfl
      | cons c u => simp [leadingId, (hw c (hu c List.mem_cons_self)).inert.not_id]
    rw [Reference.read?, hid]
    rfl
  unfold opensWithFrame Reference.opening?
  rcases dropWhile_append_cases isPad t w with ⟨hnil, hdrop⟩ | ⟨hdrop, -⟩
  · rw [hdrop, hnil, hnone _ fun c hc => (List.dropWhile_suffix isPad).subset hc,
      hnone [] (by simp)]
  · rw [hdrop]
    cases hread : Reference.read? (t.dropWhile isPad) with
    | some p =>
      obtain ⟨m, rest⟩ := p
      obtain ⟨m', rest', hread', hsame, -⟩ := Reference.read?_append_inert
        (ht.suffix (List.dropWhile_suffix isPad)) (fun c hc => (hw c hc).inert) hread
      have hbare : m'.bare = m.bare := congrArg Prod.snd hsame.mark
      simp only [hread', Option.any_some, hbare]
    | none =>
      cases hu : t.dropWhile isPad with
      | nil =>
        rw [List.nil_append, hnone w fun c hc => hc]
      | cons c u =>
        rw [hu] at hread
        rw [List.cons_append, Reference.read?_append_eq_none hread]

/-- What shows of the nodes written `id[label` in a text. -/
theorem looks_boxes_append {t w : Text} (ht : OneLine t) (hw : ∀ c ∈ w, Loose c) :
    ((boxes (t ++ w)).map boxed).map Reference.look = ((boxes t).map boxed).map Reference.look := by
  have hnil : ∀ v : Text, (∀ c ∈ v, c ∈ w) → boxes v = [] := fun v hv =>
    boxes_eq_nil fun h => (hw _ (hv _ h)).ne (d := '[') (by decide) rfl
  have hhead : ∀ c ∈ w.head?, isIdChar c = false := fun c hc =>
    (hw c (List.mem_of_mem_head? hc)).inert.not_id
  induction t using boxes.induct with
  | case1 => rw [List.nil_append, hnil w fun c hc => hc, hnil [] (by simp)]
  | case2 c t hc inner h ih =>
    have h' : afterId (t ++ w) = '[' :: (inner ++ w) := by
      rw [afterId_append_stop t hhead, h]
      rfl
    have hinner : OneLine inner := by
      refine ht.within (List.IsSuffix.isInfix ?_)
      have : '[' :: inner <:+ t := h ▸ List.dropWhile_suffix isIdChar
      exact ((List.suffix_cons '[' inner).trans this).trans (List.suffix_cons c t)
    have hlook : ∀ id label : Text, (boxed (id, label)).look = (id, false, Label.plain label) :=
      fun _ _ => rfl
    rw [List.cons_append, boxes_cons_of_bracket hc h', boxes_cons_of_bracket hc h,
      leadingId_append_stop t hhead]
    simp only [List.map_cons, hlook]
    rcases dropWhile_append_cases isBoxed inner w with ⟨hnone, hdrop⟩ | ⟨hdrop, htake⟩
    · -- The label is not closed, and goes on at the end of the line.
      have hall := List.dropWhile_eq_nil_iff.1 hnone
      have htake : inner.takeWhile isBoxed = inner := by
        have := List.takeWhile_append_dropWhile (p := isBoxed) (l := inner)
        rwa [hnone, List.append_nil] at this
      rw [hdrop, hnone, List.takeWhile_append_of_pos hall, htake, hnil [] (by simp),
        hnil _ fun c hc => (List.dropWhile_suffix isBoxed).subset hc,
        Label.plain_append hinner fun c hc => hw c ((List.takeWhile_prefix isBoxed).subset hc)]
    · rw [hdrop, htake]
      exact congrArg _ (ih (hinner.within (List.dropWhile_suffix isBoxed).isInfix))
  | case3 c t hc h ih =>
    have h' : ∀ inner, afterId (t ++ w) ≠ '[' :: inner := by
      intro inner hinner
      rw [afterId_append_stop t hhead] at hinner
      cases ht : afterId t with
      | nil =>
        rw [ht, List.nil_append] at hinner
        exact (hw '[' (hinner ▸ List.mem_cons_self)).ne (d := '[') (by decide) rfl
      | cons d u =>
        rw [ht] at hinner
        cases hinner
        exact h u ht
    rw [List.cons_append, boxes_cons_of_id hc h', boxes_cons_of_id hc h,
      afterId_append_stop t hhead]
    exact ih (ht.within ((List.dropWhile_suffix isIdChar).trans (List.suffix_cons c t)).isInfix)
  | case4 c t hc ih =>
    have hc : isIdChar c = false := by simpa using hc
    rw [List.cons_append, boxes_cons_of_not_id hc, boxes_cons_of_not_id hc]
    exact ih (ht.within (List.suffix_cons c t).isInfix)

/-! ## Statements -/

/-- Loose characters behind a statement change nothing of what it declares. -/
theorem statement_append_loose {t w : Text} (ht : OneLine t) (hw : ∀ c ∈ w, Loose c) :
    (statementNodes (t ++ w)).map Reference.look = (statementNodes t).map Reference.look ∧
      statementArcs (t ++ w) = statementArcs t := by
  have hsame := same_append_loose ht hw
  have hends : (Chain.ofText (t ++ w)).links.isEmpty = (Chain.ofText t).links.isEmpty := by
    have := hsame.links.length_eq
    rw [Bool.eq_iff_iff, List.isEmpty_iff_length_eq_zero, List.isEmpty_iff_length_eq_zero, this]
  obtain ⟨hnodes, harcs⟩ := linkNodes_congr hsame.links
  constructor
  · unfold statementNodes
    by_cases hlinks : (Chain.ofText t).links = []
    · have hfree : Connector.Free t := Chain.links_ofText_eq_nil.1 hlinks
      have hframed : (framedNodes (t ++ w)).map Reference.look =
          (framedNodes t).map Reference.look := by
        have := congrArg (List.filter fun l => !l.2.1) (looks_append hfree ht hw)
        rwa [looks, looks, List.filter_map, List.filter_map] at this
      simp only [hends, hlinks, List.isEmpty_nil, Bool.not_true, Bool.false_eq_true, if_false,
        opensWithFrame_append_loose hfree hw]
      split
      · exact hframed
      · exact looks_boxes_append ht hw
    · have hlinks : (!(Chain.ofText t).links.isEmpty) = true := by simpa using hlinks
      simp only [hends, hlinks, if_true, chainNodes, List.map_append, hnodes,
        hsame.first.looks_sideNodes]
  · rw [statementArcs, statementArcs, chainArcs, chainArcs, hsame.first.endsOf_eq, harcs]

/-! ## Headers -/

section Headers

variable {w : Text} (hw : ∀ c ∈ w, Loose c)

include hw

namespace Header

theorem endsHeader_loose : endsHeader w = true := by
  cases w with
  | nil => rfl
  | cons d w =>
    have hd := hw d List.mem_cons_self
    obtain ⟨h₁, h₂, h₃⟩ := hd.inert.not_opener
    simp [endsHeader, hd.not_word, h₁, h₂, h₃]

theorem read?_append_loose (l : Text) :
    read? (l ++ w) = (read? l).map fun p => (p.1, p.2 ++ w) := by
  have hlast : ∀ p ∈ table.map Prod.fst,
      ∀ c ∈ p.getLast?, isBlank c = false ∧ c ∉ [']', ')', '}'] := by
    decide
  exact read?_append_of_after?
    (fun p hp => after?_append_of_last l fun c hc => notMem_of_loose hw (hlast p hp c hc))
    (endsHeader_loose hw)

theorem afterWord?_append_loose (l : Text) : afterWord? (l ++ w) = (afterWord? l).map (· ++ w) := by
  cases w with
  | nil => simp
  | cons d w =>
    refine afterWord?_append_stop l (fun k hk hmem => ?_) w
    have hd := isIdChar_of_toLower (isIdChar_of_mem_flowchartWords k hk _ hmem)
    rw [(hw d List.mem_cons_self).inert.not_id] at hd
    cases hd

/-- The flowchart keyword goes on being read, or it is the whole line and may be part of a longer
word. -/
theorem afterKeyword?_append_loose (l : Text) :
    (afterKeyword? l = some [] ∧ ∀ c ∈ l, isIdChar c = true) ∨
      afterKeyword? (l ++ w) = (afterKeyword? l).map (· ++ w) := by
  unfold afterKeyword?
  rw [afterWord?_append_loose hw l]
  cases hword : afterWord? l with
  | none => exact .inr rfl
  | some rest =>
    cases rest with
    | nil =>
      obtain ⟨p, hp, hmem⟩ := eq_append_of_afterWord? hword
      rw [List.append_nil] at hp
      exact .inl ⟨rfl, hp ▸ isIdChar_of_mem_keyword hmem⟩
    | cons d rest =>
      have hhead : ∀ u : Text, (!((d :: rest) ++ u).head?.any fun c => !isBlank c && c != ';') =
          !(d :: rest).head?.any fun c => !isBlank c && c != ';' := fun _ => rfl
      rw [Option.map_some, Option.filter_some, Option.filter_some, hhead]
      exact .inr (by split <;> rfl)

/-- What a header leaves of a line goes on with the line, or the header leaves nothing of it. Then
no connector and no label begins in what is left of the longer line. -/
theorem skip_append_loose (l : Text) :
    skip (l ++ w) = skip l ++ w ∨ skip l = [] ∧ ∀ c ∈ skip (l ++ w), Mute c := by
  have hloose : ∀ c ∈ w, Mute c := fun c hc =>
    ⟨(hw c hc).inert.not_stroke, (hw c hc).inert.not_opener⟩
  have hdrop : ∀ (p : Char → Bool) (rest : Text), (rest ++ w).dropWhile p = rest.dropWhile p ++ w ∨
      rest.dropWhile p = [] ∧ ∀ c ∈ (rest ++ w).dropWhile p, Mute c := by
    intro p rest
    rcases dropWhile_append_cases p rest w with ⟨hnil, h⟩ | ⟨h, -⟩
    · exact .inr ⟨hnil, fun c hc => hloose c ((List.dropWhile_suffix p).subset (h ▸ hc))⟩
    · exact .inl h
  cases hread : read? l with
  | some p =>
    rw [skip, skip, read?_append_loose hw l, hread]
    exact hdrop _ p.2
  | none =>
    have hread' : read? (l ++ w) = none := by
      rw [read?_append_loose hw l, hread]
      rfl
    rcases afterKeyword?_append_loose hw l with ⟨hkeyword, hletters⟩ | hkeyword
    · refine .inr ⟨by rw [skip, hread, hkeyword]; rfl, fun c hc => ?_⟩
      rcases List.mem_append.1 ((skip_suffix _).subset hc) with hc | hc
      · have hc := hletters c hc
        exact ⟨isStroke_of_isIdChar hc, ne_of_isIdChar hc (by decide),
          ne_of_isIdChar hc (by decide), ne_of_isIdChar hc (by decide)⟩
      · exact hloose c hc
    · rw [skip, skip, hread, hread', hkeyword]
      cases afterKeyword? l with
      | none => exact .inl rfl
      | some rest => exact hdrop _ rest

end Header

end Headers

/-! ## Lines -/

/-- Loose characters behind a line change nothing of what it declares. -/
theorem mentions_append_loose {l w : Text} (hl : OneLine l) (hw : ∀ c ∈ w, Loose c) :
    (mentions (l ++ w)).map Reference.look = (mentions l).map Reference.look ∧
      joins (l ++ w) = joins l := by
  have hplain : isComment (l ++ w) = isComment l ∧ isDirective (l ++ w) = isDirective l := by
    cases w with
    | nil => simp
    | cons d w =>
      have hd := hw d List.mem_cons_self
      exact ⟨isComment_append_stop l (hd.ne (by decide)) w,
        isDirective_append_stop l hd.not_word w⟩
  unfold mentions joins
  rw [hplain.1, hplain.2]
  split
  · exact ⟨rfl, rfl⟩
  rcases Header.skip_append_loose hw l with hskip | ⟨hnil, hskip⟩
  · rw [hskip]
    exact statement_append_loose (hl.within (Header.skip_suffix l).isInfix) hw
  · have hfree := Connector.free_of_not_stroke fun c hc => (hskip c hc).not_stroke
    rw [hnil, statementNodes_eq_nil hskip, statementNodes_nil, statementArcs_nil, statementArcs,
      Chain.ofText_of_free hfree]
    exact ⟨rfl, rfl⟩

end Flowmend
