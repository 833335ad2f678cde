import Flowmend.Proofs.Statement.FanOut

/-!
# Written statements

A row is an edge statement by its parts: groups of nodes joined by connectors. `Row.text` writes it,
with one space around each connector and ampersand. A side is cut into the nodes of its group
(`IsGroup.fanOut_text`), and the chain of a tidy row has its connectors and groups
(`Row.Tidy.ofText_text`).
-/

namespace Flowmend

open Text

/-! ## Tidy references -/

namespace Frame

variable {f : Frame}

theorem Tidy.free_text (hf : f.Tidy) : Connector.Free f.text := by
  obtain ⟨k, ks, hk, hks⟩ := f.shape.closer_eq_cons
  have hcloser := f.shape.isStroke_closer
  have hlabel : Connector.Free (f.label ++ f.shape.closer) :=
    hf.free.append_of_head (Connector.free_of_not_stroke hcloser) fun c hc =>
      hcloser c (List.mem_of_mem_head? hc)
  rw [hf.text_eq]
  exact hlabel.append_left f.shape.isStroke_opener

theorem Tidy.paired (hf : f.Tidy) : FanOut.Paired f.label :=
  FanOut.paired_of_no_bracket fun c hc hb => by
    have hspecial : ∀ c ∈ ['[', '(', '{', ']', ')', '}'], Label.isSpecial c = true := by decide
    exact hf.not_mem (hspecial c hb) hc

end Frame

namespace Reference

variable {n : Reference}

theorem Tidy.free_text (hn : n.Tidy) : Connector.Free n.text := by
  have hid : Connector.Free n.id :=
    Connector.free_of_not_stroke fun c hc => isStroke_of_isIdChar (hn.id.isIdChar c hc)
  unfold text
  cases hfr : n.frame with
  | none => simpa using hid
  | some f =>
    have hf : f.Tidy := hn.frame f hfr
    refine hid.append_of_head hf.free_text fun c hc => ?_
    simp only [] at hc
    rw [hf.text_eq, List.head?_append] at hc
    rcases f.shape.head?_opener with h | h | h <;> rw [h] at hc <;> cases hc <;> decide

theorem Tidy.whole (hn : n.Tidy) : n.Whole := ⟨hn.id, fun f hf => (hn.frame f hf).closed⟩

end Reference

/-! ## Groups -/

/-- One or more tidy references. -/
inductive IsGroup : List Reference → Prop
  | single {n : Reference} : n.Tidy → IsGroup [n]
  | cons {n : Reference} {ns : List Reference} : n.Tidy → IsGroup ns → IsGroup (n :: ns)

namespace IsGroup

variable {ns : List Reference}

theorem ne_nil (h : IsGroup ns) : ns ≠ [] := by
  cases h <;> simp

theorem tidy (h : IsGroup ns) : ∀ n ∈ ns, n.Tidy := by
  induction h with
  | single hn => simpa using hn
  | cons hn _ ih => simpa using ⟨hn, ih⟩

theorem of_tidy (hne : ns ≠ []) (h : ∀ n ∈ ns, n.Tidy) : IsGroup ns := by
  induction ns with
  | nil => exact absurd rfl hne
  | cons n ns ih =>
    have hn := h n List.mem_cons_self
    by_cases hns : ns = []
    · subst hns
      exact .single hn
    · exact .cons hn (ih hns fun m hm => h m (List.mem_cons_of_mem n hm))

instance (ns : List Reference) : Decidable (IsGroup ns) :=
  decidable_of_iff (ns ≠ [] ∧ ∀ n ∈ ns, n.Tidy)
    ⟨fun ⟨h₁, h₂⟩ => of_tidy h₁ h₂, fun h => ⟨h.ne_nil, h.tidy⟩⟩

theorem text_eq_cons (h : IsGroup ns) : ∃ c t, groupText ns = c :: t ∧ isIdChar c = true := by
  cases h with
  | single hn => exact hn.text_eq_cons
  | @cons n ns hn hns =>
    obtain ⟨c, t, ht, hc⟩ := hn.text_eq_cons
    exact ⟨c, _, by rw [groupText_cons n hns.ne_nil, ht, List.cons_append], hc⟩

theorem text_ne_nil (h : IsGroup ns) : groupText ns ≠ [] := by
  obtain ⟨c, t, ht, -⟩ := h.text_eq_cons
  simp [ht]

theorem free_text (h : IsGroup ns) : Connector.Free (groupText ns) := by
  induction h with
  | single hn => exact hn.free_text
  | @cons n ns hn hns ih =>
    rw [groupText_cons n hns.ne_nil]
    exact hn.free_text.append (by decide) (ih.append_left (t := [' ', '&', ' ']) (by decide))

theorem trimmed_text (h : IsGroup ns) : Trimmed (groupText ns) := by
  induction h with
  | single hn => exact hn.whole.trimmed_text
  | @cons n ns hn hns ih =>
    constructor
    · intro c hc
      rw [groupText_cons n hns.ne_nil, List.head?_append_of_ne_nil _ hn.whole.text_ne_nil] at hc
      exact hn.whole.trimmed_text.1 c hc
    · intro c hc
      obtain ⟨d, t, ht, -⟩ := hns.text_eq_cons
      have hlast : (groupText (n :: ns)).getLast? = (groupText ns).getLast? := by
        rw [groupText_cons n hns.ne_nil, ht, List.getLast?_append]
        cases h : (d :: t).getLast? with
        | none => simp at h
        | some v => simp [List.getLast?_cons_cons, h]
      exact ih.2 c (hlast ▸ hc)

/-- A side is cut into the texts of its nodes. -/
theorem fanOut_text (h : IsGroup ns) : fanOut (groupText ns) = ns.map Reference.text :=
  fanOut_groupText_of_paired h.ne_nil (fun n hn => (h.tidy n hn).whole)
    fun n hn f hf => ((h.tidy n hn).frame f hf).paired

end IsGroup

/-! ## Rows -/

/-- The label of a connector as written. -/
def Connector.gap (k : Connector) : Text :=
  match k.label with
  | none => []
  | some l => '|' :: (l ++ ['|'])

/-- A connector with its label as written. -/
def Connector.text (k : Connector) : Text := k.token ++ k.gap

/-- A connector that a row can hold: its label is not empty, free of connectors, and left alone by
cleaning. -/
structure Connector.Tidy (k : Connector) : Prop where
  token : IsToken k.token
  label_ne_nil : ∀ l ∈ k.label, l ≠ []
  label_plain : ∀ l ∈ k.label, Label.Plain l
  label_free : ∀ l ∈ k.label, Free l

instance (k : Connector) : Decidable k.Tidy :=
  decidable_of_iff
    (Connector.IsToken k.token ∧ ∀ l ∈ k.label, l ≠ [] ∧ Label.Plain l ∧ Connector.Free l)
    ⟨fun ⟨h, hl⟩ =>
        ⟨h, fun l hk => (hl l hk).1, fun l hk => (hl l hk).2.1, fun l hk => (hl l hk).2.2⟩,
      fun h => ⟨h.token, fun l hl => ⟨h.label_ne_nil l hl, h.label_plain l hl, h.label_free l hl⟩⟩⟩

/-- A connector and the group after it. -/
structure Hop where
  connector : Connector
  nodes : List Reference
  deriving DecidableEq, Repr

/-- An edge statement by its parts. -/
structure Row where
  first : List Reference
  hops : List Hop
  deriving DecidableEq, Repr

namespace Hop

/-- The connector and the group as written. -/
def text (h : Hop) : Text := ' ' :: h.connector.text ++ ' ' :: groupText h.nodes

/-- The connector is tidy, and so are the nodes. -/
structure Tidy (h : Hop) : Prop where
  connector : h.connector.Tidy
  nodes : IsGroup h.nodes

instance (h : Hop) : Decidable h.Tidy :=
  decidable_of_iff (h.connector.Tidy ∧ IsGroup h.nodes)
    ⟨fun ⟨h₁, h₂⟩ => ⟨h₁, h₂⟩, fun ⟨h₁, h₂⟩ => ⟨h₁, h₂⟩⟩

end Hop

namespace Row

/-- The row as written. -/
def text (r : Row) : Text := groupText r.first ++ r.hops.flatMap Hop.text

/-- There is a connector, and all nodes and connectors are tidy. -/
structure Tidy (r : Row) : Prop where
  first : IsGroup r.first
  hops_ne_nil : r.hops ≠ []
  hops : ∀ h ∈ r.hops, h.Tidy

instance (r : Row) : Decidable r.Tidy :=
  decidable_of_iff (IsGroup r.first ∧ r.hops ≠ [] ∧ ∀ h ∈ r.hops, h.Tidy)
    ⟨fun ⟨h₁, h₂, h₃⟩ => ⟨h₁, h₂, h₃⟩, fun ⟨h₁, h₂, h₃⟩ => ⟨h₁, h₂, h₃⟩⟩

/-- The nodes of the row, in order. -/
def references (r : Row) : List Reference := r.first ++ r.hops.flatMap Hop.nodes

end Row

/-! ## Reading a row -/

section Reading

/-- The space before the next connector. -/
def pad : List Hop → Text
  | [] => []
  | _ :: _ => [' ']

theorem isBlank_of_mem_pad (hs : List Hop) : ∀ c ∈ pad hs, isBlank c = true := by
  cases hs with
  | nil => simp [pad]
  | cons h hs =>
    intro c hc
    rw [List.mem_singleton.1 hc]
    decide

/-- The links of the chain of a row. -/
def links : List Hop → List Link
  | [] => []
  | h :: hs => ⟨h.connector, h.connector.gap, ' ' :: (groupText h.nodes ++ pad hs)⟩ :: links hs

/-- The label of a connector is read back, and no bar that follows is taken for one. -/
theorem readTail_gap {k : Connector} (hk : k.Tidy) {u : Text}
    (hu : '|' ∉ (u.dropWhile isPad).head?) : Chain.readTail (k.gap ++ u) = ⟨k.label, k.gap, u⟩ := by
  unfold Connector.gap
  cases hl : k.label with
  | none => exact Chain.readTail_of_no_pipe hu
  | some l =>
    simpa using Chain.readTail_pipe (hk.label_plain l hl).ne_bar u

/-- A character of no connector follows the token of a connector. -/
theorem gap_append_eq_cons (k : Connector) (u : Text) :
    ∃ d v, k.gap ++ ' ' :: u = d :: v ∧ Connector.isStroke d = false := by
  unfold Connector.gap
  cases k.label with
  | none => exact ⟨' ', u, rfl, by decide⟩
  | some l => exact ⟨'|', _, rfl, by decide⟩

/-- The chain of a side with hops after it. -/
theorem ofText_append_hops {t : Text} {hs : List Hop} (ht : Connector.Free t)
    (hhs : ∀ h ∈ hs, h.Tidy) :
    Chain.ofText (t ++ hs.flatMap Hop.text) = ⟨t ++ pad hs, links hs⟩ := by
  induction hs generalizing t with
  | nil => simpa [pad, links] using Chain.ofText_of_free ht
  | cons h hs ih =>
    have hh : h.Tidy := hhs h List.mem_cons_self
    obtain ⟨c, s, hs', hc⟩ := hh.nodes.text_eq_cons
    obtain ⟨d, v, hv, hd⟩ :=
      gap_append_eq_cons h.connector (groupText h.nodes ++ hs.flatMap Hop.text)
    have hpipe :
        '|' ∉ ((' ' :: (groupText h.nodes ++ hs.flatMap Hop.text)).dropWhile isPad).head? := by
      have hpad : isPad c = false := by
        simp only [isPad, Bool.or_eq_false_iff, beq_eq_false_iff_ne]
        exact ⟨ne_of_isIdChar hc (by decide), ne_of_isIdChar hc (by decide)⟩
      rw [hs', List.cons_append, List.dropWhile_cons_of_pos (by decide),
        dropWhile_of_head isPad _ hpad]
      simpa using ne_of_isIdChar hc (by decide)
    have htext : t ++ (h :: hs).flatMap Hop.text = t ++ ' ' :: (h.connector.token ++
        (h.connector.gap ++ ' ' :: (groupText h.nodes ++ hs.flatMap Hop.text))) := by
      simp [Hop.text, Connector.text]
    have hfind := Connector.find?_append_token ht (by decide : Connector.isStroke ' ' = false)
      hh.connector.token hd v
    have hside : Connector.Free (' ' :: groupText h.nodes) :=
      hh.nodes.free_text.append_left (t := [' ']) (by decide)
    have hrest := ih hside fun g hg => hhs g (List.mem_cons_of_mem h hg)
    rw [List.cons_append] at hrest
    rw [htext, hv, Chain.ofText_of_find? hfind, ← hv]
    simp only [readTail_gap hh.connector hpipe, hrest]
    rfl

end Reading

/-- The chain of a row has its connectors and groups. -/
theorem Row.Tidy.ofText_text {r : Row} (hr : r.Tidy) :
    Chain.ofText r.text = ⟨groupText r.first ++ pad r.hops, links r.hops⟩ :=
  ofText_append_hops hr.first.free_text hr.hops

theorem IsGroup.trim_pad {ns : List Reference} (h : IsGroup ns) (hs : List Hop) :
    trim (groupText ns ++ pad hs) = groupText ns := by
  have := h.trimmed_text.trim_append h.text_ne_nil (a := []) (by simp) (isBlank_of_mem_pad hs)
  simpa using this

theorem IsGroup.trim_space_pad {ns : List Reference} (h : IsGroup ns) (hs : List Hop) :
    trim (' ' :: (groupText ns ++ pad hs)) = groupText ns := by
  have := h.trimmed_text.trim_append h.text_ne_nil (a := [' ']) (by decide) (isBlank_of_mem_pad hs)
  simpa using this

/-- The trimmed sides of a row are the texts of its groups. -/
theorem map_trim_links {hs : List Hop} (hhs : ∀ h ∈ hs, h.Tidy) :
    (links hs).map (fun l => trim l.side) = hs.map fun h => groupText h.nodes := by
  induction hs with
  | nil => rfl
  | cons h hs ih =>
    have hh := hhs h List.mem_cons_self
    rw [links, List.map_cons, ih fun g hg => hhs g (List.mem_cons_of_mem h hg), List.map_cons,
      hh.nodes.trim_space_pad]

/-! ## The first node of a row -/

theorem IsGroup.exists_text {ns : List Reference} (h : IsGroup ns) {u : Text}
    (hu : Reference.Ends u) :
    ∃ n v, n ∈ ns ∧ groupText ns ++ u = n.text ++ v ∧ Reference.Ends v := by
  cases h with
  | single hn => exact ⟨_, u, List.mem_singleton_self _, rfl, hu⟩
  | @cons n ns hn hns =>
    refine ⟨n, ' ' :: '&' :: ' ' :: groupText ns ++ u, List.mem_cons_self, ?_, ?_⟩
    · rw [groupText_cons n hns.ne_nil, List.append_assoc]
    · rintro c ⟨⟩
      decide

/-- A row opens with one of its nodes, and nothing that follows belongs to the node. -/
theorem Row.Tidy.exists_text {r : Row} (hr : r.Tidy) :
    ∃ n v, n ∈ r.references ∧ n.Tidy ∧ r.text = n.text ++ v ∧ Reference.Ends v := by
  have hends : Reference.Ends (r.hops.flatMap Hop.text) := by
    obtain ⟨h, hs, hhs⟩ := List.exists_cons_of_ne_nil hr.hops_ne_nil
    rw [hhs]
    rintro c ⟨⟩
    decide
  obtain ⟨n, v, hn, htext, hv⟩ := hr.first.exists_text hends
  exact ⟨n, v, List.mem_append_left _ hn, hr.first.tidy n hn, htext, hv⟩

end Flowmend
