import Flowmend.Proofs.Graph.Framed
import Flowmend.Proofs.Graph.Item
import Flowmend.Proofs.Repair.Document
import Flowmend.Proofs.Repair.Label

/-!
# Repair of the node that a text opens with

A node that is mended keeps its id and shape, and its label holds no character with a meaning in
diagrams (`exists_mendOpening`). So the text keeps its marks (`marks_mendOpening`), unless cleaning
brings out a connector in the label; and a line without connectors keeps what stands on it
(`on_mendOpening`).
-/

namespace Flowmend

open Text Extract

/-! ## Mended nodes -/

namespace Reference

/-- A mended node is its id with the mended label in the brackets of its shape. -/
theorem value_mend {n : Reference} {f : Frame} (hf : n.frame = some f) : n.mend.value =
    framedText n.id f.shape ++ ((Label.mend n.id f.label).value ++ f.shape.closer) := by
  unfold mend
  rw [hf]
  show n.id ++ f.shape.opener ++ (Label.mend n.id f.label).value ++ f.shape.closer = _
  rw [framedText, List.append_assoc, List.append_assoc]

theorem opening?_eq_read? {t : Text} (ht : ∀ c ∈ t.head?, isBlank c = false) :
    opening? t = read? t := by
  cases t with
  | nil => rfl
  | cons c t =>
    refine congrArg read? (dropWhile_of_head isPad t ?_)
    have := ht c rfl
    by_contra hpad
    simp only [Bool.not_eq_false, isPad, Bool.or_eq_true, beq_iff_eq] at hpad
    rcases hpad with rfl | rfl <;> cases this

theorem mendOpening_of_not_opensWithFrame {t : Text} (h : opensWithFrame t = false) :
    mendOpening t = ⟨t, []⟩ := by
  unfold opensWithFrame at h
  unfold mendOpening
  cases hopening : opening? t with
  | none => rfl
  | some p =>
    rw [hopening, Option.any_some, Bool.not_eq_false'] at h
    simp only [h, if_true]
    rfl

/-- A text opens with no framed node, or it has the mended one in place of the one that it opens
with. -/
theorem mendOpening_cases {t : Text} (ht : Trimmed t) : opensWithFrame t = false ∨
    ∃ n f rest, n.frame = some f ∧ read? t = some (n, rest) ∧ (mendOpening t).value =
      framedText n.id f.shape ++ ((Label.mend n.id f.label).value ++ f.shape.closer ++ rest) := by
  unfold opensWithFrame mendOpening
  rw [opening?_eq_read? ht.1]
  cases hread : read? t with
  | none => exact .inl rfl
  | some p =>
    obtain ⟨n, rest⟩ := p
    cases hf : n.frame with
    | none => exact .inl (by simp [bare, hf])
    | some f =>
      refine .inr ⟨n, f, rest, hf, rfl, ?_⟩
      simp only [bare, hf, Option.isNone_some, Bool.false_eq_true, if_false]
      show n.mend.value ++ rest = _
      rw [value_mend hf, List.append_assoc]

/-- A text stays, or the framed node that it opens with is mended. -/
theorem exists_mendOpening {t : Text} (ht : Trimmed t) :
    (mendOpening t).value = t ∨ ∃ n f rest label, n.frame = some f ∧ read? t = some (n, rest) ∧
      (mendOpening t).value = framedText n.id f.shape ++ (label ++ f.shape.closer ++ rest) ∧
      ∀ c ∈ label, Label.isSpecial c = false ∧ (isBreak c = true → c ∈ f.label) := by
  rcases mendOpening_cases ht with h | ⟨n, f, rest, hf, hread, hvalue⟩
  · exact .inl (by rw [mendOpening_of_not_opensWithFrame h])
  · exact .inr ⟨n, f, rest, _, hf, hread, hvalue,
      fun c hc => Label.mem_mend (isId_of_read? hread) hc⟩

theorem text_of_read? {t rest : Text} {n : Reference} {f : Frame}
    (hread : read? t = some (n, rest)) (hf : n.frame = some f) :
    t = framedText n.id f.shape ++
      (f.label ++ (if f.closed then f.shape.closer else []) ++ rest) := by
  rw [(eq_append_of_read? hread).1, text, hf, framedText]
  simp [Frame.text]

/-- A mended node is read back with its id and shape. -/
theorem read?_mended {id label : Text} {s : Shape} (hid : IsId id)
    (hlabel : ∀ c ∈ label, Label.isSpecial c = false) (hfree : Connector.Free label) (rest : Text) :
    read? (framedText id s ++ (label ++ s.closer ++ rest)) =
      some (⟨id, some ⟨s, label, true⟩⟩, rest) := by
  obtain ⟨k, ks, hk, hks⟩ := s.closer_eq_cons
  have hspecial : ∀ c, c = '[' ∨ c = '(' ∨ c = '{' ∨ c = ']' ∨ c = ')' ∨ c = '}' → c ∉ label := by
    intro c hc hmem
    have := hlabel c hmem
    rcases hc with rfl | rfl | rfl | rfl | rfl | rfl <;> cases this
  have hhead : ∀ c ∈ (label ++ s.closer ++ rest).head?, c ≠ '[' ∧ c ≠ '(' ∧ c ≠ '{' := by
    intro c hc
    cases label with
    | nil =>
      rw [hk] at hc
      cases hc
      rcases hks with rfl | rfl | rfl <;> decide
    | cons d label =>
      cases hc
      refine ⟨?_, ?_, ?_⟩ <;> rintro rfl <;> exact hspecial _ (by simp) List.mem_cons_self
  have hmem : k ∉ label := hspecial k (by rcases hks with rfl | rfl | rfl <;> simp)
  have hstroke : Connector.isStroke k = false := by rcases hks with rfl | rfl | rfl <;> decide
  have hnot : ∀ c ∈ (s.opener ++ (label ++ s.closer ++ rest)).head?, isIdChar c = false := by
    intro c hc
    rw [List.head?_append] at hc
    rcases s.head?_opener with h | h | h <;> rw [h] at hc <;> cases hc <;> decide
  have hempty : id.isEmpty = false := by simpa using hid.ne_nil
  have hspan := Frame.spanLabel_closed ks rest hmem hstroke hfree
  rw [← hk] at hspan
  rw [framedText, List.append_assoc, read?, leadingId_append hid.isIdChar hnot,
    afterId_append hid.isIdChar hnot, hempty, Frame.read?, Shape.open?_opener_append s hhead]
  simp only [Option.map_some, hspan, Bool.false_eq_true, if_false]

/-- A mended node is read back as the node with the mended label, and nothing is left over, just if
this label holds no connector. The label that was read holds none, but cleaning can bring one
out. -/
theorem opening?_mend {t rest : Text} {n : Reference} {f : Frame}
    (h : opening? t = some (n, rest)) (hf : n.frame = some f) :
    Connector.Free f.label ∧
      (opening? n.mend.value =
          some (⟨n.id, some ⟨f.shape, (Label.mend n.id f.label).value, true⟩⟩, []) ↔
        Connector.Free (Label.mend n.id f.label).value) := by
  have hid : IsId n.id := isId_of_read? h
  have hopening : opening? n.mend.value = read? n.mend.value := by
    refine opening?_eq_read? fun c hc => ?_
    rw [value_mend hf, List.head?_append_of_ne_nil _ (framedText_ne_nil hid)] at hc
    exact (trimmed_framedText hid).1 c hc
  refine ⟨free_label_of_read? h hf, ?_⟩
  rw [hopening]
  constructor
  · intro hread
    exact free_label_of_read? hread rfl
  · intro hfree
    have := read?_mended (s := f.shape) hid (fun c hc => (Label.mem_mend hid hc).1) hfree []
    rwa [List.append_nil, ← value_mend hf] at this

theorem opening?_mend_unclosed :
    let n : Reference := ⟨['A'], some ⟨.circle, "a *b* [\"c\" ".toList, false⟩⟩
    opening? "\tA((a *b* [\"c\" --> D".toList = some (n, "--> D".toList) ∧
      opening? n.mend.value = some (⟨['A'], some ⟨.circle, "a b c".toList, true⟩⟩, []) := by
  intro n
  have hread : opening? "\tA((a *b* [\"c\" --> D".toList = some (n, "--> D".toList) := by
    decide +kernel
  have hlabel : (Label.mend ['A'] "a *b* [\"c\" ".toList).value = "a b c".toList := by
    decide +kernel
  refine ⟨hread, ?_⟩
  rw [← hlabel]
  exact (opening?_mend hread rfl).2.2 (by decide +kernel)

/-- Without the asterisk, the dashes of the label are a connector, and the node ends there. -/
theorem opening?_mend_cut :
    let n : Reference := ⟨['A'], some ⟨.rectangle, "a -*-- b".toList, true⟩⟩
    opening? "A[a -*-- b]".toList = some (n, []) ∧ n.mend.value = "A[a --- b]".toList ∧
      opening? n.mend.value =
        some (⟨['A'], some ⟨.rectangle, "a ".toList, false⟩⟩, "--- b]".toList) ∧
      opening? n.mend.value ≠
        some (⟨['A'], some ⟨.rectangle, (Label.mend ['A'] "a -*-- b".toList).value, true⟩⟩,
          []) := by
  decide +kernel

/-- Mending the node that a text opens with keeps the marks of the text. -/
theorem marks_mendOpening {t : Text} (ht : Trimmed t) (hfree : Connector.Free t)
    (hmended : Connector.Free (mendOpening t).value) : marks (mendOpening t).value = marks t := by
  rcases exists_mendOpening ht with h | ⟨n, f, rest, label, hf, hread, hvalue, hlabel⟩
  · rw [h]
  · have hid := isId_of_read? hread
    rw [hvalue] at hmended ⊢
    have hread' := read?_mended (s := f.shape) hid (fun c hc => (hlabel c hc).1)
      (hmended.within ⟨framedText n.id f.shape, f.shape.closer ++ rest, by simp⟩) rest
    have hcons : ∀ {u : Text} {m : Reference}, Connector.Free u → read? u = some (m, rest) →
        marks u = m.mark :: marks rest := by
      intro u m hu hread
      cases u with
      | nil => cases hread
      | cons c u =>
        rw [marks, references_of_read? (hu.token?_suffix (List.suffix_refl _)) hread]
        rfl
    rw [hcons hmended hread', hcons hfree hread]
    simp [mark, bare, hf]

/-- A framed node opens a line, if what follows its label ends the line. -/
theorem isLine_framedText {id label : Text} {s : Shape} (rest : Text) (hid : IsId id)
    (hlabel : ∀ c ∈ label, isBreak c = false) (hrest : ∀ c ∈ rest, isBreak c = false)
    (hlast : ∀ c ∈ rest.getLast?, isBlank c = false) :
    IsLine (framedText id s ++ (label ++ s.closer ++ rest)) := by
  have hbrackets : (∀ c ∈ s.opener, isBreak c = false) ∧ (∀ c ∈ s.closer, isBreak c = false) ∧
      ∀ c ∈ s.closer.getLast?, isBlank c = false := by
    cases s <;> decide
  refine ⟨by simp [framedText_ne_nil hid], ⟨fun c hc => ?_, fun c hc => ?_⟩, fun c hc => ?_⟩
  · rw [List.head?_append_of_ne_nil _ (framedText_ne_nil hid)] at hc
    exact (trimmed_framedText hid).1 c hc
  · by_cases hnil : rest = []
    · rw [hnil, List.append_nil, ← List.append_assoc,
        List.getLast?_append_of_ne_nil _ (by cases s <;> simp [Shape.closer])] at hc
      exact hbrackets.2.2 c hc
    · rw [← List.append_assoc, List.getLast?_append_of_ne_nil _ hnil] at hc
      exact hlast c hc
  · simp only [framedText, List.mem_append] at hc
    rcases hc with (hc | hc) | (hc | hc) | hc
    · exact isBreak_of_isIdChar (hid.isIdChar c hc)
    · exact hbrackets.1 c hc
    · exact hlabel c hc
    · exact hbrackets.2.1 c hc
    · exact hrest c hc

/-- A mended node is a line, if there is no break in the node. -/
theorem isLine_mend {n : Reference} {f : Frame} (hid : IsId n.id) (hf : n.frame = some f)
    (hbreak : ∀ c ∈ n.text, isBreak c = false) : IsLine n.mend.value := by
  have hlabel : ∀ c ∈ (Label.mend n.id f.label).value, isBreak c = false := by
    intro c hc
    by_contra hc'
    refine hc' (hbreak c ?_)
    rw [Reference.text, hf]
    simp only [Frame.text, List.mem_append]
    exact .inr (.inl (.inr ((Label.mem_mend hid hc).2 (by simpa using hc'))))
  have := isLine_framedText (s := f.shape) [] hid hlabel (by simp) (by simp)
  rwa [List.append_nil, ← value_mend hf] at this

/-- A mended line is a line. -/
theorem isLine_mendOpening {t : Text} (ht : IsLine t) : IsLine (mendOpening t).value := by
  rcases exists_mendOpening ht.trimmed with h | ⟨n, f, rest, label, hf, hread, hvalue, hlabel⟩
  · rw [h]
    exact ht
  · have htext := text_of_read? hread hf
    have hbreak : ∀ c, c ∈ f.label ∨ c ∈ rest → isBreak c = false := by
      intro c hc
      refine ht.not_break c ?_
      rw [htext]
      simp only [List.mem_append]
      tauto
    rw [hvalue]
    refine isLine_framedText rest (isId_of_read? hread) (fun c hc => ?_)
      (fun c hc => hbreak c (.inr hc)) fun c hc => ?_
    · by_contra hc'
      exact hc' (hbreak c (.inl ((hlabel c hc).2 (by simpa using hc'))))
    · refine ht.trimmed.2 c ?_
      have hne : rest ≠ [] := by
        rintro rfl
        cases hc
      rwa [htext, ← List.append_assoc, List.getLast?_append_of_ne_nil _ hne]

/-- Mending the node that a text opens with does not make it a comment or a directive, nor the other
way round. -/
theorem line_mendOpening {t : Text} (ht : Trimmed t) :
    isComment (mendOpening t).value = isComment t ∧
      isDirective (mendOpening t).value = isDirective t := by
  rcases exists_mendOpening ht with h | ⟨n, f, rest, label, hf, hread, hvalue, -⟩
  · rw [h]
    exact ⟨rfl, rfl⟩
  · have hid := isId_of_read? hread
    have hline := line_framedText (s := f.shape) hid
    rw [hvalue, (hline _).1, (hline _).2.1, text_of_read? hread hf, (hline _).1, (hline _).2.1]
    exact ⟨rfl, rfl⟩

/-- Nor does it change the marks behind a header: a text that opens with a framed node has none. -/
theorem marks_skip_mendOpening {t : Text} (ht : Trimmed t) (hfree : Connector.Free t)
    (hmended : Connector.Free (mendOpening t).value) :
    marks (Header.skip (mendOpening t).value) = marks (Header.skip t) := by
  rcases exists_mendOpening ht with h | ⟨n, f, rest, label, hf, hread, hvalue, -⟩
  · rw [h]
  · have hid := isId_of_read? hread
    have hskip : Header.skip t = t := by
      rw [text_of_read? hread hf, (line_framedText hid _).2.2]
    have hskip' : Header.skip (mendOpening t).value = (mendOpening t).value := by
      rw [hvalue, (line_framedText hid _).2.2]
    rw [hskip, hskip']
    exact marks_mendOpening ht hfree hmended

end Reference

/-! ## Lines without connectors -/

/-- What stands on a line without connectors stays, if cleaning the label of the node that the line
opens with brings out none. -/
theorem on_mendOpening {t : Text} (ht : IsLine t) (hdirective : isDirective t = false)
    (hfree : Connector.Free t) (hmended : Connector.Free (Reference.mendOpening t).value)
    {item : Item} (hon : item.On t) : item.On (Reference.mendOpening t).value := by
  have hmarks := Reference.marks_mendOpening ht.trimmed hfree hmended
  rcases Reference.exists_mendOpening ht.trimmed with
    h | ⟨n, f, rest, label, hf, hread, hvalue, -⟩
  · rwa [h]
  · have hid := Reference.isId_of_read? hread
    have htext := Reference.text_of_read? hread hf
    have hword : isDirective n.id = false := by
      rw [← (line_framedText (s := f.shape) hid _).2.1, ← htext]
      exact hdirective
    have hids : mentions t = framedNodes t ∧ joins t = [] := by
      rw [htext] at hfree ⊢
      exact mentions_framedText hid hword hfree
    have hids' : mentions (Reference.mendOpening t).value =
        framedNodes (Reference.mendOpening t).value := by
      rw [hvalue] at hmended ⊢
      exact (mentions_framedText hid hword hmended).1
    cases item with
    | node id =>
      rw [Item.On, hids.1, ids_framedNodes, ← hmarks] at hon
      rwa [Item.On, hids', ids_framedNodes]
    | arc a =>
      rw [Item.On, hids.2] at hon
      cases hon

end Flowmend
