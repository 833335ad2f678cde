import Flowmend.Label
import Flowmend.Proofs.Drawing.Marks
import Flowmend.Proofs.Drawing.Plan

/-!
# Drawings in plain ASCII

A drawing in plain ASCII is the Unicode drawing with each character replaced (`draw_ascii`). Plain
ASCII has one character for all bends and branches and one for all upright strokes, so lines join
differently in it: a mark keeps the two drawings alike only in a cell without dotted and thick
strokes (`Mark.ink_toAscii`), or in one that has nothing but upright strokes
(`Mark.ink_upright_toAscii`).
-/

namespace Flowmend

open Text

/-- The ASCII character in place of a character of a Unicode drawing. -/
def inAscii : Char → Char
  | '┌' | '┐' | '└' | '┘' | '├' | '┤' | '┬' | '┴' | '┼' => '+'
  | '─' => '-'
  | '│' | '╎' | '║' => '|'
  | '◄' => '<'
  | '▼' => 'v'
  | '▲' => '^'
  | c => c

theorem inAscii_of_isPlain {c : Char} (h : Label.isPlain c = true) : inAscii c = c := by
  unfold inAscii
  split
  case h_17 => rfl
  all_goals exact absurd h (by decide)

theorem isBlank_inAscii (c : Char) : isBlank (inAscii c) = isBlank c := by
  unfold inAscii
  split <;> rfl

theorem inAscii_eq_lineFeed (c : Char) : (inAscii c == '\n') = (c == '\n') := by
  unfold inAscii
  split <;> rfl

theorem inAscii_upright (s : Stroke) :
    inAscii (Charset.unicode.upright s) = Charset.ascii.upright s := by
  cases s <;> rfl

/-! ## Arms -/

namespace Arms

/-- The arms of the ASCII character in place of the character for some arms: a straight line has its
own, and all else has all four. -/
def flat (a : Arms) : Arms :=
  if (a.up || a.down) && (a.left || a.right) then ⟨true, true, true, true⟩ else a

/-- The strokes that are no line characters. -/
def IsBroken (c : Char) : Prop := c = '╎' ∨ c = '║'

instance (c : Char) : Decidable (IsBroken c) := inferInstanceAs (Decidable (_ ∨ _))

theorem ofChar?_inAscii {c : Char} (h : ¬IsBroken c) :
    ofChar? (inAscii c) = (ofChar? c).map flat := by
  unfold inAscii
  split
  case h_17 =>
    unfold ofChar?
    split <;> first | rfl | contradiction
  all_goals first | rfl | exact absurd (by decide) h

theorem not_isBroken_toChar (a : Arms) : ¬IsBroken (a.toChar .unicode) := by
  obtain ⟨up, down, left, right⟩ := a
  cases up <;> cases down <;> cases left <;> cases right <;> decide

theorem toChar_flat_merge (a b : Arms) :
    (a.flat.merge b).toChar .ascii = inAscii ((a.merge b).toChar .unicode) := by
  obtain ⟨u, d, l, r⟩ := a
  obtain ⟨u', d', l', r'⟩ := b
  revert u d l r u' d' l' r'
  decide

theorem toChar_flat_merge_flat (a b : Arms) :
    (a.flat.merge b.flat).toChar .ascii = inAscii ((a.merge b).toChar .unicode) := by
  obtain ⟨u, d, l, r⟩ := a
  obtain ⟨u', d', l', r'⟩ := b
  revert u d l r u' d' l' r'
  decide

end Arms

namespace Mark

/-! ## Marks -/

/-- The mark of the ASCII drawing in place of a mark of a Unicode drawing. -/
def toAscii : Mark → Mark
  | put col row c => put col row (inAscii c)
  | stroke col row c => stroke col row (inAscii c)
  | addArms col row arms => addArms col row arms

/-- The mark is made with a stroke that is no line character. -/
def IsBroken : Mark → Prop
  | put _ _ c | stroke _ _ c => Arms.IsBroken c
  | addArms _ _ _ => False

theorem hits_toAscii (col row : Int) (m : Mark) :
    m.toAscii.hits col row = m.hits col row := by
  cases m <;> rfl

variable {m : Mark} {old : Char}

/-- After a mark that is not broken, neither is the cell. -/
theorem not_isBroken_ink (hm : ¬m.IsBroken) :
    ¬Arms.IsBroken (m.ink .unicode old) := by
  cases m with
  | put col row c => exact hm
  | stroke col row c =>
    rw [ink]
    split
    · exact Arms.not_isBroken_toChar _
    · exact hm
  | addArms col row arms => exact Arms.not_isBroken_toChar _

/-- Line characters join in plain ASCII as in Unicode. -/
theorem ink_toAscii (hold : ¬Arms.IsBroken old) (hm : ¬m.IsBroken) :
    m.toAscii.ink .ascii (inAscii old) = inAscii (m.ink .unicode old) := by
  cases m with
  | put col row c => rfl
  | stroke col row c =>
    rw [toAscii, ink, ink, Arms.ofChar?_inAscii hold, Arms.ofChar?_inAscii hm]
    cases Arms.ofChar? old with
    | none => rfl
    | some a =>
      cases Arms.ofChar? c with
      | none => rfl
      | some b => exact Arms.toChar_flat_merge_flat a b
  | addArms col row arms =>
    rw [toAscii, ink, ink, Arms.ofChar?_inAscii hold]
    cases Arms.ofChar? old with
    | none => exact Arms.toChar_flat_merge {} arms
    | some a => exact Arms.toChar_flat_merge a arms

/-- A stroke of a shaft gives way to another one in both charsets, for other reasons: in plain ASCII
the two join to the same character. -/
theorem ink_upright_toAscii (hold : old = ' ' ∨ old ∈ Drawing.shaft) (s : Stroke) (col row : Int) :
    (stroke col row (Charset.ascii.upright s)).ink .ascii (inAscii old) =
      inAscii ((stroke col row (Charset.unicode.upright s)).ink .unicode old) := by
  simp only [ink]
  rcases hold with rfl | h
  · cases s <;> decide
  · rcases Drawing.eq_of_mem_shaft h with rfl | rfl | rfl | rfl | rfl <;> cases s <;> decide

/-- If each mark keeps the two drawings of a cell alike, they are so at the end. -/
theorem inks_toAscii {P : Char → Prop} {ms : List Mark} (hold : P old)
    (h : ∀ m ∈ ms, ∀ c, P c →
      m.toAscii.ink .ascii (inAscii c) = inAscii (m.ink .unicode c) ∧ P (m.ink .unicode c)) :
    inks .ascii (inAscii old) (ms.map toAscii) = inAscii (inks .unicode old ms) := by
  induction ms generalizing old with
  | nil => rfl
  | cons m ms ih =>
    obtain ⟨heq, hnext⟩ := h m List.mem_cons_self old hold
    rw [List.map_cons, inks_cons, inks_cons, heq]
    exact ih hnext fun n hn => h n (List.mem_cons_of_mem m hn)

theorem filter_hits_toAscii (col row : Int) (ms : List Mark) :
    (ms.map toAscii).filter (hits col row) = (ms.filter (hits col row)).map toAscii := by
  rw [List.filter_map]
  exact congrArg _ (List.filter_congr fun m _ => hits_toAscii col row m)

/-! ## Lists of marks -/

theorem map_toAscii_hline (row x₁ x₂ : Int) (c : Char) :
    (hline row x₁ x₂ c).map toAscii = hline row x₁ x₂ (inAscii c) := by
  simp only [hline, List.map_map]
  rfl

theorem map_toAscii_vline (col y₁ y₂ : Int) (c : Char) :
    (vline col y₁ y₂ c).map toAscii = vline col y₁ y₂ (inAscii c) := by
  simp only [vline, List.map_map]
  rfl

theorem map_toAscii_box (x y width height : Int) :
    (box Charset.unicode.glyphs x y width height).map toAscii =
      box Charset.ascii.glyphs x y width height := by
  unfold box
  split
  · rfl
  · simp only [List.map_append, List.map_flatMap]
    rfl

theorem map_toAscii_write (col row : Int) {t : Text} (ht : ∀ c ∈ t, Label.isPlain c = true) :
    (write col row t).map toAscii = write col row t := by
  induction t generalizing col with
  | nil => rfl
  | cons c t ih =>
    rw [write, List.map_cons, ih _ fun d hd => ht d (List.mem_cons_of_mem c hd), toAscii,
      inAscii_of_isPlain (ht c List.mem_cons_self)]

end Mark

namespace Drawing

open Mark

theorem map_toAscii_straightMarks (width : Int) (w : Wire) :
    (straightMarks .unicode width w).map toAscii = straightMarks .ascii width w := by
  rw [straightMarks, List.map_cons, map_toAscii_vline, inAscii_upright]
  rfl

theorem map_toAscii_straightHeads (width : Int) (w : Wire) :
    (straightHeads Charset.unicode.glyphs width w).map toAscii =
      straightHeads Charset.ascii.glyphs width w := by
  simp only [straightHeads, List.map_append, apply_ite (List.map toAscii)]
  rfl

theorem map_toAscii_laneMarks (width lane : Int) (w : Wire) :
    (laneMarks Charset.unicode.glyphs width lane w).map toAscii =
      laneMarks Charset.ascii.glyphs width lane w := by
  simp only [laneMarks, List.map_append, List.map_cons, map_toAscii_hline, map_toAscii_vline,
    apply_ite (List.map toAscii)]
  rfl

theorem map_toAscii_laneHeads (width : Int) (w : Wire) :
    (laneHeads Charset.unicode.glyphs width w).map toAscii =
      laneHeads Charset.ascii.glyphs width w := by
  simp only [laneHeads, List.map_append, apply_ite (List.map toAscii)]
  rfl

theorem map_toAscii_boxMarks (width : Int) (row : Nat) {label : Text}
    (h : ∀ c ∈ label, Label.isPlain c = true) :
    (boxMarks Charset.unicode.glyphs width row label).map toAscii =
      boxMarks Charset.ascii.glyphs width row label := by
  rw [boxMarks, List.map_append, map_toAscii_box, map_toAscii_write _ _ h]
  rfl

namespace Plan

variable {p : Plan} (hlabels : ∀ label ∈ p.labels, ∀ c ∈ label, Label.isPlain c = true)

include hlabels

theorem map_toAscii_marks (width : Int) :
    (p.marks .unicode width).map toAscii = p.marks .ascii width := by
  have hboxes : (p.boxes Charset.unicode.glyphs width).map toAscii =
      p.boxes Charset.ascii.glyphs width := by
    rw [boxes, List.map_flatMap]
    exact List.flatMap_congr fun x hx =>
      map_toAscii_boxMarks width x.2 (hlabels x.1 (List.fst_mem_of_mem_zipIdx hx))
  rw [marks_eq, marks_eq, List.map_append, List.map_append, hboxes]
  simp only [lines, heads, List.map_append, List.map_flatMap, map_toAscii_straightMarks,
    map_toAscii_straightHeads, map_toAscii_laneMarks, map_toAscii_laneHeads]

/-- Outside of the shafts, all marks are line characters, arrowheads and characters of labels. -/
theorem not_isBroken_of_mem_marks {width : Int} {m : Mark} (h : m ∈ p.marks .unicode width)
    (hout : ¬(m.col = width / 2 ∧ 3 ≤ m.row % 6)) : ¬m.IsBroken := by
  rw [marks_eq] at h
  rcases List.mem_append.1 h with h | h
  · obtain ⟨c, hc, hput, -⟩ := of_mem_boxes h
    rw [hput]
    rcases hc with hc | ⟨label, hlabel, hc⟩
    · have hborder : ∀ c ∈ Charset.unicode.glyphs.border, ¬Arms.IsBroken c := by decide
      exact hborder c hc
    · rintro (rfl | rfl)
      · exact absurd (hlabels label hlabel _ hc) (by decide)
      · exact absurd (hlabels label hlabel _ hc) (by decide)
  rcases List.mem_append.1 h with h | h
  · have harms := isSome_arms?_of_mem_lines h hout
    cases m with
    | put => cases harms
    | addArms => exact id
    | stroke col row c =>
      rintro (rfl | rfl) <;> cases harms
  · rcases of_mem_heads h with ⟨-, hmiddle⟩ | ⟨hput, -⟩
    · exact absurd hmiddle hout
    · rw [hput]
      exact (by decide : ¬Arms.IsBroken '◄')

/-- The cells of the two drawings are alike. -/
theorem cell?_canvas_ascii (padding col row : Int) :
    (p.canvas .ascii padding).cell? col row =
      ((p.canvas .unicode padding).cell? col row).map inAscii := by
  rw [cell?_canvas, cell?_canvas, ← map_toAscii_marks hlabels, filter_hits_toAscii]
  by_cases hcell : p.HasCell padding col row
  swap
  · rw [if_neg hcell, if_neg hcell]
    rfl
  rw [if_pos hcell, if_pos hcell]
  refine congrArg some ?_
  by_cases hin : col = boxWidth padding p.labels / 2 ∧ 3 ≤ row % 6
  · have hwidth : 0 ≤ boxWidth padding p.labels := by
      have := hcell.1
      omega
    refine inks_toAscii (P := fun c => c = ' ' ∨ c ∈ shaft) (.inl rfl) fun m hm c hc => ?_
    obtain ⟨hmem, rfl, rfl⟩ := mem_filter_hits.1 hm
    refine ⟨?_, .inr (ink_mem_shaft hmem hwidth hin.1 hin.2 hc)⟩
    rcases of_mem_marks_middle hmem hwidth hin.1 hin.2 with ⟨s, hs⟩ | hs | hs
    · rw [hs, toAscii, inAscii_upright]
      exact ink_upright_toAscii hc s _ _
    · rw [hs]
      rfl
    · rw [hs]
      rfl
  · refine inks_toAscii (P := fun c => ¬Arms.IsBroken c) (by decide : ¬Arms.IsBroken ' ')
      fun m hm c hc => ?_
    obtain ⟨hmem, rfl, rfl⟩ := mem_filter_hits.1 hm
    have hbroken := not_isBroken_of_mem_marks hlabels hmem hin
    exact ⟨ink_toAscii hc hbroken, not_isBroken_ink hbroken⟩

theorem rows_canvas_ascii (padding : Int) :
    (p.canvas .ascii padding).rows = (p.canvas .unicode padding).rows.map (List.map inAscii) := by
  refine Canvas.rows_eq_map ?_ (cell?_canvas_ascii hlabels padding)
  rw [canvas, canvas, Canvas.size_paint, Canvas.size_paint]
  rfl

theorem text_canvas_ascii (padding : Int) :
    (p.canvas .ascii padding).text = (p.canvas .unicode padding).text.map inAscii :=
  Canvas.text_eq_map isBlank_inAscii inAscii_eq_lineFeed (rows_canvas_ascii hlabels padding)

end Plan

end Drawing

/-- For a graph whose nodes have positions and labels of printable ASCII, and any padding, the
drawing in plain ASCII is the Unicode drawing with its characters replaced one by one. -/
theorem draw_ascii {p : Positioned} (h : p.Placed)
    (hlabels : ∀ n ∈ p.graph.nodes, ∀ c ∈ n.label, Label.isPlain c = true) (padding : Int) :
    ∃ drawing, draw .unicode padding p = .ok drawing ∧
      draw .ascii padding p = .ok (drawing.map inAscii) := by
  refine ⟨_, h.draw_eq .unicode padding, ?_⟩
  rw [h.draw_eq .ascii padding]
  split
  · rfl
  · rw [Drawing.Plan.text_canvas_ascii fun label hlabel => ?_]
    intro c hc
    obtain ⟨n, hn, hc⟩ := Positioned.of_mem_labels_plan hlabel hc
    exact hlabels n hn c hc

theorem draw_ascii_knot :
    knot.Placed ∧ (∀ n ∈ knot.graph.nodes, ∀ c ∈ n.label, Label.isPlain c = true) ∧
      ∃ drawing, draw .unicode (-1) knot = .ok drawing ∧
        draw .ascii (-1) knot = .ok (drawing.map inAscii) :=
  ⟨placed_knot, by decide, draw_ascii placed_knot (by decide) (-1)⟩

end Flowmend
