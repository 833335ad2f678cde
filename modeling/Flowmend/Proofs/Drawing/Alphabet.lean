import Flowmend.Proofs.Drawing.Marks
import Flowmend.Proofs.Drawing.Plan
import Mathlib.Data.List.DropRight

/-!
# The characters of drawings

A drawing consists of line characters, arrowheads, blanks and line feeds, and of the characters of
the labels of its nodes (`draw_chars`).
-/

namespace Flowmend

open Text

/-- The characters that a mark can leave in a cell, but for those of labels. -/
def Charset.alphabet (cs : Charset) : List Char :=
  let g := cs.glyphs
  [' ', g.topLeft, g.topRight, g.bottomLeft, g.bottomRight, g.horizontal, g.vertical, g.teeRight,
    g.teeLeft, g.teeDown, g.teeUp, g.cross, g.arrowLeft, g.arrowDown, g.arrowUp,
    cs.upright .dotted, cs.upright .thick]

theorem Arms.toChar_mem_alphabet (cs : Charset) (a : Arms) : a.toChar cs ∈ cs.alphabet := by
  obtain ⟨up, down, left, right⟩ := a
  cases cs <;> revert up down left right <;> decide

theorem Charset.upright_mem_alphabet (cs : Charset) (s : Stroke) : cs.upright s ∈ cs.alphabet := by
  cases cs <;> cases s <;> decide

namespace Mark

/-- The character that a mark is made with. -/
def char? : Mark → Option Char
  | put _ _ c | stroke _ _ c => some c
  | addArms _ _ _ => none

theorem ink_mem_or (cs : Charset) (old : Char) (m : Mark) :
    m.ink cs old ∈ m.char? ∨ m.ink cs old ∈ cs.alphabet := by
  cases m with
  | put col row c => exact .inl rfl
  | stroke col row c =>
    rw [ink]
    split
    · exact .inr (Arms.toChar_mem_alphabet cs _)
    · exact .inl rfl
  | addArms col row arms => exact .inr (Arms.toChar_mem_alphabet cs _)

end Mark

/-! ## Texts of canvases -/

theorem Text.of_mem_join {gap : Text} {ts : List Text} {c : Char} (h : c ∈ join gap ts) :
    c ∈ gap ∨ ∃ t ∈ ts, c ∈ t := by
  induction ts with
  | nil => cases h
  | cons t ts ih =>
    cases ts with
    | nil => exact .inr ⟨t, List.mem_singleton_self t, h⟩
    | cons u ts =>
      rcases List.mem_append.1 h with h | h
      · exact (List.mem_append.1 h).symm.imp_right fun h => ⟨t, List.mem_cons_self, h⟩
      · exact (ih h).imp_right fun ⟨v, hv, h⟩ => ⟨v, List.mem_cons_of_mem t hv, h⟩

theorem Text.mem_of_mem_dropEndWhile {p : Char → Bool} {t : Text} {c : Char}
    (h : c ∈ dropEndWhile p t) : c ∈ t := (List.rdropWhile_prefix p t).subset h

theorem Canvas.of_mem_text {cv : Canvas} {c : Char} (h : c ∈ cv.text) :
    c = '\n' ∨ ∃ t ∈ cv.rows, c ∈ t := by
  rcases List.mem_append.1 h with h | h
  · rcases of_mem_join (mem_of_mem_dropEndWhile h) with h | ⟨t, ht, hc⟩
    · exact .inl (List.mem_singleton.1 h)
    · obtain ⟨row, hrow, rfl⟩ := List.mem_map.1 ht
      exact .inr ⟨row, hrow, mem_of_mem_dropEndWhile hc⟩
  · exact .inl (List.mem_singleton.1 h)

/-! ## Drawings -/

namespace Drawing.Plan

open Mark

variable {cs : Charset} {p : Plan} {c : Char}

/-- The marks of a plan are made with the characters of the alphabet and of labels. -/
theorem of_mem_char? {width : Int} {m : Mark} (h : m ∈ p.marks cs width) (hc : c ∈ m.char?) :
    c ∈ cs.alphabet ∨ ∃ label ∈ p.labels, c ∈ label := by
  rw [marks_eq] at h
  rcases List.mem_append.1 h with h | h
  · obtain ⟨d, hd, hput, -⟩ := of_mem_boxes h
    rw [hput] at hc
    obtain rfl := Option.some.inj hc
    refine hd.imp_left fun hd => ?_
    have hborder : cs.glyphs.border ⊆ cs.alphabet := by
      cases cs <;> decide
    exact hborder hd
  left
  rcases List.mem_append.1 h with h | h
  · rcases mem_lines.1 h with ⟨w, -, h⟩ | ⟨k, w, -, h⟩
    · rcases mem_straightMarks.1 h with rfl | ⟨row, -, -, rfl⟩
      · cases hc
      · obtain rfl := Option.some.inj hc
        exact cs.upright_mem_alphabet _
    · rcases (mem_laneMarks (width_lt_laneCol width k)).1 h with rfl | ⟨row, -, col, -, -, rfl⟩ |
          ⟨row, -, -, rfl⟩ | rfl | rfl <;> cases hc <;> simp [Charset.alphabet]
  · rcases of_mem_heads h with ⟨hput | hput, -⟩ | ⟨hput, -⟩ <;> rw [hput] at hc <;> cases hc <;>
      simp [Charset.alphabet]

/-- So a cell of the canvas holds a character of the alphabet or of a label. -/
theorem of_cell?_canvas {padding col row : Int} (h : (p.canvas cs padding).cell? col row = some c) :
    c ∈ cs.alphabet ∨ ∃ label ∈ p.labels, c ∈ label := by
  rw [cell?_canvas] at h
  split at h
  · rw [← Option.some.inj h]
    refine inks_induction (P := fun c => c ∈ cs.alphabet ∨ ∃ label ∈ p.labels, c ∈ label)
      (.inl List.mem_cons_self) fun m hm old _ => ?_
    rcases ink_mem_or cs old m with hchar | halphabet
    · exact of_mem_char? (List.mem_of_mem_filter hm) hchar
    · exact .inl halphabet
  · cases h

theorem of_mem_text_canvas {padding : Int} (h : c ∈ (p.canvas cs padding).text) :
    c = '\n' ∨ c ∈ cs.alphabet ∨ ∃ label ∈ p.labels, c ∈ label := by
  refine (Canvas.of_mem_text h).imp_right fun ⟨t, ht, hc⟩ => ?_
  obtain ⟨col, row, hcell⟩ := Canvas.exists_cell?_of_mem_rows ht hc
  exact of_cell?_canvas hcell

end Drawing.Plan

/-- A drawing consists of characters of its alphabet, line feeds and the characters of labels. -/
theorem draw_chars {p : Positioned} (h : p.Placed) {cs : Charset} {padding : Int} {drawing : Text}
    (hdraw : draw cs padding p = .ok drawing) {c : Char} (hc : c ∈ drawing) :
    c = '\n' ∨ c ∈ cs.alphabet ∨ ∃ n ∈ p.graph.nodes, c ∈ n.label := by
  rw [h.draw_eq] at hdraw
  cases hdraw
  split at hc
  · cases hc
  · exact (Drawing.Plan.of_mem_text_canvas hc).imp_right fun hc => hc.imp_right
      fun ⟨_, hlabel, hc⟩ => Positioned.of_mem_labels_plan hlabel hc

end Flowmend
