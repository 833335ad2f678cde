import Flowmend.Proofs.Statement.Connector
import Flowmend.Proofs.Text.Word
import Flowmend.Statement.Chain

/-!
# Equations for chains and fan-outs

The chain of a line, by the first connector of the line (`Chain.ofText_of_free`,
`Chain.ofText_of_find?`), and the cut of a side at its ampersands, by what the brackets before an
ampersand add up to (`FanOut.Skips`).
-/

namespace Flowmend

open Text

namespace Chain

theorem ofText_of_free {t : Text} (h : Connector.Free t) : ofText t = ⟨t, []⟩ := by
  rw [ofText]
  split
  · rfl
  · rename_i f hf
    rw [show Connector.find? t = none from h] at hf
    cases hf

theorem ofText_of_find? {t : Text} {f : Connector.Found} (h : Connector.find? t = some f) :
    ofText t = ⟨f.before, ⟨⟨f.token, (readTail f.rest).label⟩, (readTail f.rest).gap,
      (ofText (readTail f.rest).rest).first⟩ :: (ofText (readTail f.rest).rest).links⟩ := by
  conv => lhs; rw [ofText]
  split
  · rename_i hn
    rw [h] at hn
    cases hn
  · rename_i g hg
    rw [h] at hg
    cases hg
    rfl

/-- A text has no connector exactly if its chain has no links. -/
theorem links_ofText_eq_nil {t : Text} : (ofText t).links = [] ↔ Connector.Free t := by
  constructor
  · intro h
    by_contra hf
    obtain ⟨f, hf⟩ := Option.ne_none_iff_exists'.1 hf
    rw [ofText_of_find? hf] at h
    cases h
  · intro h
    rw [ofText_of_free h]

/-- The sides of a chain hold no connectors. -/
theorem free_first_ofText (t : Text) : Connector.Free (ofText t).first := by
  cases h : Connector.find? t with
  | none => rwa [ofText_of_free h]
  | some f =>
    rw [ofText_of_find? h]
    exact Connector.free_before h

theorem of_mem_links_ofText {t : Text} {l : Link} (h : l ∈ (ofText t).links) :
    Connector.IsToken l.connector.token ∧ Connector.Free l.side := by
  fun_induction ofText t with
  | case1 => cases h
  | case2 t f hf after ih =>
    rcases List.mem_cons.1 h with rfl | h
    · exact ⟨Connector.isToken_of_token? (Connector.token?_before hf).1, free_first_ofText _⟩
    · exact ih h

theorem gap_of_mem_links {t : Text} {l : Link} (h : l ∈ (ofText t).links) :
    ∃ u, l.gap = (readTail u).gap ∧ l.connector.label = (readTail u).label := by
  fun_induction ofText t with
  | case1 => cases h
  | case2 t f hf after ih =>
    rcases List.mem_cons.1 h with rfl | h
    · exact ⟨f.rest, rfl, rfl⟩
    · exact ih h

theorem infix_first (t : Text) : (ofText t).first <:+: t := by
  conv => rhs; rw [← text_ofText t]
  exact (List.prefix_append _ _).isInfix

theorem infix_side {t : Text} {l : Link} (h : l ∈ (ofText t).links) : l.side <:+: t := by
  conv => rhs; rw [← text_ofText t]
  obtain ⟨u, v, huv⟩ := List.append_of_mem h
  refine ⟨(ofText t).first ++ u.flatMap linkText ++ l.connector.token ++ l.gap,
    v.flatMap linkText, ?_⟩
  rw [text, huv]
  simp [linkText]

/-- A label between bars belongs to the connector before it, with spaces and tabs between them. -/
theorem readTail_pads_pipe {pads label : Text} (hpads : ∀ c ∈ pads, isPad c = true)
    (h : ∀ c ∈ label, c ≠ '|' ∧ c ≠ '\n') (u : Text) :
    readTail (pads ++ '|' :: (label ++ '|' :: u)) =
      ⟨some label, pads ++ '|' :: label ++ ['|'], u⟩ := by
  have hall : ∀ c ∈ label, (c != '|' && c != '\n') = true := by
    intro c hc
    simpa using h c hc
  have hp : Connector.pipe? ('|' :: (label ++ '|' :: u)) = some (label, u) := by
    rw [Connector.pipe?, List.dropWhile_append_of_pos hall, List.takeWhile_append_of_pos hall]
    simp
  have hbar : isPad '|' = false := by decide
  rw [readTail, List.dropWhile_append_of_pos hpads, dropWhile_of_head isPad _ hbar, hp,
    List.takeWhile_append_of_pos hpads, List.takeWhile_cons_of_neg (by simp [hbar]),
    List.append_nil]

theorem readTail_pipe {label : Text} (h : ∀ c ∈ label, c ≠ '|' ∧ c ≠ '\n') (u : Text) :
    readTail ('|' :: (label ++ '|' :: u)) = ⟨some label, '|' :: (label ++ ['|']), u⟩ :=
  readTail_pads_pipe (List.forall_mem_nil _) h u

/-- Without a bar after spaces and tabs, there is no label. -/
theorem readTail_of_no_pipe {t : Text} (h : '|' ∉ (t.dropWhile isPad).head?) :
    readTail t = ⟨none, [], t⟩ := by
  have hp : Connector.pipe? (t.dropWhile isPad) = none := by
    cases hd : t.dropWhile isPad with
    | nil => rfl
    | cons c u =>
      rw [hd] at h
      have hc : c ≠ '|' := by rintro rfl; exact h rfl
      unfold Connector.pipe?
      split
      · rename_i he; cases he; exact absurd rfl hc
      · rfl
  rw [readTail, hp]

theorem readTail_of_notMem {t : Text} (h : '|' ∉ t) : readTail t = ⟨none, [], t⟩ :=
  readTail_of_no_pipe fun hbar =>
    h ((List.dropWhile_suffix isPad).subset (List.mem_of_mem_head? hbar))

/-- The label between a connector and its side ends with a bar. -/
theorem getLast?_gap {t : Text} : ∀ c ∈ (readTail t).gap.getLast?, c = '|' := by
  intro c hc
  unfold readTail at hc
  split at hc
  · rw [List.getLast?_concat] at hc
    exact (Option.some.inj hc).symm
  · cases hc

end Chain

namespace FanOut

/-- From depth `depth` on the text has no ampersand that cuts, and it ends at depth `depth'`. -/
def Skips (depth : Nat) (t : Text) (depth' : Nat) : Prop :=
  ∀ u, cut depth (t ++ u) = (t ++ (cut depth' u).1, (cut depth' u).2)

theorem skips_nil (depth : Nat) : Skips depth [] depth := fun _ => rfl

theorem Skips.append {d d' d'' : Nat} {t t' : Text} (h : Skips d t d') (h' : Skips d' t' d'') :
    Skips d (t ++ t') d'' := by
  intro u
  rw [List.append_assoc, h, h', List.append_assoc]

theorem skips_singleton {d : Nat} {c : Char} (h : ¬(c = '&' ∧ d = 0)) :
    Skips d [c] (depthAfter d c) := by
  intro u
  rw [List.singleton_append, cut, if_neg h]
  rfl

/-- The parts of a text between the ampersands that cut it, untrimmed. -/
def parts (t : Text) : List Text := (cut 0 t).1 :: (cut 0 t).2

theorem parts_of_skips {d : Nat} {t : Text} (h : Skips 0 t d) : parts t = [t] := by
  have := h []
  rw [List.append_nil] at this
  simp [parts, this, cut]

theorem parts_append_ampersand {t : Text} (h : Skips 0 t 0) (u : Text) :
    parts (t ++ '&' :: u) = t :: parts u := by
  simp [parts, h ('&' :: u), cut]

/-- Each ampersand that cuts stands between two parts. -/
theorem cut_append (depth : Nat) (t : Text) :
    (cut depth t).1 ++ (cut depth t).2.flatMap ('&' :: ·) = t := by
  induction t generalizing depth with
  | nil => rfl
  | cons c t ih =>
    unfold cut
    split
    · rename_i h
      have := ih 0
      simpa [h.1] using this
    · have := ih (depthAfter depth c)
      simpa using this

/-- The parts of a text stand between ampersands or the ends of the text. -/
theorem exists_surround_of_mem_parts {t p : Text} (h : p ∈ parts t) : ∃ u v, u ++ p ++ v = t ∧
    (∀ c ∈ u.getLast?, c = '&') ∧ ∀ c ∈ v.head?, c = '&' := by
  have happend := cut_append 0 t
  have hhead : ∀ ps : List Text, ∀ c ∈ (ps.flatMap ('&' :: ·)).head?, c = '&' := by
    rintro (_ | ⟨p, ps⟩) c hc
    · cases hc
    · exact (Option.some.inj hc).symm
  rcases List.mem_cons.1 h with rfl | h
  · exact ⟨[], _, happend, by simp, hhead _⟩
  · obtain ⟨u, v, huv⟩ := List.append_of_mem h
    rw [huv] at happend
    refine ⟨(cut 0 t).1 ++ u.flatMap ('&' :: ·) ++ ['&'], v.flatMap ('&' :: ·), ?_, ?_, hhead v⟩
    · simpa using happend
    · intro c hc
      rw [List.getLast?_concat] at hc
      exact (Option.some.inj hc).symm

/-- The parts of a text are stretches of it. -/
theorem isInfix_of_mem_parts {t p : Text} (h : p ∈ parts t) : p <:+: t := by
  obtain ⟨u, v, huv, -, -⟩ := exists_surround_of_mem_parts h
  exact ⟨u, v, huv⟩

end FanOut

theorem fanOut_eq (side : Text) :
    fanOut side = ((FanOut.parts side).map trim).filter fun p => !p.isEmpty := rfl

/-- The nodes of a side are trimmed stretches of it that are not empty. -/
theorem of_mem_fanOut {side p : Text} (h : p ∈ fanOut side) :
    p ≠ [] ∧ Trimmed p ∧ p <:+: side := by
  rw [fanOut_eq] at h
  obtain ⟨hmem, hne⟩ := List.mem_filter.1 h
  obtain ⟨q, hq, rfl⟩ := List.mem_map.1 hmem
  exact ⟨by simpa using hne, trimmed_trim q, (infix_trim q).trans (FanOut.isInfix_of_mem_parts hq)⟩

end Flowmend
