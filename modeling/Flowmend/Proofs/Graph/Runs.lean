import Flowmend.Proofs.Graph.Side
import Flowmend.Proofs.Header
import Flowmend.Proofs.Statement.Lexeme
import Flowmend.Proofs.Text.Runs

/-!
# The ids that a line mentions

A line is cut into sides, parts and lexemes where no id goes on, so what a line mentions are runs of
id characters, whole as they stand there (`isRun_of_mem_mentions`).
-/

namespace Flowmend

open Text

/-! ## Lexemes -/

namespace Reference

variable {t rest : Text} {n : Reference}

theorem isRun_of_read? (h : read? t = some (n, rest)) : IsRun n.id t := by
  have hne := (isId_of_read? h).ne_nil
  rw [id_of_read? h] at hne ⊢
  exact .leadingId hne

/-- A reference ends where no id goes on. -/
theorem apart_read? (h : read? t = some (n, rest)) : Apart n.text rest := by
  cases hf : n.frame with
  | none =>
    -- The id takes in all id characters.
    refine .of_head fun c hc => ?_
    have hid := id_of_read? h
    have htext := (eq_append_of_read? h).1
    rw [text, hf, List.append_nil, hid] at htext
    have hrest : rest = afterId t :=
      List.append_cancel_left (htext.symm.trans (leadingId_append_afterId t).symm)
    rw [hrest] at hc
    exact of_head?_dropWhile t c hc
  | some f =>
    cases hclosed : f.closed with
    | true =>
      obtain ⟨k, ks, hk, -⟩ := f.shape.closer_eq_cons
      have hcloser : ∀ c ∈ f.shape.closer, isIdChar c = false := by
        cases f.shape <;> decide
      refine .of_last fun c hc => hcloser c ?_
      rw [text, hf, List.getLast?_append_of_ne_nil _ (by simp [Frame.text, hclosed, hk])] at hc
      simp only [Frame.text, hclosed, if_true] at hc
      rw [List.getLast?_append_of_ne_nil _ (by simp [hk])] at hc
      exact List.mem_of_getLast? hc
    | false =>
      refine .of_head fun c hc => not_id_of_isStroke ?_
      rcases rest_of_not_closed h hf hclosed with rfl | htoken
      · cases hc
      · obtain ⟨u, rfl⟩ := List.head?_eq_some_iff.1 hc
        by_contra hstroke
        rw [Connector.token?_cons_of_not_stroke u (by simpa using hstroke)] at htoken
        cases htoken

end Reference

/-- A lexeme ends where no id goes on. -/
theorem Lexeme.apart_read (c : Char) (t : Text) : Apart (read c t).1.text (read c t).2 := by
  unfold read
  split
  · rename_i htoken
    exact .of_last fun d hd => not_id_of_isStroke
      ((Connector.isToken_of_token? htoken).isStroke d (List.mem_of_getLast? hd))
  split
  · rename_i hread
    exact Reference.apart_read? hread
  split
  · refine .of_last fun d hd => ?_
    rw [text, List.getLast?_concat] at hd
    cases hd
    rfl
  · rename_i hread _ _
    refine .of_last ?_
    rintro d ⟨⟩
    by_contra hid
    have := Reference.isSome_read? (by simpa using hid) t
    rw [hread] at this
    cases this

namespace Extract

theorem isRun_of_mem_references {t : Text} {n : Reference} (h : n ∈ references t) :
    IsRun n.id t := by
  induction t using lexemes.induct with
  | case1 =>
    rw [references_nil] at h
    cases h
  | case2 c t ih =>
    rw [references_cons] at h
    rcases List.mem_append.1 h with h | h
    · have hread : Lexeme.read c t = (.node n, (Lexeme.read c t).2) := by
        cases hl : (Lexeme.read c t).1 with
        | node m =>
          rw [hl] at h
          obtain rfl := List.mem_singleton.1 h
          exact Prod.ext hl rfl
        | connector | pipe | stray =>
          rw [hl] at h
          cases h
      exact Reference.isRun_of_read? (Lexeme.read?_of_read hread)
    · rw [(Lexeme.read_append c t).1]
      exact (ih h).behind (Lexeme.apart_read c t)

/-! ## Sides -/

theorem isRun_of_mem_parts {t p id : Text} (hp : p ∈ FanOut.parts t) (h : IsRun id p) :
    IsRun id t := by
  obtain ⟨u, v, rfl, hu, hv⟩ := FanOut.exists_surround_of_mem_parts hp
  exact h.surround (fun c hc => hu c hc ▸ rfl) fun c hc => hv c hc ▸ rfl

theorem isRun_of_mem_sideNodes {role : Role} {side : Text} {n : Reference}
    (h : n ∈ sideNodes role side) : IsRun n.id side := by
  obtain ⟨ns, hns, hn⟩ := List.mem_flatMap.1 h
  obtain ⟨part, hpart, rfl⟩ := List.mem_map.1 hns
  obtain ⟨p, hp, rfl⟩ := List.mem_map.1 (List.mem_filter.1 (fanOut_eq side ▸ hpart)).1
  exact isRun_of_mem_parts hp (isRun_of_mem_references (of_mem_nodesOfPart hn).1).of_trim

/-- The sides of a chain are cut where no id goes on. -/
theorem isRun_of_ofText (t : Text) : (∀ id, IsRun id (Chain.ofText t).first → IsRun id t) ∧
    ∀ l ∈ (Chain.ofText t).links, ∀ id, IsRun id l.side → IsRun id t := by
  induction t using Chain.ofText.induct with
  | case1 t hf =>
    rw [Chain.ofText_of_free hf]
    exact ⟨fun _ h => h, by simp⟩
  | case2 t f hf ih =>
    have htoken := (Connector.isToken_of_token? (Connector.token?_before hf).1).isStroke
    obtain ⟨htext, hne⟩ := Connector.eq_append_of_find? hf
    have hrest : ∀ id, IsRun id (Chain.readTail f.rest).rest → IsRun id t := by
      intro id h
      rw [htext, Chain.readTail_append f.rest, ← List.append_assoc]
      refine h.behind (.of_last fun c hc => ?_)
      by_cases hgap : (Chain.readTail f.rest).gap = []
      · rw [hgap, List.append_nil, List.getLast?_append_of_ne_nil _ hne] at hc
        exact not_id_of_isStroke (htoken c (List.mem_of_getLast? hc))
      · rw [List.getLast?_append_of_ne_nil _ hgap] at hc
        exact Chain.getLast?_gap c hc ▸ rfl
    rw [Chain.ofText_of_find? hf]
    refine ⟨fun id h => ?_, ?_⟩
    · rw [htext, List.append_assoc]
      refine h.append (.of_head fun c hc => not_id_of_isStroke (htoken c ?_))
      rw [List.head?_append_of_ne_nil _ hne] at hc
      exact List.mem_of_mem_head? hc
    · intro l hl id h
      rcases List.mem_cons.1 hl with rfl | hl
      · exact hrest id (ih.1 id h)
      · exact hrest id (ih.2 l hl id h)

theorem isRun_of_mem_linkNodes {ls : List Link} {n : Reference} (h : n ∈ linkNodes ls) :
    ∃ l ∈ ls, IsRun n.id l.side := by
  induction ls with
  | nil => cases h
  | cons l ls ih =>
    rcases List.mem_append.1 h with h | h
    · exact ⟨l, List.mem_cons_self, (isRun_of_mem_sideNodes h).of_trim⟩
    · obtain ⟨k, hk, hrun⟩ := ih h
      exact ⟨k, List.mem_cons_of_mem l hk, hrun⟩

theorem isRun_of_mem_chainNodes {t : Text} {n : Reference}
    (h : n ∈ chainNodes (Chain.ofText t)) : IsRun n.id t := by
  obtain ⟨hfirst, hlinks⟩ := isRun_of_ofText t
  rcases List.mem_append.1 h with h | h
  · exact hfirst _ (isRun_of_mem_sideNodes h).of_trim
  · obtain ⟨l, hl, hrun⟩ := isRun_of_mem_linkNodes h
    exact hlinks l hl _ hrun

/-! ## Lines -/

theorem isRun_of_mem_boxes {t : Text} {box : Text × Text} (h : box ∈ boxes t) :
    IsRun box.1 t := by
  induction t using boxes.induct with
  | case1 =>
    rw [boxes] at h
    cases h
  | case2 c t hc inner hinner ih =>
    have htext : c :: t = (c :: leadingId t) ++ ('[' :: inner) := by
      rw [← hinner, List.cons_append, leadingId_append_afterId]
    rw [boxes_cons_of_bracket hc hinner] at h
    rcases List.mem_cons.1 h with rfl | h
    · have hid := leadingId_cons hc t
      exact hid ▸ .leadingId (by simp [hid])
    · have hdrop : inner = inner.takeWhile isBoxed ++ inner.dropWhile isBoxed :=
        List.takeWhile_append_dropWhile.symm
      rw [htext, hdrop, ← List.cons_append, ← List.append_assoc]
      refine (ih h).behind (.of_head fun d hd => ?_)
      -- The label ends before a bracket or a line feed.
      have hend := of_head?_dropWhile inner d hd
      simp only [isBoxed, Bool.and_eq_false_iff, bne_eq_false_iff_eq] at hend
      rcases hend with (rfl | rfl) | rfl <;> rfl
  | case3 c t hc hne ih =>
    rw [boxes_cons_of_id hc hne] at h
    have htext : c :: t = (c :: leadingId t) ++ afterId t :=
      congrArg (c :: ·) (leadingId_append_afterId t).symm
    rw [htext]
    exact (ih h).behind (.of_head (of_head?_dropWhile t))
  | case4 c t hc ih =>
    have hc : isIdChar c = false := by simpa using hc
    rw [boxes_cons_of_not_id hc] at h
    exact (ih h).behind (t := [c]) (.of_last (by rintro d ⟨⟩; exact hc))

theorem isRun_of_mem_statementNodes {t : Text} {n : Reference} (h : n ∈ statementNodes t) :
    IsRun n.id t := by
  unfold statementNodes at h
  simp only [] at h
  split at h
  · exact isRun_of_mem_chainNodes h
  split at h
  · exact isRun_of_mem_references (List.mem_of_mem_filter h)
  · obtain ⟨box, hbox, rfl⟩ := List.mem_map.1 h
    exact isRun_of_mem_boxes hbox

theorem isRun_of_skip {l id : Text} (h : IsRun id (Header.skip l)) : IsRun id l := by
  obtain ⟨u, hl, hapart⟩ := Header.exists_apart_skip l
  rw [hl]
  exact h.behind hapart

/-- What a line mentions are runs of the line. -/
theorem isRun_of_mem_mentions {line : Text} {n : Reference} (h : n ∈ mentions line) :
    IsRun n.id line := by
  unfold mentions at h
  split at h
  · cases h
  · exact isRun_of_skip (isRun_of_mem_statementNodes h)

end Extract

end Flowmend
