import Flowmend.Proofs.Text.Lines
import Flowmend.Repair.Document

/-!
# Balanced brackets

Brackets are balanced by closing ones on the last line or by opening ones in a comment behind it
(`balance_cases`); then there are as many of either kind (`count_balance`).
-/

namespace Flowmend

open Text

/-- The lines of a text hold all of its characters but the line feeds between them. -/
theorem count_unlines {c : Char} (hc : c ≠ '\n') (ls : List Text) :
    count c (unlines ls) = count c ls.flatten := by
  induction ls with
  | nil => rfl
  | cons l ls ih =>
    rw [List.flatten_cons]
    by_cases hls : ls = []
    · subst hls
      exact (congrArg (count c) (List.append_nil l)).symm
    · simp only [count, List.count_append] at ih ⊢
      rw [unlines_cons hls, List.count_append, List.count_cons_of_ne (Ne.symm hc), ih]

/-- Opening brackets in a comment. -/
def openers (n : Nat) : Text := ['%', '%', ' '] ++ List.replicate (n + 1) '['

theorem isComment_openers (n : Nat) : isComment (openers n) = true := rfl

theorem isLine_openers (n : Nat) : IsLine (openers n) where
  ne_nil := by simp [openers]
  trimmed := by
    refine ⟨by rintro c ⟨⟩; rfl, fun c hc => ?_⟩
    rw [openers, List.getLast?_append_of_ne_nil _ (by simp)] at hc
    rw [List.eq_of_mem_replicate (List.mem_of_mem_getLast? hc)]
    rfl
  not_break c hc := by
    rcases List.mem_append.1 hc with hc | hc
    · exact (show ∀ c ∈ ['%', '%', ' '], isBreak c = false by decide) c hc
    · rw [List.eq_of_mem_replicate hc]
      rfl

/-- The ways in which the brackets are balanced. -/
theorem balance_cases (ls : List Text) :
    (count '[' (unlines ls) = count ']' (unlines ls) ∧ balance ls = pure ls) ∨
      (∃ init last n, ls = init ++ [last] ∧
        count '[' (unlines ls) = count ']' (unlines ls) + (n + 1) ∧
        (balance ls).value = init ++ [last ++ List.replicate (n + 1) ']']) ∨
      ∃ n, count ']' (unlines ls) = count '[' (unlines ls) + (n + 1) ∧
        (balance ls).value = ls ++ [openers n] := by
  unfold balance
  by_cases heq : count '[' (unlines ls) = count ']' (unlines ls)
  · exact .inl ⟨heq, if_pos heq⟩
  rw [if_neg heq]
  by_cases hlt : count ']' (unlines ls) < count '[' (unlines ls)
  · obtain ⟨n, hn⟩ := Nat.exists_eq_add_of_lt hlt
    simp only [if_pos hlt]
    rcases List.eq_nil_or_concat ls with rfl | ⟨init, last, rfl⟩
    · exact absurd rfl heq
    refine .inr (.inl ⟨init, last, n, List.concat_eq_append, hn, ?_⟩)
    rw [hn, Nat.add_assoc, Nat.add_sub_cancel_left]
    simp
  · obtain ⟨n, hn⟩ := Nat.exists_eq_add_of_lt (Nat.lt_of_le_of_ne (Nat.le_of_not_lt hlt) heq)
    simp only [if_neg hlt]
    refine .inr (.inr ⟨n, hn, ?_⟩)
    rw [hn, Nat.add_assoc, Nat.add_sub_cancel_left]
    rfl

/-- Balanced lines have as many closing brackets as opening ones. -/
theorem count_balance (ls : List Text) :
    count '[' (unlines (balance ls).value) = count ']' (unlines (balance ls).value) := by
  rcases balance_cases ls with ⟨hcount, h⟩ | ⟨init, last, n, rfl, hcount, h⟩ | ⟨n, hcount, h⟩
  · rw [h]
    exact hcount
  all_goals
    simp only [count_unlines (by decide : '[' ≠ '\n'), count_unlines (by decide : ']' ≠ '\n'), h,
      List.flatten_append] at hcount ⊢
    simp [count, openers, List.count_replicate] at hcount ⊢
    omega

/-- Balancing adds closing brackets behind a line, the header if there is no other, or a comment
behind all lines. -/
theorem balance_append_cons (comments : List Text) (header : Text) (body : List Text) :
    ∃ u rest, (∀ c ∈ u, c = ']') ∧
      (balance (comments ++ header :: body)).value = comments ++ (header ++ u) :: rest ∧
      (∀ l ∈ rest, (isComment l = true ∧ IsLine l) ∨
        ∃ k ∈ body, ∃ v, (∀ c ∈ v, c = ']') ∧ l = k ++ v) ∧
      ∀ k ∈ body, ∃ v, (∀ c ∈ v, c = ']') ∧ k ++ v ∈ rest := by
  have hsame : ∀ l ∈ body, ∃ k ∈ body, ∃ v, (∀ c ∈ v, c = ']') ∧ l = k ++ v := fun l hl =>
    ⟨l, hl, [], by simp⟩
  have hthere : ∀ {k : Text} {rest : List Text}, k ∈ rest →
      ∃ v, (∀ c ∈ v, c = ']') ∧ k ++ v ∈ rest := fun {k _} hk =>
    ⟨[], by simp, (List.append_nil k).symm ▸ hk⟩
  rcases balance_cases (comments ++ header :: body) with ⟨-, hvalue⟩ |
    ⟨init, last, n, heq, -, hvalue⟩ | ⟨n, -, hvalue⟩
  · exact ⟨[], body, by simp, by simp [hvalue], fun l hl => .inr (hsame l hl), fun _ => hthere⟩
  · have hclosers : ∀ c ∈ List.replicate (n + 1) ']', c = ']' := fun c hc =>
      List.eq_of_mem_replicate hc
    rcases List.eq_nil_or_concat' body with rfl | ⟨front, x, rfl⟩
    · obtain ⟨rfl, hlast⟩ := List.append_inj' heq rfl
      cases hlast
      exact ⟨_, [], hclosers, hvalue, by simp, by simp⟩
    · rw [← List.cons_append, ← List.append_assoc] at heq
      obtain ⟨rfl, hlast⟩ := List.append_inj' heq rfl
      cases hlast
      refine ⟨[], front ++ [last ++ List.replicate (n + 1) ']'], by simp, by simp [hvalue],
        fun l hl => .inr ?_, fun k hk => ?_⟩
      · rcases List.mem_append.1 hl with hl | hl
        · exact hsame l (List.mem_append_left _ hl)
        · exact ⟨last, by simp, _, hclosers, List.mem_singleton.1 hl⟩
      · rcases List.mem_append.1 hk with hk | hk
        · exact hthere (List.mem_append_left _ hk)
        · obtain rfl := List.mem_singleton.1 hk
          exact ⟨_, hclosers, by simp⟩
  · refine ⟨[], body ++ [openers n], by simp, by simp [hvalue], fun l hl => ?_,
      fun k hk => hthere (List.mem_append_left _ hk)⟩
    rcases List.mem_append.1 hl with hl | hl
    · exact .inr (hsame l hl)
    · rw [List.mem_singleton.1 hl]
      exact .inl ⟨isComment_openers n, isLine_openers n⟩

end Flowmend
