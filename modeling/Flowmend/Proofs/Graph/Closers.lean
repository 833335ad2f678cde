import Flowmend.Proofs.Graph.LooseEnds

/-!
# Closing brackets behind a line

Closing square brackets are loose characters, so at the end of a line they change nothing of what
the line declares; and a line with brackets behind it is a line (`isLine_append_closers`).
-/

namespace Flowmend

open Text Extract

theorem loose_bracket : Loose ']' := ⟨.inr (by decide), by decide⟩

/-- One closing square bracket or more. -/
def closers (n : Nat) : Text := ']' :: List.replicate n ']'

theorem eq_of_mem_closers {n : Nat} {c : Char} (h : c ∈ closers n) : c = ']' := by
  rcases List.mem_cons.1 h with h | h
  · exact h
  · exact List.eq_of_mem_replicate h

theorem loose_of_mem_closers {n : Nat} : ∀ c ∈ closers n, Loose c := fun _ hc =>
  eq_of_mem_closers hc ▸ loose_bracket

theorem inert_of_mem_closers {n : Nat} : ∀ c ∈ closers n, Inert c := fun c hc =>
  (loose_of_mem_closers c hc).inert

theorem notMem_closers {n : Nat} {c : Char} (h : c ≠ ']') : c ∉ closers n := fun hc =>
  h (eq_of_mem_closers hc)

section Closers

variable (n : Nat)

theorem opensWithFrame_append_closers {t : Text} (ht : Connector.Free t) :
    opensWithFrame (t ++ closers n) = opensWithFrame t :=
  opensWithFrame_append_loose ht loose_of_mem_closers

theorem isLine_append_closers {l : Text} (hl : IsLine l) : IsLine (l ++ closers n) := by
  have hne : closers n ≠ [] := by simp [closers]
  refine ⟨by simp [hl.ne_nil], ⟨fun c hc => ?_, fun c hc => ?_⟩, fun c hc => ?_⟩
  · rw [List.head?_append_of_ne_nil _ hl.ne_nil] at hc
    exact hl.trimmed.1 c hc
  · rw [List.getLast?_append_of_ne_nil _ hne] at hc
    rw [eq_of_mem_closers (List.mem_of_getLast? hc)]
    decide
  · exact (List.mem_append.1 hc).elim (hl.not_break c) fun hc =>
      (loose_of_mem_closers c hc).not_break

end Closers

end Flowmend
