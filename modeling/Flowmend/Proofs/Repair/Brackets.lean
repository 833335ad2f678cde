import Flowmend.Proofs.Graph.Closers
import Flowmend.Proofs.Repair.Header

/-!
# Balanced brackets and the graph

What balancing adds, closing brackets behind the last line or a comment, is not read: a line
mentions the same nodes with brackets behind it (`mentions_trim_append_closers`), and a comment
mentions none. So the graph stays (`Graph.extract_balance`), while the brackets of the lines, and of
every mended document, come to balance (`balance_exact`).
-/

namespace Flowmend

open Text Extract

/-- There are as many opening square brackets as closing ones. -/
def Balanced (t : Text) : Prop := count '[' t = count ']' t

instance (t : Text) : Decidable (Balanced t) := inferInstanceAs (Decidable (_ = _))

/-- Lines with brackets added behind them: closing ones on the last line, or opening ones in a
comment. -/
inductive Completes (ls : List Text) : List Text → Prop
  | closing {init : List Text} {last : Text} (n : Nat) (h : ls = init ++ [last]) :
    Completes ls (init ++ [last ++ closers n])
  | opening (n : Nat) : Completes ls (ls ++ [openers n])

/-! ## What a line shows -/

theorem mentions_nil : mentions [] = [] := by
  rw [mentions]
  split
  · rfl
  · exact statementNodes_nil

theorem joins_nil : joins [] = [] := by
  rw [joins]
  split
  · rfl
  · exact statementArcs_nil

/-- Trimmed with closing brackets behind it, a line ends in loose characters. -/
theorem exists_trim_append_closers {l : Text} (hl : OneLine l) (n : Nat) :
    ∃ w, trim (l ++ closers n) = trim l ++ w ∧ ∀ c ∈ w, Loose c := by
  obtain ⟨b, hb, hblank⟩ := exists_trimEnd (trimStart l)
  have hstart : trimStart (l ++ closers n) = trimStart l ++ closers n :=
    dropWhile_append_stop isBlank l (by decide) _
  have hend : trimEnd (trimStart l ++ closers n) = trimStart l ++ closers n := by
    refine trimEnd_eq_self fun c hc => ?_
    rw [List.getLast?_append_of_ne_nil _ (by simp [closers])] at hc
    rw [eq_of_mem_closers (List.mem_of_getLast? hc)]
    decide
  refine ⟨b ++ closers n, ?_, fun c hc => ?_⟩
  · rw [trim, hstart, hend, trim, ← List.append_assoc, ← hb]
  · rcases List.mem_append.1 hc with hc | hc
    · have hmem : c ∈ trimStart l := hb ▸ List.mem_append_right _ hc
      exact ⟨.inl (hblank c hc), hl c ((List.dropWhile_suffix isBlank).subset hmem)⟩
    · exact loose_of_mem_closers c hc

/-- Closing brackets behind a line, trimmed or not, change nothing of what it declares. -/
theorem mentions_trim_append_closers {l : Text} (hl : OneLine l) (n : Nat) :
    (mentions (trim (l ++ closers n))).map Reference.look =
        (mentions (trim l)).map Reference.look ∧
      joins (trim (l ++ closers n)) = joins (trim l) := by
  obtain ⟨w, hw, hloose⟩ := exists_trim_append_closers hl n
  rw [hw]
  exact mentions_append_loose (hl.within (infix_trim l)) hloose

theorem mentions_openers (n : Nat) :
    mentions (openers n) = [] ∧ joins (openers n) = [] := by
  rw [mentions, joins, isComment_openers]
  exact ⟨rfl, rfl⟩

/-! ## The graph -/

/-- Texts whose lines mention nodes with the same looks, and have the same edges, have one graph. -/
theorem Graph.extract_congr {t u : Text}
    (hnodes : (t.statements.flatMap mentions).map Reference.look =
      (u.statements.flatMap mentions).map Reference.look)
    (harcs : t.statements.flatMap joins = u.statements.flatMap joins) (limit : Option Int) :
    Graph.extract limit t = Graph.extract limit u := by
  rw [Graph.extract_eq, Graph.extract_eq, Draft.addAll_congr hnodes, harcs]

/-- Closing brackets behind a text change nothing of its graph. -/
theorem Graph.extract_append_closers (limit : Option Int) (t : Text) (n : Nat) :
    Graph.extract limit (t ++ closers n) = Graph.extract limit t := by
  obtain ⟨init, last, hlong, hlines⟩ := exists_lines_append
    (fun c hc => (loose_of_mem_closers (n := n) c hc).not_break) (by simp [closers]) t
  have hlast : OneLine last := by
    rcases hlines with h | ⟨rfl, -⟩
    · have hmem : last ∈ t.lines := h ▸ List.mem_append_right init List.mem_cons_self
      exact not_break_of_mem_lines hmem
    · simp [OneLine]
  -- Behind a last break the brackets are a line of their own.
  have hinit : ∀ {α : Type} {f : Text → List α}, f [] = [] →
      t.lines.flatMap (fun l => f (trim l)) = (init ++ [last]).flatMap fun l => f (trim l) := by
    rintro α f hf
    rcases hlines with h | ⟨rfl, h⟩
    · rw [h]
    · rw [h, List.flatMap_append, List.flatMap_singleton, show trim [] = [] from rfl, hf,
        List.append_nil]
  obtain ⟨hlooks, harcs⟩ := mentions_trim_append_closers hlast n
  refine Graph.extract_congr ?_ ?_ limit
  · rw [flatMap_statements mentions_nil, flatMap_statements mentions_nil, hlong, hinit mentions_nil]
    simp only [List.flatMap_append, List.flatMap_singleton, List.map_append, hlooks]
  · rw [flatMap_statements joins_nil, flatMap_statements joins_nil, hlong, hinit joins_nil]
    simp only [List.flatMap_append, List.flatMap_singleton, harcs]

/-- Brackets added behind lines change no graph. -/
theorem Completes.extract_eq {ls out : List Text} (h : Completes ls out) (limit : Option Int) :
    Graph.extract limit (unlines out) = Graph.extract limit (unlines ls) := by
  cases h with
  | closing n h => rw [h, unlines_concat_append, Graph.extract_append_closers]
  | opening n =>
    obtain ⟨hnodes, harcs⟩ := mentions_openers n
    refine Graph.extract_congr ?_ ?_ limit <;>
      simp only [statements_unlines, List.flatMap_append, List.flatMap_singleton,
        (isLine_openers n).statements_eq, hnodes, harcs, List.append_nil]

/-! ## Balancing -/

theorem balanced_balance (ls : List Text) : Balanced (unlines (balance ls).value) :=
  count_balance ls

theorem balance_of_balanced {ls : List Text} (h : Balanced (unlines ls)) : balance ls = pure ls :=
  if_pos h

/-- Brackets that do not balance are added behind the lines. -/
theorem completes_balance {ls : List Text} (h : ¬Balanced (unlines ls)) :
    Completes ls (balance ls).value := by
  rcases balance_cases ls with ⟨hcount, -⟩ | ⟨init, last, n, hls, -, hvalue⟩ | ⟨n, -, hvalue⟩
  · exact absurd hcount h
  · exact hvalue ▸ .closing n hls
  · exact hvalue ▸ .opening n

/-- Balancing changes no graph. -/
theorem Graph.extract_balance (ls : List Text) (limit : Option Int) :
    Graph.extract limit (unlines (balance ls).value) = Graph.extract limit (unlines ls) := by
  by_cases h : Balanced (unlines ls)
  · rw [balance_of_balanced h]
    rfl
  · exact (completes_balance h).extract_eq limit

/-- Balancing counts the brackets of all lines once, adds only what is missing and has nothing to do
the second time; the graph stays. In the end the brackets of a mended document balance. -/
theorem balance_exact :
    (∀ ls : List Text,
      Balanced (unlines (balance ls).value) ∧
      (if Balanced (unlines ls) then balance ls = pure ls
        else Completes ls (balance ls).value ∧
          (balance ls).events 0 =
            [⟨0, .brackets (count '[' (unlines ls)) (count ']' (unlines ls))⟩]) ∧
      balance (balance ls).value = pure (balance ls).value ∧
      ∀ limit,
        Graph.extract limit (unlines (balance ls).value) = Graph.extract limit (unlines ls)) ∧
    ∀ usualHeader stem source, Balanced (mend usualHeader stem source).text := by
  refine ⟨fun ls => ⟨balanced_balance ls, ?_, balance_of_balanced (balanced_balance ls),
    Graph.extract_balance ls⟩, fun usualHeader stem source => ?_⟩
  · split
    · rename_i h
      exact balance_of_balanced h
    · rename_i h
      refine ⟨completes_balance h, ?_⟩
      rw [balance, if_neg (show ¬count '[' (unlines ls) = count ']' (unlines ls) from h)]
      rfl
  · obtain ⟨body, hlines⟩ := lines_mend usualHeader stem source
    rw [Mended.text, hlines]
    exact balanced_balance _

/-- Three brackets close the labels of the last line, the first of which was to end in two. -/
theorem balance_exact_unclosed :
    (balance ["graph TD".toList, " A[[one --> B[two ".toList]).value =
        ["graph TD".toList, " A[[one --> B[two ]]]".toList] ∧
      ∀ limit, Graph.extract limit "graph TD\n A[[one --> B[two ]]]".toList =
        Graph.extract limit "graph TD\n A[[one --> B[two ".toList :=
  ⟨by decide, (balance_exact.1 ["graph TD".toList, " A[[one --> B[two ".toList]).2.2.2⟩

end Flowmend
