import Flowmend.Proofs.Statement.Chain
import Flowmend.Proofs.Statement.Token

/-!
# The lexemes of a line

Each lexeme is read at a position of its line (`exists_read_of_mem_lexemes`), the tokens of the line
are some of its lexemes, but for the labels of connectors (`map_unlabelled_ofLexemes`), and a label
that a text opens with holds no reference (`references_readTail`).
-/

namespace Flowmend

open Text

/-! ## The lexemes of a line -/

/-- A lexeme is read at some position of the line. -/
theorem exists_read_of_mem_lexemes {t : Text} {l : Lexeme} (h : l ∈ lexemes t) :
    ∃ c u rest, c :: u <:+ t ∧ Lexeme.read c u = (l, rest) := by
  fun_induction lexemes t with
  | case1 => cases h
  | case2 c t ih =>
    rcases List.mem_cons.1 h with rfl | h
    · exact ⟨c, t, _, List.suffix_refl _, rfl⟩
    · obtain ⟨d, u, rest, hu, hread⟩ := ih h
      exact ⟨d, u, rest, hu.trans ⟨_, (Lexeme.read_append c t).1.symm⟩, hread⟩

/-- The lexemes of the label that a text opens with. -/
theorem lexemes_readTail (t : Text) :
    lexemes t = lexemes (Chain.readTail t).gap ++ lexemes (Chain.readTail t).rest ∧
      ∀ l ∈ lexemes (Chain.readTail t).gap, (∃ c, l = .stray c) ∨ ∃ label, l = .pipe label := by
  unfold Chain.readTail
  cases hpipe : Connector.pipe? (t.dropWhile isPad) with
  | none => simp [lexemes]
  | some p =>
    obtain ⟨label, rest⟩ := p
    have hinert : ∀ c ∈ t.takeWhile isPad, Inert c := fun c hc =>
      inert_of_isPad (List.mem_takeWhile_imp hc)
    have hlabel := (Connector.pipe?_eq_some_iff.1 hpipe).2
    have hgap : lexemes (t.takeWhile isPad ++ '|' :: label ++ ['|']) =
        (t.takeWhile isPad).map Lexeme.stray ++ [.pipe label] := by
      rw [List.append_assoc, List.cons_append, lexemes_inert_append hinert, lexemes_pipe hlabel,
        lexemes]
    have ht : t = t.takeWhile isPad ++ '|' :: (label ++ '|' :: rest) := by
      rw [← (Connector.pipe?_eq_some_iff.1 hpipe).1]
      exact List.takeWhile_append_dropWhile.symm
    simp only [hgap]
    constructor
    · conv => lhs; rw [ht, lexemes_inert_append hinert, lexemes_pipe hlabel]
      simp
    · intro l hl
      rcases List.mem_append.1 hl with hl | hl
      · obtain ⟨c, -, rfl⟩ := List.mem_map.1 hl
        exact .inl ⟨c, rfl⟩
      · exact .inr ⟨label, List.mem_singleton.1 hl⟩

theorem filterMap_gap {α : Type} {f : Lexeme → Option α} (hstray : ∀ c, f (.stray c) = none)
    (hpipe : ∀ label, f (.pipe label) = none) (t : Text) :
    (lexemes (Chain.readTail t).gap).filterMap f = [] := by
  refine List.filterMap_eq_nil_iff.2 fun l hl => ?_
  rcases (lexemes_readTail t).2 l hl with ⟨c, rfl⟩ | ⟨label, rfl⟩
  · exact hstray c
  · exact hpipe label

/-- The label that a text opens with holds no reference. -/
theorem references_readTail (t : Text) :
    references (Chain.readTail t).rest = references t := by
  rw [references_eq, references_eq, (lexemes_readTail t).1, List.filterMap_append,
    filterMap_gap (fun _ => rfl) (fun _ => rfl), List.nil_append]

/-! ## The tokens of a line -/

/-- The token without the label of a connector. -/
def Token.unlabelled : Token → Token
  | node n => node n
  | connector k => connector ⟨k.token, none⟩

/-- The token of a lexeme that is one, without a label. -/
def Lexeme.token? : Lexeme → Option Token
  | connector token => some (.connector ⟨token, none⟩)
  | node n => some (.node n)
  | _ => none

theorem map_unlabelled_ofLexemes (ls : List Lexeme) :
    (Token.ofLexemes ls).map Token.unlabelled = ls.filterMap Lexeme.token? := by
  induction ls with
  | nil => rfl
  | cons l ls ih =>
    cases l <;> simp [Token.ofLexemes, Token.unlabelled, Lexeme.token?, List.filterMap_cons, ih]

end Flowmend
