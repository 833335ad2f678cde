import Flowmend.Proofs.Statement.Lexeme

/-!
# Lines without bars

The chain of a line is found by a search over the whole line, its tokens by reading one lexeme after
the other. Where no bar stands in the line, no lexeme but a connector holds the beginning of one
(`Lexeme.passes_of_read`), and the search passes over the same stretches (`Chain.ofText_append`). So
both find the same connectors at the same positions (`connectors_of_no_bar`).
-/

namespace Flowmend

open Text

/-! ## Connectors with their positions -/

/-- The connector of a token that is one, with its position. -/
def Token.connectorAt? (s : Nat × Token) : Option (Nat × Connector) :=
  s.2.connector?.map fun k => (s.1, k)

/-- The connectors among the tokens of lexemes that start at `pos`, each with its position. -/
def Token.connectorsFrom (pos : Nat) (ls : List Lexeme) : List (Nat × Connector) :=
  ((positions pos ls).zip (ofLexemes ls)).filterMap connectorAt?

/-- The connectors among the tokens of a line, each with its position. -/
def locatedConnectors (line : Text) : List (Nat × Connector) :=
  (locatedTokens line).filterMap Token.connectorAt?

namespace Token

theorem connectorsFrom_connector (pos : Nat) (token : Text) (ls : List Lexeme) :
    connectorsFrom pos (.connector token :: ls) =
      (pos, ⟨token, leadingLabel ls⟩) :: connectorsFrom (pos + token.length) ls := rfl

theorem connectorsFrom_cons {l : Lexeme} (h : ∀ token, l ≠ .connector token) (pos : Nat)
    (ls : List Lexeme) :
    connectorsFrom pos (l :: ls) = connectorsFrom (pos + l.text.length) ls := by
  cases l with
  | connector token => exact absurd rfl (h token)
  | node | pipe | stray => rfl

theorem map_snd_connectorsFrom (pos : Nat) (ls : List Lexeme) :
    (connectorsFrom pos ls).map Prod.snd = (ofLexemes ls).filterMap connector? := by
  induction ls generalizing pos with
  | nil => rfl
  | cons l ls ih =>
    cases l with
    | connector token =>
      rw [connectorsFrom_connector, List.map_cons, ih]
      rfl
    | node | pipe | stray =>
      rw [connectorsFrom_cons (by simp), ih]
      rfl

end Token

/-- The connectors of a chain, each with its position. -/
def Chain.locatedConnectors (c : Chain) : List (Nat × Connector) := c.positions.zip c.connectors

namespace Chain

theorem length_positionsFrom (pos : Nat) (ls : List Link) :
    (positionsFrom pos ls).length = ls.length := by
  induction ls generalizing pos with
  | nil => rfl
  | cons l ls ih => simp [positionsFrom, ih]

theorem map_fst_locatedConnectors (c : Chain) :
    c.locatedConnectors.map Prod.fst = c.positions := by
  refine List.map_fst_zip ?_
  rw [connectors, List.length_map, positions, length_positionsFrom]

theorem map_snd_locatedConnectors (c : Chain) :
    c.locatedConnectors.map Prod.snd = c.connectors := by
  refine List.map_snd_zip ?_
  rw [connectors, List.length_map, positions, length_positionsFrom]

/-- A stretch that no connector begins in is part of the first side. -/
theorem ofText_append {w t : Text} (h : Connector.Passes w t) :
    ofText (w ++ t) = ⟨w ++ (ofText t).first, (ofText t).links⟩ := by
  have hfind := h.find?_append
  cases hf : Connector.find? t with
  | none =>
    rw [hf] at hfind
    rw [ofText_of_free hfind, ofText_of_free hf]
  | some f =>
    rw [hf] at hfind
    rw [ofText_of_find? hfind, ofText_of_find? hf]

/-- A connector that no label follows joins an empty side to what is behind it. -/
theorem ofText_of_token? {c : Char} {t token rest : Text}
    (h : Connector.token? (c :: t) = some (token, rest)) (hbar : '|' ∉ rest) :
    ofText (c :: t) =
      ⟨[], ⟨⟨token, none⟩, [], (ofText rest).first⟩ :: (ofText rest).links⟩ := by
  have hfind : Connector.find? (c :: t) = some ⟨[], token, rest⟩ := by rw [Connector.find?, h]
  rw [ofText_of_find? hfind, readTail_of_notMem hbar]

end Chain

/-! ## Lexemes without bars -/

theorem pipe_notMem_lexemes {t : Text} (h : '|' ∉ t) (label : Text) :
    Lexeme.pipe label ∉ lexemes t := by
  intro hmem
  refine h ?_
  rw [← text_lexemes t]
  exact List.mem_flatMap.2 ⟨_, hmem, List.mem_cons_self⟩

theorem Token.leadingLabel_eq_none {ls : List Lexeme} (h : ∀ label, .pipe label ∉ ls) :
    leadingLabel ls = none := by
  induction ls with
  | nil => rfl
  | cons l ls ih =>
    cases l with
    | pipe label => exact absurd List.mem_cons_self (h label)
    | stray c => exact ih fun label hmem => h label (List.mem_cons_of_mem _ hmem)
    | connector | node => rfl

/-- No connector begins in a lexeme that is none, unless it is a label between bars. -/
theorem Lexeme.passes_of_read {c : Char} {t rest : Text} {l : Lexeme} (h : read c t = (l, rest))
    (hconnector : ∀ token, l ≠ connector token) (hpipe : ∀ label, l ≠ pipe label) :
    Connector.Passes l.text rest := by
  rcases read_cases h with
    ⟨token, rfl, -⟩ | ⟨htoken, ⟨n, rfl, hnode⟩ | ⟨label, rfl, -⟩ | ⟨rfl, rfl, -⟩⟩
  · exact absurd rfl (hconnector token)
  · exact Reference.passes_of_read? hnode
  · exact absurd rfl (hpipe label)
  · exact Connector.passes_cons.2 ⟨htoken, Connector.passes_nil rest⟩

/-! ## Both readings of a line -/

/-- Lexemes that start at `pos` have the connectors that the chain has behind its first side. -/
theorem connectorsFrom_lexemes {t : Text} (h : '|' ∉ t) (pos : Nat) :
    Token.connectorsFrom pos (lexemes t) =
      (Chain.positionsFrom (pos + (Chain.ofText t).first.length) (Chain.ofText t).links).zip
        (Chain.ofText t).connectors := by
  fun_induction lexemes t generalizing pos with
  | case1 =>
    rw [Chain.ofText_of_free Connector.free_nil]
    rfl
  | case2 c t ih =>
    obtain ⟨l, rest, hread⟩ : ∃ l rest, Lexeme.read c t = (l, rest) := ⟨_, _, rfl⟩
    have happend := (Lexeme.of_read hread).1
    have hrest : '|' ∉ rest := fun hmem => h (happend ▸ List.mem_append_right l.text hmem)
    rw [hread] at ih ⊢
    cases hl : l with
    | connector token =>
      subst hl
      have hlabel := Token.leadingLabel_eq_none (pipe_notMem_lexemes hrest)
      rw [Token.connectorsFrom_connector, hlabel, ih hrest,
        Chain.ofText_of_token? (Lexeme.token?_of_read hread) hrest]
      simp [Chain.positionsFrom, Chain.connectors, Chain.linkText, Nat.add_assoc]
    | pipe label =>
      subst hl
      exact absurd (happend ▸ List.mem_cons_self) h
    | node | stray =>
      have hpasses := Lexeme.passes_of_read hread (by simp [hl]) (by simp [hl])
      rw [← hl, Token.connectorsFrom_cons (by simp [hl]), ih hrest, happend,
        Chain.ofText_append hpasses, List.length_append, ← Nat.add_assoc]
      rfl

/-- The connectors among the tokens of a line without bars are those of its chain: as many, in the
same order, written in the same way and so of the same kinds, and at the same positions. -/
theorem connectors_of_no_bar {line : Text} (h : '|' ∉ line) :
    (tokens line).filterMap Token.connector? = (Chain.ofText line).connectors ∧
      locatedConnectors line = (Chain.ofText line).locatedConnectors := by
  have hlocated : locatedConnectors line = (Chain.ofText line).locatedConnectors := by
    have := connectorsFrom_lexemes h 0
    rwa [Nat.zero_add] at this
  refine ⟨?_, hlocated⟩
  rw [← Chain.map_snd_locatedConnectors, ← hlocated]
  exact (Token.map_snd_connectorsFrom 0 (lexemes line)).symm

/-- Two labels end at a connector, and dashes that are none stand in a label and between ids. -/
theorem connectors_of_no_bar_unclosed :
    let line := "a[b --> c((d) -.e==>f]--g]<-->{{h}}---->".toList
    '|' ∉ line ∧
      locatedConnectors line = (Chain.ofText line).locatedConnectors ∧
      (Chain.ofText line).locatedConnectors =
        [(4, ⟨"-->".toList, none⟩), (17, ⟨"==>".toList, none⟩), (26, ⟨"<-->".toList, none⟩),
          (35, ⟨"---->".toList, none⟩)] := by
  intro line
  have hbar : '|' ∉ line := by decide
  exact ⟨hbar, (connectors_of_no_bar hbar).2, by decide +kernel⟩

end Flowmend
