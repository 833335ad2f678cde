import Flowmend.Proofs.Statement.Lexeme

/-!
# Where the tokens of a line stand

The lexemes of a line follow each other without gaps (`Lexeme.pairwise_locate`,
`Lexeme.exists_mem_locate`), and each is what is read at its position (`Lexeme.read_of_mem_locate`).
So the tokens stand one behind the other, each spelled at its position, and what neither they nor
the labels between bars take of the line is stray characters (`segmented_line`).
-/

namespace Flowmend

open Text

/-- Where `t` stands at position `start`, position `i` is in it. -/
def Within (start : Nat) (t : Text) (i : Nat) : Prop := start ≤ i ∧ i < start + t.length

/-! ## Lexemes at their positions -/

namespace Lexeme

/-- The lexemes from `pos` on, each with its position. -/
def locate (pos : Nat) : List Lexeme → List (Nat × Lexeme)
  | [] => []
  | l :: ls => (pos, l) :: locate (pos + l.text.length) ls

theorem le_of_mem_locate {pos : Nat} {ls : List Lexeme} {s : Nat × Lexeme}
    (h : s ∈ locate pos ls) : pos ≤ s.1 := by
  induction ls generalizing pos with
  | nil => cases h
  | cons l ls ih =>
    rcases List.mem_cons.1 h with rfl | h
    · exact Nat.le_refl _
    · exact Nat.le_trans (Nat.le_add_right _ _) (ih h)

/-- Each lexeme ends before the next one begins. -/
theorem pairwise_locate (pos : Nat) (ls : List Lexeme) :
    (locate pos ls).Pairwise fun s s' => s.1 + s.2.text.length ≤ s'.1 := by
  induction ls generalizing pos with
  | nil => exact List.Pairwise.nil
  | cons l ls ih => exact List.pairwise_cons.2 ⟨fun s hs => le_of_mem_locate hs, ih _⟩

theorem apart_of_mem_locate {pos : Nat} {ls : List Lexeme} {s s' : Nat × Lexeme}
    (h : s ∈ locate pos ls) (h' : s' ∈ locate pos ls) (hne : s ≠ s') :
    s.1 + s.2.text.length ≤ s'.1 ∨ s'.1 + s'.2.text.length ≤ s.1 := by
  induction ls generalizing pos with
  | nil => cases h
  | cons l ls ih =>
    rcases List.mem_cons.1 h with rfl | h <;> rcases List.mem_cons.1 h' with rfl | h'
    · exact absurd rfl hne
    · exact .inl (le_of_mem_locate h')
    · exact .inr (le_of_mem_locate h)
    · exact ih h h'

/-- Each position of what the lexemes spell is in one of them. -/
theorem exists_mem_locate {pos i : Nat} {ls : List Lexeme} (hpos : pos ≤ i)
    (hi : i < pos + (ls.flatMap text).length) :
    ∃ s ∈ locate pos ls, Within s.1 s.2.text i := by
  induction ls generalizing pos with
  | nil => exact absurd hi (by simpa using hpos)
  | cons l ls ih =>
    by_cases hl : i < pos + l.text.length
    · exact ⟨(pos, l), List.mem_cons_self, hpos, hl⟩
    · rw [List.flatMap_cons, List.length_append, ← Nat.add_assoc] at hi
      obtain ⟨s, hs, hwithin⟩ := ih (Nat.le_of_not_lt hl) hi
      exact ⟨s, List.mem_cons_of_mem _ hs, hwithin⟩

/-- A lexeme of a text is read at its position. -/
theorem read_of_mem_locate {a t : Text} {s : Nat × Lexeme}
    (h : s ∈ locate a.length (lexemes t)) :
    ∃ c u rest, (a ++ t).drop s.1 = c :: u ∧ read c u = (s.2, rest) := by
  fun_induction lexemes t generalizing a with
  | case1 => cases h
  | case2 c t ih =>
    rcases List.mem_cons.1 h with rfl | h
    · exact ⟨c, t, _, List.drop_left, rfl⟩
    · rw [← List.length_append] at h
      have := ih h
      rwa [List.append_assoc, ← (read_append c t).1] at this

end Lexeme

/-! ## Tokens at their positions -/

namespace Token

/-- The token as written, a connector without its label. -/
def text : Token → Text
  | node n => n.text
  | connector k => k.token

theorem length_positions (pos : Nat) (ls : List Lexeme) :
    (positions pos ls).length = (ofLexemes ls).length := by
  induction ls generalizing pos with
  | nil => rfl
  | cons l ls ih => cases l <;> simp [positions, ofLexemes, ih]

/-- A token stands where its lexeme does. -/
theorem map_unlabelled_located (pos : Nat) (ls : List Lexeme) :
    ((positions pos ls).zip (ofLexemes ls)).map (fun s => (s.1, s.2.unlabelled)) =
      (Lexeme.locate pos ls).filterMap fun s => s.2.token?.map fun t => (s.1, t) := by
  induction ls generalizing pos with
  | nil => rfl
  | cons l ls ih =>
    cases l with
    | connector | node => exact congrArg (List.cons _) (ih _)
    | pipe | stray => exact ih _

theorem text_unlabelled (t : Token) : t.unlabelled.text = t.text := by
  cases t <;> rfl

end Token

theorem Lexeme.text_of_token? {l : Lexeme} {t : Token} (h : l.token? = some t) :
    t.text = l.text := by
  cases l <;> cases h <;> rfl

/-- The label of a lexeme that is one between bars. -/
def Lexeme.label? : Lexeme → Option Text
  | pipe label => some label
  | _ => none

/-- The labels between bars that are read in a line, each with its position. -/
def locatedLabels (line : Text) : List (Nat × Text) :=
  (Lexeme.locate 0 (lexemes line)).filterMap fun s => s.2.label?.map fun label => (s.1, label)

section Line

variable {line : Text} {p : Nat} {l : Lexeme} {t : Token}

theorem read_of_mem (h : (p, l) ∈ Lexeme.locate 0 (lexemes line)) :
    ∃ c u rest, line.drop p = c :: u ∧ Lexeme.read c u = (l, rest) :=
  @Lexeme.read_of_mem_locate [] line (p, l) h

theorem spelled_of_mem (h : (p, l) ∈ Lexeme.locate 0 (lexemes line)) :
    l.text ≠ [] ∧ l.text <+: line.drop p := by
  obtain ⟨c, u, rest, hdrop, hread⟩ := read_of_mem h
  have happend := Lexeme.read_append c u
  rw [hread] at happend
  exact ⟨happend.2, rest, by rw [hdrop, happend.1]⟩

theorem snd_locatedTokens (line : Text) : (locatedTokens line).map Prod.snd = tokens line :=
  List.map_snd_zip (Token.length_positions 0 (lexemes line)).ge

theorem map_locatedTokens (line : Text) :
    (locatedTokens line).map (fun s => (s.1, s.2.unlabelled)) =
      (Lexeme.locate 0 (lexemes line)).filterMap fun s => s.2.token?.map fun t => (s.1, t) :=
  Token.map_unlabelled_located 0 (lexemes line)

/-- A token is one of the lexemes, at its position. -/
theorem exists_lexeme_of_mem (h : (p, t) ∈ locatedTokens line) :
    ∃ l, (p, l) ∈ Lexeme.locate 0 (lexemes line) ∧ l.token? = some t.unlabelled ∧
      l.text = t.text := by
  have hmem := List.mem_map_of_mem (f := fun s : Nat × Token => (s.1, s.2.unlabelled)) h
  rw [map_locatedTokens] at hmem
  obtain ⟨⟨q, l⟩, hl, heq⟩ := List.mem_filterMap.1 hmem
  obtain ⟨t', ht', heq⟩ := Option.map_eq_some_iff.1 heq
  cases heq
  exact ⟨l, hl, ht', by rw [← Lexeme.text_of_token? ht', Token.text_unlabelled]⟩

/-- A lexeme that is a connector or a reference is a token, at its position. -/
theorem exists_token_of_mem (h : (p, l) ∈ Lexeme.locate 0 (lexemes line)) (ht : l.token? = some t) :
    ∃ t', (p, t') ∈ locatedTokens line ∧ t'.text = l.text := by
  have hmem : (p, t) ∈ (locatedTokens line).map fun s => (s.1, s.2.unlabelled) := by
    rw [map_locatedTokens]
    exact List.mem_filterMap.2 ⟨(p, l), h, by simp [ht]⟩
  obtain ⟨⟨q, t'⟩, ht', heq⟩ := List.mem_map.1 hmem
  cases heq
  exact ⟨t', ht', by rw [← Lexeme.text_of_token? ht, Token.text_unlabelled]⟩

theorem mem_locatedLabels {label : Text} :
    (p, label) ∈ locatedLabels line ↔ (p, .pipe label) ∈ Lexeme.locate 0 (lexemes line) := by
  constructor
  · intro h
    obtain ⟨⟨q, l⟩, hl, heq⟩ := List.mem_filterMap.1 h
    obtain ⟨label', hlabel, heq⟩ := Option.map_eq_some_iff.1 heq
    cases l <;> cases hlabel
    cases heq
    exact hl
  · intro h
    exact List.mem_filterMap.2 ⟨(p, .pipe label), h, rfl⟩

/-- A stray character opens neither an id nor a connector. -/
theorem stray_of_mem {c : Char} (h : (p, .stray c) ∈ Lexeme.locate 0 (lexemes line)) :
    (∀ d ∈ (line.drop p).head?, isIdChar d = false) ∧ Connector.token? (line.drop p) = none := by
  obtain ⟨d, u, rest, hdrop, hread⟩ := read_of_mem h
  rw [hdrop]
  rcases Lexeme.read_cases hread with
    ⟨_, he, -⟩ | ⟨htoken, ⟨_, he, -⟩ | ⟨_, he, -⟩ | ⟨he, -, hnode⟩⟩ <;> cases he
  refine ⟨fun e he => ?_, htoken⟩
  cases he
  by_contra hid
  have hsome := Reference.isSome_read? (by simpa using hid) u
  rw [hnode] at hsome
  cases hsome

end Line

/-! ## What is left of a line -/

/-- How tokens and labels between bars stand in a line, and what is left between them. -/
structure Segmented (line : Text) (ts : List (Nat × Token)) (labels : List (Nat × Text)) :
    Prop where
  /-- The tokens follow one another, and none goes on where the next one begins. -/
  ordered : ts.Pairwise fun s s' => s.1 < s'.1 ∧ s.1 + s.2.text.length ≤ s'.1
  spelled : ∀ s ∈ ts, s.2.text ≠ [] ∧ s.2.text <+: line.drop s.1
  /-- A label in brackets ends at the first closer or connector. -/
  framed : ∀ s ∈ ts, ∀ n ∈ s.2.node?, ∀ f ∈ n.frame,
    ¬f.shape.closer <:+: f.label ∧ Connector.Free f.label
  barred : ∀ s ∈ labels, '|' :: s.2 ++ ['|'] <+: line.drop s.1 ∧ ∀ c ∈ s.2, c ≠ '|' ∧ c ≠ '\n'
  apart : ∀ s ∈ ts, ∀ s' ∈ labels, ∀ i, Within s.1 s.2.text i →
    ¬Within s'.1 ('|' :: s'.2 ++ ['|']) i
  /-- What is left is neither in an id nor the beginning of a connector. -/
  left : ∀ i, (∀ s ∈ ts, ¬Within s.1 s.2.text i) →
    (∀ s ∈ labels, ¬Within s.1 ('|' :: s.2 ++ ['|']) i) →
      (∀ c ∈ (line.drop i).head?, isIdChar c = false) ∧ Connector.token? (line.drop i) = none

theorem pairwise_locatedTokens (line : Text) :
    (locatedTokens line).Pairwise fun s s' => s.1 < s'.1 ∧ s.1 + s.2.text.length ≤ s'.1 := by
  have hends : (locatedTokens line).Pairwise fun s s' => s.1 + s.2.text.length ≤ s'.1 := by
    have hmap : ((locatedTokens line).map fun s => (s.1, s.2.unlabelled)).Pairwise
        fun s s' => s.1 + s.2.text.length ≤ s'.1 := by
      rw [map_locatedTokens]
      refine (Lexeme.pairwise_locate 0 (lexemes line)).filterMap _ ?_
      rintro ⟨p, l⟩ ⟨q, l'⟩ hle s hs s' hs'
      obtain ⟨t, ht, rfl⟩ := Option.map_eq_some_iff.1 hs
      obtain ⟨t', -, rfl⟩ := Option.map_eq_some_iff.1 hs'
      rw [Lexeme.text_of_token? ht]
      exact hle
    refine (List.pairwise_map.1 hmap).imp fun {s s'} hle => ?_
    rwa [Token.text_unlabelled] at hle
  refine hends.imp_of_mem fun {s s'} hs _ hle => ⟨?_, hle⟩
  obtain ⟨l, hl, -, htext⟩ := exists_lexeme_of_mem hs
  have := List.length_pos_iff.2 (spelled_of_mem hl).1
  rw [htext] at this
  omega

/-- Different lexemes have no position in common. -/
theorem apart_of_mem {line : Text} {p q : Nat} {l l' : Lexeme}
    (h : (p, l) ∈ Lexeme.locate 0 (lexemes line)) (h' : (q, l') ∈ Lexeme.locate 0 (lexemes line))
    (hne : l ≠ l') {i : Nat} (hi : Within p l.text i) : ¬Within q l'.text i := by
  rintro ⟨hq, hlt⟩
  rcases Lexeme.apart_of_mem_locate h h' (by simp [hne]) with hle | hle
  · exact absurd (Nat.le_trans hle hq) (Nat.not_le.2 hi.2)
  · exact absurd (Nat.le_trans hle hi.1) (Nat.not_le.2 hlt)

/-- Where neither a token nor a label between bars stands, a stray character does. -/
theorem exists_stray {line : Text} {i : Nat} (hi : i < line.length)
    (htokens : ∀ s ∈ locatedTokens line, ¬Within s.1 s.2.text i)
    (hlabels : ∀ s ∈ locatedLabels line, ¬Within s.1 ('|' :: s.2 ++ ['|']) i) :
    ∃ c, (i, .stray c) ∈ Lexeme.locate 0 (lexemes line) := by
  obtain ⟨⟨p, l⟩, hl, hwithin⟩ := Lexeme.exists_mem_locate (i := i) (Nat.zero_le i)
    (by rw [text_lexemes, Nat.zero_add]; exact hi)
  cases l with
  | connector token =>
    obtain ⟨t, ht, htext⟩ := exists_token_of_mem hl rfl
    exact absurd (htext ▸ hwithin) (htokens _ ht)
  | node n =>
    obtain ⟨t, ht, htext⟩ := exists_token_of_mem hl rfl
    exact absurd (htext ▸ hwithin) (htokens _ ht)
  | pipe label => exact absurd hwithin (hlabels _ (mem_locatedLabels.2 hl))
  | stray c =>
    -- A stray character stands at no other position than its own.
    obtain rfl : p = i := by
      obtain ⟨hp, hlt⟩ := hwithin
      simp only [Lexeme.text, List.length_singleton] at hp hlt
      omega
    exact ⟨c, hl⟩

theorem length_lexemes_le (line : Text) : (lexemes line).length ≤ line.length := by
  fun_induction lexemes line with
  | case1 => exact Nat.le_refl _
  | case2 c t ih => exact Nat.succ_le_of_lt (Nat.lt_of_le_of_lt ih (Lexeme.length_read_lt c t))

/-- The tokens of a line are read in no more steps than the line has characters. They stand one
behind the other, each spelled at its position, and what neither they nor the labels between bars
take of the line belongs to no id and begins no connector. -/
theorem segmented_line (line : Text) :
    (lexemes line).length ≤ line.length ∧ (locatedTokens line).map Prod.snd = tokens line ∧
      Segmented line (locatedTokens line) (locatedLabels line) := by
  refine ⟨length_lexemes_le line, snd_locatedTokens line, ⟨pairwise_locatedTokens line, ?spelled,
    ?framed, ?barred, ?apart, ?left⟩⟩
  case spelled =>
    rintro ⟨p, t⟩ ht
    obtain ⟨l, hl, -, htext⟩ := exists_lexeme_of_mem ht
    have := spelled_of_mem hl
    rwa [htext] at this
  case framed =>
    rintro ⟨p, t⟩ ht n hn f hf
    obtain ⟨l, hl, htoken, -⟩ := exists_lexeme_of_mem ht
    obtain ⟨c, u, rest, -, hread⟩ := read_of_mem hl
    cases t <;> cases hn
    cases l <;> cases htoken
    have hnode := Lexeme.read?_of_read hread
    exact ⟨Reference.not_closer_infix_label hnode hf, Reference.free_label_of_read? hnode hf⟩
  case barred =>
    rintro ⟨p, label⟩ hmem
    have hl := mem_locatedLabels.1 hmem
    obtain ⟨c, u, rest, -, hread⟩ := read_of_mem hl
    have hlabel := (Connector.pipe?_eq_some_iff.1 (Lexeme.pipe?_of_read hread)).2
    exact ⟨(spelled_of_mem hl).2, fun d hd => by simpa using hlabel d hd⟩
  case apart =>
    rintro ⟨p, t⟩ ht ⟨q, label⟩ hlabel i hi
    obtain ⟨l, hl, htoken, htext⟩ := exists_lexeme_of_mem ht
    refine apart_of_mem hl (mem_locatedLabels.1 hlabel) ?_ (htext ▸ hi)
    rintro rfl
    cases htoken
  case left =>
    intro i htokens hlabels
    by_cases hi : i < line.length
    · obtain ⟨c, hc⟩ := exists_stray hi htokens hlabels
      exact stray_of_mem hc
    · have hdrop : line.drop i = [] := List.drop_eq_nil_of_le (Nat.le_of_not_lt hi)
      rw [hdrop]
      exact ⟨by simp, rfl⟩

end Flowmend
