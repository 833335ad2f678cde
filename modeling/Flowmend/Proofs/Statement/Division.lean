import Flowmend.Proofs.Statement.Barless

/-!
# Lines divided at their connectors

The sides of a chain are the stretches of its line between the connectors, trimmed, and hold no
connector themselves (`Divided`). A chain is found by a search that starts again behind the label of
each connector. The `occurrences` of connectors in a line go on through these labels; if those that
start before the end of a label are left out, they are the connectors of the chain
(`Chain.cutAt_occurrences`), so no label hides a connector behind it.
-/

namespace Flowmend

open Text

/-! ## Occurrences -/

namespace Connector

/-- The occurrences of connectors in a text that starts at `pos`, each the first one behind the one
before it. -/
def occurrencesFrom (pos : Nat) (t : Text) : List (Nat × Text) :=
  match _h : find? t with
  | none => []
  | some f =>
    (pos + f.before.length, f.token) ::
      occurrencesFrom (pos + f.before.length + f.token.length) f.rest
termination_by t.length
decreasing_by
  obtain ⟨happend, hne⟩ := eq_append_of_find? _h
  have := congrArg List.length happend
  have := List.length_pos_iff.2 hne
  simp only [List.length_append] at *
  omega

/-- The occurrences of connectors in a line, also those within labels between bars. -/
def occurrences (line : Text) : List (Nat × Text) := occurrencesFrom 0 line

theorem occurrencesFrom_of_free {t : Text} (h : Free t) (pos : Nat) :
    occurrencesFrom pos t = [] := by
  rw [occurrencesFrom]
  split
  · rfl
  · rename_i f hf
    cases hf.symm.trans h

theorem occurrencesFrom_of_find? {t : Text} {f : Found} (h : find? t = some f) (pos : Nat) :
    occurrencesFrom pos t = (pos + f.before.length, f.token) ::
      occurrencesFrom (pos + f.before.length + f.token.length) f.rest := by
  conv => lhs; rw [occurrencesFrom]
  split
  · rename_i hnone
    cases hnone.symm.trans h
  · rename_i g hg
    cases hg.symm.trans h
    rfl

/-- A stretch that no connector begins in is passed over. -/
theorem Passes.occurrencesFrom_append {w t : Text} (h : Passes w t) (pos : Nat) :
    occurrencesFrom pos (w ++ t) = occurrencesFrom (pos + w.length) t := by
  have hfind := h.find?_append
  cases hf : find? t with
  | none =>
    rw [hf] at hfind
    rw [occurrencesFrom_of_free hfind, occurrencesFrom_of_free hf]
  | some f =>
    rw [hf] at hfind
    rw [occurrencesFrom_of_find? hfind, occurrencesFrom_of_find? hf]
    simp only [List.length_append, Nat.add_assoc]

/-- No connector runs over a character that belongs to none. -/
theorem occurrencesFrom_append_stop (pos : Nat) (t : Text) {c : Char} (hc : isStroke c = false)
    (u : Text) : occurrencesFrom pos (t ++ c :: u) =
      occurrencesFrom pos t ++ occurrencesFrom (pos + t.length + 1) u := by
  fun_induction occurrencesFrom pos t with
  | case1 pos t hfree =>
    have hpasses : Passes (t ++ [c]) u := by
      refine passes_append.2 ⟨Free.passes hfree hc u, passes_of_not_stroke ?_ u⟩
      simpa using hc
    have := hpasses.occurrencesFrom_append pos
    rwa [List.append_assoc, List.length_append, ← Nat.add_assoc] at this
  | case2 pos t f hf ih =>
    have hlength := congrArg List.length (eq_append_of_find? hf).1
    simp only [List.length_append] at hlength
    have hbehind : pos + f.before.length + f.token.length + f.rest.length = pos + t.length := by
      omega
    rw [occurrencesFrom_of_find? (find?_append_stop hf hc u)]
    simp only [List.cons_append, ih, hbehind]

/-- All occurrences start within the text. -/
theorem lt_of_mem_occurrencesFrom {pos : Nat} {t : Text} {m : Nat × Text}
    (h : m ∈ occurrencesFrom pos t) : m.1 < pos + t.length := by
  fun_induction occurrencesFrom pos t with
  | case1 => cases h
  | case2 pos t f hf ih =>
    obtain ⟨happend, hne⟩ := eq_append_of_find? hf
    have hlength := congrArg List.length happend
    have hpos := List.length_pos_iff.2 hne
    simp only [List.length_append] at hlength
    rcases List.mem_cons.1 h with rfl | h
    · simp only []
      omega
    · have := ih h
      omega

end Connector

/-! ## The cut at the occurrences -/

namespace Chain

/-- The chain of a line from the position `last` on, cut at the occurrences that do not start before
it. Behind each one, its label is left out before the next side starts. -/
def cutAt (line : Text) (last : Nat) : List (Nat × Text) → Chain
  | [] => ⟨line.drop last, []⟩
  | (pos, token) :: ms =>
    if pos < last then cutAt line last ms
    else
      let tail := readTail (line.drop (pos + token.length))
      let after := cutAt line (pos + token.length + tail.gap.length) ms
      ⟨line.extract last pos, ⟨⟨token, tail.label⟩, tail.gap, after.first⟩ :: after.links⟩

/-- Occurrences before the start are left out. -/
theorem cutAt_append {line : Text} {last : Nat} {ms : List (Nat × Text)}
    (h : ∀ m ∈ ms, m.1 < last) (ms' : List (Nat × Text)) :
    cutAt line last (ms ++ ms') = cutAt line last ms' := by
  induction ms with
  | nil => rfl
  | cons m ms ih =>
    rw [List.cons_append, cutAt, if_pos (h m List.mem_cons_self),
      ih fun m' hm' => h m' (List.mem_cons_of_mem m hm')]

/-- Behind a label, the cut goes on with the occurrences behind it: no connector runs over the bar
at its end. -/
theorem cutAt_gap (line : Text) (pos : Nat) (gap : Text) (hbar : ∀ c ∈ gap.getLast?, c = '|')
    (t : Text) : cutAt line (pos + gap.length) (Connector.occurrencesFrom pos (gap ++ t)) =
      cutAt line (pos + gap.length) (Connector.occurrencesFrom (pos + gap.length) t) := by
  rcases List.eq_nil_or_concat' gap with rfl | ⟨g, c, rfl⟩
  · rfl
  · obtain rfl : c = '|' := hbar c List.getLast?_concat
    rw [List.append_assoc, List.singleton_append,
      Connector.occurrencesFrom_append_stop pos g (by decide), cutAt_append,
      List.length_append, List.length_singleton, Nat.add_assoc]
    intro m hm
    have := Connector.lt_of_mem_occurrencesFrom hm
    rw [List.length_append, List.length_singleton]
    omega

/-- Behind `p`, the first connector of a text stands where it is found, and the rest of its chain
behind its label. -/
theorem append_of_find? (p : Text) {t : Text} {f : Connector.Found}
    (h : Connector.find? t = some f) :
    (p ++ t).drop (p.length + f.before.length) = f.token ++ f.rest ∧
      (p ++ t).drop (p.length + f.before.length + f.token.length) = f.rest ∧
      p ++ f.before ++ f.token ++ (readTail f.rest).gap ++ (readTail f.rest).rest = p ++ t := by
  have htext : p ++ t = p ++ f.before ++ (f.token ++ f.rest) := by
    rw [(Connector.eq_append_of_find? h).1]
    simp
  have htoken : (p ++ t).drop (p.length + f.before.length) = f.token ++ f.rest := by
    rw [htext, ← List.length_append, List.drop_left]
  refine ⟨htoken, ?_, ?_⟩
  · rw [← List.drop_drop, htoken, List.drop_left]
  · rw [htext, List.append_assoc _ (readTail f.rest).gap, ← readTail_append, List.append_assoc]

/-- The cut of the text behind `p` is its chain. -/
theorem cutAt_occurrencesFrom (p t : Text) :
    cutAt (p ++ t) p.length (Connector.occurrencesFrom p.length t) = ofText t := by
  fun_induction ofText t generalizing p with
  | case1 t hfree => rw [Connector.occurrencesFrom_of_free hfree, cutAt, List.drop_left]
  | case2 t f hf after ih =>
    obtain ⟨-, hrest, hline⟩ := append_of_find? p hf
    have hside : (p ++ t).extract p.length (p.length + f.before.length) = f.before := by
      rw [(Connector.eq_append_of_find? hf).1, List.extract_eq_take_drop, List.drop_left]
      simp
    have hcut := cutAt_gap (p ++ t) (p.length + f.before.length + f.token.length)
      (readTail f.rest).gap getLast?_gap (readTail f.rest).rest
    have ih := ih (p ++ f.before ++ f.token ++ (readTail f.rest).gap)
    rw [hline] at ih
    simp only [List.length_append] at ih
    rw [← readTail_append, ih] at hcut
    rw [Connector.occurrencesFrom_of_find? hf, cutAt, if_neg (by omega), hrest, hside]
    simp only [hcut, after]

/-- The chain of a line is its cut at the occurrences of connectors in the whole line. -/
theorem cutAt_occurrences (line : Text) :
    cutAt line 0 (Connector.occurrences line) = ofText line := cutAt_occurrencesFrom [] line

end Chain

/-! ## The ends of connectors -/

namespace Connector

/-- The text is the label between bars, with spaces and tabs before it. -/
def Bars (label t : Text) : Prop :=
  (∀ c ∈ label, c ≠ '|' ∧ c ≠ '\n') ∧
    ∃ pads, (∀ c ∈ pads, isPad c = true) ∧ t = pads ++ '|' :: label ++ ['|']

/-- What a connector takes of the text behind its token: a label between bars that stands there, and
nothing if none does. -/
inductive Takes (t : Text) : Option Text → Text → Prop
  | none (hnone : ∀ label gap, Bars label gap → ¬gap <+: t) : Takes t none []
  | some {label gap : Text} (hbars : Bars label gap) (hgap : gap <+: t) : Takes t (some label) gap

/-- The connector is read in the line at `pos`, and it ends at `stop`, behind what it takes. -/
structure Spans (line : Text) (pos : Nat) (k : Connector) (stop : Nat) : Prop where
  read : token? (line.drop pos) = some (k.token, line.drop (pos + k.token.length))
  takes : ∃ gap, Takes (line.drop (pos + k.token.length)) k.label gap ∧
    stop = pos + k.token.length + gap.length

/-- What is left out behind a connector is what it takes. -/
theorem takes_readTail (t : Text) : Takes t (Chain.readTail t).label (Chain.readTail t).gap := by
  cases hp : pipe? (t.dropWhile isPad) with
  | none =>
    have htail : Chain.readTail t = ⟨.none, [], t⟩ := by rw [Chain.readTail, hp]
    rw [htail]
    refine .none fun label gap hbars hgap => ?_
    obtain ⟨hlabel, pads, hpads, rfl⟩ := hbars
    obtain ⟨u, rfl⟩ := hgap
    have happend : pads ++ '|' :: label ++ ['|'] ++ u = pads ++ '|' :: (label ++ '|' :: u) := by
      simp
    rw [happend, Chain.readTail_pads_pipe hpads hlabel u] at htail
    cases htail
  | some p =>
    obtain ⟨label, rest⟩ := p
    have htail : Chain.readTail t =
        ⟨.some label, t.takeWhile isPad ++ '|' :: label ++ ['|'], rest⟩ := by
      rw [Chain.readTail, hp]
    have hgap : (Chain.readTail t).gap <+: t := ⟨_, (Chain.readTail_append t).symm⟩
    rw [htail] at hgap ⊢
    refine .some ⟨?_, _, fun c hc => List.mem_takeWhile_imp hc, rfl⟩ hgap
    simpa using (pipe?_eq_some_iff.1 hp).2

end Connector

namespace Chain

/-- The positions behind connectors and their labels, if the first connector stands at `pos`. -/
def stopsFrom (pos : Nat) : List Link → List Nat
  | [] => []
  | l :: ls =>
    (pos + l.connector.token.length + l.gap.length) :: stopsFrom (pos + (linkText l).length) ls

/-- The connectors of a text behind `p` are read there, and end behind their labels. -/
theorem spans_ofText (p t : Text) :
    let pos := p.length + (ofText t).first.length
    List.Forall₂ (fun k stop => Connector.Spans (p ++ t) k.1 k.2 stop)
      ((positionsFrom pos (ofText t).links).zip (ofText t).connectors)
      (stopsFrom pos (ofText t).links) := by
  fun_induction ofText t generalizing p with
  | case1 => exact .nil
  | case2 t f hf after ih =>
    obtain ⟨htoken, hrest, hline⟩ := append_of_find? p hf
    refine .cons ⟨?_, (readTail f.rest).gap, ?_, rfl⟩ ?_
    · rw [htoken, hrest]
      exact (Connector.token?_before hf).1
    · rw [hrest]
      exact Connector.takes_readTail f.rest
    · -- The next connector stands as far behind the token as the link is long.
      have hpos : (p ++ f.before ++ f.token ++ (readTail f.rest).gap).length + after.first.length =
          p.length + f.before.length + (linkText ⟨⟨f.token, (readTail f.rest).label⟩,
            (readTail f.rest).gap, after.first⟩).length := by
        simp only [linkText, List.length_append, Nat.add_assoc]
      have ih := ih (p ++ f.before ++ f.token ++ (readTail f.rest).gap)
      rw [hline, hpos] at ih
      exact ih

/-- The stretches of a line between its connectors are the sides. -/
theorem extract_stops (p first : Text) (ls : List Link) :
    let line := p ++ first ++ ls.flatMap linkText
    let starts := p.length :: stopsFrom (p.length + first.length) ls
    let ends := positionsFrom (p.length + first.length) ls ++ [line.length]
    List.Forall₂ (· ≤ ·) starts ends ∧
      List.zipWith (fun start stop => line.extract start stop) starts ends =
        first :: ls.map Link.side := by
  induction ls generalizing p first with
  | nil =>
    refine ⟨.cons (by simp) .nil, ?_⟩
    simp [stopsFrom, positionsFrom, List.extract_eq_take_drop]
  | cons l ls ih =>
    have hline : p ++ first ++ l.connector.token ++ l.gap ++ l.side ++ ls.flatMap linkText =
        p ++ first ++ (l :: ls).flatMap linkText := by
      simp [linkText]
    have hstop : (p ++ first ++ l.connector.token ++ l.gap).length =
        p.length + first.length + l.connector.token.length + l.gap.length := by
      simp only [List.length_append]
    have hnext : p.length + first.length + l.connector.token.length + l.gap.length + l.side.length =
        p.length + first.length + (linkText l).length := by
      simp only [linkText, List.length_append, Nat.add_assoc]
    obtain ⟨hordered, hsides⟩ := ih (p ++ first ++ l.connector.token ++ l.gap) l.side
    rw [hline, hstop, hnext] at hordered hsides
    refine ⟨.cons (Nat.le_add_right _ _) hordered, ?_⟩
    rw [stopsFrom, positionsFrom, List.cons_append, List.zipWith_cons_cons, hsides]
    simp [List.extract_eq_take_drop]

theorem le_of_mem_positionsFrom {pos q : Nat} {ls : List Link} (h : q ∈ positionsFrom pos ls) :
    pos ≤ q := by
  induction ls generalizing pos with
  | nil => cases h
  | cons l ls ih =>
    rcases List.mem_cons.1 h with rfl | h
    · exact Nat.le_refl _
    · exact Nat.le_trans (Nat.le_add_right _ _) (ih h)

/-- The connectors stand one behind the other, as none of them is empty. -/
theorem pairwise_positionsFrom (pos : Nat) {ls : List Link}
    (h : ∀ l ∈ ls, l.connector.token ≠ []) : (positionsFrom pos ls).Pairwise (· < ·) := by
  induction ls generalizing pos with
  | nil => exact .nil
  | cons l ls ih =>
    refine .cons (fun q hq => ?_) (ih _ fun m hm => h m (List.mem_cons_of_mem l hm))
    have := le_of_mem_positionsFrom hq
    have := List.length_pos_iff.2 (h l List.mem_cons_self)
    simp only [linkText, List.length_append] at *
    omega

end Chain

/-! ## The sides of a line -/

/-- The line is divided into sides by connectors, each with its position, that end at the stops. -/
structure Divided (line : Text) (sides : List Text) (ks : List (Nat × Connector))
    (stops : List Nat) : Prop where
  /-- There is one side more than connectors. -/
  length_sides : sides.length = ks.length + 1
  /-- Each connector is read where it stands. -/
  spans : List.Forall₂ (fun k stop => Connector.Spans line k.1 k.2 stop) ks stops
  /-- The connectors stand one behind the other. -/
  increasing : (ks.map Prod.fst).Pairwise (· < ·)
  /-- No connector stands before the one before it ends. -/
  ordered : List.Forall₂ (· ≤ ·) (0 :: stops) (ks.map Prod.fst ++ [line.length])
  /-- The sides are the stretches between the connectors, trimmed. -/
  sides_eq : sides = List.zipWith (fun start stop => trim (line.extract start stop)) (0 :: stops)
    (ks.map Prod.fst ++ [line.length])
  /-- No connector is left in a side. -/
  free : ∀ side ∈ sides, Connector.Free side

theorem Chain.divided_ofText (line : Text) :
    let c := ofText line
    Divided line c.sides c.locatedConnectors (stopsFrom c.first.length c.links) := by
  intro c
  have hpositions : c.locatedConnectors.map Prod.fst = positionsFrom c.first.length c.links :=
    c.map_fst_locatedConnectors
  have hspans := spans_ofText [] line
  obtain ⟨hordered, hstretches⟩ := extract_stops [] c.first c.links
  have hline : [] ++ c.first ++ c.links.flatMap linkText = line := text_ofText line
  rw [hline] at hordered hstretches
  simp only [List.length_nil, Nat.zero_add, List.nil_append] at hspans hordered hstretches
  refine ⟨?_, hspans, ?_, ?_, ?_, fun side hside => ?_⟩
  · rw [← List.length_map Prod.fst, hpositions, length_positionsFrom, sides, List.length_cons,
      List.length_map]
  · rw [hpositions]
    exact pairwise_positionsFrom _ fun l hl => (of_mem_links_ofText hl).1.ne_nil
  · rwa [hpositions]
  · rw [hpositions, ← List.map_zipWith, hstretches, sides, List.map_cons, List.map_map]
    rfl
  · rcases List.mem_cons.1 hside with rfl | hside
    · exact (free_first_ofText line).within (infix_trim _)
    · obtain ⟨l, hl, rfl⟩ := List.mem_map.1 hside
      exact (of_mem_links_ofText hl).2.within (infix_trim _)

/-- A line is divided at its connectors without loss: from its start to its end, sides and
connectors take turns, and no side holds a connector. So the line has no connector just if none is
found in it. The connectors are those that occur in the line, but for the ones that start within the
label of another. -/
theorem divided_line (line : Text) :
    let c := Chain.ofText line
    (∃ stops, Divided line c.sides c.locatedConnectors stops) ∧
      c.locatedConnectors.map Prod.snd = c.connectors ∧
      (c.connectors = [] ↔ Connector.Free line) ∧
      Chain.cutAt line 0 (Connector.occurrences line) = c := by
  intro c
  refine ⟨⟨_, Chain.divided_ofText line⟩, c.map_snd_locatedConnectors, ?_,
    Chain.cutAt_occurrences line⟩
  rw [Chain.connectors, List.map_eq_nil_iff]
  exact Chain.links_ofText_eq_nil

/-- The second arrow stands in the label of the first one. -/
example :
    let line := "A -->|x --> y| B".toList
    Connector.occurrences line = [(2, "-->".toList), (8, "-->".toList)] ∧
      (Chain.ofText line).locatedConnectors = [(2, ⟨"-->".toList, some "x --> y".toList⟩)] ∧
      (Chain.ofText line).sides = [['A'], ['B']] := by
  decide +kernel

end Flowmend
