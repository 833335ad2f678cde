import Flowmend.Proofs.Text.Scan
import Flowmend.Statement.Connector
import Mathlib.Data.List.Infix

/-!
# Where connectors are found

* `token?_append_stop`: a connector is read up to a character that belongs to none, whatever
  follows.
* `Passes`: a stretch of a text that no connector begins in. The search passes over it
  (`Passes.find?_append`).
* `Free`: a text without connectors. `find?_append_token` finds the first connector after such a
  text.
* `IsToken`: a text that is one connector. `IsToken.token?_suffix`: what is read at a later
  position of a connector also runs to its end.
-/

namespace Flowmend.Connector

open Text

/-- A character that connectors are made of. -/
def isStroke (c : Char) : Bool := c == '-' || c == '=' || c == '.' || c == '<' || c == '>'

/-! ## Reading up to a stop -/

section Stop

variable {c : Char}

theorem both?_append_stop (t : Text) (h : isStroke c = false) (u : Text) :
    both? (t ++ c :: u) = (both? t).map fun p => (p.1, p.2 ++ c :: u) := by
  simp only [isStroke, Bool.or_eq_false_iff, beq_eq_false_iff_ne] at h
  have hp : ∀ p ∈ [['<', '-', '.', '-', '>'], ['<', '=', '=', '>'], ['<', '-', '-', '>']],
      c ∉ p := by
    simp [h]
  unfold both?
  generalize [['<', '-', '.', '-', '>'], ['<', '=', '=', '>'], ['<', '-', '-', '>']] = ps at hp ⊢
  induction ps with
  | nil => rfl
  | cons p ps ih =>
    rw [List.findSome?_cons, List.findSome?_cons, after?_append_stop t (hp p List.mem_cons_self)]
    cases after? p t with
    | some r => rfl
    | none => exact ih fun q hq => hp q (List.mem_cons_of_mem p hq)

theorem dotted?_append_stop (t : Text) (h : isStroke c = false) (u : Text) :
    dotted? (t ++ c :: u) = (dotted? t).map fun p => (p.1, p.2 ++ c :: u) := by
  simp only [isStroke, Bool.or_eq_false_iff, beq_eq_false_iff_ne] at h
  match t with
  | [] => simp [dotted?, h]
  | [a] => simp [dotted?, h]
  | a :: b :: t =>
    by_cases hab : a = '-' ∧ b = '.'
    · obtain ⟨rfl, rfl⟩ := hab
      have hc : (c == '.') = false := by simp [h]
      simp only [List.cons_append, dotted?, takeWhile_append_stop (· == '.') t hc,
        dropWhile_append_stop (· == '.') t hc]
      match t.dropWhile (· == '.') with
      | [] => simp [h]
      | [d] =>
        by_cases hd : d = '-'
        · simp [hd, h]
        · simp [hd]
      | d :: e :: r =>
        by_cases hd : d = '-'
        · by_cases he : e = '>'
          · simp [hd, he]
          · simp [hd, he]
        · simp [hd]
    · have h₁ : dotted? (a :: b :: t) = none := by
        unfold dotted?
        split
        · rename_i he; cases he; simp at hab
        · rfl
      have h₂ : dotted? (a :: b :: t ++ c :: u) = none := by
        unfold dotted?
        split
        · rename_i he; cases he; simp at hab
        · rfl
      rw [h₁, h₂]; rfl

theorem run?_append_stop {stroke : Char} (t : Text) (hs : stroke = '-' ∨ stroke = '=')
    (h : isStroke c = false) (u : Text) :
    run? stroke (t ++ c :: u) = (run? stroke t).map fun p => (p.1, p.2 ++ c :: u) := by
  simp only [isStroke, Bool.or_eq_false_iff, beq_eq_false_iff_ne] at h
  have hc : (c == stroke) = false := by rcases hs with rfl | rfl <;> simp [h]
  simp only [run?, takeWhile_append_stop (· == stroke) t hc,
    dropWhile_append_stop (· == stroke) t hc]
  match t.dropWhile (· == stroke) with
  | [] =>
    simp only [List.nil_append]
    split
    · rename_i he; cases he; simp at h
    · split <;> rfl
  | d :: r =>
    by_cases hd : d = '>'
    · subst hd
      simp only [List.cons_append]
      split <;> rfl
    · simp only [List.cons_append]
      split
      · rename_i he; cases he; exact absurd rfl hd
      · split <;> simp_all

/-- A connector is read up to a character that belongs to none, whatever follows. -/
theorem token?_append_stop (t : Text) (h : isStroke c = false) (u : Text) :
    token? (t ++ c :: u) = (token? t).map fun p => (p.1, p.2 ++ c :: u) := by
  simp only [token?, both?_append_stop t h, dotted?_append_stop t h,
    run?_append_stop t (.inl rfl) h, run?_append_stop t (.inr rfl) h]
  cases both? t <;> cases dotted? t <;> cases run? '-' t <;> cases run? '=' t <;> rfl

/-- The first connector of a text is found up to such a character, whatever follows. -/
theorem find?_append_stop {t : Text} {f : Found} (hf : find? t = some f) (h : isStroke c = false)
    (u : Text) : find? (t ++ c :: u) = some { f with rest := f.rest ++ c :: u } := by
  induction t generalizing f with
  | nil => cases hf
  | cons d t ih =>
    have htoken := token?_append_stop (d :: t) h u
    rw [List.cons_append] at htoken ⊢
    rw [find?] at hf ⊢
    rw [htoken]
    cases hd : token? (d :: t) with
    | some p =>
      rw [hd] at hf
      cases hf
      rfl
    | none =>
      rw [hd] at hf
      obtain ⟨g, hg, rfl⟩ := Option.map_eq_some_iff.1 hf
      simp only [Option.map_none, ih hg]
      rfl

/-- A connector starts with a dash, a double stroke or a head. -/
theorem token?_cons_eq_none (t : Text) (h₁ : c ≠ '-') (h₂ : c ≠ '=') (h₃ : c ≠ '<') :
    token? (c :: t) = none := by
  have hb : both? (c :: t) = none := by simp [both?, after?, Ne.symm h₃]
  have hd : dotted? (c :: t) = none := by simp [dotted?, h₁]
  have hr : ∀ stroke, stroke = '-' ∨ stroke = '=' → run? stroke (c :: t) = none := by
    intro stroke hs
    have hc : (c == stroke) = false := by rcases hs with rfl | rfl <;> simp [h₁, h₂]
    simp only [run?, List.takeWhile_cons, List.dropWhile_cons, hc]
    split <;> rfl
  simp [token?, hb, hd, hr]

theorem token?_cons_of_not_stroke (t : Text) (h : isStroke c = false) : token? (c :: t) = none := by
  simp only [isStroke, Bool.or_eq_false_iff, beq_eq_false_iff_ne] at h
  exact token?_cons_eq_none t h.1.1.1.1 h.1.1.1.2 h.1.2

end Stop

/-! ## Stretches that connectors do not begin in -/

/-- No connector begins in `w` where `t` follows. -/
def Passes (w t : Text) : Prop := ∀ y, y <:+ w → y ≠ [] → token? (y ++ t) = none

theorem passes_nil (t : Text) : Passes [] t := fun _ hy hne => absurd (List.suffix_nil.1 hy) hne

theorem Passes.suffix {w t x : Text} (h : Passes w t) (hx : x <:+ w) : Passes x t :=
  fun y hy => h y (hy.trans hx)

theorem passes_cons {c : Char} {w t : Text} :
    Passes (c :: w) t ↔ token? (c :: (w ++ t)) = none ∧ Passes w t := by
  constructor
  · exact fun h => ⟨h _ (List.suffix_refl _) (by simp), h.suffix (List.suffix_cons c w)⟩
  · rintro ⟨hc, hw⟩ y hy hne
    rcases List.suffix_cons_iff.1 hy with rfl | hy
    · exact hc
    · exact hw y hy hne

theorem passes_append {a b t : Text} : Passes (a ++ b) t ↔ Passes a (b ++ t) ∧ Passes b t := by
  induction a with
  | nil => simp [passes_nil]
  | cons c a ih => rw [List.cons_append, passes_cons, passes_cons, ih, List.append_assoc, and_assoc]

theorem passes_of_not_stroke {w : Text} (h : ∀ c ∈ w, isStroke c = false) (t : Text) :
    Passes w t := by
  induction w with
  | nil => exact passes_nil t
  | cons c w ih =>
    exact passes_cons.2 ⟨token?_cons_of_not_stroke _ (h c List.mem_cons_self),
      ih fun d hd => h d (List.mem_cons_of_mem c hd)⟩

/-- The search passes over the stretch. -/
theorem Passes.find?_append {w t : Text} (h : Passes w t) :
    find? (w ++ t) = (find? t).map fun f => { f with before := w ++ f.before } := by
  induction w with
  | nil => simp
  | cons c w ih =>
    obtain ⟨hc, hw⟩ := passes_cons.1 h
    rw [List.cons_append, find?, hc]
    simp only [ih hw, Option.map_map]
    rfl

/-! ## Texts without connectors -/

/-- The text holds no connector. -/
def Free (t : Text) : Prop := find? t = none

instance (t : Text) : Decidable (Free t) := inferInstanceAs (Decidable (find? t = none))

theorem free_nil : Free [] := rfl

theorem free_cons {c : Char} {t : Text} : Free (c :: t) ↔ token? (c :: t) = none ∧ Free t := by
  rw [Free, Free, find?]
  cases token? (c :: t) <;> simp

theorem free_iff {t : Text} : Free t ↔ ∀ x, x <:+ t → token? x = none := by
  induction t with
  | nil => simp [free_nil, List.suffix_nil]; decide
  | cons c t ih => simp only [free_cons, ih, List.suffix_cons_iff, forall_eq_or_imp]

theorem Free.token?_suffix {t x : Text} (h : Free t) (hx : x <:+ t) : token? x = none :=
  free_iff.1 h x hx

theorem Free.suffix {t x : Text} (h : Free t) (hx : x <:+ t) : Free x :=
  free_iff.2 fun _ hy => h.token?_suffix (hy.trans hx)

/-- Other characters than those of connectors may stand before a free text. -/
theorem Free.append_left {t u : Text} (h : ∀ c ∈ t, isStroke c = false) (hu : Free u) :
    Free (t ++ u) := by
  induction t with
  | nil => exact hu
  | cons c t ih =>
    exact free_cons.2 ⟨token?_cons_of_not_stroke _ (h c List.mem_cons_self),
      ih fun d hd => h d (List.mem_cons_of_mem c hd)⟩

/-- The search passes over other characters than those of connectors. -/
theorem find?_append_left {t : Text} (h : ∀ c ∈ t, isStroke c = false) (u : Text) :
    find? (t ++ u) = (find? u).map fun f => { f with before := t ++ f.before } :=
  (passes_of_not_stroke h u).find?_append

theorem free_of_not_stroke {t : Text} (h : ∀ c ∈ t, isStroke c = false) : Free t := by
  simpa using Free.append_left h free_nil

theorem Free.passes {t : Text} {c : Char} (ht : Free t) (h : isStroke c = false) (u : Text) :
    Passes t (c :: u) := by
  intro y hy _
  rw [token?_append_stop y h u, ht.token?_suffix hy, Option.map_none]

/-- The search goes on behind a free text that ends before a character of no connector. -/
theorem Free.find?_append {t : Text} {c : Char} (ht : Free t) (h : isStroke c = false) (u : Text) :
    find? (t ++ c :: u) = (find? (c :: u)).map fun f => { f with before := t ++ f.before } :=
  (ht.passes h u).find?_append

theorem Free.append {t : Text} {c : Char} {u : Text} (ht : Free t) (h : isStroke c = false)
    (hu : Free (c :: u)) : Free (t ++ c :: u) := by
  rw [Free, ht.find?_append h u, hu, Option.map_none]

/-- Free texts of which the second does not go on as a connector make a free text. -/
theorem Free.append_of_head {t u : Text} (ht : Free t) (hu : Free u)
    (h : ∀ c ∈ u.head?, isStroke c = false) : Free (t ++ u) := by
  cases u with
  | nil => rwa [List.append_nil]
  | cons c u => exact ht.append (h c rfl) hu

/-! ## Single connectors -/

/-- The text is one connector. -/
def IsToken (t : Text) : Prop := token? t = some (t, [])

instance (t : Text) : Decidable (IsToken t) :=
  inferInstanceAs (Decidable (token? t = some (t, [])))

theorem IsToken.ne_nil {t : Text} (h : IsToken t) : t ≠ [] := (eq_append_of_token? h).2

theorem IsToken.token?_append {t : Text} {c : Char} (ht : IsToken t) (h : isStroke c = false)
    (u : Text) : token? (t ++ c :: u) = some (t, c :: u) := by
  rw [token?_append_stop t h u, ht]
  rfl

/-- A connector that a text opens with is the first one. -/
theorem IsToken.find?_append {d : Char} {token : Text} (hk : IsToken token)
    (hd : isStroke d = false) (u : Text) :
    find? (token ++ d :: u) = some ⟨[], token, d :: u⟩ := by
  obtain ⟨e, token', rfl⟩ := List.exists_cons_of_ne_nil hk.ne_nil
  have := hk.token?_append hd u
  rw [List.cons_append] at this ⊢
  simp [find?, this]

/-- The first connector after a free text. -/
theorem find?_append_token {t : Text} {c d : Char} {token : Text} (ht : Free t)
    (hc : isStroke c = false) (hk : IsToken token) (hd : isStroke d = false) (u : Text) :
    find? (t ++ c :: (token ++ d :: u)) = some ⟨t ++ [c], token, d :: u⟩ := by
  rw [ht.find?_append hc, find?, token?_cons_of_not_stroke _ hc, hk.find?_append hd]
  simp

/-! ## The forms of connectors -/

/-- The ways to write a connector. -/
inductive Form : Text → Prop
  | both {t : Text} :
    t ∈ [['<', '-', '.', '-', '>'], ['<', '=', '=', '>'], ['<', '-', '-', '>']] → Form t
  | dotted (n : Nat) {head : Text} : head = [] ∨ head = ['>'] →
    Form ('-' :: '.' :: (List.replicate n '.' ++ '-' :: head))
  | arrow {stroke : Char} {n : Nat} : stroke = '-' ∨ stroke = '=' → 2 ≤ n →
    Form (List.replicate n stroke ++ ['>'])
  | line {stroke : Char} {n : Nat} : stroke = '-' ∨ stroke = '=' → 3 ≤ n →
    Form (List.replicate n stroke)

theorem takeWhile_eq_replicate (a : Char) (t : Text) :
    t.takeWhile (· == a) = List.replicate (t.takeWhile (· == a)).length a :=
  List.eq_replicate_iff.2 ⟨rfl, fun _ hb => by simpa using List.mem_takeWhile_imp hb⟩

theorem form_of_both? {t token rest : Text} (h : both? t = some (token, rest)) : Form token := by
  obtain ⟨p, hp, h⟩ := List.exists_of_findSome?_eq_some h
  obtain ⟨r, -, h⟩ := Option.map_eq_some_iff.1 h
  cases h
  exact .both hp

theorem form_of_dotted? {t token rest : Text} (h : dotted? t = some (token, rest)) :
    Form token := by
  unfold dotted? at h
  split at h
  · rename_i t
    have ht := takeWhile_eq_replicate '.' t
    split at h
    · cases h
      rw [ht]
      exact .dotted _ (.inr rfl)
    · cases h
      rw [ht]
      exact .dotted _ (.inl rfl)
    · cases h
  · cases h

theorem form_of_run? {stroke : Char} {t token rest : Text} (hs : stroke = '-' ∨ stroke = '=')
    (h : run? stroke t = some (token, rest)) : Form token := by
  unfold run? at h
  have ht := takeWhile_eq_replicate stroke t
  split at h
  · simp only [Option.ite_none_right_eq_some, Option.some.injEq, Prod.mk.injEq] at h
    obtain ⟨hl, rfl, -⟩ := h
    rw [ht]
    exact .arrow hs hl
  · simp only [Option.ite_none_right_eq_some, Option.some.injEq, Prod.mk.injEq] at h
    obtain ⟨hl, rfl, -⟩ := h
    rw [ht]
    exact .line hs hl

theorem form_of_token? {t token rest : Text} (h : token? t = some (token, rest)) : Form token := by
  unfold token? at h
  cases hb : both? t with
  | some p => exact form_of_both? (hb.trans (by simpa [hb] using h))
  | none =>
    cases hd : dotted? t with
    | some p => exact form_of_dotted? (hd.trans (by simpa [hb, hd] using h))
    | none =>
      cases hr : run? '-' t with
      | some p => exact form_of_run? (.inl rfl) (hr.trans (by simpa [hb, hd, hr] using h))
      | none => exact form_of_run? (.inr rfl) (by simpa [hb, hd, hr] using h)

theorem Form.isStroke {t : Text} (h : Form t) : ∀ c ∈ t, isStroke c = true := by
  intro c hc
  cases h with
  | both h =>
    simp only [List.mem_cons, List.not_mem_nil, or_false] at h
    rcases h with rfl | rfl | rfl <;> revert c <;> decide
  | dotted n h =>
    have hc : c = '-' ∨ c = '.' ∨ c = '>' := by
      rcases h with rfl | rfl <;> simp at hc <;> tauto
    rcases hc with rfl | rfl | rfl <;> rfl
  | @arrow stroke n h _ =>
    have hc : c = stroke ∨ c = '>' := by simp at hc; tauto
    rcases hc with rfl | rfl
    · rcases h with rfl | rfl <;> rfl
    · rfl
  | line h _ =>
    rw [(List.mem_replicate.1 hc).2]
    rcases h with rfl | rfl <;> rfl

theorem run?_eq_none_of_head {stroke c : Char} (t : Text) (h₁ : c ≠ stroke) (h₂ : c ≠ '>') :
    run? stroke (c :: t) = none := by
  have hc : (c == stroke) = false := by simp [h₁]
  simp only [run?, List.takeWhile_cons, List.dropWhile_cons, hc]
  split
  · rename_i he; cases he; exact absurd rfl h₂
  · rfl

/-- On a run of one stroke, only the run is read. -/
theorem token?_replicate_append {stroke : Char} (hs : stroke = '-' ∨ stroke = '=') (n : Nat)
    {u : Text} (hu : '.' ∉ u.head?) :
    token? (List.replicate (n + 1) stroke ++ u) =
      run? stroke (List.replicate (n + 1) stroke ++ u) := by
  have hb : both? (List.replicate (n + 1) stroke ++ u) = none := by
    rcases hs with rfl | rfl <;> simp [both?, List.replicate_succ, after?]
  have hd : dotted? (List.replicate (n + 1) stroke ++ u) = none := by
    unfold dotted?
    split
    · rename_i he
      cases n with
      | zero =>
        simp only [Nat.zero_add, List.replicate_one, List.singleton_append, List.cons.injEq] at he
        exact absurd (by simp [he.2]) hu
      | succ n =>
        simp only [List.replicate_succ, List.cons_append, List.cons.injEq] at he
        rcases hs with rfl | rfl <;> simp at he
    · rfl
  rcases hs with rfl | rfl
  · have hr : run? '=' (List.replicate (n + 1) '-' ++ u) = none :=
      run?_eq_none_of_head _ (by decide) (by decide)
    simp [token?, hb, hd, hr]
  · have hr : run? '-' (List.replicate (n + 1) '=' ++ u) = none :=
      run?_eq_none_of_head _ (by decide) (by decide)
    simp [token?, hb, hd, hr]

/-- What is read at a tail of a connector runs to its end. -/
def AtEnd (t : Text) : Prop := token? t = none ∨ IsToken t

instance (t : Text) : Decidable (AtEnd t) :=
  inferInstanceAs (Decidable (token? t = none ∨ IsToken t))

theorem atEnd_replicate_arrow {stroke : Char} (hs : stroke = '-' ∨ stroke = '=') (n : Nat) :
    AtEnd (List.replicate (n + 1) stroke ++ ['>']) := by
  have hg : ('>' == stroke) = false := by rcases hs with rfl | rfl <;> rfl
  have h := token?_replicate_append hs n (u := ['>']) (by decide)
  rw [run?, takeWhile_append_stop (· == stroke) _ hg, dropWhile_append_stop (· == stroke) _ hg] at h
  simp only [List.takeWhile_replicate, List.dropWhile_replicate, beq_self_eq_true, if_true,
    List.nil_append, List.length_replicate] at h
  rw [AtEnd, IsToken, h]
  split
  · exact .inr rfl
  · exact .inl rfl

theorem atEnd_replicate {stroke : Char} (hs : stroke = '-' ∨ stroke = '=') (n : Nat) :
    AtEnd (List.replicate (n + 1) stroke) := by
  have h := token?_replicate_append hs n (u := []) (by decide)
  simp only [List.append_nil, run?, List.takeWhile_replicate, List.dropWhile_replicate,
    beq_self_eq_true, if_true, List.length_replicate] at h
  rw [AtEnd, IsToken, h]
  split
  · exact .inr rfl
  · exact .inl rfl

theorem Form.atEnd_suffix {t x : Text} (h : Form t) (ht : IsToken t) (hx : x <:+ t) :
    AtEnd x := by
  cases h with
  | both h =>
    have : ∀ p ∈ [['<', '-', '.', '-', '>'], ['<', '=', '=', '>'], ['<', '-', '-', '>']],
        ∀ y ∈ p.tails, AtEnd y := by decide
    exact this t h x ((List.mem_tails _ _).2 hx)
  | @dotted n head h =>
    have hend : ∀ y ∈ ('-' :: head).tails, AtEnd y := by
      rcases h with rfl | rfl <;> decide
    rcases List.suffix_cons_iff.1 hx with rfl | hx
    · exact .inr ht
    rcases suffix_append_iff (a := '.' :: List.replicate n '.').1 hx with hx | ⟨y, hy, hne, rfl⟩
    · exact hend x ((List.mem_tails _ _).2 hx)
    · obtain ⟨c, y, rfl⟩ := List.exists_cons_of_ne_nil hne
      have hc : c = '.' := by
        have := hy.subset List.mem_cons_self
        simp only [List.mem_cons, List.mem_replicate] at this
        tauto
      subst hc
      exact .inl (token?_cons_eq_none _ (by decide) (by decide) (by decide))
  | @arrow stroke n hs _ =>
    rcases suffix_append_iff.1 hx with hx | ⟨y, hy, hne, rfl⟩
    · exact (by decide : ∀ y ∈ ['>'].tails, AtEnd y) x ((List.mem_tails _ _).2 hx)
    · obtain ⟨-, hy⟩ := List.suffix_replicate_iff.1 hy
      rw [hy]
      obtain ⟨k, hk⟩ := Nat.exists_eq_succ_of_ne_zero (mt List.length_eq_zero_iff.1 hne)
      rw [hk]
      exact atEnd_replicate_arrow hs k
  | @line stroke n hs _ =>
    obtain ⟨-, hy⟩ := List.suffix_replicate_iff.1 hx
    rw [hy]
    cases x.length with
    | zero => exact .inl rfl
    | succ k => exact atEnd_replicate hs k

/-- What is read at a later position of a connector also runs to its end. -/
theorem IsToken.token?_suffix {t x : Text} (ht : IsToken t) (hx : x <:+ t) :
    token? x = none ∨ IsToken x := (form_of_token? ht).atEnd_suffix ht hx

theorem IsToken.isStroke {t : Text} (ht : IsToken t) : ∀ c ∈ t, isStroke c = true :=
  (form_of_token? ht).isStroke

/-! ## Connectors that are read -/

theorem isSome_of_dotted? {t : Text} (h : (dotted? t).isSome = true) :
    (token? t).isSome = true := by
  rw [token?]
  cases both? t with
  | some p => rfl
  | none =>
    cases hd : dotted? t with
    | some p => rfl
    | none => rw [hd] at h; cases h

theorem isSome_of_run? {stroke : Char} {t : Text} (hs : stroke = '-' ∨ stroke = '=')
    (h : (run? stroke t).isSome = true) : (token? t).isSome = true := by
  rw [token?]
  cases both? t with
  | some p => rfl
  | none =>
    cases dotted? t with
    | some p => rfl
    | none =>
      cases hr : run? '-' t with
      | some p => rfl
      | none =>
        rcases hs with rfl | rfl
        · rw [hr] at h; cases h
        · exact h

/-- Where a connector stands, one is read, whatever follows. -/
theorem Form.isSome_token?_append {t : Text} (h : Form t) (u : Text) :
    (token? (t ++ u)).isSome = true := by
  cases h with
  | both h =>
    simp only [List.mem_cons, List.not_mem_nil, or_false] at h
    rcases h with rfl | rfl | rfl <;> simp [token?, both?, after?]
  | @dotted n head h =>
    refine isSome_of_dotted? ?_
    have hdots : ∀ c ∈ List.replicate n '.', (c == '.') = true := by
      intro c hc
      rw [(List.mem_replicate.1 hc).2]
      rfl
    simp only [dotted?, List.cons_append, List.append_assoc, List.dropWhile_append_of_pos hdots]
    rcases h with rfl | rfl
    · rw [dropWhile_of_head (· == '.') _ (by decide)]
      split <;> simp_all
    · rw [dropWhile_of_head (· == '.') _ (by decide)]
      rfl
  | @arrow stroke n hs hn =>
    refine isSome_of_run? hs ?_
    have hg : ('>' == stroke) = false := by rcases hs with rfl | rfl <;> rfl
    have hrun : ∀ c ∈ List.replicate n stroke, (c == stroke) = true := by
      intro c hc
      rw [(List.mem_replicate.1 hc).2]
      exact beq_self_eq_true stroke
    rw [run?, List.append_assoc, List.dropWhile_append_of_pos hrun, List.singleton_append,
      dropWhile_of_head (· == stroke) _ hg, List.takeWhile_append_of_pos hrun]
    simp [hg, hn]
  | @line stroke n hs hn =>
    refine isSome_of_run? hs ?_
    have hrun : ∀ c ∈ List.replicate n stroke, (c == stroke) = true := by
      intro c hc
      rw [(List.mem_replicate.1 hc).2]
      exact beq_self_eq_true stroke
    rw [run?, List.dropWhile_append_of_pos hrun, List.takeWhile_append_of_pos hrun]
    have h₂ : 2 ≤ (List.replicate n stroke ++ u.takeWhile (· == stroke)).length := by
      rw [List.length_append, List.length_replicate]
      omega
    have h₃ : 3 ≤ (List.replicate n stroke ++ u.takeWhile (· == stroke)).length := by
      rw [List.length_append, List.length_replicate]
      omega
    simp only [h₂, h₃, if_true]
    split <;> rfl

theorem Form.isToken {t : Text} (h : Form t) : IsToken t := by
  have hsome : (token? t).isSome = true := by
    simpa using h.isSome_token?_append []
  have hend : AtEnd t → IsToken t := by
    rintro (hnone | htoken)
    · rw [hnone] at hsome
      cases hsome
    · exact htoken
  cases h with
  | both h =>
    have : ∀ p ∈ [['<', '-', '.', '-', '>'], ['<', '=', '=', '>'], ['<', '-', '-', '>']],
        IsToken p := by decide
    exact this t h
  | @dotted n head h =>
    have hdots : ∀ c ∈ List.replicate n '.', (c == '.') = true := by
      intro c hc
      rw [(List.mem_replicate.1 hc).2]
      rfl
    have hstop : ('-' == '.') = false := by decide
    rcases h with rfl | rfl <;>
      simp [IsToken, token?, both?, after?, dotted?, List.dropWhile_append_of_pos hdots,
        List.takeWhile_append_of_pos hdots]
  | @arrow stroke n hs hn =>
    obtain ⟨m, rfl⟩ := Nat.exists_eq_add_of_lt hn
    exact hend (atEnd_replicate_arrow hs _)
  | @line stroke n hs hn =>
    obtain ⟨m, rfl⟩ := Nat.exists_eq_add_of_lt hn
    exact hend (atEnd_replicate hs _)

/-- What is read as a connector is one connector. -/
theorem isToken_of_token? {t token rest : Text} (h : token? t = some (token, rest)) :
    IsToken token := (form_of_token? h).isToken

/-- Where no connector is read, none is read if the text ends earlier. -/
theorem token?_eq_none_of_append {t u : Text} (h : token? (t ++ u) = none) : token? t = none := by
  cases ht : token? t with
  | none => rfl
  | some p =>
    have := (form_of_token? ht).isSome_token?_append (p.2 ++ u)
    rw [← List.append_assoc, ← (eq_append_of_token? ht).1, h] at this
    cases this

theorem Free.of_append {t u : Text} (h : Free (t ++ u)) : Free t := by
  induction t with
  | nil => exact free_nil
  | cons c t ih =>
    obtain ⟨h₁, h₂⟩ := free_cons.1 h
    exact free_cons.2 ⟨token?_eq_none_of_append (t := c :: t) h₁, ih h₂⟩

/-- No stretch of a free text holds a connector. -/
theorem Free.within {t u : Text} (h : Free t) (hu : u <:+: t) : Free u := by
  obtain ⟨a, b, rfl⟩ := hu
  exact (h.of_append).suffix (List.suffix_append a u)

theorem Passes.free {w t : Text} (h : Passes w t) : Free w := by
  refine free_iff.2 fun y hy => ?_
  by_cases hne : y = []
  · rw [hne]
    decide
  · exact token?_eq_none_of_append (h y hy hne)

/-- Before the first connector stands none, also not as the text goes on. -/
theorem token?_before {t : Text} {f : Found} (h : find? t = some f) :
    token? (f.token ++ f.rest) = some (f.token, f.rest) ∧
      Passes f.before (f.token ++ f.rest) := by
  induction t generalizing f with
  | nil => cases h
  | cons c t ih =>
    unfold find? at h
    split at h
    · rename_i ht
      cases h
      exact ⟨by rw [← (eq_append_of_token? ht).1, ht], passes_nil _⟩
    · rename_i ht
      obtain ⟨g, hg, rfl⟩ := Option.map_eq_some_iff.1 h
      obtain ⟨htoken, hbefore⟩ := ih hg
      have happend := (eq_append_of_find? hg).1
      rw [List.append_assoc] at happend
      exact ⟨htoken, passes_cons.2 ⟨by rw [← happend, ht], hbefore⟩⟩

theorem free_before {t : Text} {f : Found} (h : find? t = some f) : Free f.before :=
  (token?_before h).2.free

end Flowmend.Connector
