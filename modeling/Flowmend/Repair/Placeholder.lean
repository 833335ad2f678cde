import Flowmend.Text.Basic

/-!
# Placeholder ids

A connector that leads nowhere gets a placeholder node. Placeholders are numbered from a common
stem, and an id that is already in use is passed over.
-/

namespace Flowmend

/-- A supply of placeholder ids: the ids in use, and how many candidates were tried. -/
structure Placeholders where
  stem : Text
  inUse : List Text
  tried : Nat
  deriving Repr

namespace Placeholders

/-- A supply that has given out no id. -/
def ofStem (stem : Text) : Placeholders := ⟨stem, [], 0⟩

/-- Puts an id in use. -/
def reserveOne (p : Placeholders) (id : Text) : Placeholders :=
  if p.inUse.contains id then p else { p with inUse := id :: p.inUse }

/-- Puts ids in use. -/
def reserve (p : Placeholders) (ids : List Text) : Placeholders := ids.foldl reserveOne p

/-- The `n`-th candidate: the stem, and from the second one on the stem with the number. -/
def candidate (stem : Text) (n : Nat) : Text :=
  if n = 1 then stem else stem ++ Nat.toDigits 10 n

/-- The number of the first candidate after `tried` that is not in use, of at most `fuel` that are
passed over. -/
def firstFree (stem : Text) (inUse : List Text) (tried : Nat) : (fuel : Nat) → Nat
  | 0 => tried + 1
  | fuel + 1 =>
    if inUse.contains (candidate stem (tried + 1)) then firstFree stem inUse (tried + 1) fuel
    else tried + 1

/-- The next free id, which is then in use. All candidates differ, so one more than there are ids in
use are enough to find a free one. -/
def next (p : Placeholders) : Text × Placeholders :=
  let n := firstFree p.stem p.inUse p.tried p.inUse.length
  let id := candidate p.stem n
  (id, { p with inUse := id :: p.inUse, tried := n })

end Placeholders

end Flowmend
