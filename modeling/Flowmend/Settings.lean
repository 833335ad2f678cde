import Flowmend.Text.Basic

/-!
# Settings

The constants of the pipeline, with their usual values.
-/

namespace Flowmend

/-- The constants of the pipeline. -/
structure Settings where
  /-- The longest label of a recovered node; no limit if missing. -/
  labelLimit : Option Int := some 40
  /-- The longest text that is shown whole. -/
  textLimit : Int := 300
  /-- What a longer text ends with. -/
  ellipsis : Text := "...".toList
  /-- What is shown for a blank input. -/
  blankNotice : Text := "No diagram provided".toList
  /-- The header of a diagram that lacks one. -/
  usualHeader : Text := "graph TD".toList
  /-- The stem of placeholder ids. -/
  placeholderStem : Text := "MissingNode".toList
  /-- The column in which the layout puts the nodes. -/
  column : Int := 250
  /-- The row of the first node. -/
  firstRow : Int := 50
  /-- The distance between two rows. -/
  rowStep : Int := 120
  /-- The engine has time to answer; without any it counts as timed out and is not asked. -/
  engineHasTime : Bool := true
  deriving Repr

end Flowmend
