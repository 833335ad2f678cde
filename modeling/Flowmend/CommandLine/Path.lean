import Flowmend.Text.Basic

/-!
# Paths

The name of a file spells the steps that lead to it, with slashes between them. Several slashes
count as one; a slash at the start leads to the top of all folders, and a slash at the end asks for
a folder.
-/

namespace Flowmend.CommandLine

/-- A step of a path. -/
inductive Step
  | here
  | up
  | into (name : Text)
  deriving DecidableEq, Repr

/-- The step that a part of a name stands for. -/
def Step.ofText (part : Text) : Step :=
  if part = ['.'] then .here
  else if part = ['.', '.'] then .up
  else .into part

/-- The way to a file or folder. -/
structure Path where
  /-- The way starts at the top, and not in the working folder. -/
  fromTop : Bool
  steps : List Step
  /-- The name ends with a slash. -/
  toFolder : Bool
  deriving DecidableEq, Repr

/-- The path that a name spells. -/
def Path.ofText (name : Text) : Path :=
  { fromTop := name.head? == some '/'
    steps := ((name.splitOn '/').filter fun part => !part.isEmpty).map Step.ofText
    toFolder := name.getLast? == some '/' }

end Flowmend.CommandLine
