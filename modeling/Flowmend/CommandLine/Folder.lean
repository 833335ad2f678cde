import Flowmend.CommandLine.Path
import Flowmend.CommandLine.Reply

/-!
# Folders

A folder with its files is a value here. A path is followed step by step, so that each of its steps
has to lead somewhere: a way through a missing folder and back is no way, and nor is one that goes
on behind a file.
-/

namespace Flowmend.CommandLine

open Text

/-- The names that lead down from the working folder. -/
abbrev Location := List Text

/-- A folder: the files in it with their bytes, and the folders in it. -/
structure Folder where
  files : List (Location × List UInt8) := []
  folders : List Location := []
  deriving DecidableEq, Repr

/-- Where steps lead to. -/
inductive Place
  | folder (location : Location)
  | file (location : Location) (bytes : List UInt8)
  /-- A folder above the working folder. No names in it are known. -/
  | outside
  deriving DecidableEq, Repr

namespace Folder

/-- The most bytes of a name in a folder. -/
def nameLimit : Nat := 255

/-- The most bytes of a name with all its steps. -/
def pathLimit : Nat := 4095

/-- There is a folder at the location: the working folder, or one that is there or holds
something. -/
def isFolder (f : Folder) (l : Location) : Bool :=
  l.isEmpty || f.folders.any l.isPrefixOf || f.files.any fun q => l.isPrefixOf q.1

/-- What is at the location. -/
def find? (f : Folder) (l : Location) : Option Place :=
  match f.files.lookup l with
  | some bytes => some (.file l bytes)
  | none => if f.isFolder l then some (.folder l) else none

/-- Where a name leads to. -/
def into (f : Folder) (place : Place) (name : Text) : Except FileError Place :=
  if nameLimit < name.str.utf8ByteSize then .error .nameTooLong
  else
    match place with
    | .folder l =>
      match f.find? (l ++ [name]) with
      | some place => .ok place
      | none => .error .notFound
    | .file .. => .error .notDirectory
    | .outside => .error .notFound

/-- Where a step leads to. No step leads on from a file. -/
def step (f : Folder) : Place → Step → Except FileError Place
  | .file .., _ => .error .notDirectory
  | place, .here => .ok place
  | .folder l, .up => .ok (if l.isEmpty then .outside else .folder l.dropLast)
  | .outside, .up => .ok .outside
  | place, .into name => f.into place name

/-- Where steps lead to. -/
def follow (f : Folder) (place : Place) : List Step → Except FileError Place
  | [] => .ok place
  | s :: rest =>
    match f.step place s with
    | .ok place => f.follow place rest
    | .error e => .error e

/-- Where a path starts. -/
def start (p : Path) : Place := if p.fromTop then .outside else .folder []

/-- The bytes of a file. -/
def read (f : Folder) (name : Text) : Except FileError (List UInt8) :=
  if pathLimit < name.str.utf8ByteSize then .error .nameTooLong
  else
    let p := Path.ofText name
    match f.follow (start p) p.steps with
    | .error e => .error e
    | .ok (.file _ bytes) => if p.toFolder then .error .notDirectory else .ok bytes
    | .ok _ => .error .isDirectory

/-- The folder with these bytes in the file at a location. -/
def put (f : Folder) (l : Location) (bytes : List UInt8) : Folder :=
  { f with files := f.files.filter (fun q => q.1 != l) ++ [(l, bytes)] }

/-- The folder with a file written at the place that a name leads to; a missing file is new. What
is written outside leaves the folder as it is. -/
def writeInto (f : Folder) (place : Place) (name : Text) (bytes : List UInt8) :
    Except FileError Folder :=
  match f.into place name with
  | .ok (.file l _) => .ok (f.put l bytes)
  | .ok _ => .error .isDirectory
  | .error .notFound =>
    match place with
    | .folder l => .ok (f.put (l ++ [name]) bytes)
    | _ => .ok f
  | .error e => .error e

/-- The folder with a file written. The steps but the last have to lead to a folder, and the last
one has to be the name of a file. -/
def write (f : Folder) (name : Text) (bytes : List UInt8) : Except FileError Folder :=
  if pathLimit < name.str.utf8ByteSize then .error .nameTooLong
  else
    let p := Path.ofText name
    match f.follow (start p) p.steps.dropLast with
    | .error e => .error e
    | .ok (.file ..) => .error .notDirectory
    | .ok place =>
      match p.steps.getLast? with
      | some (.into name) =>
        if p.toFolder then .error .isDirectory else f.writeInto place name bytes
      | _ => .error .isDirectory

end Folder

end Flowmend.CommandLine
