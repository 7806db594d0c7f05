import ProtoBuild.Directory
import ProtoBuild.Path

/-!
# Following paths

A path is followed piece by piece.  Every piece needs a directory to be followed in, also
`.`, `..` and the empty piece after a slash; so a path with a trailing slash leads nowhere
but to a directory, and a `..` after a missing name leads nowhere at all.  This is where
following a path differs from reducing it (`Path.resolve?`).

What a path leads to is a place in the tree below `/`.

A path is a text and a name is not, so a path leads only to names that are UTF-8.  The
paths of other entries are found by going down a directory that a path leads to
(`entryPath`), and they are bytes.

Names and paths have a greatest length, in bytes.  A name that is too long is noticed when
it is looked for in a directory, so a missing directory before it is noticed first; a path
that is too long is refused before it is followed (`placeOf`).  Only to resolve a path, its
length does not matter (`resolve`).  Paths grow on the way down a tree, so a directory that
is there may be out of reach (`firstTooLong?`).
-/

namespace ProtoBuild

/-- Why something could not be done with a file. -/
inductive FileError where
  | missing
  | denied
  | alreadyThere
  | notDirectory
  | isDirectory
  | nameTooLong
  | argumentsTooLong
  /-- A text that is handed over has a NUL in it. -/
  | nulInText
  | other (text : String)
  deriving DecidableEq, Repr

/-- What is said of the error. -/
def FileError.message : FileError → String
  | missing => "No such file or directory (os error 2)"
  | denied => "Permission denied (os error 13)"
  | alreadyThere => "File exists (os error 17)"
  | notDirectory => "Not a directory (os error 20)"
  | isDirectory => "Is a directory (os error 21)"
  | nameTooLong => "File name too long (os error 36)"
  | argumentsTooLong => "Argument list too long (os error 7)"
  | nulInText => "nul byte found in provided data"
  | other text => text

/-- A directory that cannot be read. -/
structure Unreadable where
  path : String
  reason : FileError
  deriving DecidableEq, Repr

/-- What is said of it. -/
def Unreadable.message (e : Unreadable) : String :=
  "IO error for operation on " ++ e.path ++ ": " ++ e.reason.message

namespace Directory

/-- The greatest length of a name, in bytes. -/
def longestName : Nat := 255

/-- The greatest length of a path, in bytes. -/
def longestPath : Nat := 4095

/-- The byte that a slash is. -/
def slash : UInt8 := '/'.toUInt8

/-- Follows one piece of a path in the directory at a place. -/
def follow (root : Directory) (place : List FileName) (piece : List Char) :
    Except FileError (List FileName) :=
  match root.at? place with
  | none => .error .missing
  | some (.file _) => .error .notDirectory
  | some (.folder _) =>
    if piece = [] ∨ piece = ['.'] then .ok place
    else if piece = ['.', '.'] then .ok place.dropLast
    else
      let name := Utf8.encode (String.ofList piece)
      if longestName < name.length then .error .nameTooLong else .ok (place ++ [name])

/-- The place that a path of any length leads to, seen from another place.  The last name
on the path need not be there. -/
def resolve (root : Directory) (here : List FileName) (path : String) :
    Except FileError (List FileName) :=
  if path.isEmpty then .error .missing
  else
    (Text.splitOn '/' path.toList).foldlM root.follow (if Path.isAbsolute path then [] else here)

/-- Lets a path pass that is not too long. -/
def bounded (path : String) : Except FileError String :=
  if longestPath < path.utf8ByteSize then .error .nameTooLong else .ok path

/-- The place that a path leads to, seen from another place.  The last name on the path
need not be there. -/
def placeOf (root : Directory) (here : List FileName) (path : String) :
    Except FileError (List FileName) := do
  root.resolve here (← bounded path)

/-- A place together with what lies there. -/
def nodeAt (root : Directory) (place : List FileName) :
    Except FileError (List FileName × Node) :=
  match root.at? place with
  | some node => .ok (place, node)
  | none => .error .missing

/-- What a path leads to. -/
def find (root : Directory) (here : List FileName) (path : String) :
    Except FileError (List FileName × Node) := do
  root.nodeAt (← root.placeOf here path)

/-- The path of an entry of the directory that a path leads to. -/
def entryPath (path : List UInt8) (name : FileName) : List UInt8 :=
  if path.getLast? = some slash then path ++ name else path ++ slash :: name

/-- The path of the first directory on the way down from a path that is itself entered, but
whose path is too long. -/
def firstTooLong? (isEntered : FileName → Bool) (path : List UInt8) :
    Directory → Option (List UInt8)
  | .empty => none
  | .file _ _ rest => rest.firstTooLong? isEntered path
  | .folder name inside rest =>
    let below := entryPath path name
    let found :=
      if ! isEntered name then none
      else if longestPath < below.length then some below
      else inside.firstTooLong? isEntered below
    found <|> rest.firstTooLong? isEntered path

/-- The path of a place that needs no following. -/
def pathOf (place : List String) : String :=
  "/" ++ joinStrings '/' place

/-- The path without the slashes at its end; `/` stays. -/
def withoutTrailing (path : String) : String :=
  match path.toList.reverse.dropWhile (· == '/') with
  | [] => path
  | kept => String.ofList kept.reverse

/-- The path of what a path leads to, without steps up and repetitions. -/
def canonical (root : Directory) (here : List FileName) (path : String) :
    Except FileError String := do
  return pathOf ((← root.nodeAt (← root.resolve here path)).1.map FileName.text)

/-- Makes a directory whose parent is there. -/
def makeFolder (root : Directory) (here : List FileName) (path : String) :
    Except FileError Directory := do
  let place ← root.resolve here (withoutTrailing (← bounded path))
  match root.at? place with
  | some _ => .error .alreadyThere
  | none => .ok (root.modifyFolder id place)

/-- Makes an empty file, unless there is one already. -/
def makeFile (root : Directory) (here : List FileName) (path : String) :
    Except FileError Directory := do
  let place ← root.placeOf here path
  match root.at? place, place.getLast? with
  | some (.file _), _ => .ok root
  | none, some name => .ok (root.modifyFolder (·.set name (.file [])) place.dropLast)
  | _, _ => .error .isDirectory

end Directory
end ProtoBuild
