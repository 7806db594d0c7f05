import ProtoBuild.Text.Utf8

/-!
# Trees of files

A `Directory` is what lies in a directory, at all depths.  There are no links in it, so it
is finite, and `..` leads to where one came from.  Names are distinct in a directory that
is built with `set`; of two entries with one name, only the first is ever found.

A name is a list of bytes.  It may be the UTF-8 of a text, and then it shows as that text,
but it need not be (`FileName.text`); so different names may show as the same text.

A place in a directory is a list of names.  `at?` says what lies at a place, and
`modifyFolder` changes the folder there.
-/

namespace ProtoBuild

/-- The name of an entry of a directory. -/
abbrev FileName := List UInt8

/-- The text that a name shows as. -/
def FileName.text (name : FileName) : String :=
  String.ofList (Utf8.decodeLossy name)

/-- The names that texts stand for. -/
def FileName.ofTexts (texts : List String) : List FileName :=
  texts.map Utf8.encode

@[simp] theorem FileName.ofTexts_nil : ofTexts [] = [] := rfl

@[simp] theorem FileName.ofTexts_cons (text : String) (texts : List String) :
    ofTexts (text :: texts) = Utf8.encode text :: ofTexts texts := rfl

@[simp] theorem FileName.ofTexts_append (texts more : List String) :
    ofTexts (texts ++ more) = ofTexts texts ++ ofTexts more :=
  List.map_append

/-- What lies in a directory, entry by entry. -/
inductive Directory where
  | empty
  | file (name : FileName) (content : List UInt8) (rest : Directory)
  | folder (name : FileName) (inside rest : Directory)
  deriving DecidableEq, Repr, Inhabited

/-- What lies at a place: a file, or a directory. -/
inductive Node where
  | file (content : List UInt8)
  | folder (inside : Directory)
  deriving DecidableEq, Repr

namespace Directory

/-- What lies in a directory under a name. -/
def get? : Directory → FileName → Option Node
  | empty, _ => none
  | file name content rest, key => if name = key then some (.file content) else rest.get? key
  | folder name inside rest, key => if name = key then some (.folder inside) else rest.get? key

/-- A directory with one entry more, at its front. -/
def add (d : Directory) (name : FileName) : Node → Directory
  | .file content => file name content d
  | .folder inside => folder name inside d

/-- A directory with something under a name, in the place of what lay there. -/
def set : Directory → FileName → Node → Directory
  | empty, key, node => empty.add key node
  | file name content rest, key, node =>
    if name = key then rest.add key node else file name content (rest.set key node)
  | folder name inside rest, key, node =>
    if name = key then rest.add key node else folder name inside (rest.set key node)

/-- What lies at a place. -/
def at? (d : Directory) : List FileName → Option Node
  | [] => some (.folder d)
  | name :: rest =>
    match d.get? name with
    | some (.folder inside) => inside.at? rest
    | some (.file content) => if rest.isEmpty then some (.file content) else none
    | none => none

/-- The directory under a name, or an empty one. -/
def folderOrEmpty (d : Directory) (name : FileName) : Directory :=
  match d.get? name with
  | some (.folder inside) => inside
  | _ => empty

/-- Changes the directory at a place; the directories on the way are there afterwards. -/
def modifyFolder (f : Directory → Directory) (d : Directory) : List FileName → Directory
  | [] => f d
  | name :: rest => d.set name (.folder ((d.folderOrEmpty name).modifyFolder f rest))

@[simp] theorem at?_nil (d : Directory) : d.at? [] = some (.folder d) := rfl

end Directory
end ProtoBuild
