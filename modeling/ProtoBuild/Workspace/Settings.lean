import ProtoBuild.Document.Workspace
import ProtoBuild.Text.Blank
import ProtoBuild.Value.Toml.Reader

/-!
# Reading the settings of a lake

The settings are a TOML text.  Where the lake lies is known from outside and not from
the text.  A lake whose name is missing or blank has the name of its directory.
-/

namespace ProtoBuild

/-- Why the settings of a lake are of no use. -/
inductive SettingsError where
  /-- The text is no TOML, or a setting does not have the type it should have. -/
  | malformed
  /-- The lake has no name, and neither has its directory. -/
  | nameless (root : String)
  deriving DecidableEq, Repr

/-- What is said of a lake that nothing gives a name to. -/
def SettingsError.namelessMessage (root : String) : String :=
  "lake name is empty and cannot be derived from " ++ root

namespace Workspace

/-- The lake at `root` with the name of its directory if it has no name of its own. -/
def named (lake : Workspace) (root : String) : Except SettingsError Workspace :=
  let lake := { lake with root := root }
  if (trimmed lake.name).isEmpty then
    match Path.fileName? root with
    | some name => .ok { lake with name := name }
    | none => .error (.nameless root)
  else .ok lake

/-- The lake at `root` that some settings describe.  Of a list that stands for a record,
only as many items count as the record has fields. -/
def ofSettings (root text : String) : Except SettingsError Workspace :=
  match (Value.ofToml? text).bind (read? Value.leadingFields?) with
  | none => .error .malformed
  | some lake => named lake root

end Workspace
end ProtoBuild
