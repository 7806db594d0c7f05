import ProtoBuild.Document
import ProtoBuild.Workspace

/-!
# Lakes as documents

The settings of a lake are read from a document in which every field may be missing,
apart from the one field that the settings of Java and of npm packages consist of.

Lakes stand in two kinds of documents: in JSON, as a part of what is told of a build, and
in TOML, where the settings are kept.  The functions `read?` are parametrized by how a
record is read, because a list that is too long is an error in the one and none in the
other.  The instances of `Document` are those of JSON.
-/

namespace ProtoBuild

open Document

/-- Reads how a lake is built. -/
def BuildSettings.read? (record : RecordReader) (v : Value) : Option BuildSettings := do
  let fields ← record ["env", "isolate_units", "keep_going", "clean"] v
  return {
    env := ← fields.orDefault "env" ∅
    isolateUnits := ← fields.orDefault "isolate_units" false
    keepGoing := ← fields.orDefault "keep_going" false
    clean := ← fields.orDefault "clean" false }

instance : Document BuildSettings where
  encode b := Value.objectOf
    [written "env" b.env, written "isolate_units" b.isolateUnits,
      written "keep_going" b.keepGoing, written "clean" b.clean]
  decode? := BuildSettings.read? Value.fields?

/-- Reads how a lake is checked. -/
def ValidationSettings.read? (record : RecordReader) (v : Value) :
    Option ValidationSettings := do
  let fields ← record ["enabled", "compilation", "lint", "breaking", "format"] v
  return {
    enabled := ← fields.orDefault "enabled" true
    compilation := ← fields.orDefault "compilation" true
    lint := ← fields.orDefault "lint" true
    breaking := ← fields.orDefault "breaking" true
    format := ← fields.orDefault "format" false }

instance : Document ValidationSettings where
  encode s := Value.objectOf
    [written "enabled" s.enabled, written "compilation" s.compilation, written "lint" s.lint,
      written "breaking" s.breaking, written "format" s.format]
  decode? := ValidationSettings.read? Value.fields?

/-- Reads a record of one field that has to be there. -/
def onlyField? (record : RecordReader) (name : String) (v : Value) : Option String := do
  (← record [name] v).required name

/-- Reads a record of one field that is empty if it is missing. -/
def onlyFieldOrEmpty? (record : RecordReader) (name : String) (v : Value) :
    Option String := do
  (← record [name] v).orDefault name ""

/-- Reads for which languages packages are built. -/
def LanguageSettings.read? (record : RecordReader) (v : Value) : Option LanguageSettings := do
  let fields ← record ["java", "python", "npm"] v
  return {
    javaGroup := ← fields.optionalBy (onlyField? record "group_id") "java"
    pythonPrefix := ← fields.optionalBy (onlyFieldOrEmpty? record "package_prefix") "python"
    npmScope := ← fields.optionalBy (onlyField? record "scope") "npm" }

instance : Document LanguageSettings where
  encode l := Value.objectOf
    [l.javaGroup.map fun g => ("java", .object [("group_id", .string g)]),
      l.pythonPrefix.map fun p => ("python", .object [("package_prefix", .string p)]),
      l.npmScope.map fun s => ("npm", .object [("scope", .string s)])]
  decode? := LanguageSettings.read? Value.fields?

/-- Reads a lake. -/
def Workspace.read? (record : RecordReader) (v : Value) : Option Workspace := do
  let fields ← record ["name", "version", "root", "build", "validation", "languages"] v
  return {
    name := ← fields.orDefault "name" ""
    version := ← fields.orDefault "version" "0.1.0"
    root := ← fields.orDefault "root" ""
    build := ← fields.orDefaultBy (BuildSettings.read? record) "build" {}
    validation := ← fields.orDefaultBy (ValidationSettings.read? record) "validation" {}
    languages := ← fields.orDefaultBy (LanguageSettings.read? record) "languages" {} }

instance : Document Workspace where
  encode l := Value.objectOf
    [written "name" l.name, written "version" l.version, written "root" l.root,
      written "build" l.build, written "validation" l.validation,
      written "languages" l.languages]
  decode? := Workspace.read? Value.fields?

end ProtoBuild
