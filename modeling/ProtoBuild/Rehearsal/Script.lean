import ProtoBuild.Name
import ProtoBuild.Pipeline.Request
import ProtoBuild.StringMap
import ProtoBuild.Version

/-!
# Scripts for the collaborators of a build

A script says what each collaborator answers, call by call, and what happens meanwhile:
time passes, the build is asked to stop, or somebody changes an operation in the
registry.  Of the lines for one collaborator each call takes the first; the last line
stays for all later calls.
-/

namespace ProtoBuild
namespace Rehearsal

/-- What happens during a call, before it is answered. -/
structure Cue where
  /-- How many milliseconds pass. -/
  delay : UInt64 := 0
  /-- Whether the build is asked to stop. -/
  trips : Bool := false
  cancels : Option OperationName := none
  deletes : Option OperationName := none
  fails : Option OperationName := none
  deriving Repr, Inhabited

/-- A line of a script: what happens during a call, and its answer. -/
structure Line (α : Type) where
  cue : Cue := {}
  answer : α

/-- The line for the next call, and the lines for later ones. -/
def takeLine {α : Type} (default : α) : List (Line α) → Line α × List (Line α)
  | [] => ({ answer := default }, [])
  | [line] => (line, [line])
  | line :: rest => (line, rest)

/-- The answers of a generator or a checker: its notes, and how it ended. -/
abbrev Noted (ε α : Type) := List Note × Except ε α

/-- What each collaborator answers. -/
structure Script where
  /-- The branch, or `none` if it cannot be told. -/
  branch : Option String := some Version.defaultBranch
  /-- Why the lake is not prepared, if it is not. -/
  prepare : List (Line (Option String)) := []
  codegen : List (Line (Noted CodegenError Unit)) := []
  validate : List (Line (Noted ToolError CheckReport)) := []
  /-- What is found in the lake at a root. -/
  discover : Line (String → Except DiscoveryError (List String)) := { answer := fun _ => .ok [] }
  /-- The builds by their patterns. -/
  builds : StringMap (List (Line (Except ToolError ToolOutput))) := ∅
  query : List (Line (Except ToolError (List String))) := []
  clean : List (Line (Except ToolError Unit)) := []
  /-- The actions by their labels. -/
  runs : StringMap (List (Line (Except ToolError ToolOutput))) := ∅

namespace Script

/-- What a build prints if nothing else is said. -/
def defaultBuild : ToolOutput :=
  ⟨0, "INFO: Build completed successfully"⟩

/-- What an action prints if nothing else is said. -/
def defaultRun (label : String) : ToolOutput :=
  ⟨0, "ran " ++ label⟩

/-- The line for the next call under a key. -/
def takeKeyed {α : Type} (default : α) (m : StringMap (List (Line α))) (key : String) :
    Line α × StringMap (List (Line α)) :=
  match m.get? key with
  | none => ({ answer := default }, m)
  | some lines =>
    let (line, rest) := takeLine default lines
    (line, m.insert key rest)

/-- What happens during a call and its answer, and the script for later calls. -/
def take (s : Script) : (c : Call) → (Cue × c.Answer) × Script
  | .prepare lake =>
    let (line, rest) := takeLine none s.prepare
    let answer := match line.answer with
      | some reason => .error ⟨lake.name, reason⟩
      | none => .ok ()
    ((line.cue, answer), { s with prepare := rest })
  | .codegen _ =>
    let (line, rest) := takeLine ([], .ok ()) s.codegen
    ((line.cue, line.answer), { s with codegen := rest })
  | .validate _ =>
    let (line, rest) := takeLine ([], .ok (.ofFindings [])) s.validate
    ((line.cue, line.answer), { s with validate := rest })
  | .discover root _ => ((s.discover.cue, s.discover.answer root), s)
  | .build _ _ pattern =>
    let (line, rest) := takeKeyed (.ok defaultBuild) s.builds pattern
    ((line.cue, line.answer), { s with builds := rest })
  | .query _ _ =>
    let (line, rest) := takeLine (.ok []) s.query
    ((line.cue, line.answer), { s with query := rest })
  | .clean _ =>
    let (line, rest) := takeLine (.ok ()) s.clean
    ((line.cue, line.answer), { s with clean := rest })
  | .run _ label _ =>
    let (line, rest) := takeKeyed (.ok (defaultRun label)) s.runs label
    ((line.cue, line.answer), { s with runs := rest })

end Script
end Rehearsal
end ProtoBuild
