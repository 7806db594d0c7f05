import ProtoBuild.Console
import ProtoBuild.Discovery
import ProtoBuild.Tool.Bazel
import ProtoBuild.Tool.Buf
import ProtoBuild.Tool.Gazelle
import ProtoBuild.Tool.Git

/-!
# A build with real tools

The toolchain answers what a build asks for: the build tool generates and builds, the
checker checks, the file system is searched for units, and the console tells what has
happened.  A lake needs no preparation, and nobody can ask the build to stop.
-/

namespace ProtoBuild

/-- The tools that a build uses. -/
structure Toolchain where
  bazel : Bazel := {}
  buf : Buf := {}
  git : Git := {}
  deriving DecidableEq, Repr

namespace Toolchain

/-- The tools that the environment names. -/
def ofEnvironment (env : Environment) : Toolchain where
  bazel := .ofEnvironment env
  buf := .ofEnvironment env
  git := .ofEnvironment env

/-- Answers a call of a build. -/
def perform (tools : Toolchain) : (c : Call) → Host.Action c.Answer
  | .prepare _ => pure (.ok ())
  | .codegen lake =>
    (Gazelle.generate Host.present (tools.bazel.run lake.root · []) lake).collect
  | .validate lake => (tools.buf.check (tools.git.hasHistory lake.root) lake).collect
  | .discover root search => Discovery.find root search
  | .build root arguments pattern => tools.bazel.build root arguments pattern
  | .query root expression => tools.bazel.query root expression
  | .clean root => tools.bazel.clean root
  | .run root label arguments => tools.bazel.run root label arguments

/-- Tells what has happened. -/
def tell (e : Event) : StateT Console Host.Action Unit := do
  let (lines, console) := (← get).react e
  set console
  if ! lines.isEmpty then
    StateT.lift (Host.ask (.warn (textOfLines lines)))

/-- Answers a request of a build. -/
def answer (tools : Toolchain) : (q : Pipeline.Request) → StateT Console Host.Action q.Answer
  | .call c => StateT.lift (tools.perform c)
  | .now => StateT.lift (Host.ask .now)
  | .isCancelled => pure false
  | .tell e => tell e

/-- Runs a program of a build, telling what happens in the colours of a painter. -/
def runBuild {α : Type} (tools : Toolchain) (painter : Painter)
    (build : Program Pipeline.interface α) : Host.Action α :=
  (build.answerWith tools.answer).run' { painter := painter }

end Toolchain
end ProtoBuild
