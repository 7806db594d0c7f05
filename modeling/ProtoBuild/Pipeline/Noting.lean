import ProtoBuild.Pipeline.Request

/-!
# Collaborators that take notes

A generator or a checker writes notes for the record of its phase while it works, and may
end with an error.  The notes it has written until then are kept (`Noting.collect`).
-/

namespace ProtoBuild

/-- Work that takes notes and may end with an error. -/
abbrev Noting (ε : Type) (m : Type → Type) (α : Type) : Type :=
  ExceptT ε (StateT (List Note) m) α

namespace Noting

variable {ε α : Type} {m : Type → Type} [Monad m]

/-- Takes a note. -/
def note (n : Note) : Noting ε m Unit :=
  modify (· ++ [n])

/-- Names what is being done. -/
def subPhase (text : String) : Noting ε m Unit := note (.subPhase text)

/-- Writes a line for the log. -/
def log (line : String) : Noting ε m Unit := note (.log line)

/-- Does something that takes no notes. -/
def perform (action : m α) : Noting ε m α :=
  ExceptT.lift (StateT.lift action)

/-- The notes that were taken, and how the work has ended. -/
def collect (work : Noting ε m α) : m (List Note × Except ε α) := do
  let (result, notes) ← (work.run).run []
  return (notes, result)

end Noting
end ProtoBuild
