/-!
# Names of operations and of what they act on

A resource is what a build acts on, such as a whole lake; at most one build may be
active on it.  An operation name stands below its resource and ends in an
identifier drawn from an `IdSequence`.
-/

namespace ProtoBuild

/-- What a build acts on. -/
structure ResourceName where
  text : String
  deriving DecidableEq, Repr, Inhabited

/-- The name under which an operation can be asked about. -/
structure OperationName where
  text : String
  deriving DecidableEq, Repr, Inhabited

theorem ResourceName.text_inj {a b : ResourceName} : a.text = b.text ↔ a = b := by
  cases a
  cases b
  simp

theorem OperationName.text_inj {a b : OperationName} : a.text = b.text ↔ a = b := by
  cases a
  cases b
  simp

/-- The resource of a whole lake. -/
def ResourceName.ofLake (lake : String) : ResourceName :=
  ⟨"lakes/" ++ lake⟩

/-- The name of the operation with an identifier, below its resource. -/
def OperationName.below (resource : ResourceName) (id : String) : OperationName :=
  ⟨resource.text ++ "/operations/" ++ id⟩

/-- Identifiers numbered from one. -/
structure IdSequence where
  stem : String := "op"
  next : Nat := 1
  deriving Repr, Inhabited

/-- The next identifier, and the sequence after it. -/
def IdSequence.draw (ids : IdSequence) : String × IdSequence :=
  (ids.stem ++ "-" ++ toString ids.next, { ids with next := ids.next + 1 })

/-- The next `count` operation names below a resource. -/
def IdSequence.names (ids : IdSequence) (resource : ResourceName) : Nat → List OperationName
  | 0 => []
  | count + 1 => OperationName.below resource ids.draw.1 :: ids.draw.2.names resource count

end ProtoBuild
