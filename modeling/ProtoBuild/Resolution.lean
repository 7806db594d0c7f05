import ProtoBuild.Options
import ProtoBuild.Text.Split

/-!
# The order in which units are built

A unit is built before each unit that contains it.  The order is that of depth, the
deepest first, and among units of one depth that of their names, so it does not depend
on the order in which the units were found.
-/

namespace ProtoBuild
namespace Resolution

/-- How many names a unit path has; the root has none. -/
def depth (unit : String) : Nat :=
  if unit = "." then 0
  else ((Text.splitOn '/' unit.toList).filter (! ·.isEmpty)).length

/-- Whether a unit comes before another one, or is the same. -/
def precedes (a b : String) : Bool :=
  depth b < depth a || (depth a == depth b && a ≤ b)

/-- The units in the order in which they are built. -/
def deepestFirst (units : List String) : List String :=
  units.mergeSort precedes

end Resolution
end ProtoBuild
