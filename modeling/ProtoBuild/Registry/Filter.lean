import ProtoBuild.Operation
import ProtoBuild.Text.Split

/-!
# Filters on operations

A filter is a list of terms, `resource=` with the beginning of a resource name and
`done=` with a truth value.  The last term of each kind counts.
-/

namespace ProtoBuild

/-- Which operations are listed. -/
structure Filter where
  resourceStart : Option String := none
  done : Option Bool := none
  deriving DecidableEq, Repr

namespace Filter

/-- A filter with one more term, or `none` if the term has no meaning. -/
def addTerm? (f : Filter) (term : List Char) : Option Filter :=
  match Text.splitFirst? '=' term with
  | none => none
  | some (key, value) =>
    if key = "resource".toList then some { f with resourceStart := some (String.ofList value) }
    else if key = "done".toList then
      if value = "true".toList then some { f with done := some true }
      else if value = "false".toList then some { f with done := some false }
      else none
    else none

/-- A filter with more terms, or the first of them that has no meaning. -/
def addTerms (f : Filter) : List (List Char) → Except String Filter
  | [] => .ok f
  | term :: rest =>
    match f.addTerm? term with
    | some f' => f'.addTerms rest
    | none => .error (String.ofList term)

/-- The filter a text stands for, or the first term in it that has no meaning. -/
def parse (text : String) : Except String Filter :=
  addTerms {} (Text.words text.toList)

/-- Whether an operation is listed. -/
def accepts (f : Filter) (o : Operation) : Bool :=
  (match f.resourceStart with
    | none => true
    | some start => beginsWith start o.resource.text) &&
  (match f.done with
    | none => true
    | some done => o.done == done)

end Filter
end ProtoBuild
