/-!
# Document values

What a JSON or a TOML text says, before it is read as something of the domain.
Fields keep their order and may be repeated, since whether a repeated field is
allowed depends on what is read from it.

`illFormed` stands for a value that is written correctly but that nothing can hold:
a string with half of a surrogate pair, a number beyond the binary64 range, or a
value nested too deeply.  No reader accepts it; it may only be ignored.
-/

namespace ProtoBuild

/-- What a document says. -/
inductive Value where
  | null
  | bool (b : Bool)
  | natural (n : Nat)
  /-- Any other number, as it is written. -/
  | number (literal : String)
  | string (s : String)
  | list (items : List Value)
  | object (fields : List (String × Value))
  | illFormed
  deriving Repr, Inhabited

namespace Value

/-- The value of an integer. -/
def ofInt : Int → Value
  | .ofNat n => .natural n
  | .negSucc n => .number ("-" ++ toString (n + 1))

/-- The object of the fields that are there. -/
def objectOf (fields : List (Option (String × Value))) : Value :=
  .object (fields.filterMap id)

mutual
/-- Whether every part of a value can be held. -/
def isWellFormed : Value → Bool
  | .list items => areWellFormed items
  | .object fields => fieldsWellFormed fields
  | .illFormed => false
  | _ => true
/-- Whether every part of every item can be held. -/
def areWellFormed : List Value → Bool
  | [] => true
  | v :: vs => isWellFormed v && areWellFormed vs
/-- Whether every part of every field can be held. -/
def fieldsWellFormed : List (String × Value) → Bool
  | [] => true
  | f :: fs => isWellFormed f.2 && fieldsWellFormed fs
end

/-- The value of the first field of a name. -/
def field? (name : String) : Value → Option Value
  | .object fields => List.lookup name fields
  | _ => none

end Value
end ProtoBuild
