import ProtoBuild.Value

/-!
# Changing a value everywhere

A text can be changed wherever it stands in a value, and fields can be left out at every
depth.
-/

namespace ProtoBuild
namespace Value

mutual
/-- The value with a function applied to every text in it, also to the names of fields. -/
def mapTexts (f : String → String) : Value → Value
  | .string s => .string (f s)
  | .list items => .list (mapItemTexts f items)
  | .object fields => .object (mapFieldTexts f fields)
  | v => v
/-- The items with a function applied to every text in them. -/
def mapItemTexts (f : String → String) : List Value → List Value
  | [] => []
  | v :: rest => mapTexts f v :: mapItemTexts f rest
/-- The fields with a function applied to every text in them. -/
def mapFieldTexts (f : String → String) : List (String × Value) → List (String × Value)
  | [] => []
  | (name, v) :: rest => (f name, mapTexts f v) :: mapFieldTexts f rest
end

mutual
/-- The value without the fields whose names are dropped, at every depth. -/
def withoutFields (drops : String → Bool) : Value → Value
  | .list items => .list (itemsWithoutFields drops items)
  | .object fields => .object (fieldsWithoutFields drops fields)
  | v => v
/-- The items without the fields whose names are dropped. -/
def itemsWithoutFields (drops : String → Bool) : List Value → List Value
  | [] => []
  | v :: rest => withoutFields drops v :: itemsWithoutFields drops rest
/-- The fields without those whose names are dropped. -/
def fieldsWithoutFields (drops : String → Bool) :
    List (String × Value) → List (String × Value)
  | [] => []
  | (name, v) :: rest =>
    if drops name then fieldsWithoutFields drops rest
    else (name, withoutFields drops v) :: fieldsWithoutFields drops rest
end

end Value
end ProtoBuild
