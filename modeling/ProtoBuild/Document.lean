import ProtoBuild.StringMap
import ProtoBuild.Text.Digit
import ProtoBuild.Value

/-!
# Documents

A type is a `Document` if its values can be written as a `Value` and read back.
Records are read by the rules of `Value.fields?`: an object may have fields that the
record does not know, which are ignored, but none that it knows twice; a list gives
the fields by their place.  A field that is missing has its default, if it has one.

A list that is longer than the record is refused by `Value.fields?`, and its first items
are taken by `Value.leadingFields?`.  Which of the two is right depends on the format that
a document is written in, so a type that is read from two formats is read by a function of
a `RecordReader`.
-/

namespace ProtoBuild

/-- Values that can be written as a document and read back. -/
class Document (α : Type) where
  encode : α → Value
  decode? : Value → Option α

namespace Document

instance : Document String where
  encode := .string
  decode?
    | .string s => some s
    | _ => none

instance : Document Bool where
  encode := .bool
  decode?
    | .bool b => some b
    | _ => none

instance : Document UInt64 where
  encode n := .natural n.toNat
  decode?
    | .natural n => if h : n < UInt64.size then some (UInt64.ofNatLT n h) else none
    | _ => none

instance : Document UInt32 where
  encode n := .natural n.toNat
  decode?
    | .natural n => if h : n < UInt32.size then some (UInt32.ofNatLT n h) else none
    | _ => none

instance {α : Type} [Document α] : Document (List α) where
  encode l := .list (l.map encode)
  decode?
    | .list items => items.mapM decode?
    | _ => none

/-- Fields with the values of a map; of fields with one name the last one stays. -/
def mapOfFields? {α : Type} [Document α] (fields : List (String × Value)) :
    Option (StringMap α) :=
  (fields.mapM fun f => (decode? f.2).map (f.1, ·)).map StringMap.ofList

instance {α : Type} [Document α] : Document (StringMap α) where
  encode m := .object (m.toList.map fun e => (e.1, encode e.2))
  decode?
    | .object fields => mapOfFields? fields
    | _ => none

/-! ## Enumerations -/

/-- The member of an enumeration with a name. -/
def ofName? {α : Type} (all : List α) (name : α → String) (s : String) : Option α :=
  all.find? fun a => name a == s

/-- An enumeration is written by the names of its members.  A name may also stand as
the only field of an object, with nothing in it. -/
abbrev enumeration {α : Type} (all : List α) (name : α → String) : Document α where
  encode a := .string (name a)
  decode?
    | .string s => ofName? all name s
    | .object [(s, .null)] => ofName? all name s
    | _ => none

end Document

/-! ## Records -/

/-- The values of the fields of a record, by their names. -/
abbrev Fields := String → Option Value

/-- How often a name occurs among fields. -/
def countName (name : String) (fields : List (String × Value)) : Nat :=
  fields.countP fun f => f.1 == name

/-- A way to read a value as the fields of a record that knows some names. -/
abbrev RecordReader := List String → Value → Option Fields

/-- The fields of a record.  A list must not be longer than the record. -/
def Value.fields? (names : List String) : Value → Option Fields
  | .object fields =>
    if names.all fun n => countName n fields ≤ 1 then some fun n => List.lookup n fields
    else none
  | .list items =>
    if items.length ≤ names.length then some fun n => List.lookup n (names.zip items)
    else none
  | _ => none

/-- The fields of a record.  What a list says beyond the length of the record is not looked
at. -/
def Value.leadingFields? (names : List String) : Value → Option Fields
  | .list items => Value.fields? names (.list (items.take names.length))
  | v => v.fields? names

namespace Fields

variable {α : Type}

/-- A field that has a default, read in a way of its own. -/
def orDefaultBy (read? : Value → Option α) (fields : Fields) (name : String) (default : α) :
    Option α :=
  match fields name with
  | none => some default
  | some v => read? v

/-- A field that may be left out, read in a way of its own; `null` leaves it out too. -/
def optionalBy (read? : Value → Option α) (fields : Fields) (name : String) :
    Option (Option α) :=
  match fields name with
  | none | some .null => some none
  | some v => (read? v).map some

variable [Document α]

/-- A field that has to be there. -/
def required (fields : Fields) (name : String) : Option α :=
  (fields name).bind Document.decode?

/-- A field that has a default. -/
def orDefault (fields : Fields) (name : String) (default : α) : Option α :=
  fields.orDefaultBy Document.decode? name default

/-- A field that may be left out; `null` leaves it out too. -/
def optional (fields : Fields) (name : String) : Option (Option α) :=
  fields.optionalBy Document.decode? name

end Fields

/-- A field that is written always. -/
def written {α : Type} [Document α] (name : String) (a : α) : Option (String × Value) :=
  some (name, Document.encode a)

/-- A field that is left out if it is empty. -/
def writtenIf {α : Type} [Document α] (name : String) (a : Option α) : Option (String × Value) :=
  a.map fun a => (name, Document.encode a)

end ProtoBuild
