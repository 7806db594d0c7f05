import ProtoBuild.Value

/-!
# Tables that are being built

The lines of a TOML text add to one tree of tables.  A table may be made by its own
header, by a header below it, or by a dotted key; the two marks of a table say how it
was made, and they decide who may still add to it.

* A header may open a table once: a new one, or one that only headers below it have
  made (`openTable?`).
* A dotted key may pass through tables that dotted keys or headers below them have made,
  but it may add only to one that dotted keys have made (`addEntry?`).
* No key is set twice.
-/

namespace ProtoBuild
namespace Toml

/-- What a key of a table holds. -/
inductive Node where
  | value (v : Value)
  /-- A table.  It is implicit if no header of its own has opened it, and dotted if a
  dotted key has made it. -/
  | table (implicit dotted : Bool) (entries : List (String × Node))
  /-- The tables of a header in double brackets. -/
  | tables (elements : List (List (String × Node)))

/-- The keys of a table and what they hold. -/
abbrev Entries := List (String × Node)

mutual
/-- A node as a value. -/
def Node.toValue : Node → Value
  | .value v => v
  | .table _ _ entries => .object (fieldsOf entries)
  | .tables elements => .list (objectsOf elements)
/-- The entries of a table as fields. -/
def fieldsOf : List (String × Node) → List (String × Value)
  | [] => []
  | e :: es => (e.1, e.2.toValue) :: fieldsOf es
/-- Tables as objects. -/
def objectsOf : List (List (String × Node)) → List Value
  | [] => []
  | t :: ts => .object (fieldsOf t) :: objectsOf ts
end

/-- The entries with the node of one key set. -/
def setNode (key : String) (node : Node) : Entries → Entries
  | [] => [(key, node)]
  | e :: es => if e.1 = key then (key, node) :: es else e :: setNode key node es

/-- Changes the entries of the table at a path.  Tables that are missing are made,
implicit, and dotted if the path is that of a dotted key.  Of the tables of a header in
double brackets the last one is meant. -/
def atPath? (dotted : Bool) (change : Bool → Entries → Option Entries) :
    List String → Bool → Entries → Option Entries
  | [], isDotted, entries => change isDotted entries
  | key :: path, _, entries =>
    match List.lookup key entries with
    | none => do
      let inner ← atPath? dotted change path dotted []
      return setNode key (.table true dotted inner) entries
    | some (.value _) => none
    | some (.table implicit isDotted inner) =>
      if dotted && ! implicit then none
      else do
        let inner' ← atPath? dotted change path isDotted inner
        return setNode key (.table implicit isDotted inner') entries
    | some (.tables elements) => do
      let last ← atPath? dotted change path false (elements.getLast?.getD [])
      return setNode key (.tables (elements.dropLast ++ [last])) entries

/-- Sets a key in the table at a dotted path. -/
def addEntry? (path : List String) (key : String) (v : Value) (entries : Entries) :
    Option Entries :=
  atPath? true (fun isDotted inner =>
    if isDotted == path.isEmpty || (List.lookup key inner).isSome then none
    else some (setNode key (.value v) inner)) path false entries

/-- Opens the table of a header. -/
def openTable? (path : List String) (key : String) (entries : Entries) : Option Entries :=
  atPath? false (fun _ inner =>
    match List.lookup key inner with
    | none => some (setNode key (.table false false []) inner)
    | some (.table true false own) => some (setNode key (.table false false own) inner)
    | some _ => none) path false entries

/-- Opens one more table of a header in double brackets. -/
def openElement? (path : List String) (key : String) (entries : Entries) : Option Entries :=
  atPath? false (fun _ inner =>
    match List.lookup key inner with
    | none => some (setNode key (.tables [[]]) inner)
    | some (.tables elements) => some (setNode key (.tables (elements ++ [[]])) inner)
    | some _ => none) path false entries

/-- Sets a key at a dotted path in the table that the last header has opened. -/
def addBelow? (header : List String) (path : List String) (key : String) (v : Value)
    (entries : Entries) : Option Entries :=
  atPath? false (fun _ inner => addEntry? path key v inner) header false entries

end Toml
end ProtoBuild
