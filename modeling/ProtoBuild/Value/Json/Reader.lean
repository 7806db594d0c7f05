import ProtoBuild.Value.Json.Token

/-!
# From JSON tokens to a value

The reader is a machine with a stack.  The stack holds the lists and objects that are
open, the innermost first; the `Expect` part of a state says which tokens may come
next.  Each token is one step, so reading is a fold over the tokens and needs no
bound.  Containers deeper than `maxDepth` are read, but they are `Value.illFormed`.

## Why a stack

A reader that calls itself for each part of a value has to return the rest of the text, and
has to show that the rest is shorter; its statements then speak of a value and a rest at
once.  With the open containers on a stack there is no rest: the tokens of a value that is
read in some state lead to that state with the value pushed, and this single fact, proved
by induction on the value, says what reading does with what was written.
-/

namespace ProtoBuild
namespace Json

/-- The deepest level at which a list or an object can be held. -/
def maxDepth : Nat := 127

/-- A list or an object that is open.  Its parts are in reverse order. -/
inductive Frame where
  | list (items : List Value)
  | object (fields : List (Option String × Value))
  /-- An object whose last field has a name and no value yet. -/
  | field (fields : List (Option String × Value)) (name : Option String)
  deriving Repr

/-- What may come next. -/
inductive Expect where
  /-- A value. -/
  | value
  /-- The first item of a list, or its end. -/
  | firstItem
  /-- The first name of an object, or its end. -/
  | firstName
  /-- The name of a field. -/
  | name
  /-- The colon after a name. -/
  | colon
  /-- What may follow an item or a field: a comma, or the end of the container. -/
  | next
  deriving Repr, DecidableEq

/-- A state of the reader. -/
inductive State where
  | reading (stack : List Frame) (expect : Expect)
  | finished (value : Value)
  deriving Repr

/-- The state before the first token. -/
def start : State := .reading [] .value

/-- The state after a value that is complete. -/
def push (v : Value) : List Frame → Option State
  | [] => some (.finished v)
  | .list items :: rest => some (.reading (.list (v :: items) :: rest) .next)
  | .field fields name :: rest => some (.reading (.object ((name, v) :: fields) :: rest) .next)
  | .object _ :: _ => none

/-- The object of fields in reverse order.  There is none with a name that is no
Unicode text. -/
def objectOf (fields : List (Option String × Value)) : Value :=
  match fields.reverse.mapM fun f => f.1.map (·, f.2) with
  | some fs => .object fs
  | none => .illFormed

/-- The state after the innermost container is closed.  What is left of the stack says how
deep the container lies. -/
def close (v : Value) (stack : List Frame) : Option State :=
  push (if (stack.drop (maxDepth - 1)).isEmpty then v else .illFormed) stack

/-- One step of the reader. -/
def step (state : State) (t : Token) : Option State :=
  match state with
  | .finished _ => none
  | .reading stack expect =>
    match expect, t, stack with
    | .value, .scalar v, _ | .firstItem, .scalar v, _ => push v stack
    | .value, .string s, _ | .firstItem, .string s, _ =>
      push ((s.map Value.string).getD .illFormed) stack
    | .value, .openList, _ | .firstItem, .openList, _ =>
      some (.reading (.list [] :: stack) .firstItem)
    | .value, .openObject, _ | .firstItem, .openObject, _ =>
      some (.reading (.object [] :: stack) .firstName)
    | .firstItem, .closeList, .list items :: rest | .next, .closeList, .list items :: rest =>
      close (.list items.reverse) rest
    | .firstName, .closeObject, .object fields :: rest
    | .next, .closeObject, .object fields :: rest => close (objectOf fields) rest
    | .firstName, .string s, .object fields :: rest | .name, .string s, .object fields :: rest =>
      some (.reading (.field fields s :: rest) .colon)
    | .colon, .colon, _ => some (.reading stack .value)
    | .next, .comma, .list _ :: _ => some (.reading stack .value)
    | .next, .comma, .object _ :: _ => some (.reading stack .name)
    | _, _, _ => none

/-- The state after some tokens. -/
def run (state : State) : List Token → Option State
  | [] => some state
  | t :: ts =>
    match step state t with
    | some next => run next ts
    | none => none

/-- The value a text says, if it is one JSON value with blanks around it. -/
def read? (cs : List Char) : Option Value :=
  match tokens? cs with
  | none => none
  | some ts =>
    match run start ts with
    | some (.finished v) => some v
    | _ => none

end Json

/-- The value a JSON text says. -/
def Value.ofJson? (text : String) : Option Value :=
  Json.read? text.toList

end ProtoBuild
