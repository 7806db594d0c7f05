import ProtoBuild.Value.Toml.Scalar
import ProtoBuild.Value.Toml.Table

/-!
# From a TOML text to a value

A text is read line by line.  Each line adds to the tables read so far, so a text is
refused at the first line that is not written correctly or that may not be added.
Values can be nested in one another up to a fixed depth; within a line the readers are
bounded by the length of the text.
-/

namespace ProtoBuild
namespace Toml

/-- How many parts a key may have, and how deeply lists and tables may be nested in a
value. -/
def maxDepth : Nat := 79

/-! ## Keys -/

/-- One part of a key. -/
def keyPart? : Reader String
  | '"' :: rest => (basicString? rest).map fun p => (String.ofList p.1, p.2)
  | '\'' :: rest => (literalString? rest).map fun p => (String.ofList p.1, p.2)
  | cs =>
    let name := cs.takeWhile isBareKeyChar
    if name.isEmpty then none else some (String.ofList name, cs.dropWhile isBareKeyChar)

/-- The parts of a key, with dots between them; blanks may stand around each. -/
def keyParts? : Nat → Reader (List String)
  | 0, _ => none
  | fuel + 1, cs => do
    let (part, rest) ← keyPart? (skipBlanks cs)
    match skipBlanks rest with
    | '.' :: rest' => do
      let (parts, rest'') ← keyParts? fuel rest'
      return (part :: parts, rest'')
    | rest' => return ([part], rest')

/-- A key: the parts before its last one, and the last one. -/
def key? (cs : List Char) : Option ((List String × String) × List Char) := do
  let (parts, rest) ← keyParts? maxDepth cs
  let last ← parts.getLast?
  return ((parts.dropLast, last), rest)

/-! ## Values -/

/-- The characters of a comment dropped, up to the end of its line. -/
def skipComment (cs : List Char) : List Char :=
  match cs with
  | '#' :: rest => rest.dropWhile isPrintable
  | _ => cs

/-- Blanks, line ends and comments dropped, from the inside of a comment or from the outside
of one. -/
def skipFillerFrom : Bool → List Char → List Char
  | _, '\n' :: rest => skipFillerFrom false rest
  | _, '\r' :: '\n' :: rest => skipFillerFrom false rest
  | false, '#' :: rest => skipFillerFrom true rest
  | inComment, c :: rest =>
    if if inComment then isPrintable c else isBlank c then skipFillerFrom inComment rest
    else c :: rest
  | _, [] => []

/-- Blanks, line ends and comments dropped. -/
def skipFiller (cs : List Char) : List Char :=
  skipFillerFrom false cs

/-- A truth value. -/
def bool? : Reader Value
  | 't' :: 'r' :: 'u' :: 'e' :: rest => some (.bool true, rest)
  | 'f' :: 'a' :: 'l' :: 's' :: 'e' :: rest => some (.bool false, rest)
  | _ => none

mutual
/-- A value, at some depth. -/
def value? : Nat → Nat → Reader Value
  | 0, _, _ => none
  | fuel + 1, depth, cs =>
    match cs with
    | '"' :: _ | '\'' :: _ => (string? cs).map fun p => (.string (String.ofList p.1), p.2)
    | '[' :: rest =>
      if depth < maxDepth then do
        let (items, rest') ← items? fuel (depth + 1) rest
        return (.list items, rest')
      else none
    | '\x7b' :: rest =>
      if depth < maxDepth then
        match skipBlanks rest with
        | '\x7d' :: rest' => some (.object [], rest')
        | rest' => do
          let (entries, rest'') ← pairs? fuel (depth + 1) [] rest'
          return (.object (fieldsOf entries), rest'')
      else none
    | 't' :: _ | 'f' :: _ => bool? cs
    | _ => number? cs
/-- The items of a list, up to the closing bracket. -/
def items? : Nat → Nat → Reader (List Value)
  | 0, _, _ => none
  | fuel + 1, depth, cs =>
    match skipFiller cs with
    | ']' :: rest => some ([], rest)
    | start => do
      let (v, rest) ← value? fuel depth start
      match skipFiller rest with
      | ']' :: rest' => return ([v], rest')
      | ',' :: rest' => do
        let (vs, rest'') ← items? fuel depth rest'
        return (v :: vs, rest'')
      | _ => none
/-- The keys and values of a table within a line, up to the closing brace, added to
those read before. -/
def pairs? : Nat → Nat → Entries → Reader Entries
  | 0, _, _, _ => none
  | fuel + 1, depth, entries, cs => do
    let ((path, key), rest) ← key? cs
    let rest ← char? '=' rest
    let (v, rest) ← value? fuel depth (skipBlanks rest)
    let entries ← addEntry? path key v entries
    match skipBlanks rest with
    | '\x7d' :: rest' => return (entries, rest')
    | ',' :: rest' => pairs? fuel depth entries rest'
    | _ => none
end

/-! ## Lines -/

/-- The header that keys are added below, and the tables read so far. -/
structure Reading where
  header : List String := []
  entries : Entries := []

/-- What follows the rest of a line on which nothing but a comment may follow. -/
def endOfLine? (cs : List Char) : Option (List Char) :=
  match skipComment (skipBlanks cs) with
  | [] => some []
  | rest => lineEnd? rest

/-- One line that is not empty, without its end. -/
def line? (fuel : Nat) (r : Reading) (cs : List Char) : Option (Reading × List Char) :=
  match cs with
  | '#' :: _ => some (r, cs)
  | '[' :: '[' :: rest => do
    let ((path, key), rest) ← key? rest
    let rest ← char? ']' rest
    let rest ← char? ']' rest
    let entries ← openElement? path key r.entries
    return ({ header := path ++ [key], entries := entries }, rest)
  | '[' :: rest => do
    let ((path, key), rest) ← key? rest
    let rest ← char? ']' rest
    let entries ← openTable? path key r.entries
    return ({ header := path ++ [key], entries := entries }, rest)
  | _ => do
    let ((path, key), rest) ← key? cs
    let rest ← char? '=' rest
    let (v, rest) ← value? fuel 0 (skipBlanks rest)
    let entries ← addBelow? r.header path key v r.entries
    return ({ r with entries := entries }, rest)

/-- The tables of all lines.  If the bound is above twice the length of the text, it is
never reached, since a line takes one from the bound and at least one character from the
text. -/
def lines? : Nat → Reading → List Char → Option Entries
  | fuel, r, cs =>
    match skipSpace cs with
    | [] => some r.entries
    | start =>
      match fuel with
      | 0 => none
      | fuel + 1 => do
        let (r, rest) ← line? fuel r start
        lines? fuel r (← endOfLine? rest)

/-- The text without the mark that tells the order of its bytes. -/
def skipMark : List Char → List Char
  | '\uFEFF' :: rest => rest
  | cs => cs

end Toml

/-- The value a TOML text says, an object of its top-level keys. -/
def Value.ofToml? (text : String) : Option Value :=
  let cs := Toml.skipMark text.toList
  (Toml.lines? (2 * cs.length + 2) {} cs).map fun entries => .object (Toml.fieldsOf entries)

end ProtoBuild
