import ProtoBuild.Value

/-!
# Values written as JSON

A value is written either on one line or with one item or field a line and two
blanks for each level.  Both forms escape strings alike: quotes, backslashes and
control characters are escaped, and all else stands as it is.
-/

namespace ProtoBuild
namespace Json

/-- A digit of the hexadecimal system. -/
def hexDigit (n : Nat) : Char :=
  if n < 10 then Char.ofNat (0x30 + n) else Char.ofNat (0x57 + n)

/-- How a character is written inside a string. -/
def escapeChar (c : Char) : List Char :=
  match c with
  | '"' => ['\\', '"']
  | '\\' => ['\\', '\\']
  | '\x08' => ['\\', 'b']
  | '\x0c' => ['\\', 'f']
  | '\n' => ['\\', 'n']
  | '\r' => ['\\', 'r']
  | '\t' => ['\\', 't']
  | c =>
    if c.toNat < 0x20 then
      ['\\', 'u', '0', '0', hexDigit (c.toNat / 16), hexDigit (c.toNat % 16)]
    else [c]

/-- A string with its quotes. -/
def quote (s : String) : List Char :=
  '"' :: s.toList.flatMap escapeChar ++ ['"']

/-- How the parts of a container are set apart. -/
inductive Layout where
  /-- All on one line. -/
  | line
  /-- Each part on a line of its own. -/
  | block
  deriving DecidableEq, Repr

/-- What stands before a part at some level. -/
def Layout.break (layout : Layout) (level : Nat) : List Char :=
  match layout with
  | .line => []
  | .block => '\n' :: List.replicate (2 * level) ' '

/-- What stands between a name and its value. -/
def Layout.colon : Layout → List Char
  | .line => [':']
  | .block => [':', ' ']

mutual
/-- A value at some level. -/
def write (layout : Layout) (level : Nat) : Value → List Char
  | .null => "null".toList
  | .bool b => (if b then "true" else "false").toList
  | .natural n => (toString n).toList
  | .number literal => literal.toList
  | .string s => quote s
  | .list [] => ['[', ']']
  | .list (v :: vs) =>
    '[' :: layout.break (level + 1) ++ write layout (level + 1) v ++
      writeItems layout (level + 1) vs ++ layout.break level ++ [']']
  | .object [] => ['\x7b', '\x7d']
  | .object (f :: fs) =>
    '\x7b' :: layout.break (level + 1) ++ quote f.1 ++ layout.colon ++
      write layout (level + 1) f.2 ++ writeFields layout (level + 1) fs ++
      layout.break level ++ ['\x7d']
  | .illFormed => "null".toList
/-- The items after the first, each with the comma before it. -/
def writeItems (layout : Layout) (level : Nat) : List Value → List Char
  | [] => []
  | v :: vs => ',' :: layout.break level ++ write layout level v ++ writeItems layout level vs
/-- The fields after the first, each with the comma before it. -/
def writeFields (layout : Layout) (level : Nat) : List (String × Value) → List Char
  | [] => []
  | f :: fs =>
    ',' :: layout.break level ++ quote f.1 ++ layout.colon ++ write layout level f.2 ++
      writeFields layout level fs
end

end Json

/-- The value as JSON on one line. -/
def Value.toJson (v : Value) : String :=
  String.ofList (Json.write .line 0 v)

/-- The value as JSON with a line for each part. -/
def Value.toJsonBlock (v : Value) : String :=
  String.ofList (Json.write .block 0 v)

end ProtoBuild
