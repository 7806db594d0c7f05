import ProtoBuild.Value.Json.Number

/-!
# The tokens of a JSON text

A JSON text is cut into punctuation and scalars.  A scalar token already holds its
value, which is `Value.illFormed` for a string that is no Unicode text and for a
number that is too large (`Value.Json.Number`).
-/

namespace ProtoBuild
namespace Json

/-- A token of a JSON text. -/
inductive Token where
  | openList
  | closeList
  | openObject
  | closeObject
  | colon
  | comma
  /-- A string, or `none` for one that is no Unicode text. -/
  | string (text : Option String)
  /-- Any other scalar. -/
  | scalar (value : Value)
  deriving Repr

/-! ## Strings -/

/-- The number of a hexadecimal digit. -/
def hexDigit? (c : Char) : Option Nat :=
  if Text.isAsciiDigit c then some (c.toNat - 0x30)
  else if 'a' ≤ c && c ≤ 'f' then some (c.toNat - 0x57)
  else if 'A' ≤ c && c ≤ 'F' then some (c.toNat - 0x37)
  else none

/-- The number of four hexadecimal digits. -/
def hex4? (a b c d : Char) : Option Nat := do
  let a ← hexDigit? a
  let b ← hexDigit? b
  let c ← hexDigit? c
  let d ← hexDigit? d
  return a * 4096 + b * 256 + c * 16 + d

/-- The character a short escape stands for. -/
def shortEscape? : Char → Option Char
  | '"' => some '"'
  | '\\' => some '\\'
  | '/' => some '/'
  | 'b' => some '\x08'
  | 'f' => some '\x0c'
  | 'n' => some '\n'
  | 'r' => some '\r'
  | 't' => some '\t'
  | _ => none

/-- One unit of a string: a character, or one of the two halves that write a
character beyond the basic plane together. -/
inductive StringUnit where
  | char (c : Char)
  | highHalf (n : Nat)
  | lowHalf (n : Nat)
  deriving Repr

/-- The unit with a number of sixteen bits. -/
def StringUnit.ofNat (n : Nat) : StringUnit :=
  if 0xD800 ≤ n && n < 0xDC00 then .highHalf (n - 0xD800)
  else if 0xDC00 ≤ n && n < 0xE000 then .lowHalf (n - 0xDC00)
  else .char (Char.ofNat n)

/-- The text of some units, if each half has its other half beside it. -/
def textOfUnits? : List StringUnit → Option (List Char)
  | [] => some []
  | .char c :: us => (textOfUnits? us).map (c :: ·)
  | .highHalf h :: .lowHalf l :: us =>
    (textOfUnits? us).map (Char.ofNat (0x10000 + h * 1024 + l) :: ·)
  | _ => none

/-- The units of a string up to its closing quote, and what follows it. -/
def stringUnits? : List Char → Option (List StringUnit × List Char)
  | '"' :: rest => some ([], rest)
  | '\\' :: 'u' :: a :: b :: c :: d :: rest => do
    let n ← hex4? a b c d
    let (units, after) ← stringUnits? rest
    return (StringUnit.ofNat n :: units, after)
  | '\\' :: e :: rest => do
    let c ← shortEscape? e
    let (units, after) ← stringUnits? rest
    return (.char c :: units, after)
  | c :: rest =>
    if c == '\\' || c.toNat < 0x20 then none
    else do
      let (units, after) ← stringUnits? rest
      return (.char c :: units, after)
  | [] => none

/-! ## Texts -/

/-- The tokens of a text of at most `fuel` characters. -/
def tokensWithin : Nat → List Char → Option (List Token)
  | _, [] => some []
  | 0, _ :: _ => none
  | fuel + 1, c :: cs =>
    let then? (t : Token) (rest : List Char) := (tokensWithin fuel rest).map (t :: ·)
    match c, cs with
    | ' ', _ | '\n', _ | '\r', _ | '\t', _ => tokensWithin fuel cs
    | '[', _ => then? .openList cs
    | ']', _ => then? .closeList cs
    | '\x7b', _ => then? .openObject cs
    | '\x7d', _ => then? .closeObject cs
    | ':', _ => then? .colon cs
    | ',', _ => then? .comma cs
    | '"', _ =>
      match stringUnits? cs with
      | some (units, rest) => then? (.string ((textOfUnits? units).map String.ofList)) rest
      | none => none
    | 'n', 'u' :: 'l' :: 'l' :: rest => then? (.scalar .null) rest
    | 't', 'r' :: 'u' :: 'e' :: rest => then? (.scalar (.bool true)) rest
    | 'f', 'a' :: 'l' :: 's' :: 'e' :: rest => then? (.scalar (.bool false)) rest
    | _, _ =>
      match number? (c :: cs) with
      | some (v, rest) => then? (.scalar v) rest
      | none => none

/-- The tokens of a text. -/
def tokens? (cs : List Char) : Option (List Token) :=
  tokensWithin cs.length cs

end Json
end ProtoBuild
