import ProtoBuild.Value.Json.Token

/-!
# Strings, numbers and dates of a TOML text

Each reader takes a text and gives what it read from its beginning, together with the
rest.  A number has to be in the range of its kind, but only its literal is kept.  A
date is kept in its normal spelling, since that is what a reader of strings sees of it.
-/

namespace ProtoBuild
namespace Toml

/-- What a reader gives: what it has read, and the rest of the text. -/
abbrev Reader (α : Type) := List Char → Option (α × List Char)

/-! ## Characters -/

/-- A blank within a line. -/
def isBlank (c : Char) : Bool :=
  c == ' ' || c == '\t'

/-- The text without the blanks it starts with. -/
def skipBlanks (cs : List Char) : List Char :=
  cs.dropWhile isBlank

/-- A character that may stand in a comment. -/
def isPrintable (c : Char) : Bool :=
  c == '\t' || (0x20 ≤ c.toNat && c.toNat ≠ 0x7F)

/-- A character that may stand in a key without quotes. -/
def isBareKeyChar (c : Char) : Bool :=
  Text.isAsciiAlphanumeric c || c == '-' || c == '_'

/-- What follows the end of a line, if the text begins with one. -/
def lineEnd? : List Char → Option (List Char)
  | '\n' :: rest => some rest
  | '\r' :: '\n' :: rest => some rest
  | _ => none

/-! ## Strings -/

/-- The number of some hexadecimal digits. -/
def hexNumber? (digits : List Char) : Option Nat :=
  digits.foldlM (fun n c => (Json.hexDigit? c).map (n * 16 + ·)) 0

/-- The character with a code point, if it is one. -/
def scalar? (n : Nat) : Option Char :=
  if n < 0xD800 || (0xE000 ≤ n && n < 0x110000) then some (Char.ofNat n) else none

/-- The character that follows a backslash stands for. -/
def escape? : Reader Char
  | 'b' :: rest => some ('\x08', rest)
  | 't' :: rest => some ('\t', rest)
  | 'n' :: rest => some ('\n', rest)
  | 'f' :: rest => some ('\x0c', rest)
  | 'r' :: rest => some ('\r', rest)
  | '"' :: rest => some ('"', rest)
  | '\\' :: rest => some ('\\', rest)
  | 'u' :: a :: b :: c :: d :: rest => do
    let c ← scalar? (← hexNumber? [a, b, c, d])
    return (c, rest)
  | 'U' :: a :: b :: c :: d :: e :: f :: g :: h :: rest => do
    let c ← scalar? (← hexNumber? [a, b, c, d, e, f, g, h])
    return (c, rest)
  | _ => none

theorem length_escape {cs rest : List Char} {c : Char} (h : escape? cs = some (c, rest)) :
    rest.length < cs.length := by
  unfold escape? at h
  split at h <;>
    simp_all [Option.bind_eq_bind, Option.bind_eq_some_iff] <;> grind

/-- A string in double quotes, after the opening quote. -/
def basicString? (cs : List Char) : Option (List Char × List Char) :=
  match cs with
  | [] => none
  | '"' :: rest => some ([], rest)
  | '\\' :: rest =>
    match _h : escape? rest with
    | none => none
    | some (c, rest') => (basicString? rest').map fun p => (c :: p.1, p.2)
  | c :: rest =>
    if isPrintable c then (basicString? rest).map fun p => (c :: p.1, p.2) else none
termination_by cs.length
decreasing_by
  · have := length_escape ‹_›
    simp only [List.length_cons]
    omega
  · simp

/-- A string in single quotes, after the opening quote. -/
def literalString? : Reader (List Char)
  | [] => none
  | '\'' :: rest => some ([], rest)
  | c :: rest =>
    if isPrintable c then (literalString? rest).map fun p => (c :: p.1, p.2) else none

/-- The quotes that end a string of several lines: three to five, of which the last
three are no part of it. -/
def closing? (quote : Char) (cs : List Char) : Option (List Char × List Char) :=
  let run := (cs.takeWhile (· == quote)).length
  if run < 3 then none
  else
    let own := min run 5 - 3
    some (List.replicate own quote, cs.drop (own + 3))

/-- The blanks and line ends at the beginning of a text dropped. -/
def skipSpace : List Char → List Char
  | '\r' :: '\n' :: rest => skipSpace rest
  | c :: rest => if isBlank c || c == '\n' then skipSpace rest else c :: rest
  | [] => []

theorem length_skipSpace_le (cs : List Char) : (skipSpace cs).length ≤ cs.length := by
  fun_induction skipSpace cs <;> simp_all <;> omega

/-- A backslash at the end of a line joins the line with the next text: what follows
it all, if blanks and a line end follow the backslash. -/
def continued? (cs : List Char) : Option (List Char) :=
  (lineEnd? (skipBlanks cs)).map skipSpace

theorem length_lineEnd {cs rest : List Char} (h : lineEnd? cs = some rest) :
    rest.length < cs.length := by
  unfold lineEnd? at h
  split at h
  · cases h
    exact Nat.lt_succ_self _
  · cases h
    exact Nat.lt_succ_of_lt (Nat.lt_succ_self _)
  · cases h

theorem length_continued {cs rest : List Char} (h : continued? cs = some rest) :
    rest.length < cs.length := by
  unfold continued? at h
  simp only [Option.map_eq_some_iff] at h
  obtain ⟨mid, hmid, rfl⟩ := h
  have h₁ := length_lineEnd hmid
  have h₂ := length_skipSpace_le mid
  have h₃ := (List.dropWhile_sublist (l := cs) isBlank).length_le
  unfold skipBlanks at h₁
  omega

/-- A string of several lines in double quotes, after the opening quotes. -/
def basicLines? (cs : List Char) : Option (List Char × List Char) :=
  match closing? '"' cs with
  | some p => some p
  | none =>
    match cs with
    | [] => none
    | '\\' :: rest =>
      match _h : escape? rest with
      | some (c, rest') => (basicLines? rest').map fun p => (c :: p.1, p.2)
      | none =>
        match _h : continued? rest with
        | some rest' => basicLines? rest'
        | none => none
    | '\r' :: '\n' :: rest => (basicLines? rest).map fun p => ('\n' :: p.1, p.2)
    | c :: rest =>
      if isPrintable c || c == '\n' then (basicLines? rest).map fun p => (c :: p.1, p.2)
      else none
termination_by cs.length
decreasing_by
  · have := length_escape ‹_›
    simp only [List.length_cons]
    omega
  · have := length_continued ‹_›
    simp only [List.length_cons]
    omega
  · simp only [List.length_cons]
    omega
  · simp

/-- A string of several lines in single quotes, after the opening quotes. -/
def literalLines? (cs : List Char) : Option (List Char × List Char) :=
  match closing? '\'' cs with
  | some p => some p
  | none =>
    match cs with
    | [] => none
    | '\r' :: '\n' :: rest => (literalLines? rest).map fun p => ('\n' :: p.1, p.2)
    | c :: rest =>
      if isPrintable c || c == '\n' then (literalLines? rest).map fun p => (c :: p.1, p.2)
      else none
termination_by cs.length
decreasing_by all_goals simp only [List.length_cons]; omega

/-- The text without the line end it starts with. -/
def skipLineEnd (cs : List Char) : List Char :=
  (lineEnd? cs).getD cs

/-- A string of any kind. -/
def string? : Reader (List Char)
  | '"' :: '"' :: '"' :: rest => basicLines? (skipLineEnd rest)
  | '"' :: rest => basicString? rest
  | '\'' :: '\'' :: '\'' :: rest => literalLines? (skipLineEnd rest)
  | '\'' :: rest => literalString? rest
  | _ => none

/-! ## Numbers -/

/-- Digits, each of which may have one underscore before it. -/
def moreDigits? (isDigit : Char → Bool) : Reader (List Char)
  | ['_'] => none
  | '_' :: c :: rest =>
    if isDigit c then (moreDigits? isDigit rest).map fun p => (c :: p.1, p.2) else none
  | c :: rest =>
    if isDigit c then (moreDigits? isDigit rest).map fun p => (c :: p.1, p.2)
    else some ([], c :: rest)
  | [] => some ([], [])

/-- At least one digit, then as in `moreDigits?`. -/
def digits? (isDigit : Char → Bool) : Reader (List Char)
  | c :: rest =>
    if isDigit c then (moreDigits? isDigit rest).map fun p => (c :: p.1, p.2) else none
  | [] => none

/-- A sign, if there is one: whether it is a minus. -/
def sign : List Char → Bool × List Char
  | '-' :: rest => (true, rest)
  | '+' :: rest => (false, rest)
  | cs => (false, cs)

/-- The digits of a decimal integer; a zero stands alone. -/
def whole? : Reader (List Char)
  | '0' :: rest => some (['0'], rest)
  | cs => digits? Text.isAsciiDigit cs

/-- A digit of some base. -/
def isDigitOf (base : Nat) (c : Char) : Bool :=
  match Json.hexDigit? c with
  | some d => d < base
  | none => false

/-- The base that a letter after a zero announces. -/
def base? : Char → Option Nat
  | 'x' => some 16
  | 'o' => some 8
  | 'b' => some 2
  | _ => none

/-- A number, from its digits, as a value. -/
def literal (negative : Bool) (digits : List Char) : Value :=
  .number (String.ofList (if negative then '-' :: digits else digits))

/-- An integer in a base other than ten, after the letter of the base. -/
def basedInteger? (base : Nat) (cs : List Char) : Option (Value × List Char) := do
  let (digits, rest) ← digits? (isDigitOf base) cs
  let n := digits.foldl (fun n c => n * base + (Json.hexDigit? c).getD 0) 0
  if n < Nat.pow 2 63 then return (literal false digits, rest) else none

/-- The exponent of a number: a sign and digits after the letter. -/
def exponent? : List Char → Option (Int × List Char)
  | e :: cs =>
    if e == 'e' || e == 'E' then do
      let (negative, body) := sign cs
      let (digits, rest) ← digits? Text.isAsciiDigit body
      let n := Int.ofNat (Text.numeral digits)
      return (if negative then -n else n, rest)
    else none
  | [] => none

/-- A decimal number, whole or with a fraction or an exponent. -/
def decimal? (cs : List Char) : Option (Value × List Char) := do
  let (negative, body) := sign cs
  let (whole, rest) ← whole? body
  let isFraction := rest.head? == some '.'
  let isScaled := rest.head? == some 'e' || rest.head? == some 'E'
  if isFraction || isScaled then
    let (fraction, afterFraction) ←
      if isFraction then digits? Text.isAsciiDigit rest.tail else some ([], rest)
    let (exponent, rest') := (exponent? afterFraction).getD (0, afterFraction)
    if ! negative && Binary64.isInfinite (Text.numeral (whole ++ fraction))
        (exponent - fraction.length) then none
    else return (literal negative (whole ++ '.' :: fraction), rest')
  else
    let n := Text.numeral whole
    if n < Nat.pow 2 63 || (negative && n = Nat.pow 2 63) then return (literal negative whole, rest)
    else none

/-- An infinity or what is not a number. -/
def special? (cs : List Char) : Option (Value × List Char) :=
  match sign cs with
  | (_, 'i' :: 'n' :: 'f' :: rest) => some (.number "inf", rest)
  | (_, 'n' :: 'a' :: 'n' :: rest) => some (.number "nan", rest)
  | _ => none

/-! ## Dates and times -/

/-- Exactly `count` digits, as a number of at most `limit`. -/
def fixedDigits? (count limit : Nat) (cs : List Char) : Option (Nat × List Char) :=
  let digits := cs.take count
  let n := Text.numeral digits
  if digits.length = count ∧ digits.all Text.isAsciiDigit ∧ n ≤ limit then
    some (n, cs.drop count)
  else none

/-- One character. -/
def char? (c : Char) : List Char → Option (List Char)
  | [] => none
  | c' :: rest => if c = c' then some rest else none

/-- A number with zeros before it up to a width. -/
def padded (width n : Nat) : List Char :=
  let digits := (toString n).toList
  List.replicate (width - digits.length) '0' ++ digits

/-- The number of days of a month. -/
def daysOf (year month : Nat) : Nat :=
  if month = 2 then
    if year % 4 = 0 ∧ (year % 100 ≠ 0 ∨ year % 400 = 0) then 29 else 28
  else if month = 4 ∨ month = 6 ∨ month = 9 ∨ month = 11 then 30
  else 31

/-- A date, in its normal spelling. -/
def date? (cs : List Char) : Option (List Char × List Char) := do
  let (year, cs) ← fixedDigits? 4 9999 cs
  let cs ← char? '-' cs
  let (month, cs) ← fixedDigits? 2 12 cs
  let cs ← char? '-' cs
  let (day, cs) ← fixedDigits? 2 (daysOf year month) cs
  if month = 0 ∨ day = 0 then none
  else return (padded 4 year ++ '-' :: padded 2 month ++ '-' :: padded 2 day, cs)

/-- The fraction of a second in its normal spelling: at most nine digits, without zeros
at the end. -/
def secondFraction (digits : List Char) : List Char :=
  let kept := ((digits.take 9).reverse.dropWhile (· == '0')).reverse
  if kept.isEmpty then [] else '.' :: kept

/-- A time of day, in its normal spelling. -/
def time? (cs : List Char) : Option (List Char × List Char) := do
  let (hour, cs) ← fixedDigits? 2 23 cs
  let cs ← char? ':' cs
  let (minute, cs) ← fixedDigits? 2 59 cs
  let cs ← char? ':' cs
  let (second, cs) ← fixedDigits? 2 60 cs
  let text := padded 2 hour ++ ':' :: padded 2 minute ++ ':' :: padded 2 second
  match cs with
  | '.' :: rest =>
    let digits := rest.takeWhile Text.isAsciiDigit
    if digits.isEmpty then none
    else return (text ++ secondFraction digits, rest.dropWhile Text.isAsciiDigit)
  | _ => return (text, cs)

/-- The distance from universal time, in its normal spelling. -/
def offset? : List Char → Option (List Char × List Char)
  | 'Z' :: rest | 'z' :: rest => some (['Z'], rest)
  | c :: cs =>
    if c == '+' || c == '-' then do
      let (hour, cs) ← fixedDigits? 2 23 cs
      let cs ← char? ':' cs
      let (minute, cs) ← fixedDigits? 2 59 cs
      let sign := if hour = 0 ∧ minute = 0 then '+' else c
      return (sign :: padded 2 hour ++ ':' :: padded 2 minute, cs)
    else none
  | [] => none

/-- A date with a time after it, a date, or a time. -/
def dateTime? (cs : List Char) : Option (List Char × List Char) :=
  match date? cs with
  | none => time? cs
  | some (date, rest) =>
    match rest with
    | d :: after =>
      if d == 'T' || d == 't' || d == ' ' then
        match time? after with
        | none => some (date, rest)
        | some (time, rest') =>
          match offset? rest' with
          | some (offset, rest'') => some (date ++ 'T' :: time ++ offset, rest'')
          | none => some (date ++ 'T' :: time, rest')
      else some (date, rest)
    | [] => some (date, rest)

/-- How a date stands in a document: as an object of one field. -/
def dateValue (text : List Char) : Value :=
  .object [("$__toml_private_datetime", .string (String.ofList text))]

/-- Whether a text begins like a date or a time. -/
def beginsLikeDate : List Char → Bool
  | a :: b :: c :: rest =>
    Text.isAsciiDigit a && Text.isAsciiDigit b &&
      (c == ':' || (Text.isAsciiDigit c &&
        match rest with
        | d :: e :: _ => Text.isAsciiDigit d && e == '-'
        | _ => false))
  | _ => false

/-- A date or a number. -/
def number? (cs : List Char) : Option (Value × List Char) :=
  if beginsLikeDate cs then (dateTime? cs).map fun p => (dateValue p.1, p.2)
  else
    match cs with
    | '0' :: c :: rest =>
      match base? c with
      | some base => basedInteger? base rest
      | none => decimal? cs
    | _ => (special? cs).orElse fun _ => decimal? cs

end Toml
end ProtoBuild
