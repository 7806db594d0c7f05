import ProtoBuild.Text.Digit
import ProtoBuild.Value
import ProtoBuild.Value.Binary64

/-!
# The numbers of a JSON text

A natural number of sixty-four bits is exact.  Any other number is estimated from its first
digits, as many as fit into sixty-four bits.  The estimate multiplies two numbers, each
rounded to binary64: what the digits say, and a power of ten.  A number is too large if its
estimate is infinite.

## Why the estimate is spelled out

Near the end of the binary64 range the estimate and the number fall on different sides of
it.  `1.7976931348623158e308` is near the largest binary64 number, but its estimate is
beyond the range, and so the number is refused; of a number written with hundreds of digits
the last ones do not count, and it may be accepted although it is too large.  So which
numbers a text may hold depends on `scientific` and `estimateIsInfinite` as they are here,
and not only on the range.
-/

namespace ProtoBuild
namespace Json

/-! ## How large a number may be -/

/-- The number that some digits write, read on from a number already known, as long as it
fits into sixty-four bits, and the digits that are left. -/
def significantDigits (start : Nat) : List Char → Nat × List Char
  | [] => (start, [])
  | c :: cs =>
    let next := Text.numeralFrom 10 start [c]
    if next < UInt64.size then significantDigits next cs else (start, c :: cs)

/-- The first digits of a decimal number, as a natural number, and the power of ten that it
is to be multiplied by.  A digit before the point that is left out is made up for by a
factor of ten; digits after the point are taken again if they fit. -/
def scientific (whole fraction : List Char) (exponent : Int) : Nat × Int :=
  let (upToPoint, wholeLeft) := significantDigits 0 whole
  let (significand, fractionLeft) := significantDigits upToPoint fraction
  (significand, exponent + wholeLeft.length - (fraction.length - fractionLeft.length : Nat))

/-- Whether the estimate of `significand * 10 ^ exponent` is infinite.  Powers of ten above
`10 ^ 308` are. -/
def estimateIsInfinite (significand : Nat) : Int → Bool
  | .ofNat e =>
    significand != 0 && (308 < e ||
      Binary64.limit ≤ Binary64.nearest significand * Binary64.nearest (Nat.pow 10 e))
  | .negSucc _ => false

/-! ## The parts of a number -/

/-- A part of a number: how it is written, and its value. -/
structure Part (α : Type) where
  text : List Char
  value : α

/-- An exponent: a sign and digits after the letter, or nothing at all. -/
def exponent? : List Char → Option (Part Int × List Char)
  | e :: cs =>
    if e == 'e' || e == 'E' then
      let (sign, cs) := match cs with
        | '+' :: rest => (['+'], rest)
        | '-' :: rest => (['-'], rest)
        | _ => ([], cs)
      let digits := cs.takeWhile Text.isAsciiDigit
      let n := Int.ofNat (Text.numeral digits)
      if digits.isEmpty then none
      else
        some (⟨e :: sign ++ digits, if sign = ['-'] then -n else n⟩,
          cs.dropWhile Text.isAsciiDigit)
    else some (⟨[], 0⟩, e :: cs)
  | [] => some (⟨[], 0⟩, [])

/-- The digits after a decimal point, or none if there is no point. -/
def fraction? : List Char → Option (Part (List Char) × List Char)
  | '.' :: cs =>
    let digits := cs.takeWhile Text.isAsciiDigit
    if digits.isEmpty then none
    else some (⟨'.' :: digits, digits⟩, cs.dropWhile Text.isAsciiDigit)
  | cs => some (⟨[], []⟩, cs)

/-- The digits before a decimal point.  A zero stands alone. -/
def whole? : List Char → Option (List Char × List Char)
  | '0' :: cs => some (['0'], cs)
  | cs =>
    let digits := cs.takeWhile Text.isAsciiDigit
    if digits.isEmpty then none else some (digits, cs.dropWhile Text.isAsciiDigit)

/-- A number and what follows it. -/
def number? (cs : List Char) : Option (Value × List Char) := do
  let (sign, body) := match cs with
    | '-' :: rest => (['-'], rest)
    | _ => ([], cs)
  let (whole, afterWhole) ← whole? body
  let (fraction, afterFraction) ← fraction? afterWhole
  let (exponent, rest) ← exponent? afterFraction
  let literal := sign ++ whole ++ fraction.text ++ exponent.text
  let (significand, scale) := scientific whole fraction.value exponent.value
  if estimateIsInfinite significand scale then return (.illFormed, rest)
  else if literal = whole then return (.natural (Text.numeral whole), rest)
  else return (.number (String.ofList literal), rest)

end Json
end ProtoBuild
