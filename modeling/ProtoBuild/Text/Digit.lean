import ProtoBuild.Text.Blank

/-!
# Decimal digits and the numbers they write

Two classes of digits are in use.  Numbers are read from the ten ASCII digits.
The wider class, Unicode's `Nd`, only decides where a position ends in a line of
tool output; `isAsciiDigit_isDecimalDigit` says that it contains the ASCII one.
-/

namespace ProtoBuild
namespace Text

/-- The code points of the zeros of the decimal digit systems.  In each system
the ten digits follow one another from its zero. -/
def zeroDigits : List Nat :=
  [0x30, 0x660, 0x6F0, 0x7C0, 0x966, 0x9E6, 0xA66, 0xAE6, 0xB66, 0xBE6, 0xC66, 0xCE6,
   0xD66, 0xDE6, 0xE50, 0xED0, 0xF20, 0x1040, 0x1090, 0x17E0, 0x1810, 0x1946, 0x19D0,
   0x1A80, 0x1A90, 0x1B50, 0x1BB0, 0x1C40, 0x1C50, 0xA620, 0xA8D0, 0xA900, 0xA9D0,
   0xA9F0, 0xAA50, 0xABF0, 0xFF10, 0x104A0, 0x10D30, 0x10D40, 0x11066, 0x110F0, 0x11136,
   0x111D0, 0x112F0, 0x11450, 0x114D0, 0x11650, 0x116C0, 0x116D0, 0x116DA, 0x11730,
   0x118E0, 0x11950, 0x11BF0, 0x11C50, 0x11D50, 0x11DA0, 0x11F50, 0x16130, 0x16A60,
   0x16AC0, 0x16B50, 0x16D70, 0x1CCF0, 0x1D7CE, 0x1D7D8, 0x1D7E2, 0x1D7EC, 0x1D7F6, 0x1E140,
   0x1E2F0, 0x1E4F0, 0x1E5F1, 0x1E950, 0x1FBF0]

/-- A decimal digit of any system. -/
def isDecimalDigit (c : Char) : Bool :=
  zeroDigits.any fun z => z ≤ c.toNat && c.toNat < z + 10

/-- One of the characters `0` to `9`. -/
def isAsciiDigit (c : Char) : Bool :=
  0x30 ≤ c.toNat && c.toNat < 0x3A

/-- An ASCII letter or digit. -/
def isAsciiAlphanumeric (c : Char) : Bool :=
  isAsciiDigit c || (0x41 ≤ c.toNat && c.toNat ≤ 0x5A) || (0x61 ≤ c.toNat && c.toNat ≤ 0x7A)

theorem isAsciiDigit_isDecimalDigit {c : Char} (h : isAsciiDigit c = true) :
    isDecimalDigit c = true := by
  simp only [isAsciiDigit, Bool.and_eq_true, decide_eq_true_eq] at h
  simp only [isDecimalDigit, zeroDigits, List.any_cons, Bool.or_eq_true, Bool.and_eq_true,
    decide_eq_true_eq]
  exact Or.inl (by omega)

/-- The number that digits write, read on from a number already known. -/
def numeralFrom (base : Nat) (start : Nat) : List Char → Nat
  | [] => start
  | c :: cs =>
    let n := c.toNat
    let d := if n < 0x3A then n - 0x30 else if n < 0x61 then n - 0x37 else n - 0x57
    numeralFrom base (base * start + d) cs

/-- The number that ASCII decimal digits write. -/
def numeral (cs : List Char) : Nat :=
  numeralFrom 10 0 cs

/-- The bytes that pairs of hexadecimal digits write. -/
def hexBytes : List Char → List UInt8
  | high :: low :: rest => UInt8.ofNat (numeralFrom 16 0 [high, low]) :: hexBytes rest
  | _ => []

/-- A natural number below `bound`: ASCII digits after an optional plus sign. -/
def boundedNatural? (bound : Nat) (cs : List Char) : Option Nat :=
  let digits := match cs with
    | '+' :: rest => rest
    | _ => cs
  if digits.isEmpty || digits.any (! isAsciiDigit ·) || bound ≤ numeral digits then none
  else some (numeral digits)

/-- A number of sixty-four bits. -/
def word64? (cs : List Char) : Option UInt64 :=
  (boundedNatural? UInt64.size cs).map UInt64.ofNat

/-- A number of thirty-two bits. -/
def word32? (cs : List Char) : Option UInt32 :=
  (boundedNatural? UInt32.size cs).map UInt32.ofNat

/-- The larger of zero and a difference of two numbers of sixty-four bits. -/
def monus (a b : UInt64) : UInt64 :=
  if b ≤ a then a - b else 0

/-- A natural number, or the largest number of sixty-four bits if it is too large. -/
def clampWord (n : Nat) : UInt64 :=
  if h : n < UInt64.size then UInt64.ofNatLT n h else 0xFFFFFFFFFFFFFFFF

end Text
end ProtoBuild
