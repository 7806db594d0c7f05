/-!
# The range of binary64 numbers

A binary64 number has fifty-three binary digits, and those beyond the range are infinite.
Decimal numbers and their products are not computed here as binary64 numbers; it is only
asked whether they would be infinite, and that is a question about natural numbers.
-/

namespace ProtoBuild
namespace Binary64

/-- The least number that is rounded to infinity: halfway between the largest binary64
number and the number that would be next. -/
def limit : Nat := Nat.pow 2 1024 - Nat.pow 2 970

/-- The number nearest to `n` of those that fifty-three binary digits and zeros after them
write; of two that are equally near, the one whose last digit is even. -/
def nearest (n : Nat) : Nat :=
  let unit := Nat.pow 2 (n.log2 - 52)
  let below := n / unit
  let rest := n % unit
  if 2 * rest < unit ∨ (2 * rest = unit ∧ below % 2 = 0) then below * unit
  else (below + 1) * unit

/-- Whether `mantissa * 10 ^ exponent` is rounded to infinity. -/
def isInfinite (mantissa : Nat) : Int → Bool
  | .ofNat e =>
    mantissa != 0 && (308 < e || limit ≤ mantissa * Nat.pow 10 e)
  | .negSucc e => limit * Nat.pow 10 (min (e + 1) (mantissa.log2 + 1)) ≤ mantissa

end Binary64
end ProtoBuild
