/-!
# Reading bytes as UTF-8

`Utf8.scan` reads one character at the front of a byte list, following the table
of well-formed sequences: the lead byte fixes how many bytes follow and in which
range the first of them lies, the others lie in `80..BF`.  A sequence that breaks
off is as long as its well-formed beginning, and at least one byte.

`Utf8.decode?` refuses a text with a broken sequence, `Utf8.decodeLossy` reads
each broken sequence as one replacement character.  Both run `scan` to the end.
-/

namespace ProtoBuild
namespace Utf8

/-- What a lead byte announces: the bits it carries, the range of the byte that
follows, and how many more bytes follow that one. -/
structure Lead where
  bits : Nat
  low : UInt8
  high : UInt8
  more : Nat

/-- The lead bytes of sequences of two to four bytes. -/
def lead? (b : UInt8) : Option Lead :=
  if b < 0xC2 then none
  else if b < 0xE0 then some ⟨b.toNat - 0xC0, 0x80, 0xBF, 0⟩
  else if b == 0xE0 then some ⟨0, 0xA0, 0xBF, 1⟩
  else if b == 0xED then some ⟨0xD, 0x80, 0x9F, 1⟩
  else if b < 0xF0 then some ⟨b.toNat - 0xE0, 0x80, 0xBF, 1⟩
  else if b == 0xF0 then some ⟨0, 0x90, 0xBF, 2⟩
  else if b < 0xF4 then some ⟨b.toNat - 0xF0, 0x80, 0xBF, 2⟩
  else if b == 0xF4 then some ⟨4, 0x80, 0x8F, 2⟩
  else none

/-- The code point read from `more` further bytes in `80..BF`, or `none` where
they break off; with it, how many bytes were taken. -/
def continuation (bits : Nat) : Nat → List UInt8 → Option Nat × Nat
  | 0, _ => (some bits, 0)
  | _ + 1, [] => (none, 0)
  | more + 1, b :: bs =>
    if 0x80 ≤ b && b ≤ 0xBF then
      let (code, taken) := continuation (bits * 64 + (b.toNat - 0x80)) more bs
      (code, taken + 1)
    else (none, 0)

/-- The character that begins with byte `b`, or `none` where the sequence breaks
off; with it, how many bytes after `b` belong to the sequence. -/
def scan (b : UInt8) (bs : List UInt8) : Option Char × Nat :=
  if b < 0x80 then (some (Char.ofNat b.toNat), 0)
  else
    match lead? b, bs with
    | some l, b₁ :: rest =>
      if l.low ≤ b₁ && b₁ ≤ l.high then
        let (code, taken) := continuation (l.bits * 64 + (b₁.toNat - 0x80)) l.more rest
        (code.map Char.ofNat, taken + 1)
      else (none, 0)
    | _, _ => (none, 0)

/-- The text of the bytes, each broken sequence read as `U+FFFD`. -/
def decodeLossy : List UInt8 → List Char
  | [] => []
  | b :: bs =>
    let (c, taken) := scan b bs
    c.getD '\uFFFD' :: decodeLossy (bs.drop taken)
termination_by bs => bs.length
decreasing_by exact Nat.lt_succ_of_le (List.drop_sublist _ _).length_le

/-- The text of the bytes, if no sequence in them is broken. -/
def decode? : List UInt8 → Option (List Char)
  | [] => some []
  | b :: bs =>
    match scan b bs with
    | (some c, taken) => (decode? (bs.drop taken)).map (c :: ·)
    | (none, _) => none
termination_by bs => bs.length
decreasing_by exact Nat.lt_succ_of_le (List.drop_sublist _ _).length_le

/-- The bytes of a string. -/
def encode (s : String) : List UInt8 :=
  s.toList.flatMap String.utf8EncodeChar

end Utf8
end ProtoBuild
