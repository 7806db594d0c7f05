import Mathlib.Data.List.Lex
import Mathlib.Data.String.Basic
import ProtoBuild.Text.Utf8

/-!
# The order of texts is that of their bytes

Strings are compared character by character, and UTF-8 was made so that comparing the bytes gives
the same answer: a greater character has greater bytes, whatever follows
(`append_utf8EncodeChar_lt`).
-/

namespace ProtoBuild
namespace Utf8

open String

variable {a b : String} {c d : Char} {cs ds : List Char} {xs ys : List UInt8}

/-- The six bits of each byte are digits. -/
theorem digits_eq (n : Nat) : n / 4096 = n / 64 / 64 ∧ n / 262144 = n / 64 / 64 / 64 := by
  omega

/-- Characters in their order have bytes in their order, before any others. -/
theorem append_utf8EncodeChar_lt (h : c < d) (xs ys : List UInt8) :
    utf8EncodeChar c ++ xs < utf8EncodeChar d ++ ys := by
  have hlt : c.val.toNat < d.val.toNat := h
  have hmax : d.val.toNat < 0x110000 := by
    have hvalid := d.valid
    unfold UInt32.isValidChar Nat.isValidChar at hvalid
    omega
  -- one case for each pair of lengths; the first byte alone tells different lengths apart
  unfold utf8EncodeChar
  dsimp only
  split_ifs <;>
    simp only [List.cons_append, List.nil_append, List.cons_lt_cons_iff, UInt8.lt_iff_toNat_lt,
      ← UInt8.toNat_inj, UInt8.toNat_ofNat', (digits_eq _).1, (digits_eq _).2] <;> omega

theorem flatMap_utf8EncodeChar_lt (h : cs < ds) :
    cs.flatMap utf8EncodeChar < ds.flatMap utf8EncodeChar := by
  induction cs generalizing ds with
  | nil =>
    cases ds with
    | nil => exact absurd h (List.not_lt_nil _)
    | cons d ds =>
      obtain ⟨x, xs, hbytes⟩ := List.exists_cons_of_ne_nil (utf8EncodeChar_ne_nil (c := d))
      rw [List.flatMap_cons, hbytes]
      exact List.nil_lt_cons x _
  | cons c cs ih =>
    cases ds with
    | nil => exact absurd h (List.not_lt_nil _)
    | cons d ds =>
      rw [List.flatMap_cons, List.flatMap_cons]
      rcases List.cons_lt_cons_iff.mp h with hlt | ⟨rfl, hlt⟩
      · exact append_utf8EncodeChar_lt hlt _ _
      · exact List.append_left_lt (ih hlt)

theorem encode_lt_encode (h : a < b) : encode a < encode b :=
  flatMap_utf8EncodeChar_lt (String.lt_iff.mp h)

theorem encode_le_encode (h : a ≤ b) : encode a ≤ encode b := by
  rcases h.lt_or_eq with hlt | rfl
  · exact List.le_of_lt (encode_lt_encode hlt)
  · exact List.le_refl _

end Utf8
end ProtoBuild
