import Mathlib.Algebra.Group.Nat.Defs
import Mathlib.Data.List.Basic
import Mathlib.Tactic.SplitIfs
import ProtoBuild.Text.Utf8

/-!
# Reading back what was encoded

The bytes of a character are read as that character, whatever follows them (`scan_utf8EncodeChar`).
So no sequence in the bytes of a text is broken, and reading them gives the text again
(`decodeLossy_encode`).

Other bytes are read as some text as well, but as none with a slash that is not there
(`slash_mem_of_mem_decodeLossy`): an ASCII character has no longer sequence than its byte.
-/

namespace ProtoBuild
namespace Utf8

open String

variable {b b₁ b₂ b₃ : UInt8} {bs : List UInt8} {l : Lead} {bits more code : Nat} {c : Char}

/-! ## Sequences by their length -/

theorem continuation_cons (h : 0x80 ≤ b.toNat) (h' : b.toNat ≤ 0xBF) :
    continuation bits (more + 1) (b :: bs) =
      ((continuation (bits * 64 + (b.toNat - 0x80)) more bs).1,
        (continuation (bits * 64 + (b.toNat - 0x80)) more bs).2 + 1) := by
  rw [continuation]
  simp [UInt8.le_iff_toNat_le, h, h']

theorem scan_cons_of_lead? (hb : 0x80 ≤ b.toNat) (hlead : lead? b = some l)
    (h : l.low.toNat ≤ b₁.toNat) (h' : b₁.toNat ≤ l.high.toNat) :
    scan b (b₁ :: bs) =
      ((continuation (l.bits * 64 + (b₁.toNat - 0x80)) l.more bs).1.map Char.ofNat,
        (continuation (l.bits * 64 + (b₁.toNat - 0x80)) l.more bs).2 + 1) := by
  have hb : ¬ b < 0x80 := by simpa [UInt8.lt_iff_toNat_lt] using hb
  unfold scan
  simp [hb, hlead, UInt8.le_iff_toNat_le, h, h']

theorem lead?_of_two (h : 0xC2 ≤ b.toNat) (h' : b.toNat < 0xE0) :
    lead? b = some ⟨b.toNat - 0xC0, 0x80, 0xBF, 0⟩ := by
  unfold lead?
  simp only [UInt8.lt_iff_toNat_lt, beq_iff_eq, ← UInt8.toNat_inj, UInt8.reduceToNat]
  split_ifs <;> first | rfl | omega

theorem lead?_of_three (h : 0xE0 ≤ b.toNat) (h' : b.toNat < 0xF0) :
    lead? b = some ⟨b.toNat - 0xE0, if b.toNat = 0xE0 then 0xA0 else 0x80,
      if b.toNat = 0xED then 0x9F else 0xBF, 1⟩ := by
  unfold lead?
  simp only [UInt8.lt_iff_toNat_lt, beq_iff_eq, ← UInt8.toNat_inj, UInt8.reduceToNat]
  split_ifs <;> first | omega | simp_all

theorem lead?_of_four (h : 0xF0 ≤ b.toNat) (h' : b.toNat < 0xF5) :
    lead? b = some ⟨b.toNat - 0xF0, if b.toNat = 0xF0 then 0x90 else 0x80,
      if b.toNat = 0xF4 then 0x8F else 0xBF, 2⟩ := by
  unfold lead?
  simp only [UInt8.lt_iff_toNat_lt, beq_iff_eq, ← UInt8.toNat_inj, UInt8.reduceToNat]
  split_ifs <;> first | omega | simp_all

theorem scan_of_two (h : 0xC2 ≤ b.toNat) (h' : b.toNat < 0xE0)
    (h₁ : 0x80 ≤ b₁.toNat ∧ b₁.toNat ≤ 0xBF) :
    scan b (b₁ :: bs) = (some (Char.ofNat ((b.toNat - 0xC0) * 64 + (b₁.toNat - 0x80))), 1) := by
  rw [scan_cons_of_lead? (by omega) (lead?_of_two h h') h₁.1 h₁.2]
  rfl

theorem scan_of_three (h : 0xE0 ≤ b.toNat) (h' : b.toNat < 0xF0)
    (h₁ : 0x80 ≤ b₁.toNat ∧ b₁.toNat ≤ 0xBF) (hlow : b.toNat = 0xE0 → 0xA0 ≤ b₁.toNat)
    (hhigh : b.toNat = 0xED → b₁.toNat ≤ 0x9F) (h₂ : 0x80 ≤ b₂.toNat ∧ b₂.toNat ≤ 0xBF) :
    scan b (b₁ :: b₂ :: bs) =
      (some (Char.ofNat (((b.toNat - 0xE0) * 64 + (b₁.toNat - 0x80)) * 64 +
        (b₂.toNat - 0x80))), 2) := by
  rw [scan_cons_of_lead? (by omega) (lead?_of_three h h'), continuation_cons h₂.1 h₂.2]
  · rfl
  · dsimp only
    split
    · exact hlow ‹_›
    · exact h₁.1
  · dsimp only
    split
    · exact hhigh ‹_›
    · exact h₁.2

theorem scan_of_four (h : 0xF0 ≤ b.toNat) (h' : b.toNat < 0xF5)
    (h₁ : 0x80 ≤ b₁.toNat ∧ b₁.toNat ≤ 0xBF) (hlow : b.toNat = 0xF0 → 0x90 ≤ b₁.toNat)
    (hhigh : b.toNat = 0xF4 → b₁.toNat ≤ 0x8F) (h₂ : 0x80 ≤ b₂.toNat ∧ b₂.toNat ≤ 0xBF)
    (h₃ : 0x80 ≤ b₃.toNat ∧ b₃.toNat ≤ 0xBF) :
    scan b (b₁ :: b₂ :: b₃ :: bs) =
      (some (Char.ofNat ((((b.toNat - 0xF0) * 64 + (b₁.toNat - 0x80)) * 64 +
        (b₂.toNat - 0x80)) * 64 + (b₃.toNat - 0x80))), 3) := by
  rw [scan_cons_of_lead? (by omega) (lead?_of_four h h'), continuation_cons h₂.1 h₂.2,
    continuation_cons h₃.1 h₃.2]
  · rfl
  · dsimp only
    split
    · exact hlow ‹_›
    · exact h₁.1
  · dsimp only
    split
    · exact hhigh ‹_›
    · exact h₁.2

/-! ## Characters and texts -/

/-- A character is read from its bytes, and none of the bytes after them. -/
theorem scan_utf8EncodeChar (c : Char) :
    ∃ b more, utf8EncodeChar c = b :: more ∧
      ∀ bs, scan b (more ++ bs) = (some c, more.length) := by
  have hc : Char.ofNat c.val.toNat = c := Char.ofNat_toNat c
  have hvalid : c.val.toNat < 0xD800 ∨ 0xDFFF < c.val.toNat ∧ c.val.toNat < 0x110000 := c.valid
  -- the number of a byte that holds some bits of the character
  have hbyte : ∀ n, n < 256 → (UInt8.ofNat n).toNat = n := fun n => UInt8.toNat_ofNat_of_lt
  unfold utf8EncodeChar
  generalize c.val.toNat = v at hc hvalid
  dsimp only
  split_ifs with hone htwo hthree
  · refine ⟨_, _, rfl, fun bs => ?_⟩
    have hascii : UInt8.ofNat v < 0x80 := by
      rw [UInt8.lt_iff_toNat_lt, hbyte v (by omega)]
      exact Nat.lt_succ_of_le hone
    unfold scan
    rw [if_pos hascii, hbyte v (by omega), hc]
    rfl
  · refine ⟨_, _, rfl, fun bs => ?_⟩
    have h₀ := hbyte (v / 64 % 32 + 192) (by omega)
    have h₁ := hbyte (v % 64 + 128) (by omega)
    rw [List.singleton_append, scan_of_two (by omega) (by omega) (by omega), h₀, h₁]
    have hcode : (v / 64 % 32 + 192 - 0xC0) * 64 + (v % 64 + 128 - 0x80) = v := by omega
    rw [hcode, hc]
    rfl
  · refine ⟨_, _, rfl, fun bs => ?_⟩
    have h₀ := hbyte (v / 4096 % 16 + 224) (by omega)
    have h₁ := hbyte (v / 64 % 64 + 128) (by omega)
    have h₂ := hbyte (v % 64 + 128) (by omega)
    rw [List.cons_append, List.singleton_append, scan_of_three (by omega) (by omega) (by omega)
      (by omega) (by omega) (by omega), h₀, h₁, h₂]
    have hcode : ((v / 4096 % 16 + 224 - 0xE0) * 64 + (v / 64 % 64 + 128 - 0x80)) * 64 +
        (v % 64 + 128 - 0x80) = v := by omega
    rw [hcode, hc]
    rfl
  · refine ⟨_, _, rfl, fun bs => ?_⟩
    have h₀ := hbyte (v / 262144 % 8 + 240) (by omega)
    have h₁ := hbyte (v / 4096 % 64 + 128) (by omega)
    have h₂ := hbyte (v / 64 % 64 + 128) (by omega)
    have h₃ := hbyte (v % 64 + 128) (by omega)
    rw [List.cons_append, List.cons_append, List.singleton_append, scan_of_four (by omega)
      (by omega) (by omega) (by omega) (by omega) (by omega) (by omega), h₀, h₁, h₂, h₃]
    have hcode : (((v / 262144 % 8 + 240 - 0xF0) * 64 + (v / 4096 % 64 + 128 - 0x80)) * 64 +
        (v / 64 % 64 + 128 - 0x80)) * 64 + (v % 64 + 128 - 0x80) = v := by omega
    rw [hcode, hc]
    rfl

theorem decodeLossy_utf8EncodeChar_append (c : Char) (bs : List UInt8) :
    decodeLossy (utf8EncodeChar c ++ bs) = c :: decodeLossy bs := by
  obtain ⟨b, more, hbytes, hscan⟩ := scan_utf8EncodeChar c
  rw [hbytes, List.cons_append, decodeLossy, hscan bs]
  simp

/-- A text is read back from its bytes. -/
@[simp] theorem decodeLossy_encode (s : String) : decodeLossy (encode s) = s.toList := by
  rw [encode]
  induction s.toList with
  | nil => rw [List.flatMap_nil, decodeLossy]
  | cons c cs ih => rw [List.flatMap_cons, decodeLossy_utf8EncodeChar_append, ih]

theorem encode_append (s t : String) : encode (s ++ t) = encode s ++ encode t := by
  rw [encode, String.toList_append, List.flatMap_append, encode, encode]

/-- A text has as many bytes as its length says. -/
theorem length_encode (s : String) : (encode s).length = s.utf8ByteSize := by
  rw [← String.size_toByteArray, ← String.utf8Encode_toList]
  simp [encode, List.utf8Encode]

/-- The last byte of a text is a slash exactly if its last character is one. -/
theorem getLast?_encode_eq_slash_iff (s : String) :
    (encode s).getLast? = some '/'.toUInt8 ↔ s.toList.getLast? = some '/' := by
  have hchar : ∀ c, (utf8EncodeChar c).getLast? = some '/'.toUInt8 ↔ c = '/' := by
    intro c
    have hbyte : ∀ n, n < 256 → (UInt8.ofNat n = '/'.toUInt8 ↔ n = 47) := by
      intro n hn
      have htoNat : (UInt8.ofNat n).toNat = n := UInt8.toNat_ofNat_of_lt hn
      rw [← UInt8.toNat_inj, htoNat]
      rfl
    have hcode : c = '/' ↔ c.val.toNat = 47 := by
      rw [← Char.val_inj, ← UInt32.toNat_inj]
      rfl
    rw [hcode]
    unfold utf8EncodeChar
    dsimp only
    split_ifs with hone
    · rw [List.getLast?_singleton, Option.some.injEq, hbyte _ (by omega)]
    all_goals
      simp only [List.getLast?_cons_cons, List.getLast?_singleton, Option.some.injEq]
      rw [hbyte _ (by omega)]
      omega
  rw [encode]
  rcases List.eq_nil_or_concat s.toList with hnil | ⟨front, c, hs⟩
  · simp [hnil]
  · rw [hs, List.concat_eq_append, List.flatMap_append, List.flatMap_singleton,
      List.getLast?_append_of_ne_nil _ (utf8EncodeChar_ne_nil), hchar, List.getLast?_concat,
      Option.some.injEq]

/-! ## What is read from broken bytes -/

theorem le_of_continuation (h : (continuation bits more bs).1 = some code) :
    bits * 64 ^ more ≤ code := by
  induction more generalizing bits bs with
  | zero =>
    obtain rfl := Option.some.inj h
    exact Nat.le_of_eq (Nat.mul_one bits)
  | succ more ih =>
    cases bs with
    | nil => cases h
    | cons b bs =>
      rw [continuation] at h
      split at h
      · have hbits : bits * 64 ≤ bits * 64 + (b.toNat - 0x80) := Nat.le_add_right _ _
        calc bits * 64 ^ (more + 1) = bits * 64 * 64 ^ more := by
              rw [Nat.pow_succ', Nat.mul_assoc]
          _ ≤ (bits * 64 + (b.toNat - 0x80)) * 64 ^ more := Nat.mul_le_mul_right _ hbits
          _ ≤ code := ih h
      · cases h

/-- No sequence is longer than its character needs. -/
theorem ascii_lt_of_lead? (hlead : lead? b = some l) (hlow : l.low.toNat ≤ b₁.toNat) :
    0x80 ≤ (l.bits * 64 + (b₁.toNat - 0x80)) * 64 ^ l.more := by
  unfold lead? at hlead
  simp only [UInt8.lt_iff_toNat_lt, beq_iff_eq, ← UInt8.toNat_inj, UInt8.reduceToNat] at hlead
  split_ifs at hlead <;> obtain rfl := Option.some.inj hlead <;> simp at hlow ⊢ <;> omega

/-- What is no code point is the character zero. -/
theorem toNat_ofNat {n : Nat} (h : (Char.ofNat n).toNat ≠ 0) : (Char.ofNat n).toNat = n := by
  by_cases hvalid : n.isValidChar
  · rw [Char.ofNat, dif_pos hvalid]
    rfl
  · rw [Char.ofNat, dif_neg hvalid] at h
    exact absurd rfl h

/-- An ASCII character is read from its own byte only. -/
theorem eq_of_scan (h : (scan b bs).1 = some c) (hc : c.toNat < 0x80) (hzero : c.toNat ≠ 0) :
    b.toNat = c.toNat := by
  unfold scan at h
  split at h
  · obtain rfl := Option.some.inj h
    exact (toNat_ofNat hzero).symm
  · split at h
    · split at h
      · rename_i l b₁ rest hlead hrange
        obtain ⟨code, hcode, rfl⟩ := Option.map_eq_some_iff.mp h
        have hlow : l.low.toNat ≤ b₁.toNat := by
          simp only [Bool.and_eq_true, decide_eq_true_eq, UInt8.le_iff_toNat_le] at hrange
          exact hrange.1
        have hlong := ascii_lt_of_lead? hlead hlow
        have hle := le_of_continuation hcode
        rw [toNat_ofNat hzero] at hc
        omega
      · cases h
    · cases h

/-- A slash is read only where there is one. -/
theorem slash_mem_of_mem_decodeLossy (h : '/' ∈ decodeLossy bs) : '/'.toUInt8 ∈ bs := by
  induction bs using decodeLossy.induct with
  | case1 =>
    rw [decodeLossy] at h
    exact absurd h List.not_mem_nil
  | case2 b bs c taken hscan ih =>
    rw [decodeLossy, hscan] at h
    rcases List.mem_cons.mp h with hchar | hrest
    · cases c with
      | none => exact absurd hchar (by decide)
      | some c =>
        obtain rfl : '/' = c := hchar
        have hbyte : b.toNat = 47 := eq_of_scan (congrArg Prod.fst hscan) (by decide) (by decide)
        exact List.mem_cons.mpr (Or.inl (UInt8.toNat_inj.mp hbyte.symm))
    · exact List.mem_cons_of_mem b (List.mem_of_mem_drop (ih hrest))

end Utf8
end ProtoBuild
