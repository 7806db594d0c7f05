import ProtoBuild.Text.Digit

/-!
# The numbers that digits write

The reader of numbers goes through their digits as the core library does
(`numeralFrom_eq_ofDigitChars`), so that what is known of digits and numbers there is known of it:
the digits of a number are read as that number (`numeral_toDigits`).

A number of bounded size is read from ASCII digits that write one below the bound.  Digits of other
systems are digits too, but they write nothing (`boundedNatural?_of_digits`).

Words of sixty-four bits are computed with so that they never wrap around: what is too large becomes
the largest word (`toNat_clampWord_eq_min`), and what would be below zero becomes zero
(`toNat_monus`).
-/

namespace ProtoBuild
namespace Text

variable {n bound : Nat} {c : Char} {cs : List Char}

theorem isAsciiDigit_eq (c : Char) : isAsciiDigit c = c.isDigit := by
  rw [Bool.eq_iff_iff]
  simp [isAsciiDigit, Char.isDigit, UInt32.le_iff_toNat_le, Nat.lt_succ_iff]

/-! ## Numbers -/

/-- Digits are read as the core library reads them. -/
theorem numeralFrom_eq_ofDigitChars (start : Nat) (h : ∀ c ∈ cs, isAsciiDigit c = true) :
    numeralFrom 10 start cs = Nat.ofDigitChars 10 cs start := by
  induction cs generalizing start with
  | nil => rfl
  | cons c cs ih =>
    obtain ⟨hc, hcs⟩ := List.forall_mem_cons.mp h
    simp only [isAsciiDigit, Bool.and_eq_true, decide_eq_true_eq] at hc
    rw [numeralFrom, if_pos hc.2, ih _ hcs, Nat.ofDigitChars_cons]
    rfl

theorem le_numeralFrom (start : Nat) (cs : List Char) : start ≤ numeralFrom 10 start cs := by
  induction cs generalizing start with
  | nil => exact Nat.le_refl start
  | cons c cs ih => exact Nat.le_trans (by omega) (ih _)

theorem isAsciiDigit_of_mem_toDigits (h : c ∈ Nat.toDigits 10 n) : isAsciiDigit c = true :=
  (isAsciiDigit_eq c).trans (Nat.isDigit_of_mem_toDigits (by decide) (by decide) h)

/-- The digits of a number write it. -/
theorem numeral_toDigits (n : Nat) : numeral (Nat.toDigits 10 n) = n := by
  rw [numeral, numeralFrom_eq_ofDigitChars 0 fun _ => isAsciiDigit_of_mem_toDigits,
    Nat.ofDigitChars_ten_toDigits]

/-- Only zero is written with a zero in front. -/
theorem exists_toDigits_eq_cons (h : n ≠ 0) : ∃ c cs, Nat.toDigits 10 n = c :: cs ∧ c ≠ '0' := by
  have hdigit : ∀ d < 10, d ≠ 0 → Nat.digitChar d ≠ '0' := by decide
  induction n using Nat.strongRecOn with
  | _ n ih =>
    rw [Nat.toDigits_eq_if (by decide)]
    split
    · rename_i hlt
      exact ⟨_, [], rfl, hdigit n hlt h⟩
    · obtain ⟨c, cs, heq, hc⟩ := ih (n / 10) (by omega) (by omega)
      exact ⟨c, _, by rw [heq, List.cons_append], hc⟩

/-! ## Numbers of bounded size -/

/-- Of a run of digits a number is read if all are ASCII digits and it is small enough. -/
theorem boundedNatural?_of_digits (hne : cs ≠ []) (hdigits : ∀ c ∈ cs, isDecimalDigit c = true) :
    boundedNatural? bound cs =
      if cs.all Char.isDigit = true ∧ Nat.ofDigitChars 10 cs 0 < bound then
        some (Nat.ofDigitChars 10 cs 0)
      else none := by
  have hread : boundedNatural? bound cs =
      if cs.isEmpty || cs.any (! isAsciiDigit ·) || bound ≤ numeral cs then none
      else some (numeral cs) := by
    rw [boundedNatural?]
    rintro rest rfl
    exact absurd (hdigits '+' List.mem_cons_self) (by decide)
  have hany : (cs.any (! isAsciiDigit ·)) = ! cs.all Char.isDigit := by
    simp only [isAsciiDigit_eq, List.not_all_eq_any_not]
  rw [hread, List.isEmpty_eq_false_iff.mpr hne, hany, Bool.false_or]
  cases hall : cs.all Char.isDigit with
  | false => rfl
  | true =>
    have hascii : ∀ c ∈ cs, isAsciiDigit c = true := fun c hc =>
      (isAsciiDigit_eq c).trans (List.all_eq_true.mp hall c hc)
    rw [numeral, numeralFrom_eq_ofDigitChars 0 hascii, Bool.not_true, Bool.false_or]
    simp only [decide_eq_true_eq, ← Nat.not_lt, ite_not, true_and]

/-! ## Words of sixty-four bits -/

theorem toNat_clampWord (h : n < UInt64.size) : (clampWord n).toNat = n := by
  rw [clampWord, dif_pos h]
  exact UInt64.toNat_ofNatLT

theorem toNat_clampWord_eq_min (n : Nat) : (clampWord n).toNat = min n (UInt64.size - 1) := by
  by_cases h : n < UInt64.size
  · rw [toNat_clampWord h, Nat.min_eq_left (Nat.le_sub_one_of_lt h)]
  · rw [clampWord, dif_neg h, Nat.min_eq_right (Nat.le_trans (Nat.sub_le _ _) (Nat.le_of_not_lt h))]
    rfl

/-- A difference of words is that of their numbers, where nothing is below zero. -/
theorem toNat_monus (a b : UInt64) : (monus a b).toNat = a.toNat - b.toNat := by
  rw [monus]
  split
  · rename_i hle
    exact UInt64.toNat_sub_of_le a b hle
  · rename_i hlt
    exact (Nat.sub_eq_zero_of_le (Nat.le_of_not_le hlt)).symm

end Text
end ProtoBuild
