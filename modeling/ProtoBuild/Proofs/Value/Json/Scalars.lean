import ProtoBuild.Proofs.Text.Numerals
import ProtoBuild.Value.Json.Token
import ProtoBuild.Value.Json.Writer

/-!
# Strings and numbers of a JSON text

What the writer makes of a string is read as that string (`stringUnits?_flatMap`,
`textOfUnits?_map`), and the digits of a natural number of sixty-four bits are read as that number
(`number?_toDigits`).

A string ends itself with its quote, whatever comes after it.  A number does not: where it ends is
seen from the character that follows.  So the second statement is about digits before a text that
is `Delimited`, and this is all that the reader has to know of what comes later.
-/

namespace ProtoBuild

/-- Rounding does not double a number. -/
theorem Binary64.nearest_le {n : Nat} (h : n ≠ 0) : nearest n ≤ 2 * n := by
  have hunit : Nat.pow 2 (n.log2 - 52) ≤ n :=
    Nat.le_trans (Nat.pow_le_pow_right (by decide) (Nat.sub_le _ _)) (Nat.log2_self_le h)
  have hbelow : n / Nat.pow 2 (n.log2 - 52) * Nat.pow 2 (n.log2 - 52) ≤ n :=
    Nat.div_mul_le_self _ _
  unfold nearest
  simp only
  split
  · omega
  · rw [Nat.succ_mul]
    omega

namespace Json

/-! ## Strings -/

theorem hex4?_hexDigit : ∀ n < 0x20,
    hex4? '0' '0' (hexDigit (n / 16)) (hexDigit (n % 16)) = some n := by
  decide

theorem stringUnits?_shortEscape {e c : Char} (he : e ≠ 'u') (h : shortEscape? e = some c)
    (cs : List Char) :
    stringUnits? ('\\' :: e :: cs) =
      (stringUnits? cs).map fun read => (.char c :: read.1, read.2) := by
  rw [stringUnits?, h]
  · cases stringUnits? cs <;> rfl
  · exact fun _ _ _ _ _ hu _ => he hu

/-- What is written for a character is read as that character. -/
theorem stringUnits?_escapeChar (c : Char) (cs : List Char) :
    stringUnits? (escapeChar c ++ cs) =
      (stringUnits? cs).map fun read => (.char c :: read.1, read.2) := by
  unfold escapeChar
  split
  case h_8 hquote hbackslash _ _ _ _ _ =>
    split
    · rename_i hcontrol
      -- a control character is no half of a pair
      have hunit : StringUnit.ofNat c.toNat = .char c := by
        rw [StringUnit.ofNat, if_neg (by simp; omega), if_neg (by simp; omega), Char.ofNat_toNat]
      show stringUnits? ('\\' :: 'u' :: '0' :: '0' :: _ :: _ :: cs) = _
      rw [stringUnits?, hex4?_hexDigit c.toNat hcontrol, Option.bind_eq_bind, Option.bind_some,
        hunit]
      cases stringUnits? cs <;> rfl
    · rename_i hcontrol
      show stringUnits? (c :: cs) = _
      rw [stringUnits?]
      · rw [if_neg (by simpa [hcontrol] using hbackslash)]
        cases stringUnits? cs <;> rfl
      · exact hquote
      · exact fun _ _ _ _ _ hc _ => hbackslash hc
      · exact fun _ _ hc _ => hbackslash hc
  all_goals exact stringUnits?_shortEscape (by decide) rfl cs

theorem stringUnits?_flatMap (s rest : List Char) :
    stringUnits? (s.flatMap escapeChar ++ '"' :: rest) = some (s.map .char, rest) := by
  induction s with
  | nil => rw [List.flatMap_nil, List.nil_append, stringUnits?, List.map_nil]
  | cons c s ih =>
    rw [List.flatMap_cons, List.append_assoc, stringUnits?_escapeChar, ih, Option.map_some,
      List.map_cons]

theorem textOfUnits?_map (s : List Char) : textOfUnits? (s.map .char) = some s := by
  induction s with
  | nil => rfl
  | cons c s ih => rw [List.map_cons, textOfUnits?, ih, Option.map_some]

/-! ## Numbers -/

/-- A character that does not go on with a number. -/
def endsNumber (c : Char) : Bool :=
  ! Text.isAsciiDigit c && c != '.' && c != 'e' && c != 'E'

/-- A text before which a number ends. -/
def Delimited (cs : List Char) : Prop :=
  cs.head?.all endsNumber = true

/-- A number of sixty-four bits is read to its last digit. -/
theorem significantDigits_eq {start : Nat} {cs : List Char}
    (h : Text.numeralFrom 10 start cs < UInt64.size) :
    significantDigits start cs = (Text.numeralFrom 10 start cs, []) := by
  induction cs generalizing start with
  | nil => rfl
  | cons c cs ih =>
    have hnext : Text.numeralFrom 10 start [c] < UInt64.size :=
      Nat.lt_of_le_of_lt (Text.le_numeralFrom _ cs) h
    rw [significantDigits, if_pos hnext]
    exact ih h

theorem estimateIsInfinite_eq_false {n : Nat} (h : n < UInt64.size) :
    estimateIsInfinite n (.ofNat 0) = false := by
  have hone : Binary64.nearest (Nat.pow 10 0) = 1 := by decide
  have hbound : 2 * UInt64.size ≤ Binary64.limit := by decide +kernel
  rw [estimateIsInfinite, hone, Nat.mul_one]
  by_cases hn : n = 0
  · rw [hn]
    rfl
  · have hnear := Binary64.nearest_le hn
    have hlt : ¬ Binary64.limit ≤ Binary64.nearest n := by omega
    rw [decide_eq_false hlt]
    simp

section

variable {rest : List Char} (h : Delimited rest)
include h

theorem takeWhile_append_of_delimited {cs : List Char}
    (hcs : ∀ c ∈ cs, Text.isAsciiDigit c = true) :
    (cs ++ rest).takeWhile Text.isAsciiDigit = cs ∧
      (cs ++ rest).dropWhile Text.isAsciiDigit = rest := by
  rw [List.takeWhile_append_of_pos hcs, List.dropWhile_append_of_pos hcs]
  cases rest with
  | nil => exact ⟨List.append_nil cs, rfl⟩
  | cons d ds =>
    have hd : Text.isAsciiDigit d = false := by
      simp [Delimited, endsNumber] at h
      exact h.1.1.1
    simp [hd]

theorem whole?_toDigits (n : Nat) :
    whole? (Nat.toDigits 10 n ++ rest) = some (Nat.toDigits 10 n, rest) := by
  by_cases hn : n = 0
  · subst hn
    rfl
  · obtain ⟨c, cs, heq, hc⟩ := Text.exists_toDigits_eq_cons hn
    obtain ⟨htake, hdrop⟩ := takeWhile_append_of_delimited h
      fun d (hd : d ∈ c :: cs) => Text.isAsciiDigit_of_mem_toDigits (heq ▸ hd)
    rw [List.cons_append] at htake hdrop
    rw [heq, List.cons_append, whole?]
    · rw [htake, hdrop]
      rfl
    · intro _ hzero
      exact hc (List.cons.inj hzero).1

theorem fraction?_of_delimited : fraction? rest = some (⟨[], []⟩, rest) := by
  unfold fraction?
  split
  · cases h
  · rfl

theorem exponent?_of_delimited : exponent? rest = some (⟨[], 0⟩, rest) := by
  unfold exponent?
  split
  · rename_i e cs
    have he : (e == 'e' || e == 'E') = false := by
      simp [Delimited, endsNumber] at h
      simp [h]
    rw [he]
    rfl
  · rfl

/-- The digits of a natural number of sixty-four bits are read as that number. -/
theorem number?_toDigits {n : Nat} (hn : n < UInt64.size) :
    number? (Nat.toDigits 10 n ++ rest) = some (.natural n, rest) := by
  have hscientific : scientific (Nat.toDigits 10 n) [] 0 = (n, .ofNat 0) := by
    have hvalue : Text.numeralFrom 10 0 (Nat.toDigits 10 n) = n := Text.numeral_toDigits n
    rw [scientific, significantDigits_eq (by rw [hvalue]; exact hn), hvalue]
    rfl
  unfold number?
  split
  rename_i sign body hsign
  split at hsign
  · -- digits do not begin with a minus sign
    rename_i tail heq
    obtain ⟨c, cs, hcons⟩ := List.exists_cons_of_ne_nil (Nat.toDigits_ne_nil (n := n) (b := 10))
    have hc : Text.isAsciiDigit c = true :=
      Text.isAsciiDigit_of_mem_toDigits (n := n) (by rw [hcons]; exact List.mem_cons_self)
    rw [hcons] at heq
    obtain rfl := (List.cons.inj heq).1
    cases hc
  · cases hsign
    simp only [whole?_toDigits h n, fraction?_of_delimited h, exponent?_of_delimited h,
      hscientific, Text.numeral_toDigits, Option.bind_eq_bind, Option.bind_some,
      estimateIsInfinite_eq_false hn, List.nil_append, List.append_nil, if_true]
    rfl

end

end Json
end ProtoBuild
