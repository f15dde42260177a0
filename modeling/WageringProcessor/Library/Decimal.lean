import Mathlib.Data.List.Induction
import Mathlib.Data.Nat.Notation

/-!
# Decimal numerals

A string of digits without a leading zero is the numeral of its value, and a numeral has no other
value.
-/

namespace Library.Decimal

/-- The digits are a numeral: only zero begins with the digit zero. -/
def Canonical (digits : List Char) : Prop :=
  digits ≠ [] ∧ (∀ c ∈ digits, c.isDigit = true) ∧ (digits.head? = some '0' → digits = ['0'])

theorem digitChar_sub {c : Char} (h : c.isDigit = true) : Nat.digitChar (c.toNat - 48) = c := by
  have hge : 48 ≤ c.toNat := (Char.isDigit_iff_toNat.mp h).1
  have hle : c.toNat ≤ 57 := (Char.isDigit_iff_toNat.mp h).2
  apply Char.toNat_inj.mp
  rw [Nat.toNat_digitChar_of_lt_ten (by omega)]
  omega

theorem digit_lt {c : Char} (h : c.isDigit = true) : c.toNat - 48 < 10 := by
  have hle : c.toNat ≤ 57 := (Char.isDigit_iff_toNat.mp h).2
  omega

theorem ofDigitChars_concat (digits : List Char) (c : Char) :
    Nat.ofDigitChars 10 (digits ++ [c]) 0 =
      10 * Nat.ofDigitChars 10 digits 0 + (c.toNat - 48) := by
  rw [Nat.ofDigitChars_append, Nat.ofDigitChars_cons, Nat.ofDigitChars_nil]
  rfl

theorem head?_concat {digits : List Char} {c : Char} (hne : digits ≠ []) :
    (digits ++ [c]).head? = digits.head? := by
  cases digits with
  | nil => exact absurd rfl hne
  | cons d digits => rfl

theorem toDigits_head? {n : Nat} (h : 0 < n) : (Nat.toDigits 10 n).head? ≠ some '0' := by
  induction n using Nat.strongRecOn with
  | ind n ih =>
    by_cases hsmall : n < 10
    · rw [Nat.toDigits_of_lt_base hsmall]
      intro heq
      have hzero := Nat.digitChar_eq_zero.mp (Option.some.inj heq)
      omega
    · rw [Nat.toDigits_of_base_le (by decide) (by omega),
        head?_concat Nat.toDigits_ne_nil]
      exact ih (n / 10) (by omega) (by omega)

theorem canonical_toDigits (n : Nat) : Canonical (Nat.toDigits 10 n) := by
  refine ⟨Nat.toDigits_ne_nil, fun c hc => ?_, fun hhead => ?_⟩
  · exact Nat.isDigit_of_mem_toDigits (by decide) (by decide) hc
  · by_cases hpos : 0 < n
    · exact absurd hhead (toDigits_head? hpos)
    · obtain rfl : n = 0 := by omega
      exact Nat.toDigits_zero 10

theorem Canonical.of_concat {digits : List Char} {c : Char} (hne : digits ≠ [])
    (h : Canonical (digits ++ [c])) : Canonical digits ∧ digits.head? ≠ some '0' := by
  have hhead : digits.head? ≠ some '0' := by
    intro heq
    have hone := h.2.2 (by rw [head?_concat hne, heq])
    have hlength := congrArg List.length hone
    rw [List.length_append, List.length_singleton, List.length_singleton] at hlength
    exact hne (List.length_eq_zero_iff.mp (by omega))
  exact ⟨⟨hne, fun d hd => h.2.1 d (List.mem_append_left _ hd), fun heq => absurd heq hhead⟩, hhead⟩

/-- A numeral is that of its own value. -/
theorem Canonical.toDigits_ofDigitChars {digits : List Char} (h : Canonical digits) :
    Nat.toDigits 10 (Nat.ofDigitChars 10 digits 0) = digits := by
  induction digits using List.reverseRecOn with
  | nil => exact absurd rfl h.1
  | append_singleton digits c ih =>
    have hc : c.isDigit = true := h.2.1 c (List.mem_append_right _ (List.mem_singleton.mpr rfl))
    have hlt := digit_lt hc
    rw [ofDigitChars_concat]
    by_cases hne : digits = []
    · rw [hne, Nat.ofDigitChars_nil, Nat.mul_zero, Nat.zero_add, Nat.toDigits_of_lt_base hlt,
        digitChar_sub hc]
      rfl
    · obtain ⟨hcanonical, hhead⟩ := h.of_concat hne
      have htenth := ih hcanonical
      -- the digits before the last are not zero: they would be the numeral of zero
      have hpos : 0 < Nat.ofDigitChars 10 digits 0 := by
        by_contra hzero
        rw [show Nat.ofDigitChars 10 digits 0 = 0 by omega, Nat.toDigits_zero] at htenth
        exact hhead (by rw [← htenth]; rfl)
      rw [← Nat.toDigits_append_toDigits (by decide) hpos hlt, htenth,
        Nat.toDigits_of_lt_base hlt, digitChar_sub hc]

/-- The two digits of a number below a hundred. -/
theorem toDigits_pair {n : Nat} (h : n < 100) :
    List.replicate (2 - (Nat.toDigits 10 n).length) '0' ++ Nat.toDigits 10 n =
      [Nat.digitChar (n / 10), Nat.digitChar (n % 10)] := by
  by_cases hsmall : n < 10
  · rw [Nat.toDigits_of_lt_base hsmall, Nat.div_eq_of_lt hsmall, Nat.mod_eq_of_lt hsmall]
    rfl
  · rw [Nat.toDigits_of_base_le (by decide) (by omega), Nat.toDigits_of_lt_base (by omega)]
    rfl

/-- Two digits are those of their value. -/
theorem pair_ofDigitChars {c d : Char} (hc : c.isDigit = true) (hd : d.isDigit = true) :
    Nat.ofDigitChars 10 [c, d] 0 < 100 ∧
      [Nat.digitChar (Nat.ofDigitChars 10 [c, d] 0 / 10),
        Nat.digitChar (Nat.ofDigitChars 10 [c, d] 0 % 10)] = [c, d] := by
  have hltc := digit_lt hc
  have hltd := digit_lt hd
  have hvalue : Nat.ofDigitChars 10 [c, d] 0 = 10 * (c.toNat - 48) + (d.toNat - 48) := by
    rw [show [c, d] = [c] ++ [d] from rfl, ofDigitChars_concat, show [c] = [] ++ [c] from rfl,
      ofDigitChars_concat, Nat.ofDigitChars_nil, Nat.mul_zero, Nat.zero_add]
  rw [hvalue, show (10 * (c.toNat - 48) + (d.toNat - 48)) / 10 = c.toNat - 48 by omega,
    show (10 * (c.toNat - 48) + (d.toNat - 48)) % 10 = d.toNat - 48 by omega, digitChar_sub hc,
    digitChar_sub hd]
  exact ⟨by omega, rfl⟩

theorem ofDigitChars_pair {n : Nat} (h : n < 100) :
    Nat.ofDigitChars 10 [Nat.digitChar (n / 10), Nat.digitChar (n % 10)] 0 = n := by
  rw [Nat.ofDigitChars_cons_digitChar_of_lt_ten (by omega),
    Nat.ofDigitChars_cons_digitChar_of_lt_ten (by omega), Nat.ofDigitChars_nil]
  omega

end Library.Decimal
