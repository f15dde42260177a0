import Mathlib.Data.List.TakeWhile
import WageringProcessor.Library.Decimal
import WageringProcessor.Shared.Kernel

/-!
# The text of an amount

`Money.from` and `toJSON` are inverse to each other on the amounts that are not negative.
-/

namespace WageringProcessor

open Library.Decimal

/-- What the amount's expression matches: a numeral, a point and two digits. -/
theorem validAmount_iff {amount : List Char} : validAmount amount = true ↔
    ∃ integer d₁ d₂, amount = integer ++ ['.', d₁, d₂] ∧ Canonical integer ∧
      d₁.isDigit = true ∧ d₂.isDigit = true := by
  constructor
  · intro h
    unfold validAmount at h
    split at h
    · rename_i d₁ d₂ hrest
      simp only [Bool.and_eq_true, Bool.or_eq_true, beq_iff_eq, bne_iff_ne] at h
      -- the integer is what stands before the first character that is no digit
      obtain ⟨⟨hd₁, hd₂⟩, hcanonical⟩ := h
      have hdigits : ∀ c ∈ amount.takeWhile Char.isDigit, c.isDigit = true :=
        fun c hc => List.mem_takeWhile_imp hc
      refine ⟨amount.takeWhile Char.isDigit, d₁, d₂, ?_, ⟨?_, hdigits, ?_⟩, hd₁, hd₂⟩
      · rw [← hrest, List.takeWhile_append_dropWhile]
      · rintro hnil
        rcases hcanonical with hzero | ⟨hne, _⟩
        · rw [hnil] at hzero
          cases hzero
        · exact hne hnil
      · intro hhead
        rcases hcanonical with hzero | ⟨_, hne⟩
        · exact hzero
        · exact absurd hhead hne
    · cases h
  · rintro ⟨integer, d₁, d₂, rfl, ⟨hne, hdigits, hhead⟩, hd₁, hd₂⟩
    -- conversely the scan stops at the point
    have htake : (integer ++ ['.', d₁, d₂]).takeWhile Char.isDigit = integer := by
      rw [List.takeWhile_append_of_pos hdigits]
      simp
    have hdrop : (integer ++ ['.', d₁, d₂]).dropWhile Char.isDigit = ['.', d₁, d₂] := by
      rw [List.dropWhile_append_of_pos hdigits]
      rfl
    unfold validAmount
    rw [htake, hdrop]
    by_cases hzero : integer.head? = some '0'
    · simp [hd₁, hd₂, hhead hzero]
    · simp [hd₁, hd₂, hne, hzero]

theorem point_not_mem {digits : List Char} (h : ∀ c ∈ digits, c.isDigit = true) :
    ∀ c ∈ digits, decide (c ≠ '.') = true := by
  intro c hc
  rw [decide_eq_true_eq]
  rintro rfl
  exact absurd (h _ hc) (by decide)

theorem decimalStringToMinorUnits_eq {integer : List Char} (h : ∀ c ∈ integer, c.isDigit = true)
    (d₁ d₂ : Char) : decimalStringToMinorUnits (integer ++ ['.', d₁, d₂]) =
      Nat.ofDigitChars 10 integer 0 * 100 + Nat.ofDigitChars 10 [d₁, d₂] 0 := by
  have hpoint := point_not_mem h
  unfold decimalStringToMinorUnits
  rw [List.takeWhile_append_of_pos hpoint, List.dropWhile_append_of_pos hpoint]
  show (digitsToNat (integer ++ []) : Int) * 100 + digitsToNat [d₁, d₂] = _
  rw [List.append_nil]
  rfl

/-- The text of an amount that is not negative: its units, a point and its two cents. -/
theorem minorUnitsToDecimalString_nat (n : Nat) : (minorUnitsToDecimalString n).toList =
    Nat.toDigits 10 (n / 100) ++
      ['.', Nat.digitChar (n % 100 / 10), Nat.digitChar (n % 100 % 10)] := by
  have hpair := toDigits_pair (Nat.mod_lt n (by decide : 0 < 100))
  unfold minorUnitsToDecimalString padStart
  rw [String.toList_ofList, Int.natAbs_natCast, hpair, if_neg (by omega)]
  rfl

theorem minorUnitsToDecimalString_neg {n : Int} (h : n < 0) :
    (minorUnitsToDecimalString n).toList =
      '-' :: (minorUnitsToDecimalString n.natAbs).toList := by
  unfold minorUnitsToDecimalString
  rw [String.toList_ofList, String.toList_ofList, if_pos h, if_neg (by omega),
    Int.natAbs_natCast]
  rfl

theorem digitChar_isDigit {n : Nat} (h : n < 10) : (Nat.digitChar n).isDigit = true := by
  have hmem : Nat.digitChar n ∈ Nat.toDigits 10 n := by
    rw [Nat.toDigits_of_lt_base h]
    exact List.mem_singleton.mpr rfl
  exact Nat.isDigit_of_mem_toDigits (by decide) (by decide) hmem

theorem validAmount_text (n : Nat) :
    validAmount (minorUnitsToDecimalString n).toList = true := by
  rw [minorUnitsToDecimalString_nat, validAmount_iff]
  exact ⟨_, _, _, rfl, canonical_toDigits _, digitChar_isDigit (by omega),
    digitChar_isDigit (by omega)⟩

/-- Reading the text of an amount gives the amount. -/
theorem decimalStringToMinorUnits_text (n : Nat) :
    decimalStringToMinorUnits (minorUnitsToDecimalString n).toList = n := by
  have hlt : n % 100 < 100 := Nat.mod_lt n (by decide)
  rw [minorUnitsToDecimalString_nat, decimalStringToMinorUnits_eq (canonical_toDigits _).2.1,
    Nat.ofDigitChars_ten_toDigits, ofDigitChars_pair hlt]
  omega

/-- A text that the expression matches is the text of the amount it is read as. -/
theorem text_decimalStringToMinorUnits {amount : List Char} (h : validAmount amount = true) :
    ∃ n : Nat, decimalStringToMinorUnits amount = n ∧
      (minorUnitsToDecimalString n).toList = amount := by
  obtain ⟨integer, d₁, d₂, rfl, hcanonical, hd₁, hd₂⟩ := validAmount_iff.mp h
  obtain ⟨hlt, hpair⟩ := pair_ofDigitChars hd₁ hd₂
  have hvalue := decimalStringToMinorUnits_eq hcanonical.2.1 d₁ d₂
  have hunits := hcanonical.toDigits_ofDigitChars
  generalize Nat.ofDigitChars 10 [d₁, d₂] 0 = cents at hlt hpair hvalue
  generalize Nat.ofDigitChars 10 integer 0 = units at hunits hvalue
  refine ⟨units * 100 + cents, by rw [hvalue]; omega, ?_⟩
  rw [minorUnitsToDecimalString_nat, show (units * 100 + cents) / 100 = units by omega,
    show (units * 100 + cents) % 100 = cents by omega, hunits]
  rw [List.cons.injEq, List.cons.injEq] at hpair
  rw [hpair.1, hpair.2.1]

/-- Distinct amounts have distinct texts. -/
theorem minorUnitsToDecimalString_inj {n n' : Int}
    (h : minorUnitsToDecimalString n = minorUnitsToDecimalString n') : n = n' := by
  have hsign : n < 0 ↔ n' < 0 := by
    rw [← minus_mem_iff, ← minus_mem_iff, h]
  have htext : (minorUnitsToDecimalString n.natAbs).toList =
      (minorUnitsToDecimalString n'.natAbs).toList := by
    by_cases hneg : n < 0
    · have hlist := congrArg String.toList h
      rw [minorUnitsToDecimalString_neg hneg,
        minorUnitsToDecimalString_neg (hsign.mp hneg)] at hlist
      exact (List.cons.inj hlist).2
    · rw [show (n.natAbs : Int) = n by omega, show (n'.natAbs : Int) = n' by omega, h]
  have hvalue := congrArg decimalStringToMinorUnits htext
  rw [decimalStringToMinorUnits_text, decimalStringToMinorUnits_text] at hvalue
  omega

namespace Money

variable {s : String}

theorem assertValidCurrency_code (c : Currency) : assertValidCurrency c.code = .ok c := by
  unfold assertValidCurrency
  rw [dif_pos c.valid]

theorem negativeAmount_iff {amount : List Char} : negativeAmount amount = true ↔
    ∃ rest, amount = '-' :: rest ∧ validAmount rest = true := by
  unfold negativeAmount
  split
  · rename_i rest
    refine ⟨fun h => ⟨rest, rfl, h⟩, ?_⟩
    rintro ⟨rest', heq, h⟩
    rw [(List.cons.inj heq).2]
    exact h
  · rename_i hne
    refine ⟨fun h => (by cases h), ?_⟩
    rintro ⟨rest, heq, _⟩
    exact absurd heq (hne rest)

theorem validAmount_minus (rest : List Char) : validAmount ('-' :: rest) = false := by
  rw [Bool.eq_false_iff]
  intro h
  obtain ⟨integer, d₁, d₂, heq, hcanonical, _, _⟩ := validAmount_iff.mp h
  cases integer with
  | nil => exact hcanonical.1 rfl
  | cons c integer =>
    have hc := hcanonical.2.1 c (List.mem_cons_self ..)
    rw [← (List.cons.inj heq).1] at hc
    exact absurd hc (by decide)

theorem ofProps_of_negative (h : negativeAmount s.toList = true) (currency : String) :
    ofProps ⟨s, currency⟩ = .error (.negativeMoneyAmount s) := by
  unfold ofProps
  rw [if_pos h]

theorem ofProps_of_invalid (hneg : negativeAmount s.toList = false)
    (h : validAmount s.toList = false) (currency : String) :
    ofProps ⟨s, currency⟩ = .error (.invalidMoneyAmount s) := by
  unfold ofProps
  simp only [hneg, h, Bool.false_eq_true, if_false, Bool.not_false, if_true]

theorem ofProps_of_valid (h : validAmount s.toList = true) (currency : String) :
    ofProps ⟨s, currency⟩ = (assertValidCurrency currency).map fun c =>
      ⟨decimalStringToMinorUnits s.toList, c⟩ := by
  have hneg : negativeAmount s.toList = false := by
    rw [Bool.eq_false_iff]
    intro hneg
    obtain ⟨rest, heq, _⟩ := negativeAmount_iff.mp hneg
    rw [heq, validAmount_minus] at h
    cases h
  unfold ofProps
  simp only [hneg, h, Bool.false_eq_true, if_false, Bool.not_true]

/-- `Money.from` accepts exactly the amounts its expression matches. -/
theorem ofProps_ok_iff {currency : String} {m : Money} : ofProps ⟨s, currency⟩ = .ok m ↔
    validAmount s.toList = true ∧ m.currency.code = currency ∧
      m.minorUnits = decimalStringToMinorUnits s.toList := by
  by_cases hvalid : validAmount s.toList = true
  · rw [ofProps_of_valid hvalid]
    unfold assertValidCurrency
    by_cases hcurrency : validCurrency currency = true
    · rw [dif_pos hcurrency]
      constructor
      · intro h
        obtain rfl := Except.ok.inj h
        exact ⟨hvalid, rfl, rfl⟩
      · rintro ⟨_, rfl, hunits⟩
        rw [← hunits]
        rfl
    · rw [dif_neg hcurrency]
      -- a currency is valid by its type
      refine ⟨fun h => (by cases h), ?_⟩
      rintro ⟨_, rfl, _⟩
      exact absurd m.currency.valid hcurrency
  · rw [Bool.not_eq_true] at hvalid
    -- either error, the one for a negative amount first
    refine ⟨fun h => ?_, fun h => by rw [h.1] at hvalid; cases hvalid⟩
    by_cases hneg : negativeAmount s.toList = true
    · rw [ofProps_of_negative hneg] at h
      cases h
    · rw [ofProps_of_invalid (Bool.eq_false_iff.mpr hneg) hvalid] at h
      cases h

/-- `Money.from` reads back what `toJSON` prints. -/
theorem ofProps_toJSON {m : Money} (h : 0 ≤ m.minorUnits) : ofProps m.toJSON = .ok m := by
  obtain ⟨n, hn⟩ : ∃ n : Nat, m.minorUnits = n := ⟨m.minorUnits.toNat, by omega⟩
  unfold toJSON
  rw [ofProps_ok_iff, hn]
  exact ⟨validAmount_text n, rfl, (decimalStringToMinorUnits_text n).symm⟩

/-- An accepted amount is printed as it was read. -/
theorem toJSON_ofProps {currency : String} {m : Money} (h : ofProps ⟨s, currency⟩ = .ok m) :
    m.toJSON = ⟨s, currency⟩ := by
  obtain ⟨hvalid, hcurrency, hunits⟩ := ofProps_ok_iff.mp h
  obtain ⟨n, hn, htext⟩ := text_decimalStringToMinorUnits hvalid
  unfold toJSON
  rw [hunits, hn, hcurrency, String.toList_inj.mp htext]

theorem toJSON_inj {m m' : Money} (h : m.toJSON = m'.toJSON) : m = m' := by
  obtain ⟨hamount, hcode⟩ := MoneyProps.mk.inj h
  have hcurrency : m.currency = m'.currency := Currency.ext hcode
  cases m
  cases m'
  rw [Money.mk.injEq]
  exact ⟨minorUnitsToDecimalString_inj hamount, hcurrency⟩

/-- The texts that `Money.from` accepts and the amounts that are not negative are in bijection,
and it tells a negative amount from a text that is no amount. -/
theorem text_bijection (c : Currency) :
    (∀ s, (∃ m, ofProps ⟨s, c.code⟩ = .ok m) ↔
      ∃ n : Int, 0 ≤ n ∧ (Money.mk n c).toJSON.amount = s) ∧
    (∀ s m, ofProps ⟨s, c.code⟩ = .ok m → m.toJSON.amount = s ∧
      ∀ n, (Money.mk n c).toJSON.amount = s ↔ n = m.toMinorUnits) ∧
    (∀ n, 0 ≤ n →
      (fromMinorUnits n c.code).bind (fun m => ofProps m.toJSON) = .ok (Money.mk n c)) ∧
    (∀ n n', (Money.mk n c).toJSON.amount = (Money.mk n' c).toJSON.amount → n = n') ∧
    (∀ s m, ofProps ⟨s, c.code⟩ = .ok m →
      ofProps ⟨"-" ++ s, c.code⟩ = .error (.negativeMoneyAmount ("-" ++ s))) ∧
    (∀ n, n < 0 → ofProps (Money.mk n c).toJSON =
      .error (.negativeMoneyAmount (Money.mk n c).toJSON.amount)) ∧
    (∀ s, (¬∃ m, ofProps ⟨s, c.code⟩ = .ok m) →
      (¬∃ t m, s = "-" ++ t ∧ ofProps ⟨t, c.code⟩ = .ok m) →
        ofProps ⟨s, c.code⟩ = .error (.invalidMoneyAmount s)) := by
  -- a text that the expression matches is accepted in every valid currency
  have hvalid : ∀ t : String, validAmount t.toList = true → ∃ m, ofProps ⟨t, c.code⟩ = .ok m :=
    fun t ht => ⟨⟨_, c⟩, ofProps_ok_iff.mpr ⟨ht, rfl, rfl⟩⟩
  refine ⟨fun s => ⟨?_, ?_⟩, ?_, ?_, ?_, ?_, ?_, ?_⟩
  · -- the accepted texts are those of the amounts that are not negative
    rintro ⟨m, hm⟩
    refine ⟨m.minorUnits, ofProps_nonneg hm, ?_⟩
    exact congrArg MoneyProps.amount (toJSON_ofProps hm)
  · rintro ⟨n, hn, rfl⟩
    exact ⟨_, ofProps_toJSON (m := ⟨n, c⟩) hn⟩
  · intro s m hm
    -- an accepted text is printed again, and no other amount has it
    have htext : m.toJSON.amount = s := congrArg MoneyProps.amount (toJSON_ofProps hm)
    refine ⟨htext, fun n => ⟨fun hn => ?_, fun hn => ?_⟩⟩
    · exact minorUnitsToDecimalString_inj (hn.trans htext.symm)
    · rw [hn]
      exact htext
  · intro n hn
    unfold fromMinorUnits
    rw [assertValidCurrency_code]
    exact ofProps_toJSON (m := ⟨n, c⟩) hn
  · exact fun n n' h => minorUnitsToDecimalString_inj h
  · intro s m hm
    -- a minus sign before an accepted text
    apply ofProps_of_negative
    rw [negativeAmount_iff, String.toList_append]
    exact ⟨s.toList, rfl, (ofProps_ok_iff.mp hm).1⟩
  · intro n hn
    apply ofProps_of_negative
    rw [negativeAmount_iff]
    exact ⟨_, minorUnitsToDecimalString_neg hn, validAmount_text _⟩
  · intro s hnot hnotNegative
    -- neither expression matches: the text behind a minus sign would be accepted
    apply ofProps_of_invalid
    · rw [Bool.eq_false_iff]
      intro hneg
      obtain ⟨rest, hrest, hamount⟩ := negativeAmount_iff.mp hneg
      obtain ⟨m, hm⟩ := hvalid (String.ofList rest) (by rw [String.toList_ofList]; exact hamount)
      refine hnotNegative ⟨String.ofList rest, m, ?_, hm⟩
      rw [← String.toList_inj, String.toList_append, hrest]
      show '-' :: rest = '-' :: (String.ofList rest).toList
      rw [String.toList_ofList]
    · rw [Bool.eq_false_iff]
      exact fun h => hnot (hvalid s h)

end Money

end WageringProcessor
