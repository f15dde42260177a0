import Mathlib.Data.Int.Notation
import Mathlib.Order.Basic

/-!
# Shared kernel

`errors.ts`, `domain-exception.filter.ts`, `failure-code.ts`, `ledger-direction.ts` and
`money.ts`. -/

namespace WageringProcessor

/-- Milliseconds since the epoch. -/
abbrev Date := Nat

/-- The text of a uuid, as the database returns it. -/
abbrev Id := String

inductive DomainError
  | invalidMoneyAmount (amount : String)
  | negativeMoneyAmount (amount : String)
  | invalidCurrency (currency : String)
  | currencyMismatch (expected actual : String)
  | insufficientBalance (walletId available requested : String)
  | unbalancedLedgerEntry
  | missingReference (kind : String)
  | invalidTransactionState (currentStatus attemptedTransition : String)
  | invariantViolation (text : String)
  | invalidCursor (cursor : String)
  | duplicateWallet (playerId currency : String)
  | walletNotFound (walletId : String)
  | walletPlayerMismatch (walletId playerId : String)
  | idempotencyConflict (idempotencyKey : String) (detail : Option String)
  | transientProcessing (text : String)
deriving DecidableEq, Repr

namespace DomainError

def code : DomainError → String
  | invalidMoneyAmount _ => "INVALID_MONEY_AMOUNT"
  | negativeMoneyAmount _ => "NEGATIVE_MONEY_AMOUNT"
  | invalidCurrency _ => "INVALID_CURRENCY"
  | currencyMismatch _ _ => "CURRENCY_MISMATCH"
  | insufficientBalance _ _ _ => "INSUFFICIENT_BALANCE"
  | unbalancedLedgerEntry => "UNBALANCED_LEDGER_ENTRY"
  | missingReference _ => "VALIDATION_MISSING_REFERENCE"
  | invalidTransactionState _ _ => "INVALID_TRANSACTION_STATE"
  | invariantViolation _ => "INVARIANT_VIOLATION"
  | invalidCursor _ => "VALIDATION_INVALID_CURSOR"
  | duplicateWallet _ _ => "WALLET_ALREADY_EXISTS"
  | walletNotFound _ => "WALLET_NOT_FOUND"
  | walletPlayerMismatch _ _ => "VALIDATION_WALLET_PLAYER_MISMATCH"
  | idempotencyConflict _ _ => "IDEMPOTENCY_CONFLICT"
  | transientProcessing _ => "INFRASTRUCTURE_TRANSIENT"

/-- `STATUS_BY_CODE` of `domain-exception.filter.ts`. -/
def STATUS_BY_CODE : List (String × Nat) :=
  [("INVALID_MONEY_AMOUNT", 400), ("NEGATIVE_MONEY_AMOUNT", 400), ("INVALID_CURRENCY", 400),
    ("CURRENCY_MISMATCH", 400), ("VALIDATION_MISSING_REFERENCE", 400),
    ("VALIDATION_WALLET_PLAYER_MISMATCH", 400), ("VALIDATION_INVALID_CURSOR", 400),
    ("WALLET_NOT_FOUND", 404), ("WALLET_ALREADY_EXISTS", 409), ("IDEMPOTENCY_CONFLICT", 409),
    ("INFRASTRUCTURE_TRANSIENT", 503)]

/-- The status that `DomainExceptionFilter` answers with. -/
def httpStatus (err : DomainError) : Nat := (STATUS_BY_CODE.lookup err.code).getD 500

end DomainError

inductive FailureCode
  | insufficientBalance
  | rollbackInsufficientBalance
  | walletCurrencyMismatch
  | referenceMismatch
  | referenceInvalidKind
  | referenceInvalidState
  | referenceAmountMismatch
  | referenceAlreadyReversed
  | referenceResolutionTimeout
  | persistenceFailure
deriving DecidableEq, Repr

def FailureCode.text : FailureCode → String
  | insufficientBalance => "INSUFFICIENT_BALANCE"
  | rollbackInsufficientBalance => "ROLLBACK_INSUFFICIENT_BALANCE"
  | walletCurrencyMismatch => "WALLET_CURRENCY_MISMATCH"
  | referenceMismatch => "REFERENCE_MISMATCH"
  | referenceInvalidKind => "REFERENCE_INVALID_KIND"
  | referenceInvalidState => "REFERENCE_INVALID_STATE"
  | referenceAmountMismatch => "REFERENCE_AMOUNT_MISMATCH"
  | referenceAlreadyReversed => "REFERENCE_ALREADY_REVERSED"
  | referenceResolutionTimeout => "REFERENCE_RESOLUTION_TIMEOUT"
  | persistenceFailure => "PERSISTENCE_FAILURE"

/-- The codes that only `resolveReference` or its timeout produce. -/
def FailureCode.isReference : FailureCode → Bool
  | referenceMismatch | referenceInvalidKind | referenceInvalidState | referenceAmountMismatch
  | referenceAlreadyReversed | referenceResolutionTimeout => true
  | _ => false

inductive LedgerDirection
  | debit
  | credit
deriving DecidableEq, Repr

def LedgerDirection.flip : LedgerDirection → LedgerDirection
  | debit => credit
  | credit => debit

/-! ## Money -/

@[ext] structure MoneyProps where
  amount : String
  currency : String
deriving DecidableEq, Repr

/-- `/^(0|[1-9]\d*)\.\d{2}$/`. -/
def validAmount (amount : List Char) : Bool :=
  match amount.takeWhile Char.isDigit, amount.dropWhile Char.isDigit with
  | integer, ['.', d₁, d₂] =>
    d₁.isDigit && d₂.isDigit && (integer == ['0'] || (integer != [] && integer.head? != some '0'))
  | _, _ => false

/-- `/^-(0|[1-9]\d*)\.\d{2}$/`. -/
def negativeAmount : List Char → Bool
  | '-' :: rest => validAmount rest
  | _ => false

/-- `/^[A-Z]{3}$/`. -/
def validCurrency (currency : String) : Bool :=
  currency.toList.length == 3 && currency.toList.all fun c => 'A' ≤ c && c ≤ 'Z'

/-- A currency code that passed `assertValidCurrency`. -/
@[ext] structure Currency where
  code : String
  valid : validCurrency code = true
deriving DecidableEq, Repr

def assertValidCurrency (currency : String) : Except DomainError Currency :=
  if h : validCurrency currency = true then .ok ⟨currency, h⟩
  else .error (.invalidCurrency currency)

def digitsToNat (digits : List Char) : Nat :=
  digits.foldl (fun n c => 10 * n + (c.toNat - 48)) 0

def decimalStringToMinorUnits (amount : List Char) : Int :=
  digitsToNat (amount.takeWhile (· ≠ '.')) * 100 +
    digitsToNat ((amount.dropWhile (· ≠ '.')).drop 1)

def padStart (width : Nat) (fill : Char) (digits : List Char) : List Char :=
  List.replicate (width - digits.length) fill ++ digits

def minorUnitsToDecimalString (minorUnits : Int) : String :=
  String.ofList <|
    (if minorUnits < 0 then ['-'] else []) ++
      Nat.toDigits 10 (minorUnits.natAbs / 100) ++
        '.' :: padStart 2 '0' (Nat.toDigits 10 (minorUnits.natAbs % 100))

/-- Only the text of a negative amount has a minus sign. -/
theorem minus_mem_iff (minorUnits : Int) :
    '-' ∈ (minorUnitsToDecimalString minorUnits).toList ↔ minorUnits < 0 := by
  have hdigits : ∀ n, '-' ∉ Nat.toDigits 10 n := by
    intro n hmem
    exact absurd (Nat.isDigit_of_mem_toDigits (by decide) (by decide) hmem) (by decide)
  -- neither the digits nor their padding is a minus sign
  have hpad : ∀ n, '-' ∉ padStart 2 '0' (Nat.toDigits 10 n) := by
    intro n hmem
    rcases List.mem_append.mp hmem with hmem | hmem
    · exact absurd (List.eq_of_mem_replicate hmem) (by decide)
    · exact hdigits n hmem
  unfold minorUnitsToDecimalString
  rw [String.toList_ofList]
  by_cases hneg : minorUnits < 0
  · simp [hneg]
  · simp [hneg, hdigits, hpad]

structure Money where
  minorUnits : Int
  currency : Currency
deriving DecidableEq, Repr

namespace Money

/-- `Money.from`. -/
def ofProps (props : MoneyProps) : Except DomainError Money :=
  if negativeAmount props.amount.toList then
    .error (.negativeMoneyAmount props.amount)
  else if !validAmount props.amount.toList then
    .error (.invalidMoneyAmount props.amount)
  else
    (assertValidCurrency props.currency).map fun currency =>
      ⟨decimalStringToMinorUnits props.amount.toList, currency⟩

def zero (currency : Currency) : Money := ⟨0, currency⟩

def fromMinorUnits (minorUnits : Int) (currency : String) : Except DomainError Money :=
  (assertValidCurrency currency).map fun currency => ⟨minorUnits, currency⟩

def toMinorUnits (m : Money) : Int := m.minorUnits

def assertSameCurrency (m other : Money) : Except DomainError Unit :=
  if m.currency ≠ other.currency then
    .error (.currencyMismatch m.currency.code other.currency.code)
  else
    .ok ()

def add (m other : Money) : Except DomainError Money :=
  (m.assertSameCurrency other).map fun _ => ⟨m.minorUnits + other.minorUnits, m.currency⟩

def subtract (m other : Money) : Except DomainError Money :=
  (m.assertSameCurrency other).map fun _ => ⟨m.minorUnits - other.minorUnits, m.currency⟩

def isPositive (m : Money) : Bool := 0 < m.minorUnits

def isNegative (m : Money) : Bool := m.minorUnits < 0

/-- `Money.equals`: different currencies are never equal. -/
def equals (m other : Money) : Bool :=
  m.currency = other.currency && m.minorUnits = other.minorUnits

def toJSON (m : Money) : MoneyProps := ⟨minorUnitsToDecimalString m.minorUnits, m.currency.code⟩

variable {m other : Money}

@[simp] theorem equals_iff : m.equals other = true ↔ m = other := by
  cases m
  cases other
  simp [equals, and_comm]

@[simp] theorem isPositive_iff : m.isPositive = true ↔ 0 < m.minorUnits := by
  simp [isPositive]

@[simp] theorem isNegative_iff : m.isNegative = true ↔ m.minorUnits < 0 := by
  simp [isNegative]

@[simp] theorem zero_minorUnits (c : Currency) : (zero c).minorUnits = 0 := rfl

@[simp] theorem zero_currency (c : Currency) : (zero c).currency = c := rfl

theorem add_eq (h : m.currency = other.currency) :
    m.add other = .ok ⟨m.minorUnits + other.minorUnits, m.currency⟩ := by
  simp [add, assertSameCurrency, h, Except.map]

theorem subtract_eq (h : m.currency = other.currency) :
    m.subtract other = .ok ⟨m.minorUnits - other.minorUnits, m.currency⟩ := by
  simp [subtract, assertSameCurrency, h, Except.map]

/-- `Money.from` accepts no negative amount. -/
theorem ofProps_nonneg {props : MoneyProps} (h : ofProps props = .ok m) : 0 ≤ m.minorUnits := by
  unfold ofProps at h
  split at h
  · cases h
  split at h
  · cases h
  · cases hcurrency : assertValidCurrency props.currency with
    | error err =>
      rw [hcurrency] at h
      cases h
    | ok currency =>
      rw [hcurrency] at h
      obtain rfl := Except.ok.inj h
      -- the digits on either side of the point are natural numbers
      show 0 ≤ decimalStringToMinorUnits props.amount.toList
      unfold decimalStringToMinorUnits
      omega

end Money

example : Money.ofProps ⟨"25.07", "BRL"⟩ = .ok ⟨2507, ⟨"BRL", by decide⟩⟩ := by decide

example : (Money.mk (-5) ⟨"BRL", by decide⟩).toJSON = ⟨"-0.05", "BRL"⟩ := by decide

end WageringProcessor
