import WageringProcessor.Shared.Kernel
import WageringProcessor.Library.Chain
import Mathlib.Algebra.Group.Int.Defs

/-!
# Wallet and ledger entry

`wallet-ledger-entry.ts` and `wallet.ts`.  A method that changes the wallet in place returns the
changed wallet; one that throws returns the error, and the wallet it was called on is
unchanged. -/

namespace WageringProcessor

structure WalletLedgerEntry where
  id : Id
  walletId : Id
  transactionId : Id
  direction : LedgerDirection
  money : Money
  balanceBefore : Money
  balanceAfter : Money
  createdAt : Date
deriving DecidableEq, Repr

def computeExpectedBalanceAfter (direction : LedgerDirection) (balanceBefore money : Money) :
    Except DomainError Money :=
  if direction = .debit then balanceBefore.subtract money else balanceBefore.add money

namespace WalletLedgerEntry

def create (props : WalletLedgerEntry) : Except DomainError WalletLedgerEntry :=
  if !props.money.isPositive then
    .error .unbalancedLedgerEntry
  else
    match computeExpectedBalanceAfter props.direction props.balanceBefore props.money with
    | .error e => .error e
    | .ok expectedBalanceAfter =>
      if !expectedBalanceAfter.equals props.balanceAfter then
        .error .unbalancedLedgerEntry
      else
        .ok props

/-- `isBalanced`, which throws where the currencies differ. -/
def isBalanced (entry : WalletLedgerEntry) : Except DomainError Bool :=
  (computeExpectedBalanceAfter entry.direction entry.balanceBefore entry.money).map fun expected =>
    expected.equals entry.balanceAfter

/-- What the entry adds to the balance: CREDIT +, DEBIT -. -/
def signedAmount (entry : WalletLedgerEntry) : Int :=
  if entry.direction = .debit then -entry.money.minorUnits else entry.money.minorUnits

end WalletLedgerEntry

structure Wallet where
  id : Id
  playerId : Id
  currency : Currency
  balance : Money
  version : Nat
  createdAt : Date
  updatedAt : Date
deriving DecidableEq, Repr

structure WalletMovementContext where
  transactionId : Id
  ledgerEntryId : Id
  now : Date

namespace Wallet

def «open» (id playerId : Id) (initialBalance : Money) (now : Date) : Wallet :=
  ⟨id, playerId, initialBalance.currency, initialBalance, 1, now, now⟩

def assertSameCurrency (w : Wallet) (money : Money) : Except DomainError Unit :=
  if money.currency ≠ w.currency then
    .error (.currencyMismatch w.currency.code money.currency.code)
  else
    .ok ()

def applyMovement (w : Wallet) (balanceAfter : Money) (now : Date) : Wallet :=
  { w with balance := balanceAfter, version := w.version + 1, updatedAt := now }

def movementEntry (w : Wallet) (direction : LedgerDirection) (money balanceAfter : Money)
    (ctx : WalletMovementContext) : WalletLedgerEntry where
  id := ctx.ledgerEntryId
  walletId := w.id
  transactionId := ctx.transactionId
  direction := direction
  money := money
  balanceBefore := w.balance
  balanceAfter := balanceAfter
  createdAt := ctx.now

def debit (w : Wallet) (money : Money) (ctx : WalletMovementContext) :
    Except DomainError (Wallet × WalletLedgerEntry) := do
  w.assertSameCurrency money
  let balanceAfter ← w.balance.subtract money
  if balanceAfter.isNegative then
    throw (.insufficientBalance w.id w.balance.toJSON.amount money.toJSON.amount)
  let entry ← WalletLedgerEntry.create (w.movementEntry .debit money balanceAfter ctx)
  return (w.applyMovement balanceAfter ctx.now, entry)

def credit (w : Wallet) (money : Money) (ctx : WalletMovementContext) :
    Except DomainError (Wallet × WalletLedgerEntry) := do
  w.assertSameCurrency money
  let balanceAfter ← w.balance.add money
  let entry ← WalletLedgerEntry.create (w.movementEntry .credit money balanceAfter ctx)
  return (w.applyMovement balanceAfter ctx.now, entry)

end Wallet

/-! ## What a movement does -/

namespace WalletLedgerEntry

/-- An entry that moves a positive amount of `currency` between two non-negative balances. -/
structure Balanced (entry : WalletLedgerEntry) (currency : Currency) : Prop where
  positive : 0 < entry.money.minorUnits
  moneyCurrency : entry.money.currency = currency
  beforeCurrency : entry.balanceBefore.currency = currency
  afterCurrency : entry.balanceAfter.currency = currency
  moves : entry.balanceAfter.minorUnits = entry.balanceBefore.minorUnits + entry.signedAmount
  beforeNonneg : 0 ≤ entry.balanceBefore.minorUnits
  afterNonneg : 0 ≤ entry.balanceAfter.minorUnits

theorem Balanced.isBalanced {entry : WalletLedgerEntry} {currency : Currency}
    (h : entry.Balanced currency) : entry.isBalanced = .ok true := by
  have hcur : entry.balanceBefore.currency = entry.money.currency :=
    h.beforeCurrency.trans h.moneyCurrency.symm
  have hmoves := h.moves
  unfold WalletLedgerEntry.isBalanced computeExpectedBalanceAfter
  unfold signedAmount at hmoves
  split
  · rename_i hd
    rw [Money.subtract_eq hcur]
    simp only [hd, if_true] at hmoves
    simp [Except.map, Money.equals, h.beforeCurrency, h.afterCurrency, hmoves, sub_eq_add_neg]
  · rename_i hd
    rw [Money.add_eq hcur]
    simp only [hd, if_false] at hmoves
    simp [Except.map, Money.equals, h.beforeCurrency, h.afterCurrency, hmoves]

end WalletLedgerEntry

namespace Wallet

variable {w : Wallet} {money : Money} {ctx : WalletMovementContext}

theorem create_movementEntry {direction : LedgerDirection} {balanceAfter : Money}
    (h : computeExpectedBalanceAfter direction w.balance money = .ok balanceAfter) :
    WalletLedgerEntry.create (w.movementEntry direction money balanceAfter ctx) =
      if money.minorUnits ≤ 0 then .error .unbalancedLedgerEntry
      else .ok (w.movementEntry direction money balanceAfter ctx) := by
  unfold WalletLedgerEntry.create
  by_cases hpos : 0 < money.minorUnits
  · have hle : ¬money.minorUnits ≤ 0 := by omega
    simp [movementEntry, Money.isPositive, hpos, hle, h, Money.equals]
  · have hle : money.minorUnits ≤ 0 := by omega
    simp [movementEntry, Money.isPositive, hpos, hle]

theorem debit_eq (hcur : w.balance.currency = w.currency) : w.debit money ctx =
    if money.currency ≠ w.currency then
      .error (.currencyMismatch w.currency.code money.currency.code)
    else if w.balance.minorUnits < money.minorUnits then
      .error (.insufficientBalance w.id w.balance.toJSON.amount money.toJSON.amount)
    else if money.minorUnits ≤ 0 then
      .error .unbalancedLedgerEntry
    else
      .ok (w.applyMovement ⟨w.balance.minorUnits - money.minorUnits, w.currency⟩ ctx.now,
        w.movementEntry .debit money
          ⟨w.balance.minorUnits - money.minorUnits, w.currency⟩ ctx) := by
  unfold debit assertSameCurrency
  by_cases hm : money.currency = w.currency
  · -- the subtraction cannot fail where the currencies agree
    have hsub := Money.subtract_eq (hcur.trans hm.symm)
    rw [hcur] at hsub
    have hexpected : computeExpectedBalanceAfter .debit w.balance money =
        .ok ⟨w.balance.minorUnits - money.minorUnits, w.currency⟩ := by
      simpa [computeExpectedBalanceAfter] using hsub
    have hcreate := @create_movementEntry w money ctx .debit _ hexpected
    simp only [hm, ne_eq, not_true, if_false, bind, Except.bind, hsub, hcreate]
    -- the balance is checked first, and only then the sign of the amount
    by_cases hlt : w.balance.minorUnits < money.minorUnits
    · rw [if_pos (by simp [Money.isNegative]; omega), if_pos hlt]
      rfl
    · rw [if_neg (by simp [Money.isNegative]; omega), if_neg hlt]
      by_cases hle : money.minorUnits ≤ 0 <;> simp [hle, pure, Except.pure]
  · simp [hm, bind, Except.bind]

theorem credit_eq (hcur : w.balance.currency = w.currency) : w.credit money ctx =
    if money.currency ≠ w.currency then
      .error (.currencyMismatch w.currency.code money.currency.code)
    else if money.minorUnits ≤ 0 then
      .error .unbalancedLedgerEntry
    else
      .ok (w.applyMovement ⟨w.balance.minorUnits + money.minorUnits, w.currency⟩ ctx.now,
        w.movementEntry .credit money
          ⟨w.balance.minorUnits + money.minorUnits, w.currency⟩ ctx) := by
  unfold credit assertSameCurrency
  by_cases hm : money.currency = w.currency
  · -- a credit has no check on the balance
    have hadd := Money.add_eq (hcur.trans hm.symm)
    rw [hcur] at hadd
    have hexpected : computeExpectedBalanceAfter .credit w.balance money =
        .ok ⟨w.balance.minorUnits + money.minorUnits, w.currency⟩ := by
      simpa [computeExpectedBalanceAfter] using hadd
    have hcreate := @create_movementEntry w money ctx .credit _ hexpected
    simp only [hm, ne_eq, not_true, if_false, bind, Except.bind, hadd, hcreate]
    by_cases hle : money.minorUnits ≤ 0 <;> simp [hle, pure, Except.pure]
  · simp [hm, bind, Except.bind]

end Wallet

end WageringProcessor
