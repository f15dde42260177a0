import WageringProcessor.Wallets.Domain

/-!
# Movements of a wallet object

`debit` and `credit` of `wallet.ts` as methods that change the fields of one object in place: what a
method has written before it throws would stay written.
-/

namespace WageringProcessor

open Library.Chain

abbrev WalletMethod := ExceptT DomainError (StateM Wallet)

namespace WalletMethod

def assertSameCurrency (money : Money) : WalletMethod Unit := do
  let this ← get
  if money.currency ≠ this.currency then
    throw (.currencyMismatch this.currency.code money.currency.code)

def applyMovement (balanceAfter : Money) (now : Date) : WalletMethod Unit := do
  modify fun this => { this with balance := balanceAfter }
  modify fun this => { this with version := this.version + 1 }
  modify fun this => { this with updatedAt := now }

def debit (money : Money) (ctx : WalletMovementContext) : WalletMethod WalletLedgerEntry := do
  assertSameCurrency money
  let this ← get
  let balanceBefore := this.balance
  let balanceAfter ← balanceBefore.subtract money
  if balanceAfter.isNegative then
    throw (.insufficientBalance this.id balanceBefore.toJSON.amount money.toJSON.amount)
  let entry ← WalletLedgerEntry.create
    ⟨ctx.ledgerEntryId, this.id, ctx.transactionId, .debit, money, balanceBefore, balanceAfter,
      ctx.now⟩
  applyMovement balanceAfter ctx.now
  return entry

def credit (money : Money) (ctx : WalletMovementContext) : WalletMethod WalletLedgerEntry := do
  assertSameCurrency money
  let this ← get
  let balanceBefore := this.balance
  let balanceAfter ← balanceBefore.add money
  let entry ← WalletLedgerEntry.create
    ⟨ctx.ledgerEntryId, this.id, ctx.transactionId, .credit, money, balanceBefore, balanceAfter,
      ctx.now⟩
  applyMovement balanceAfter ctx.now
  return entry

/-! ## What a call leaves behind -/

variable {α β : Type} {w : Wallet}

/-- What a call on the object returns or throws, and the object after it. -/
def call (method : WalletMethod α) (w : Wallet) : Except DomainError α × Wallet :=
  method.run.run w

theorem call_bind (method : WalletMethod α) (f : α → WalletMethod β) :
    call (method >>= f) w = match call method w with
      | (.ok a, w') => call (f a) w'
      | (.error err, w') => (.error err, w') := by
  unfold call
  rw [ExceptT.run_bind, StateT.run_bind]
  rcases StateT.run (ExceptT.run method) w with ⟨result, w'⟩
  cases result <;> rfl

theorem call_pure (a : α) : call (pure a) w = (.ok a, w) := rfl

theorem call_get : call get w = (.ok w, w) := rfl

theorem call_throw (err : DomainError) : call (throw err : WalletMethod α) w = (.error err, w) :=
  rfl

theorem call_lift (result : Except DomainError α) :
    call (liftM result : WalletMethod α) w = (result, w) := by
  cases result <;> rfl

theorem call_modify (f : Wallet → Wallet) : call (modify f) w = (.ok ⟨⟩, f w) := rfl

theorem call_ite (c : Prop) [Decidable c] (m m' : WalletMethod α) :
    call (if c then m else m') w = if c then call m w else call m' w := by
  split <;> rfl

/-- What a method that returns the changed wallet does to the object: nothing when it throws. -/
def inPlace (w : Wallet) : Except DomainError (Wallet × WalletLedgerEntry) →
    Except DomainError WalletLedgerEntry × Wallet
  | .ok (w', entry) => (.ok entry, w')
  | .error err => (.error err, w)

variable {money : Money} {ctx : WalletMovementContext}

/-- `debit` writes only after its last check. -/
theorem call_debit : call (debit money ctx) w = inPlace w (w.debit money ctx) := by
  unfold debit assertSameCurrency applyMovement Wallet.debit Wallet.assertSameCurrency
  simp only [call_bind, call_get, call_ite, call_throw, call_lift, call_pure, call_modify]
  by_cases hcur : money.currency ≠ w.currency
  · rw [if_pos hcur, if_pos hcur]
    rfl
  rw [if_neg hcur, if_neg hcur]
  dsimp only
  -- up to here both have only read
  cases w.balance.subtract money with
  | error err => rfl
  | ok balanceAfter =>
    simp only [bind, Except.bind, Wallet.movementEntry]
    by_cases hneg : balanceAfter.isNegative = true
    · rw [if_pos hneg, if_pos hneg]
      rfl
    · rw [if_neg hneg, if_neg hneg]
      generalize WalletLedgerEntry.create _ = result
      cases result <;> rfl

/-- So does `credit`. -/
theorem call_credit : call (credit money ctx) w = inPlace w (w.credit money ctx) := by
  unfold credit assertSameCurrency applyMovement Wallet.credit Wallet.assertSameCurrency
  simp only [call_bind, call_get, call_ite, call_throw, call_lift, call_pure, call_modify]
  by_cases hcur : money.currency ≠ w.currency
  · rw [if_pos hcur, if_pos hcur]
    rfl
  rw [if_neg hcur, if_neg hcur]
  dsimp only
  cases w.balance.add money with
  | error err => rfl
  | ok balanceAfter =>
    simp only [bind, Except.bind, Wallet.movementEntry]
    generalize WalletLedgerEntry.create _ = result
    cases result <;> rfl

end WalletMethod

/-! ## Sequences of calls -/

structure MovementCall where
  direction : LedgerDirection
  money : Money
  ctx : WalletMovementContext

def MovementCall.method (c : MovementCall) : WalletMethod WalletLedgerEntry :=
  match c.direction with
  | .debit => WalletMethod.debit c.money c.ctx
  | .credit => WalletMethod.credit c.money c.ctx

/-- One call of a sequence: the wallet before it, what it returned or threw, the wallet after it. -/
structure Movement where
  before : Wallet
  call : MovementCall
  result : Except DomainError WalletLedgerEntry
  after : Wallet

/-- The calls one after another on one wallet object. -/
def movements : Wallet → List MovementCall → List Movement
  | _, [] => []
  | w, c :: calls =>
    let (result, after) := c.method.call w
    ⟨w, c, result, after⟩ :: movements after calls

def walletAfter : Wallet → List MovementCall → Wallet
  | w, [] => w
  | w, c :: calls => walletAfter (c.method.call w).2 calls

def Movement.entry? (m : Movement) : Option WalletLedgerEntry := m.result.toOption

/-- A wallet whose balance is in its currency and not negative. -/
structure Wallet.Sound (w : Wallet) : Prop where
  currency : w.balance.currency = w.currency
  nonneg : 0 ≤ w.balance.minorUnits

/-- A call throws what it must and changes nothing, or makes the whole movement. -/
inductive Movement.AllOrNothing : Movement → Prop
  | otherCurrency {w : Wallet} {c : MovementCall} (h : c.money.currency ≠ w.currency) :
    AllOrNothing ⟨w, c, .error (.currencyMismatch w.currency.code c.money.currency.code), w⟩
  | exceeds {w : Wallet} {c : MovementCall} (hcurrency : c.money.currency = w.currency)
    (hdebit : c.direction = .debit) (h : w.balance.minorUnits < c.money.minorUnits) :
    AllOrNothing ⟨w, c,
      .error (.insufficientBalance w.id w.balance.toJSON.amount c.money.toJSON.amount), w⟩
  | notPositive {w : Wallet} {c : MovementCall} (hcurrency : c.money.currency = w.currency)
    (h : c.money.minorUnits ≤ 0) : AllOrNothing ⟨w, c, .error .unbalancedLedgerEntry, w⟩
  | moves {w w' : Wallet} {c : MovementCall} {entry : WalletLedgerEntry}
    (hcurrency : c.money.currency = w.currency) (hpositive : 0 < c.money.minorUnits)
    (hdebit : c.direction = .debit → c.money.minorUnits ≤ w.balance.minorUnits)
    (hentry : entry = w.movementEntry c.direction c.money w'.balance c.ctx)
    (hbalanced : entry.isBalanced = .ok true)
    (hwallet : w' = { w with
      balance := w'.balance, version := w.version + 1, updatedAt := c.ctx.now }) :
    AllOrNothing ⟨w, c, .ok entry, w'⟩

variable {w : Wallet} {c : MovementCall}

theorem Wallet.Sound.balanced_entry (hw : w.Sound) (hcurrency : c.money.currency = w.currency)
    (hpositive : 0 < c.money.minorUnits) (balanceAfter : Money)
    (hafter : balanceAfter.currency = w.currency)
    (hmoves : balanceAfter.minorUnits = w.balance.minorUnits +
      (w.movementEntry c.direction c.money balanceAfter c.ctx).signedAmount)
    (hnonneg : 0 ≤ balanceAfter.minorUnits) :
    (w.movementEntry c.direction c.money balanceAfter c.ctx).Balanced w.currency :=
  ⟨hpositive, hcurrency, hw.currency, hafter, hmoves, hw.nonneg, hnonneg⟩

/-- One call on a sound wallet is all or nothing, and leaves the wallet sound. -/
theorem Wallet.Sound.call (hw : w.Sound) (c : MovementCall) :
    Movement.AllOrNothing ⟨w, c, (c.method.call w).1, (c.method.call w).2⟩ ∧
      (c.method.call w).2.Sound := by
  obtain ⟨direction, money, ctx⟩ := c
  cases direction with
  | debit =>
    show Movement.AllOrNothing ⟨w, ⟨.debit, money, ctx⟩, (WalletMethod.call
      (WalletMethod.debit money ctx) w).1, (WalletMethod.call (WalletMethod.debit money ctx) w).2⟩ ∧
      (WalletMethod.call (WalletMethod.debit money ctx) w).2.Sound
    rw [WalletMethod.call_debit, Wallet.debit_eq hw.currency]
    by_cases hcurrency : money.currency ≠ w.currency
    · rw [if_pos hcurrency]
      exact ⟨.otherCurrency hcurrency, hw⟩
    rw [if_neg hcurrency]
    rw [not_not] at hcurrency
    by_cases hlt : w.balance.minorUnits < money.minorUnits
    · rw [if_pos hlt]
      exact ⟨.exceeds hcurrency rfl hlt, hw⟩
    rw [if_neg hlt]
    by_cases hle : money.minorUnits ≤ 0
    · rw [if_pos hle]
      exact ⟨.notPositive hcurrency hle, hw⟩
    rw [if_neg hle]
    have hpositive : 0 < money.minorUnits := by omega
    -- every check has passed: the entry balances
    have hbalanced := hw.balanced_entry (c := ⟨.debit, money, ctx⟩) hcurrency hpositive
      ⟨w.balance.minorUnits - money.minorUnits, w.currency⟩ rfl rfl
      (by show 0 ≤ w.balance.minorUnits - money.minorUnits; omega)
    exact ⟨.moves hcurrency hpositive (fun _ => Int.not_lt.mp hlt) rfl hbalanced.isBalanced rfl,
      rfl, hbalanced.afterNonneg⟩
  | credit =>
    show Movement.AllOrNothing ⟨w, ⟨.credit, money, ctx⟩,
      (WalletMethod.call (WalletMethod.credit money ctx) w).1,
      (WalletMethod.call (WalletMethod.credit money ctx) w).2⟩ ∧
      (WalletMethod.call (WalletMethod.credit money ctx) w).2.Sound
    rw [WalletMethod.call_credit, Wallet.credit_eq hw.currency]
    by_cases hcurrency : money.currency ≠ w.currency
    · rw [if_pos hcurrency]
      exact ⟨.otherCurrency hcurrency, hw⟩
    rw [if_neg hcurrency]
    rw [not_not] at hcurrency
    by_cases hle : money.minorUnits ≤ 0
    · rw [if_pos hle]
      exact ⟨.notPositive hcurrency hle, hw⟩
    rw [if_neg hle]
    have hnonneg := hw.nonneg
    have hpositive : 0 < money.minorUnits := by omega
    have hbalanced := hw.balanced_entry (c := ⟨.credit, money, ctx⟩) hcurrency hpositive
      ⟨w.balance.minorUnits + money.minorUnits, w.currency⟩ rfl rfl
      (by show 0 ≤ w.balance.minorUnits + money.minorUnits; omega)
    exact ⟨.moves hcurrency hpositive (fun h => by cases h) rfl hbalanced.isBalanced rfl, rfl,
      hbalanced.afterNonneg⟩

/-- The entry of a movement leads from the balance before it to the one after it. -/
theorem Movement.AllOrNothing.linked {m : Movement} {ms : List Movement} {balance : Money}
    (h : m.AllOrNothing)
    (hrest : Linked WalletLedgerEntry.balanceBefore WalletLedgerEntry.balanceAfter m.after.balance
      (ms.filterMap Movement.entry?) balance) :
    Linked WalletLedgerEntry.balanceBefore WalletLedgerEntry.balanceAfter m.before.balance
      ((m :: ms).filterMap Movement.entry?) balance := by
  cases h with
  | moves _ _ _ hentry _ _ =>
    rw [hentry]
    exact ⟨rfl, hrest⟩
  | _ => exact hrest

/-- Every call of a sequence is all or nothing, whatever the calls before it threw, no wallet
between them has a negative balance, and the entries lead from the first balance to the last. -/
theorem movements_allOrNothing (hcurrency : w.balance.currency = w.currency)
    (hnonneg : 0 ≤ w.balance.minorUnits) (calls : List MovementCall) :
    (∀ m ∈ movements w calls, m.AllOrNothing ∧ 0 ≤ m.after.balance.minorUnits) ∧
      (movements w calls).map Movement.call = calls ∧
      Linked Movement.before Movement.after w (movements w calls) (walletAfter w calls) ∧
      Linked WalletLedgerEntry.balanceBefore WalletLedgerEntry.balanceAfter w.balance
        ((movements w calls).filterMap Movement.entry?) (walletAfter w calls).balance := by
  have hw : w.Sound := ⟨hcurrency, hnonneg⟩
  -- by induction on the calls, from whatever sound wallet they start
  clear hcurrency hnonneg
  induction calls generalizing w with
  | nil => exact ⟨fun m hm => (by cases hm), rfl, rfl, rfl⟩
  | cons c calls ih =>
    obtain ⟨hcall, hafter⟩ := hw.call c
    obtain ⟨hall, hcalls, hlinked, hchain⟩ := ih hafter
    exact ⟨List.forall_mem_cons.mpr ⟨⟨hcall, hafter.nonneg⟩, hall⟩, congrArg (c :: ·) hcalls,
      ⟨rfl, hlinked⟩, hcall.linked hchain⟩

theorem validCurrency_brl : validCurrency "BRL" = true := by decide

theorem validCurrency_usd : validCurrency "USD" = true := by decide

def reais (minorUnits : Int) : Money := ⟨minorUnits, ⟨"BRL", validCurrency_brl⟩⟩

def fiftyReais : Wallet := .open "w" "p" (reais 5000) 0

/-- Three failing calls among two that move the balance. -/
def mixedCalls : List MovementCall :=
  [⟨.debit, reais 6000, ⟨"t1", "e1", 1⟩⟩, ⟨.debit, reais 2000, ⟨"t2", "e2", 2⟩⟩,
    ⟨.credit, reais (-9000), ⟨"t3", "e3", 3⟩⟩,
    ⟨.credit, ⟨500, ⟨"USD", validCurrency_usd⟩⟩, ⟨"t4", "e4", 4⟩⟩,
      ⟨.credit, reais 500, ⟨"t5", "e5", 5⟩⟩]

theorem mixedCalls_allOrNothing :
    ((movements fiftyReais mixedCalls).filterMap Movement.entry?).map (·.id) = ["e2", "e5"] ∧
      (walletAfter fiftyReais mixedCalls).balance.minorUnits = 3500 ∧
      (∀ m ∈ movements fiftyReais mixedCalls, m.AllOrNothing ∧ 0 ≤ m.after.balance.minorUnits) ∧
      (movements fiftyReais mixedCalls).map Movement.call = mixedCalls ∧
      Linked Movement.before Movement.after fiftyReais (movements fiftyReais mixedCalls)
        (walletAfter fiftyReais mixedCalls) ∧
      Linked WalletLedgerEntry.balanceBefore WalletLedgerEntry.balanceAfter fiftyReais.balance
        ((movements fiftyReais mixedCalls).filterMap Movement.entry?)
        (walletAfter fiftyReais mixedCalls).balance :=
  ⟨by decide, by decide, movements_allOrNothing rfl (by decide) mixedCalls⟩

end WageringProcessor
