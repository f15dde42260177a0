import WageringProcessor.Persistence.Database

/-!
# Finalizing a claimed transaction

`wager-transaction-finalizer.ts` and `reference-resolution.ts`.  `resolveReference` makes two
queries, so it is two functions here, each on what its own query returned.  The other methods
return the changed transaction and the rows they write; `newId()` is an argument.
-/

namespace WageringProcessor

inductive ReferenceResolution
  | resolved (reference : WagerTransaction)
  | pending
  | rejected (failureCode : FailureCode)
deriving DecidableEq, Repr

namespace WagerTransactionFinalizer

def REVERSAL_ALLOWED_REFERENCE_KINDS : List WagerTransactionKind := [.bet, .win, .refund]

/-- `tx` and `reference` name the same player, wallet, round and currency. -/
def sameOwner (tx reference : WagerTransaction) : Bool :=
  reference.playerId = tx.playerId && reference.walletId = tx.walletId &&
    reference.roundId = tx.roundId && reference.money.currency = tx.money.currency

def validKind (kind referenceKind : WagerTransactionKind) : Bool :=
  if kind = .refund then referenceKind = .bet
  else REVERSAL_ALLOWED_REFERENCE_KINDS.contains referenceKind

/-- The checks of `resolveReference` before it asks for an earlier reversal. -/
def checkReference (tx reference : WagerTransaction) : ReferenceResolution :=
  if !sameOwner tx reference then
    .rejected .referenceMismatch
  else if !validKind tx.kind reference.kind then
    .rejected .referenceInvalidKind
  else if reference.status = .pending || reference.status = .pendingReference then
    .pending
  else if reference.status = .rejected || reference.status = .failed then
    .rejected .referenceInvalidState
  -- from here on the reference is PROCESSED
  else if !tx.money.equals reference.money then
    .rejected .referenceAmountMismatch
  else
    .resolved reference

/-- `resolveReference` up to its second query. -/
def findReference (d : Database) (tx : WagerTransaction) :
    Except DomainError ReferenceResolution :=
  if WagerTransaction.missingReference tx.referenceExternalTransactionId then
    .error (.invariantViolation "resolveReference chamado numa transação sem referência")
  else
    .ok <|
      match d.findByProviderAndExternalId tx.providerId
          (tx.referenceExternalTransactionId.getD "") with
      | none => .pending
      | some reference => checkReference tx reference

/-- The second query of `resolveReference`, for a reference that passed the other checks. -/
def findReversal (d : Database) (tx reference : WagerTransaction) : ReferenceResolution :=
  if (d.findProcessedReversal reference.id tx.kind).isSome then
    .rejected .referenceAlreadyReversed
  else
    .resolved reference

/-- `resolveReference` where no other call writes between its two queries. -/
def resolveReference (d : Database) (tx : WagerTransaction) :
    Except DomainError ReferenceResolution :=
  (findReference d tx).map fun resolution =>
    match resolution with
    | .resolved reference => findReversal d tx reference
    | resolution => resolution

variable (P : Platform)

def markPendingReference (tx : WagerTransaction) (ctx : EventContext) (eventId : Id) :
    Except DomainError (WagerTransaction × Writes) := do
  let nextRetryAt := ctx.now + computeReferenceBackoffMs tx.referenceRetryAttempts
  let tx ← tx.markPendingReference nextRetryAt
  return (tx,
    { wagerTransactions := [toWagerTransactionEntity P tx]
      outboxMessages := [.enqueue (WagerTransactionPendingReference.from tx ctx eventId)] })

def reject (tx : WagerTransaction) (failureCode : FailureCode) (ctx : EventContext)
    (eventId : Id) : Except DomainError (WagerTransaction × Writes) := do
  let tx ← tx.reject failureCode ctx.now
  return (tx,
    { wagerTransactions := [toWagerTransactionEntity P tx]
      outboxMessages := [.enqueue (WagerTransactionRejected.from tx ctx eventId)] })

def classifyApplyFailure (err : DomainError) (kind : WagerTransactionKind) : Option FailureCode :=
  match err with
  | .insufficientBalance _ _ _ =>
    if kind = .rollback then some .rollbackInsufficientBalance else some .insufficientBalance
  | .currencyMismatch _ _ => some .walletCurrencyMismatch
  | _ => none

def move (wallet : Wallet) (direction : LedgerDirection) (money : Money)
    (ctx : WalletMovementContext) : Except DomainError (Wallet × WalletLedgerEntry) :=
  if direction = .debit then wallet.debit money ctx else wallet.credit money ctx

/-- The rows of a LOSS, which leaves the balance as it is. -/
def lossWrites (tx : WagerTransaction) (wallet : Wallet) (ctx : EventContext) (eventId : Id) :
    Writes where
  wagerTransactions := [toWagerTransactionEntity P tx]
  outboxMessages := [.enqueue (WagerTransactionProcessed.from tx wallet.balance ctx eventId)]

/-- The rows of a movement that left `wallet`. -/
def movementWrites (tx : WagerTransaction) (wallet : Wallet) (entry : WalletLedgerEntry)
    (ctx : EventContext) (newId : Nat → Id) : Writes where
  wallets := [toWalletEntity P wallet]
  wagerTransactions := [toWagerTransactionEntity P tx]
  ledgerEntries := [entry]
  outboxMessages :=
    [.enqueue (WagerTransactionProcessed.from tx wallet.balance ctx (newId 1)),
      .enqueue (WalletBalanceChanged.from wallet entry ctx (newId 2))]

/-- `applyEffect`, which draws up to three ids and returns the wallet it leaves as well. -/
def applyEffect (tx : WagerTransaction) (wallet : Wallet) (reference : Option WagerTransaction)
    (ctx : EventContext) (newId : Nat → Id) :
    Except DomainError (WagerTransaction × Wallet × Writes) :=
  let referenceId := reference.map (·.id)
  if !tx.affectsBalance then do
    -- LOSS: processed without a movement
    let tx ← tx.markProcessed referenceId ctx.now
    return (tx, wallet, lossWrites P tx wallet ctx (newId 1))
  else do
    let direction ← tx.ledgerDirectionFor reference
    match move wallet direction tx.money ⟨tx.id, newId 0, ctx.now⟩ with
    | .error err =>
      -- the catch block; the wallet is as it was read, because the movement threw
      match classifyApplyFailure err tx.kind with
      | none => throw err
      | some failureCode =>
        let (tx, writes) ← reject P tx failureCode ctx (newId 1)
        return (tx, wallet, writes)
    | .ok (wallet, entry) =>
      let tx ← tx.markProcessed referenceId ctx.now
      return (tx, wallet, movementWrites P tx wallet entry ctx newId)

end WagerTransactionFinalizer

end WageringProcessor
