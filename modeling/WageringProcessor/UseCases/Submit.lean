import WageringProcessor.UseCases.Shared
import WageringProcessor.Wagering.ParseMessage

/-!
# SubmitWagerTransactionUseCase

`submit-wager-transaction.use-case.ts`, one stage for each statement sent to the database.  `step`
covers `execute` except for the end of its database transaction: a direct call commits, a call
nested in the queue consumer releases its savepoint.
-/

namespace WageringProcessor

open Library.Interleaving (Pid)

structure SubmitWagerTransactionResult where
  transaction : WagerTransaction
  idempotentReplay : Bool
  balance : Money
deriving DecidableEq, Repr

inductive SubmitStage
  | begin
  | lockWallet (now : Date)
  | claimKey (wallet : Wallet) (tx : WagerTransaction)
  | claimExternal (wallet : Wallet) (tx : WagerTransaction)
  | findReference (wallet : Wallet) (tx : WagerTransaction) (ctx : EventContext)
  | findReversal (wallet : Wallet) (tx : WagerTransaction) (ctx : EventContext)
      (reference : WagerTransaction)
  | finalize (wallet : Wallet) (tx : WagerTransaction) (ctx : EventContext)
      (resolution : Option ReferenceResolution)
  | commit (writes : List Writes) (result : SubmitWagerTransactionResult)
  | findByKey
  | findWallet (byKey : WagerTransaction)
  | findByExternal
  | returned (result : SubmitWagerTransactionResult)
  | threw (err : Exception)
deriving DecidableEq, Repr

namespace Submit

open WagerTransactionFinalizer

variable (P : Platform) (cmd : SubmitWagerTransactionCommand) (i : Pid)

def props (id : Id) (now : Date) : CreateWagerTransactionProps where
  id := id
  providerId := cmd.providerId
  externalTransactionId := cmd.externalTransactionId
  idempotencyKey := cmd.idempotencyKey
  payloadHash := cmd.payloadHash P
  walletId := cmd.walletId
  playerId := cmd.playerId
  roundId := cmd.roundId
  gameId := cmd.gameId
  kind := cmd.kind
  money := cmd.money
  referenceExternalTransactionId := cmd.referenceExternalTransactionId
  createdAt := now

/-- The row that `claim` inserts. -/
def claimWrites (tx : WagerTransaction) : Writes :=
  { wagerTransactions := [toWagerTransactionEntity P tx] }

/-- The `INSERT` of the claim violated a unique index, or the wallet does not accept the call: the
transaction, or its savepoint, is rolled back. -/
def abort (s : Shared) (stage : SubmitStage) : Shared × SubmitStage :=
  (s.giveBack i Resource.ofSubmit, stage)

/-- `processNew` from the resolution on; `none` is a kind that needs no reference. -/
def decide (wallet : Wallet) (tx : WagerTransaction) (ctx : EventContext)
    (resolution : Option ReferenceResolution) (newId : Nat → Id) :
    Except DomainError (WagerTransaction × Wallet × Writes) :=
  match resolution with
  | some .pending => do
    let (tx, writes) ← markPendingReference P tx ctx (newId 1)
    return (tx, wallet, writes)
  | some (.rejected failureCode) => do
    let (tx, writes) ← reject P tx failureCode ctx (newId 1)
    return (tx, wallet, writes)
  | some (.resolved reference) => applyEffect P tx wallet (some reference) ctx newId
  | none => applyEffect P tx wallet none ctx newId

def openingNotAccepted : DomainError :=
  .invariantViolation "WagerTransactionKind.OPENING não pode ser submetido externamente"

def externalConflict : String :=
  "providerId/externalTransactionId já registrado sob outra Idempotency-Key"

def unresolvedConflict : String :=
  "Não foi possível resolver um conflito de unique constraint ao submeter a transação; " ++
    "tente de novo com a mesma Idempotency-Key"

def step (inp : Input) (s : Shared) : SubmitStage → Option (Shared × SubmitStage)
  -- `execute` before its database transaction
  | .begin =>
    if cmd.kind = .opening then some (s, .threw (.domain openingNotAccepted))
    else some (s, .lockWallet inp.now)
  -- the wallet is locked before the row is claimed; the other order deadlocks in the database
  | .lockWallet now => do
    match ← s.lockWallet i P [] cmd.walletId with
    | (s, .error err) => return abort i s (.threw err)
    | (s, .ok none) => return abort i s (.threw (.domain (.walletNotFound cmd.walletId)))
    | (s, .ok (some wallet)) =>
      if wallet.playerId ≠ cmd.playerId then
        return abort i s (.threw (.domain (.walletPlayerMismatch cmd.walletId cmd.playerId)))
      else
        let s ← s.draw i P [inp.newId 0]
        match WagerTransaction.create (props P cmd (inp.newId 0) now) with
        | .error err => return abort i s (.threw (.domain err))
        | .ok tx => return (s, .claimKey wallet tx)
  -- `claim` sends the row; each unique index waits for a transaction that has inserted its key
  | .claimKey wallet tx =>
    if Database.violatesCheck (claimWrites P tx) then some (abort i s (.threw .database))
    else do
      let s ← s.take i [.idempotencyKey tx.idempotencyKey]
      if (s.db.findByIdempotencyKey tx.idempotencyKey).isSome then
        return abort i s .findByKey
      else
        return (s, .claimExternal wallet tx)
  | .claimExternal wallet tx => do
    let s ← s.take i [.external tx.providerId tx.externalTransactionId]
    if (s.db.findByProviderAndExternalId tx.providerId tx.externalTransactionId).isSome then
      return abort i s .findByKey
    else
      let s ← s.draw i P [inp.newId 0]
      let ctx := ⟨cmd.correlationId.getD (inp.newId 0), cmd.causationId, tx.createdAt⟩
      if tx.requiresReference then return (s, .findReference wallet tx ctx)
      else return (s, .finalize wallet tx ctx none)
  -- the claim is not committed, so only this call sees it
  | .findReference wallet tx ctx =>
    match findReference (s.db.apply (claimWrites P tx)) tx with
    | .error err => some (abort i s (.threw (.domain err)))
    | .ok (.resolved reference) => some (s, .findReversal wallet tx ctx reference)
    | .ok resolution => some (s, .finalize wallet tx ctx (some resolution))
  | .findReversal wallet tx ctx reference =>
    some (s, .finalize wallet tx ctx
      (some (findReversal (s.db.apply (claimWrites P tx)) tx reference)))
  -- the flush that ends the callback, where the index on reversals may still refuse the row
  | .finalize wallet tx ctx resolution => do
    let s ← s.draw i P [inp.newId 0, inp.newId 1, inp.newId 2]
    match decide P wallet tx ctx resolution inp.newId with
    | .error err => return abort i s (.threw (.domain err))
    | .ok (tx', wallet', writes) =>
      match (s.db.apply (claimWrites P tx)).flush writes with
      | .error .uniqueConstraintViolation => return abort i s .findByKey
      | .error err => return abort i s (.threw err)
      | .ok () => return (s, .commit [claimWrites P tx, writes] ⟨tx', false, wallet'.balance⟩)
  -- `handleClaimConflict`, on a fork with a connection of its own
  | .findByKey =>
    match s.db.findByIdempotencyKey cmd.idempotencyKey with
    | none => some (s, .findByExternal)
    | some byKey =>
      if byKey.matchesPayload (cmd.payloadHash P) then some (s, .findWallet byKey)
      else some (s, .threw (.domain (.idempotencyConflict cmd.idempotencyKey none)))
  | .findWallet byKey =>
    some (s, .returned
      ⟨byKey, true, ((s.db.findWallet byKey.walletId).map Wallet.balance).getD cmd.money⟩)
  | .findByExternal =>
    match s.db.findByProviderAndExternalId cmd.providerId cmd.externalTransactionId with
    | some _ => some (s, .threw (.domain
        (.idempotencyConflict cmd.idempotencyKey (some externalConflict))))
    | none => some (s, .threw (.domain (.transientProcessing unresolvedConflict)))
  -- left to the caller of `step`
  | .commit _ _ => none
  | .returned _ => none
  | .threw _ => none

end Submit

end WageringProcessor
