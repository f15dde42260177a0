import WageringProcessor.UseCases.Submit

/-!
# A submit that nothing interleaves with

`execute` as one function of the database that it finds, with what it draws as an argument.  The
constraints are not among its errors: they refuse nothing that a call alone writes.
-/

namespace WageringProcessor

/-- What a call draws: the clock, and the ids of its row, of its correlation and, as `newId`, of its
entry and its two events. -/
structure Generated where
  now : Date
  transactionId : Id
  correlationId : Id
  newId : Nat → Id

def Generated.ids (g : Generated) : List Id :=
  [g.transactionId, g.correlationId, g.newId 0, g.newId 1, g.newId 2]

namespace Submit

open WagerTransactionFinalizer

/-- What the caller gets, with the rows that are committed by then. -/
abbrev Answer := Except Exception (SubmitWagerTransactionResult × List Writes)

def committed : Answer → List Writes
  | .ok (_, writes) => writes
  | .error _ => []

variable (P : Platform) (d : Database) (cmd : SubmitWagerTransactionCommand)

def eventContext (tx : WagerTransaction) (correlationId : Id) : EventContext :=
  ⟨cmd.correlationId.getD correlationId, cmd.causationId, tx.createdAt⟩

def replay (byKey : WagerTransaction) : Answer :=
  .ok (⟨byKey, true, ((d.findWallet byKey.walletId).map Wallet.balance).getD cmd.money⟩, [])

def externalTaken : Answer :=
  match d.findByProviderAndExternalId cmd.providerId cmd.externalTransactionId with
  | some _ => .error (.domain (.idempotencyConflict cmd.idempotencyKey (some externalConflict)))
  | none => .error (.domain (.transientProcessing unresolvedConflict))

def handleClaimConflict : Answer :=
  match d.findByIdempotencyKey cmd.idempotencyKey with
  | some byKey =>
    if byKey.matchesPayload (cmd.payloadHash P) then replay d cmd byKey
    else .error (.domain (.idempotencyConflict cmd.idempotencyKey none))
  | none => externalTaken d cmd

/-- `processNew` once the reference is resolved. -/
def settle (wallet : Wallet) (tx : WagerTransaction) (ctx : EventContext) (newId : Nat → Id)
    (resolution : Option ReferenceResolution) : Answer :=
  match decide P wallet tx ctx resolution newId with
  | .error err => .error (.domain err)
  | .ok (tx', wallet', writes) =>
    .ok (⟨tx', false, wallet'.balance⟩, [claimWrites P tx, writes])

/-- What `processNew` finds for the reference, if the kind needs one. -/
def resolve (tx : WagerTransaction) : Except DomainError (Option ReferenceResolution) :=
  if tx.requiresReference then
    (resolveReference (d.apply (claimWrites P tx)) tx).map some
  else
    .ok none

/-- `processNew` once the claim is inserted. -/
def resolveAndSettle (wallet : Wallet) (tx : WagerTransaction) (ctx : EventContext)
    (newId : Nat → Id) : Answer :=
  match resolve P d tx with
  | .error err => .error (.domain err)
  | .ok resolution => settle P wallet tx ctx newId resolution

/-- `processNew` from its claim on. -/
def claim (wallet : Wallet) (tx : WagerTransaction) (g : Generated) : Answer :=
  if Database.violatesCheck (claimWrites P tx) then
    .error .database
  else if (d.findByIdempotencyKey tx.idempotencyKey).isSome ||
      (d.findByProviderAndExternalId tx.providerId tx.externalTransactionId).isSome then
    handleClaimConflict P d cmd
  else
    resolveAndSettle P d wallet tx (eventContext cmd tx g.correlationId) g.newId

/-- `processNew` with the wallet that it has locked. -/
def processNew (wallet : Wallet) (g : Generated) : Answer :=
  if wallet.playerId ≠ cmd.playerId then
    .error (.domain (.walletPlayerMismatch cmd.walletId cmd.playerId))
  else
    match WagerTransaction.create (props P cmd g.transactionId g.now) with
    | .error err => .error (.domain err)
    | .ok tx => claim P d cmd wallet tx g

def execute (g : Generated) : Answer :=
  if cmd.kind = .opening then
    .error (.domain openingNotAccepted)
  else
    match P.uuid cmd.walletId with
    | none => .error .database
    | some id =>
      match d.findWallet id with
      | none => .error (.domain (.walletNotFound cmd.walletId))
      | some wallet => processNew P d cmd wallet g

end Submit

end WageringProcessor
