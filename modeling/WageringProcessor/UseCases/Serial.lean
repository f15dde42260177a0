import WageringProcessor.System
import WageringProcessor.UseCases.SubmitAlone
import Mathlib.Logic.Relation

/-!
# The serial system

The use cases as steps on the committed database alone, each one taken whole, and nothing between
two of them.  Apart from that a step decides as the code does.  What the interleaving of the code
adds are `parks`, `misses` and `overlooks`: the call looked for the reference of a reversal, or for
a reversal of that reference, before the database was what its decision is applied to, and found
something else.  So the serial system remembers what its calls have looked for, and on which
database.
-/

namespace WageringProcessor

open Library.Interleaving (Pid)
open WagerTransactionFinalizer Relation

/-! ## What a call looks for -/

/-- What `resolveReference` asks: for the reference of a row, and then for a reversal of it. -/
inductive Query
  | reference (tx : WagerTransaction)
  | reversal (tx : WagerTransaction)
deriving DecidableEq

def Submit.query : SubmitStage → Option Query
  | .findReference _ tx _ => some (.reference tx)
  | .findReversal _ tx _ _ => some (.reversal tx)
  | _ => none

def Consume.query : ConsumeStage → Option Query
  | .submit _ _ _ stage => Submit.query stage
  | _ => none

def Reprocess.query : ReprocessStage → Option Query
  | .item _ (tx :: _) => some (.reference tx)
  | .findReversal _ tx _ _ _ => some (.reversal tx)
  | _ => none

/-- What the next statement of the call looks for. -/
def Proc.query : Proc → Option Query
  | .submit _ stage => Submit.query stage
  | .consume _ stage => Consume.query stage
  | .reprocess _ stage => Reprocess.query stage
  | _ => none

-- `looked q v`: the call has made the query `q` when `v` was committed
variable (P : Platform) (looked : Query → Database → Prop) (d : Database)

/-- No message has one of the ids. -/
def Database.NewMessageIds (ids : List Id) : Prop :=
  ids.Nodup ∧ ∀ m ∈ d.outboxMessages, m.id ∉ ids

/-! ## OpenWalletUseCase -/

namespace OpenWallet

variable (cmd : OpenWalletCommand)

/-- What an opening draws: the clock, the ids of the wallet, of its OPENING and of the correlation
and, as `newId`, those of the entry and of the two events. -/
structure Generated where
  now : Date
  walletId : Id
  transactionId : Id
  newId : Nat → Id

structure Generated.Fresh (g : Generated) : Prop where
  canonical : P.uuid g.walletId = some g.walletId
  wallet : ∀ r ∈ d.wallets, r.id ≠ g.walletId
  row : ∀ t ∈ d.wagerTransactions, t.id ≠ g.transactionId
  messages : d.NewMessageIds [g.newId 2, g.newId 3]

/-- The rows of an opening with a positive balance. -/
def openWith (wallet : Wallet) (tx : WagerTransaction) (g : Generated) :
    Except Exception (Wallet × List Writes) :=
  if (d.findByIdempotencyKey tx.idempotencyKey).isSome ||
      (d.findByProviderAndExternalId tx.providerId tx.externalTransactionId).isSome then
    .error (toThrown cmd .uniqueConstraintViolation)
  else
    match openingEntry cmd (g.newId 0) wallet tx g.now with
    | .error err => .error (.domain err)
    | .ok entry => .ok (wallet, [walletWrites P wallet,
        openingWrites P cmd wallet tx entry ⟨g.newId 1, none, g.now⟩ g.newId])

def execute (g : Generated) : Except Exception (Wallet × List Writes) :=
  let wallet := Wallet.open g.walletId cmd.playerId cmd.initialBalance g.now
  if P.uuid wallet.playerId = none || Database.violatesCheck (walletWrites P wallet) then
    .error .database
  else if playerHasWallet P d wallet then
    .error (toThrown cmd .uniqueConstraintViolation)
  else if cmd.initialBalance.isPositive then
    openWith P d cmd wallet
      (.createOpening g.transactionId wallet.id cmd.playerId cmd.initialBalance g.now) g
  else
    .ok (wallet, [walletWrites P wallet])

end OpenWallet

/-! ## SubmitWagerTransactionUseCase -/

structure Generated.Fresh (g : Generated) : Prop where
  row : ∀ t ∈ d.wagerTransactions, t.id ≠ g.transactionId
  messages : d.NewMessageIds [g.newId 1, g.newId 2]

namespace Submit

variable (cmd : SubmitWagerTransactionCommand)

/-- What a submit answers and writes that lets its reversal wait for a reference that it refuses. -/
def park (g : Generated) : Option (SubmitWagerTransactionResult × List Writes) := do
  let id ← P.uuid cmd.walletId
  let wallet ← d.findWallet id
  let tx ← (WagerTransaction.create (props P cmd g.transactionId g.now)).toOption
  match resolve P d tx with
  | .ok (some (.rejected _)) =>
    (settle P wallet tx (eventContext cmd tx g.correlationId) g.newId (some .pending)).toOption
  | _ => none

/-- What a submit that is no replay answers, and the rows that it writes. -/
inductive Serial (g : Generated) : SubmitWagerTransactionResult → List Writes → Prop
  | decides {result : SubmitWagerTransactionResult} {ws : List Writes}
      (fresh : g.Fresh d) (executes : execute P d cmd g = .ok (result, ws))
      (new : result.idempotentReplay = false) : Serial g result ws
  /-- The reference came, and is refused, after the submit had looked for it. -/
  | parks {rejected result : SubmitWagerTransactionResult} {ws₀ ws : List Writes}
      {tx : WagerTransaction} {v : Database}
      (fresh : g.Fresh d) (executes : execute P d cmd g = .ok (rejected, ws₀))
      (new : rejected.idempotentReplay = false)
      (created : WagerTransaction.create (props P cmd g.transactionId g.now) = .ok tx)
      (asked : looked (.reference tx) v) (unresolved : resolve P v tx = .ok (some .pending))
      (parked : park P d cmd g = some (result, ws)) : Serial g result ws

end Submit

/-! ## ReprocessPendingReferencesUseCase -/

namespace Reprocess

/-- `processOne` for a row of the database. -/
def processOne (tx : WagerTransaction) (ctx : EventContext) (newId : Nat → Id) :
    Except Exception Writes :=
  match resolveReference d tx with
  | .error err => .error (.domain err)
  | .ok .pending => (decide P tx ctx none (newId 1)).mapError .domain
  | .ok (.rejected failureCode) => (decide P tx ctx (some failureCode) (newId 1)).mapError .domain
  | .ok (.resolved reference) =>
    match P.uuid tx.walletId with
    | none => .error .database
    | some id =>
      match d.findWallet id with
      | none => .error (.domain (.walletNotFound tx.walletId))
      | some wallet =>
        ((applyEffect P tx wallet (some reference) ctx newId).map
          fun out => out.2.2).mapError .domain

/-- What a retry of `tx` writes. -/
inductive Serial (tx : WagerTransaction) (ctx : EventContext) : Writes → Prop
  | decides {newId : Nat → Id} {w : Writes} (fresh : d.NewMessageIds [newId 1, newId 2])
      (processed : processOne P d tx ctx newId = .ok w) : Serial tx ctx w
  /-- The reference came, or was settled, after the retry had looked for it. -/
  | misses {eventId : Id} {w : Writes} {v : Database} (fresh : d.NewMessageIds [eventId])
      (asked : looked (.reference tx) v) (unresolved : resolveReference v tx = .ok .pending)
      (resolves : resolveReference d tx ≠ .ok .pending)
      (decided : decide P tx ctx none eventId = .ok w) : Serial tx ctx w
  /-- The reference was reversed after the retry had looked for its reversal, and the balance does
  not cover a second one. -/
  | overlooks {eventId : Id} {w : Writes} {v : Database} (fresh : d.NewMessageIds [eventId])
      (asked : looked (.reversal tx) v)
      (unreversed : resolveReference v tx ≠ .ok (.rejected .referenceAlreadyReversed))
      (resolves : resolveReference d tx = .ok (.rejected .referenceAlreadyReversed))
      (kind : tx.kind = .rollback)
      (decided : decide P tx ctx (some .rollbackInsufficientBalance) eventId = .ok w) :
      Serial tx ctx w

end Reprocess

/-! ## The steps -/

/-- What a publishing run saves of a message, which may have been delivered or not. -/
def PublishOutbox.Attempted (now : Date) (m m' : OutboxMessage) : Prop :=
  ∃ delivered, publishOne m now delivered = .ok m'

/-- A step of a call that has `looked`. -/
inductive SerialStep : Database → Database → Prop
  | opens {d : Database} {cmd : OpenWalletCommand} {g : OpenWallet.Generated} {wallet : Wallet}
      {ws : List Writes} (fresh : g.Fresh P d)
      (executes : OpenWallet.execute P d cmd g = .ok (wallet, ws)) : SerialStep d (d.applyAll ws)
  | submits {d : Database} {cmd : SubmitWagerTransactionCommand} {g : Generated}
      {result : SubmitWagerTransactionResult} {ws : List Writes}
      (submitted : Submit.Serial P looked d cmd g result ws) : SerialStep d (d.applyAll ws)
  /-- A message whose command is new. -/
  | consumes {d : Database} {messageId : String} {now : Date}
      {cmd : SubmitWagerTransactionCommand} {g : Generated}
      {result : SubmitWagerTransactionResult} {ws : List Writes} {row : InboxMessage}
      (first : d.findByConsumerAndMessageId CONSUMER_NAME messageId = none)
      (parsed : parseWagerTransactionMessage P (P.messageBody messageId) = .ok cmd)
      (submitted : Submit.Serial P looked d cmd g result ws)
      (marked : (Consume.receive P messageId now).markProcessed now = .ok row) :
      SerialStep d ((d.applyAll ws).apply { inboxMessages := [row] })
  /-- A message whose command was submitted before. -/
  | replays {d : Database} {messageId : String} {now : Date}
      {cmd : SubmitWagerTransactionCommand} {byKey : WagerTransaction} {row : InboxMessage}
      (first : d.findByConsumerAndMessageId CONSUMER_NAME messageId = none)
      (parsed : parseWagerTransactionMessage P (P.messageBody messageId) = .ok cmd)
      (found : d.findByIdempotencyKey cmd.idempotencyKey = some byKey)
      (same : byKey.matchesPayload (cmd.payloadHash P) = true)
      (marked : (Consume.receive P messageId now).markProcessed now = .ok row) :
      SerialStep d (d.apply { inboxMessages := [row] })
  | retries {d : Database} {tx : WagerTransaction} {ctx : EventContext} {w : Writes}
      (row : tx ∈ d.wagerTransactions) (due : Database.duePendingReference ctx.now tx = true)
      (retried : Reprocess.Serial P looked d tx ctx w) : SerialStep d (d.apply w)
  | publishes {d : Database} {now : Date} {batch saved : List OutboxMessage}
      (rows : ∀ m ∈ batch, m ∈ d.outboxMessages) (due : ∀ m ∈ batch, m.isDue now = true)
      (nodup : (batch.map OutboxMessage.id).Nodup)
      (attempted : List.Forall₂ (PublishOutbox.Attempted now) batch saved) :
      SerialStep d (d.apply { outboxMessages := saved })

/-! ## The system -/

inductive SerialEvent
  | looks (caller : Pid) (query : Query) (committed : Database)
  | commits (caller : Pid) (committed : Database)

def Looked (history : List SerialEvent) (i : Pid) (query : Query) (v : Database) : Prop :=
  .looks i query v ∈ history

end WageringProcessor
