import WageringProcessor.UseCases.Consume
import Mathlib.Tactic.Common

/-!
# Consistent databases

What every committed state satisfies: one condition for each transaction row, one for each wallet,
and the few that relate rows of one table to each other.
-/

namespace WageringProcessor

open Library.Chain

variable (P : Platform)

/-! ## Slices of the tables -/

def EventData.isBalanceChangeOf (walletId : Id) : EventData → Bool
  | .walletBalanceChanged id _ _ _ _ _ _ => id = walletId
  | _ => false

def EventData.balanceAfterOf (walletId : Id) : EventData → Option MoneyProps
  | .walletBalanceChanged id _ _ _ _ balanceAfter _ =>
    if id = walletId then some balanceAfter else none
  | _ => none

namespace Database

variable (d : Database)

def eventData : List EventData := d.outboxMessages.map fun m => m.payload.data

def eventsOf (transactionId : Id) : List EventData :=
  d.eventData.filter fun e => e.transactionId = transactionId

def balanceEventsOf (walletId : Id) : List EventData :=
  d.eventData.filter (·.isBalanceChangeOf walletId)

def isOpening (transactionId : Id) : Bool :=
  d.wagerTransactions.any fun t => t.id = transactionId && t.kind = .opening

end Database

/-- The data of the event about `entry`, at the version that the wallet has after it. -/
def balanceChange (entry : WalletLedgerEntry) (walletVersion : Nat) : EventData :=
  .walletBalanceChanged entry.walletId entry.transactionId entry.direction entry.money.toJSON
    entry.balanceBefore.toJSON entry.balanceAfter.toJSON walletVersion

/-- The balance of a wallet after `events`; zero before its first movement. -/
def lastBalance (walletId : Id) (currency : Currency) (events : List EventData) : MoneyProps :=
  ((events.filterMap (·.balanceAfterOf walletId)).getLast?).getD (Money.zero currency).toJSON

/-! ## Transaction rows -/

/-- The failure codes that a row of this kind and number of attempts may carry. -/
def CodeFits (t : WagerTransaction) : FailureCode → Prop
  | .insufficientBalance => t.kind = .bet
  | .rollbackInsufficientBalance => t.kind = .rollback
  | .walletCurrencyMismatch => t.kind = .bet ∨ t.kind = .win
  | .referenceResolutionTimeout =>
    t.requiresReference = true ∧ t.referenceRetryAttempts = MAX_REFERENCE_RETRY_ATTEMPTS
  | .referenceMismatch | .referenceInvalidKind | .referenceInvalidState
  | .referenceAmountMismatch | .referenceAlreadyReversed => t.requiresReference = true
  | .persistenceFailure => False

structure Waiting (t : WagerTransaction) : Prop where
  status : t.status = .pendingReference
  kind : t.requiresReference = true
  scheduled : t.nextReferenceRetryAt.isSome = true
  attempted : 1 ≤ t.referenceRetryAttempts
  processedAt : t.processedAt = none
  failureCode : t.failureCode = none
  reference : t.referenceTransactionId = none

structure Processed (t : WagerTransaction) : Prop where
  status : t.status = .processed
  processedAt : t.processedAt.isSome = true
  failureCode : t.failureCode = none
  reference : t.referenceTransactionId.isSome = t.requiresReference

structure Rejected (t : WagerTransaction) : Prop where
  status : t.status = .rejected
  processedAt : t.processedAt.isSome = true
  failureCode : ∃ code, t.failureCode = some code ∧ CodeFits t code
  reference : t.referenceTransactionId = none

def Lifecycle (t : WagerTransaction) : Prop := Waiting t ∨ Processed t ∨ Rejected t

/-- The payload that a transaction was submitted with: its columns, except that the text of the
wallet's id is as the caller wrote it. -/
structure PayloadOf (t : CreateWagerTransactionProps) (payload : PayloadHashInput) : Prop where
  providerId : payload.providerId = t.providerId
  externalTransactionId : payload.externalTransactionId = t.externalTransactionId
  playerId : payload.playerId = t.playerId
  walletId : P.uuid payload.walletId = some t.walletId
  roundId : payload.roundId = t.roundId
  gameId : payload.gameId = t.gameId
  kind : payload.kind = t.kind.text
  money : payload.money = t.money.toJSON
  reference : payload.referenceExternalTransactionId = t.referenceExternalTransactionId
  hash : t.payloadHash = computePayloadHash P.sha256 payload

/-- What the columns that never change satisfy. -/
structure Identity (d : Database) (t : CreateWagerTransactionProps) : Prop where
  wallet : P.uuid t.walletId = some t.walletId
  player : P.uuid t.playerId = some t.playerId
  money : 0 ≤ t.money.minorUnits
  owner : ∃ w ∈ d.wallets, w.id = t.walletId ∧ w.playerId = t.playerId
  reference : requiresReferenceFor t.kind = true →
    WagerTransaction.missingReference t.referenceExternalTransactionId = false
  opening : t.kind = .opening → t.payloadHash = "internal"
  submitted : t.kind ≠ .opening → ∃ payload, PayloadOf P t payload

/-- `t` was moved by the entry `e`. -/
structure EntryFor (t : WagerTransaction) (e : WalletLedgerEntry) : Prop where
  transactionId : e.transactionId = t.id
  walletId : e.walletId = t.walletId
  money : e.money = t.money
  debit : t.kind = .bet → e.direction = .debit
  credit : t.kind = .opening ∨ t.kind = .win ∨ t.kind = .refund → e.direction = .credit

/-- `t` reverses `b`, as `resolveReference` requires. -/
structure Reverses (t b : WagerTransaction) : Prop where
  processed : b.status = .processed
  reference : t.referenceExternalTransactionId = some b.externalTransactionId
  providerId : b.providerId = t.providerId
  playerId : b.playerId = t.playerId
  walletId : b.walletId = t.walletId
  roundId : b.roundId = t.roundId
  money : b.money = t.money
  refund : t.kind = .refund → b.kind = .bet
  rollback : t.kind = .rollback → b.kind = .bet ∨ b.kind = .win ∨ b.kind = .refund

/-- The direction of a movement that undoes a transaction of this kind. -/
def undoDirection : WagerTransactionKind → LedgerDirection
  | .bet => .credit
  | _ => .debit

structure Reversal (d : Database) (t b : WagerTransaction) : Prop extends Reverses t b where
  row : b ∈ d.wagerTransactions
  referenceId : t.referenceTransactionId = some b.id
  direction : ∀ e ∈ d.entriesOf t.id, e.direction = undoDirection b.kind

/-- `data` are the members that an event about the row `t` carries. -/
structure Describes (t : CreateWagerTransactionProps) (data : WagerTransactionData) : Prop where
  transactionId : data.transactionId = t.id
  providerId : data.providerId = t.providerId
  externalTransactionId : data.externalTransactionId = t.externalTransactionId
  playerId : P.canonical data.playerId = t.playerId
  walletId : P.canonical data.walletId = t.walletId
  roundId : data.roundId = t.roundId
  gameId : data.gameId = t.gameId
  kind : data.kind = t.kind
  money : data.money = t.money.toJSON

def Parked (t : CreateWagerTransactionProps) (e : EventData) : Prop :=
  ∃ data, Describes P t data ∧
    e = .wagerTransactionPendingReference data t.referenceExternalTransactionId

/-- The events with which the history of a row ends, where `entries` are its ledger entries. -/
inductive Concluded (t : WagerTransaction) (entries : List WalletLedgerEntry) :
    List EventData → Prop
  | waiting (status : t.status = .pendingReference) : Concluded t entries []
  | rejected {data : WagerTransactionData} (status : t.status = .rejected)
      (describes : Describes P t.toCreateWagerTransactionProps data) :
      Concluded t entries [.wagerTransactionRejected data t.failureCode]
  | lost {data : WagerTransactionData} {balance : MoneyProps} (status : t.status = .processed)
      (kind : t.kind = .loss) (describes : Describes P t.toCreateWagerTransactionProps data) :
      Concluded t entries [.wagerTransactionProcessed data balance]
  | moved {data : WagerTransactionData} {e : WalletLedgerEntry} {walletVersion : Nat}
      (status : t.status = .processed) (kind : t.kind ≠ .loss)
      (describes : Describes P t.toCreateWagerTransactionProps data) (entry : entries = [e]) :
      Concluded t entries
        [.wagerTransactionProcessed data e.balanceAfter.toJSON, balanceChange e walletVersion]

/-- The events of a row: one for each attempt that found no reference, then its conclusion. -/
def History (d : Database) (t : WagerTransaction) : Prop :=
  ∃ parked final, d.eventsOf t.id = parked ++ final ∧ parked.length = t.referenceRetryAttempts ∧
    (∀ e ∈ parked, Parked P t.toCreateWagerTransactionProps e) ∧
      Concluded P t (d.entriesOf t.id) final

/-- The row is PROCESSED and moved its wallet. -/
def Moves (t : WagerTransaction) : Prop := t.status = .processed ∧ t.kind ≠ .loss

structure RowOk (d : Database) (t : WagerTransaction) : Prop where
  identity : Identity P d t.toCreateWagerTransactionProps
  lifecycle : Lifecycle t
  attempts : t.referenceRetryAttempts ≤ MAX_REFERENCE_RETRY_ATTEMPTS
  moved : Moves t → ∃ e, d.entriesOf t.id = [e] ∧ EntryFor t e
  unmoved : ¬Moves t → d.entriesOf t.id = []
  reversal : t.status = .processed → t.requiresReference = true → ∃ b, Reversal d t b
  history : History P d t

/-! ## Wallets -/

/-- The versions that the last `n` movements of a wallet left it at. -/
def lastVersions (version n : Nat) : List Nat := List.range' (version + 1 - n) n

structure AccountOk (d : Database) (w : WalletRow) : Prop where
  id : P.uuid w.id = some w.id
  player : P.uuid w.playerId = some w.playerId
  nonneg : 0 ≤ w.balanceAmount
  chain : Linked WalletLedgerEntry.balanceBefore WalletLedgerEntry.balanceAfter
    (Money.zero w.currency) (d.entriesOfWallet w.id) ⟨w.balanceAmount, w.currency⟩
  balanced : ∀ e ∈ d.entriesOfWallet w.id, e.Balanced w.currency
  version : w.version =
    1 + (d.entriesOfWallet w.id).countP fun e => !d.isOpening e.transactionId
  versioned : (d.entriesOfWallet w.id).length ≤ w.version
  events : d.balanceEventsOf w.id = (d.entriesOfWallet w.id).zipWith balanceChange
    (lastVersions w.version (d.entriesOfWallet w.id).length)

/-! ## Outbox and inbox rows -/

/-- The columns of a message repeat its envelope, and a balance change is in its wallet's group. -/
structure EnvelopeOk (m : OutboxMessage) : Prop where
  id : m.id = m.payload.eventId
  aggregateId : m.aggregateId = m.payload.aggregateId
  eventType : m.eventType = m.payload.data.eventType
  occurredAt : m.occurredAt = m.payload.occurredAt
  wallet : ∀ walletId, m.payload.data.isBalanceChangeOf walletId = true → m.aggregateId = walletId

/-- A consumed message: processed, and the command in its body has its transaction. -/
structure InboxOk (d : Database) (m : InboxMessage) : Prop where
  consumer : m.consumerName = CONSUMER_NAME
  processed : m.isProcessed = true
  backed : ∃ cmd, parseWagerTransactionMessage P (P.messageBody m.messageId) = .ok cmd ∧
    ∃ t ∈ d.wagerTransactions, t.idempotencyKey = cmd.idempotencyKey ∧
      t.payloadHash = cmd.payloadHash P

/-! ## The whole database -/

/-- Every LOSS event carries the balance that the events before it left its wallet with. -/
def LossesOk (d : Database) : Prop :=
  ∀ pre post data balance,
    d.eventData = pre ++ .wagerTransactionProcessed data balance :: post → data.kind = .loss →
      ∃ w ∈ d.wallets, w.id = P.canonical data.walletId ∧
        balance = lastBalance w.id w.currency pre

structure Consistent (d : Database) : Prop where
  walletIds : (d.wallets.map WalletRow.id).Nodup
  walletOwners : (d.wallets.map fun w => (w.playerId, w.currency)).Nodup
  transactionIds : (d.wagerTransactions.map (·.id)).Nodup
  idempotencyKeys : (d.wagerTransactions.map (·.idempotencyKey)).Nodup
  externalIds : (d.wagerTransactions.map fun t => (t.providerId, t.externalTransactionId)).Nodup
  outboxIds : (d.outboxMessages.map OutboxMessage.id).Nodup
  envelopes : ∀ m ∈ d.outboxMessages, EnvelopeOk m
  rows : ∀ t ∈ d.wagerTransactions, RowOk P d t
  accounts : ∀ w ∈ d.wallets, AccountOk P d w
  once : ∀ t ∈ d.wagerTransactions, ∀ t' ∈ d.wagerTransactions, t.status = .processed →
    t'.status = .processed → t.requiresReference = true → t.kind = t'.kind →
      t.referenceTransactionId = t'.referenceTransactionId → t = t'
  entries : ∀ e ∈ d.ledgerEntries, ∃ t ∈ d.wagerTransactions, t.id = e.transactionId
  eventRows : ∀ e ∈ d.eventData, ∃ t ∈ d.wagerTransactions, t.id = e.transactionId
  losses : LossesOk P d
  inbox : ∀ m ∈ d.inboxMessages, InboxOk P d m

theorem Consistent.empty : Consistent P .empty := by
  constructor <;> simp [Database.empty, LossesOk, Database.eventData]

end WageringProcessor
