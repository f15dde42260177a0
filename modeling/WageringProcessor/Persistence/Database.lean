import WageringProcessor.Library.JsonText
import WageringProcessor.Library.Table
import WageringProcessor.Messaging.Domain

/-!
# The tables, the repositories and the constraints

The five tables of the migrations, each as the list of its rows in the order of their insertion.
`Writes` are the rows that one database transaction inserts or updates, `Database.apply` is their
effect and `flush` the constraints and triggers that may refuse them.  A `uuid` column stores the
canonical text of the uuid it is given.  Every text and number fits its column.
-/

namespace WageringProcessor

open Library.JsonText (Json)
open Library.Table

/-- What the code uses of its platform: the digest, the `uuid` type of the database, `JSON.parse`,
and the queue, in which a `messageId` stands for one body. -/
structure Platform where
  sha256 : String → String
  sha256_ne_internal : ∀ s, sha256 s ≠ "internal"
  uuid : String → Option Id
  uuid_canonical : ∀ {s c : String}, uuid s = some c → uuid c = some c
  jsonParse : String → Option Json
  messageBody : String → String

namespace Platform

variable (P : Platform)

def canonical (s : String) : Id := (P.uuid s).getD s

def isCanonical (s : String) : Bool := P.uuid s = some s

variable {P}

theorem canonical_of_uuid {s c : String} (h : P.uuid s = some c) : P.canonical s = c := by
  simp [canonical, h]

theorem isCanonical_iff {s : String} : P.isCanonical s = true ↔ P.uuid s = some s := by
  simp [isCanonical]

end Platform

/-! ## Rows and mappers -/

structure WalletRow where
  id : Id
  playerId : Id
  currency : Currency
  balanceAmount : Int
  version : Nat
  createdAt : Date
  updatedAt : Date
deriving DecidableEq, Repr

def toWalletDomain (row : WalletRow) : Wallet :=
  ⟨row.id, row.playerId, row.currency, ⟨row.balanceAmount, row.currency⟩, row.version,
    row.createdAt, row.updatedAt⟩

@[simp] theorem toWalletDomain_id (row : WalletRow) : (toWalletDomain row).id = row.id := rfl

@[simp] theorem toWalletDomain_currency (row : WalletRow) :
    (toWalletDomain row).currency = row.currency := rfl

@[simp] theorem toWalletDomain_balance (row : WalletRow) :
    (toWalletDomain row).balance = ⟨row.balanceAmount, row.currency⟩ := rfl

def toWalletEntity (P : Platform) (wallet : Wallet) : WalletRow :=
  ⟨wallet.id, P.canonical wallet.playerId, wallet.currency, wallet.balance.minorUnits,
    wallet.version, wallet.createdAt, wallet.updatedAt⟩

/-- The row of a transaction has its fields; its own id is drawn in canonical form. -/
def toWagerTransactionEntity (P : Platform) (tx : WagerTransaction) : WagerTransaction :=
  { tx with walletId := P.canonical tx.walletId, playerId := P.canonical tx.playerId }

structure Database where
  wallets : List WalletRow
  wagerTransactions : List WagerTransaction
  ledgerEntries : List WalletLedgerEntry
  outboxMessages : List OutboxMessage
  inboxMessages : List InboxMessage
deriving DecidableEq, Repr

def Database.empty : Database := ⟨[], [], [], [], []⟩

structure Writes where
  wallets : List WalletRow := []
  wagerTransactions : List WagerTransaction := []
  ledgerEntries : List WalletLedgerEntry := []
  outboxMessages : List OutboxMessage := []
  inboxMessages : List InboxMessage := []
deriving DecidableEq, Repr

namespace Database

def apply (d : Database) (w : Writes) : Database where
  wallets := upsertAll WalletRow.id d.wallets w.wallets
  wagerTransactions := upsertAll (·.id) d.wagerTransactions w.wagerTransactions
  ledgerEntries := d.ledgerEntries ++ w.ledgerEntries
  outboxMessages := upsertAll OutboxMessage.id d.outboxMessages w.outboxMessages
  inboxMessages := upsertAll InboxMessage.key d.inboxMessages w.inboxMessages

def applyAll (d : Database) (ws : List Writes) : Database := ws.foldl apply d

variable (d : Database)

/-! ## Repository queries -/

def walletRow (id : Id) : Option WalletRow := lookup WalletRow.id id d.wallets

/-- `WalletRepository.findById`. -/
def findWallet (id : Id) : Option Wallet := (d.walletRow id).map toWalletDomain

def findWagerTransaction (id : Id) : Option WagerTransaction :=
  lookup (·.id) id d.wagerTransactions

def findByIdempotencyKey (idempotencyKey : String) : Option WagerTransaction :=
  lookup (·.idempotencyKey) idempotencyKey d.wagerTransactions

def findByProviderAndExternalId (providerId externalTransactionId : String) :
    Option WagerTransaction :=
  lookup (fun t => (t.providerId, t.externalTransactionId)) (providerId, externalTransactionId)
    d.wagerTransactions

def findProcessedReversal (referenceTransactionId : Id) (kind : WagerTransactionKind) :
    Option WagerTransaction :=
  d.wagerTransactions.find? fun t =>
    t.referenceTransactionId = some referenceTransactionId && t.kind = kind &&
      t.status = .processed

/-- The rows that `findDuePendingReferenceBatch` selects from. -/
def duePendingReference (now : Date) (t : WagerTransaction) : Bool :=
  t.status = .pendingReference && t.nextReferenceRetryAt.all (· ≤ now)

def findOutboxMessage (id : Id) : Option OutboxMessage :=
  lookup OutboxMessage.id id d.outboxMessages

def findByConsumerAndMessageId (consumerName messageId : String) : Option InboxMessage :=
  lookup InboxMessage.key (consumerName, messageId) d.inboxMessages

def entriesOfWallet (walletId : Id) : List WalletLedgerEntry :=
  d.ledgerEntries.filter fun e => e.walletId = walletId

def entriesOf (transactionId : Id) : List WalletLedgerEntry :=
  d.ledgerEntries.filter fun e => e.transactionId = transactionId

structure RecalculatedBalance where
  balance : Money
  checkedEntries : Nat

def recalculateBalance (walletId : Id) (currency : Currency) : RecalculatedBalance where
  balance := ⟨(d.entriesOfWallet walletId).foldl (fun total e => total +
    if e.direction = .debit then -e.money.minorUnits else e.money.minorUnits) 0, currency⟩
  checkedEntries := (d.entriesOfWallet walletId).length

def events : List IntegrationEvent := d.outboxMessages.map OutboxMessage.payload

/-! ## Constraints and triggers -/

/-- The CHECK constraints on amounts. -/
def violatesCheck (w : Writes) : Bool :=
  w.wallets.any (fun row => row.balanceAmount < 0) ||
    w.wagerTransactions.any (fun t => t.money.minorUnits < 0) ||
      w.ledgerEntries.any fun e => e.money.minorUnits ≤ 0 || e.balanceBefore.minorUnits < 0 ||
        e.balanceAfter.minorUnits < 0

/-- `wager_transactions_terminal_immutable` and `outbox_messages_envelope_immutable`. -/
def violatesTrigger (w : Writes) : Bool :=
  w.wagerTransactions.any (fun t =>
      (d.findWagerTransaction t.id).any fun old => old.isTerminal && old ≠ t) ||
    w.outboxMessages.any fun m => (d.findOutboxMessage m.id).any fun old =>
      old.publishedAt.isSome || old.aggregateId ≠ m.aggregateId || old.eventType ≠ m.eventType ||
        old.payload ≠ m.payload || old.occurredAt ≠ m.occurredAt

/-- `wager_transactions_reference_once_idx`: unique `(reference_transaction_id, kind)` among the
PROCESSED reversals. -/
def violatesReferenceOnce (t : WagerTransaction) : Bool :=
  t.status = .processed && requiresReferenceFor t.kind && t.referenceTransactionId.isSome &&
    d.wagerTransactions.any fun other => other.id ≠ t.id && other.status = .processed &&
      other.kind = t.kind && other.referenceTransactionId = t.referenceTransactionId

/-- `wallet_ledger_entries_transaction_unique`. -/
def violatesEntryOnce (e : WalletLedgerEntry) : Bool :=
  d.ledgerEntries.any fun other => other.transactionId = e.transactionId

end Database

/-- What a call throws: an error of the domain, the violation of a unique index, another error of
the driver or the database, or an `InvalidWagerTransactionMessageError`. -/
inductive Exception
  | domain (error : DomainError)
  | uniqueConstraintViolation
  | database
  | invalidWagerTransactionMessage (reason : String)
deriving DecidableEq, Repr

/-- Sends the writes to the database, which sees `d`.  The unique indexes on the keys of a claim are
checked where the claim waits for them. -/
def Database.flush (d : Database) (w : Writes) : Except Exception Unit :=
  if Database.violatesCheck w || d.violatesTrigger w then
    .error .database
  else if w.wagerTransactions.any d.violatesReferenceOnce ||
      w.ledgerEntries.any d.violatesEntryOnce then
    .error .uniqueConstraintViolation
  else
    .ok ()

end WageringProcessor
