import WageringProcessor.Wallets.Domain
import WageringProcessor.Wagering.Domain

/-!
# Integration events, outbox and inbox messages

`integration-event.ts`, the four concrete events, `outbox-message.ts` and `inbox-message.ts`.  The
payload of an outbox message is the envelope itself; its text is a function of it.
-/

namespace WageringProcessor

structure EventContext where
  correlationId : String
  causationId : Option String
  now : Date
deriving DecidableEq, Repr

/-- The members that the three transaction events share. -/
structure WagerTransactionData where
  transactionId : Id
  providerId : String
  externalTransactionId : String
  playerId : Id
  walletId : Id
  roundId : String
  gameId : String
  kind : WagerTransactionKind
  money : MoneyProps
deriving DecidableEq, Repr

/-- `none` in a member that the source asserts with `!` is its `undefined`. -/
inductive EventData
  | wagerTransactionProcessed (tx : WagerTransactionData) (balanceAfter : MoneyProps)
  | wagerTransactionRejected (tx : WagerTransactionData) (failureCode : Option FailureCode)
  | wagerTransactionPendingReference (tx : WagerTransactionData)
      (referenceExternalTransactionId : Option String)
  | walletBalanceChanged (walletId transactionId : Id) (direction : LedgerDirection)
      (money balanceBefore balanceAfter : MoneyProps) (walletVersion : Nat)
deriving DecidableEq, Repr

namespace EventData

def eventType : EventData → String
  | wagerTransactionProcessed _ _ => "WagerTransactionProcessed"
  | wagerTransactionRejected _ _ => "WagerTransactionRejected"
  | wagerTransactionPendingReference _ _ => "WagerTransactionPendingReference"
  | walletBalanceChanged _ _ _ _ _ _ _ => "WalletBalanceChanged"

def transactionId : EventData → Id
  | wagerTransactionProcessed tx _ | wagerTransactionRejected tx _
  | wagerTransactionPendingReference tx _ => tx.transactionId
  | walletBalanceChanged _ transactionId _ _ _ _ _ => transactionId

end EventData

structure IntegrationEvent where
  eventId : Id
  aggregateId : String
  correlationId : String
  causationId : Option String
  occurredAt : Date
  data : EventData
deriving DecidableEq, Repr

def IntegrationEvent.version (_ : IntegrationEvent) : Nat := 1

def WagerTransactionData.of (tx : WagerTransaction) : WagerTransactionData where
  transactionId := tx.id
  providerId := tx.providerId
  externalTransactionId := tx.externalTransactionId
  playerId := tx.playerId
  walletId := tx.walletId
  roundId := tx.roundId
  gameId := tx.gameId
  kind := tx.kind
  money := tx.money.toJSON

/-- The envelope around `data`: one definition for the four `from` factories. -/
def IntegrationEvent.from (eventId : Id) (aggregateId : String) (ctx : EventContext)
    (data : EventData) : IntegrationEvent :=
  ⟨eventId, aggregateId, ctx.correlationId, ctx.causationId, ctx.now, data⟩

def WagerTransactionProcessed.from (tx : WagerTransaction) (balanceAfter : Money)
    (ctx : EventContext) (eventId : Id) : IntegrationEvent :=
  .from eventId tx.walletId ctx (.wagerTransactionProcessed (.of tx) balanceAfter.toJSON)

def WagerTransactionRejected.from (tx : WagerTransaction) (ctx : EventContext) (eventId : Id) :
    IntegrationEvent :=
  .from eventId tx.walletId ctx
    (.wagerTransactionRejected (.of tx) tx.failureCode)

def WagerTransactionPendingReference.from (tx : WagerTransaction) (ctx : EventContext)
    (eventId : Id) : IntegrationEvent :=
  .from eventId tx.walletId ctx
    (.wagerTransactionPendingReference (.of tx) tx.referenceExternalTransactionId)

def WalletBalanceChanged.data (wallet : Wallet) (entry : WalletLedgerEntry) : EventData :=
  .walletBalanceChanged wallet.id entry.transactionId entry.direction entry.money.toJSON
    entry.balanceBefore.toJSON entry.balanceAfter.toJSON wallet.version

def WalletBalanceChanged.from (wallet : Wallet) (entry : WalletLedgerEntry) (ctx : EventContext)
    (eventId : Id) : IntegrationEvent :=
  .from eventId wallet.id ctx (WalletBalanceChanged.data wallet entry)

/-! ## Outbox message -/

structure OutboxMessage where
  id : Id
  aggregateId : String
  eventType : String
  payload : IntegrationEvent
  occurredAt : Date
  attempts : Nat
  nextAttemptAt : Option Date
  publishedAt : Option Date
deriving DecidableEq, Repr

namespace OutboxMessage

def computeBackoffMs (attempts : Nat) : Nat :=
  min (1000 * 2 ^ (attempts - 1)) 60000

def enqueue (event : IntegrationEvent) : OutboxMessage where
  id := event.eventId
  aggregateId := event.aggregateId
  eventType := event.data.eventType
  payload := event
  occurredAt := event.occurredAt
  attempts := 0
  nextAttemptAt := none
  publishedAt := none

def isPending (m : OutboxMessage) : Bool := m.publishedAt.isNone

def isDue (m : OutboxMessage) (now : Date) : Bool :=
  m.isPending && m.nextAttemptAt.all (· ≤ now)

def markPublished (m : OutboxMessage) (at_ : Date) : Except DomainError OutboxMessage :=
  if !m.isPending then
    .error (.invariantViolation "OutboxMessage já foi publicada, não pode publicar de novo")
  else
    .ok { m with publishedAt := some at_ }

def scheduleRetry (m : OutboxMessage) (now : Date) : Except DomainError OutboxMessage :=
  if !m.isPending then
    .error (.invariantViolation "OutboxMessage já foi publicada, não precisa de retry")
  else
    .ok { m with
      attempts := m.attempts + 1
      nextAttemptAt := some (now + computeBackoffMs (m.attempts + 1)) }

/-- The part of a message that publishing never changes. -/
def SameEnvelope (m m' : OutboxMessage) : Prop :=
  m'.id = m.id ∧ m'.aggregateId = m.aggregateId ∧ m'.eventType = m.eventType ∧
    m'.payload = m.payload ∧ m'.occurredAt = m.occurredAt

theorem SameEnvelope.refl (m : OutboxMessage) : SameEnvelope m m := ⟨rfl, rfl, rfl, rfl, rfl⟩

theorem computeBackoffMs_pos (attempts : Nat) : 0 < computeBackoffMs attempts := by
  have hpow := Nat.two_pow_pos (attempts - 1)
  unfold computeBackoffMs
  omega

theorem markPublished_eq {m : OutboxMessage} (h : m.publishedAt = none) (at_ : Date) :
    m.markPublished at_ = .ok { m with publishedAt := some at_ } := by
  simp [markPublished, isPending, h]

theorem scheduleRetry_eq {m : OutboxMessage} (h : m.publishedAt = none) (now : Date) :
    m.scheduleRetry now = .ok { m with
      attempts := m.attempts + 1
      nextAttemptAt := some (now + computeBackoffMs (m.attempts + 1)) } := by
  simp [scheduleRetry, isPending, h]

theorem not_pending_iff {m : OutboxMessage} :
    m.isPending = false ↔ m.publishedAt.isSome = true := by
  unfold isPending
  cases m.publishedAt <;> simp

theorem isDue_iff {m : OutboxMessage} {now : Date} : m.isDue now = true ↔
    m.publishedAt = none ∧ ∀ at_ ∈ m.nextAttemptAt, at_ ≤ now := by
  simp [isDue, isPending, Option.all_eq_true]

end OutboxMessage

/-! ## Inbox message -/

structure InboxMessage where
  consumerName : String
  messageId : String
  payloadHash : String
  receivedAt : Date
  processedAt : Option Date
deriving DecidableEq, Repr

namespace InboxMessage

def receive (consumerName messageId payloadHash : String) (receivedAt : Date) : InboxMessage :=
  ⟨consumerName, messageId, payloadHash, receivedAt, none⟩

def isProcessed (m : InboxMessage) : Bool := m.processedAt.isSome

def markProcessed (m : InboxMessage) (at_ : Date) : Except DomainError InboxMessage :=
  if m.isProcessed then
    .error (.invariantViolation
      "InboxMessage já foi marcada como processada, não pode marcar de novo")
  else
    .ok { m with processedAt := some at_ }

/-- The primary key. -/
def key (m : InboxMessage) : String × String := (m.consumerName, m.messageId)

end InboxMessage

end WageringProcessor
