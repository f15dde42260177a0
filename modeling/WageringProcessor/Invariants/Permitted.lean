import WageringProcessor.Invariants.Consistent

/-!
# What a call may write

`own` are the resources that a call holds.  A change is permitted when the call holds what the
change depends on: the wallet it moves, the row it settles or the keys of the row it claims, the
reference it undoes being PROCESSED and not undone yet in that wallet.  `PermittedSeq` is a sequence
of changes, each permitted in the state that the ones before it leave.
-/

namespace WageringProcessor

variable (P : Platform) (own : Resource → Prop) (d : Database)

/-! ## The row that a settlement starts from -/

/-- `tx` was created for a row that only this call can insert. -/
structure Claimed (tx : WagerTransaction) : Prop where
  ownsId : own (.uuid tx.id)
  ownsKey : own (.idempotencyKey tx.idempotencyKey)
  ownsExternal : own (.external tx.providerId tx.externalTransactionId)
  newId : ∀ t ∈ d.wagerTransactions, t.id ≠ tx.id
  newKey : ∀ t ∈ d.wagerTransactions, t.idempotencyKey ≠ tx.idempotencyKey
  newExternal : ∀ t ∈ d.wagerTransactions,
    (t.providerId, t.externalTransactionId) ≠ (tx.providerId, tx.externalTransactionId)
  identity : Identity P d (toWagerTransactionEntity P tx).toCreateWagerTransactionProps
  kind : tx.kind ≠ .opening
  created : tx = ⟨tx.toCreateWagerTransactionProps, .pending, none, none, none, 0, none⟩

/-- `tx` is a waiting row that this call has locked. -/
structure LockedRow (tx : WagerTransaction) : Prop where
  owns : own (.transaction tx.id)
  row : tx ∈ d.wagerTransactions
  status : tx.status = .pendingReference

inductive Subject (tx : WagerTransaction) : Prop
  | claimed (h : Claimed P own d tx)
  | locked (h : LockedRow own d tx)

/-! ## Changes -/

def Writes.data (w : Writes) : List EventData := w.outboxMessages.map fun m => m.payload.data

structure NewMessages (ms : List OutboxMessage) : Prop where
  owns : ∀ m ∈ ms, own (.uuid m.id)
  fresh : ∀ m ∈ ms, ∀ m' ∈ d.outboxMessages, m'.id ≠ m.id
  nodup : (ms.map OutboxMessage.id).Nodup
  envelopes : ∀ m ∈ ms, EnvelopeOk m
  pending : ∀ m ∈ ms, m.publishedAt = none

/-- What every settlement of `tx` as the row `t` writes. -/
structure Settles (tx t : WagerTransaction) (w : Writes) : Prop where
  subject : Subject P own d tx
  row : w.wagerTransactions = [t]
  identity : t.toCreateWagerTransactionProps =
    (toWagerTransactionEntity P tx).toCreateWagerTransactionProps
  messages : NewMessages own d w.outboxMessages
  inbox : w.inboxMessages = []

/-- The movement `e` takes the wallet from `w₀` to `w₁`. -/
structure MovedRow (w₀ w₁ : WalletRow) (e : WalletLedgerEntry) : Prop where
  id : w₁.id = w₀.id
  playerId : w₁.playerId = w₀.playerId
  currency : w₁.currency = w₀.currency
  version : w₁.version = w₀.version + 1
  walletId : e.walletId = w₀.id
  before : e.balanceBefore = ⟨w₀.balanceAmount, w₀.currency⟩
  after : e.balanceAfter = ⟨w₁.balanceAmount, w₀.currency⟩
  balanced : e.Balanced w₀.currency

/-- `t` undoes the row `b`, which nothing in its wallet has undone by this kind. -/
structure Undoes (t b : WagerTransaction) : Prop extends Reverses t b where
  row : b ∈ d.wagerTransactions
  first : ∀ r ∈ d.wagerTransactions, r.status = .processed → r.walletId = b.walletId →
    r.kind = t.kind → r.referenceTransactionId ≠ some b.id

inductive Outcome (tx t : WagerTransaction) (w : Writes) : Prop
  | parked {retryAt : Date} {data : WagerTransactionData}
      (wallets : w.wallets = []) (entries : w.ledgerEntries = [])
      (kind : tx.requiresReference = true)
      (attempts : tx.referenceRetryAttempts < MAX_REFERENCE_RETRY_ATTEMPTS)
      (row : t = { toWagerTransactionEntity P tx with
        status := .pendingReference
        referenceRetryAttempts := tx.referenceRetryAttempts + 1
        nextReferenceRetryAt := some retryAt })
      (describes : Describes P t.toCreateWagerTransactionProps data)
      (events : w.data =
        [.wagerTransactionPendingReference data t.referenceExternalTransactionId])
  | rejected {code : FailureCode} {rejectedAt : Date} {data : WagerTransactionData}
      (wallets : w.wallets = []) (entries : w.ledgerEntries = [])
      (fits : CodeFits tx code)
      (row : t = { toWagerTransactionEntity P tx with
        status := .rejected
        failureCode := some code
        processedAt := some rejectedAt })
      (describes : Describes P t.toCreateWagerTransactionProps data)
      (events : w.data = [.wagerTransactionRejected data (some code)])
  | lost {w₀ : WalletRow} {processedAt : Date} {data : WagerTransactionData}
      (wallets : w.wallets = []) (entries : w.ledgerEntries = [])
      (owns : own (.wallet w₀.id)) (wallet : w₀ ∈ d.wallets) (walletId : w₀.id = t.walletId)
      (kind : tx.kind = .loss)
      (row : t = { toWagerTransactionEntity P tx with
        status := .processed
        processedAt := some processedAt })
      (describes : Describes P t.toCreateWagerTransactionProps data)
      (events : w.data =
        [.wagerTransactionProcessed data (Money.mk w₀.balanceAmount w₀.currency).toJSON])
  | moved {w₀ w₁ : WalletRow} {e : WalletLedgerEntry} {reference : Option WagerTransaction}
      {processedAt : Date} {data : WagerTransactionData}
      (wallets : w.wallets = [w₁]) (entries : w.ledgerEntries = [e])
      (owns : own (.wallet w₀.id)) (wallet : w₀ ∈ d.wallets) (walletId : w₀.id = t.walletId)
      (kind : tx.kind ≠ .loss)
      (movement : MovedRow w₀ w₁ e) (entry : EntryFor t e)
      (row : t = { toWagerTransactionEntity P tx with
        status := .processed
        referenceTransactionId := reference.map (·.id)
        processedAt := some processedAt })
      (unreferenced : tx.requiresReference = false → reference = none)
      (referenced : tx.requiresReference = true → ∃ b, reference = some b ∧ Undoes d t b ∧
        e.direction = undoDirection b.kind)
      (describes : Describes P t.toCreateWagerTransactionProps data)
      (events : w.data =
        [.wagerTransactionProcessed data e.balanceAfter.toJSON, balanceChange e w₁.version])

/-- The row of a wallet that only this call can insert. -/
structure NewWallet (w : WalletRow) : Prop where
  ownsId : own (.uuid w.id)
  ownsPlayer : own (.playerCurrency w.playerId w.currency)
  newId : ∀ w' ∈ d.wallets, w'.id ≠ w.id
  newPlayer : ∀ w' ∈ d.wallets, (w'.playerId, w'.currency) ≠ (w.playerId, w.currency)
  id : P.uuid w.id = some w.id
  player : P.uuid w.playerId = some w.playerId
  version : w.version = 1

/-- The OPENING row `t` of the new wallet `w`, and its entry. -/
structure OpeningRow (w : WalletRow) (t : WagerTransaction) (e : WalletLedgerEntry) : Prop where
  ownsId : own (.uuid t.id)
  ownsKey : own (.idempotencyKey t.idempotencyKey)
  ownsExternal : own (.external t.providerId t.externalTransactionId)
  newId : ∀ t' ∈ d.wagerTransactions, t'.id ≠ t.id
  newKey : ∀ t' ∈ d.wagerTransactions, t'.idempotencyKey ≠ t.idempotencyKey
  newExternal : ∀ t' ∈ d.wagerTransactions,
    (t'.providerId, t'.externalTransactionId) ≠ (t.providerId, t.externalTransactionId)
  kind : t.kind = .opening
  hash : t.payloadHash = "internal"
  walletId : t.walletId = w.id
  playerId : t.playerId = w.playerId
  processed : Processed t
  attempts : t.referenceRetryAttempts = 0
  entry : EntryFor t e
  before : e.balanceBefore = Money.zero w.currency
  after : e.balanceAfter = ⟨w.balanceAmount, w.currency⟩
  balanced : e.Balanced w.currency

/-- The rows, events and entries of an opening, as the change writes them. -/
structure OpensWith (row : WalletRow) (t : WagerTransaction) (e : WalletLedgerEntry)
    (data : WagerTransactionData) (w : Writes) : Prop where
  wallets : w.wallets = [row]
  rows : w.wagerTransactions = [t]
  entries : w.ledgerEntries = [e]
  inbox : w.inboxMessages = []
  wallet : NewWallet P own d row
  opening : OpeningRow own d row t e
  messages : NewMessages own d w.outboxMessages
  describes : Describes P t.toCreateWagerTransactionProps data
  events : w.data =
    [.wagerTransactionProcessed data e.balanceAfter.toJSON, balanceChange e row.version]

/-- Some transaction is settled. -/
inductive Settled (w : Writes) : Prop
  | intro {tx t : WagerTransaction} (settles : Settles P own d tx t w)
      (outcome : Outcome P own d tx t w)

inductive Permitted (w : Writes) : Prop
  | settled (settled : Settled P own d w)
  | opened {row : WalletRow} (writes : w = { wallets := [row] }) (wallet : NewWallet P own d row)
      (empty : row.balanceAmount = 0)
  | openedWith {row : WalletRow} {t : WagerTransaction} {e : WalletLedgerEntry}
      {data : WagerTransactionData} (opens : OpensWith P own d row t e data w)
  | received {row : InboxMessage} (writes : w = { inboxMessages := [row] })
      (owns : own (.inbox row.messageId)) (fresh : ∀ m ∈ d.inboxMessages, m.key ≠ row.key)
      (ok : InboxOk P d row)
  | published {ms : List OutboxMessage} (writes : w = { outboxMessages := ms })
      (nodup : (ms.map OutboxMessage.id).Nodup)
      (saved : ∀ m' ∈ ms, ∃ m ∈ d.outboxMessages, own (.outbox m.id) ∧ m.publishedAt = none ∧
        m.SameEnvelope m')

inductive PermittedSeq : Database → List Writes → Prop
  | nil (d : Database) : PermittedSeq d []
  | cons {d : Database} {w : Writes} {ws : List Writes} (head : Permitted P own d w)
      (tail : PermittedSeq (d.apply w) ws) : PermittedSeq d (w :: ws)

/-- The settlements of a batch, each in the state that the ones before it leave. -/
inductive SettledSeq : Database → List Writes → Prop
  | nil (d : Database) : SettledSeq d []
  | cons {d : Database} {w : Writes} {ws : List Writes} (head : Settled P own d w)
      (tail : SettledSeq (d.apply w) ws) : SettledSeq d (w :: ws)

/-- No message in `ws` is published. -/
def Queues (ws : List Writes) : Prop := ∀ w ∈ ws, ∀ m ∈ w.outboxMessages, m.publishedAt = none

variable {P own d}

theorem Settled.queues {w : Writes} (h : Settled P own d w) : Queues [w] := by
  obtain ⟨s, -⟩ := h
  intro w' hw'
  obtain rfl := List.mem_singleton.mp hw'
  exact s.messages.pending

theorem Queues.append {ws ws' : List Writes} (h : Queues ws) (h' : Queues ws') :
    Queues (ws ++ ws') := by
  intro w hw
  rcases List.mem_append.mp hw with hw | hw
  · exact h w hw
  · exact h' w hw

theorem SettledSeq.queues {ws : List Writes} (h : SettledSeq P own d ws) : Queues ws := by
  induction h with
  | nil => exact fun _ hw => absurd hw List.not_mem_nil
  | cons head _ ih => exact head.queues.append ih

theorem SettledSeq.permitted {ws : List Writes} (h : SettledSeq P own d ws) :
    PermittedSeq P own d ws := by
  induction h with
  | nil d => exact .nil d
  | cons head _ ih => exact .cons (.settled head) ih

theorem SettledSeq.concat {ws : List Writes} {w : Writes} (h : SettledSeq P own d ws)
    (hw : Settled P own (d.applyAll ws) w) : SettledSeq P own d (ws ++ [w]) := by
  induction h with
  | nil d => exact .cons hw (.nil _)
  | cons head _ ih => exact .cons head (ih hw)

theorem PermittedSeq.concat {ws : List Writes} {w : Writes} (h : PermittedSeq P own d ws)
    (hw : Permitted P own (d.applyAll ws) w) : PermittedSeq P own d (ws ++ [w]) := by
  induction h with
  | nil d => exact .cons hw (.nil _)
  | cons head _ ih => exact .cons head (ih hw)

theorem PermittedSeq.single {w : Writes} (h : Permitted P own d w) : PermittedSeq P own d [w] :=
  .cons h (.nil _)

end WageringProcessor
