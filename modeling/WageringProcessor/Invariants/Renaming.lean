import WageringProcessor.Invariants.Unrelated
import WageringProcessor.Library.Correspondence

/-!
# The same call with other values drawn

Two calls with one command that find the same database answer and write the same, up to the ids and
times that were generated for them.  `ρ` relates an id of the one to the id of the other in its
place.
-/

namespace WageringProcessor

open Library.Correspondence Library.Interleaving Library.Table WagerTransactionFinalizer

variable {P : Platform} {d : Database} {cmd : SubmitWagerTransactionCommand} {g g' : Generated}
  {ρ : Id → Id → Prop}

/-! ## Rows that differ in what was generated for them -/

/-- The rows differ in their ids, which correspond, and in their times. -/
structure SameTransaction (ρ : Id → Id → Prop) (t t' : WagerTransaction) : Prop where
  id : ρ t.id t'.id
  processedAt : t.processedAt.isSome = t'.processedAt.isSome
  nextReferenceRetryAt : t.nextReferenceRetryAt.isSome = t'.nextReferenceRetryAt.isSome
  rest : t = { t' with
    id := t.id
    createdAt := t.createdAt
    processedAt := t.processedAt
    nextReferenceRetryAt := t.nextReferenceRetryAt }

theorem SameTransaction.status {t t' : WagerTransaction} (h : SameTransaction ρ t t') :
    t.status = t'.status := by
  rw [h.rest]

theorem SameTransaction.failureCode {t t' : WagerTransaction} (h : SameTransaction ρ t t') :
    t.failureCode = t'.failureCode := by
  rw [h.rest]

structure SameEntry (ρ : Id → Id → Prop) (e e' : WalletLedgerEntry) : Prop where
  id : ρ e.id e'.id
  transactionId : ρ e.transactionId e'.transactionId
  rest : e = { e' with
    id := e.id
    transactionId := e.transactionId
    createdAt := e.createdAt }

def EventData.withTransactionId (id : Id) : EventData → EventData
  | wagerTransactionProcessed tx balanceAfter =>
    wagerTransactionProcessed { tx with transactionId := id } balanceAfter
  | wagerTransactionRejected tx failureCode =>
    wagerTransactionRejected { tx with transactionId := id } failureCode
  | wagerTransactionPendingReference tx reference =>
    wagerTransactionPendingReference { tx with transactionId := id } reference
  | walletBalanceChanged walletId _ direction money balanceBefore balanceAfter version =>
    walletBalanceChanged walletId id direction money balanceBefore balanceAfter version

/-- The correlation is one that the caller gave, or it was generated as well. -/
structure SameEvent (ρ : Id → Id → Prop) (e e' : IntegrationEvent) : Prop where
  eventId : ρ e.eventId e'.eventId
  correlationId : e.correlationId = e'.correlationId ∨ ρ e.correlationId e'.correlationId
  transactionId : ρ e.data.transactionId e'.data.transactionId
  rest : e = { e' with
    eventId := e.eventId
    correlationId := e.correlationId
    occurredAt := e.occurredAt
    data := e'.data.withTransactionId e.data.transactionId }

structure SameMessage (ρ : Id → Id → Prop) (m m' : OutboxMessage) : Prop where
  id : ρ m.id m'.id
  payload : SameEvent ρ m.payload m'.payload
  rest : m = { m' with
    id := m.id
    payload := m.payload
    occurredAt := m.occurredAt }

theorem SameMessage.aggregateId {m m' : OutboxMessage} (h : SameMessage ρ m m') :
    m.aggregateId = m'.aggregateId := by
  rw [h.rest]

/-- The rows differ in when they were changed last. -/
def SameWalletRow (r r' : WalletRow) : Prop := r = { r' with updatedAt := r.updatedAt }

theorem SameWalletRow.id {r r' : WalletRow} (h : SameWalletRow r r') : r.id = r'.id := by
  unfold SameWalletRow at h
  rw [h]

theorem SameWalletRow.balanceAmount {r r' : WalletRow} (h : SameWalletRow r r') :
    r.balanceAmount = r'.balanceAmount := by
  unfold SameWalletRow at h
  rw [h]

structure SameWrites (ρ : Id → Id → Prop) (w w' : Writes) : Prop where
  wallets : List.Forall₂ SameWalletRow w.wallets w'.wallets
  wagerTransactions : List.Forall₂ (SameTransaction ρ) w.wagerTransactions w'.wagerTransactions
  ledgerEntries : List.Forall₂ (SameEntry ρ) w.ledgerEntries w'.ledgerEntries
  outboxMessages : List.Forall₂ (SameMessage ρ) w.outboxMessages w'.outboxMessages

structure SameResult (ρ : Id → Id → Prop) (r r' : SubmitWagerTransactionResult) : Prop where
  transaction : Alike (SameTransaction ρ) r.transaction r'.transaction
  idempotentReplay : r.idempotentReplay = r'.idempotentReplay
  balance : r.balance = r'.balance

/-- What the caller gets is the same, an error to the letter. -/
def SameOutcome (ρ : Id → Id → Prop) :
    Except Exception SubmitWagerTransactionResult →
      Except Exception SubmitWagerTransactionResult → Prop
  | .ok r, .ok r' => SameResult ρ r r'
  | .error e, .error e' => e = e'
  | _, _ => False

/-! ## A decision up to what was generated for it -/

namespace Submit

/-- The values that the two calls have drawn correspond. -/
structure Corresponds (ρ : Id → Id → Prop) (g g' : Generated) : Prop where
  transactionId : ρ g.transactionId g'.transactionId
  correlationId : ρ g.correlationId g'.correlationId
  entry : ρ (g.newId 0) (g'.newId 0)
  event : ρ (g.newId 1) (g'.newId 1)
  balanceEvent : ρ (g.newId 2) (g'.newId 2)

theorem Corresponds.context (h : Corresponds ρ g g') :
    cmd.correlationId.getD g.correlationId = cmd.correlationId.getD g'.correlationId ∨
      ρ (cmd.correlationId.getD g.correlationId) (cmd.correlationId.getD g'.correlationId) := by
  cases cmd.correlationId with
  | none => exact Or.inr h.correlationId
  | some correlationId => exact Or.inl rfl

theorem Corresponds.of_written {ws ws' : List Writes} (hws : ws ≠ []) (hws' : ws' ≠ [])
    (h : ∀ a b, Paired (g.written ws) (g'.written ws') a b → ρ a b) : Corresponds ρ g g' := by
  rw [show g.written ws = g.ids from if_neg hws, show g'.written ws' = g'.ids from if_neg hws'] at h
  exact ⟨h _ _ ⟨0, rfl, rfl⟩, h _ _ ⟨1, rfl, rfl⟩, h _ _ ⟨2, rfl, rfl⟩, h _ _ ⟨3, rfl, rfl⟩,
    h _ _ ⟨4, rfl, rfl⟩⟩

/-- The same decision about the two rows that a call would insert. -/
structure SameDecision (ρ : Id → Id → Prop) (out out' : WagerTransaction × Wallet × Writes) :
    Prop where
  transaction : SameTransaction ρ out.1 out'.1
  balance : out.2.1.balance = out'.2.1.balance
  writes : SameWrites ρ out.2.2 out'.2.2

section

variable (h : Corresponds ρ g g')
include h

theorem effect_same (wallet : Wallet) (reference : Option WagerTransaction) (credited : Bool) :
    SameDecision ρ
      (effect P (draft P cmd g) wallet reference credited
        (eventContext cmd (draft P cmd g) g.correlationId) g.newId)
      (effect P (draft P cmd g') wallet reference credited
        (eventContext cmd (draft P cmd g') g'.correlationId) g'.newId) := by
  have hsame : refusal (draft P cmd g') wallet credited = refusal (draft P cmd g) wallet credited :=
    rfl
  cases hrefusal : refusal (draft P cmd g) wallet credited with
  | some code =>
    rw [effect_refused hrefusal, effect_refused (hsame.trans hrefusal)]
    refine ⟨⟨h.transactionId, rfl, rfl, rfl⟩, rfl, ⟨.nil, ?_, .nil, ?_⟩⟩
    · exact .cons ⟨h.transactionId, rfl, rfl, rfl⟩ .nil
    · exact .cons ⟨h.event, ⟨h.event, h.context, h.transactionId, rfl⟩, rfl⟩ .nil
  | none =>
    rw [effect_accepted hrefusal, effect_accepted (hsame.trans hrefusal)]
    unfold acceptance
    dsimp only
    by_cases hloss : cmd.kind = .loss
    · have hloss' : ∀ g : Generated, (draft P cmd g).kind = .loss := fun _ => hloss
      rw [if_pos (hloss' g), if_pos (hloss' g')]
      refine ⟨⟨h.transactionId, rfl, rfl, rfl⟩, rfl, ⟨.nil, ?_, .nil, ?_⟩⟩
      · exact .cons ⟨h.transactionId, rfl, rfl, rfl⟩ .nil
      · exact .cons ⟨h.event, ⟨h.event, h.context, h.transactionId, rfl⟩, rfl⟩ .nil
    · have hmoves : ∀ g : Generated, ¬(draft P cmd g).kind = .loss := fun _ => hloss
      rw [if_neg (hmoves g), if_neg (hmoves g')]
      refine ⟨⟨h.transactionId, rfl, rfl, rfl⟩, rfl, ⟨?_, ?_, ?_, ?_⟩⟩
      · exact .cons rfl .nil
      · exact .cons ⟨h.transactionId, rfl, rfl, rfl⟩ .nil
      · exact .cons ⟨h.entry, h.transactionId, rfl⟩ .nil
      · refine .cons ⟨h.event, ⟨h.event, h.context, h.transactionId, rfl⟩, rfl⟩ (.cons ?_ .nil)
        exact ⟨h.balanceEvent, ⟨h.balanceEvent, h.context, h.transactionId, rfl⟩, rfl⟩

theorem decided_same (wallet : Wallet) (resolution : Option ReferenceResolution) :
    SameDecision ρ (decided P cmd wallet resolution g) (decided P cmd wallet resolution g') := by
  match resolution with
  | some .pending | some (.rejected code) =>
    refine ⟨⟨h.transactionId, rfl, rfl, rfl⟩, rfl, ⟨.nil, ?_, .nil, ?_⟩⟩
    · exact .cons ⟨h.transactionId, rfl, rfl, rfl⟩ .nil
    · exact .cons ⟨h.event, ⟨h.event, h.context, h.transactionId, rfl⟩, rfl⟩ .nil
  | some (.resolved b) => exact effect_same h wallet (some b) _
  | none => exact effect_same h wallet none false

end

/-! ## The course of a call up to what was generated for it -/

theorem SameOutcome.refl (out : Except Exception SubmitWagerTransactionResult) :
    SameOutcome ρ out out := by
  cases out with
  | ok result => exact ⟨Or.inl rfl, rfl, rfl⟩
  | error err => rfl

/-- Two calls with one command that find the same database. -/
theorem Course.same (h : Course P d cmd) (hnew : g.New d) (hnew' : g'.New d)
    (hρ : ∀ a b, Paired (g.written (committed (execute P d cmd g)))
      (g'.written (committed (execute P d cmd g'))) a b → ρ a b) :
    SameOutcome ρ ((execute P d cmd g).map Prod.fst) ((execute P d cmd g').map Prod.fst) ∧
      SameWrites ρ (net (committed (execute P d cmd g)))
        (net (committed (execute P d cmd g'))) := by
  rcases h.quiet_or with ⟨out, answers⟩ | ⟨wallet, resolution, -, decides⟩
  · rw [answers g hnew, answers g' hnew']
    cases out with
    | ok result => exact ⟨SameOutcome.refl (.ok result), .nil, .nil, .nil, .nil⟩
    | error err => exact ⟨rfl, .nil, .nil, .nil, .nil⟩
  · have hdecides := decides g hnew
    have hdecides' := decides g' hnew'
    rw [hdecides.committed, hdecides'.committed] at hρ ⊢
    have hcorresponds : Corresponds ρ g g' :=
      .of_written (List.cons_ne_nil _ _) (List.cons_ne_nil _ _) hρ
    have hsame : SameDecision ρ (decided P cmd wallet resolution g) _ :=
      decided_same hcorresponds wallet resolution
    rw [hdecides.executes, hdecides'.executes, net_pair, net_pair]
    exact ⟨⟨Or.inr hsame.transaction, rfl, hsame.balance⟩, hsame.writes⟩

end Submit

end WageringProcessor
