import WageringProcessor.Shared.Kernel
import Mathlib.Algebra.Ring.Nat

/-!
# Wager transaction

`wager-transaction.ts`, its two enumerations and `reference-backoff.ts`.  The transitions return
the changed transaction, or the error they throw.
-/

namespace WageringProcessor

inductive WagerTransactionKind
  | opening
  | bet
  | win
  | loss
  | refund
  | rollback
deriving DecidableEq, Repr

def WagerTransactionKind.text : WagerTransactionKind → String
  | opening => "OPENING"
  | bet => "BET"
  | win => "WIN"
  | loss => "LOSS"
  | refund => "REFUND"
  | rollback => "ROLLBACK"

theorem WagerTransactionKind.text_injective : Function.Injective WagerTransactionKind.text := by
  intro kind kind' h
  cases kind <;> cases kind' <;> first | rfl | exact absurd h (by decide)

def WagerTransactionKind.all : List WagerTransactionKind :=
  [opening, bet, win, loss, refund, rollback]

inductive WagerTransactionStatus
  | pending
  | pendingReference
  | processed
  | rejected
  | failed
deriving DecidableEq, Repr

def WagerTransactionStatus.text : WagerTransactionStatus → String
  | pending => "PENDING"
  | pendingReference => "PENDING_REFERENCE"
  | processed => "PROCESSED"
  | rejected => "REJECTED"
  | failed => "FAILED"

def requiresReferenceFor (kind : WagerTransactionKind) : Bool :=
  kind = .refund || kind = .rollback

structure CreateWagerTransactionProps where
  id : Id
  providerId : String
  externalTransactionId : String
  idempotencyKey : String
  payloadHash : String
  walletId : Id
  playerId : Id
  roundId : String
  gameId : String
  kind : WagerTransactionKind
  money : Money
  referenceExternalTransactionId : Option String
  createdAt : Date
deriving DecidableEq, Repr

structure WagerTransaction extends CreateWagerTransactionProps where
  status : WagerTransactionStatus
  referenceTransactionId : Option Id
  failureCode : Option FailureCode
  processedAt : Option Date
  referenceRetryAttempts : Nat
  nextReferenceRetryAt : Option Date
deriving DecidableEq, Repr

namespace WagerTransaction

/-- What JavaScript reads as a missing reference: `undefined` or the empty string. -/
def missingReference (referenceExternalTransactionId : Option String) : Bool :=
  referenceExternalTransactionId.getD "" = ""

def create (props : CreateWagerTransactionProps) : Except DomainError WagerTransaction :=
  if props.kind = .opening then
    .error (.invariantViolation
      "WagerTransactionKind.OPENING não pode ser submetido externamente, use createOpening()")
  else if requiresReferenceFor props.kind &&
      missingReference props.referenceExternalTransactionId then
    .error (.missingReference props.kind.text)
  else
    .ok ⟨props, .pending, none, none, none, 0, none⟩

def createOpening (id walletId playerId : Id) (money : Money) (now : Date) : WagerTransaction where
  id := id
  providerId := "internal"
  externalTransactionId := id
  idempotencyKey := "opening:" ++ walletId
  payloadHash := "internal"
  walletId := walletId
  playerId := playerId
  roundId := "internal"
  gameId := "internal"
  kind := .opening
  money := money
  referenceExternalTransactionId := none
  createdAt := now
  status := .processed
  referenceTransactionId := none
  failureCode := none
  processedAt := some now
  referenceRetryAttempts := 0
  nextReferenceRetryAt := none

def isTerminal (tx : WagerTransaction) : Bool :=
  tx.status = .processed || tx.status = .rejected || tx.status = .failed

def assertNotTerminal (tx : WagerTransaction) (attemptedTransition : String) :
    Except DomainError Unit :=
  if tx.isTerminal then .error (.invalidTransactionState tx.status.text attemptedTransition)
  else .ok ()

def markProcessed (tx : WagerTransaction) (referenceTransactionId : Option Id) (at_ : Date) :
    Except DomainError WagerTransaction :=
  (tx.assertNotTerminal "markProcessed").map fun _ =>
    { tx with
      status := .processed
      referenceTransactionId := referenceTransactionId
      processedAt := some at_ }

def markPendingReference (tx : WagerTransaction) (nextRetryAt : Date) :
    Except DomainError WagerTransaction :=
  (tx.assertNotTerminal "markPendingReference").map fun _ =>
    { tx with
      status := .pendingReference
      referenceRetryAttempts := tx.referenceRetryAttempts + 1
      nextReferenceRetryAt := some nextRetryAt }

def reject (tx : WagerTransaction) (code : FailureCode) (at_ : Date) :
    Except DomainError WagerTransaction :=
  (tx.assertNotTerminal "reject").map fun _ =>
    { tx with status := .rejected, failureCode := some code, processedAt := some at_ }

def fail (tx : WagerTransaction) (code : FailureCode) (at_ : Date) :
    Except DomainError WagerTransaction :=
  (tx.assertNotTerminal "fail").map fun _ =>
    { tx with status := .failed, failureCode := some code, processedAt := some at_ }

/-- False only for LOSS. -/
def affectsBalance (tx : WagerTransaction) : Bool := tx.kind ≠ .loss

def requiresReference (tx : WagerTransaction) : Bool := requiresReferenceFor tx.kind

def matchesPayload (tx : WagerTransaction) (payloadHash : String) : Bool :=
  tx.payloadHash = payloadHash

/-- `ledgerDirectionFor`; the reference of a ROLLBACK is asked for its own direction without a
reference, so its own kind must not be ROLLBACK. -/
def ledgerDirectionFor (tx : WagerTransaction) (reference : Option WagerTransaction) :
    Except DomainError LedgerDirection :=
  match tx.kind with
  | .opening | .win | .refund => .ok .credit
  | .bet => .ok .debit
  | .rollback =>
    match reference with
    | none => .error noReference
    | some reference =>
      match reference.kind with
      | .opening | .win | .refund => .ok .debit
      | .bet => .ok .credit
      | .rollback => .error noReference
      | .loss => .error noDirection
  | .loss => .error noDirection
where
  noReference : DomainError := .invariantViolation
    "ROLLBACK precisa da transação referenciada para determinar a direção do ledger"
  noDirection : DomainError := .invariantViolation
    "LOSS não gera lançamento de ledger, não tem direção"

variable {tx : WagerTransaction}

theorem isTerminal_iff : tx.isTerminal = true ↔
    tx.status = .processed ∨ tx.status = .rejected ∨ tx.status = .failed := by
  simp [isTerminal, or_assoc]

theorem requiresReference_iff : tx.requiresReference = true ↔
    tx.kind = .refund ∨ tx.kind = .rollback := by
  simp [requiresReference, requiresReferenceFor]

theorem markProcessed_eq (h : tx.isTerminal = false) (ref : Option Id) (at_ : Date) :
    tx.markProcessed ref at_ = .ok { tx with
      status := .processed, referenceTransactionId := ref, processedAt := some at_ } := by
  simp [markProcessed, assertNotTerminal, h, Except.map]

theorem markPendingReference_eq (h : tx.isTerminal = false) (nextRetryAt : Date) :
    tx.markPendingReference nextRetryAt = .ok { tx with
      status := .pendingReference
      referenceRetryAttempts := tx.referenceRetryAttempts + 1
      nextReferenceRetryAt := some nextRetryAt } := by
  simp [markPendingReference, assertNotTerminal, h, Except.map]

theorem reject_eq (h : tx.isTerminal = false) (code : FailureCode) (at_ : Date) :
    tx.reject code at_ = .ok { tx with
      status := .rejected, failureCode := some code, processedAt := some at_ } := by
  simp [reject, assertNotTerminal, h, Except.map]

end WagerTransaction

/-! ## Retry backoff -/

def MAX_REFERENCE_RETRY_ATTEMPTS : Nat := 10

def computeReferenceBackoffMs (attempts : Nat) : Nat :=
  min (5000 * 2 ^ attempts) 300000

theorem computeReferenceBackoffMs_pos (attempts : Nat) :
    0 < computeReferenceBackoffMs attempts := by
  have hpow := Nat.two_pow_pos attempts
  unfold computeReferenceBackoffMs
  omega

theorem computeReferenceBackoffMs_mono {n m : Nat} (h : n ≤ m) :
    computeReferenceBackoffMs n ≤ computeReferenceBackoffMs m := by
  have hpow : 2 ^ n ≤ 2 ^ m := Nat.pow_le_pow_right (by decide) h
  unfold computeReferenceBackoffMs
  omega

end WageringProcessor
