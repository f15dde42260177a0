import WageringProcessor.Invariants.Reachable
import WageringProcessor.Runs

/-!
# The lifecycle of a transaction row

What a committed row of each status looks like, and that a terminal row never changes again.
-/

namespace WageringProcessor

open Library.Interleaving

variable {P : Platform} {c c' : Config Shared Proc} {d : Database} {t : WagerTransaction}

structure PendingReferenceRow (t : WagerTransaction) : Prop where
  kind : t.kind = .refund ∨ t.kind = .rollback
  reference : ∃ reference, t.referenceExternalTransactionId = some reference ∧ reference ≠ ""
  scheduled : t.nextReferenceRetryAt.isSome = true
  attempted : 1 ≤ t.referenceRetryAttempts
  attempts : t.referenceRetryAttempts ≤ 10
  processedAt : t.processedAt = none
  failureCode : t.failureCode = none
  referenceTransactionId : t.referenceTransactionId = none

structure ProcessedRow (t : WagerTransaction) : Prop where
  processedAt : t.processedAt.isSome = true
  failureCode : t.failureCode = none
  referenceTransactionId : t.referenceTransactionId.isSome = true ↔
    t.kind = .refund ∨ t.kind = .rollback

structure RejectedRow (d : Database) (t : WagerTransaction) : Prop where
  processedAt : t.processedAt.isSome = true
  failureCode : t.failureCode.isSome = true
  referenceTransactionId : t.referenceTransactionId = none
  entries : d.entriesOf t.id = []

/-- The kinds of transaction, and the number of attempts, that each failure code occurs with. -/
structure FailureCodeFits (t : WagerTransaction) (code : FailureCode) : Prop where
  insufficientBalance : code = .insufficientBalance → t.kind = .bet
  rollbackInsufficientBalance : code = .rollbackInsufficientBalance → t.kind = .rollback
  walletCurrencyMismatch : code = .walletCurrencyMismatch → t.kind = .bet ∨ t.kind = .win
  reference : code.isReference = true → t.kind = .refund ∨ t.kind = .rollback
  timeout : code = .referenceResolutionTimeout → t.referenceRetryAttempts = 10

structure RowLifecycle (d : Database) (t : WagerTransaction) : Prop where
  status : t.status = .pendingReference ∨ t.status = .processed ∨ t.status = .rejected
  pendingReference : t.status = .pendingReference → PendingReferenceRow t
  processed : t.status = .processed → ProcessedRow t
  rejected : t.status = .rejected → RejectedRow d t
  moved : t.status = .processed ∧ t.kind ≠ .loss ↔ d.entriesOf t.id ≠ []
  movedOnce : (d.entriesOf t.id).length ≤ 1
  failureCode : ∀ code, t.failureCode = some code → FailureCodeFits t code

theorem CodeFits.failureCodeFits {code : FailureCode} (h : CodeFits t code) :
    FailureCodeFits t code := by
  have hkinds : t.requiresReference = true → t.kind = .refund ∨ t.kind = .rollback :=
    WagerTransaction.requiresReference_iff.mp
  cases code with
  | insufficientBalance => exact ⟨fun _ => h, nofun, nofun, nofun, nofun⟩
  | rollbackInsufficientBalance => exact ⟨nofun, fun _ => h, nofun, nofun, nofun⟩
  | walletCurrencyMismatch => exact ⟨nofun, nofun, fun _ => h, nofun, nofun⟩
  | referenceResolutionTimeout =>
    exact ⟨nofun, nofun, nofun, fun _ => hkinds h.1, fun _ => h.2⟩
  | referenceMismatch | referenceInvalidKind | referenceInvalidState | referenceAmountMismatch
  | referenceAlreadyReversed => exact ⟨nofun, nofun, nofun, fun _ => hkinds h, nofun⟩
  | persistenceFailure => exact absurd h id

theorem RowOk.pendingReferenceRow (h : RowOk P d t) (hs : t.status = .pendingReference) :
    PendingReferenceRow t := by
  have hwaiting := Waiting.unsettled hs h.lifecycle
  have hpresent := h.identity.reference hwaiting.kind
  refine ⟨WagerTransaction.requiresReference_iff.mp hwaiting.kind, ?_, hwaiting.scheduled,
    hwaiting.attempted, h.attempts, hwaiting.processedAt, hwaiting.failureCode, hwaiting.reference⟩
  cases href : t.referenceExternalTransactionId with
  | none => simp [WagerTransaction.missingReference, href] at hpresent
  | some reference =>
    exact ⟨reference, rfl, by simpa [WagerTransaction.missingReference, href] using hpresent⟩

theorem RowOk.moved_iff (h : RowOk P d t) : Moves t ↔ d.entriesOf t.id ≠ [] := by
  by_cases hm : Moves t
  · obtain ⟨e, he, -⟩ := h.moved hm
    simp [hm, he]
  · simp [hm, h.unmoved hm]

theorem RowOk.rowLifecycle (h : RowOk P d t) : RowLifecycle d t := by
  have hmoved := h.moved_iff
  have honce : (d.entriesOf t.id).length ≤ 1 := by
    by_cases hm : Moves t
    · obtain ⟨e, he, -⟩ := h.moved hm
      rw [he]
      exact le_refl 1
    · rw [h.unmoved hm]
      exact Nat.zero_le 1
  rcases h.lifecycle with hl | hl | hl
  · have hs := hl.status
    refine ⟨Or.inl hs, fun _ => h.pendingReferenceRow hs, ?_, ?_, hmoved, honce, ?_⟩
    · simp [hs]
    · simp [hs]
    · simp [hl.failureCode]
  · have hs := hl.status
    refine ⟨Or.inr (Or.inl hs), ?_, fun _ => ⟨hl.processedAt, hl.failureCode, ?_⟩, ?_, hmoved,
      honce, ?_⟩
    · simp [hs]
    · rw [hl.reference]
      exact WagerTransaction.requiresReference_iff
    · simp [hs]
    · simp [hl.failureCode]
  · have hs := hl.status
    obtain ⟨code, hcode, hfits⟩ := hl.failureCode
    have hunmoved : ¬Moves t := fun hm => by simp [Moves, hs] at hm
    refine ⟨Or.inr (Or.inr hs), ?_, ?_, fun _ => ⟨hl.processedAt, by simp [hcode], hl.reference,
      h.unmoved hunmoved⟩, hmoved, honce, fun code' hcode' => ?_⟩
    · simp [hs]
    · simp [hs]
    · obtain rfl := Option.some.inj (hcode.symm.trans hcode')
      exact hfits.failureCodeFits

/-- Every committed row is in one of three statuses, and whatever runs afterwards, a terminal row
is still there with every column as it was. -/
theorem reachable_lifecycle (h : Reachable (step P) initial c) :
    (∀ t ∈ c.shared.db.wagerTransactions, RowLifecycle c.shared.db t) ∧
      ∀ c', Reachable (step P) c c' → ∀ t ∈ c.shared.db.wagerTransactions, t.isTerminal = true →
        ∀ t', t' ∈ c'.shared.db.wagerTransactions ∧ t'.id = t.id ↔ t' = t := by
  have hc := reachable_consistent h
  refine ⟨fun t ht => (hc.rows t ht).rowLifecycle, fun c' h' t ht hterminal t' => ?_⟩
  have hstays := (reachable_history h h').terminal t ht hterminal
  constructor
  · rintro ⟨ht', hid⟩
    exact (reachable_consistent (Reach.trans h h')).transaction_inj ht' hstays hid
  · rintro rfl
    exact ⟨hstays, rfl⟩

theorem refundAndRollback_lifecycle : ∃ c, Reachable (step localPlatform) initial c ∧
    c.shared.db.wagerTransactions.length = 4 ∧
      ∀ t ∈ c.shared.db.wagerTransactions, RowLifecycle c.shared.db t := by
  obtain ⟨c, hreach, -, hrows⟩ := refundAndRollback_reaches
  have hlength := congrArg List.length hrows
  rw [List.length_map] at hlength
  exact ⟨c, hreach, hlength, (reachable_lifecycle hreach).1⟩

end WageringProcessor
