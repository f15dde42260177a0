import WageringProcessor.Invariants.Holding

/-!
# The finalizer settles

What the methods of the finalizer write is a settlement of the transaction they are given.
-/

namespace WageringProcessor

open WagerTransactionFinalizer Library.Table

variable {P : Platform} {own : Resource → Prop} {d c : Database} {tx : WagerTransaction}
  {ctx : EventContext} {reference : Option WagerTransaction}

theorem ok_of_bind {ε α β : Type} {x : Except ε α} {f : α → Except ε β} {b : β}
    (h : x >>= f = .ok b) : ∃ a, x = .ok a ∧ f a = .ok b := by
  cases x with
  | error err => simp [bind, Except.bind] at h
  | ok a => exact ⟨a, rfl, h⟩

theorem ok_of_map {ε α β : Type} {x : Except ε α} {f : α → β} {b : β} (h : x.map f = .ok b) :
    ∃ a, x = .ok a ∧ f a = b := by
  cases x with
  | error err => cases h
  | ok a => exact ⟨a, rfl, Except.ok.inj h⟩

/-- `w` settles `tx`, which the caller now knows as `tx'`. -/
structure SettledAs (P : Platform) (own : Resource → Prop) (d : Database)
    (tx tx' : WagerTransaction) (w : Writes) : Prop where
  props : tx'.toCreateWagerTransactionProps = tx.toCreateWagerTransactionProps
  settles : Settles P own d tx (toWagerTransactionEntity P tx') w
  outcome : Outcome P own d tx (toWagerTransactionEntity P tx') w

theorem SettledAs.settled {tx' : WagerTransaction} {w : Writes} (h : SettledAs P own d tx tx' w) :
    Settled P own d w := ⟨h.settles, h.outcome⟩

/-- An id for a new message. -/
structure NewId (own : Resource → Prop) (d : Database) (id : Id) : Prop where
  owns : own (.uuid id)
  fresh : ∀ m ∈ d.outboxMessages, m.id ≠ id

theorem enqueue_envelopeOk {event : IntegrationEvent}
    (h : ∀ walletId, event.data.isBalanceChangeOf walletId = true → event.aggregateId = walletId) :
    EnvelopeOk (.enqueue event) := ⟨rfl, rfl, rfl, rfl, h⟩

theorem processed_envelopeOk (tx : WagerTransaction) (balanceAfter : Money) (ctx : EventContext)
    (eventId : Id) :
    EnvelopeOk (.enqueue (WagerTransactionProcessed.from tx balanceAfter ctx eventId)) :=
  enqueue_envelopeOk fun _ hchange => by cases hchange

theorem rejected_envelopeOk (tx : WagerTransaction) (ctx : EventContext) (eventId : Id) :
    EnvelopeOk (.enqueue (WagerTransactionRejected.from tx ctx eventId)) :=
  enqueue_envelopeOk fun _ hchange => by cases hchange

theorem pendingReference_envelopeOk (tx : WagerTransaction) (ctx : EventContext) (eventId : Id) :
    EnvelopeOk (.enqueue (WagerTransactionPendingReference.from tx ctx eventId)) :=
  enqueue_envelopeOk fun _ hchange => by cases hchange

theorem balanceChanged_envelopeOk (wallet : Wallet) (entry : WalletLedgerEntry)
    (ctx : EventContext) (eventId : Id) :
    EnvelopeOk (.enqueue (WalletBalanceChanged.from wallet entry ctx eventId)) := by
  refine enqueue_envelopeOk fun walletId h => ?_
  simpa [WalletBalanceChanged.from, WalletBalanceChanged.data, IntegrationEvent.from,
    EventData.isBalanceChangeOf] using h

theorem newMessages_single {event : IntegrationEvent} (h : NewId own d event.eventId)
    (he : EnvelopeOk (.enqueue event)) : NewMessages own d [.enqueue event] := by
  refine ⟨?_, ?_, List.nodup_singleton _, by simpa using he, by simp [OutboxMessage.enqueue]⟩
  · intro n hn
    obtain rfl := List.mem_singleton.mp hn
    exact h.owns
  · intro n hn
    obtain rfl := List.mem_singleton.mp hn
    exact h.fresh

theorem newMessages_pair {event event' : IntegrationEvent} (h : NewId own d event.eventId)
    (h' : NewId own d event'.eventId) (hne : event.eventId ≠ event'.eventId)
    (he : EnvelopeOk (.enqueue event)) (he' : EnvelopeOk (.enqueue event')) :
    NewMessages own d [.enqueue event, .enqueue event'] := by
  refine ⟨?_, ?_, by simpa [OutboxMessage.enqueue] using hne, by simpa using ⟨he, he'⟩,
    by simp [OutboxMessage.enqueue]⟩
  · intro n hn
    rcases List.mem_pair.mp hn with rfl | rfl
    · exact h.owns
    · exact h'.owns
  · intro n hn
    rcases List.mem_pair.mp hn with rfl | rfl
    · exact h.fresh
    · exact h'.fresh

theorem describes_of (tx : WagerTransaction) :
    Describes P (toWagerTransactionEntity P tx).toCreateWagerTransactionProps (.of tx) :=
  ⟨rfl, rfl, rfl, rfl, rfl, rfl, rfl, rfl, rfl⟩

/-! ## Parking and rejecting -/

theorem markPendingReference_settles (hs : Subject P own d tx) (hopen : tx.isTerminal = false)
    (hkind : tx.requiresReference = true)
    (hattempts : tx.referenceRetryAttempts < MAX_REFERENCE_RETRY_ATTEMPTS) {eventId : Id}
    (hid : NewId own d eventId) {out : WagerTransaction × Writes}
    (hout : markPendingReference P tx ctx eventId = .ok out) :
      SettledAs P own d tx out.1 out.2 := by
  simp only [markPendingReference, WagerTransaction.markPendingReference_eq hopen, bind,
    Except.bind, pure, Except.pure, Except.ok.injEq] at hout
  subst hout
  refine ⟨rfl, ⟨hs, rfl, rfl, newMessages_single hid (pendingReference_envelopeOk _ _ _), rfl⟩, ?_⟩
  exact .parked rfl rfl hkind hattempts rfl (describes_of _) rfl

theorem reject_settles (hs : Subject P own d tx) (hopen : tx.isTerminal = false)
    {code : FailureCode} (hfits : CodeFits tx code) {eventId : Id} (hid : NewId own d eventId)
    {out : WagerTransaction × Writes} (hout : reject P tx code ctx eventId = .ok out) :
    SettledAs P own d tx out.1 out.2 := by
  simp only [reject, WagerTransaction.reject_eq hopen, bind, Except.bind, pure, Except.pure,
    Except.ok.injEq] at hout
  subst hout
  refine ⟨rfl, ⟨hs, rfl, rfl, newMessages_single hid (rejected_envelopeOk _ _ _), rfl⟩, ?_⟩
  exact .rejected rfl rfl hfits rfl (describes_of _) rfl

/-! ## The movement -/

/-- The fields of the entry that a movement of `money` makes. -/
structure MoveSpec (P : Platform) (r : WalletRow) (direction : LedgerDirection) (money : Money)
    (ctx : WalletMovementContext) (wallet : Wallet) (entry : WalletLedgerEntry) : Prop where
  moved : MovedRow r (toWalletEntity P wallet) entry
  walletId : wallet.id = r.id
  version : wallet.version = r.version + 1
  balance : wallet.balance = entry.balanceAfter
  transactionId : entry.transactionId = ctx.transactionId
  direction : entry.direction = direction
  money : entry.money = money
  entryId : entry.id = ctx.ledgerEntryId
  createdAt : entry.createdAt = ctx.now

theorem move_ok {r : WalletRow} (hplayer : P.uuid r.playerId = some r.playerId)
    (hnonneg : 0 ≤ r.balanceAmount) {direction : LedgerDirection} {money : Money}
    {mctx : WalletMovementContext} {wallet : Wallet} {entry : WalletLedgerEntry}
    (h : move (toWalletDomain r) direction money mctx = .ok (wallet, entry)) :
    MoveSpec P r direction money mctx wallet entry := by
  have hcanonical := Platform.canonical_of_uuid hplayer
  cases direction with
  | debit =>
    rw [move, if_pos rfl, Wallet.debit_eq rfl] at h
    split at h
    · simp at h
    split at h
    · simp at h
    split at h
    · simp at h
    · rename_i hcur hlt hpos
      simp only [Except.ok.injEq, Prod.mk.injEq] at h
      obtain ⟨rfl, rfl⟩ := h
      simp only [toWalletDomain, not_not, not_lt, not_le] at hcur hlt hpos
      refine ⟨⟨rfl, hcanonical, rfl, rfl, rfl, rfl, rfl, ?_⟩, rfl, rfl, rfl, rfl, rfl, rfl, rfl,
        rfl⟩
      refine ⟨hpos, hcur, rfl, rfl, ?_, hnonneg, ?_⟩
      · simp [Wallet.movementEntry, WalletLedgerEntry.signedAmount, sub_eq_add_neg]
      · simp only [Wallet.movementEntry, toWalletDomain]
        omega
  | credit =>
    rw [move, if_neg (by decide), Wallet.credit_eq rfl] at h
    split at h
    · simp at h
    split at h
    · simp at h
    · rename_i hcur hpos
      simp only [Except.ok.injEq, Prod.mk.injEq] at h
      obtain ⟨rfl, rfl⟩ := h
      simp only [toWalletDomain, not_not, not_le] at hcur hpos
      refine ⟨⟨rfl, hcanonical, rfl, rfl, rfl, rfl, rfl, ?_⟩, rfl, rfl, rfl, rfl, rfl, rfl, rfl,
        rfl⟩
      refine ⟨hpos, hcur, rfl, rfl, ?_, hnonneg, ?_⟩
      · simp [Wallet.movementEntry, WalletLedgerEntry.signedAmount]
      · simp only [Wallet.movementEntry, toWalletDomain]
        omega

/-- A movement that is rejected was a debit beyond the balance, or in another currency. -/
theorem move_rejected {r : WalletRow} {direction : LedgerDirection} {money : Money}
    {mctx : WalletMovementContext} {err : DomainError} {kind : WagerTransactionKind}
    {code : FailureCode} (h : move (toWalletDomain r) direction money mctx = .error err)
    (hcode : classifyApplyFailure err kind = some code) :
    (money.currency ≠ r.currency ∧ code = .walletCurrencyMismatch) ∨
      (direction = .debit ∧ money.currency = r.currency ∧ code =
        if kind = .rollback then .rollbackInsufficientBalance else .insufficientBalance) := by
  cases direction with
  | debit =>
    rw [move, if_pos rfl, Wallet.debit_eq rfl] at h
    split at h
    · rename_i hcur
      obtain rfl : _ = err := by simpa using h
      exact Or.inl ⟨hcur, by simpa [classifyApplyFailure] using hcode.symm⟩
    split at h
    · rename_i hcur _
      obtain rfl : _ = err := by simpa using h
      refine Or.inr ⟨rfl, by simpa using hcur, ?_⟩
      simp only [classifyApplyFailure] at hcode
      split at hcode <;> simp_all
    split at h
    · obtain rfl : _ = err := by simpa using h
      simp [classifyApplyFailure] at hcode
    · simp at h
  | credit =>
    rw [move, if_neg (by decide), Wallet.credit_eq rfl] at h
    split at h
    · rename_i hcur
      obtain rfl : _ = err := by simpa using h
      exact Or.inl ⟨hcur, by simpa [classifyApplyFailure] using hcode.symm⟩
    split at h
    · obtain rfl : _ = err := by simpa using h
      simp [classifyApplyFailure] at hcode
    · simp at h

/-- `ledgerDirectionFor` undoes the reference of a reversal. -/
theorem ledgerDirectionFor_ok {direction : LedgerDirection}
    (h : tx.ledgerDirectionFor reference = .ok direction) :
    (tx.kind = .bet → direction = .debit) ∧
      (tx.kind = .opening ∨ tx.kind = .win ∨ tx.kind = .refund → direction = .credit) ∧
        (tx.kind = .rollback → ∃ b, reference = some b ∧ direction = undoDirection b.kind) := by
  unfold WagerTransaction.ledgerDirectionFor at h
  cases hk : tx.kind with
  | opening | win | refund | bet =>
    rw [hk] at h
    simpa using h.symm
  | loss =>
    rw [hk] at h
    simp at h
  | rollback =>
    rw [hk] at h
    cases reference with
    | none => simp at h
    | some b =>
      refine ⟨by simp, by simp, fun _ => ⟨b, rfl, ?_⟩⟩
      cases hb : b.kind with
      | opening | win | refund | bet =>
        simp only [hb, Except.ok.injEq] at h
        exact h.symm
      | rollback | loss => simp [hb] at h

/-! ## Flushing -/

theorem flush_ok {w : Writes} (h : c.flush w = .ok ()) :
    (∀ t ∈ w.wagerTransactions, c.violatesReferenceOnce t = false) ∧
      Database.violatesCheck w = false := by
  unfold Database.flush at h
  split at h
  · simp at h
  split at h
  · simp at h
  · rename_i hcheck hunique
    simp only [Bool.or_eq_true, not_or, Bool.not_eq_true, List.any_eq_false] at hcheck hunique
    exact ⟨fun t ht => by simpa using hunique.1 t ht, hcheck.1⟩

/-- What the partial unique index leaves of a flush that it lets pass. -/
theorem referenceOnce_ok {t : WagerTransaction} {id : Id} (h : c.violatesReferenceOnce t = false)
    (hp : t.status = .processed) (hr : t.requiresReference = true)
    (href : t.referenceTransactionId = some id) :
    ∀ r ∈ c.wagerTransactions, r.id ≠ t.id → r.status = .processed → r.kind = t.kind →
      r.referenceTransactionId ≠ some id := by
  intro r hmem hne hrp hkind hsame
  have hall : ¬c.wagerTransactions.any (fun other => other.id ≠ t.id && other.status = .processed &&
      other.kind = t.kind && other.referenceTransactionId = t.referenceTransactionId) = true := by
    intro hany
    have hr' : requiresReferenceFor t.kind = true := hr
    rw [Database.violatesReferenceOnce, hany, hp, hr', href] at h
    simp at h
  exact hall (List.any_eq_true.mpr ⟨r, hmem, by simp [hne, hrp, hkind, href, hsame]⟩)

/-! ## Applying the effect -/

/-- `tx` after `markProcessed`. -/
def processedTransaction (tx : WagerTransaction) (referenceId : Option Id) (at_ : Date) :
    WagerTransaction :=
  { tx with
    status := .processed
    referenceTransactionId := referenceId
    processedAt := some at_ }

/-- The three ways in which `applyEffect` returns. -/
inductive Applied (P : Platform) (tx : WagerTransaction) (wallet : Wallet)
    (reference : Option WagerTransaction) (ctx : EventContext) (newId : Nat → Id) :
    WagerTransaction × Wallet × Writes → Prop
  | lost (kind : tx.kind = .loss) : Applied P tx wallet reference ctx newId
      (processedTransaction tx (reference.map (·.id)) ctx.now, wallet,
        lossWrites P (processedTransaction tx (reference.map (·.id)) ctx.now) wallet ctx (newId 1))
  | rejected {direction : LedgerDirection} {err : DomainError} {code : FailureCode}
      {out : WagerTransaction × Writes} (kind : tx.kind ≠ .loss)
      (hdir : tx.ledgerDirectionFor reference = .ok direction)
      (hmove : move wallet direction tx.money ⟨tx.id, newId 0, ctx.now⟩ = .error err)
      (hcode : classifyApplyFailure err tx.kind = some code)
      (hreject : reject P tx code ctx (newId 1) = .ok out) :
      Applied P tx wallet reference ctx newId (out.1, wallet, out.2)
  | moved {direction : LedgerDirection} {wallet' : Wallet} {entry : WalletLedgerEntry}
      (kind : tx.kind ≠ .loss) (hdir : tx.ledgerDirectionFor reference = .ok direction)
      (hmove : move wallet direction tx.money ⟨tx.id, newId 0, ctx.now⟩ = .ok (wallet', entry)) :
      Applied P tx wallet reference ctx newId
        (processedTransaction tx (reference.map (·.id)) ctx.now, wallet',
          movementWrites P (processedTransaction tx (reference.map (·.id)) ctx.now) wallet' entry
            ctx newId)

theorem applyEffect_cases {wallet : Wallet} {newId : Nat → Id} (hopen : tx.isTerminal = false)
    {out : WagerTransaction × Wallet × Writes}
    (hout : applyEffect P tx wallet reference ctx newId = .ok out) :
    Applied P tx wallet reference ctx newId out := by
  unfold applyEffect at hout
  by_cases hloss : tx.kind = .loss
  · simp only [WagerTransaction.affectsBalance, hloss, ne_eq, not_true_eq_false, decide_false,
      Bool.not_false, if_true, WagerTransaction.markProcessed_eq hopen, bind, Except.bind, pure,
      Except.pure, Except.ok.injEq] at hout
    subst hout
    exact .lost hloss
  · simp only [WagerTransaction.affectsBalance, hloss, ne_eq, not_false_eq_true, decide_true,
      Bool.not_true, Bool.false_eq_true, if_false] at hout
    cases hdir : tx.ledgerDirectionFor reference with
    | error err => simp [hdir, bind, Except.bind] at hout
    | ok direction =>
      simp only [hdir, bind, Except.bind] at hout
      cases hmove : move wallet direction tx.money ⟨tx.id, newId 0, ctx.now⟩ with
      | error err =>
        simp only [hmove] at hout
        cases hcode : classifyApplyFailure err tx.kind with
        | none => simp [hcode, throw, throwThe, MonadExceptOf.throw] at hout
        | some code =>
          simp only [hcode] at hout
          cases hreject : reject P tx code ctx (newId 1) with
          | error err' => simp [hreject] at hout
          | ok rejected =>
            simp only [hreject, pure, Except.pure, Except.ok.injEq] at hout
            subst hout
            exact .rejected hloss hdir hmove hcode hreject
      | ok moved =>
        obtain ⟨wallet', entry⟩ := moved
        simp only [hmove, WagerTransaction.markProcessed_eq hopen, pure, Except.pure,
          Except.ok.injEq] at hout
        subst hout
        exact .moved hloss hdir hmove

/-- The reference that `applyEffect` is given: none, or a row that `tx` may reverse. -/
structure ReferenceOk (P : Platform) (d : Database) (tx : WagerTransaction)
    (reference : Option WagerTransaction) : Prop where
  unreferenced : tx.requiresReference = false → reference = none
  referenced : tx.requiresReference = true → ∃ b, reference = some b ∧
    b ∈ d.wagerTransactions ∧ Reverses (toWagerTransactionEntity P tx) b

/-- The wallet that a settlement reads: the caller holds its row, and `tx` names it. -/
structure HeldWallet (P : Platform) (own : Resource → Prop) (d : Database) (tx : WagerTransaction)
    (wallet : Wallet) (r : WalletRow) : Prop where
  owns : own (.wallet r.id)
  row : r ∈ d.wallets
  read : wallet = toWalletDomain r
  named : r.id = P.canonical tx.walletId

/-- A transaction that was applied to a wallet has the wallet's currency. -/
theorem Consistent.currency (h : Consistent P d) {b : WagerTransaction} {r : WalletRow}
    (hb : b ∈ d.wagerTransactions) (hm : Moves b) (hr : r ∈ d.wallets) (hid : r.id = b.walletId) :
    b.money.currency = r.currency ∧ 0 < b.money.minorUnits := by
  obtain ⟨e, he, hfor⟩ := (h.rows b hb).moved hm
  have hmem : e ∈ d.entriesOf b.id := by simp [he]
  have hbal := (h.accounts r hr).balanced e
    (List.mem_filter.mpr ⟨(List.mem_filter.mp hmem).1, by simp [hfor.walletId, hid]⟩)
  rw [← hfor.money]
  exact ⟨hbal.moneyCurrency, hbal.positive⟩

/-- What `t` reverses depends only on the columns that never change. -/
theorem Reverses.withProps {t t' b : WagerTransaction} (h : Reverses t b)
    (heq : t'.toCreateWagerTransactionProps = t.toCreateWagerTransactionProps) : Reverses t' b := by
  refine ⟨h.processed, ?_, ?_, ?_, ?_, ?_, ?_, ?_, ?_⟩ <;> rw [heq]
  · exact h.reference
  · exact h.providerId
  · exact h.playerId
  · exact h.walletId
  · exact h.roundId
  · exact h.money
  · exact h.refund
  · exact h.rollback

theorem Reverses.moves {t b : WagerTransaction} (h : Reverses t b)
    (hk : t.requiresReference = true) : Moves b := by
  refine ⟨h.processed, ?_⟩
  rcases WagerTransaction.requiresReference_iff.mp hk with hk | hk
  · simp [h.refund hk]
  · rcases h.rollback hk with hb | hb | hb <;> simp [hb]

section

variable {wallet : Wallet} {r : WalletRow} {newId : Nat → Id}

/-- The codes with which a movement is rejected fit the transaction. -/
theorem moveCode_fits (h : Consistent P d) (hs : Subject P own d tx)
    (href : ReferenceOk P d tx reference) (hr : r ∈ d.wallets)
    (hid : r.id = P.canonical tx.walletId) (hloss : tx.kind ≠ .loss)
    {direction : LedgerDirection} (hdir : tx.ledgerDirectionFor reference = .ok direction)
    {mctx : WalletMovementContext} {err : DomainError} {code : FailureCode}
    (hmove : move (toWalletDomain r) direction tx.money mctx = .error err)
    (hcode : classifyApplyFailure err tx.kind = some code) : CodeFits tx code := by
  have hopening := (hs.settling h).kind
  obtain ⟨-, hcredit, -⟩ := ledgerDirectionFor_ok hdir
  rcases move_rejected hmove hcode with ⟨hcur, rfl⟩ | ⟨rfl, -, rfl⟩
  · cases hrequires : tx.requiresReference with
    | true =>
      -- a reversal has the currency of its reference, which is the wallet's
      obtain ⟨b, -, hb, hrev⟩ := href.referenced hrequires
      have hbcur := (h.currency hb (hrev.moves hrequires) hr (hid.trans hrev.walletId.symm)).1
      have hmoney : b.money = tx.money := hrev.money
      exact absurd (hmoney ▸ hbcur) hcur
    | false =>
      have hkinds : tx.kind ≠ .refund ∧ tx.kind ≠ .rollback := by
        simpa [WagerTransaction.requiresReference, requiresReferenceFor] using hrequires
      change tx.kind = .bet ∨ tx.kind = .win
      cases hk : tx.kind <;> simp_all
  · split
    · assumption
    · rename_i hk
      change tx.kind = .bet
      by_contra hbet
      have hcontra := hcredit (by cases hk' : tx.kind <;> simp_all)
      simp at hcontra

theorem applyEffect_settles (h : Consistent P d) (hs : Subject P own d tx)
    (hw : HeldWallet P own d tx wallet r) (href : ReferenceOk P d tx reference)
    (hid₁ : NewId own d (newId 1)) (hid₂ : NewId own d (newId 2)) (hne : newId 1 ≠ newId 2)
    (hview : ∀ x ∈ d.wagerTransactions, x.id ≠ tx.id → x ∈ c.wagerTransactions)
    {out : WagerTransaction × Wallet × Writes}
    (hout : applyEffect P tx wallet reference ctx newId = .ok out)
    (honce : ∀ t ∈ out.2.2.wagerTransactions, c.violatesReferenceOnce t = false) :
    SettledAs P own d tx out.1 out.2.2 := by
  have hsettling := hs.settling h
  have hread := hw.read
  subst hread
  cases applyEffect_cases hsettling.unsettled hout with
  | lost kind =>
    have hrequires : tx.requiresReference = false := by
      simp [WagerTransaction.requiresReference, requiresReferenceFor, kind]
    obtain rfl := href.unreferenced hrequires
    refine ⟨rfl, ⟨hs, rfl, rfl, newMessages_single hid₁ (processed_envelopeOk _ _ _ _), rfl⟩, ?_⟩
    have hrow : toWagerTransactionEntity P (processedTransaction tx none ctx.now) =
        { toWagerTransactionEntity P tx with
          status := .processed
          processedAt := some ctx.now } := by
      simp [toWagerTransactionEntity, processedTransaction, hsettling.reference]
    exact .lost rfl rfl hw.owns hw.row hw.named kind hrow (describes_of _) rfl
  | rejected kind hdir hmove hcode hreject =>
    have hfits := moveCode_fits h hs href hw.row hw.named kind hdir hmove hcode
    exact reject_settles hs hsettling.unsettled hfits hid₁ hreject
  | @moved direction wallet' entry kind hdir hmove =>
    have haccount := h.accounts r hw.row
    have hspec := move_ok (P := P) haccount.player haccount.nonneg hmove
    have hrow : toWagerTransactionEntity P
        (processedTransaction tx (reference.map (·.id)) ctx.now) =
        { toWagerTransactionEntity P tx with
          status := .processed
          referenceTransactionId := reference.map (·.id)
          processedAt := some ctx.now } := rfl
    obtain ⟨hbet, hcredit, hrollback⟩ := ledgerDirectionFor_ok hdir
    have hwallet := balanceChanged_envelopeOk wallet' entry ctx (newId 2)
    refine ⟨rfl, ⟨hs, rfl, rfl,
      newMessages_pair hid₁ hid₂ hne (processed_envelopeOk _ _ _ _) hwallet, rfl⟩, ?_⟩
    refine .moved rfl rfl hw.owns hw.row hw.named kind hspec.moved ?_ hrow href.unreferenced ?_
      (describes_of _) ?_
    · exact ⟨hspec.transactionId, hspec.moved.walletId.trans hw.named, hspec.money,
        fun hk => hspec.direction.trans (hbet hk), fun hk => hspec.direction.trans (hcredit hk)⟩
    · intro hrequires
      obtain ⟨b, rfl, hb, hrev⟩ := href.referenced hrequires
      refine ⟨b, rfl, ⟨hrev.withProps rfl, hb, ?_⟩, ?_⟩
      · intro x hx hp _ hkind
        have honce := honce _ (List.mem_singleton.mpr rfl)
        have hxid : x.id ≠ tx.id := by
          intro heq
          have hterminal := (hsettling.old x hx heq).1
          simp [WagerTransaction.isTerminal, hp] at hterminal
        exact referenceOnce_ok honce rfl hrequires rfl x (hview x hx hxid) hxid hp hkind
      · rw [hspec.direction]
        rcases WagerTransaction.requiresReference_iff.mp hrequires with hk | hk
        · rw [hcredit (Or.inr (Or.inr hk)), hrev.refund hk]
          rfl
        · obtain ⟨b', hb', hdir'⟩ := hrollback hk
          obtain rfl : b = b' := Option.some.inj hb'
          exact hdir'
    · simp [Writes.data, movementWrites, OutboxMessage.enqueue, WagerTransactionProcessed.from,
        WalletBalanceChanged.from, IntegrationEvent.from, hspec.balance, WalletBalanceChanged.data,
        balanceChange, hspec.walletId, hspec.moved.walletId, toWalletEntity]

end

/-! ## Resolving the reference -/

theorem checkReference_resolved {x b : WagerTransaction} (h : checkReference tx x = .resolved b) :
    b = x ∧ sameOwner tx x = true ∧ validKind tx.kind x.kind = true ∧ x.status = .processed ∧
      tx.money = x.money := by
  unfold checkReference at h
  split at h
  · simp at h
  split at h
  · simp at h
  split at h
  · simp at h
  split at h
  · simp at h
  split at h
  · simp at h
  · rename_i howner hkind hpending hrejected hmoney
    refine ⟨by simpa using h.symm, by simpa using howner, by simpa using hkind, ?_, by
      simpa using hmoney⟩
    cases hx : x.status <;> simp [hx] at hpending hrejected ⊢

theorem checkReference_rejected {x : WagerTransaction} {code : FailureCode}
    (hkind : tx.requiresReference = true) (h : checkReference tx x = .rejected code) :
    CodeFits tx code := by
  unfold checkReference at h
  repeat' split at h
  all_goals first
    | simp at h
      done
    | obtain rfl : _ = code := by simpa using h
      exact hkind

theorem findReference_cases {resolution : ReferenceResolution}
    (h : findReference c tx = .ok resolution) :
    (∃ externalId, tx.referenceExternalTransactionId = some externalId ∧
      ∃ x ∈ c.wagerTransactions, x.providerId = tx.providerId ∧
        x.externalTransactionId = externalId ∧ checkReference tx x = resolution) ∨
      resolution = .pending := by
  unfold findReference at h
  split at h
  · simp at h
  · rename_i hmissing
    simp only [Except.ok.injEq] at h
    split at h
    · exact Or.inr h.symm
    · rename_i x hfound
      left
      cases href : tx.referenceExternalTransactionId with
      | none => simp [WagerTransaction.missingReference, href] at hmissing
      | some externalId =>
        obtain ⟨hx, hkey⟩ := lookup_mem hfound
        rw [href] at hkey
        obtain ⟨hprovider, hexternal⟩ := Prod.mk.inj hkey
        exact ⟨externalId, rfl, x, hx, hprovider, hexternal, h⟩

/-- A reference that is named is looked for. -/
theorem findReference_named {err : DomainError}
    (hnamed : WagerTransaction.missingReference tx.referenceExternalTransactionId = false) :
    findReference c tx ≠ .error err := by
  unfold findReference
  rw [if_neg (Bool.not_eq_true _ ▸ hnamed)]
  exact fun h => by cases h

theorem resolveReference_of_find {resolution : ReferenceResolution}
    (hfind : findReference c tx = .ok resolution)
    (hunresolved : ∀ reference, resolution ≠ .resolved reference) :
    resolveReference c tx = .ok resolution := by
  unfold resolveReference
  rw [hfind]
  cases resolution with
  | pending => rfl
  | rejected code => rfl
  | resolved reference => exact absurd rfl (hunresolved reference)

theorem findReference_resolved (hcanonical : ∀ x ∈ c.wagerTransactions,
      P.uuid x.walletId = some x.walletId ∧ P.uuid x.playerId = some x.playerId)
    {b : WagerTransaction} (h : findReference c tx = .ok (.resolved b)) :
    b ∈ c.wagerTransactions ∧ Reverses (toWagerTransactionEntity P tx) b ∧
      tx.walletId = b.walletId := by
  rcases findReference_cases h with ⟨externalId, href, x, hx, hprovider, hexternal, hcheck⟩ | hnone
  · obtain ⟨rfl, howner, hkind, hprocessed, hmoney⟩ := checkReference_resolved hcheck
    simp only [sameOwner, Bool.and_eq_true, decide_eq_true_eq] at howner
    obtain ⟨⟨⟨hplayer, hwallet⟩, hround⟩, -⟩ := howner
    obtain ⟨hcw, hcp⟩ := hcanonical b hx
    refine ⟨hx, ⟨hprocessed, by rw [hexternal]; exact href, hprovider, ?_, ?_, hround, hmoney.symm,
      ?_, ?_⟩, hwallet.symm⟩
    · change b.playerId = P.canonical tx.playerId
      rw [← hplayer, Platform.canonical_of_uuid hcp]
    · change b.walletId = P.canonical tx.walletId
      rw [← hwallet, Platform.canonical_of_uuid hcw]
    · intro hk
      have hk' : tx.kind = .refund := hk
      simpa [validKind, hk'] using hkind
    · intro hk
      have hk' : tx.kind = .rollback := hk
      simpa [validKind, hk', REVERSAL_ALLOWED_REFERENCE_KINDS] using hkind
  · simp at hnone

theorem findReference_rejected {code : FailureCode} (hkind : tx.requiresReference = true)
    (h : findReference c tx = .ok (.rejected code)) : CodeFits tx code := by
  rcases findReference_cases h with ⟨_, _, x, _, _, _, hcheck⟩ | hnone
  · exact checkReference_rejected hkind hcheck
  · simp at hnone

/-! ## These facts survive the steps of others -/

section

variable {own' : Resource → Prop} {d' : Database} (hown : ∀ k, own k → own' k) (f : Frame own d d')
include hown f

theorem HeldWallet.stable {wallet : Wallet} {r : WalletRow} (h : HeldWallet P own d tx wallet r) :
    HeldWallet P own' d' tx wallet r :=
  ⟨hown _ h.owns, f.ownWallet r h.row h.owns, h.read, h.named⟩

theorem SettledAs.stable {tx' : WagerTransaction} {w : Writes} (h : SettledAs P own d tx tx' w) :
    SettledAs P own' d' tx tx' w :=
  ⟨h.props, h.settles.stable hown f, h.outcome.stable hown f⟩

omit hown in
theorem ReferenceOk.stable (h : ReferenceOk P d tx reference) : ReferenceOk P d' tx reference := by
  refine ⟨h.unreferenced, fun hrequires => ?_⟩
  obtain ⟨b, hb, hmem, hrev⟩ := h.referenced hrequires
  exact ⟨b, hb, f.terminal b hmem (isTerminal_of_processed hrev.processed), hrev⟩

end

end WageringProcessor
