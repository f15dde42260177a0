import WageringProcessor.Invariants.Reprocess

/-!
# What the database accepts

No constraint and no trigger refuses a settlement, except the index that lets one reversal of each
kind undo a reference.
-/

namespace WageringProcessor

open Library.Table WagerTransactionFinalizer

variable {P : Platform} {own : Resource → Prop} {d d' : Database} {w : Writes}
  {tx tx' reference : WagerTransaction} {ctx : EventContext} {wallet : Wallet} {r : WalletRow}
  {newId : Nat → Id}

/-! ## The constraints and the triggers -/

theorem flush_eq_ok (hcheck : Database.violatesCheck w = false)
    (htrigger : d.violatesTrigger w = false)
    (honce : ∀ t ∈ w.wagerTransactions, d.violatesReferenceOnce t = false)
    (hentries : ∀ e ∈ w.ledgerEntries, d.violatesEntryOnce e = false) : d.flush w = .ok () := by
  have hunique : (w.wagerTransactions.any d.violatesReferenceOnce ||
      w.ledgerEntries.any d.violatesEntryOnce) = false := by
    rw [Bool.or_eq_false_iff, List.any_eq_false, List.any_eq_false]
    exact ⟨fun t ht => by simp [honce t ht], fun e he => by simp [hentries e he]⟩
  unfold Database.flush
  rw [hcheck, htrigger, hunique]
  rfl

theorem SettledAs.check (hc : Consistent P d) (h : SettledAs P own d tx tx' w) :
    Database.violatesCheck w = false := by
  have hmoney : ¬tx'.money.minorUnits < 0 := by
    have hsame : tx'.money = tx.money := congrArg (·.money) h.props
    have hnonneg : 0 ≤ tx.money.minorUnits := (h.settles.subject.settling hc).identity.money
    rw [hsame]
    omega
  have hrow : (w.wagerTransactions.any fun t => decide (t.money.minorUnits < 0)) = false := by
    rw [h.settles.row]
    simpa [toWagerTransactionEntity] using hmoney
  -- no wallet and no entry is written, or one of each by a movement that is balanced
  rcases h.outcome.effect with
    ⟨hwallets, hentries⟩ | ⟨w₀, w₁, e, hwallets, hentries, -, hmoved, -, -⟩
  · unfold Database.violatesCheck
    rw [hrow, hwallets, hentries]
    rfl
  · have hbalance : ¬w₁.balanceAmount < 0 := by
      have hafter := hmoved.balanced.afterNonneg
      rw [hmoved.after] at hafter
      exact Int.not_lt.mpr hafter
    have hpositive := hmoved.balanced.positive
    have hbefore := hmoved.balanced.beforeNonneg
    have hafter := hmoved.balanced.afterNonneg
    unfold Database.violatesCheck
    rw [hrow, hwallets, hentries]
    simp only [List.any_cons, List.any_nil, Bool.or_false, Bool.or_eq_false_iff,
      decide_eq_false_iff_not]
    omega

theorem SettledAs.trigger (hc : Consistent P d) (h : SettledAs P own d tx tx' w) :
    d.violatesTrigger w = false := by
  unfold Database.violatesTrigger
  rw [Bool.or_eq_false_iff, h.settles.row, List.any_eq_false, List.any_eq_false]
  constructor
  · intro t ht
    obtain rfl := List.mem_singleton.mp ht
    cases hfound : d.findWagerTransaction (toWagerTransactionEntity P tx').id with
    | none => simp
    | some old =>
      obtain ⟨hold, hid⟩ := lookup_mem hfound
      -- the row was open before
      have hopen := ((h.settles.subject.settling hc).old old hold (hid.trans h.settles.id)).1
      simp [hopen]
  · intro m hm
    have hnone : d.findOutboxMessage m.id = none :=
      lookup_eq_none.mpr (h.settles.messages.fresh m hm)
    simp [hnone]

theorem SettledAs.entries (hc : Consistent P d) (h : SettledAs P own d tx tx' w) :
    ∀ e ∈ w.ledgerEntries, d.violatesEntryOnce e = false := by
  intro e he
  have hid : e.transactionId = tx.id := by
    rcases h.outcome.effect with ⟨-, hnone⟩ | ⟨w₀, w₁, e', -, hone, -, -, hentry, -⟩
    · rw [hnone] at he
      exact absurd he List.not_mem_nil
    · rw [hone] at he
      obtain rfl := List.mem_singleton.mp he
      exact hentry.trans h.settles.id
  -- a row that is being settled has no entry yet
  have hnone := (h.settles.subject.settling hc).noEntries
  rw [Database.entriesOf, List.filter_eq_nil_iff] at hnone
  rw [Database.violatesEntryOnce, List.any_eq_false, hid]
  exact hnone

/-- A settlement is refused only as a second reversal. -/
theorem SettledAs.flush (hc : Consistent P d) (h : SettledAs P own d tx tx' w)
    (honce : ∀ t ∈ w.wagerTransactions, d.violatesReferenceOnce t = false) :
    d.flush w = .ok () :=
  flush_eq_ok (h.check hc) (h.trigger hc) honce (h.entries hc)

theorem not_violatesReferenceOnce {t : WagerTransaction} (h : t.status ≠ .processed) :
    d.violatesReferenceOnce t = false := by
  simp [Database.violatesReferenceOnce, h]

/-! ## Reversals -/

/-- Nothing has undone `reference` by a reversal of the kind of `tx`. -/
def NotReversed (d : Database) (tx reference : WagerTransaction) : Prop :=
  ∀ t ∈ d.wagerTransactions, t.status = .processed → t.kind = tx.kind →
    t.referenceTransactionId ≠ some reference.id

theorem notReversed_iff : NotReversed d tx reference ↔
    (d.findProcessedReversal reference.id tx.kind).isNone = true := by
  unfold Database.findProcessedReversal NotReversed
  rw [Option.isNone_iff_eq_none, List.find?_eq_none]
  constructor
  · intro h t ht hreversal
    simp only [Bool.and_eq_true, decide_eq_true_eq] at hreversal
    exact h t ht hreversal.2 hreversal.1.2 hreversal.1.1
  · intro h t ht hp hkind href
    exact h t ht (by simp [hp, hkind, href])

/-- While the wallet is locked, nobody else undoes the reference. -/
theorem NotReversed.stable (h : NotReversed d tx reference) (hc' : Consistent P d')
    (f : Frame own d d') (hheld : HeldWallet P own d tx wallet r)
    (href : ReferenceOk P d tx (some reference)) (hrequires : tx.requiresReference = true) :
    NotReversed d' tx reference := by
  obtain ⟨b, hb, hrow, hreverses⟩ := href.referenced hrequires
  obtain rfl := Option.some.inj hb
  intro t ht hp hkind hid
  have hrequiresT : t.requiresReference = true := by
    rw [WagerTransaction.requiresReference, hkind]
    exact hrequires
  obtain ⟨b', hreversal⟩ := (hc'.rows t ht).reversal hp hrequiresT
  have hrow' := f.terminal reference hrow (isTerminal_of_processed hreverses.processed)
  have hsame : b'.id = reference.id := Option.some.inj (hreversal.referenceId.symm.trans hid)
  obtain rfl := hc'.transaction_inj hreversal.row hrow' hsame
  -- a reversal names the wallet of its reference, and that wallet is locked
  have hwallet : t.walletId = r.id :=
    hreversal.walletId.symm.trans (hreverses.walletId.trans hheld.named.symm)
  exact h t (f.processed r hheld.row hheld.owns t ht hp hwallet) hp hkind hid

/-! ## The decisions of a reprocess run -/

theorem findReference_exists (hc : Consistent P d) (hlocked : LockedRow own d tx) :
    ∃ resolution, findReference d tx = .ok resolution := by
  have hrequires := (Reprocess.LockedRow.waiting hlocked hc).kind
  have hnamed := (hc.rows tx hlocked.row).identity.reference hrequires
  unfold findReference
  rw [if_neg (by rw [hnamed]; exact Bool.false_ne_true)]
  exact ⟨_, rfl⟩

/-- The wallet that a waiting row names exists. -/
theorem LockedRow.walletRow (hc : Consistent P d) (hlocked : LockedRow own d tx) :
    ∃ r ∈ d.wallets, r.id = tx.walletId ∧ P.uuid tx.walletId = some r.id := by
  have hidentity := (hc.rows tx hlocked.row).identity
  obtain ⟨r, hr, hid, -⟩ := hidentity.owner
  exact ⟨r, hr, hid, hid ▸ hidentity.wallet⟩

/-- `tx` after `reject`. -/
def rejectedTransaction (tx : WagerTransaction) (code : FailureCode) (at_ : Date) :
    WagerTransaction :=
  { tx with status := .rejected, failureCode := some code, processedAt := some at_ }

theorem reject_eq (hopen : tx.isTerminal = false) (code : FailureCode) (eventId : Id) :
    reject P tx code ctx eventId = .ok (rejectedTransaction tx code ctx.now,
      { wagerTransactions := [toWagerTransactionEntity P (rejectedTransaction tx code ctx.now)]
        outboxMessages :=
          [.enqueue (WagerTransactionRejected.from (rejectedTransaction tx code ctx.now) ctx
            eventId)] }) := by
  simp only [reject, WagerTransaction.reject_eq hopen, bind, Except.bind, pure, Except.pure]
  rfl

theorem decide_exists (ctx : EventContext) (hlocked : LockedRow own d tx)
    (failureCode : Option FailureCode)
    (eventId : Id) : ∃ w t, Reprocess.decide P tx ctx failureCode eventId = .ok w ∧
      w.wagerTransactions = [t] ∧ t.status ≠ .processed := by
  have hopen := not_terminal_of_pendingReference hlocked.status
  have hrejected : ∀ code, ∃ w, (reject P tx code ctx eventId).map Prod.snd = .ok w ∧
      w.wagerTransactions = [toWagerTransactionEntity P (rejectedTransaction tx code ctx.now)] := by
    intro code
    rw [reject_eq hopen]
    exact ⟨_, rfl, rfl⟩
  -- a rejection, a timeout, or another attempt
  unfold Reprocess.decide
  cases failureCode with
  | some code =>
    obtain ⟨w, hw, hrow⟩ := hrejected code
    exact ⟨w, _, hw, hrow, by simp [toWagerTransactionEntity, rejectedTransaction]⟩
  | none =>
    dsimp only
    split
    · obtain ⟨w, hw, hrow⟩ := hrejected .referenceResolutionTimeout
      exact ⟨w, _, hw, hrow, by simp [toWagerTransactionEntity, rejectedTransaction]⟩
    · simp only [markPendingReference, WagerTransaction.markPendingReference_eq hopen, bind,
        Except.bind, pure, Except.pure, Except.map]
      exact ⟨_, _, rfl, rfl, by simp [toWagerTransactionEntity]⟩

theorem decide_flushes (ctx : EventContext) (hc : Consistent P d) (hlocked : LockedRow own d tx)
    {failureCode : Option FailureCode} (hfits : ∀ code, failureCode = some code → CodeFits tx code)
    {eventId : Id} (hid : NewId own d eventId) :
    ∃ w, Reprocess.decide P tx ctx failureCode eventId = .ok w ∧ d.flush w = .ok () := by
  obtain ⟨w, t, hw, hrow, hstatus⟩ := decide_exists (P := P) ctx hlocked failureCode eventId
  obtain ⟨tx', hsettled⟩ := Reprocess.decide_settles hc hlocked hfits hid hw
  refine ⟨w, hw, hsettled.flush hc fun t' ht' => ?_⟩
  rw [hrow] at ht'
  obtain rfl := List.mem_singleton.mp ht'
  exact not_violatesReferenceOnce hstatus

/-! ## The effect of a reversal -/

/-- With the wallet's currency and a positive amount, only the balance stops a movement. -/
theorem move_error {direction : LedgerDirection} {money : Money} {mctx : WalletMovementContext}
    {err : DomainError} (hcurrency : money.currency = r.currency) (hpositive : 0 < money.minorUnits)
    (h : move (toWalletDomain r) direction money mctx = .error err) :
    ∃ walletId available requested, err = .insufficientBalance walletId available requested := by
  have hsame : ¬money.currency ≠ (toWalletDomain r).currency := not_not.mpr hcurrency
  have hpos : ¬money.minorUnits ≤ 0 := by omega
  cases direction with
  | debit =>
    rw [move, if_pos rfl, Wallet.debit_eq rfl, if_neg hsame, if_neg hpos] at h
    split at h
    · exact ⟨_, _, _, (Except.error.inj h).symm⟩
    · cases h
  | credit =>
    rw [move, if_neg (by decide), Wallet.credit_eq rfl, if_neg hsame, if_neg hpos] at h
    cases h

theorem ledgerDirectionFor_exists {t : WagerTransaction} (hrequires : tx.requiresReference = true)
    (hkind : t.kind = tx.kind) (hreverses : Reverses t reference) :
    ∃ direction, tx.ledgerDirectionFor (some reference) = .ok direction := by
  unfold WagerTransaction.ledgerDirectionFor
  rcases WagerTransaction.requiresReference_iff.mp hrequires with hk | hk
  · rw [hk]
    exact ⟨_, rfl⟩
  · rw [hk]
    dsimp only
    rcases hreverses.rollback (hkind.trans hk) with hb | hb | hb
    all_goals
      rw [hb]
      exact ⟨_, rfl⟩

/-- A reversal of a resolved reference is applied, or rejected for the balance. -/
theorem applyEffect_exists (ctx : EventContext) (newId : Nat → Id) (hc : Consistent P d)
    (hlocked : LockedRow own d tx)
    (hheld : HeldWallet P own d tx wallet r) (href : ReferenceOk P d tx (some reference)) :
    ∃ out, applyEffect P tx wallet (some reference) ctx newId = .ok out := by
  have hopen := not_terminal_of_pendingReference hlocked.status
  have hrequires := (Reprocess.LockedRow.waiting hlocked hc).kind
  obtain ⟨b, hb, hrow, hreverses⟩ := href.referenced hrequires
  obtain rfl := Option.some.inj hb
  -- the amount is that of the reference, which the wallet has moved before
  obtain ⟨hcurrency, hpositive⟩ := hc.currency hrow (hreverses.moves hrequires) hheld.row
    (hheld.named.trans hreverses.walletId.symm)
  have hmoney : reference.money = tx.money := hreverses.money
  rw [hmoney] at hcurrency hpositive
  have hkind : (toWagerTransactionEntity P tx).kind = tx.kind := rfl
  obtain ⟨direction, hdirection⟩ := ledgerDirectionFor_exists hrequires hkind hreverses
  have haffects : tx.affectsBalance = true := by
    rcases WagerTransaction.requiresReference_iff.mp hrequires with hk | hk <;>
      simp [WagerTransaction.affectsBalance, hk]
  unfold applyEffect
  simp only [haffects, Bool.not_true, Bool.false_eq_true, if_false, hdirection, bind, Except.bind]
  rw [hheld.read]
  cases hmove : move (toWalletDomain r) direction tx.money ⟨tx.id, newId 0, ctx.now⟩ with
  | error err =>
    -- the error for the balance is one that the catch block knows
    obtain ⟨_, _, _, rfl⟩ := move_error hcurrency hpositive hmove
    simp only [classifyApplyFailure]
    split
    · rename_i hcode
      split at hcode <;> cases hcode
    · rw [reject_eq hopen]
      exact ⟨_, rfl⟩
  | ok moved =>
    simp only [WagerTransaction.markProcessed_eq hopen, pure, Except.pure]
    exact ⟨_, rfl⟩

theorem applyEffect_once (hlocked : LockedRow own d tx) (hrequires : tx.requiresReference = true)
    (hopen : NotReversed d tx reference) {out : WagerTransaction × Wallet × Writes}
    (hout : applyEffect P tx wallet (some reference) ctx newId = .ok out) :
    ∀ t ∈ out.2.2.wagerTransactions, d.violatesReferenceOnce t = false := by
  have hunsettled := not_terminal_of_pendingReference hlocked.status
  intro t ht
  cases applyEffect_cases hunsettled hout with
  | lost kind => simp [WagerTransaction.requiresReference, requiresReferenceFor, kind] at hrequires
  | @rejected direction err code _ kind hdir hmove hcode hreject =>
    rw [reject_eq hunsettled] at hreject
    obtain rfl := Except.ok.inj hreject
    obtain rfl := List.mem_singleton.mp ht
    exact not_violatesReferenceOnce (by simp [toWagerTransactionEntity, rejectedTransaction])
  | moved kind hdir hmove =>
    obtain rfl := List.mem_singleton.mp ht
    -- a second reversal would be one that has undone the reference
    have hnone : ¬d.wagerTransactions.any (fun other => other.id ≠ tx.id &&
        other.status = .processed && other.kind = tx.kind &&
          other.referenceTransactionId = some reference.id) = true := by
      intro hany
      obtain ⟨other, hother, hsecond⟩ := List.any_eq_true.mp hany
      simp only [Bool.and_eq_true, decide_eq_true_eq] at hsecond
      exact hopen other hother hsecond.1.1.2 hsecond.1.2 hsecond.2
    show (_ && _) = false
    rw [Bool.and_eq_false_iff]
    exact Or.inr (Bool.not_eq_true _ ▸ hnone)

/-- It is refused only as a second reversal. -/
theorem applyEffect_flushes (ctx : EventContext) (hc : Consistent P d)
    (hlocked : LockedRow own d tx)
    (hheld : HeldWallet P own d tx wallet r) (href : ReferenceOk P d tx (some reference))
    (hopen : NotReversed d tx reference) (hid₁ : NewId own d (newId 1))
    (hid₂ : NewId own d (newId 2)) (hne : newId 1 ≠ newId 2) :
    ∃ out, applyEffect P tx wallet (some reference) ctx newId = .ok out ∧
      d.flush out.2.2 = .ok () := by
  obtain ⟨out, hout⟩ := applyEffect_exists ctx newId hc hlocked hheld href
  have hrequires := (Reprocess.LockedRow.waiting hlocked hc).kind
  have honce := applyEffect_once hlocked hrequires hopen hout
  have hsettled := applyEffect_settles hc (.locked hlocked) hheld href hid₁ hid₂ hne
    (fun _ hx _ => hx) hout honce
  exact ⟨out, hout, hsettled.flush hc honce⟩

end WageringProcessor
