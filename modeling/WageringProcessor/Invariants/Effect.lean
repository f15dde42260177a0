import WageringProcessor.Invariants.Flushing

/-!
# What the effect of a transaction is

`refusal` says when the wallet refuses a transaction, and `effect` what `applyEffect` leaves of it.
On a transaction whose reference was resolved `applyEffect` is this function, so it never
throws. -/

namespace WageringProcessor

open WagerTransactionFinalizer

variable {P : Platform} {d : Database} {tx : WagerTransaction} {wallet : Wallet}
  {reference : Option WagerTransaction} {ctx : EventContext} {newId : Nat → Id} {credited : Bool}

/-! ## The specification -/

/-- The code with which a transaction is rejected for its wallet; `credited` says that the
transaction which it reverses was a credit. -/
def refusal (tx : WagerTransaction) (wallet : Wallet) (credited : Bool) : Option FailureCode :=
  match tx.kind with
  | .loss | .refund => none
  | .opening | .win =>
    if tx.money.currency = wallet.currency then none else some .walletCurrencyMismatch
  | .bet =>
    if tx.money.currency ≠ wallet.currency then some .walletCurrencyMismatch
    else if tx.money.minorUnits ≤ wallet.balance.minorUnits then none
    else some .insufficientBalance
  | .rollback =>
    if credited ∧ wallet.balance.minorUnits < tx.money.minorUnits then
      some .rollbackInsufficientBalance
    else none

/-- The direction in which a transaction moves its wallet. -/
def effectDirection (kind : WagerTransactionKind) (credited : Bool) : LedgerDirection :=
  match kind with
  | .bet => .debit
  | .rollback => if credited then .debit else .credit
  | _ => .credit

/-- The balance after a movement of `money`. -/
def movedBalance (wallet : Wallet) (direction : LedgerDirection) (money : Money) : Money :=
  match direction with
  | .debit => ⟨wallet.balance.minorUnits - money.minorUnits, wallet.currency⟩
  | .credit => ⟨wallet.balance.minorUnits + money.minorUnits, wallet.currency⟩

/-- The rows of a rejection: the transaction and one event. -/
def rejectionWrites (P : Platform) (tx : WagerTransaction) (ctx : EventContext) (eventId : Id) :
    Writes where
  wagerTransactions := [toWagerTransactionEntity P tx]
  outboxMessages := [.enqueue (WagerTransactionRejected.from tx ctx eventId)]

/-- What is left of a transaction that the wallet does not refuse. -/
def acceptance (P : Platform) (tx : WagerTransaction) (wallet : Wallet)
    (reference : Option WagerTransaction) (credited : Bool) (ctx : EventContext)
    (newId : Nat → Id) : WagerTransaction × Wallet × Writes :=
  let tx' := processedTransaction tx (reference.map (·.id)) ctx.now
  if tx.kind = .loss then
    (tx', wallet, lossWrites P tx' wallet ctx (newId 1))
  else
    let direction := effectDirection tx.kind credited
    let balanceAfter := movedBalance wallet direction tx.money
    let wallet' := wallet.applyMovement balanceAfter ctx.now
    let entry := wallet.movementEntry direction tx.money balanceAfter ⟨tx.id, newId 0, ctx.now⟩
    (tx', wallet', movementWrites P tx' wallet' entry ctx newId)

def effect (P : Platform) (tx : WagerTransaction) (wallet : Wallet)
    (reference : Option WagerTransaction) (credited : Bool) (ctx : EventContext)
    (newId : Nat → Id) : WagerTransaction × Wallet × Writes :=
  match refusal tx wallet credited with
  | some code =>
    let tx' := rejectedTransaction tx code ctx.now
    (tx', wallet, rejectionWrites P tx' ctx (newId 1))
  | none => acceptance P tx wallet reference credited ctx newId

theorem effect_refused {code : FailureCode} (h : refusal tx wallet credited = some code) :
    effect P tx wallet reference credited ctx newId = (rejectedTransaction tx code ctx.now, wallet,
      rejectionWrites P (rejectedTransaction tx code ctx.now) ctx (newId 1)) := by
  unfold effect
  rw [h]

theorem effect_accepted (h : refusal tx wallet credited = none) :
    effect P tx wallet reference credited ctx newId =
      acceptance P tx wallet reference credited ctx newId := by
  unfold effect
  rw [h]

/-- A movement that is not refused is in the wallet's currency, unless it is a reversal. -/
theorem refusal_currency (h : refusal tx wallet credited = none) (hloss : tx.kind ≠ .loss)
    (hrequires : tx.requiresReference = false) : tx.money.currency = wallet.currency := by
  unfold refusal at h
  cases hkind : tx.kind with
  | loss => exact absurd hkind hloss
  | refund | rollback =>
    simp [WagerTransaction.requiresReference, requiresReferenceFor, hkind] at hrequires
  | opening | win =>
    rw [hkind] at h
    by_contra hne
    simp [hne] at h
  | bet =>
    rw [hkind] at h
    by_contra hne
    simp [hne] at h

/-- A debit that is not refused is covered by the balance. -/
theorem refusal_covered (h : refusal tx wallet credited = none)
    (hdebit : effectDirection tx.kind credited = .debit) :
    tx.money.minorUnits ≤ wallet.balance.minorUnits := by
  unfold refusal at h
  cases hkind : tx.kind with
  | opening | win | loss | refund =>
    rw [hkind] at hdebit
    cases hdebit
  -- a bet is refused unless the balance covers it
  | bet =>
    rw [hkind] at h
    dsimp only at h
    by_contra hlt
    rw [if_neg hlt] at h
    split at h <;> cases h
  -- a rollback debits only what was credited
  | rollback =>
    rw [hkind] at h hdebit
    dsimp only at h
    by_contra hlt
    have hcredited : credited = true := by
      cases credited with
      | true => rfl
      | false => cases hdebit
    have hshort : credited ∧ wallet.balance.minorUnits < tx.money.minorUnits :=
      ⟨hcredited, by omega⟩
    rw [if_pos hshort] at h
    cases h

/-! ## The movement -/

section

variable {direction : LedgerDirection} {money : Money} {mctx : WalletMovementContext}

theorem move_currency (hread : wallet.balance.currency = wallet.currency)
    (h : money.currency ≠ wallet.currency) : move wallet direction money mctx =
      .error (.currencyMismatch wallet.currency.code money.currency.code) := by
  cases direction with
  | debit => rw [move, if_pos rfl, Wallet.debit_eq hread, if_pos h]
  | credit => rw [move, if_neg (by decide), Wallet.credit_eq hread, if_pos h]

theorem move_insufficient (hread : wallet.balance.currency = wallet.currency)
    (h : money.currency = wallet.currency)
    (hlt : wallet.balance.minorUnits < money.minorUnits) : move wallet .debit money mctx =
      .error (.insufficientBalance wallet.id wallet.balance.toJSON.amount
        money.toJSON.amount) := by
  rw [move, if_pos rfl, Wallet.debit_eq hread, if_neg (not_not.mpr h), if_pos hlt]

theorem move_moves (hread : wallet.balance.currency = wallet.currency)
    (h : money.currency = wallet.currency) (hpositive : 0 < money.minorUnits)
    (hcovered : direction = .debit → money.minorUnits ≤ wallet.balance.minorUnits) :
    move wallet direction money mctx =
      .ok (wallet.applyMovement (movedBalance wallet direction money) mctx.now,
        wallet.movementEntry direction money (movedBalance wallet direction money) mctx) := by
  have hpos : ¬money.minorUnits ≤ 0 := by omega
  cases direction with
  | debit =>
    have hlt : ¬wallet.balance.minorUnits < money.minorUnits := Int.not_lt.mpr (hcovered rfl)
    rw [move, if_pos rfl, Wallet.debit_eq hread, if_neg (not_not.mpr h), if_neg hlt, if_neg hpos]
    rfl
  | credit =>
    rw [move, if_neg (by decide), Wallet.credit_eq hread, if_neg (not_not.mpr h), if_neg hpos]
    rfl

end

/-! ## The effect -/

/-- What `applyEffect` relies on where it is called: for a reversal a reference that gives the
direction and has the wallet's currency. -/
structure Effective (tx : WagerTransaction) (wallet : Wallet)
    (reference : Option WagerTransaction) (credited : Bool) : Prop where
  unsettled : tx.isTerminal = false
  positive : tx.kind ≠ .loss → tx.money.currency = wallet.currency → 0 < tx.money.minorUnits
  read : wallet.balance.currency = wallet.currency
  direction : tx.kind ≠ .loss →
    tx.ledgerDirectionFor reference = .ok (effectDirection tx.kind credited)
  currency : tx.requiresReference = true → tx.money.currency = wallet.currency

/-- A movement that the wallet refuses. -/
theorem applyEffect_refused {err : DomainError} {code : FailureCode}
    (h : Effective tx wallet reference credited) (hloss : tx.kind ≠ .loss)
    (hmove : move wallet (effectDirection tx.kind credited) tx.money
      ⟨tx.id, newId 0, ctx.now⟩ = .error err)
    (hcode : classifyApplyFailure err tx.kind = some code) :
    applyEffect P tx wallet reference ctx newId =
      .ok (rejectedTransaction tx code ctx.now, wallet,
        rejectionWrites P (rejectedTransaction tx code ctx.now) ctx (newId 1)) := by
  have haffects : tx.affectsBalance = true := decide_eq_true hloss
  unfold applyEffect
  simp only [haffects, Bool.not_true, Bool.false_eq_true, if_false, h.direction hloss, bind,
    Except.bind, hmove, hcode, reject_eq h.unsettled, pure, Except.pure]
  rfl

/-- A movement that the wallet accepts. -/
theorem applyEffect_accepted (h : Effective tx wallet reference credited) (hloss : tx.kind ≠ .loss)
    (hcurrency : tx.money.currency = wallet.currency)
    (hcovered : effectDirection tx.kind credited = .debit →
      tx.money.minorUnits ≤ wallet.balance.minorUnits) :
    applyEffect P tx wallet reference ctx newId =
      .ok (acceptance P tx wallet reference credited ctx newId) := by
  have haffects : tx.affectsBalance = true := decide_eq_true hloss
  have hmove := @move_moves wallet _ _ ⟨tx.id, newId 0, ctx.now⟩ h.read hcurrency
    (h.positive hloss hcurrency) hcovered
  unfold applyEffect acceptance
  simp only [haffects, Bool.not_true, Bool.false_eq_true, if_false, h.direction hloss, bind,
    Except.bind, hmove, WagerTransaction.markProcessed_eq h.unsettled, pure, Except.pure, hloss]
  rfl

theorem applyEffect_loss (h : Effective tx wallet reference credited) (hloss : tx.kind = .loss) :
    applyEffect P tx wallet reference ctx newId =
      .ok (acceptance P tx wallet reference credited ctx newId) := by
  have haffects : tx.affectsBalance = false := by simp [WagerTransaction.affectsBalance, hloss]
  unfold applyEffect acceptance
  simp only [haffects, Bool.not_false, if_true, WagerTransaction.markProcessed_eq h.unsettled, bind,
    Except.bind, pure, Except.pure, hloss]
  rfl

theorem applyEffect_eq (h : Effective tx wallet reference credited) :
    applyEffect P tx wallet reference ctx newId =
      .ok (effect P tx wallet reference credited ctx newId) := by
  unfold effect refusal
  -- the kinds whose reference fixes the currency are not checked for it
  cases hkind : tx.kind with
  | loss => exact applyEffect_loss h hkind
  | refund =>
    have hcurrency := h.currency (by simp [WagerTransaction.requiresReference_iff, hkind])
    refine applyEffect_accepted h (by simp [hkind]) hcurrency fun hdebit => ?_
    rw [hkind] at hdebit
    cases hdebit
  | opening | win =>
    dsimp only
    by_cases hcurrency : tx.money.currency = wallet.currency
    · rw [if_pos hcurrency]
      refine applyEffect_accepted h (by simp [hkind]) hcurrency fun hdebit => ?_
      rw [hkind] at hdebit
      cases hdebit
    · rw [if_neg hcurrency]
      exact applyEffect_refused h (by simp [hkind]) (move_currency h.read hcurrency) rfl
  | bet =>
    dsimp only
    by_cases hcurrency : tx.money.currency = wallet.currency
    · rw [if_neg (not_not.mpr hcurrency)]
      by_cases hcovered : tx.money.minorUnits ≤ wallet.balance.minorUnits
      · rw [if_pos hcovered]
        exact applyEffect_accepted h (by simp [hkind]) hcurrency fun _ => hcovered
      · rw [if_neg hcovered]
        -- the debit throws, and the catch block rejects
        have hdebit : effectDirection tx.kind credited = .debit := by
          rw [hkind]
          rfl
        have hmove := @move_insufficient wallet tx.money ⟨tx.id, newId 0, ctx.now⟩ h.read hcurrency
          (by omega)
        rw [← hdebit] at hmove
        exact applyEffect_refused h (by simp [hkind]) hmove (by simp [classifyApplyFailure, hkind])
    · rw [if_pos hcurrency]
      exact applyEffect_refused h (by simp [hkind]) (move_currency h.read hcurrency) rfl
  | rollback =>
    dsimp only
    have hcurrency := h.currency (by simp [WagerTransaction.requiresReference_iff, hkind])
    by_cases hshort : credited ∧ wallet.balance.minorUnits < tx.money.minorUnits
    · rw [if_pos hshort]
      have hdebit : effectDirection tx.kind credited = .debit := by
        rw [hkind]
        exact if_pos hshort.1
      have hmove := @move_insufficient wallet tx.money ⟨tx.id, newId 0, ctx.now⟩ h.read hcurrency
        hshort.2
      rw [← hdebit] at hmove
      exact applyEffect_refused h (by simp [hkind]) hmove (by simp [classifyApplyFailure, hkind])
    · rw [if_neg hshort]
      refine applyEffect_accepted h (by simp [hkind]) hcurrency fun hdebit => ?_
      rw [hkind] at hdebit
      have hcredited : credited = true := by
        cases credited with
        | true => rfl
        | false => cases hdebit
      exact Int.not_lt.mp fun hlt => hshort ⟨hcredited, hlt⟩

/-! ## Where it is called -/

theorem effectDirection_unreferenced (hloss : tx.kind ≠ .loss)
    (hrequires : tx.requiresReference = false) :
    tx.ledgerDirectionFor reference = .ok (effectDirection tx.kind credited) := by
  have hnot : tx.kind ≠ .refund ∧ tx.kind ≠ .rollback := by
    simpa [WagerTransaction.requiresReference, requiresReferenceFor] using hrequires
  unfold WagerTransaction.ledgerDirectionFor
  cases hkind : tx.kind with
  | loss => exact absurd hkind hloss
  | refund => exact absurd hkind hnot.1
  | rollback => exact absurd hkind hnot.2
  | _ => rfl

theorem effectDirection_referenced {b : WagerTransaction} (hrequires : tx.requiresReference = true)
    (hreverses : Reverses (toWagerTransactionEntity P tx) b)
    (hcredited : credited = decide (b.kind ≠ .bet)) :
    tx.ledgerDirectionFor (some b) = .ok (effectDirection tx.kind credited) := by
  unfold WagerTransaction.ledgerDirectionFor
  rcases WagerTransaction.requiresReference_iff.mp hrequires with hkind | hkind
  · rw [hkind]
    rfl
  · have hkind' : (toWagerTransactionEntity P tx).kind = .rollback := hkind
    rw [hkind, hcredited]
    dsimp only
    rcases hreverses.rollback hkind' with hb | hb | hb
    all_goals
      rw [hb]
      rfl

/-- Without a reference any open transaction has an effect. -/
theorem Effective.unreferenced (hopen : tx.isTerminal = false)
    (hpositive : tx.kind ≠ .loss → tx.money.currency = wallet.currency → 0 < tx.money.minorUnits)
    (hread : wallet.balance.currency = wallet.currency) (hrequires : tx.requiresReference = false) :
    Effective tx wallet reference credited :=
  ⟨hopen, hpositive, hread, fun hloss => effectDirection_unreferenced hloss hrequires,
    fun h => absurd h (by simp [hrequires])⟩

/-- With a reference that it may reverse, a reversal of a row of the wallet has an effect. -/
theorem Effective.referenced {b : WagerTransaction} {r : WalletRow} (hc : Consistent P d)
    (hopen : tx.isTerminal = false) (hrequires : tx.requiresReference = true)
    (hb : b ∈ d.wagerTransactions) (hreverses : Reverses (toWagerTransactionEntity P tx) b)
    (hr : r ∈ d.wallets) (hid : r.id = b.walletId) (hcredited : credited = decide (b.kind ≠ .bet)) :
    Effective tx (toWalletDomain r) (some b) credited := by
  have hmoney : b.money = tx.money := hreverses.money
  obtain ⟨hcurrency, hpositive⟩ := hc.currency hb (hreverses.moves hrequires) hr hid
  rw [hmoney] at hcurrency hpositive
  exact ⟨hopen, fun _ _ => hpositive, rfl, fun _ =>
    effectDirection_referenced hrequires hreverses hcredited,
    fun _ => hcurrency⟩

/-- A movement of 0.00 in the currency of the wallet. -/
theorem applyEffect_zero (hread : wallet.balance.currency = wallet.currency)
    (hnonneg : 0 ≤ wallet.balance.minorUnits) (hloss : tx.kind ≠ .loss)
    (hrequires : tx.requiresReference = false) (hcurrency : tx.money.currency = wallet.currency)
    (hzero : tx.money.minorUnits = 0) :
    applyEffect P tx wallet none ctx newId = .error .unbalancedLedgerEntry := by
  have hdirection := @effectDirection_unreferenced tx none false hloss hrequires
  -- no check refuses the movement before the entry is built, which must be positive
  have hmove : move wallet (effectDirection tx.kind false) tx.money ⟨tx.id, newId 0, ctx.now⟩ =
      .error .unbalancedLedgerEntry := by
    have hle : tx.money.minorUnits ≤ 0 := by omega
    have hlt : ¬wallet.balance.minorUnits < tx.money.minorUnits := by omega
    cases hd : effectDirection tx.kind false with
    | debit =>
      rw [move, if_pos rfl, Wallet.debit_eq hread, if_neg (not_not.mpr hcurrency), if_neg hlt,
        if_pos hle]
    | credit =>
      rw [move, if_neg (by decide), Wallet.credit_eq hread, if_neg (not_not.mpr hcurrency),
        if_pos hle]
  have haffects : tx.affectsBalance = true := decide_eq_true hloss
  unfold applyEffect
  simp only [haffects, Bool.not_true, Bool.false_eq_true, if_false, hdirection, bind, Except.bind,
    hmove]
  rfl

/-! ## The row of a decision -/

/-- A decision on `tx` writes the row of `tx'`, which has the columns of `tx` that never change. -/
structure WritesRow (P : Platform) (tx tx' : WagerTransaction) (w : Writes) : Prop where
  row : w.wagerTransactions = [toWagerTransactionEntity P tx']
  props : tx'.toCreateWagerTransactionProps = tx.toCreateWagerTransactionProps

theorem WritesRow.mem {tx' t : WagerTransaction} {w : Writes} (h : WritesRow P tx tx' w)
    (ht : t ∈ w.wagerTransactions) : t = toWagerTransactionEntity P tx' := by
  rw [h.row] at ht
  exact List.mem_singleton.mp ht

theorem reject_row {code : FailureCode} {eventId : Id} {out : WagerTransaction × Writes}
    (hopen : tx.isTerminal = false) (hout : reject P tx code ctx eventId = .ok out) :
    WritesRow P tx out.1 out.2 ∧ out.1 = rejectedTransaction tx code ctx.now := by
  rw [reject_eq hopen] at hout
  obtain rfl := Except.ok.inj hout
  exact ⟨⟨rfl, rfl⟩, rfl⟩

/-- `tx` after `markPendingReference`. -/
def parkedTransaction (tx : WagerTransaction) (now : Date) : WagerTransaction :=
  { tx with
    status := .pendingReference
    referenceRetryAttempts := tx.referenceRetryAttempts + 1
    nextReferenceRetryAt := some (now + computeReferenceBackoffMs tx.referenceRetryAttempts) }

/-- The rows of a transaction that waits: itself and one event. -/
def parkingWrites (P : Platform) (tx : WagerTransaction) (ctx : EventContext) (eventId : Id) :
    Writes where
  wagerTransactions := [toWagerTransactionEntity P tx]
  outboxMessages := [.enqueue (WagerTransactionPendingReference.from tx ctx eventId)]

theorem markPendingReference_eq (hopen : tx.isTerminal = false) (eventId : Id) :
    markPendingReference P tx ctx eventId = .ok (parkedTransaction tx ctx.now,
      parkingWrites P (parkedTransaction tx ctx.now) ctx eventId) := by
  simp only [markPendingReference, WagerTransaction.markPendingReference_eq hopen, bind,
    Except.bind, pure, Except.pure]
  rfl

theorem markPendingReference_row {eventId : Id} {out : WagerTransaction × Writes}
    (hopen : tx.isTerminal = false) (hout : markPendingReference P tx ctx eventId = .ok out) :
    WritesRow P tx out.1 out.2 ∧ out.1 = parkedTransaction tx ctx.now := by
  rw [markPendingReference_eq hopen] at hout
  obtain rfl := Except.ok.inj hout
  exact ⟨⟨rfl, rfl⟩, rfl⟩

theorem applyEffect_row {out : WagerTransaction × Wallet × Writes} (hopen : tx.isTerminal = false)
    (hout : applyEffect P tx wallet reference ctx newId = .ok out) :
    WritesRow P tx out.1 out.2.2 := by
  cases applyEffect_cases hopen hout with
  | lost kind => exact ⟨rfl, rfl⟩
  | rejected kind hdir hmove hcode hreject => exact (reject_row hopen hreject).1
  | moved kind hdir hmove => exact ⟨rfl, rfl⟩

theorem Submit.decide_row {resolution : Option ReferenceResolution}
    {out : WagerTransaction × Wallet × Writes} (hopen : tx.isTerminal = false)
    (hout : Submit.decide P wallet tx ctx resolution newId = .ok out) :
    WritesRow P tx out.1 out.2.2 := by
  match resolution with
  | none | some (.resolved b) => exact applyEffect_row hopen hout
  | some .pending =>
    obtain ⟨out', hmark, hout⟩ := ok_of_bind hout
    obtain rfl := Except.ok.inj hout
    exact (markPendingReference_row hopen hmark).1
  | some (.rejected code) =>
    obtain ⟨out', hreject, hout⟩ := ok_of_bind hout
    obtain rfl := Except.ok.inj hout
    exact (reject_row hopen hreject).1

/-- The transaction that a reprocess run leaves of an item whose reference is not resolved. -/
def retriedTransaction (tx : WagerTransaction) (failureCode : Option FailureCode) (now : Date) :
    WagerTransaction :=
  match failureCode with
  | some failureCode => rejectedTransaction tx failureCode now
  | none =>
    if MAX_REFERENCE_RETRY_ATTEMPTS ≤ tx.referenceRetryAttempts then
      rejectedTransaction tx .referenceResolutionTimeout now
    else parkedTransaction tx now

theorem Reprocess.decide_row {failureCode : Option FailureCode} {eventId : Id} {w : Writes}
    (hopen : tx.isTerminal = false)
    (hout : Reprocess.decide P tx ctx failureCode eventId = .ok w) :
    WritesRow P tx (retriedTransaction tx failureCode ctx.now) w ∧ w.wallets = [] ∧
      w.ledgerEntries = [] := by
  have hrejected : ∀ code, (reject P tx code ctx eventId).map Prod.snd = .ok w →
      WritesRow P tx (rejectedTransaction tx code ctx.now) w ∧ w.wallets = [] ∧
        w.ledgerEntries = [] := by
    intro code hmap
    rw [reject_eq hopen] at hmap
    obtain rfl := Except.ok.inj hmap
    exact ⟨⟨rfl, rfl⟩, rfl, rfl⟩
  unfold Reprocess.decide at hout
  unfold retriedTransaction
  cases failureCode with
  | some code => exact hrejected code hout
  | none =>
    dsimp only at hout ⊢
    -- the last attempt rejects, the others park again
    split at hout
    · rename_i hmax
      rw [if_pos hmax]
      exact hrejected _ hout
    · rename_i hmax
      rw [if_neg hmax]
      rw [markPendingReference_eq hopen] at hout
      obtain rfl := Except.ok.inj hout
      exact ⟨⟨rfl, rfl⟩, rfl, rfl⟩

end WageringProcessor
