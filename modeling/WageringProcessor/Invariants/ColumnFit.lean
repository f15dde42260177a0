import WageringProcessor.Invariants.Finalizing
import WageringProcessor.Persistence.Columns

/-!
# When a decision fits its columns

What a submit decides fits the columns exactly when the row of its transaction does, the texts of
its event do, and the balance and the version of the wallet that it leaves do.
-/

namespace WageringProcessor

open WagerTransactionFinalizer

variable {P : Platform} {tx : WagerTransaction} {wallet : Wallet} {ctx : EventContext}
  {newId : Nat → Id} {reference : Option WagerTransaction} {credited : Bool}
  {resolution : Option ReferenceResolution}

/-- The texts of an event about a transaction fit. -/
def eventFits (tx : WagerTransaction) (ctx : EventContext) : Bool :=
  fitsVarchar 256 tx.walletId && isText ctx.correlationId && ctx.causationId.all isText &&
    isText tx.playerId

/-- If the transaction moves the wallet, the balance that it leaves fits, and so does the
version. -/
def movementFits (wallet : Wallet) (tx : WagerTransaction) (credited : Bool) : Bool :=
  (refusal tx wallet credited).isSome || tx.kind = .loss ||
    fitsVarchar 256 wallet.id && fitsBigint wallet.balance.minorUnits &&
      fitsBigint (movedBalance wallet (effectDirection tx.kind credited) tx.money).minorUnits &&
        fitsInteger (wallet.version + 1)

def Submit.resolutionFits (wallet : Wallet) (tx : WagerTransaction) :
    Option ReferenceResolution → Bool
  | none => movementFits wallet tx false
  | some (.resolved b) => movementFits wallet tx (b.kind ≠ .bet)
  | some _ => true

/-! ## What is written -/

theorem WagerTransaction.texts_of_fits (h : tx.fits = true) :
    (WagerTransactionData.of tx).texts.all isText =
      (isText tx.playerId && isText tx.walletId) ∧
        tx.referenceExternalTransactionId.toList.all isText = true := by
  simp only [WagerTransaction.fits, Bool.and_eq_true] at h
  obtain ⟨⟨⟨⟨⟨⟨hprovider, hexternal⟩, -⟩, hround⟩, hgame⟩, -⟩, hreference⟩ := h
  constructor
  · simp [WagerTransactionData.of, WagerTransactionData.texts, isText_of_fitsVarchar hprovider,
      isText_of_fitsVarchar hexternal, isText_of_fitsVarchar hround, isText_of_fitsVarchar hgame]
  · cases hname : tx.referenceExternalTransactionId with
    | none => rfl
    | some name =>
      rw [hname] at hreference
      simp [isText_of_fitsVarchar hreference]

theorem all_toList {f : String → Bool} {o : Option String} : o.toList.all f = o.all f := by
  cases o with
  | none => rfl
  | some t => exact Bool.and_true _

/-- The event about a transaction whose row fits. -/
theorem event_fits {e : IntegrationEvent} (hrow : tx.fits = true)
    (haggregate : e.aggregateId = tx.walletId) (hcorrelation : e.correlationId = ctx.correlationId)
    (hcausation : e.causationId = ctx.causationId)
    (htexts : e.data.texts.all isText = (WagerTransactionData.of tx).texts.all isText) :
    (OutboxMessage.enqueue e).fits = eventFits tx ctx := by
  obtain ⟨hdata, -⟩ := WagerTransaction.texts_of_fits hrow
  unfold OutboxMessage.fits OutboxMessage.enqueue IntegrationEvent.texts eventFits
  rw [haggregate, hcorrelation, hcausation, List.all_cons, List.all_cons, List.all_append, htexts,
    hdata, all_toList, fitsInteger, decide_eq_true (Nat.zero_le _), Bool.and_true]
  cases hwallet : fitsVarchar 256 tx.walletId with
  | false => rfl
  | true =>
    rw [isText_of_fitsVarchar hwallet, Bool.true_and, Bool.true_and, Bool.true_and, Bool.and_true,
      Bool.and_assoc]

/-- A write of one transaction and of one event about it. -/
theorem row_fits {tx' : WagerTransaction} {w : Writes} {e : IntegrationEvent}
    (hrow : WritesRow P tx tx' w) (hwallets : w.wallets = []) (hentries : w.ledgerEntries = [])
    (hinbox : w.inboxMessages = []) (hevent : w.outboxMessages = [.enqueue e])
    (hfits : tx.fits = true → (OutboxMessage.enqueue e).fits = eventFits tx ctx) :
    w.fits = (tx.fits && eventFits tx ctx) := by
  have hsame : (toWagerTransactionEntity P tx').fits = tx.fits := by
    show tx'.fits = tx.fits
    unfold WagerTransaction.fits
    rw [hrow.props]
  unfold Writes.fits
  rw [hwallets, hentries, hinbox, hevent, hrow.row]
  simp only [List.all_nil, List.all_cons, Bool.true_and, Bool.and_true, hsame]
  cases htx : tx.fits with
  | false => rfl
  | true => rw [hfits htx]

theorem rejection_fits (code : FailureCode) (now : Date) (id : Id) :
    (rejectionWrites P (rejectedTransaction tx code now) ctx id).fits =
      (tx.fits && eventFits tx ctx) :=
  row_fits (⟨rfl, rfl⟩ : WritesRow P tx (rejectedTransaction tx code now) _) rfl rfl rfl rfl
    fun hrow => event_fits hrow rfl rfl rfl rfl

theorem parking_fits (now : Date) (id : Id) :
    (parkingWrites P (parkedTransaction tx now) ctx id).fits = (tx.fits && eventFits tx ctx) := by
  refine row_fits (⟨rfl, rfl⟩ : WritesRow P tx (parkedTransaction tx now) _) rfl rfl rfl rfl
    fun hrow => event_fits hrow rfl rfl rfl ?_
  -- the reference is a text of the row as well
  obtain ⟨-, hreference⟩ := WagerTransaction.texts_of_fits hrow
  show ((WagerTransactionData.of tx).texts ++ _).all isText = _
  rw [List.all_append]
  exact (congrArg _ hreference).trans (Bool.and_true _)

theorem movement_fits {direction : LedgerDirection} {balanceAfter : Money} (id : Option Id)
    (now : Date) (move : WalletMovementContext) :
    (movementWrites P (processedTransaction tx id now) (wallet.applyMovement balanceAfter now)
        (wallet.movementEntry direction tx.money balanceAfter move) ctx newId).fits =
      (tx.fits && eventFits tx ctx && (fitsVarchar 256 wallet.id &&
        fitsBigint wallet.balance.minorUnits && fitsBigint balanceAfter.minorUnits &&
          fitsInteger (wallet.version + 1))) := by
  let tx' := processedTransaction tx id now
  let wallet' := wallet.applyMovement balanceAfter now
  let entry := wallet.movementEntry direction tx.money balanceAfter move
  show ((fitsBigint balanceAfter.minorUnits && fitsInteger (wallet.version + 1) && true) &&
    (tx.fits && true) && ((fitsBigint tx.money.minorUnits && fitsBigint wallet.balance.minorUnits &&
      fitsBigint balanceAfter.minorUnits) && true) &&
        ((OutboxMessage.enqueue (WagerTransactionProcessed.from tx' wallet'.balance ctx
            (newId 1))).fits &&
          ((OutboxMessage.enqueue (WalletBalanceChanged.from wallet' entry ctx (newId 2))).fits &&
            true)) && true) = _
  cases hrow : tx.fits with
  | false => simp
  | true =>
    have hmoney : fitsBigint tx.money.minorUnits = true := by
      simp only [WagerTransaction.fits, Bool.and_eq_true] at hrow
      exact hrow.1.2
    have hevent : (OutboxMessage.enqueue (WagerTransactionProcessed.from tx' wallet'.balance ctx
        (newId 1))).fits = eventFits tx ctx := event_fits hrow rfl rfl rfl rfl
    rw [hevent, hmoney]
    cases hfits : eventFits tx ctx with
    | false => simp
    | true =>
      have hchanged : (OutboxMessage.enqueue (WalletBalanceChanged.from wallet' entry ctx
          (newId 2))).fits = fitsVarchar 256 wallet.id := by
        show (fitsVarchar 256 wallet.id && (isText wallet.id && (isText ctx.correlationId &&
          (ctx.causationId.toList ++ []).all isText)) && true) = _
        unfold eventFits at hfits
        simp only [Bool.and_eq_true] at hfits
        obtain ⟨⟨⟨-, hcorrelation⟩, hcausation⟩, -⟩ := hfits
        rw [List.append_nil, all_toList, hcorrelation, hcausation, Bool.and_true, Bool.and_true,
          Bool.and_true]
        cases hwallet : fitsVarchar 256 wallet.id with
        | false => rfl
        | true => exact isText_of_fitsVarchar hwallet
      rw [hchanged]
      cases fitsVarchar 256 wallet.id <;> cases fitsBigint wallet.balance.minorUnits <;>
        cases fitsBigint balanceAfter.minorUnits <;> simp

theorem effect_fits :
    (effect P tx wallet reference credited ctx newId).2.2.fits =
      (tx.fits && eventFits tx ctx && movementFits wallet tx credited) := by
  unfold movementFits
  cases hrefusal : refusal tx wallet credited with
  | some code => rw [effect_refused hrefusal, rejection_fits, Option.isSome_some, Bool.true_or,
      Bool.true_or, Bool.and_true]
  | none =>
    rw [effect_accepted hrefusal]
    unfold acceptance
    by_cases hloss : tx.kind = .loss
    · have hrow : WritesRow P tx (processedTransaction tx (reference.map (·.id)) ctx.now)
          (lossWrites P (processedTransaction tx (reference.map (·.id)) ctx.now) wallet ctx
            (newId 1)) := ⟨rfl, rfl⟩
      rw [if_pos hloss, decide_eq_true hloss, Option.isSome_none, Bool.false_or, Bool.true_or,
        Bool.and_true]
      exact row_fits hrow rfl rfl rfl rfl fun htx => event_fits htx rfl rfl rfl rfl
    · rw [if_neg hloss, decide_eq_false hloss]
      exact movement_fits _ _ _

theorem Submit.decision_fits :
    (decision P wallet tx ctx newId resolution).2.2.fits =
      (tx.fits && eventFits tx ctx && resolutionFits wallet tx resolution) := by
  match resolution with
  | none => exact effect_fits
  | some (.resolved b) => exact effect_fits
  | some .pending => exact (parking_fits _ _).trans (Bool.and_true _).symm
  | some (.rejected code) => exact (rejection_fits _ _ _).trans (Bool.and_true _).symm

end WageringProcessor
