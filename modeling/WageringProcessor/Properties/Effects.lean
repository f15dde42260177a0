import WageringProcessor.Invariants.Effect
import WageringProcessor.Invariants.Reachable
import WageringProcessor.Runs

/-!
# The outcome of a transaction on its wallet

`applyEffect`, given the wallet of a transaction and the reference that was resolved for it, always
returns, and a transaction that it rejects leaves the wallet and the ledger as they were.
-/

namespace WageringProcessor

open Library.Interleaving Library.Table WagerTransactionFinalizer

variable {P : Platform} {c : Config Shared Proc} {d : Database} {tx : WagerTransaction}
  {wallet : Wallet} {reference : Option WagerTransaction} {ctx : EventContext} {newId : Nat → Id}

/-- The transaction credited its wallet. -/
def Database.isCredit (d : Database) (b : WagerTransaction) : Bool :=
  (d.entriesOf b.id).any fun e => e.direction = .credit

/-- The reference that `applyEffect` is given for `tx`. -/
def Resolved (d : Database) (tx : WagerTransaction) : Option WagerTransaction → Prop
  | none => tx.requiresReference = false
  | some b => tx.requiresReference = true ∧ resolveReference d tx = .ok (.resolved b)

/-- `tx` is PROCESSED and its wallet moved by its amount: its row, the wallet's, one entry and two
events are written. -/
structure MovedOutcome (P : Platform) (d : Database) (tx : WagerTransaction) (wallet : Wallet)
    (reference : Option WagerTransaction) (ctx : EventContext) (direction : LedgerDirection)
    (out : WagerTransaction × Wallet × Writes) : Prop where
  transaction : out.1 = processedTransaction tx (reference.map (·.id)) ctx.now
  balance : out.2.1.balance = movedBalance wallet direction tx.money
  entry : ∃ e newId, (d.apply out.2.2).ledgerEntries = d.ledgerEntries ++ [e] ∧
    e.direction = direction ∧ e.money = tx.money ∧ e.walletId = wallet.id ∧
      out.2.2 = movementWrites P out.1 out.2.1 e ctx newId

/-- `tx` is PROCESSED; only its row and one event are written. -/
structure LostOutcome (P : Platform) (d : Database) (tx : WagerTransaction) (wallet : Wallet)
    (reference : Option WagerTransaction) (ctx : EventContext)
    (out : WagerTransaction × Wallet × Writes) : Prop where
  transaction : out.1 = processedTransaction tx (reference.map (·.id)) ctx.now
  wallet : out.2.1 = wallet
  wallets : (d.apply out.2.2).wallets = d.wallets
  ledgerEntries : (d.apply out.2.2).ledgerEntries = d.ledgerEntries
  writes : ∃ eventId, out.2.2 = lossWrites P out.1 out.2.1 ctx eventId

/-- `tx` is REJECTED; only its row and one event are written. -/
structure RejectedOutcome (P : Platform) (d : Database) (tx : WagerTransaction) (wallet : Wallet)
    (ctx : EventContext) (code : FailureCode) (out : WagerTransaction × Wallet × Writes) :
    Prop where
  transaction : out.1 = rejectedTransaction tx code ctx.now
  wallet : out.2.1 = wallet
  wallets : (d.apply out.2.2).wallets = d.wallets
  ledgerEntries : (d.apply out.2.2).ledgerEntries = d.ledgerEntries
  writes : ∃ eventId, out.2.2 = rejectionWrites P out.1 ctx eventId

/-- The outcome of each kind of transaction. -/
structure EffectOutcome (P : Platform) (d : Database) (tx : WagerTransaction) (wallet : Wallet)
    (reference : Option WagerTransaction) (ctx : EventContext)
    (out : WagerTransaction × Wallet × Writes) : Prop where
  loss : tx.kind = .loss → LostOutcome P d tx wallet reference ctx out
  win : tx.kind = .win →
    if tx.money.currency = wallet.currency then
      MovedOutcome P d tx wallet reference ctx .credit out
    else RejectedOutcome P d tx wallet ctx .walletCurrencyMismatch out
  bet : tx.kind = .bet →
    if tx.money.currency = wallet.currency then
      if tx.money.minorUnits ≤ wallet.balance.minorUnits then
        MovedOutcome P d tx wallet reference ctx .debit out
      else RejectedOutcome P d tx wallet ctx .insufficientBalance out
    else RejectedOutcome P d tx wallet ctx .walletCurrencyMismatch out
  refund : tx.kind = .refund → MovedOutcome P d tx wallet reference ctx .credit out
  rollback : tx.kind = .rollback →
    if reference.any d.isCredit then
      if tx.money.minorUnits ≤ wallet.balance.minorUnits then
        MovedOutcome P d tx wallet reference ctx .debit out
      else RejectedOutcome P d tx wallet ctx .rollbackInsufficientBalance out
    else MovedOutcome P d tx wallet reference ctx .credit out
  rejected : out.1.status = .rejected → ∃ code, RejectedOutcome P d tx wallet ctx code out

/-! ## The reference -/

theorem resolveReference_resolved {b : WagerTransaction}
    (h : resolveReference d tx = .ok (.resolved b)) : findReference d tx = .ok (.resolved b) := by
  unfold resolveReference at h
  cases hfind : findReference d tx with
  | error err =>
    rw [hfind] at h
    cases h
  | ok resolution =>
    rw [hfind] at h
    cases resolution with
    | pending | rejected => cases h
    | resolved reference =>
      have hreversal : findReversal d tx reference = .resolved b := Except.ok.inj h
      unfold findReversal at hreversal
      split at hreversal
      · cases hreversal
      · rw [ReferenceResolution.resolved.inj hreversal]

/-- A reference that may be reversed was a credit unless it was a BET. -/
theorem isCredit_eq {b : WagerTransaction} (hc : Consistent P d) (hb : b ∈ d.wagerTransactions)
    (hrequires : tx.requiresReference = true)
    (hreverses : Reverses (toWagerTransactionEntity P tx) b) :
    d.isCredit b = decide (b.kind ≠ .bet) := by
  obtain ⟨e, hentries, hfor⟩ := (hc.rows b hb).moved (hreverses.moves hrequires)
  unfold Database.isCredit
  rw [hentries]
  by_cases hbet : b.kind = .bet
  · simp [hbet, hfor.debit hbet]
  · have hcredit : b.kind = .opening ∨ b.kind = .win ∨ b.kind = .refund := by
      rcases WagerTransaction.requiresReference_iff.mp hrequires with hkind | hkind
      · exact absurd (hreverses.refund hkind) hbet
      · rcases hreverses.rollback hkind with h | h | h
        · exact absurd h hbet
        · exact Or.inr (Or.inl h)
        · exact Or.inr (Or.inr h)
    simp [hbet, hfor.credit hcredit]

theorem Resolved.effective {r : WalletRow} (hc : Consistent P d) (hopen : tx.isTerminal = false)
    (hpositive : 0 < tx.money.minorUnits) (hr : r ∈ d.wallets)
    (hid : r.id = P.canonical tx.walletId) (href : Resolved d tx reference) :
    Effective tx (toWalletDomain r) reference (reference.any d.isCredit) := by
  cases reference with
  | none => exact .unreferenced hopen (fun _ _ => hpositive) rfl href
  | some b =>
    obtain ⟨hrequires, hresolved⟩ := href
    obtain ⟨hb, hreverses, -⟩ := findReference_resolved
      (fun x hx => Reprocess.Consistent.canonical hc hx) (resolveReference_resolved hresolved)
    exact .referenced hc hopen hrequires hb hreverses hr (hid.trans hreverses.walletId.symm)
      (isCredit_eq hc hb hrequires hreverses)

/-! ## The outcome -/

theorem acceptance_moved {credited : Bool} (hloss : tx.kind ≠ .loss) :
    MovedOutcome P d tx wallet reference ctx (effectDirection tx.kind credited)
      (acceptance P tx wallet reference credited ctx newId) := by
  unfold acceptance
  rw [if_neg hloss]
  exact ⟨rfl, rfl, _, _, rfl, rfl, rfl, rfl, rfl⟩

theorem effect_rejected {credited : Bool} {code : FailureCode}
    (h : refusal tx wallet credited = some code) :
    RejectedOutcome P d tx wallet ctx code (effect P tx wallet reference credited ctx newId) := by
  unfold effect
  rw [h]
  exact ⟨rfl, rfl, Database.wallets_apply rfl, List.append_nil _, _, rfl⟩

theorem effect_moved {credited : Bool} {direction : LedgerDirection} (hloss : tx.kind ≠ .loss)
    (h : refusal tx wallet credited = none) (hdir : effectDirection tx.kind credited = direction) :
    MovedOutcome P d tx wallet reference ctx direction
      (effect P tx wallet reference credited ctx newId) := by
  rw [effect_accepted h, ← hdir]
  exact acceptance_moved hloss

theorem effect_outcome : EffectOutcome P d tx wallet reference ctx
    (effect P tx wallet reference (reference.any d.isCredit) ctx newId) where
  loss hkind := by
    rw [effect_accepted (by rw [refusal, hkind]), acceptance, if_pos hkind]
    exact ⟨rfl, rfl, Database.wallets_apply rfl, List.append_nil _, _, rfl⟩
  win hkind := by
    split
    · rename_i hcurrency
      exact effect_moved (by simp [hkind]) (by simp [refusal, hkind, hcurrency])
        (by rw [hkind]; rfl)
    · rename_i hcurrency
      exact effect_rejected (by simp [refusal, hkind, hcurrency])
  bet hkind := by
    split
    · rename_i hcurrency
      split
      · rename_i hcovered
        exact effect_moved (by simp [hkind]) (by simp [refusal, hkind, hcurrency, hcovered])
          (by rw [hkind]; rfl)
      · rename_i hcovered
        exact effect_rejected (by simp [refusal, hkind, hcurrency, hcovered])
    · rename_i hcurrency
      exact effect_rejected (by simp [refusal, hkind, hcurrency])
  refund hkind := effect_moved (by simp [hkind]) (by rw [refusal, hkind]) (by rw [hkind]; rfl)
  rollback hkind := by
    split
    · rename_i hcredit
      split
      · rename_i hcovered
        have hnot : ¬wallet.balance.minorUnits < tx.money.minorUnits := by omega
        exact effect_moved (by simp [hkind]) (by simp [refusal, hkind, hnot])
          (by rw [hkind, hcredit]; rfl)
      · rename_i hcovered
        have hlt : wallet.balance.minorUnits < tx.money.minorUnits := by omega
        exact effect_rejected (by simp [refusal, hkind, hcredit, hlt])
    · rename_i hcredit
      have hcredit' : reference.any d.isCredit = false := Bool.not_eq_true _ ▸ hcredit
      exact effect_moved (by simp [hkind]) (by simp [refusal, hkind, hcredit'])
        (by rw [hkind, hcredit']; rfl)
  rejected hstatus := by
    cases hrefusal : refusal tx wallet (reference.any d.isCredit) with
    | some code => exact ⟨code, effect_rejected hrefusal⟩
    | none =>
      rw [effect_accepted hrefusal, acceptance] at hstatus
      split at hstatus <;> cases hstatus

/-- In every reachable state `applyEffect` returns the outcome that the kind, the wallet and the
reference of a transaction determine. -/
theorem reachable_effectOutcome (h : Reachable (step P) initial c) (hopen : tx.isTerminal = false)
    (hpositive : 0 < tx.money.minorUnits)
    (hwallet : c.shared.db.findWallet (P.canonical tx.walletId) = some wallet)
    (href : Resolved c.shared.db tx reference) (ctx : EventContext) (newId : Nat → Id) :
    ∃ out, applyEffect P tx wallet reference ctx newId = .ok out ∧
      EffectOutcome P c.shared.db tx wallet reference ctx out := by
  have hc := reachable_consistent h
  obtain ⟨r, hlookup, rfl⟩ := Option.map_eq_some_iff.mp hwallet
  obtain ⟨hr, hid⟩ := lookup_mem hlookup
  have heffective := href.effective hc hopen hpositive hr hid
  exact ⟨_, applyEffect_eq heffective, effect_outcome⟩

/-- The refund of a bet of 30.00. -/
def refundTransaction : WagerTransaction where
  id := uuidText 999
  providerId := "acme"
  externalTransactionId := "refund-1"
  idempotencyKey := "key-refund-1"
  payloadHash := ""
  walletId := uuidText 10
  playerId := openCommand.playerId
  roundId := "round-1"
  gameId := "game-1"
  kind := .refund
  money := ⟨3000, brl⟩
  referenceExternalTransactionId := some "bet-1"
  createdAt := 20000
  status := .pending
  referenceTransactionId := none
  failureCode := none
  processedAt := none
  referenceRetryAttempts := 0
  nextReferenceRetryAt := none

/-- After the bet its refund is PROCESSED. -/
theorem refundTransaction_processed : ∃ c wallet b out, Reachable (step localPlatform) initial c ∧
    c.shared.db.findWallet (uuidText 10) = some wallet ∧
      applyEffect localPlatform refundTransaction wallet (some b) ⟨"", none, 20000⟩ uuidText =
        .ok out ∧ MovedOutcome localPlatform c.shared.db refundTransaction wallet (some b)
          ⟨"", none, 20000⟩ .credit out := by
  have hrun : (exec (step localPlatform) initial openAndBet).any (fun c =>
      (c.shared.db.findWallet (localPlatform.canonical (uuidText 10))).isSome &&
        (c.shared.db.findByProviderAndExternalId "acme" "bet-1").any fun b =>
          decide (resolveReference c.shared.db refundTransaction = .ok (.resolved b))) = true := by
    decide +kernel
  obtain ⟨c, hreach, hp⟩ := reachable_of_any hrun
  simp only [Bool.and_eq_true, Option.any_eq_true, decide_eq_true_eq] at hp
  obtain ⟨hsome, b, -, hresolved⟩ := hp
  obtain ⟨wallet, hwallet⟩ := Option.isSome_iff_exists.mp hsome
  obtain ⟨out, hout, houtcome⟩ := @reachable_effectOutcome localPlatform c refundTransaction wallet
    (some b) hreach rfl (by decide) hwallet ⟨rfl, hresolved⟩ ⟨"", none, 20000⟩ uuidText
  have hcanonical : localPlatform.canonical (uuidText 10) = uuidText 10 := by decide +kernel
  exact ⟨c, wallet, b, out, hreach, hcanonical ▸ hwallet, hout, houtcome.refund rfl⟩

end WageringProcessor
