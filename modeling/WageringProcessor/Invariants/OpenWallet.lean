import WageringProcessor.Invariants.OpenWalletSteps
import WageringProcessor.Invariants.Submit

/-!
# What an opening knows at each stage
-/

namespace WageringProcessor

open Library.Interleaving (Pid)
open Library.Table

namespace OpenWallet

variable {P : Platform} {i : Pid} {s s' : Shared} {own own' : Resource → Prop} {d d' : Database}
  {cmd : OpenWalletCommand} {wallet : Wallet} {tx : WagerTransaction} {now : Date} {inp : Input}
  {stage stage' : OpenWalletStage}

/-! ## The assertions -/

/-- `wallet` is what `Wallet.open` creates for `cmd`, under an id of this call. -/
structure Opened (P : Platform) (own : Resource → Prop) (d : Database) (cmd : OpenWalletCommand)
    (now : Date) (wallet : Wallet) : Prop where
  created : wallet = Wallet.open wallet.id cmd.playerId cmd.initialBalance now
  id : P.uuid wallet.id = some wallet.id
  ownsId : own (.uuid wallet.id)
  newId : ∀ r ∈ d.wallets, r.id ≠ wallet.id

/-- The wallet was inserted, and `tx` is the OPENING that `createOpening` makes for it. -/
structure Drafted (P : Platform) (own : Resource → Prop) (d : Database) (cmd : OpenWalletCommand)
    (now : Date) (wallet : Wallet) (tx : WagerTransaction) : Prop where
  inserted : NewWallet P own d (toWalletEntity P wallet)
  opened : wallet = Wallet.open wallet.id cmd.playerId cmd.initialBalance now
  positive : 0 < cmd.initialBalance.minorUnits
  created : tx = .createOpening tx.id wallet.id cmd.playerId cmd.initialBalance now
  ownsId : own (.uuid tx.id)
  newId : ∀ t ∈ d.wagerTransactions, t.id ≠ tx.id

def KeyClaimed (own : Resource → Prop) (d : Database) (tx : WagerTransaction) : Prop :=
  own (.idempotencyKey tx.idempotencyKey) ∧
    ∀ t ∈ d.wagerTransactions, t.idempotencyKey ≠ tx.idempotencyKey

def ExternalClaimed (own : Resource → Prop) (d : Database) (tx : WagerTransaction) : Prop :=
  own (.external tx.providerId tx.externalTransactionId) ∧
    ∀ t ∈ d.wagerTransactions,
      (t.providerId, t.externalTransactionId) ≠ (tx.providerId, tx.externalTransactionId)

/-- What the call has written and is about to commit. -/
inductive Prepared (P : Platform) (own : Resource → Prop) (d : Database) :
    List Writes → Wallet → Prop
  | empty {wallet : Wallet} (inserted : NewWallet P own d (toWalletEntity P wallet))
      (empty : wallet.balance.minorUnits = 0) : Prepared P own d [walletWrites P wallet] wallet
  | opening {wallet : Wallet} {t : WagerTransaction} {e : WalletLedgerEntry}
      {data : WagerTransactionData} {w : Writes} (noWallets : w.wallets = [])
      (opens : OpensWith P own d (toWalletEntity P wallet) t e data
        { w with wallets := [toWalletEntity P wallet] }) :
      Prepared P own d [walletWrites P wallet, w] wallet

def Ok (P : Platform) (own : Resource → Prop) (d : Database) (cmd : OpenWalletCommand) :
    OpenWalletStage → Prop
  | .insertWallet now wallet => Opened P own d cmd now wallet
  | .claimKey now wallet tx => Drafted P own d cmd now wallet tx
  | .claimExternal now wallet tx => Drafted P own d cmd now wallet tx ∧ KeyClaimed own d tx
  | .insertEntry now wallet tx => Drafted P own d cmd now wallet tx ∧ KeyClaimed own d tx ∧
      ExternalClaimed own d tx
  | .commit writes wallet => Prepared P own d writes wallet
  | _ => True

/-! ## They survive the steps of others -/

section

variable (hown : ∀ k, own k → own' k) (f : Frame own d d')
include hown f

theorem Opened.stable (h : Opened P own d cmd now wallet) : Opened P own' d' cmd now wallet := by
  refine ⟨h.created, h.id, hown _ h.ownsId, fun r hr hid => ?_⟩
  obtain ⟨r₀, hr₀, hid₀⟩ := f.walletId r hr (hid ▸ h.ownsId)
  exact h.newId r₀ hr₀ (hid₀.trans hid)

theorem Drafted.stable (h : Drafted P own d cmd now wallet tx) :
    Drafted P own' d' cmd now wallet tx := by
  refine ⟨h.inserted.stable hown f, h.opened, h.positive, h.created, hown _ h.ownsId,
    fun t ht hid => ?_⟩
  obtain ⟨t₀, ht₀, hid₀⟩ := f.rowId t ht (hid ▸ h.ownsId)
  exact h.newId t₀ ht₀ (hid₀.trans hid)

theorem KeyClaimed.stable (h : KeyClaimed own d tx) : KeyClaimed own' d' tx := by
  refine ⟨hown _ h.1, fun t ht hkey => ?_⟩
  obtain ⟨t₀, ht₀, hkey₀⟩ := f.key t ht (hkey ▸ h.1)
  exact h.2 t₀ ht₀ (hkey₀.trans hkey)

theorem ExternalClaimed.stable (h : ExternalClaimed own d tx) : ExternalClaimed own' d' tx := by
  refine ⟨hown _ h.1, fun t ht hkey => ?_⟩
  obtain ⟨hp, he⟩ := Prod.mk.inj hkey
  obtain ⟨t₀, ht₀, hkey₀⟩ := f.external t ht (by rw [hp, he]; exact h.1)
  exact h.2 t₀ ht₀ (hkey₀.trans hkey)

theorem Prepared.stable {writes : List Writes} (h : Prepared P own d writes wallet) :
    Prepared P own' d' writes wallet := by
  cases h with
  | empty inserted empty => exact .empty (inserted.stable hown f) empty
  | opening noWallets opens => exact .opening noWallets (opens.stable hown f)

theorem Ok.stable (h : Ok P own d cmd stage) : Ok P own' d' cmd stage := by
  cases stage with
  | begin | returned | threw => trivial
  | insertWallet => exact Opened.stable hown f h
  | claimKey => exact Drafted.stable hown f h
  | claimExternal => exact ⟨h.1.stable hown f, h.2.stable hown f⟩
  | insertEntry => exact ⟨h.1.stable hown f, h.2.1.stable hown f, h.2.2.stable hown f⟩
  | commit => exact Prepared.stable hown f h

end

/-! ## What it writes -/

theorem openingEntry_ok {id : Id} {entry : WalletLedgerEntry}
    (h : openingEntry cmd id wallet tx now = .ok entry) :
    entry = ⟨id, wallet.id, tx.id, .credit, cmd.initialBalance,
      Money.zero cmd.initialBalance.currency, cmd.initialBalance, now⟩ := by
  unfold openingEntry at h
  rw [Money.subtract_eq rfl, sub_self] at h
  unfold WalletLedgerEntry.create at h
  simp only [bind, Except.bind] at h
  split at h
  · simp at h
  · split at h
    · simp at h
    · split at h
      · simp at h
      · exact (Except.ok.inj h).symm

theorem openingEntry_exists (h : 0 < cmd.initialBalance.minorUnits) (id : Id) :
    ∃ entry, openingEntry cmd id wallet tx now = .ok entry := by
  have hexpected : computeExpectedBalanceAfter .credit (Money.zero cmd.initialBalance.currency)
      cmd.initialBalance = .ok cmd.initialBalance := by
    have hadd := @Money.add_eq (Money.zero cmd.initialBalance.currency) cmd.initialBalance rfl
    rw [Money.zero_minorUnits, zero_add] at hadd
    exact hadd
  unfold openingEntry WalletLedgerEntry.create
  rw [Money.subtract_eq rfl, sub_self]
  simp only [bind, Except.bind]
  rw [if_neg (by simpa [Money.isPositive] using h)]
  split
  · rename_i err herr
    cases herr.symm.trans hexpected
  · rename_i expected hok
    obtain rfl := Except.ok.inj (hok.symm.trans hexpected)
    rw [if_neg (by simp)]
    exact ⟨_, rfl⟩

/-- The opening that the call is about to commit. -/
theorem Drafted.opensWith (h : Drafted P own d cmd now wallet tx) (hkey : KeyClaimed own d tx)
    (hexternal : ExternalClaimed own d tx) {newId : Nat → Id} (hid₂ : NewId own d (newId 2))
    (hid₃ : NewId own d (newId 3)) (hne : newId 2 ≠ newId 3) {ctx : EventContext}
    {entry : WalletLedgerEntry} (hentry : openingEntry cmd (newId 0) wallet tx now = .ok entry) :
    OpensWith P own d (toWalletEntity P wallet) (toWagerTransactionEntity P tx) entry (.of tx)
      { openingWrites P cmd wallet tx entry ctx newId with
        wallets := [toWalletEntity P wallet] } := by
  have hspec := openingEntry_ok hentry
  have hbalance : wallet.balance = cmd.initialBalance := by
    rw [h.opened]
    rfl
  have hcurrency : wallet.currency = cmd.initialBalance.currency := by
    rw [h.opened]
    rfl
  have hplayer : wallet.playerId = cmd.playerId := by
    rw [h.opened]
    rfl
  have hversion : wallet.version = 1 := by
    rw [h.opened]
    rfl
  have hwallet : (toWagerTransactionEntity P tx).walletId = wallet.id := by
    rw [h.created]
    exact Platform.canonical_of_uuid h.inserted.id
  have hopening : OpeningRow own d (toWalletEntity P wallet) (toWagerTransactionEntity P tx)
      entry := by
    refine ⟨h.ownsId, hkey.1, hexternal.1, h.newId, hkey.2, hexternal.2, ?_, ?_, hwallet, ?_, ?_,
      ?_, ?_, ?_, ?_, ?_⟩
    · rw [h.created]
      rfl
    · rw [h.created]
      rfl
    · change P.canonical tx.playerId = P.canonical wallet.playerId
      rw [hplayer, h.created]
      rfl
    · rw [h.created]
      exact ⟨rfl, rfl, rfl, rfl⟩
    · rw [h.created]
      rfl
    · subst hspec
      refine ⟨rfl, hwallet.symm, ?_, fun hk => ?_, fun _ => rfl⟩
      · rw [h.created]
        rfl
      · rw [h.created] at hk
        simp [toWagerTransactionEntity, WagerTransaction.createOpening] at hk
    · subst hspec
      exact congrArg Money.zero hcurrency.symm
    · subst hspec
      change cmd.initialBalance = ⟨wallet.balance.minorUnits, wallet.currency⟩
      rw [hbalance, hcurrency]
    · subst hspec
      change WalletLedgerEntry.Balanced _ wallet.currency
      rw [hcurrency]
      exact ⟨h.positive, rfl, rfl, rfl, by simp [WalletLedgerEntry.signedAmount], le_refl 0,
        h.positive.le⟩
  refine ⟨rfl, rfl, rfl, rfl, h.inserted, hopening, newMessages_pair hid₂ hid₃ hne
    (processed_envelopeOk _ _ _ _) (balanceChanged_envelopeOk wallet entry ctx (newId 3)),
    describes_of tx, ?_⟩
  subst hspec
  simp [Writes.data, openingWrites, OutboxMessage.enqueue, WagerTransactionProcessed.from,
    WalletBalanceChanged.from, WalletBalanceChanged.data, IntegrationEvent.from, balanceChange,
    toWalletEntity]

/-- The rows of the opening are one change. -/
theorem Prepared.permitted {writes : List Writes} (h : Prepared P own d writes wallet) :
    ∃ w, d.applyAll writes = d.applyAll [w] ∧ Permitted P own d w ∧ Queues [w] := by
  cases h with
  | empty inserted empty =>
    exact ⟨walletWrites P wallet, rfl, .opened rfl inserted empty, by simp [Queues, walletWrites]⟩
  | @opening _ t e data w noWallets opens =>
    refine ⟨{ w with wallets := [toWalletEntity P wallet] }, ?_, .openedWith opens, ?_⟩
    · simp [Database.applyAll, Database.apply, walletWrites, noWallets]
    · simpa [Queues] using opens.messages.pending

/-! ## A step of an opening -/

/-- A wallet that passes its checks is new under the lock of its player and currency. -/
theorem Opened.newWallet (h : Opened P own d cmd now wallet) (haccepted : Accepted P wallet)
    (howns : own (.playerCurrency (P.canonical wallet.playerId) wallet.currency))
    (hfree : playerHasWallet P d wallet = false) : NewWallet P own d (toWalletEntity P wallet) := by
  unfold Accepted at haccepted
  simp only [Bool.or_eq_true, decide_eq_true_eq, not_or] at haccepted
  obtain ⟨c, hc⟩ := Option.ne_none_iff_exists'.mp haccepted.1
  refine ⟨h.ownsId, howns, h.newId, ?_, h.id, ?_, ?_⟩
  · intro r hr hsame
    obtain ⟨hp, hcur⟩ := Prod.mk.inj hsame
    have hany : playerHasWallet P d wallet = true :=
      List.any_eq_true.mpr ⟨r, hr, by simp [hp, hcur, toWalletEntity]⟩
    cases hfree.symm.trans hany
  · change P.uuid (P.canonical wallet.playerId) = some (P.canonical wallet.playerId)
    rw [Platform.canonical_of_uuid hc, P.uuid_canonical hc]
  · change wallet.version = 1
    rw [h.created]
    rfl

/-- A wallet that passes its checks and is not opened with a positive balance is empty. -/
theorem Opened.empty (h : Opened P own d cmd now wallet) (haccepted : Accepted P wallet)
    (hzero : ¬cmd.initialBalance.isPositive = true) : wallet.balance.minorUnits = 0 := by
  have hbalance : wallet.balance = cmd.initialBalance := by
    rw [h.created]
    rfl
  unfold Accepted at haccepted
  simp only [Bool.or_eq_true, not_or, Bool.not_eq_true] at haccepted
  have hnonneg : 0 ≤ wallet.balance.minorUnits := by
    simpa [Database.violatesCheck, walletWrites, toWalletEntity] using haccepted.2
  rw [Money.isPositive_iff, ← hbalance] at hzero
  omega

theorem step_ok (hd : Drawn s.drawn s.db) (h : Ok P (owns s i) s.db cmd stage)
    (hstep : step P cmd i inp s stage = some (s', stage')) :
    Advances P i s s' ∧ Ok P (owns s' i) s'.db cmd stage' := by
  cases step_way hstep with
  | begin draws =>
    have hdraws := draw_draws draws
    refine ⟨hdraws.advances, rfl, hdraws.canonical _ List.mem_cons_self,
      hdraws.holdsId List.mem_cons_self, fun r hr hid => ?_⟩
    have hid' : r.id = inp.newId 0 := hid
    rw [hdraws.db] at hr
    exact hdraws.fresh _ List.mem_cons_self (hid' ▸ hd.wallets r hr)
  | refused => exact ⟨rollback_advances, trivial⟩
  | playerTaken takes | keyTaken takes | externalTaken takes =>
    have hacq := take_acquires takes
    exact ⟨hacq.trans_advances rollback_advances hacq.db, trivial⟩
  | unentered draws | unflushed draws =>
    exact ⟨(draw_draws draws).trans_advances rollback_advances (draw_draws draws).db, trivial⟩
  | opening accepted takes free positive draws =>
    have hacq := take_acquires takes
    have hdraws := draw_draws draws
    have hnew := (Opened.stable hacq.keeps hacq.frame h).newWallet accepted
      (hacq.holds _ List.mem_cons_self) (hacq.db ▸ free)
    refine ⟨hacq.trans_advances hdraws.advances (hdraws.db.trans hacq.db),
      hnew.stable hdraws.keeps hdraws.frame, Opened.created h, by simpa using positive, rfl,
      hdraws.holdsId List.mem_cons_self, fun t ht hid => ?_⟩
    have hid' : t.id = inp.newId 0 := hid
    rw [hdraws.db] at ht
    exact hdraws.fresh _ List.mem_cons_self (hid' ▸ (hd.of_acquires hacq).rows t ht)
  | empty accepted takes free zero =>
    have hacq := take_acquires takes
    have hnew := (Opened.stable hacq.keeps hacq.frame h).newWallet accepted
      (hacq.holds _ List.mem_cons_self) (hacq.db ▸ free)
    exact ⟨hacq.advances, .empty hnew (Opened.empty h accepted zero)⟩
  | keyClaimed takes free =>
    have hacq := take_acquires takes
    exact ⟨hacq.advances, Drafted.stable hacq.keeps hacq.frame h,
      hacq.holds _ List.mem_cons_self, lookup_eq_none.mp (hacq.db ▸ free)⟩
  | externalClaimed takes free =>
    have hacq := take_acquires takes
    exact ⟨hacq.advances, h.1.stable hacq.keeps hacq.frame, h.2.stable hacq.keeps hacq.frame,
      hacq.holds _ List.mem_cons_self, lookup_eq_none.mp (hacq.db ▸ free)⟩
  | entered draws enters =>
    have hdraws := draw_draws draws
    have hd₁ : Drawn s.drawn s'.db := hdraws.db ▸ hd
    obtain ⟨hdrafted, hkey, hexternal⟩ := Ok.stable hdraws.keeps hdraws.frame h
    have hne : inp.newId 2 ≠ inp.newId 3 := by
      have hnodup := hdraws.nodup
      simp only [List.nodup_cons, List.mem_cons, List.not_mem_nil, or_false] at hnodup
      exact hnodup.2.2.1
    exact ⟨hdraws.advances, .opening rfl (hdrafted.opensWith hkey hexternal
      (hdraws.newId hd₁ (by simp)) (hdraws.newId hd₁ (by simp)) hne enters)⟩
  | commits =>
    obtain ⟨w, hw, hpermitted, hqueues⟩ := Prepared.permitted h
    exact ⟨hqueues.advances hw (.single hpermitted), trivial⟩

end OpenWallet

end WageringProcessor
