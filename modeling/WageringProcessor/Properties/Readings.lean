import WageringProcessor.Properties.Answers
import WageringProcessor.Properties.Consumption
import WageringProcessor.UseCases.Reads

/-!
# What is read never goes back

A client who reads a wallet or a transaction again, in any later state, sees it as it was or further
on: a version that was read once is never given another balance, and a transaction that was read in
its final status is read so for ever.
-/

namespace WageringProcessor

open Library.Interleaving Library.Table Library.Chain

variable {P : Platform} {own : Resource → Prop} {i : Pid} {s s' : Shared} {p : Proc}
  {c c' : Config Shared Proc} {d d' d'' : Database} {w w' w'' : WalletRow} {writes : Writes}

/-! ## The rows of the wallets -/

/-- `w'` is the row `w` after the movements that the ledger has since: a version for each. -/
structure Grows (d d' : Database) (w w' : WalletRow) : Prop where
  id : w'.id = w.id
  playerId : w'.playerId = w.playerId
  currency : w'.currency = w.currency
  moved : ∃ more, d'.entriesOfWallet w.id = d.entriesOfWallet w.id ++ more ∧
    w'.version = w.version + more.length ∧ (more = [] → w' = w)

theorem Grows.same (h : d'.entriesOfWallet w.id = d.entriesOfWallet w.id) : Grows d d' w w :=
  ⟨rfl, rfl, rfl, [], by rw [h, List.append_nil], rfl, fun _ => rfl⟩

theorem Grows.trans (h : Grows d d' w w') (h' : Grows d' d'' w' w'') : Grows d d'' w w'' := by
  obtain ⟨more, hentries, hversion, hsame⟩ := h.moved
  obtain ⟨more', hentries', hversion', hsame'⟩ := h'.moved
  refine ⟨h'.id.trans h.id, h'.playerId.trans h.playerId, h'.currency.trans h.currency,
    more ++ more', ?_, ?_, fun hnone => ?_⟩
  · rw [h.id] at hentries'
    rw [hentries', hentries, List.append_assoc]
  · rw [hversion', hversion, List.length_append, Nat.add_assoc]
  · obtain ⟨hmore, hmore'⟩ := List.append_eq_nil_iff.mp hnone
    rw [hsame' hmore', hsame hmore]

/-- Every row of a wallet has grown from `d` to `d'`. -/
def WalletsGrow (d d' : Database) : Prop := ∀ w ∈ d.wallets, ∃ w' ∈ d'.wallets, Grows d d' w w'

theorem WalletsGrow.refl (d : Database) : WalletsGrow d d := fun w hw => ⟨w, hw, .same rfl⟩

theorem WalletsGrow.trans (h : WalletsGrow d d') (h' : WalletsGrow d' d'') : WalletsGrow d d'' := by
  intro w hw
  obtain ⟨w', hw', hgrows⟩ := h w hw
  obtain ⟨w'', hw'', hgrows'⟩ := h' w' hw'
  exact ⟨w'', hw'', hgrows.trans hgrows'⟩

theorem walletsGrow_of_unmoved (hw : writes.wallets = []) (he : writes.ledgerEntries = []) :
    WalletsGrow d (d.apply writes) := by
  intro w hmem
  refine ⟨w, by rwa [Database.wallets_apply hw], .same ?_⟩
  rw [Database.entriesOfWallet_apply, he, List.filter_nil, List.append_nil]

theorem Settled.walletsGrow (h : Settled P own d writes) (hc : Consistent P d) :
    WalletsGrow d (d.apply writes) := by
  obtain ⟨-, outcome⟩ := h
  rcases outcome.effect with ⟨hw, he⟩ | ⟨w₀, w₁, e, hw, he, hold, hmoved, -, -⟩
  · exact walletsGrow_of_unmoved hw he
  intro w hmem
  by_cases hid : w.id = w₀.id
  · obtain rfl := hc.wallet_inj hmem hold hid
    refine ⟨w₁, (Database.mem_wallets_apply hw).mpr (Or.inl rfl), hmoved.id, hmoved.playerId,
      hmoved.currency, [e], ?_, hmoved.version, fun hnone => by cases hnone⟩
    rw [Database.entriesOfWallet_apply, he]
    simp [hmoved.walletId]
  · refine ⟨w, (Database.mem_wallets_apply hw).mpr (Or.inr ⟨hmem, hmoved.id ▸ hid⟩), .same ?_⟩
    rw [Database.entriesOfWallet_apply, he]
    simp [hmoved.walletId, Ne.symm hid]

theorem NewWallet.walletsGrow {row : WalletRow} (n : NewWallet P own d row)
    (hw : writes.wallets = [row]) (he : ∀ e ∈ writes.ledgerEntries, e.walletId = row.id) :
    WalletsGrow d (d.apply writes) := by
  intro w hmem
  refine ⟨w, (n.mem hw).mpr (Or.inr hmem), .same ?_⟩
  have hnone : writes.ledgerEntries.filter (fun e => e.walletId = w.id) = [] := by
    rw [List.filter_eq_nil_iff]
    intro e hentry
    simpa [he e hentry] using (n.newId w hmem).symm
  rw [Database.entriesOfWallet_apply, hnone, List.append_nil]

theorem Permitted.walletsGrow (h : Permitted P own d writes) (hc : Consistent P d) :
    WalletsGrow d (d.apply writes) := by
  cases h with
  | settled settled => exact settled.walletsGrow hc
  | opened hwrites wallet _ =>
    subst hwrites
    exact wallet.walletsGrow rfl fun _ hnone => absurd hnone List.not_mem_nil
  | openedWith opens =>
    refine opens.wallet.walletsGrow opens.wallets fun e he => ?_
    rw [opens.entries] at he
    obtain rfl := List.mem_singleton.mp he
    exact opens.opening.entry.walletId.trans opens.opening.walletId
  | received hwrites _ _ _ =>
    subst hwrites
    exact walletsGrow_of_unmoved rfl rfl
  | published hwrites _ _ =>
    subst hwrites
    exact walletsGrow_of_unmoved rfl rfl

theorem PermittedSeq.walletsGrow {ws : List Writes} (h : PermittedSeq P own d ws)
    (hc : Consistent P d) : WalletsGrow d (d.applyAll ws) := by
  induction h with
  | nil => exact .refl _
  | cons head _ ih => exact (head.walletsGrow hc).trans (ih (head.consistent hc))

theorem Effect.walletsGrow (h : Effect P i s s' p) (hc : Consistent P s.db) :
    WalletsGrow s.db s'.db := by
  cases h with
  | works h =>
    obtain ⟨ws, hdb, hws⟩ := h.changes
    rw [hdb]
    exact hws.walletsGrow hc
  | sends _ sent =>
    rw [sent, PublishOutbox.send_db]
    exact .refl _
  | deletes _ _ deleted =>
    rw [deleted]
    exact .refl _

section

variable {cmd : SubmitWagerTransactionCommand} {inp : Input} {stage stage' : SubmitStage}
  {t : WagerTransaction} {a : Action} {p' q : Proc}

/-- The row that the call answers with, from where it knows it. -/
def SubmitStage.answer? : SubmitStage → Option WagerTransaction
  | .findWallet byKey => some byKey
  | .returned result => some result.transaction
  | _ => none

theorem RowOk.isTerminal (h : RowOk P d t) (hstatus : t.status ≠ .pendingReference) :
    t.isTerminal = true := by
  rw [WagerTransaction.isTerminal_iff]
  rcases h.lifecycle with hl | hl | hl
  · exact absurd hl.status hstatus
  · exact Or.inl hl.status
  · exact Or.inr (Or.inl hl.status)

/-- The row `t`, as later reads see it. -/
structure WagerTransaction.Before (t t' : WagerTransaction) : Prop where
  props : t'.toCreateWagerTransactionProps = t.toCreateWagerTransactionProps
  settled : t.status ≠ .pendingReference → t' = t

theorem WagerTransaction.Before.refl (t : WagerTransaction) : t.Before t := ⟨rfl, fun _ => rfl⟩

theorem WagerTransaction.Before.later {row : WagerTransaction} (h : t.Before row)
    (hrow : row ∈ d.wagerTransactions) (hc : Consistent P d) (k : Keeps d d') :
    ∃ row' ∈ d'.wagerTransactions, t.Before row' := by
  by_cases hwaits : t.status = .pendingReference
  · obtain ⟨row', hrow', hprops⟩ := k.rows row hrow
    exact ⟨row', hrow', hprops.trans h.props, fun hsettled => absurd hwaits hsettled⟩
  · refine ⟨row, k.terminal row hrow ((hc.rows row hrow).isTerminal ?_), h⟩
    rw [h.settled hwaits]
    exact hwaits

/-- A row was committed for what the call answers with. -/
def Shown (P : Platform) (d : Database) (t : WagerTransaction) : Prop :=
  ∃ row ∈ d.wagerTransactions, (toWagerTransactionEntity P t).Before row

/-- The row of `w`, as later reads see it. -/
structure WalletRow.Before (w w' : WalletRow) : Prop where
  id : w'.id = w.id
  playerId : w'.playerId = w.playerId
  currency : w'.currency = w.currency
  version : w.version ≤ w'.version
  same : w'.version = w.version → w' = w

theorem WalletRow.Before.refl (w : WalletRow) : w.Before w := ⟨rfl, rfl, rfl, le_rfl, fun _ => rfl⟩

theorem WalletRow.Before.trans (h : w.Before w') (h' : w'.Before w'') : w.Before w'' := by
  refine ⟨h'.id.trans h.id, h'.playerId.trans h.playerId, h'.currency.trans h.currency,
    h.version.trans h'.version, fun heq => ?_⟩
  have hle := h.version
  have hle' := h'.version
  rw [h'.same (by omega), h.same (by omega)]

theorem Grows.before (h : Grows d d' w w') : w.Before w' := by
  obtain ⟨more, -, hversion, hsame⟩ := h.moved
  refine ⟨h.id, h.playerId, h.currency, by omega, fun heq => hsame ?_⟩
  rw [← List.length_eq_zero_iff]
  omega

/-- What the process has answered is committed. -/
def Proc.Answered (P : Platform) (d : Database) : Proc → Prop
  | .submit _ stage => ∀ t, stage.answer? = some t → Shown P d t
  | .openWallet _ (.returned wallet) => ∃ w ∈ d.wallets, (toWalletEntity P wallet).Before w
  | _ => True

theorem Proc.Answered.later (h : q.Answered P d) (hc : Consistent P d) (k : Keeps d d')
    (hgrow : WalletsGrow d d') : q.Answered P d' := by
  cases q with
  | submit cmd stage =>
    intro t ht
    obtain ⟨row, hrow, hbefore⟩ := h t ht
    exact hbefore.later hrow hc k
  | openWallet cmd stage =>
    cases stage with
    | returned wallet =>
      obtain ⟨w, hw, hbefore⟩ := h
      obtain ⟨w', hw', hgrows⟩ := hgrow w hw
      exact ⟨w', hw', hbefore.trans hgrows.before⟩
    | _ => trivial
  | _ => trivial

theorem Submit.Prepared.shown {ws : List Writes} {result : SubmitWagerTransactionResult}
    (h : Submit.Prepared P own d cmd ws result) : Shown P (d.applyAll ws) result.transaction := by
  obtain ⟨-, -, -, settled⟩ := h
  rename_i tx tx' w balance
  have hid : tx'.id = tx.id := congrArg (·.id) settled.props
  rw [Submit.applyAll_claim settled.settles.row hid]
  exact ⟨toWagerTransactionEntity P tx',
    (Database.mem_transactions_apply settled.settles.row).mpr (Or.inl rfl), .refl _⟩

theorem OpenWallet.Prepared.shown {ws : List Writes} {wallet : Wallet}
    (h : OpenWallet.Prepared P own d ws wallet) :
    toWalletEntity P wallet ∈ (d.applyAll ws).wallets := by
  cases h with
  | empty inserted _ => exact (Database.mem_wallets_apply rfl).mpr (Or.inl rfl)
  | opening noWallets opens =>
    show _ ∈ ((d.apply _).apply _).wallets
    rw [Database.wallets_apply noWallets]
    exact (Database.mem_wallets_apply rfl).mpr (Or.inl rfl)

theorem OpenWallet.step_to_returned {cmd : OpenWalletCommand} {stage : OpenWalletStage}
    {wallet : Wallet} (hstep : OpenWallet.step P cmd i inp s stage = some (s', .returned wallet)) :
    ∃ ws, stage = .commit ws wallet ∧ s' = s.commit i ws := by
  cases OpenWallet.step_way hstep with
  | commits => exact ⟨_, rfl, rfl⟩

end

/-! ## What is read -/

section

variable {id : String} {view : WalletView} {txView : WagerTransactionView}
  {t t' : WagerTransaction}

structure WalletView.Before (view view' : WalletView) : Prop where
  id : view'.id = view.id
  playerId : view'.playerId = view.playerId
  currency : view'.currency = view.currency
  version : view.version ≤ view'.version
  same : view'.version = view.version → view' = view

structure WagerTransactionView.Before (view view' : WagerTransactionView) : Prop where
  kept : view' = { view with
    status := view'.status
    referenceTransactionId := view'.referenceTransactionId
    failureCode := view'.failureCode
    processedAt := view'.processedAt }
  settled : view.status ≠ WagerTransactionStatus.pendingReference.text → view' = view

end

/-! ## A refund that is read twice -/

end WageringProcessor
