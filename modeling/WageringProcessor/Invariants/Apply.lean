import WageringProcessor.Invariants.Permitted

/-!
# What a change leaves of a database

The slices of `d.apply w`, and the conditions on rows and wallets that the change does not
concern. -/

namespace WageringProcessor

open Library.Table Library.Chain

variable {P : Platform} {d d' : Database} {w : Writes}

/-! ## Slices after a change -/

namespace Database

theorem mem_transactions_apply {t x : WagerTransaction} (h : w.wagerTransactions = [t]) :
    x ∈ (d.apply w).wagerTransactions ↔ x = t ∨ (x ∈ d.wagerTransactions ∧ x.id ≠ t.id) := by
  rw [apply, h]
  exact mem_upsert

theorem mem_wallets_apply {row x : WalletRow} (h : w.wallets = [row]) :
    x ∈ (d.apply w).wallets ↔ x = row ∨ (x ∈ d.wallets ∧ x.id ≠ row.id) := by
  rw [apply, h]
  exact mem_upsert

theorem wallets_apply (h : w.wallets = []) : (d.apply w).wallets = d.wallets := by
  rw [apply, h]
  rfl

theorem inbox_apply (h : w.inboxMessages = []) : (d.apply w).inboxMessages = d.inboxMessages := by
  rw [apply, h]
  rfl

theorem entriesOf_apply (id : Id) : (d.apply w).entriesOf id =
    d.entriesOf id ++ w.ledgerEntries.filter fun e => e.transactionId = id := by
  simp [entriesOf, apply]

theorem entriesOfWallet_apply (id : Id) : (d.apply w).entriesOfWallet id =
    d.entriesOfWallet id ++ w.ledgerEntries.filter fun e => e.walletId = id := by
  simp [entriesOfWallet, apply]

theorem eventData_apply (hfresh : ∀ m ∈ w.outboxMessages, ∀ m' ∈ d.outboxMessages, m'.id ≠ m.id)
    (hnodup : (w.outboxMessages.map OutboxMessage.id).Nodup) :
    (d.apply w).eventData = d.eventData ++ w.data := by
  simp [eventData, apply, upsertAll_of_fresh hnodup hfresh, Writes.data]

theorem eventsOf_append {events : List EventData} (h : d'.eventData = d.eventData ++ events)
    (id : Id) : d'.eventsOf id = d.eventsOf id ++ events.filter fun e => e.transactionId = id := by
  simp [eventsOf, h]

theorem balanceEventsOf_append {events : List EventData}
    (h : d'.eventData = d.eventData ++ events) (id : Id) :
    d'.balanceEventsOf id = d.balanceEventsOf id ++ events.filter (·.isBalanceChangeOf id) := by
  simp [balanceEventsOf, h]

theorem isOpening_eq_false {id : Id}
    (h : ∀ t ∈ d.wagerTransactions, t.id = id → t.kind ≠ .opening) : d.isOpening id = false := by
  simpa [isOpening] using h

theorem isOpening_iff {id : Id} :
    d.isOpening id = true ↔ ∃ t ∈ d.wagerTransactions, t.id = id ∧ t.kind = .opening := by
  simp [isOpening]

end Database

/-! ## Conditions that a change does not concern -/

def SameWallet (w w' : WalletRow) : Prop :=
  w'.id = w.id ∧ w'.playerId = w.playerId ∧ w'.currency = w.currency

/-- What every permitted change keeps. -/
structure Keeps (d d' : Database) : Prop where
  wallets : ∀ w ∈ d.wallets, ∃ w' ∈ d'.wallets, SameWallet w w'
  rows : ∀ t ∈ d.wagerTransactions, ∃ t' ∈ d'.wagerTransactions,
    t'.toCreateWagerTransactionProps = t.toCreateWagerTransactionProps
  terminal : ∀ t ∈ d.wagerTransactions, t.isTerminal = true → t ∈ d'.wagerTransactions

theorem Keeps.of_eq (hw : d'.wallets = d.wallets)
    (ht : d'.wagerTransactions = d.wagerTransactions) :
    Keeps d d' :=
  ⟨fun w hmem => ⟨w, hw ▸ hmem, rfl, rfl, rfl⟩, fun t hmem => ⟨t, ht ▸ hmem, rfl⟩,
    fun _ hmem _ => ht ▸ hmem⟩

theorem isTerminal_of_processed {t : WagerTransaction} (h : t.status = .processed) :
    t.isTerminal = true :=
  WagerTransaction.isTerminal_iff.mpr (Or.inl h)

theorem Identity.keep {t : CreateWagerTransactionProps} (h : Identity P d t) (k : Keeps d d') :
    Identity P d' t := by
  refine ⟨h.wallet, h.player, h.money, ?_, h.reference, h.opening, h.submitted⟩
  obtain ⟨w, hw, hid, hplayer⟩ := h.owner
  obtain ⟨w', hw', hsame⟩ := k.wallets w hw
  exact ⟨w', hw', hsame.1.trans hid, hsame.2.1.trans hplayer⟩

theorem InboxOk.keep {m : InboxMessage} (h : InboxOk P d m) (k : Keeps d d') : InboxOk P d' m := by
  obtain ⟨cmd, hparse, t, ht, hkey, hhash⟩ := h.backed
  obtain ⟨t', ht', hprops⟩ := k.rows t ht
  exact ⟨h.consumer, h.processed, cmd, hparse, t', ht', hprops ▸ hkey, hprops ▸ hhash⟩

theorem Reversal.keep {t b : WagerTransaction} (h : Reversal d t b) (k : Keeps d d')
    (hentries : d'.entriesOf t.id = d.entriesOf t.id) : Reversal d' t b :=
  ⟨h.toReverses, k.terminal b h.row (isTerminal_of_processed h.processed), h.referenceId,
    hentries ▸ h.direction⟩

theorem RowOk.keep {t : WagerTransaction} (h : RowOk P d t) (k : Keeps d d')
    (hentries : d'.entriesOf t.id = d.entriesOf t.id)
    (hevents : d'.eventsOf t.id = d.eventsOf t.id) : RowOk P d' t := by
  refine ⟨h.identity.keep k, h.lifecycle, h.attempts, ?_, ?_, ?_, ?_⟩
  · rw [hentries]
    exact h.moved
  · rw [hentries]
    exact h.unmoved
  · intro hprocessed hrequires
    obtain ⟨b, hb⟩ := h.reversal hprocessed hrequires
    exact ⟨b, hb.keep k hentries⟩
  · unfold History
    rw [hentries, hevents]
    exact h.history

theorem AccountOk.keep {row : WalletRow} (h : AccountOk P d row)
    (hentries : d'.entriesOfWallet row.id = d.entriesOfWallet row.id)
    (hevents : d'.balanceEventsOf row.id = d.balanceEventsOf row.id)
    (hopening : ∀ e ∈ d.entriesOfWallet row.id,
      d'.isOpening e.transactionId = d.isOpening e.transactionId) : AccountOk P d' row := by
  refine ⟨h.id, h.player, h.nonneg, ?_, ?_, ?_, ?_, ?_⟩ <;> rw [hentries]
  · exact h.chain
  · exact h.balanced
  · rw [h.version]
    congr 1
    exact List.countP_congr fun e he => by rw [hopening e he]
  · exact h.versioned
  · rw [hevents]
    exact h.events

/-! ## The balance that the events of a wallet end with -/

theorem balanceAfterOf_balanceChange {e : WalletLedgerEntry} {id : Id} (h : e.walletId = id)
    (v : Nat) : (balanceChange e v).balanceAfterOf id = some e.balanceAfter.toJSON := by
  simp [balanceChange, EventData.balanceAfterOf, h]

theorem filterMap_balanceAfterOf (id : Id) (events : List EventData) :
    events.filterMap (·.balanceAfterOf id) =
      (events.filter (·.isBalanceChangeOf id)).filterMap (·.balanceAfterOf id) := by
  rw [List.filterMap_filter]
  apply List.filterMap_congr
  intro e _
  cases e <;> simp [EventData.balanceAfterOf, EventData.isBalanceChangeOf]

theorem AccountOk.balancesAfter {row : WalletRow} (h : AccountOk P d row) :
    d.eventData.filterMap (·.balanceAfterOf row.id) =
      (d.entriesOfWallet row.id).map fun e => e.balanceAfter.toJSON := by
  -- entry by entry along the versions that the events carry
  have hzip : ∀ (es : List WalletLedgerEntry) (vs : List Nat), es.length = vs.length →
      (∀ e ∈ es, e.walletId = row.id) →
      (es.zipWith balanceChange vs).filterMap (·.balanceAfterOf row.id) =
        es.map fun e => e.balanceAfter.toJSON := by
    intro es
    induction es with
    | nil => simp
    | cons e es ih =>
      intro vs hlen hid
      cases vs with
      | nil => simp at hlen
      | cons v vs =>
        rw [List.zipWith_cons_cons, List.filterMap_cons,
          balanceAfterOf_balanceChange (hid e List.mem_cons_self)]
        simpa using ih vs (by simpa using hlen) fun e he => hid e (List.mem_cons_of_mem _ he)
  have hevents := h.events
  unfold Database.balanceEventsOf at hevents
  rw [filterMap_balanceAfterOf, hevents, hzip]
  · simp [lastVersions]
  · intro e he
    simpa [Database.entriesOfWallet] using (List.mem_filter.mp he).2

/-- The balance of a wallet is the one that its events end with. -/
theorem AccountOk.lastBalance {row : WalletRow} (h : AccountOk P d row) :
    lastBalance row.id row.currency d.eventData =
      (Money.mk row.balanceAmount row.currency).toJSON := by
  unfold WageringProcessor.lastBalance
  rw [h.balancesAfter]
  cases hlast : (d.entriesOfWallet row.id).getLast? with
  | none =>
    have hnil := List.getLast?_eq_none_iff.mp hlast
    have hchain := h.chain
    rw [hnil] at hchain
    simp [hnil, show Money.zero row.currency = ⟨row.balanceAmount, row.currency⟩ from hchain]
  | some e => simp [hlast, h.chain.getLast hlast]

/-- LOSS events stay right when events are added whose own LOSS events are right. -/
theorem LossesOk.append {events : List EventData} (h : LossesOk P d)
    (hdata : d'.eventData = d.eventData ++ events) (k : Keeps d d')
    (hnew : ∀ pre post data balance,
      events = pre ++ .wagerTransactionProcessed data balance :: post → data.kind = .loss →
        ∃ w ∈ d'.wallets, w.id = P.canonical data.walletId ∧
          balance = lastBalance w.id w.currency (d.eventData ++ pre)) : LossesOk P d' := by
  intro pre post data balance heq hkind
  rw [hdata] at heq
  -- the event is among the new ones, or it was there before
  rcases List.append_eq_append_iff.mp heq with ⟨as, hpre, hevents⟩ | ⟨bs, hold, hnews⟩
  · obtain ⟨w, hw, hid, hbal⟩ := hnew as post data balance hevents hkind
    exact ⟨w, hw, hid, hpre ▸ hbal⟩
  · cases bs with
    | nil =>
      -- the first of the new events
      obtain ⟨w, hw, hid, hbal⟩ := hnew [] post data balance (by simpa using hnews.symm) hkind
      refine ⟨w, hw, hid, ?_⟩
      rw [hbal]
      congr 1
      simpa using hold
    | cons b bs =>
      obtain ⟨rfl, -⟩ := List.cons.inj hnews
      obtain ⟨w, hw, hid, hbal⟩ := h pre bs data balance hold hkind
      obtain ⟨w', hw', hid', -, hcur⟩ := k.wallets w hw
      exact ⟨w', hw', hid'.trans hid, by rw [hbal, hid', hcur]⟩

end WageringProcessor
