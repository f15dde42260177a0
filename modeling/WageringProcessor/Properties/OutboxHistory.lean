import WageringProcessor.Invariants.Reachable
import WageringProcessor.Runs

/-!
# The outbox is the history

The rows of the outbox, in the order in which they were committed, say what happened to every
transaction and to every wallet, and nothing else.
-/

namespace WageringProcessor

open Library.Interleaving Library.Chain

variable {P : Platform} {c : Config Shared Proc} {d : Database} {t : WagerTransaction}
  {w : WalletRow}

/-! ## The events of one type about one transaction -/

namespace Database

def eventsOfType (d : Database) (eventType : String) (transactionId : Id) : List EventData :=
  (d.eventsOf transactionId).filter fun e => e.eventType = eventType

end Database

def EventData.walletVersion? : EventData → Option Nat
  | .walletBalanceChanged _ _ _ _ _ _ walletVersion => some walletVersion
  | _ => none

/-- `data` is about the row `t`. -/
structure About (t : WagerTransaction) (data : WagerTransactionData) : Prop where
  transactionId : data.transactionId = t.id
  kind : data.kind = t.kind
  money : data.money = t.money.toJSON

/-- `balance` is the balance of the wallet of `t` right after `t` was applied: the one that its
movement left, or, where nothing moved, the one that the movements before its event had left. -/
structure BalanceAfter (d : Database) (t : WagerTransaction) (event : EventData)
    (balance : MoneyProps) : Prop where
  moved : t.kind ≠ .loss → ∃ e, d.entriesOf t.id = [e] ∧ balance = e.balanceAfter.toJSON
  unmoved : t.kind = .loss → ∀ pre post, d.eventData = pre ++ event :: post →
    ∃ w ∈ d.wallets, w.id = t.walletId ∧ balance = lastBalance w.id w.currency pre

/-- An event tells of something that happened. -/
def EventData.Happened (d : Database) : EventData → Prop
  | .wagerTransactionProcessed data _ => ∃ t ∈ d.wagerTransactions, t.id = data.transactionId ∧
      t.status = .processed
  | .wagerTransactionRejected data _ => ∃ t ∈ d.wagerTransactions, t.id = data.transactionId ∧
      t.status = .rejected
  | .wagerTransactionPendingReference data _ => ∃ t ∈ d.wagerTransactions,
      t.id = data.transactionId ∧ 1 ≤ t.referenceRetryAttempts
  | .walletBalanceChanged walletId transactionId direction money before after version =>
      ∃ e ∈ d.ledgerEntries, e.walletId = walletId ∧ e.transactionId = transactionId ∧
        .walletBalanceChanged walletId transactionId direction money before after version =
          balanceChange e version

structure OutboxHistory (d : Database) : Prop where
  processed : ∀ t ∈ d.wagerTransactions, t.status = .processed → ∃ data balance, About t data ∧
    d.eventsOfType "WagerTransactionProcessed" t.id = [.wagerTransactionProcessed data balance] ∧
      BalanceAfter d t (.wagerTransactionProcessed data balance) balance
  moved : ∀ e ∈ d.ledgerEntries, ∃ version,
    d.eventsOfType "WalletBalanceChanged" e.transactionId = [balanceChange e version]
  rejected : ∀ t ∈ d.wagerTransactions, t.status = .rejected → ∃ data, About t data ∧
    d.eventsOfType "WagerTransactionRejected" t.id = [.wagerTransactionRejected data t.failureCode]
  parked : ∀ t ∈ d.wagerTransactions,
    (d.eventsOfType "WagerTransactionPendingReference" t.id).length = t.referenceRetryAttempts
  nothingElse : ∀ e ∈ d.eventData, e.Happened d
  versions : ∀ w ∈ d.wallets, d.entriesOfWallet w.id ≠ [] → ∃ first,
    (d.balanceEventsOf w.id).filterMap EventData.walletVersion? =
        List.range' first (d.entriesOfWallet w.id).length ∧
      first + (d.entriesOfWallet w.id).length = w.version + 1 ∧
        d.balanceEventsOf w.id = (d.entriesOfWallet w.id).zipWith balanceChange
          (List.range' first (d.entriesOfWallet w.id).length)

/-! ## The events of a row, type by type -/

theorem Describes.about {data : WagerTransactionData}
    (h : Describes P t.toCreateWagerTransactionProps data) : About t data :=
  ⟨h.transactionId, h.kind, h.money⟩

theorem filter_parked {parked : List EventData} (h : ∀ e ∈ parked,
    Parked P t.toCreateWagerTransactionProps e) (eventType : String) :
    parked.filter (fun e => e.eventType = eventType) =
      if eventType = "WagerTransactionPendingReference" then parked else [] := by
  have htype : ∀ e ∈ parked, e.eventType = "WagerTransactionPendingReference" := by
    intro e he
    obtain ⟨data, -, rfl⟩ := h e he
    rfl
  split
  · rename_i heq
    rw [List.filter_eq_self]
    intro e he
    simp [htype e he, heq]
  · rename_i hne
    rw [List.filter_eq_nil_iff]
    intro e he
    simpa [htype e he] using fun heq => hne heq.symm

/-- The events of a row that are of one type: its attempts, or those of its conclusion. -/
theorem RowOk.eventsOfType (h : RowOk P d t) : ∃ parked final,
    parked.length = t.referenceRetryAttempts ∧
      (∀ e ∈ parked, Parked P t.toCreateWagerTransactionProps e) ∧
        Concluded P t (d.entriesOf t.id) final ∧ d.eventsOf t.id = parked ++ final ∧
          ∀ eventType, d.eventsOfType eventType t.id =
            (if eventType = "WagerTransactionPendingReference" then parked else []) ++
              final.filter fun e => e.eventType = eventType := by
  obtain ⟨parked, final, hevents, hlength, hparked, hfinal⟩ := h.history
  refine ⟨parked, final, hlength, hparked, hfinal, hevents, fun eventType => ?_⟩
  rw [Database.eventsOfType, hevents, List.filter_append, filter_parked hparked]

theorem Consistent.lossBalance (h : Consistent P d) {data : WagerTransactionData}
    {balance : MoneyProps} {pre post : List EventData}
    (hd : Describes P t.toCreateWagerTransactionProps data) (hk : t.kind = .loss)
    (hsplit : d.eventData = pre ++ .wagerTransactionProcessed data balance :: post) :
    ∃ w ∈ d.wallets, w.id = t.walletId ∧ balance = lastBalance w.id w.currency pre := by
  obtain ⟨w, hw, hid, hbalance⟩ := h.losses pre post data balance hsplit (hd.kind.trans hk)
  exact ⟨w, hw, hid.trans hd.walletId, hbalance⟩

theorem Consistent.processedEvent (h : Consistent P d) (ht : t ∈ d.wagerTransactions)
    (hp : t.status = .processed) : ∃ data balance, About t data ∧
      d.eventsOfType "WagerTransactionProcessed" t.id = [.wagerTransactionProcessed data balance] ∧
        BalanceAfter d t (.wagerTransactionProcessed data balance) balance := by
  obtain ⟨parked, final, -, -, hfinal, -, htypes⟩ := (h.rows t ht).eventsOfType
  have htype := htypes "WagerTransactionProcessed"
  rw [if_neg (by decide), List.nil_append] at htype
  cases hfinal with
  | waiting status => exact absurd (hp.symm.trans status) (by decide)
  | rejected status => exact absurd (hp.symm.trans status) (by decide)
  | @lost data balance _ kind describes =>
    exact ⟨data, balance, describes.about, htype, fun hk => absurd kind hk,
      fun _ pre post hsplit => h.lossBalance describes kind hsplit⟩
  | @moved data e version _ kind describes entry =>
    exact ⟨data, e.balanceAfter.toJSON, describes.about, htype, fun _ => ⟨e, entry, rfl⟩,
      fun hk => absurd hk kind⟩

theorem Consistent.movedEvent (h : Consistent P d) {e : WalletLedgerEntry}
    (he : e ∈ d.ledgerEntries) : ∃ version,
      d.eventsOfType "WalletBalanceChanged" e.transactionId = [balanceChange e version] := by
  obtain ⟨t, ht, hmoves, hentries, hfor⟩ := h.entry_row he
  obtain ⟨parked, final, -, -, hfinal, -, htypes⟩ := (h.rows t ht).eventsOfType
  have htype := htypes "WalletBalanceChanged"
  rw [if_neg (by decide), List.nil_append, ← hfor.transactionId] at htype
  cases hfinal with
  | waiting status => exact absurd (hmoves.1.symm.trans status) (by decide)
  | rejected status => exact absurd (hmoves.1.symm.trans status) (by decide)
  | lost _ kind => exact absurd kind hmoves.2
  | @moved data e' version _ kind describes entry =>
    obtain rfl : e = e' := by simpa using hentries.symm.trans entry
    exact ⟨version, htype⟩

theorem Consistent.rejectedEvent (h : Consistent P d) (ht : t ∈ d.wagerTransactions)
    (hr : t.status = .rejected) : ∃ data, About t data ∧
      d.eventsOfType "WagerTransactionRejected" t.id =
        [.wagerTransactionRejected data t.failureCode] := by
  obtain ⟨parked, final, -, -, hfinal, -, htypes⟩ := (h.rows t ht).eventsOfType
  have htype := htypes "WagerTransactionRejected"
  rw [if_neg (by decide), List.nil_append] at htype
  cases hfinal with
  | waiting status => exact absurd (hr.symm.trans status) (by decide)
  | @rejected data _ describes => exact ⟨data, describes.about, htype⟩
  | lost status => exact absurd (hr.symm.trans status) (by decide)
  | moved status => exact absurd (hr.symm.trans status) (by decide)

theorem Consistent.parkedEvents (h : Consistent P d) (ht : t ∈ d.wagerTransactions) :
    (d.eventsOfType "WagerTransactionPendingReference" t.id).length =
      t.referenceRetryAttempts := by
  obtain ⟨parked, final, hlength, -, hfinal, -, htypes⟩ := (h.rows t ht).eventsOfType
  have htype := htypes "WagerTransactionPendingReference"
  have hnone : final.filter (fun e => e.eventType = "WagerTransactionPendingReference") = [] := by
    cases hfinal <;> rfl
  rw [if_pos rfl, hnone, List.append_nil] at htype
  rw [htype, hlength]

theorem Consistent.happened (h : Consistent P d) {event : EventData} (he : event ∈ d.eventData) :
    event.Happened d := by
  obtain ⟨t, ht, hid⟩ := h.eventRows event he
  obtain ⟨parked, final, hlength, hparked, hfinal, hevents, -⟩ := (h.rows t ht).eventsOfType
  have hmem : event ∈ parked ++ final := by
    rw [← hevents]
    exact List.mem_filter.mpr ⟨he, by simp [hid]⟩
  rcases List.mem_append.mp hmem with hmem | hmem
  · obtain ⟨data, hdescribes, rfl⟩ := hparked event hmem
    refine ⟨t, ht, hid, ?_⟩
    rw [← hlength]
    exact List.length_pos_of_mem hmem
  · cases hfinal with
    | waiting => simp at hmem
    | rejected status =>
      obtain rfl := List.mem_singleton.mp hmem
      exact ⟨t, ht, hid, status⟩
    | lost status =>
      obtain rfl := List.mem_singleton.mp hmem
      exact ⟨t, ht, hid, status⟩
    | @moved data e version status kind describes entry =>
      rcases List.mem_pair.mp hmem with rfl | rfl
      · exact ⟨t, ht, hid, status⟩
      · have hentry : e ∈ d.entriesOf t.id := by simp [entry]
        exact ⟨e, (List.mem_filter.mp hentry).1, rfl, rfl, rfl⟩

/-! ## The versions of a wallet -/

theorem walletVersions_zipWith (es : List WalletLedgerEntry) (vs : List Nat)
    (h : es.length = vs.length) :
    (es.zipWith balanceChange vs).filterMap EventData.walletVersion? = vs := by
  induction es generalizing vs with
  | nil =>
    cases vs with
    | nil => rfl
    | cons v vs => simp at h
  | cons e es ih =>
    cases vs with
    | nil => simp at h
    | cons v vs =>
      have hrest := ih vs (by simpa using h)
      show v :: (es.zipWith balanceChange vs).filterMap EventData.walletVersion? = v :: vs
      rw [hrest]

theorem AccountOk.walletVersions (h : AccountOk P d w) (hne : d.entriesOfWallet w.id ≠ []) :
    ∃ first, (d.balanceEventsOf w.id).filterMap EventData.walletVersion? =
        List.range' first (d.entriesOfWallet w.id).length ∧
      first + (d.entriesOfWallet w.id).length = w.version + 1 ∧
        d.balanceEventsOf w.id = (d.entriesOfWallet w.id).zipWith balanceChange
          (List.range' first (d.entriesOfWallet w.id).length) := by
  have hpos : 0 < (d.entriesOfWallet w.id).length := List.length_pos_iff.mpr hne
  have hversioned := h.versioned
  refine ⟨w.version + 1 - (d.entriesOfWallet w.id).length, ?_, by omega, h.events⟩
  rw [h.events, walletVersions_zipWith _ _ (by simp [lastVersions])]
  rfl

/-- In every reachable state the outbox corresponds exactly to the rows, the ledger and the
versions of the wallets. -/
theorem reachable_outboxHistory (h : Reachable (step P) initial c) :
    OutboxHistory c.shared.db := by
  have hc := reachable_consistent h
  exact ⟨fun _ ht hp => hc.processedEvent ht hp, fun _ he => hc.movedEvent he,
    fun _ ht hr => hc.rejectedEvent ht hr, fun _ ht => hc.parkedEvents ht,
    fun _ he => hc.happened he, fun w hw hne => (hc.accounts w hw).walletVersions hne⟩

theorem refundAndRollback_outboxHistory : ∃ c, Reachable (step localPlatform) initial c ∧
    c.shared.db.wagerTransactions.length = 4 ∧ OutboxHistory c.shared.db := by
  obtain ⟨c, hreach, -, hrows⟩ := refundAndRollback_reaches
  have hlength := congrArg List.length hrows
  rw [List.length_map] at hlength
  exact ⟨c, hreach, hlength, reachable_outboxHistory hreach⟩

end WageringProcessor
