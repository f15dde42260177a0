import WageringProcessor.Invariants.Apply

/-!
# Settlements keep the database consistent

A settlement replaces the row it starts from, appends at most one ledger entry and its events, and
rewrites at most the wallet it holds.
-/

namespace WageringProcessor

open Library.Table Library.Chain

variable {P : Platform} {own : Resource → Prop} {d : Database} {w : Writes}
  {tx t : WagerTransaction}

/-! ## The row before -/

/-- What a consistent state says about the row that a settlement starts from. -/
structure Settling (P : Platform) (d : Database) (tx : WagerTransaction) : Prop where
  old : ∀ t ∈ d.wagerTransactions, t.id = tx.id → t.isTerminal = false ∧
    t.toCreateWagerTransactionProps = (toWagerTransactionEntity P tx).toCreateWagerTransactionProps
  key : ∀ t ∈ d.wagerTransactions, t.id ≠ tx.id → t.idempotencyKey ≠ tx.idempotencyKey
  external : ∀ t ∈ d.wagerTransactions, t.id ≠ tx.id →
    (t.providerId, t.externalTransactionId) ≠ (tx.providerId, tx.externalTransactionId)
  identity : Identity P d (toWagerTransactionEntity P tx).toCreateWagerTransactionProps
  kind : tx.kind ≠ .opening
  unsettled : tx.isTerminal = false
  attempts : tx.referenceRetryAttempts ≤ MAX_REFERENCE_RETRY_ATTEMPTS
  failureCode : tx.failureCode = none
  processedAt : tx.processedAt = none
  reference : tx.referenceTransactionId = none
  noEntries : d.entriesOf tx.id = []
  parkedLength : (d.eventsOf tx.id).length = tx.referenceRetryAttempts
  parked : ∀ e ∈ d.eventsOf tx.id,
    Parked P (toWagerTransactionEntity P tx).toCreateWagerTransactionProps e

theorem RowOk.stored (h : RowOk P d tx) : toWagerTransactionEntity P tx = tx := by
  have hwallet := Platform.canonical_of_uuid h.identity.wallet
  have hplayer := Platform.canonical_of_uuid h.identity.player
  unfold toWagerTransactionEntity
  rw [hwallet, hplayer]

theorem Consistent.transaction_inj (h : Consistent P d) {t t' : WagerTransaction}
    (ht : t ∈ d.wagerTransactions) (ht' : t' ∈ d.wagerTransactions) (hid : t.id = t'.id) : t = t' :=
  List.inj_on_of_nodup_map h.transactionIds ht ht' hid

theorem Consistent.wallet_inj (h : Consistent P d) {r r' : WalletRow} (hr : r ∈ d.wallets)
    (hr' : r' ∈ d.wallets) (hid : r.id = r'.id) : r = r' :=
  List.inj_on_of_nodup_map h.walletIds hr hr' hid

theorem Consistent.findWallet (h : Consistent P d) {r : WalletRow} (hr : r ∈ d.wallets) :
    d.findWallet r.id = some (toWalletDomain r) := by
  rw [Database.findWallet, Database.walletRow, lookup_of_mem h.walletIds hr, Option.map_some]

theorem not_terminal_of_pendingReference (h : tx.status = .pendingReference) :
    tx.isTerminal = false := by
  simp [WagerTransaction.isTerminal, h]

theorem Waiting.unsettled (h : tx.status = .pendingReference) (hok : Lifecycle tx) :
    Waiting tx := by
  rcases hok with hok | hok | hok
  · exact hok
  · exact absurd (h.symm.trans hok.status) (by decide)
  · exact absurd (h.symm.trans hok.status) (by decide)

theorem Claimed.settling (h : Consistent P d) (hc : Claimed P own d tx) : Settling P d tx := by
  have hcreated := hc.created
  have hunsettled : tx.isTerminal = false := by rw [hcreated]; rfl
  have hfailure : tx.failureCode = none := by rw [hcreated]
  have hprocessed : tx.processedAt = none := by rw [hcreated]
  have hreference : tx.referenceTransactionId = none := by rw [hcreated]
  have hattempts : tx.referenceRetryAttempts = 0 := by rw [hcreated]
  -- the row is new, so no event and no entry is about it
  have hevents : d.eventsOf tx.id = [] := by
    rw [Database.eventsOf, List.filter_eq_nil_iff]
    intro e he
    obtain ⟨t, ht, hid⟩ := h.eventRows e he
    simpa [← hid] using hc.newId t ht
  refine ⟨?_, fun t ht _ => hc.newKey t ht, fun t ht _ => hc.newExternal t ht, hc.identity, hc.kind,
    hunsettled, by rw [hattempts]; decide, hfailure, hprocessed, hreference, ?_, ?_, ?_⟩
  · exact fun t ht hid => absurd hid (hc.newId t ht)
  · rw [Database.entriesOf, List.filter_eq_nil_iff]
    intro e he
    obtain ⟨t, ht, hid⟩ := h.entries e he
    simpa [← hid] using hc.newId t ht
  · rw [hevents, hattempts]
    rfl
  · simp [hevents]

theorem LockedRow.settling (h : Consistent P d) (hl : LockedRow own d tx) : Settling P d tx := by
  have hok := h.rows tx hl.row
  have hwaiting := Waiting.unsettled hl.status hok.lifecycle
  have hunsettled := not_terminal_of_pendingReference hl.status
  have hmoves : ¬Moves tx := fun hm => absurd (hl.status.symm.trans hm.1) (by decide)
  have hkind : tx.kind ≠ .opening := by
    rcases WagerTransaction.requiresReference_iff.mp hwaiting.kind with hk | hk <;> simp [hk]
  obtain ⟨parked, final, hevents, hlength, hparked, hfinal⟩ := hok.history
  -- a row that waits has only the events of its attempts
  have hnil : final = [] := by
    cases hfinal with
    | waiting _ => rfl
    | rejected status _ => exact absurd (hl.status.symm.trans status) (by decide)
    | lost status _ _ => exact absurd (hl.status.symm.trans status) (by decide)
    | moved status _ _ _ => exact absurd (hl.status.symm.trans status) (by decide)
  rw [hnil, List.append_nil] at hevents
  have hstored := hok.stored
  refine ⟨?_, ?_, ?_, hstored.symm ▸ hok.identity, hkind, hunsettled, hok.attempts,
    hwaiting.failureCode, hwaiting.processedAt, hwaiting.reference, hok.unmoved hmoves, ?_, ?_⟩
  · intro t ht hid
    rw [hstored, h.transaction_inj ht hl.row hid]
    exact ⟨hunsettled, rfl⟩
  · intro t ht hne hkey
    have heq := List.inj_on_of_nodup_map h.idempotencyKeys ht hl.row hkey
    exact hne (by rw [heq])
  · intro t ht hne hext
    have heq := List.inj_on_of_nodup_map h.externalIds ht hl.row hext
    exact hne (by rw [heq])
  · rw [hevents]
    exact hlength
  · rw [hevents, hstored]
    exact hparked

theorem Subject.settling (h : Consistent P d) (hs : Subject P own d tx) : Settling P d tx := by
  cases hs with
  | claimed hc => exact hc.settling h
  | locked hl => exact hl.settling h

/-! ## What the settlement changes -/

/-- The wallet and the entry that an outcome writes. -/
theorem Outcome.effect (o : Outcome P own d tx t w) :
    (w.wallets = [] ∧ w.ledgerEntries = []) ∨
      ∃ w₀ w₁ e, w.wallets = [w₁] ∧ w.ledgerEntries = [e] ∧ w₀ ∈ d.wallets ∧
        MovedRow w₀ w₁ e ∧ e.transactionId = t.id ∧ own (.wallet w₀.id) := by
  cases o with
  | parked wallets entries => exact Or.inl ⟨wallets, entries⟩
  | rejected wallets entries => exact Or.inl ⟨wallets, entries⟩
  | lost wallets entries => exact Or.inl ⟨wallets, entries⟩
  | moved wallets entries owns wallet _ _ movement entry =>
    exact Or.inr ⟨_, _, _, wallets, entries, wallet, movement, entry.transactionId, owns⟩

/-- A movement is of a wallet that the call holds. -/
theorem Outcome.ownsEntry (o : Outcome P own d tx t w) {e : WalletLedgerEntry}
    (he : e ∈ w.ledgerEntries) : own (.wallet e.walletId) := by
  rcases o.effect with ⟨-, hnil⟩ | ⟨w₀, w₁, e₁, -, hone, -, hm, -, howns⟩
  · rw [hnil] at he
    exact absurd he List.not_mem_nil
  · rw [hone] at he
    rw [List.mem_singleton.mp he, hm.walletId]
    exact howns

theorem Outcome.events_transactionId (o : Outcome P own d tx t w) :
    ∀ e ∈ w.data, e.transactionId = t.id := by
  intro e he
  -- one message for each outcome, and two for a movement
  cases o with
  | parked _ _ _ _ _ describes events =>
    obtain rfl : e = _ := by simpa [events] using he
    exact describes.transactionId
  | rejected _ _ _ _ describes events =>
    obtain rfl : e = _ := by simpa [events] using he
    exact describes.transactionId
  | lost _ _ _ _ _ _ _ describes events =>
    obtain rfl : e = _ := by simpa [events] using he
    exact describes.transactionId
  | moved _ _ _ _ _ _ _ entry _ _ _ describes events =>
    rw [events] at he
    rcases List.mem_pair.mp he with rfl | rfl
    · exact describes.transactionId
    · exact entry.transactionId

theorem Settles.id (s : Settles P own d tx t w) : t.id = tx.id := by
  have hid := congrArg CreateWagerTransactionProps.id s.identity
  exact hid

theorem Settles.kind (s : Settles P own d tx t w) : t.kind = tx.kind := by
  have hkind := congrArg CreateWagerTransactionProps.kind s.identity
  exact hkind

theorem Settles.old (s : Settles P own d tx t w) (h : Consistent P d) {x : WagerTransaction}
    (hx : x ∈ d.wagerTransactions) (hid : x.id = t.id) : x.isTerminal = false ∧
      x.toCreateWagerTransactionProps = t.toCreateWagerTransactionProps := by
  rw [s.identity]
  exact (s.subject.settling h).old x hx (hid.trans s.id)

theorem Settles.eventData (s : Settles P own d tx t w) :
    (d.apply w).eventData = d.eventData ++ w.data :=
  Database.eventData_apply s.messages.fresh s.messages.nodup

theorem Outcome.keepsWallets (o : Outcome P own d tx t w) (h : Consistent P d) :
    ∀ r ∈ d.wallets, ∃ r' ∈ (d.apply w).wallets, SameWallet r r' := by
  intro r hr
  rcases o.effect with ⟨hw, -⟩ | ⟨w₀, w₁, e, hw, -, h₀, hm, -, -⟩
  · exact ⟨r, by rwa [Database.wallets_apply hw], rfl, rfl, rfl⟩
  · by_cases hid : r.id = w₁.id
    · obtain rfl := h.wallet_inj hr h₀ (hid.trans hm.id)
      exact ⟨w₁, (Database.mem_wallets_apply hw).mpr (Or.inl rfl), hm.id, hm.playerId, hm.currency⟩
    · exact ⟨r, (Database.mem_wallets_apply hw).mpr (Or.inr ⟨hr, hid⟩), rfl, rfl, rfl⟩

theorem Settles.keeps (s : Settles P own d tx t w) (o : Outcome P own d tx t w)
    (h : Consistent P d) : Keeps d (d.apply w) := by
  refine ⟨o.keepsWallets h, ?_, ?_⟩
  · intro x hx
    by_cases hid : x.id = t.id
    · exact ⟨t, (Database.mem_transactions_apply s.row).mpr (Or.inl rfl), (s.old h hx hid).2.symm⟩
    · exact ⟨x, (Database.mem_transactions_apply s.row).mpr (Or.inr ⟨hx, hid⟩), rfl⟩
  · intro x hx hterminal
    refine (Database.mem_transactions_apply s.row).mpr (Or.inr ⟨hx, fun hid => ?_⟩)
    exact absurd hterminal (by simp [(s.old h hx hid).1])

theorem Outcome.entriesOf_other (o : Outcome P own d tx t w) {id : Id} (hne : id ≠ t.id) :
    (d.apply w).entriesOf id = d.entriesOf id := by
  rw [Database.entriesOf_apply]
  rcases o.effect with ⟨-, he⟩ | ⟨w₀, w₁, e, -, he, -, -, htx, -⟩
  · simp [he]
  · simp [he, htx, Ne.symm hne]

theorem Settles.eventsOf_other (s : Settles P own d tx t w) (o : Outcome P own d tx t w) {id : Id}
    (hne : id ≠ t.id) : (d.apply w).eventsOf id = d.eventsOf id := by
  have hnone : w.data.filter (fun e => e.transactionId = id) = [] := by
    rw [List.filter_eq_nil_iff]
    intro e he
    simpa [o.events_transactionId e he] using Ne.symm hne
  rw [Database.eventsOf_append s.eventData, hnone, List.append_nil]

theorem Settles.eventsOf_self (s : Settles P own d tx t w) (o : Outcome P own d tx t w) :
    (d.apply w).eventsOf t.id = d.eventsOf tx.id ++ w.data := by
  have hall : w.data.filter (fun e => e.transactionId = t.id) = w.data := by
    rw [List.filter_eq_self]
    intro e he
    simpa using o.events_transactionId e he
  rw [Database.eventsOf_append s.eventData, hall, s.id]

theorem Settles.isOpening (s : Settles P own d tx t w) (h : Consistent P d) (id : Id) :
    (d.apply w).isOpening id = d.isOpening id := by
  rw [Bool.eq_iff_iff, Database.isOpening_iff, Database.isOpening_iff]
  have hkind : t.kind ≠ .opening := s.kind ▸ (s.subject.settling h).kind
  constructor
  · rintro ⟨x, hx, hid, hopening⟩
    rcases (Database.mem_transactions_apply s.row).mp hx with rfl | ⟨hx, -⟩
    · exact absurd hopening hkind
    · exact ⟨x, hx, hid, hopening⟩
  · rintro ⟨x, hx, hid, hopening⟩
    refine ⟨x, (Database.mem_transactions_apply s.row).mpr (Or.inr ⟨hx, fun hxt => ?_⟩), hid,
      hopening⟩
    have hprops := congrArg CreateWagerTransactionProps.kind (s.old h hx hxt).2
    exact hkind (hprops.symm.trans hopening)

/-! ## The settled row -/

theorem Settles.identityOk (s : Settles P own d tx t w) (o : Outcome P own d tx t w)
    (h : Consistent P d) : Identity P (d.apply w) t.toCreateWagerTransactionProps := by
  rw [s.identity]
  exact (s.subject.settling h).identity.keep (s.keeps o h)

theorem Settles.lifecycle (s : Settles P own d tx t w) (o : Outcome P own d tx t w)
    (h : Consistent P d) : Lifecycle t := by
  have hs := s.subject.settling h
  cases o with
  | parked _ _ kind _ row =>
    subst row
    exact Or.inl ⟨rfl, kind, rfl, Nat.le_add_left 1 _, hs.processedAt, hs.failureCode, hs.reference⟩
  | @rejected code _ _ _ _ fits row =>
    subst row
    exact Or.inr (Or.inr ⟨rfl, rfl, ⟨code, rfl, by cases code <;> exact fits⟩, hs.reference⟩)
  | lost _ _ _ _ _ kind row =>
    subst row
    refine Or.inr (Or.inl ⟨rfl, rfl, hs.failureCode, ?_⟩)
    -- a LOSS undoes nothing, so it has no reference
    have hnone : tx.requiresReference = false := by
      simp [WagerTransaction.requiresReference, requiresReferenceFor, kind]
    exact (congrArg Option.isSome hs.reference).trans hnone.symm
  | moved _ _ _ _ _ _ _ _ row unreferenced referenced =>
    subst row
    refine Or.inr (Or.inl ⟨rfl, rfl, hs.failureCode, ?_⟩)
    change Option.isSome (Option.map _ _) = tx.requiresReference
    cases hrequires : tx.requiresReference with
    | false => simp [unreferenced hrequires]
    | true =>
      obtain ⟨b, rfl, -⟩ := referenced hrequires
      rfl

theorem Settles.attempts (s : Settles P own d tx t w) (o : Outcome P own d tx t w)
    (h : Consistent P d) : t.referenceRetryAttempts ≤ MAX_REFERENCE_RETRY_ATTEMPTS := by
  have hs := (s.subject.settling h).attempts
  -- only parking counts an attempt, and it checks the bound
  cases o with
  | parked _ _ _ attempts row =>
    subst row
    exact attempts
  | rejected _ _ _ row =>
    subst row
    exact hs
  | lost _ _ _ _ _ _ row =>
    subst row
    exact hs
  | moved _ _ _ _ _ _ _ _ row =>
    subst row
    exact hs

theorem Settles.entriesOf_self (s : Settles P own d tx t w) (h : Consistent P d) :
    (d.apply w).entriesOf t.id = w.ledgerEntries.filter fun e => e.transactionId = t.id := by
  rw [Database.entriesOf_apply]
  have hnone := (s.subject.settling h).noEntries
  rw [← s.id] at hnone
  rw [hnone, List.nil_append]

theorem Settles.rowEntries (s : Settles P own d tx t w) (o : Outcome P own d tx t w)
    (h : Consistent P d) :
    (Moves t → ∃ e, (d.apply w).entriesOf t.id = [e] ∧ EntryFor t e) ∧
      (¬Moves t → (d.apply w).entriesOf t.id = []) := by
  rw [s.entriesOf_self h]
  -- an entry stands for a row that is PROCESSED and no LOSS
  cases o with
  | parked _ entries _ _ row =>
    rw [entries]
    refine ⟨fun hm => absurd hm.1 ?_, fun _ => rfl⟩
    simp [row]
  | rejected _ entries _ row =>
    rw [entries]
    refine ⟨fun hm => absurd hm.1 ?_, fun _ => rfl⟩
    simp [row]
  | lost _ entries _ _ _ kind row =>
    rw [entries]
    exact ⟨fun hm => absurd (s.kind.trans kind) hm.2, fun _ => rfl⟩
  | moved _ entries _ _ _ kind _ entry row =>
    rw [entries]
    refine ⟨fun _ => ⟨_, by simp [entry.transactionId], entry⟩, fun hm => absurd ?_ hm⟩
    refine ⟨?_, fun hk => kind (s.kind.symm.trans hk)⟩
    subst row
    rfl

theorem Settles.reversal (s : Settles P own d tx t w) (o : Outcome P own d tx t w)
    (h : Consistent P d) (hprocessed : t.status = .processed)
    (hrequires : t.requiresReference = true) : ∃ b, Reversal (d.apply w) t b := by
  have hrequires' : tx.requiresReference = true := by
    simpa [WagerTransaction.requiresReference, s.kind] using hrequires
  -- only a movement settles a reversal as PROCESSED
  cases o with
  | parked _ _ _ _ row =>
    simp [row] at hprocessed
  | rejected _ _ _ row =>
    simp [row] at hprocessed
  | lost _ _ _ _ _ kind =>
    simp [WagerTransaction.requiresReference, requiresReferenceFor, kind] at hrequires'
  | moved wallets entries owns wallet walletId kind movement entry row unreferenced referenced
      describes events =>
    have o' : Outcome P own d tx t w := .moved wallets entries owns wallet walletId kind movement
      entry row unreferenced referenced describes events
    obtain ⟨b, rfl, hundoes, hdirection⟩ := referenced hrequires'
    refine ⟨b, hundoes.toReverses, ?_, by rw [row]; rfl, ?_⟩
    · exact (s.keeps o' h).terminal b hundoes.row (isTerminal_of_processed hundoes.processed)
    · rw [s.entriesOf_self h, entries]
      intro e he
      obtain rfl : e = _ := by simpa using (List.mem_filter.mp he).1
      exact hdirection

theorem Settles.history (s : Settles P own d tx t w) (o : Outcome P own d tx t w)
    (h : Consistent P d) : History P (d.apply w) t := by
  have hs := s.subject.settling h
  have hparked := hs.parked
  rw [← s.identity] at hparked
  unfold History
  rw [s.eventsOf_self o, s.entriesOf_self h]
  -- parking adds to the attempts, every other outcome ends the history
  cases o with
  | @parked _ data _ _ _ _ row describes events =>
    refine ⟨d.eventsOf tx.id ++ w.data, [], (List.append_nil _).symm, ?_, ?_, .waiting ?_⟩
    · rw [List.length_append, hs.parkedLength, events]
      subst row
      rfl
    · intro e he
      rcases List.mem_append.mp he with he | he
      · exact hparked e he
      · obtain rfl : e = _ := by simpa [events] using he
        exact ⟨data, describes, rfl⟩
    · subst row
      rfl
  | @rejected code _ data _ _ _ row describes events =>
    refine ⟨d.eventsOf tx.id, w.data, rfl, ?_, hparked, ?_⟩
    · rw [hs.parkedLength]
      subst row
      rfl
    · have hcode : t.failureCode = some code := by rw [row]
      rw [events, ← hcode]
      exact .rejected (by rw [row]) describes
  | lost _ entries _ _ _ kind row describes events =>
    refine ⟨d.eventsOf tx.id, w.data, rfl, ?_, hparked, ?_⟩
    · rw [hs.parkedLength]
      subst row
      rfl
    · rw [events]
      exact .lost (by rw [row]) (s.kind.trans kind) describes
  | moved _ entries _ _ _ kind _ entry row _ _ describes events =>
    refine ⟨d.eventsOf tx.id, w.data, rfl, ?_, hparked, ?_⟩
    · rw [hs.parkedLength]
      subst row
      rfl
    · rw [events, entries]
      exact .moved (by rw [row]) (fun hk => kind (s.kind.symm.trans hk)) describes
        (by simp [entry.transactionId])

theorem Settles.rowOk (s : Settles P own d tx t w) (o : Outcome P own d tx t w)
    (h : Consistent P d) : RowOk P (d.apply w) t :=
  ⟨s.identityOk o h, s.lifecycle o h, s.attempts o h, (s.rowEntries o h).1, (s.rowEntries o h).2,
    s.reversal o h, s.history o h⟩

end WageringProcessor
