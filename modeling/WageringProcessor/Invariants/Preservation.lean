import WageringProcessor.Invariants.Settlement

/-!
# Permitted changes keep the database consistent
-/

namespace WageringProcessor

open Library.Table Library.Chain

variable {P : Platform} {own : Resource → Prop} {d d' : Database} {w : Writes}
  {tx t : WagerTransaction}

/-! ## The wallet that a movement extends -/

theorem lastVersions_succ {version n : Nat} (h : n ≤ version) :
    lastVersions (version + 1) (n + 1) = lastVersions version n ++ [version + 1] := by
  unfold lastVersions
  rw [List.range'_concat, show version + 1 + 1 - (n + 1) = version + 1 - n by omega]
  congr 2
  omega

/-- One more movement at the end of a wallet's history. -/
theorem AccountOk.extend {w₀ w₁ : WalletRow} {e : WalletLedgerEntry} (h : AccountOk P d w₀)
    (m : MovedRow w₀ w₁ e) (hentries : d'.entriesOfWallet w₀.id = d.entriesOfWallet w₀.id ++ [e])
    (hevents : d'.balanceEventsOf w₀.id =
      d.balanceEventsOf w₀.id ++ [balanceChange e w₁.version])
    (hopening : ∀ e ∈ d.entriesOfWallet w₀.id,
      d'.isOpening e.transactionId = d.isOpening e.transactionId)
    (hnew : d'.isOpening e.transactionId = false) : AccountOk P d' w₁ := by
  have hb := m.balanced
  have hafter : e.balanceAfter.minorUnits = w₁.balanceAmount := by rw [m.after]
  -- no older entry becomes an opening
  have hcount : (d.entriesOfWallet w₀.id).countP (fun e => !d'.isOpening e.transactionId) =
      (d.entriesOfWallet w₀.id).countP fun e => !d.isOpening e.transactionId :=
    List.countP_congr fun e he => by rw [hopening e he]
  refine ⟨?_, ?_, ?_, ?_, ?_, ?_, ?_, ?_⟩
  · rw [m.id]
    exact h.id
  · rw [m.playerId]
    exact h.player
  · rw [← hafter]
    exact hb.afterNonneg
  · rw [m.id, hentries, m.currency, ← m.after]
    exact h.chain.concat m.before
  · rw [m.id, hentries, m.currency]
    intro e' he'
    rcases List.mem_append.mp he' with he' | he'
    · exact h.balanced e' he'
    · obtain rfl : e' = e := by simpa using he'
      exact hb
  · -- the version counts one more movement
    rw [m.id, hentries, m.version, h.version, List.countP_append, hcount]
    simp [hnew, Nat.add_assoc]
  · rw [m.id, hentries, m.version]
    simpa using h.versioned
  · -- the event carries the version that the movement leaves
    rw [m.id, hevents, hentries, h.events, List.length_append, List.length_singleton, m.version,
      lastVersions_succ h.versioned, List.zipWith_append (by simp [lastVersions])]
    rfl

theorem Outcome.no_balanceEvents (o : Outcome P own d tx t w) (hw : w.wallets = []) (id : Id) :
    w.data.filter (·.isBalanceChangeOf id) = [] := by
  cases o with
  | parked _ _ _ _ _ _ events => simp [events, EventData.isBalanceChangeOf]
  | rejected _ _ _ _ _ events => simp [events, EventData.isBalanceChangeOf]
  | lost _ _ _ _ _ _ _ _ events => simp [events, EventData.isBalanceChangeOf]
  | moved wallets => simp [wallets] at hw

theorem Settles.accounts (s : Settles P own d tx t w) (o : Outcome P own d tx t w)
    (h : Consistent P d) : ∀ r ∈ (d.apply w).wallets, AccountOk P (d.apply w) r := by
  have hopening : ∀ id, (d.apply w).isOpening id = d.isOpening id := s.isOpening h
  have hdata := s.eventData
  have hnew : d.isOpening t.id = false := by
    refine Database.isOpening_eq_false fun x hx hid => ?_
    have hprops := congrArg CreateWagerTransactionProps.kind (s.old h hx hid).2
    exact fun hk => (s.subject.settling h).kind ((s.kind.symm.trans hprops.symm).trans hk)
  rcases o.effect with ⟨hw, he⟩ | ⟨w₀, w₁, e, hw, he, h₀, hm, htx, -⟩
  · intro r hr
    rw [Database.wallets_apply hw] at hr
    refine (h.accounts r hr).keep ?_ ?_ fun e _ => hopening _
    · simp [Database.entriesOfWallet_apply, he]
    · rw [Database.balanceEventsOf_append hdata, o.no_balanceEvents hw, List.append_nil]
  · have hevent : ∀ id, w.data.filter (·.isBalanceChangeOf id) =
        if id = w₀.id then [balanceChange e w₁.version] else [] := by
      intro id
      cases o with
      | parked wallets => simp [wallets] at hw
      | rejected wallets => simp [wallets] at hw
      | lost wallets => simp [wallets] at hw
      | moved wallets entries _ _ _ _ _ _ _ _ _ _ events =>
        obtain rfl : _ = w₁ := by simpa [wallets] using hw
        obtain rfl : _ = e := by simpa [entries] using he
        rw [events]
        by_cases hid : id = w₀.id
        · simp [EventData.isBalanceChangeOf, balanceChange, hm.walletId, hid]
        · simp [EventData.isBalanceChangeOf, balanceChange, hm.walletId, hid, Ne.symm hid]
    intro r hr
    rcases (Database.mem_wallets_apply hw).mp hr with rfl | ⟨hr, hne⟩
    · refine (h.accounts w₀ h₀).extend hm ?_ ?_ (fun e _ => hopening _) ?_
      · simp [Database.entriesOfWallet_apply, he, hm.walletId]
      · rw [Database.balanceEventsOf_append hdata, hevent, if_pos rfl]
      · rw [hopening, htx]
        exact hnew
    · have hne₀ : r.id ≠ w₀.id := fun heq => hne (heq.trans hm.id.symm)
      refine (h.accounts r hr).keep ?_ ?_ fun e _ => hopening _
      · simp [Database.entriesOfWallet_apply, he, hm.walletId, Ne.symm hne₀]
      · rw [Database.balanceEventsOf_append hdata, hevent, if_neg hne₀, List.append_nil]

/-! ## The conditions that relate rows -/

/-- No PROCESSED row undoes by the same kind what a new PROCESSED row undoes. -/
theorem Settles.first (s : Settles P own d tx t w) (o : Outcome P own d tx t w)
    (h : Consistent P d) {x : WagerTransaction} (hx : x ∈ d.wagerTransactions)
    (hprocessed : x.status = .processed) (ht : t.status = .processed)
    (hrequires : x.requiresReference = true) (hkind : x.kind = t.kind) :
    x.referenceTransactionId ≠ t.referenceTransactionId := by
  have hrequires' : tx.requiresReference = true := by
    simpa [WagerTransaction.requiresReference, ← s.kind, ← hkind] using hrequires
  cases o with
  | parked _ _ _ _ row => simp [row] at ht
  | rejected _ _ _ row => simp [row] at ht
  | lost _ _ _ _ _ kind =>
    simp [WagerTransaction.requiresReference, requiresReferenceFor, kind] at hrequires'
  | moved _ _ _ _ _ _ _ _ row _ referenced =>
    obtain ⟨b, rfl, hundoes, -⟩ := referenced hrequires'
    obtain ⟨b', hb'⟩ := (h.rows x hx).reversal hprocessed hrequires
    have href : t.referenceTransactionId = some b.id := by rw [row]; rfl
    rw [href]
    intro hsame
    -- both name the same reference, so both are in its wallet
    obtain rfl : b' = b := by
      refine h.transaction_inj hb'.row hundoes.row ?_
      simpa using hb'.referenceId.symm.trans hsame
    exact hundoes.first x hx hprocessed hb'.walletId.symm hkind hsame

theorem Settles.once (s : Settles P own d tx t w) (o : Outcome P own d tx t w)
    (h : Consistent P d) : ∀ x ∈ (d.apply w).wagerTransactions,
      ∀ y ∈ (d.apply w).wagerTransactions, x.status = .processed → y.status = .processed →
        x.requiresReference = true → x.kind = y.kind →
          x.referenceTransactionId = y.referenceTransactionId → x = y := by
  intro x hx y hy hpx hpy hrequires hkind href
  rcases (Database.mem_transactions_apply s.row).mp hx with rfl | ⟨hx, -⟩ <;>
    rcases (Database.mem_transactions_apply s.row).mp hy with rfl | ⟨hy, -⟩
  · rfl
  · have hrequires' : y.requiresReference = true := by
      simpa [WagerTransaction.requiresReference, ← hkind] using hrequires
    exact absurd href.symm (s.first o h hy hpy hpx hrequires' hkind.symm)
  · exact absurd href (s.first o h hx hpx hpy hrequires hkind)
  · exact h.once x hx y hy hpx hpy hrequires hkind href

theorem Settles.losses (s : Settles P own d tx t w) (o : Outcome P own d tx t w)
    (h : Consistent P d) : LossesOk P (d.apply w) := by
  refine h.losses.append s.eventData (s.keeps o h) ?_
  intro pre post data balance hsplit hkind
  -- only a LOSS adds an event of a LOSS, and its wallet keeps the balance
  cases o with
  | parked _ _ _ _ _ _ events =>
    rw [events] at hsplit
    cases pre with
    | nil => simp at hsplit
    | cons a as => simp at hsplit
  | rejected _ _ _ _ _ events =>
    rw [events] at hsplit
    cases pre with
    | nil => simp at hsplit
    | cons a as => simp at hsplit
  | @lost w₀ _ _ wallets _ _ wallet walletId _ _ describes events =>
    rw [events] at hsplit
    cases pre with
    | nil =>
      simp only [List.nil_append, List.cons.injEq, EventData.wagerTransactionProcessed.injEq]
        at hsplit
      obtain ⟨⟨rfl, rfl⟩, -⟩ := hsplit
      refine ⟨w₀, by rwa [Database.wallets_apply wallets], ?_, ?_⟩
      · rw [describes.walletId, walletId]
      · rw [List.append_nil, (h.accounts w₀ wallet).lastBalance]
    | cons a as => simp at hsplit
  | moved _ _ _ _ _ kind _ _ _ _ _ describes events =>
    rw [events] at hsplit
    cases pre with
    | nil =>
      simp only [List.nil_append, List.cons.injEq, EventData.wagerTransactionProcessed.injEq]
        at hsplit
      obtain ⟨⟨rfl, rfl⟩, -⟩ := hsplit
      exact absurd (s.kind.symm.trans (describes.kind.symm.trans hkind)) kind
    | cons a as =>
      cases as with
      | nil => simp [balanceChange] at hsplit
      | cons b bs => simp at hsplit

theorem Outcome.walletOwners (o : Outcome P own d tx t w) (h : Consistent P d) :
    ((d.apply w).wallets.map fun r => (r.playerId, r.currency)).Nodup := by
  rcases o.effect with ⟨hw, -⟩ | ⟨w₀, w₁, e, hw, -, h₀, hm, -, -⟩
  · rw [Database.wallets_apply hw]
    exact h.walletOwners
  · rw [Database.apply, hw]
    refine nodup_map_upsert h.walletIds h.walletOwners fun r hr hne heq => hne ?_
    rw [hm.playerId, hm.currency] at heq
    rw [hm.id, List.inj_on_of_nodup_map h.walletOwners hr h₀ heq]

theorem Keeps.row_of_id (k : Keeps d d') {id : Id} (h : ∃ t ∈ d.wagerTransactions, t.id = id) :
    ∃ t ∈ d'.wagerTransactions, t.id = id := by
  obtain ⟨t, ht, hid⟩ := h
  obtain ⟨t', ht', hprops⟩ := k.rows t ht
  exact ⟨t', ht', (congrArg CreateWagerTransactionProps.id hprops).trans hid⟩

theorem Settles.consistent (s : Settles P own d tx t w) (o : Outcome P own d tx t w)
    (h : Consistent P d) : Consistent P (d.apply w) := by
  have k := s.keeps o h
  have hself : t ∈ (d.apply w).wagerTransactions :=
    (Database.mem_transactions_apply s.row).mpr (Or.inl rfl)
  have hs := s.subject.settling h
  have hkey : t.idempotencyKey = tx.idempotencyKey := by
    have hprops := congrArg CreateWagerTransactionProps.idempotencyKey s.identity
    exact hprops
  have hexternal : (t.providerId, t.externalTransactionId) =
      (tx.providerId, tx.externalTransactionId) := by
    have hprops := congrArg
      (fun p : CreateWagerTransactionProps => (p.providerId, p.externalTransactionId)) s.identity
    exact hprops
  constructor
  · exact nodup_upsertAll h.walletIds
  · exact o.walletOwners h
  · exact nodup_upsertAll h.transactionIds
  · -- the row has the keys of the command, which nobody else has
    rw [Database.apply, s.row]
    refine nodup_map_upsert h.transactionIds h.idempotencyKeys fun x hx hne => ?_
    rw [hkey]
    exact hs.key x hx (s.id ▸ hne)
  · rw [Database.apply, s.row]
    refine nodup_map_upsert h.transactionIds h.externalIds fun x hx hne => ?_
    rw [hexternal]
    exact hs.external x hx (s.id ▸ hne)
  · exact nodup_upsertAll h.outboxIds
  · intro m hm
    rcases mem_or_mem_of_upsertAll hm with hm | hm
    · exact s.messages.envelopes m hm
    · exact h.envelopes m hm
  · intro x hx
    -- the row itself, or one that is neither changed nor told of
    rcases (Database.mem_transactions_apply s.row).mp hx with rfl | ⟨hx, hne⟩
    · exact s.rowOk o h
    · exact (h.rows x hx).keep k (o.entriesOf_other hne) (s.eventsOf_other o hne)
  · exact s.accounts o h
  · exact s.once o h
  · -- every entry and every event is of a row, the new ones of the row that is settled
    intro e he
    rcases List.mem_append.mp he with he | he
    · exact k.row_of_id (h.entries e he)
    · rcases o.effect with ⟨-, hnil⟩ | ⟨w₀, w₁, e', -, hone, -, -, htx, -⟩
      · simp [hnil] at he
      · obtain rfl : e = e' := by simpa [hone] using he
        exact ⟨t, hself, htx.symm⟩
  · intro e he
    rw [s.eventData] at he
    rcases List.mem_append.mp he with he | he
    · exact k.row_of_id (h.eventRows e he)
    · exact ⟨t, hself, (o.events_transactionId e he).symm⟩
  · exact s.losses o h
  · rw [Database.inbox_apply s.inbox]
    exact fun m hm => (h.inbox m hm).keep k

/-! ## Changes of other tables -/

/-- The conditions on a database read the outbox only through the data of its events. -/
theorem Consistent.congr (h : Consistent P d) (hwallets : d'.wallets = d.wallets)
    (hrows : d'.wagerTransactions = d.wagerTransactions)
    (hentries : d'.ledgerEntries = d.ledgerEntries) (hevents : d'.eventData = d.eventData)
    (hids : (d'.outboxMessages.map OutboxMessage.id).Nodup)
    (henvelopes : ∀ m ∈ d'.outboxMessages, EnvelopeOk m)
    (hinbox : ∀ m ∈ d'.inboxMessages, InboxOk P d m) : Consistent P d' := by
  have k : Keeps d d' := .of_eq hwallets hrows
  have hopening : ∀ id, d'.isOpening id = d.isOpening id := by simp [Database.isOpening, hrows]
  -- each condition reads columns that are the same
  constructor
  · exact hwallets ▸ h.walletIds
  · exact hwallets ▸ h.walletOwners
  · exact hrows ▸ h.transactionIds
  · exact hrows ▸ h.idempotencyKeys
  · exact hrows ▸ h.externalIds
  · exact hids
  · exact henvelopes
  · rw [hrows]
    exact fun t ht => (h.rows t ht).keep k (by simp [Database.entriesOf, hentries])
      (by simp [Database.eventsOf, hevents])
  · rw [hwallets]
    exact fun r hr => (h.accounts r hr).keep (by simp [Database.entriesOfWallet, hentries])
      (by simp [Database.balanceEventsOf, hevents]) fun e _ => hopening _
  · exact hrows ▸ h.once
  · rw [hentries, hrows]
    exact h.entries
  · rw [hevents, hrows]
    exact h.eventRows
  · refine h.losses.append (by rw [hevents, List.append_nil]) k ?_
    intro pre post data balance hsplit
    simp at hsplit
  · exact fun m hm => (hinbox m hm).keep k

/-- Marking or rescheduling messages changes no event. -/
theorem eventData_published {ms : List OutboxMessage}
    (hnodup : (d.outboxMessages.map OutboxMessage.id).Nodup)
    (hsaved : ∀ m' ∈ ms, ∃ m ∈ d.outboxMessages, m.SameEnvelope m') :
    (d.apply { outboxMessages := ms }).eventData = d.eventData := by
  refine map_upsertAll_of_same ?_ ?_
  · intro m' hm'
    obtain ⟨m, hm, henv⟩ := hsaved m' hm'
    exact ⟨m, hm, henv.1.symm⟩
  · intro m' hm' r hr hid
    obtain ⟨m, hm, henv⟩ := hsaved m' hm'
    obtain rfl : r = m := List.inj_on_of_nodup_map hnodup hr hm (hid.trans henv.1)
    rw [henv.2.2.2.1]

theorem EnvelopeOk.same {m m' : OutboxMessage} (h : EnvelopeOk m) (hsame : m.SameEnvelope m') :
    EnvelopeOk m' := by
  obtain ⟨hid, haggregate, htype, hpayload, hoccurred⟩ := hsame
  refine ⟨?_, ?_, ?_, ?_, ?_⟩
  · rw [hid, hpayload, h.id]
  · rw [haggregate, hpayload, h.aggregateId]
  · rw [htype, hpayload, h.eventType]
  · rw [hoccurred, hpayload, h.occurredAt]
  · rw [hpayload, haggregate]
    exact h.wallet

theorem Consistent.published (h : Consistent P d) {ms : List OutboxMessage}
    (hsaved : ∀ m' ∈ ms, ∃ m ∈ d.outboxMessages, m.SameEnvelope m') :
    Consistent P (d.apply { outboxMessages := ms }) := by
  refine h.congr rfl rfl (List.append_nil _) (eventData_published h.outboxIds hsaved)
    (nodup_upsertAll h.outboxIds) (fun m hm => ?_) h.inbox
  rcases mem_or_mem_of_upsertAll hm with hm | hm
  · obtain ⟨m₀, hm₀, hsame⟩ := hsaved m hm
    exact (h.envelopes m₀ hm₀).same hsame
  · exact h.envelopes m hm

theorem Consistent.received (h : Consistent P d) {row : InboxMessage} (hok : InboxOk P d row) :
    Consistent P (d.apply { inboxMessages := [row] }) := by
  refine h.congr rfl rfl (List.append_nil _) rfl h.outboxIds h.envelopes ?_
  intro m hm
  rcases mem_upsert.mp hm with rfl | ⟨hm, -⟩
  · exact hok
  · exact h.inbox m hm

/-! ## Opening a wallet -/

theorem Consistent.entry_row (h : Consistent P d) {e : WalletLedgerEntry}
    (he : e ∈ d.ledgerEntries) :
    ∃ t ∈ d.wagerTransactions, Moves t ∧ d.entriesOf t.id = [e] ∧ EntryFor t e := by
  obtain ⟨t, ht, hid⟩ := h.entries e he
  have hmem : e ∈ d.entriesOf t.id := List.mem_filter.mpr ⟨he, by simp [hid]⟩
  by_cases hm : Moves t
  · obtain ⟨e', hone, hfor⟩ := (h.rows t ht).moved hm
    obtain rfl : e = e' := by simpa [hone] using hmem
    exact ⟨t, ht, hm, hone, hfor⟩
  · rw [(h.rows t ht).unmoved hm] at hmem
    simp at hmem

theorem Consistent.entry_wallet (h : Consistent P d) {e : WalletLedgerEntry}
    (he : e ∈ d.ledgerEntries) : ∃ r ∈ d.wallets, r.id = e.walletId := by
  obtain ⟨t, ht, -, -, hfor⟩ := h.entry_row he
  obtain ⟨r, hr, hid, -⟩ := (h.rows t ht).identity.owner
  exact ⟨r, hr, hid.trans hfor.walletId.symm⟩

/-- A balance event is about a ledger entry. -/
theorem Consistent.balanceEvent_entry (h : Consistent P d) {event : EventData} {id : Id}
    (he : event ∈ d.eventData) (hevent : event.isBalanceChangeOf id = true) :
    ∃ e ∈ d.ledgerEntries, e.walletId = id := by
  obtain ⟨t, ht, hid⟩ := h.eventRows event he
  have hmem : event ∈ d.eventsOf t.id := List.mem_filter.mpr ⟨he, by simp [hid]⟩
  obtain ⟨parked, final, hevents, -, hparked, hfinal⟩ := (h.rows t ht).history
  rw [hevents] at hmem
  rcases List.mem_append.mp hmem with hmem | hmem
  · obtain ⟨data, -, rfl⟩ := hparked event hmem
    simp [EventData.isBalanceChangeOf] at hevent
  · -- of the histories only that of a movement has a balance event
    cases hfinal with
    | waiting _ => simp at hmem
    | rejected _ _ =>
      obtain rfl : event = _ := by simpa using hmem
      simp [EventData.isBalanceChangeOf] at hevent
    | lost _ _ _ =>
      obtain rfl : event = _ := by simpa using hmem
      simp [EventData.isBalanceChangeOf] at hevent
    | @moved _ e _ _ _ _ entry =>
      rcases List.mem_pair.mp hmem with rfl | rfl
      · simp [EventData.isBalanceChangeOf] at hevent
      · refine ⟨e, ?_, by simpa [EventData.isBalanceChangeOf, balanceChange] using hevent⟩
        have he' : e ∈ d.entriesOf t.id := by simp [entry]
        exact (List.mem_filter.mp he').1

section

variable {row : WalletRow} {own : Resource → Prop}

theorem NewWallet.noEntries (n : NewWallet P own d row) (h : Consistent P d) :
    d.entriesOfWallet row.id = [] := by
  rw [Database.entriesOfWallet, List.filter_eq_nil_iff]
  intro e he
  obtain ⟨r, hr, hid⟩ := h.entry_wallet he
  simpa [← hid] using n.newId r hr

theorem NewWallet.noEvents (n : NewWallet P own d row) (h : Consistent P d) :
    d.balanceEventsOf row.id = [] := by
  rw [Database.balanceEventsOf, List.filter_eq_nil_iff]
  intro event he hevent
  obtain ⟨e, hmem, hid⟩ := h.balanceEvent_entry he hevent
  obtain ⟨r, hr, hrid⟩ := h.entry_wallet hmem
  exact n.newId r hr (hrid.trans hid)

theorem NewWallet.mem (n : NewWallet P own d row) (hw : w.wallets = [row]) {x : WalletRow} :
    x ∈ (d.apply w).wallets ↔ x = row ∨ x ∈ d.wallets := by
  rw [Database.mem_wallets_apply hw]
  constructor
  · rintro (rfl | ⟨hx, -⟩)
    · exact Or.inl rfl
    · exact Or.inr hx
  · rintro (rfl | hx)
    · exact Or.inl rfl
    · exact Or.inr ⟨hx, n.newId x hx⟩

theorem NewWallet.walletOwners (n : NewWallet P own d row) (h : Consistent P d)
    (hw : w.wallets = [row]) :
    ((d.apply w).wallets.map fun r => (r.playerId, r.currency)).Nodup := by
  rw [Database.apply, hw]
  exact nodup_map_upsert h.walletIds h.walletOwners fun r hr _ => n.newPlayer r hr

theorem Consistent.opened (h : Consistent P d) (n : NewWallet P own d row)
    (hempty : row.balanceAmount = 0) : Consistent P (d.apply { wallets := [row] }) := by
  have hentries : (d.apply { wallets := [row] }).ledgerEntries = d.ledgerEntries :=
    List.append_nil _
  have k : Keeps d (d.apply { wallets := [row] }) :=
    ⟨fun r hr => ⟨r, (n.mem rfl).mpr (Or.inr hr), rfl, rfl, rfl⟩, fun t ht => ⟨t, ht, rfl⟩,
      fun _ ht _ => ht⟩
  constructor
  · exact nodup_upsertAll h.walletIds
  · exact n.walletOwners h rfl
  · exact h.transactionIds
  · exact h.idempotencyKeys
  · exact h.externalIds
  · exact h.outboxIds
  · exact h.envelopes
  · exact fun t ht => (h.rows t ht).keep k (by simp [Database.entriesOf, hentries]) rfl
  · intro r hr
    -- the account is new and empty, and the others stay
    rcases (n.mem rfl).mp hr with rfl | hr
    · have hnil : (d.apply { wallets := [r] }).entriesOfWallet r.id = [] := by
        rw [Database.entriesOfWallet, hentries]
        exact n.noEntries h
      refine ⟨n.id, n.player, by rw [hempty], ?_, ?_, ?_, ?_, ?_⟩ <;> rw [hnil]
      · rw [hempty]
        rfl
      · simp
      · exact n.version
      · exact Nat.zero_le _
      · exact n.noEvents h
    · exact (h.accounts r hr).keep (by simp [Database.entriesOfWallet, hentries]) rfl
        fun e _ => rfl
  · exact h.once
  · rw [hentries]
    exact h.entries
  · exact h.eventRows
  · exact h.losses.append (List.append_nil _).symm k fun _ _ _ _ hsplit => by simp at hsplit
  · exact fun m hm => (h.inbox m hm).keep k

/-! ### With an initial balance -/

variable {t : WagerTransaction} {e : WalletLedgerEntry} {data : WagerTransactionData}

theorem OpeningRow.mem (o : OpeningRow own d row t e) (hrows : w.wagerTransactions = [t])
    {x : WagerTransaction} :
    x ∈ (d.apply w).wagerTransactions ↔ x = t ∨ x ∈ d.wagerTransactions := by
  rw [Database.mem_transactions_apply hrows]
  constructor
  · rintro (rfl | ⟨hx, -⟩)
    · exact Or.inl rfl
    · exact Or.inr hx
  · rintro (rfl | hx)
    · exact Or.inl rfl
    · exact Or.inr ⟨hx, o.newId x hx⟩

theorem OpeningRow.moves (o : OpeningRow own d row t e) : Moves t :=
  ⟨o.processed.status, by simp [o.kind]⟩

namespace OpensWith

theorem keeps (o : OpensWith P own d row t e data w) : Keeps d (d.apply w) :=
  ⟨fun r hr => ⟨r, (o.wallet.mem o.wallets).mpr (Or.inr hr), rfl, rfl, rfl⟩,
    fun x hx => ⟨x, (o.opening.mem o.rows).mpr (Or.inr hx), rfl⟩,
    fun _ hx _ => (o.opening.mem o.rows).mpr (Or.inr hx)⟩

theorem eventData (o : OpensWith P own d row t e data w) :
    (d.apply w).eventData = d.eventData ++ w.data :=
  Database.eventData_apply o.messages.fresh o.messages.nodup

theorem transactionId (o : OpensWith P own d row t e data w) :
    ∀ event ∈ w.data, event.transactionId = t.id := by
  intro event he
  rw [o.events] at he
  rcases List.mem_pair.mp he with rfl | rfl
  · exact o.describes.transactionId
  · exact o.opening.entry.transactionId

theorem walletId (o : OpensWith P own d row t e data w) : e.walletId = row.id :=
  o.opening.entry.walletId.trans o.opening.walletId

theorem entriesOf (o : OpensWith P own d row t e data w) (h : Consistent P d) :
    (d.apply w).entriesOf t.id = [e] := by
  have hnone : d.entriesOf t.id = [] := by
    rw [Database.entriesOf, List.filter_eq_nil_iff]
    intro e' he'
    obtain ⟨x, hx, hid⟩ := h.entries e' he'
    simpa [← hid] using o.opening.newId x hx
  rw [Database.entriesOf_apply, hnone, o.entries]
  simp [o.opening.entry.transactionId]

theorem eventsOf (o : OpensWith P own d row t e data w) (h : Consistent P d) :
    (d.apply w).eventsOf t.id = w.data := by
  have hnone : d.eventsOf t.id = [] := by
    rw [Database.eventsOf, List.filter_eq_nil_iff]
    intro event hevent
    obtain ⟨x, hx, hid⟩ := h.eventRows event hevent
    simpa [← hid] using o.opening.newId x hx
  rw [Database.eventsOf_append o.eventData, hnone, List.nil_append, List.filter_eq_self]
  intro event hevent
  simpa using o.transactionId event hevent

theorem rowOk (o : OpensWith P own d row t e data w) (h : Consistent P d) :
    RowOk P (d.apply w) t := by
  have ho := o.opening
  have hrequires : t.requiresReference = false := by
    simp [WagerTransaction.requiresReference, requiresReferenceFor, ho.kind]
  have hmoney : 0 ≤ t.money.minorUnits := by
    rw [← ho.entry.money]
    exact ho.balanced.positive.le
  -- the columns that the opening writes name its own wallet
  have hidentity : Identity P (d.apply w) t.toCreateWagerTransactionProps := by
    refine ⟨?_, ?_, hmoney, ?_, ?_, fun _ => ho.hash, fun hk => absurd ho.kind hk⟩
    · rw [ho.walletId]
      exact o.wallet.id
    · rw [ho.playerId]
      exact o.wallet.player
    · exact ⟨row, (o.wallet.mem o.wallets).mpr (Or.inl rfl), ho.walletId.symm, ho.playerId.symm⟩
    · intro hr
      exact absurd (hrequires.symm.trans hr) (by decide)
  refine ⟨hidentity, Or.inr (Or.inl ho.processed), by rw [ho.attempts]; decide, ?_, ?_, ?_, ?_⟩
  · exact fun _ => ⟨e, o.entriesOf h, ho.entry⟩
  · exact fun hm => absurd ho.moves hm
  · exact fun _ hr => absurd (hrequires.symm.trans hr) (by decide)
  · refine ⟨[], w.data, o.eventsOf h, by rw [ho.attempts]; rfl, by simp, ?_⟩
    rw [o.events]
    exact .moved ho.processed.status ho.moves.2 o.describes (o.entriesOf h)

theorem isOpening_old (o : OpensWith P own d row t e data w) {id : Id} (hid : id ≠ t.id) :
    (d.apply w).isOpening id = d.isOpening id := by
  rw [Bool.eq_iff_iff, Database.isOpening_iff, Database.isOpening_iff]
  constructor
  · rintro ⟨x, hx, hx', hk⟩
    rcases (o.opening.mem o.rows).mp hx with rfl | hx
    · exact absurd hx'.symm hid
    · exact ⟨x, hx, hx', hk⟩
  · rintro ⟨x, hx, hx', hk⟩
    exact ⟨x, (o.opening.mem o.rows).mpr (Or.inr hx), hx', hk⟩

theorem account (o : OpensWith P own d row t e data w) (h : Consistent P d) :
    AccountOk P (d.apply w) row := by
  have ho := o.opening
  have hentries : (d.apply w).entriesOfWallet row.id = [e] := by
    rw [Database.entriesOfWallet_apply, o.wallet.noEntries h, o.entries]
    simp [o.walletId]
  -- the one entry is the opening, so it adds nothing to the version
  have hopening : (d.apply w).isOpening e.transactionId = true :=
    Database.isOpening_iff.mpr
      ⟨t, (ho.mem o.rows).mpr (Or.inl rfl), ho.entry.transactionId.symm, ho.kind⟩
  have hafter : e.balanceAfter.minorUnits = row.balanceAmount := by rw [ho.after]
  refine ⟨o.wallet.id, o.wallet.player, ?_, ?_, ?_, ?_, ?_, ?_⟩
  · rw [← hafter]
    exact ho.balanced.afterNonneg
  · rw [hentries]
    exact ⟨ho.before, ho.after⟩
  · rw [hentries]
    intro e' he'
    obtain rfl : e' = e := by simpa using he'
    exact ho.balanced
  · simp [hentries, hopening, o.wallet.version]
  · simp [hentries, o.wallet.version]
  · rw [Database.balanceEventsOf_append o.eventData, o.wallet.noEvents h, o.events, hentries]
    simp [EventData.isBalanceChangeOf, balanceChange, o.walletId, lastVersions, o.wallet.version]

theorem accounts (o : OpensWith P own d row t e data w) (h : Consistent P d) :
    ∀ r ∈ (d.apply w).wallets, AccountOk P (d.apply w) r := by
  intro r hr
  rcases (o.wallet.mem o.wallets).mp hr with rfl | hr
  · exact o.account h
  · have hne : row.id ≠ r.id := fun heq => o.wallet.newId r hr heq.symm
    refine (h.accounts r hr).keep ?_ ?_ ?_
    · simp [Database.entriesOfWallet_apply, o.entries, o.walletId, hne]
    · rw [Database.balanceEventsOf_append o.eventData, o.events]
      simp [EventData.isBalanceChangeOf, balanceChange, o.walletId, hne]
    · intro e' he'
      obtain ⟨x, hx, hid⟩ := h.entries e' (List.mem_filter.mp he').1
      exact o.isOpening_old (hid ▸ o.opening.newId x hx)

theorem losses (o : OpensWith P own d row t e data w) (h : Consistent P d) :
    LossesOk P (d.apply w) := by
  refine h.losses.append o.eventData o.keeps ?_
  intro pre post data' balance hsplit hkind
  rw [o.events] at hsplit
  -- an opening has no event of a LOSS
  cases pre with
  | nil =>
    simp only [List.nil_append, List.cons.injEq, EventData.wagerTransactionProcessed.injEq]
      at hsplit
    obtain ⟨⟨rfl, rfl⟩, -⟩ := hsplit
    rw [o.describes.kind, o.opening.kind] at hkind
    exact absurd hkind (by decide)
  | cons a as =>
    cases as with
    | nil => simp [balanceChange] at hsplit
    | cons b bs => simp at hsplit

theorem consistent (o : OpensWith P own d row t e data w) (h : Consistent P d) :
    Consistent P (d.apply w) := by
  have ho := o.opening
  have hself : t ∈ (d.apply w).wagerTransactions := (ho.mem o.rows).mpr (Or.inl rfl)
  have hrequires : t.requiresReference = false := by
    simp [WagerTransaction.requiresReference, requiresReferenceFor, ho.kind]
  constructor
  · exact nodup_upsertAll h.walletIds
  · exact o.wallet.walletOwners h o.wallets
  · exact nodup_upsertAll h.transactionIds
  · rw [Database.apply, o.rows]
    exact nodup_map_upsert h.transactionIds h.idempotencyKeys fun x hx _ => ho.newKey x hx
  · rw [Database.apply, o.rows]
    exact nodup_map_upsert h.transactionIds h.externalIds fun _ hx _ => ho.newExternal _ hx
  · exact nodup_upsertAll h.outboxIds
  · intro m hm
    rcases mem_or_mem_of_upsertAll hm with hm | hm
    · exact o.messages.envelopes m hm
    · exact h.envelopes m hm
  · intro x hx
    -- the opening, or a row that it does not touch
    rcases (ho.mem o.rows).mp hx with rfl | hx
    · exact o.rowOk h
    · refine (h.rows x hx).keep o.keeps ?_ ?_
      · simp [Database.entriesOf_apply, o.entries, ho.entry.transactionId, Ne.symm (ho.newId x hx)]
      · rw [Database.eventsOf_append o.eventData, List.filter_eq_nil_iff.mpr, List.append_nil]
        intro event he
        simpa [o.transactionId event he] using Ne.symm (ho.newId x hx)
  · exact o.accounts h
  · -- an opening undoes nothing
    intro x hx y hy hpx hpy hreq hkind href
    rcases (ho.mem o.rows).mp hx with rfl | hx
    · exact absurd (hrequires.symm.trans hreq) (by decide)
    · rcases (ho.mem o.rows).mp hy with rfl | hy
      · have hreq' : y.requiresReference = true := by
          simpa [WagerTransaction.requiresReference, ← hkind] using hreq
        exact absurd (hrequires.symm.trans hreq') (by decide)
      · exact h.once x hx y hy hpx hpy hreq hkind href
  · intro e' he'
    rcases List.mem_append.mp he' with he' | he'
    · exact o.keeps.row_of_id (h.entries e' he')
    · obtain rfl : e' = e := by simpa [o.entries] using he'
      exact ⟨t, hself, ho.entry.transactionId.symm⟩
  · intro event he
    rw [o.eventData] at he
    rcases List.mem_append.mp he with he | he
    · exact o.keeps.row_of_id (h.eventRows event he)
    · exact ⟨t, hself, (o.transactionId event he).symm⟩
  · exact o.losses h
  · rw [Database.inbox_apply o.inbox]
    exact fun m hm => (h.inbox m hm).keep o.keeps

end OpensWith

end

/-! ## One change and a sequence of changes -/

theorem Permitted.consistent (hw : Permitted P own d w) (h : Consistent P d) :
    Consistent P (d.apply w) := by
  -- one case for each kind of write that a call may commit
  cases hw with
  | settled settled =>
    obtain ⟨settles, outcome⟩ := settled
    exact settles.consistent outcome h
  | opened writes wallet empty =>
    subst writes
    exact h.opened wallet empty
  | openedWith opens => exact opens.consistent h
  | received writes _ _ ok =>
    subst writes
    exact h.received ok
  | published writes _ saved =>
    subst writes
    refine h.published fun m' hm' => ?_
    obtain ⟨m, hm, -, -, henv⟩ := saved m' hm'
    exact ⟨m, hm, henv⟩

theorem PermittedSeq.consistent {ws : List Writes} (hws : PermittedSeq P own d ws)
    (h : Consistent P d) : Consistent P (d.applyAll ws) := by
  induction hws with
  | nil => exact h
  | cons head _ ih => exact ih (head.consistent h)

end WageringProcessor
