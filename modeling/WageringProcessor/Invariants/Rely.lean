import WageringProcessor.Invariants.Frame

/-!
# The changes of one call as the others see them

A permitted change is a frame for whoever holds other resources (`Permitted.frame`).  In return a
change that is permitted stays permitted under a frame (`Settled.stable`, `SettledSeq.stable`), so
what a call has prepared is still right when it commits.
-/

namespace WageringProcessor

open Library.Table

variable {P : Platform} {own own' : Resource → Prop} {d d' : Database} {w : Writes}
  {tx t : WagerTransaction}

/-! ## A permitted change is a frame for the others -/

theorem outbox_apply (m : NewMessages own' d w.outboxMessages) :
    (d.apply w).outboxMessages = d.outboxMessages ++ w.outboxMessages :=
  upsertAll_of_fresh m.nodup m.fresh

/-- The conditions of a frame on the outbox, for a change that only adds messages. -/
theorem outbox_frame (m : NewMessages own' d w.outboxMessages) (hdisj : ∀ k, own k → ¬own' k) :
    (∀ m ∈ d.outboxMessages, m ∈ (d.apply w).outboxMessages) ∧
      ∀ m ∈ (d.apply w).outboxMessages, own (.uuid m.id) → m ∈ d.outboxMessages := by
  rw [outbox_apply m]
  refine ⟨fun x hx => List.mem_append_left _ hx, fun x hx hown => ?_⟩
  rcases List.mem_append.mp hx with hx | hx
  · exact hx
  · exact absurd (m.owns x hx) (hdisj _ hown)

/-- Whoever holds the id, the key or the external id of a settled row does not claim it, so the row
was there before, and locked. -/
theorem Settles.locked (s : Settles P own' d tx t w) (hdisj : ∀ k, own k → ¬own' k) {k : Resource}
    (hk : own k) (hnames : k = .uuid t.id ∨ k = .idempotencyKey t.idempotencyKey ∨
      k = .external t.providerId t.externalTransactionId) : LockedRow own' d tx := by
  rcases s.subject with hc | hl
  · have hid : t.id = tx.id := s.id
    have hkey : t.idempotencyKey = tx.idempotencyKey := by rw [s.identity]; rfl
    have hprovider : t.providerId = tx.providerId := by rw [s.identity]; rfl
    have hexternal : t.externalTransactionId = tx.externalTransactionId := by rw [s.identity]; rfl
    rcases hnames with rfl | rfl | rfl
    · exact absurd (hid ▸ hc.ownsId) (hdisj _ hk)
    · exact absurd (hkey ▸ hc.ownsKey) (hdisj _ hk)
    · exact absurd (hprovider ▸ hexternal ▸ hc.ownsExternal) (hdisj _ hk)
  · exact hl

theorem Settles.stored (s : Settles P own' d tx t w) (h : Consistent P d)
    (hl : LockedRow own' d tx) :
    t.toCreateWagerTransactionProps = tx.toCreateWagerTransactionProps :=
  s.identity.trans (by rw [(h.rows tx hl.row).stored])

/-- The settled row keeps what an earlier row was found under. -/
theorem Settles.found (s : Settles P own' d tx t w) (h : Consistent P d)
    (hdisj : ∀ k, own k → ¬own' k) {x : WagerTransaction}
    (hx : x ∈ (d.apply w).wagerTransactions) {k : Resource} (hk : own k)
    (hnames : k = .uuid x.id ∨ k = .idempotencyKey x.idempotencyKey ∨
      k = .external x.providerId x.externalTransactionId) :
    ∃ x₀ ∈ d.wagerTransactions,
      x.toCreateWagerTransactionProps = x₀.toCreateWagerTransactionProps := by
  rcases (Database.mem_transactions_apply s.row).mp hx with rfl | ⟨hx, -⟩
  · have hl := s.locked hdisj hk hnames
    exact ⟨tx, hl.row, s.stored h hl⟩
  · exact ⟨x, hx, rfl⟩

theorem Settles.ownRow (s : Settles P own' d tx t w) (hdisj : ∀ k, own k → ¬own' k)
    {x : WagerTransaction} (hx : x ∈ d.wagerTransactions) (hown : own (.transaction x.id)) :
    x ∈ (d.apply w).wagerTransactions := by
  refine (Database.mem_transactions_apply s.row).mpr (Or.inr ⟨hx, fun heq => ?_⟩)
  rcases s.subject with hc | hl
  · exact hc.newId x hx (heq.trans s.id)
  · exact absurd hl.owns (hdisj _ ((heq.trans s.id) ▸ hown))

theorem Outcome.ownWallet (o : Outcome P own' d tx t w) (hdisj : ∀ k, own k → ¬own' k)
    {r : WalletRow} (hr : r ∈ d.wallets) (hown : own (.wallet r.id)) :
    r ∈ (d.apply w).wallets := by
  rcases o.effect with ⟨hnil, -⟩ | ⟨w₀, w₁, e, hone, -, -, hm, -, howns⟩
  · rwa [Database.wallets_apply hnil]
  · refine (Database.mem_wallets_apply hone).mpr (Or.inr ⟨hr, fun heq => ?_⟩)
    exact absurd howns (hdisj _ ((heq.trans hm.id) ▸ hown))

theorem Outcome.wallet_before (o : Outcome P own' d tx t w) {r : WalletRow}
    (hr : r ∈ (d.apply w).wallets) : ∃ r₀ ∈ d.wallets,
      r₀.id = r.id ∧ (r₀.playerId, r₀.currency) = (r.playerId, r.currency) := by
  rcases o.effect with ⟨hnil, -⟩ | ⟨w₀, w₁, e, hone, -, hw₀, hm, -, -⟩
  · exact ⟨r, by rwa [Database.wallets_apply hnil] at hr, rfl, rfl⟩
  · rcases (Database.mem_wallets_apply hone).mp hr with rfl | ⟨hr, -⟩
    · exact ⟨w₀, hw₀, hm.id.symm, by rw [hm.playerId, hm.currency]⟩
    · exact ⟨r, hr, rfl, rfl⟩

/-- Who holds a wallet sees nothing settled in it by another. -/
theorem Outcome.not_processed (o : Outcome P own' d tx t w) (hdisj : ∀ k, own k → ¬own' k)
    {r : WalletRow} (hown : own (.wallet r.id)) (hid : t.walletId = r.id) :
    t.status ≠ .processed := by
  intro hp
  cases o with
  | parked _ _ _ _ row => simp [row] at hp
  | rejected _ _ _ row => simp [row] at hp
  | lost _ _ owns _ walletId | moved _ _ owns _ walletId =>
    exact absurd owns (hdisj _ ((hid.symm.trans walletId.symm) ▸ hown))

theorem Settled.frame (hw : Settled P own' d w) (h : Consistent P d)
    (hdisj : ∀ k, own k → ¬own' k) : Frame own d (d.apply w) := by
  obtain ⟨s, o⟩ := hw
  obtain ⟨hkeep, hown⟩ := outbox_frame s.messages hdisj
  exact {
    toKeeps := s.keeps o h
    ownWallet := fun r hr => o.ownWallet hdisj hr
    ownRow := fun x hx => s.ownRow hdisj hx
    ownMessage := fun m hm _ => hkeep m hm
    walletId := fun r hr _ => by
      obtain ⟨r₀, hr₀, hid, -⟩ := o.wallet_before hr
      exact ⟨r₀, hr₀, hid⟩
    player := fun r hr _ => by
      obtain ⟨r₀, hr₀, -, hplayer⟩ := o.wallet_before hr
      exact ⟨r₀, hr₀, hplayer⟩
    rowId := fun x hx hk => by
      obtain ⟨x₀, hx₀, hprops⟩ := s.found h hdisj hx hk (Or.inl rfl)
      exact ⟨x₀, hx₀, by rw [hprops]⟩
    key := fun x hx hk => by
      obtain ⟨x₀, hx₀, hprops⟩ := s.found h hdisj hx hk (Or.inr (Or.inl rfl))
      exact ⟨x₀, hx₀, by rw [hprops]⟩
    external := fun x hx hk => by
      obtain ⟨x₀, hx₀, hprops⟩ := s.found h hdisj hx hk (Or.inr (Or.inr rfl))
      exact ⟨x₀, hx₀, by rw [hprops]⟩
    messageId := fun m hm hk => ⟨m, hown m hm hk, rfl⟩
    inboxKey := fun m hm _ => by rwa [Database.inbox_apply s.inbox] at hm
    processed := fun r _ hk x hx hp hid => by
      rcases (Database.mem_transactions_apply s.row).mp hx with rfl | ⟨hx, -⟩
      · exact absurd hp (o.not_processed hdisj hk hid)
      · exact hx
    entry := fun r _ hk e he hid => by
      rcases List.mem_append.mp he with he | he
      · exact he
      · exact absurd (o.ownsEntry he) (hdisj _ (hid ▸ hk))
    inbox := fun m hm => by rwa [Database.inbox_apply s.inbox]
    envelope := fun m hm => ⟨m, hkeep m hm, .refl m, fun _ => rfl⟩ }

theorem NewWallet.frame {row : WalletRow} (n : NewWallet P own' d row)
    (hdisj : ∀ k, own k → ¬own' k) (hw : w.wallets = [row]) :
    (∀ r ∈ d.wallets, r ∈ (d.apply w).wallets) ∧
      (∀ r ∈ (d.apply w).wallets, own (.uuid r.id) → r ∈ d.wallets) ∧
      ∀ r ∈ (d.apply w).wallets, own (.playerCurrency r.playerId r.currency) → r ∈ d.wallets := by
  refine ⟨fun r hr => (n.mem hw).mpr (Or.inr hr), ?_, ?_⟩
  · intro r hr hown
    rcases (n.mem hw).mp hr with rfl | hr
    · exact absurd n.ownsId (hdisj _ hown)
    · exact hr
  · intro r hr hown
    rcases (n.mem hw).mp hr with rfl | hr
    · exact absurd n.ownsPlayer (hdisj _ hown)
    · exact hr

theorem OpensWith.frame {row : WalletRow} {e : WalletLedgerEntry} {data : WagerTransactionData}
    (o : OpensWith P own' d row t e data w) (hdisj : ∀ k, own k → ¬own' k) :
    Frame own d (d.apply w) := by
  obtain ⟨hwallet, hid, hplayer⟩ := o.wallet.frame hdisj o.wallets
  obtain ⟨hmessage, hown⟩ := outbox_frame o.messages hdisj
  have hrow : ∀ x, x ∈ (d.apply w).wagerTransactions ↔ x = t ∨ x ∈ d.wagerTransactions :=
    fun x => o.opening.mem o.rows
  exact {
    toKeeps := o.keeps
    ownWallet := fun r hr _ => hwallet r hr
    ownRow := fun x hx _ => (hrow x).mpr (Or.inr hx)
    ownMessage := fun m hm _ => hmessage m hm
    walletId := fun r hr hk => ⟨r, hid r hr hk, rfl⟩
    player := fun r hr hk => ⟨r, hplayer r hr hk, rfl⟩
    rowId := fun x hx hk => by
      rcases (hrow x).mp hx with rfl | hx
      · exact absurd o.opening.ownsId (hdisj _ hk)
      · exact ⟨x, hx, rfl⟩
    key := fun x hx hk => by
      rcases (hrow x).mp hx with rfl | hx
      · exact absurd o.opening.ownsKey (hdisj _ hk)
      · exact ⟨x, hx, rfl⟩
    external := fun x hx hk => by
      rcases (hrow x).mp hx with rfl | hx
      · exact absurd o.opening.ownsExternal (hdisj _ hk)
      · exact ⟨x, hx, rfl⟩
    messageId := fun m hm hk => ⟨m, hown m hm hk, rfl⟩
    inboxKey := fun m hm _ => by rwa [Database.inbox_apply o.inbox] at hm
    processed := fun r hr _ x hx _ hxr => by
      rcases (hrow x).mp hx with rfl | hx
      · exact absurd (hxr.symm.trans o.opening.walletId) (o.wallet.newId r hr)
      · exact hx
    entry := fun r hr _ e he hid => by
      rcases List.mem_append.mp he with he | he
      · exact he
      · rw [o.entries] at he
        rw [List.mem_singleton.mp he, o.walletId] at hid
        exact absurd hid.symm (o.wallet.newId r hr)
    inbox := fun m hm => by rwa [Database.inbox_apply o.inbox]
    envelope := fun m hm => ⟨m, hmessage m hm, .refl m, fun _ => rfl⟩ }

theorem received_frame {row : InboxMessage} (howns : own' (.inbox row.messageId))
    (hfresh : ∀ m ∈ d.inboxMessages, m.key ≠ row.key) (hdisj : ∀ k, own k → ¬own' k) :
    Frame own d (d.apply { inboxMessages := [row] }) := by
  have hmem : ∀ m, m ∈ (d.apply { inboxMessages := [row] }).inboxMessages ↔
      m = row ∨ (m ∈ d.inboxMessages ∧ m.key ≠ row.key) := fun m => mem_upsert
  exact { Frame.refl own d with
    inboxKey := fun m hm hown => by
      rcases (hmem m).mp hm with rfl | ⟨hm, -⟩
      · exact absurd howns (hdisj _ hown)
      · exact hm
    entry := fun _ _ _ e he _ => (List.append_nil d.ledgerEntries) ▸ he
    inbox := fun m hm => (hmem m).mpr (Or.inr ⟨hm, hfresh m hm⟩) }

/-- A message that is saved was locked by the publisher, and pending. -/
theorem published_frame {ms : List OutboxMessage} (h : Consistent P d)
    (hnodup : (ms.map OutboxMessage.id).Nodup)
    (hsaved : ∀ m' ∈ ms, ∃ m ∈ d.outboxMessages,
      own' (.outbox m.id) ∧ m.publishedAt = none ∧ m.SameEnvelope m')
    (hdisj : ∀ k, own k → ¬own' k) : Frame own d (d.apply { outboxMessages := ms }) := by
  have hmem : ∀ m, m ∈ (d.apply { outboxMessages := ms }).outboxMessages ↔
      m ∈ ms ∨ (m ∈ d.outboxMessages ∧ ∀ n ∈ ms, m.id ≠ n.id) := fun m => mem_upsertAll hnodup
  have hlocked : ∀ m ∈ d.outboxMessages, ∀ n ∈ ms, m.id = n.id →
      own' (.outbox m.id) ∧ m.publishedAt = none ∧ m.SameEnvelope n := by
    intro m hm n hn hid
    obtain ⟨m₀, hm₀, howns, hpending, henv⟩ := hsaved n hn
    obtain rfl : m = m₀ := List.inj_on_of_nodup_map h.outboxIds hm hm₀ (hid.trans henv.1)
    exact ⟨howns, hpending, henv⟩
  exact { Frame.refl own d with
    ownMessage := fun m hm hown => (hmem m).mpr (Or.inr ⟨hm, fun n hn hid =>
      absurd (hlocked m hm n hn hid).1 (hdisj _ hown)⟩)
    messageId := fun m hm _ => by
      rcases (hmem m).mp hm with hm | ⟨hm, -⟩
      · obtain ⟨m₀, hm₀, -, -, henv⟩ := hsaved m hm
        exact ⟨m₀, hm₀, henv.1.symm⟩
      · exact ⟨m, hm, rfl⟩
    entry := fun _ _ _ e he _ => (List.append_nil d.ledgerEntries) ▸ he
    envelope := fun m hm => by
      by_cases hex : ∃ n ∈ ms, m.id = n.id
      · obtain ⟨n, hn, hid⟩ := hex
        obtain ⟨-, hpending, henv⟩ := hlocked m hm n hn hid
        exact ⟨n, (hmem n).mpr (Or.inl hn), henv, fun hp => by simp [hpending] at hp⟩
      · exact ⟨m, (hmem m).mpr (Or.inr ⟨hm, fun n hn hid => hex ⟨n, hn, hid⟩⟩), .refl m,
          fun _ => rfl⟩ }

theorem Permitted.frame (hw : Permitted P own' d w) (h : Consistent P d)
    (hdisj : ∀ k, own k → ¬own' k) : Frame own d (d.apply w) := by
  cases hw with
  | settled settled => exact settled.frame h hdisj
  | @opened row writes n _ =>
    subst writes
    obtain ⟨hkeep, hid, hplayer⟩ := n.frame (w := { wallets := [row] }) hdisj rfl
    exact { Frame.refl own d with
      wallets := fun r hr => ⟨r, hkeep r hr, rfl, rfl, rfl⟩
      ownWallet := fun r hr _ => hkeep r hr
      walletId := fun r hr hown => ⟨r, hid r hr hown, rfl⟩
      player := fun r hr hown => ⟨r, hplayer r hr hown, rfl⟩
      entry := fun _ _ _ e he _ => (List.append_nil d.ledgerEntries) ▸ he }
  | openedWith o => exact o.frame hdisj
  | received writes owns fresh _ =>
    subst writes
    exact received_frame owns fresh hdisj
  | published writes nodup saved =>
    subst writes
    exact published_frame h nodup saved hdisj

theorem PermittedSeq.frame {ws : List Writes} (hws : PermittedSeq P own' d ws)
    (h : Consistent P d) (hdisj : ∀ k, own k → ¬own' k) : Frame own d (d.applyAll ws) := by
  induction hws with
  | nil d => exact .refl own d
  | cons head _ ih => exact (head.frame h hdisj).trans (ih (head.consistent h))

/-! ## What is permitted stays permitted

To a holder who may have come to hold more in the meantime.
-/

section

variable (hown : ∀ k, own k → own' k) (f : Frame own d d')
include hown f

theorem NewMessages.stable {ms : List OutboxMessage} (m : NewMessages own d ms) :
    NewMessages own' d' ms := by
  refine ⟨fun n hn => hown _ (m.owns n hn), fun n hn x hx hid => ?_, m.nodup, m.envelopes,
    m.pending⟩
  obtain ⟨x₀, hx₀, hid₀⟩ := f.messageId x hx (hid ▸ m.owns n hn)
  exact m.fresh n hn x₀ hx₀ (hid₀.trans hid)

theorem Claimed.stable (hc : Claimed P own d tx) : Claimed P own' d' tx := by
  refine ⟨hown _ hc.ownsId, hown _ hc.ownsKey, hown _ hc.ownsExternal, ?_, ?_, ?_,
    hc.identity.keep f.toKeeps, hc.kind, hc.created⟩
  · intro x hx hid
    obtain ⟨x₀, hx₀, hid₀⟩ := f.rowId x hx (hid ▸ hc.ownsId)
    exact hc.newId x₀ hx₀ (hid₀.trans hid)
  · intro x hx hkey
    obtain ⟨x₀, hx₀, hkey₀⟩ := f.key x hx (hkey ▸ hc.ownsKey)
    exact hc.newKey x₀ hx₀ (hkey₀.trans hkey)
  · intro x hx hext
    obtain ⟨hp, he⟩ := Prod.mk.inj hext
    obtain ⟨x₀, hx₀, hext₀⟩ := f.external x hx (hp ▸ he ▸ hc.ownsExternal)
    exact hc.newExternal x₀ hx₀ (hext₀.trans hext)

theorem LockedRow.stable (hl : LockedRow own d tx) : LockedRow own' d' tx :=
  ⟨hown _ hl.owns, f.ownRow tx hl.row hl.owns, hl.status⟩

theorem Subject.stable (hs : Subject P own d tx) : Subject P own' d' tx := by
  cases hs with
  | claimed hc => exact .claimed (hc.stable hown f)
  | locked hl => exact .locked (hl.stable hown f)

omit hown in
/-- That nothing in the reference's wallet undoes it is known to whoever holds that wallet. -/
theorem Undoes.stable {b : WagerTransaction} {r : WalletRow} (hu : Undoes d t b)
    (hr : r ∈ d.wallets) (howns : own (.wallet r.id)) (hb : b.walletId = r.id) :
    Undoes d' t b := by
  refine ⟨hu.toReverses, f.terminal b hu.row (isTerminal_of_processed hu.processed), ?_⟩
  intro x hx hp hwallet hkind
  exact hu.first x (f.processed r hr howns x hx hp (hwallet.trans hb)) hp hwallet hkind

theorem Outcome.stable (o : Outcome P own d tx t w) : Outcome P own' d' tx t w := by
  cases o with
  | parked wallets entries kind attempts row describes events =>
    exact .parked wallets entries kind attempts row describes events
  | rejected wallets entries fits row describes events =>
    exact .rejected wallets entries fits row describes events
  | lost wallets entries owns wallet walletId kind row describes events =>
    exact .lost wallets entries (hown _ owns) (f.ownWallet _ wallet owns) walletId kind row
      describes events
  | moved wallets entries owns wallet walletId kind movement entry row unreferenced referenced
      describes events =>
    refine .moved wallets entries (hown _ owns) (f.ownWallet _ wallet owns) walletId kind movement
      entry row unreferenced ?_ describes events
    -- the reference is settled, so it stays as it is
    intro hrequires
    obtain ⟨b, hb, hundoes, hdirection⟩ := referenced hrequires
    refine ⟨b, hb, hundoes.stable f wallet owns ?_, hdirection⟩
    exact hundoes.walletId.trans walletId.symm

theorem Settles.stable (s : Settles P own d tx t w) : Settles P own' d' tx t w :=
  ⟨s.subject.stable hown f, s.row, s.identity, s.messages.stable hown f, s.inbox⟩

theorem Settled.stable (hw : Settled P own d w) : Settled P own' d' w := by
  obtain ⟨s, o⟩ := hw
  exact ⟨s.stable hown f, o.stable hown f⟩

theorem NewWallet.stable {row : WalletRow} (n : NewWallet P own d row) :
    NewWallet P own' d' row := by
  refine ⟨hown _ n.ownsId, hown _ n.ownsPlayer, ?_, ?_, n.id, n.player, n.version⟩
  · intro r hr hid
    obtain ⟨r₀, hr₀, hid₀⟩ := f.walletId r hr (hid ▸ n.ownsId)
    exact n.newId r₀ hr₀ (hid₀.trans hid)
  · intro r hr hplayer
    obtain ⟨hp, hc⟩ := Prod.mk.inj hplayer
    obtain ⟨r₀, hr₀, hplayer₀⟩ := f.player r hr (hp ▸ hc ▸ n.ownsPlayer)
    exact n.newPlayer r₀ hr₀ (hplayer₀.trans hplayer)

theorem OpeningRow.stable {row : WalletRow} {e : WalletLedgerEntry}
    (o : OpeningRow own d row t e) : OpeningRow own' d' row t e :=
  -- the keys are owned, so no other call inserts a row with one of them
  { o with
    ownsId := hown _ o.ownsId
    ownsKey := hown _ o.ownsKey
    ownsExternal := hown _ o.ownsExternal
    newId := fun x hx hid => by
      obtain ⟨x₀, hx₀, hid₀⟩ := f.rowId x hx (hid ▸ o.ownsId)
      exact o.newId x₀ hx₀ (hid₀.trans hid)
    newKey := fun x hx hkey => by
      obtain ⟨x₀, hx₀, hkey₀⟩ := f.key x hx (hkey ▸ o.ownsKey)
      exact o.newKey x₀ hx₀ (hkey₀.trans hkey)
    newExternal := fun x hx hext => by
      obtain ⟨hp, he⟩ := Prod.mk.inj hext
      obtain ⟨x₀, hx₀, hext₀⟩ := f.external x hx (hp ▸ he ▸ o.ownsExternal)
      exact o.newExternal x₀ hx₀ (hext₀.trans hext) }

theorem OpensWith.stable {row : WalletRow} {e : WalletLedgerEntry} {data : WagerTransactionData}
    (o : OpensWith P own d row t e data w) : OpensWith P own' d' row t e data w :=
  { o with
    wallet := o.wallet.stable hown f
    opening := o.opening.stable hown f
    messages := o.messages.stable hown f }

end

/-! ## A frame carries over to the state that a settlement prepares

One lemma for each table: a row after the write is the written one, on both sides, or an old one. -/

section

variable (hw : Settled P own d w) (f : Frame own d d')
include hw

/-- At most one wallet is written; it existed, and the call holds it. -/
theorem Settled.mem_wallets : ∃ news : List WalletRow,
    (∀ r ∈ news, own (.wallet r.id) ∧ ∃ r₀ ∈ d.wallets, r₀.id = r.id) ∧
      ∀ (c : Database) (r : WalletRow), r ∈ (c.apply w).wallets ↔
        r ∈ news ∨ (r ∈ c.wallets ∧ ∀ n ∈ news, r.id ≠ n.id) := by
  obtain ⟨-, o⟩ := hw
  rcases o.effect with ⟨hnil, -⟩ | ⟨w₀, w₁, e, hone, -, hw₀, hm, -, howns⟩
  · have hnodup : (([] : List WalletRow).map WalletRow.id).Nodup := List.nodup_nil
    refine ⟨[], fun _ hr => absurd hr List.not_mem_nil, fun c r => ?_⟩
    rw [Database.apply, hnil]
    exact mem_upsertAll hnodup
  · have hnodup : ([w₁].map WalletRow.id).Nodup := List.nodup_singleton _
    refine ⟨[w₁], fun r hr => ?_, fun c r => ?_⟩
    · obtain rfl := List.mem_singleton.mp hr
      exact ⟨hm.id ▸ howns, w₀, hw₀, hm.id.symm⟩
    · rw [Database.apply, hone]
      exact mem_upsertAll hnodup

theorem Settled.mem_rows : ∃ t : WagerTransaction, ∀ (c : Database) (x : WagerTransaction),
    x ∈ (c.apply w).wagerTransactions ↔ x = t ∨ (x ∈ c.wagerTransactions ∧ x.id ≠ t.id) := by
  obtain ⟨s, -⟩ := hw
  exact ⟨_, fun c x => Database.mem_transactions_apply s.row⟩

theorem Settled.mem_messages (c : Database) (m : OutboxMessage) : m ∈ (c.apply w).outboxMessages ↔
    m ∈ w.outboxMessages ∨ (m ∈ c.outboxMessages ∧ ∀ n ∈ w.outboxMessages, m.id ≠ n.id) := by
  obtain ⟨s, -⟩ := hw
  exact mem_upsertAll s.messages.nodup

theorem Settled.wallet_before {r : WalletRow} (hr : r ∈ (d.apply w).wallets) :
    ∃ r₀ ∈ d.wallets, r₀.id = r.id := by
  obtain ⟨news, hnews, hwallet⟩ := hw.mem_wallets
  rcases (hwallet d r).mp hr with hr | ⟨hr, -⟩
  · exact (hnews r hr).2
  · exact ⟨r, hr, rfl⟩

theorem Settled.wallet_after {r : WalletRow} (hr : r ∈ d.wallets) :
    ∃ r' ∈ (d.apply w).wallets, r'.id = r.id := by
  obtain ⟨news, -, hwallet⟩ := hw.mem_wallets
  by_cases hwritten : ∃ n ∈ news, r.id = n.id
  · obtain ⟨n, hn, hid⟩ := hwritten
    exact ⟨n, (hwallet d n).mpr (Or.inl hn), hid.symm⟩
  · exact ⟨r, (hwallet d r).mpr (Or.inr ⟨hr, fun n hn hid => hwritten ⟨n, hn, hid⟩⟩), rfl⟩

theorem Settled.keeps (h : Consistent P d) : Keeps d (d.apply w) := by
  obtain ⟨s, o⟩ := hw
  exact s.keeps o h

theorem Settled.inbox_eq (c : Database) : (c.apply w).inboxMessages = c.inboxMessages := by
  obtain ⟨s, -⟩ := hw
  exact Database.inbox_apply s.inbox

include f

theorem Settled.keeps_apply : Keeps (d.apply w) (d'.apply w) := by
  obtain ⟨news, -, hwallet⟩ := hw.mem_wallets
  obtain ⟨t, hrow⟩ := hw.mem_rows
  refine ⟨fun r hr => ?_, fun x hx => ?_, fun x hx hterminal => ?_⟩
  · rcases (hwallet d r).mp hr with hr | ⟨hr, hne⟩
    · exact ⟨r, (hwallet d' r).mpr (Or.inl hr), rfl, rfl, rfl⟩
    · obtain ⟨r', hr', hsame⟩ := f.wallets r hr
      exact ⟨r', (hwallet d' r').mpr (Or.inr ⟨hr', fun n hn => hsame.1 ▸ hne n hn⟩), hsame⟩
  · rcases (hrow d x).mp hx with rfl | ⟨hx, hne⟩
    · exact ⟨x, (hrow d' x).mpr (Or.inl rfl), rfl⟩
    · obtain ⟨x', hx', hprops⟩ := f.rows x hx
      have hid := congrArg CreateWagerTransactionProps.id hprops
      exact ⟨x', (hrow d' x').mpr (Or.inr ⟨hx', hid ▸ hne⟩), hprops⟩
  · rcases (hrow d x).mp hx with rfl | ⟨hx, hne⟩
    · exact (hrow d' x).mpr (Or.inl rfl)
    · exact (hrow d' x).mpr (Or.inr ⟨f.terminal x hx hterminal, hne⟩)

theorem Settled.ownWallet_apply {r : WalletRow} (hr : r ∈ (d.apply w).wallets)
    (hown : own (.wallet r.id)) : r ∈ (d'.apply w).wallets := by
  obtain ⟨news, -, hwallet⟩ := hw.mem_wallets
  rcases (hwallet d r).mp hr with hr | ⟨hr, hne⟩
  · exact (hwallet d' r).mpr (Or.inl hr)
  · exact (hwallet d' r).mpr (Or.inr ⟨f.ownWallet r hr hown, hne⟩)

omit f in
/-- A wallet that others found under a key the call holds was there under it. -/
theorem Settled.wallet_apply (h : Consistent P d) {κ : Type} {g : WalletRow → κ}
    {k : κ → Resource} (hkey : ∀ r r' : WalletRow, r'.id = r.id → r'.playerId = r.playerId →
      r'.currency = r.currency → g r' = g r)
    (hframe : ∀ r ∈ d'.wallets, own (k (g r)) → ∃ r₀ ∈ d.wallets, g r₀ = g r)
    {r : WalletRow} (hr : r ∈ (d'.apply w).wallets) (hown : own (k (g r))) :
    ∃ r₀ ∈ (d.apply w).wallets, g r₀ = g r := by
  obtain ⟨news, -, hwallet⟩ := hw.mem_wallets
  rcases (hwallet d' r).mp hr with hr | ⟨hr, -⟩
  · exact ⟨r, (hwallet d r).mpr (Or.inl hr), rfl⟩
  · obtain ⟨r₀, hr₀, hsame₀⟩ := hframe r hr hown
    obtain ⟨r₁, hr₁, hid, hplayer, hcurrency⟩ := (hw.keeps h).wallets r₀ hr₀
    exact ⟨r₁, hr₁, (hkey r₀ r₁ hid hplayer hcurrency).trans hsame₀⟩

theorem Settled.ownRow_apply {x : WagerTransaction} (hx : x ∈ (d.apply w).wagerTransactions)
    (hown : own (.transaction x.id)) : x ∈ (d'.apply w).wagerTransactions := by
  obtain ⟨t, hrow⟩ := hw.mem_rows
  rcases (hrow d x).mp hx with rfl | ⟨hx, hne⟩
  · exact (hrow d' x).mpr (Or.inl rfl)
  · exact (hrow d' x).mpr (Or.inr ⟨f.ownRow x hx hown, hne⟩)

omit f in
/-- So was a row. -/
theorem Settled.row_apply (h : Consistent P d) {κ : Type}
    {g : CreateWagerTransactionProps → κ} {k : κ → Resource}
    (hframe : ∀ x ∈ d'.wagerTransactions, own (k (g x.toCreateWagerTransactionProps)) →
      ∃ x₀ ∈ d.wagerTransactions, g x₀.toCreateWagerTransactionProps =
        g x.toCreateWagerTransactionProps) {x : WagerTransaction}
    (hx : x ∈ (d'.apply w).wagerTransactions)
    (hown : own (k (g x.toCreateWagerTransactionProps))) :
    ∃ x₀ ∈ (d.apply w).wagerTransactions, g x₀.toCreateWagerTransactionProps =
      g x.toCreateWagerTransactionProps := by
  obtain ⟨t, hrow⟩ := hw.mem_rows
  rcases (hrow d' x).mp hx with rfl | ⟨hx, -⟩
  · exact ⟨x, (hrow d x).mpr (Or.inl rfl), rfl⟩
  · obtain ⟨x₀, hx₀, hkey⟩ := hframe x hx hown
    obtain ⟨x₁, hx₁, hprops⟩ := (hw.keeps h).rows x₀ hx₀
    exact ⟨x₁, hx₁, (congrArg g hprops).trans hkey⟩

theorem Settled.processed_apply {r : WalletRow} (hr : r ∈ (d.apply w).wallets)
    (hown : own (.wallet r.id)) {x : WagerTransaction} (hx : x ∈ (d'.apply w).wagerTransactions)
    (hp : x.status = .processed) (hid : x.walletId = r.id) :
    x ∈ (d.apply w).wagerTransactions := by
  obtain ⟨r₀, hr₀, hid₀⟩ := hw.wallet_before hr
  obtain ⟨t, hrow⟩ := hw.mem_rows
  rcases (hrow d' x).mp hx with rfl | ⟨hx, hne⟩
  · exact (hrow d x).mpr (Or.inl rfl)
  · refine (hrow d x).mpr (Or.inr ⟨?_, hne⟩)
    exact f.processed r₀ hr₀ (hid₀ ▸ hown) x hx hp (hid.trans hid₀.symm)

theorem Settled.entry_apply {r : WalletRow} (hr : r ∈ (d.apply w).wallets)
    (hown : own (.wallet r.id)) {e : WalletLedgerEntry} (he : e ∈ (d'.apply w).ledgerEntries)
    (hid : e.walletId = r.id) : e ∈ (d.apply w).ledgerEntries := by
  obtain ⟨r₀, hr₀, hid₀⟩ := hw.wallet_before hr
  rcases List.mem_append.mp he with he | he
  · exact List.mem_append_left _ (f.entry r₀ hr₀ (hid₀ ▸ hown) e he (hid.trans hid₀.symm))
  · exact List.mem_append_right _ he

theorem Settled.ownMessage_apply {m : OutboxMessage} (hm : m ∈ (d.apply w).outboxMessages)
    (hown : own (.outbox m.id)) : m ∈ (d'.apply w).outboxMessages := by
  rcases (hw.mem_messages d m).mp hm with hm | ⟨hm, hne⟩
  · exact (hw.mem_messages d' m).mpr (Or.inl hm)
  · exact (hw.mem_messages d' m).mpr (Or.inr ⟨f.ownMessage m hm hown, hne⟩)

theorem Settled.messageId_apply {m : OutboxMessage} (hm : m ∈ (d'.apply w).outboxMessages)
    (hown : own (.uuid m.id)) : ∃ m₀ ∈ (d.apply w).outboxMessages, m₀.id = m.id := by
  rcases (hw.mem_messages d' m).mp hm with hm | ⟨hm, hne⟩
  · exact ⟨m, (hw.mem_messages d m).mpr (Or.inl hm), rfl⟩
  · obtain ⟨m₀, hm₀, hid⟩ := f.messageId m hm hown
    exact ⟨m₀, (hw.mem_messages d m₀).mpr (Or.inr ⟨hm₀, fun n hn => hid ▸ hne n hn⟩), hid⟩

theorem Settled.envelope_apply {m : OutboxMessage} (hm : m ∈ (d.apply w).outboxMessages) :
    ∃ m' ∈ (d'.apply w).outboxMessages, m.SameEnvelope m' ∧
      (m.publishedAt.isSome = true → m' = m) := by
  rcases (hw.mem_messages d m).mp hm with hm | ⟨hm, hne⟩
  · exact ⟨m, (hw.mem_messages d' m).mpr (Or.inl hm), .refl m, fun _ => rfl⟩
  · obtain ⟨m', hm', henv, hsame⟩ := f.envelope m hm
    exact ⟨m', (hw.mem_messages d' m').mpr (Or.inr ⟨hm', fun n hn => henv.1 ▸ hne n hn⟩), henv,
      hsame⟩

theorem Settled.frame_apply (h : Consistent P d) : Frame own (d.apply w) (d'.apply w) where
  toKeeps := hw.keeps_apply f
  ownWallet _ hr hown := hw.ownWallet_apply f hr hown
  ownRow _ hx hown := hw.ownRow_apply f hx hown
  ownMessage _ hm hown := hw.ownMessage_apply f hm hown
  walletId _ hr hown := hw.wallet_apply h (k := .uuid) (fun _ _ hid _ _ => hid) f.walletId hr hown
  player _ hr hown :=
    hw.wallet_apply h (g := fun r => (r.playerId, r.currency))
      (k := fun key => .playerCurrency key.1 key.2)
      (fun _ _ _ hplayer hcurrency => by rw [hplayer, hcurrency]) f.player hr hown
  rowId _ hx hown := hw.row_apply h (g := (·.id)) (k := .uuid) f.rowId hx hown
  key _ hx hown :=
    hw.row_apply h (g := (·.idempotencyKey)) (k := .idempotencyKey) f.key hx hown
  external _ hx hown :=
    hw.row_apply h (g := fun p => (p.providerId, p.externalTransactionId))
      (k := fun key => .external key.1 key.2) f.external hx hown
  messageId _ hm hown := hw.messageId_apply f hm hown
  inboxKey m hm hown := by
    rw [hw.inbox_eq] at hm ⊢
    exact f.inboxKey m hm hown
  processed _ hr hown _ hx hp hid := hw.processed_apply f hr hown hx hp hid
  entry _ hr hown _ he hid := hw.entry_apply f hr hown he hid
  inbox m hm := by
    rw [hw.inbox_eq] at hm ⊢
    exact f.inbox m hm
  envelope _ hm := hw.envelope_apply f hm

end

theorem SettledSeq.keeps {ws : List Writes} (h : SettledSeq P own d ws) (hc : Consistent P d) :
    Keeps d (d.applyAll ws) := by
  induction h with
  | nil d => exact .refl d
  | cons head _ ih =>
    exact (head.keeps hc).trans (ih ((Permitted.settled head).consistent hc))

theorem SettledSeq.frame_applyAll {ws : List Writes} (hws : SettledSeq P own d ws)
    (h : Consistent P d) (f : Frame own d d') :
    Frame own (d.applyAll ws) (d'.applyAll ws) := by
  induction hws generalizing d' with
  | nil d => exact f
  | cons head _ ih =>
    exact ih ((Permitted.settled head).consistent h) (head.frame_apply f h)

theorem SettledSeq.stable {ws : List Writes} (hws : SettledSeq P own d ws)
    (h : Consistent P d) (hown : ∀ k, own k → own' k) (f : Frame own d d') :
    SettledSeq P own' d' ws := by
  induction hws generalizing d' with
  | nil d => exact .nil d'
  | cons head _ ih =>
    exact .cons (head.stable hown f)
      (ih ((Permitted.settled head).consistent h) (head.frame_apply f h))

end WageringProcessor
