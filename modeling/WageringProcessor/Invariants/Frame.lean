import WageringProcessor.Invariants.Preservation

/-!
# What a call may rely on

`Frame own d d'` is what the holder of `own` knows of a database that others change from `d` to
`d'`: the rows it has locked are as they were, nothing new appears under the keys it holds, and
what no call ever changes has not changed.
-/

namespace WageringProcessor

open Library.Table

structure Frame (own : Resource → Prop) (d d' : Database) : Prop extends Keeps d d' where
  ownWallet : ∀ r ∈ d.wallets, own (.wallet r.id) → r ∈ d'.wallets
  ownRow : ∀ t ∈ d.wagerTransactions, own (.transaction t.id) → t ∈ d'.wagerTransactions
  ownMessage : ∀ m ∈ d.outboxMessages, own (.outbox m.id) → m ∈ d'.outboxMessages
  walletId : ∀ r ∈ d'.wallets, own (.uuid r.id) → ∃ r₀ ∈ d.wallets, r₀.id = r.id
  player : ∀ r ∈ d'.wallets, own (.playerCurrency r.playerId r.currency) →
    ∃ r₀ ∈ d.wallets, (r₀.playerId, r₀.currency) = (r.playerId, r.currency)
  rowId : ∀ t ∈ d'.wagerTransactions, own (.uuid t.id) → ∃ t₀ ∈ d.wagerTransactions, t₀.id = t.id
  key : ∀ t ∈ d'.wagerTransactions, own (.idempotencyKey t.idempotencyKey) →
    ∃ t₀ ∈ d.wagerTransactions, t₀.idempotencyKey = t.idempotencyKey
  external : ∀ t ∈ d'.wagerTransactions, own (.external t.providerId t.externalTransactionId) →
    ∃ t₀ ∈ d.wagerTransactions,
      (t₀.providerId, t₀.externalTransactionId) = (t.providerId, t.externalTransactionId)
  messageId : ∀ m ∈ d'.outboxMessages, own (.uuid m.id) → ∃ m₀ ∈ d.outboxMessages, m₀.id = m.id
  inboxKey : ∀ m ∈ d'.inboxMessages, own (.inbox m.messageId) → m ∈ d.inboxMessages
  processed : ∀ r ∈ d.wallets, own (.wallet r.id) → ∀ t ∈ d'.wagerTransactions,
    t.status = .processed → t.walletId = r.id → t ∈ d.wagerTransactions
  entry : ∀ r ∈ d.wallets, own (.wallet r.id) → ∀ e ∈ d'.ledgerEntries, e.walletId = r.id →
    e ∈ d.ledgerEntries
  inbox : ∀ m ∈ d.inboxMessages, m ∈ d'.inboxMessages
  envelope : ∀ m ∈ d.outboxMessages, ∃ m' ∈ d'.outboxMessages, m.SameEnvelope m' ∧
    (m.publishedAt.isSome = true → m' = m)

variable {P : Platform} {own own' : Resource → Prop} {d d' d'' : Database} {w : Writes}
  {tx t : WagerTransaction}

theorem Keeps.refl (d : Database) : Keeps d d := .of_eq rfl rfl

theorem Keeps.trans (h : Keeps d d') (h' : Keeps d' d'') : Keeps d d'' := by
  refine ⟨?_, ?_, fun t ht hterminal => h'.terminal t (h.terminal t ht hterminal) hterminal⟩
  · intro r hr
    obtain ⟨r', hr', hsame⟩ := h.wallets r hr
    obtain ⟨r'', hr'', hsame'⟩ := h'.wallets r' hr'
    exact ⟨r'', hr'', hsame'.1.trans hsame.1, hsame'.2.1.trans hsame.2.1,
      hsame'.2.2.trans hsame.2.2⟩
  · intro t ht
    obtain ⟨t', ht', hprops⟩ := h.rows t ht
    obtain ⟨t'', ht'', hprops'⟩ := h'.rows t' ht'
    exact ⟨t'', ht'', hprops'.trans hprops⟩

theorem Frame.refl (own : Resource → Prop) (d : Database) : Frame own d d where
  toKeeps := .refl d
  ownWallet _ hr _ := hr
  ownRow _ ht _ := ht
  ownMessage _ hm _ := hm
  walletId r hr _ := ⟨r, hr, rfl⟩
  player r hr _ := ⟨r, hr, rfl⟩
  rowId t ht _ := ⟨t, ht, rfl⟩
  key t ht _ := ⟨t, ht, rfl⟩
  external t ht _ := ⟨t, ht, rfl⟩
  messageId m hm _ := ⟨m, hm, rfl⟩
  inboxKey _ hm _ := hm
  processed _ _ _ _ ht _ _ := ht
  entry _ _ _ _ he _ := he
  inbox _ hm := hm
  envelope m hm := ⟨m, hm, .refl m, fun _ => rfl⟩

theorem Frame.trans (h : Frame own d d') (h' : Frame own d' d'') : Frame own d d'' where
  toKeeps := h.toKeeps.trans h'.toKeeps
  ownWallet r hr hown := h'.ownWallet r (h.ownWallet r hr hown) hown
  ownRow t ht hown := h'.ownRow t (h.ownRow t ht hown) hown
  ownMessage m hm hown := h'.ownMessage m (h.ownMessage m hm hown) hown
  -- a row under an id that is owned goes back step by step
  walletId r hr hown := by
    obtain ⟨r', hr', hid⟩ := h'.walletId r hr hown
    obtain ⟨r₀, hr₀, hid₀⟩ := h.walletId r' hr' (by rwa [hid])
    exact ⟨r₀, hr₀, hid₀.trans hid⟩
  player r hr hown := by
    obtain ⟨r', hr', hid⟩ := h'.player r hr hown
    obtain ⟨hp, hc⟩ := Prod.mk.inj hid
    obtain ⟨r₀, hr₀, hid₀⟩ := h.player r' hr' (by rwa [hp, hc])
    exact ⟨r₀, hr₀, hid₀.trans hid⟩
  rowId t ht hown := by
    obtain ⟨t', ht', hid⟩ := h'.rowId t ht hown
    obtain ⟨t₀, ht₀, hid₀⟩ := h.rowId t' ht' (by rwa [hid])
    exact ⟨t₀, ht₀, hid₀.trans hid⟩
  key t ht hown := by
    obtain ⟨t', ht', hid⟩ := h'.key t ht hown
    obtain ⟨t₀, ht₀, hid₀⟩ := h.key t' ht' (by rwa [hid])
    exact ⟨t₀, ht₀, hid₀.trans hid⟩
  external t ht hown := by
    obtain ⟨t', ht', hid⟩ := h'.external t ht hown
    obtain ⟨hp, he⟩ := Prod.mk.inj hid
    obtain ⟨t₀, ht₀, hid₀⟩ := h.external t' ht' (by rwa [hp, he])
    exact ⟨t₀, ht₀, hid₀.trans hid⟩
  messageId m hm hown := by
    obtain ⟨m', hm', hid⟩ := h'.messageId m hm hown
    obtain ⟨m₀, hm₀, hid₀⟩ := h.messageId m' hm' (by rwa [hid])
    exact ⟨m₀, hm₀, hid₀.trans hid⟩
  inboxKey m hm hown := h.inboxKey m (h'.inboxKey m hm hown) hown
  processed r hr hown t ht hp hid :=
    h.processed r hr hown t (h'.processed r (h.ownWallet r hr hown) hown t ht hp hid) hp hid
  entry r hr hown e he hid :=
    h.entry r hr hown e (h'.entry r (h.ownWallet r hr hown) hown e he hid) hid
  inbox m hm := h'.inbox m (h.inbox m hm)
  -- a message that is published in between stays as it is
  envelope m hm := by
    obtain ⟨m', hm', henv, hsame⟩ := h.envelope m hm
    obtain ⟨m'', hm'', henv', hsame'⟩ := h'.envelope m' hm'
    refine ⟨m'', hm'', ?_, ?_⟩
    · exact ⟨henv'.1.trans henv.1, henv'.2.1.trans henv.2.1, henv'.2.2.1.trans henv.2.2.1,
        henv'.2.2.2.1.trans henv.2.2.2.1, henv'.2.2.2.2.trans henv.2.2.2.2⟩
    · intro hp
      obtain rfl := hsame hp
      exact hsame' hp

end WageringProcessor
