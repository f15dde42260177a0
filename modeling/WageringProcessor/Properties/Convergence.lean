import WageringProcessor.Invariants.OutOfOrder
import WageringProcessor.Runs

/-!
# Delivery out of order

A BET, WIN or LOSS and a REFUND or ROLLBACK of it are submitted one after the other.  Where the
reversal comes first it waits, and one reprocess run settles it as the submit would have done.
-/

namespace WageringProcessor

open Library.Interleaving Library.Table WagerTransactionFinalizer

variable {P : Platform} {d d₁ d₂ dA₁ dA₂ dB₁ dB₂ : Database} {b r : SubmitWagerTransactionCommand}
  {b₁ b₂ r₁ r₂ t : WagerTransaction} {w : Writes} {wallet wallet' : Wallet}
  {walletB₁ walletB₂ walletR₁ walletR₂ : Wallet}
  {resolution resolutionB₁ resolutionB₂ resolutionR₁ resolutionR₂ : Option ReferenceResolution}
  {g g' gB₁ gB₂ gR₁ gR₂ : Generated}

/-! ## The statement -/

/-- `r` names `b` as the transaction that it undoes, and neither is in the database. -/
structure ReversalOf (P : Platform) (d : Database) (b r : SubmitWagerTransactionCommand) :
    Prop where
  kind : b.kind = .bet ∨ b.kind = .win ∨ b.kind = .loss
  reversal : r.kind = .refund ∨ r.kind = .rollback
  providerId : r.providerId = b.providerId
  reference : r.referenceExternalTransactionId = some b.externalTransactionId
  keys : b.idempotencyKey ≠ r.idempotencyKey
  externalIds : b.externalTransactionId ≠ r.externalTransactionId
  unclaimed : Submit.Unclaimed d b
  unclaimedReversal : Submit.Unclaimed d r
  canonical : P.isCanonical r.walletId = true

/-- What an entry does to its wallet. -/
def WalletLedgerEntry.movement (e : WalletLedgerEntry) : Id × LedgerDirection × Money :=
  (e.walletId, e.direction, e.money)

/-- In `d₁` the transaction `b₁` and its reversal `r₁` were added to `d`, in `d₂` the reversal `r₂`
and then `b₂`, and both have come to the same. -/
structure Converged (d d₁ d₂ : Database) (b₁ r₁ b₂ r₂ : WagerTransaction) : Prop where
  inOrder : d₁.wagerTransactions = d.wagerTransactions ++ [b₁, r₁]
  outOfOrder : d₂.wagerTransactions = d.wagerTransactions ++ [r₂, b₂]
  transaction : SameSettlement b₁ b₂
  reversal : SameSettlement r₁ r₂
  unlinked : SameLink none none b₁ b₂
  linked : SameLink (some b₁.id) (some b₂.id) r₁ r₂
  wallets : List.Forall₂ SameWalletRow d₁.wallets d₂.wallets
  entries : ∃ es₁ fs₁ es₂ fs₂, d₁.ledgerEntries = d.ledgerEntries ++ (es₁ ++ fs₁) ∧
    d₂.ledgerEntries = d.ledgerEntries ++ (es₂ ++ fs₂) ∧
      List.Forall₂ (SameMovement b₁.id b₂.id) es₁ es₂ ∧
        List.Forall₂ (SameMovement r₁.id r₂.id) fs₁ fs₂
  messages : ∃ ms₁ ns₁ waits ms₂ ns₂, d₁.outboxMessages = d.outboxMessages ++ (ms₁ ++ ns₁) ∧
    d₂.outboxMessages = d.outboxMessages ++ (waits :: ms₂ ++ ns₂) ∧
      (∃ data reference, waits.payload.data = .wagerTransactionPendingReference data reference ∧
        data.transactionId = r₂.id) ∧
      List.Forall₂ (SameReport b₁.id b₂.id) ms₁ ms₂ ∧
        List.Forall₂ (SameReport r₁.id r₂.id) ns₁ ns₂
  inboxMessages : d₁.inboxMessages = d₂.inboxMessages

/-- Every wallet has the same balance. -/
def SameBalances (d₁ d₂ : Database) : Prop :=
  ∀ id, (d₁.walletRow id).map (·.balanceAmount) = (d₂.walletRow id).map (·.balanceAmount)

/-- The entries move the same amounts. -/
def SameMovements (d₁ d₂ : Database) : Prop :=
  (d₁.ledgerEntries.map (·.movement) : Multiset (Id × LedgerDirection × Money)) =
    d₂.ledgerEntries.map (·.movement)

theorem Converged.balances (h : Converged d d₁ d₂ b₁ r₁ b₂ r₂) : SameBalances d₁ d₂ := by
  intro id
  have hids : ∀ a b : WalletRow, SameWalletRow a b → a.id = b.id := fun _ _ => SameWalletRow.id
  have hrel : Option.Rel SameWalletRow (d₁.walletRow id) (d₂.walletRow id) :=
    rel_lookup hids h.wallets id
  generalize d₁.walletRow id = row₁ at hrel ⊢
  generalize d₂.walletRow id = row₂ at hrel ⊢
  cases hrel with
  | some hsame => exact congrArg some hsame.balanceAmount
  | none => rfl

theorem SameMovement.movement {id id' : Id} {e e' : WalletLedgerEntry}
    (h : SameMovement id id' e e') : e.movement = e'.movement := by
  rw [h.rest]
  rfl

theorem Converged.movements (h : Converged d d₁ d₂ b₁ r₁ b₂ r₂) : SameMovements d₁ d₂ := by
  obtain ⟨es₁, fs₁, es₂, fs₂, h₁, h₂, hes, hfs⟩ := h.entries
  have hmap : ∀ {id id' : Id} {es es' : List WalletLedgerEntry},
      List.Forall₂ (SameMovement id id') es es' → es.map (·.movement) = es'.map (·.movement) :=
    Library.Correspondence.map_eq_of_forall₂ fun _ _ => SameMovement.movement
  unfold SameMovements
  rw [h₁, h₂, List.map_append, List.map_append, List.map_append, List.map_append, hmap hes,
    hmap hfs]

/-! ## The two orders -/

namespace ReversalOf

variable (hcmds : ReversalOf P d b r)
include hcmds

theorem requires : requiresReferenceFor r.kind = true := by
  unfold requiresReferenceFor
  rcases hcmds.reversal with hkind | hkind
  · rw [hkind]
    rfl
  · rw [hkind]
    rfl

theorem unreferenced : requiresReferenceFor b.kind = false := by
  unfold requiresReferenceFor
  rcases hcmds.kind with hkind | hkind | hkind
  all_goals
    rw [hkind]
    rfl

theorem differ : b.kind ≠ r.kind := by
  intro heq
  have hrequires := hcmds.requires
  rw [← heq, hcmds.unreferenced] at hrequires
  cases hrequires

/-- The transaction itself needs no reference. -/
theorem plain (h : Submit.Adds P b d₁ d₂ wallet resolution g) : resolution = none :=
  (Submit.resolve_none h.decides.resolves).mpr hcmds.unreferenced

/-- The reversal that comes first does not find its reference. -/
theorem waits (h : Submit.Adds P r d d₁ wallet resolution g) : resolution = some .pending := by
  have hunknown : d.findByProviderAndExternalId r.providerId
      (r.referenceExternalTransactionId.getD "") = none := by
    rw [hcmds.providerId, hcmds.reference]
    exact lookup_eq_none.mpr hcmds.unclaimed.external
  have hself : r.externalTransactionId ≠ r.referenceExternalTransactionId.getD "" := by
    rw [hcmds.reference]
    exact hcmds.externalIds.symm
  have hpending := Submit.resolve_unknown h.new h.admitted hcmds.requires hunknown hself
  exact Except.ok.inj (h.decides.resolves.symm.trans hpending)

end ReversalOf

/-- The transaction comes to the same whether its reversal waits for it or not. -/
theorem transaction_sameRows (hcmds : ReversalOf P d b r) (hc : Consistent P d)
    (hcB : Consistent P dB₁) (hA : Submit.Adds P b d dA₁ walletB₁ resolutionB₁ gB₁)
    (hB : Submit.Adds P b dB₁ dB₂ walletB₂ resolutionB₂ gB₂) (hwallets : dB₁.wallets = d.wallets) :
    SameRows gB₁.transactionId gB₂.transactionId none none
      (Submit.decided P b walletB₁ resolutionB₁ gB₁).2.2
      (Submit.decided P b walletB₂ resolutionB₂ gB₂).2.2 := by
  have hfound := hA.admitted.findWallet hc
  have hfound' := hB.admitted.findWallet hcB
  have hsame : dB₁.findWallet (P.canonical b.walletId) = d.findWallet (P.canonical b.walletId) := by
    unfold Database.findWallet Database.walletRow
    rw [hwallets]
  obtain rfl : walletB₁ = walletB₂ := Option.some.inj (hfound.symm.trans (hsame.symm.trans hfound'))
  have hwallet : SameWalletState walletB₁ walletB₁ := ⟨walletB₁.updatedAt, rfl⟩
  have hnone : (none : Option WagerTransaction).map (·.id) = none := rfl
  rw [hcmds.plain hA, hcmds.plain hB, ← hnone]
  exact effect_sameRows (Submit.sameStart_draft P b gB₁ gB₂) hwallet

theorem settled_terminal (hc : Consistent P d) (ht : t ∈ d.wagerTransactions)
    (hplain : t.requiresReference = false) : t.isTerminal = true := by
  rcases (hc.rows t ht).lifecycle with hwaiting | hprocessed | hrejected
  · rw [hwaiting.kind] at hplain
    cases hplain
  · exact WagerTransaction.isTerminal_iff.mpr (Or.inl hprocessed.status)
  · exact WagerTransaction.isTerminal_iff.mpr (Or.inr (Or.inl hrejected.status))

/-- A retry that decides appends its messages. -/
theorem Reprocess.Retried.appends (h : Reprocess.Retried P d t w)
    (hsettled : resolveReference d t ≠ .ok .pending) (hunlinked : t.referenceTransactionId = none) :
    (d.apply w).outboxMessages = d.outboxMessages ++ w.outboxMessages ∧ w.inboxMessages = [] := by
  cases h with
  | waits resolves => exact absurd resolves hsettled
  | rejected code ctx eventId resolves new =>
    refine ⟨upsertAll_of_fresh (List.nodup_singleton _) fun m hm m' hm' => ?_, rfl⟩
    rw [List.mem_singleton.mp hm]
    exact new m' hm'
  | applied x wallet ctx newId resolves found distinct new =>
    have hleaves : Leaves P t wallet (some (.resolved x)) newId
        (effect P t wallet (some x) (x.kind ≠ .bet) ctx newId).2.2 :=
      effect_leaves hunlinked (Or.inr ⟨x, rfl, rfl⟩)
    have hids : [newId 1, newId 2].Nodup := by simpa using distinct
    refine ⟨upsertAll_of_fresh (hids.sublist hleaves.messages) fun m hm m' hm' => ?_,
      hleaves.inbox⟩
    rcases List.mem_cons.mp (hleaves.messages.subset (List.mem_map_of_mem hm)) with hid | hid
    · rw [hid]
      exact (new m' hm').1
    · rw [List.mem_singleton.mp hid]
      exact (new m' hm').2

/-- The row of the transaction, which is found as the reference of its reversal. -/
theorem names_of_rowOf {pre post : List WagerTransaction} {x tx : WagerTransaction}
    (hcmds : ReversalOf P d b r) (hc : Consistent P d) (hx : Submit.RowOf b g x)
    (hrows : d₁.wagerTransactions = d.wagerTransactions ++ (pre ++ x :: post))
    (htx : tx.kind = r.kind ∧ tx.providerId = r.providerId ∧
      tx.referenceExternalTransactionId = r.referenceExternalTransactionId)
    (hpresent : WagerTransaction.missingReference r.referenceExternalTransactionId = false)
    (hnew : ∀ t ∈ d.wagerTransactions, t.id ≠ g.transactionId)
    (hpre : ∀ t ∈ pre, t.externalTransactionId = r.externalTransactionId)
    (hopen : ∀ t ∈ pre ++ post, t.status ≠ .processed) : Names d₁ tx x := by
  obtain ⟨hkind, hprovider, hreference⟩ := htx
  have hnamed : tx.referenceExternalTransactionId.getD "" = b.externalTransactionId := by
    rw [hreference, hcmds.reference]
    rfl
  have hrequires : tx.requiresReference = true := by
    unfold WagerTransaction.requiresReference
    rw [hkind]
    exact hcmds.requires
  refine names_added hc hrows hrequires ?_ ?_ ?_ ?_ ?_ ?_
  · rw [hreference, hpresent]
    exact Bool.false_ne_true
  · rw [hnamed, hprovider, hcmds.providerId]
    exact hcmds.unclaimed.external
  · intro t ht heq
    rw [hnamed] at heq
    exact hcmds.externalIds ((Prod.mk.inj heq).2.symm.trans (hpre t ht))
  · rw [hnamed, hprovider, hcmds.providerId]
    exact hx.externalIds
  · rw [hx.id]
    exact hnew
  · intro t ht hprocessed hsame
    rcases List.mem_append.mp ht with ht | ht
    · exact hopen t (List.mem_append_left _ ht) hprocessed
    · rcases List.mem_cons.mp ht with rfl | ht
      · rw [hx.kind, hkind] at hsame
        exact hcmds.differ hsame
      · exact hopen t (List.mem_append_right _ ht) hprocessed

/-- In order, the call for the reversal finds the transaction. -/
theorem names_inOrder (hcmds : ReversalOf P d b r) (hc : Consistent P d)
    (hb : Submit.RowOf b gB₁ b₁)
    (hrows : dA₁.wagerTransactions = d.wagerTransactions ++ [b₁]) (hnew : gB₁.New d)
    (hA₂ : Submit.Adds P r dA₁ dA₂ walletR₁ resolutionR₁ gR₁) :
    Names (dA₁.apply (Submit.claimWrites P (Submit.draft P r gR₁))) (Submit.draft P r gR₁) b₁ := by
  have hclaimed : (dA₁.apply (Submit.claimWrites P (Submit.draft P r gR₁))).wagerTransactions =
      d.wagerTransactions ++ ([] ++ b₁ :: [toWagerTransactionEntity P (Submit.draft P r gR₁)]) := by
    have hnewR : ∀ t ∈ dA₁.wagerTransactions, t.id ≠ (Submit.draft P r gR₁).id := hA₂.new
    rw [Submit.claimed_rows hnewR, hrows, List.append_assoc]
    rfl
  have hpresent := hA₂.admitted.reference hcmds.requires
  refine names_of_rowOf hcmds hc hb hclaimed ⟨rfl, rfl, rfl⟩ hpresent hnew (by simp) ?_
  intro t ht
  rw [List.mem_singleton.mp ht]
  exact WagerTransactionStatus.noConfusion

/-- Out of order, the retry finds it behind the row that waited. -/
theorem names_outOfOrder (hcmds : ReversalOf P d b r) (hc : Consistent P d)
    (hb : Submit.RowOf b gB₂ b₂) (hnew : gB₂.New d)
    (hrows : d₂.wagerTransactions = d.wagerTransactions ++ ([Submit.parkedRow P r gR₂] ++ [b₂]))
    (hpresent : WagerTransaction.missingReference r.referenceExternalTransactionId = false) :
    Names d₂ (Submit.parkedRow P r gR₂) b₂ := by
  refine names_of_rowOf hcmds hc hb hrows ⟨rfl, rfl, rfl⟩ hpresent hnew ?_ ?_
  · intro t ht
    rw [List.mem_singleton.mp ht]
    rfl
  · intro t ht
    rw [List.mem_singleton.mp ht]
    exact WagerTransactionStatus.noConfusion

/-- What the call for the reversal reports while it waits. -/
def parkedMessage (P : Platform) (cmd : SubmitWagerTransactionCommand) (g : Generated) :
    OutboxMessage :=
  let tx := Submit.draft P cmd g
  .enqueue (WagerTransactionPendingReference.from (parkedTransaction tx g.now)
    (Submit.eventContext cmd tx g.correlationId) (g.newId 1))

/-- Where the reversal was retried its row is replaced, and all else is added. -/
theorem retried_rows {parked r₂ b₂ : WagerTransaction} (hrow : w.wagerTransactions = [r₂])
    (hrows : d₂.wagerTransactions = d.wagerTransactions ++ [parked, b₂])
    (hid : parked.id = r₂.id) (hnew : ∀ t ∈ d.wagerTransactions, t.id ≠ r₂.id)
    (hne : b₂.id ≠ r₂.id) :
    (d₂.apply w).wagerTransactions = d.wagerTransactions ++ [r₂, b₂] := by
  show upsertAll (·.id) d₂.wagerTransactions w.wagerTransactions = _
  rw [hrow, hrows]
  refine upsert_append_cons hnew hid fun t ht => ?_
  rw [List.mem_singleton.mp ht]
  exact hne

theorem SameSettlement.rowOf {t' : WagerTransaction} (h : SameSettlement t t')
    (ht : Submit.RowOf r g t) (hid : t'.id = g'.transactionId) : Submit.RowOf r g' t' := by
  obtain ⟨id, createdAt, hprops⟩ := h.request
  have hkey : t.idempotencyKey = t'.idempotencyKey := by rw [hprops]
  have hprovider : t.providerId = t'.providerId := by rw [hprops]
  have hexternal : t.externalTransactionId = t'.externalTransactionId := by rw [hprops]
  have hkind : t.kind = t'.kind := by rw [hprops]
  refine ⟨hid, hkey.symm.trans ht.idempotencyKey, ?_, hkind.symm.trans ht.kind⟩
  rw [← hprovider, ← hexternal]
  exact ht.externalIds

theorem converged (hcmds : ReversalOf P d b r) (hc : Consistent P d) (hcA : Consistent P dA₁)
    (hcB : Consistent P dB₁) (hA₁ : Submit.Adds P b d dA₁ walletB₁ resolutionB₁ gB₁)
    (hA₂ : Submit.Adds P r dA₁ dA₂ walletR₁ resolutionR₁ gR₁)
    (hB₁ : Submit.Adds P r d dB₁ walletR₂ resolutionR₂ gR₂)
    (hB₂ : Submit.Adds P b dB₁ dB₂ walletB₂ resolutionB₂ gB₂)
    (hretried : Reprocess.Retried P dB₂ (Submit.parkedRow P r gR₂) w) :
    ∃ b₁ r₁ b₂ r₂, Submit.RowOf b gB₁ b₁ ∧ Submit.RowOf r gR₁ r₁ ∧ Submit.RowOf b gB₂ b₂ ∧
      Submit.RowOf r gR₂ r₂ ∧ Converged d dA₂ (dB₂.apply w) b₁ r₁ b₂ r₂ := by
  obtain rfl := hcmds.waits hB₁
  -- where the reversal waits, it adds its row and one message
  have hwalletsB₁ : dB₁.wallets = d.wallets := hB₁.extends_.wallets
  have hrowsB₁ : dB₁.wagerTransactions = d.wagerTransactions ++ [Submit.parkedRow P r gR₂] :=
    hB₁.extends_.wagerTransactions
  have hentriesB₁ : dB₁.ledgerEntries = d.ledgerEntries ++ [] := hB₁.extends_.ledgerEntries
  have hmessagesB₁ : dB₁.outboxMessages = d.outboxMessages ++ [parkedMessage P r gR₂] :=
    hB₁.extends_.outboxMessages
  -- the transaction comes to the same
  have hb := transaction_sameRows hcmds hc hcB hA₁ hB₂ hwalletsB₁
  obtain ⟨b₁, b₂, hrow₁, hrow₂, hid₁, hid₂, hsame, hlink⟩ := hb.row
  have hb₁ : Submit.RowOf b gB₁ b₁ := hA₁.decides.rowOf (hrow₁ ▸ List.mem_cons_self)
  have hb₂ : Submit.RowOf b gB₂ b₂ := hB₂.decides.rowOf (hrow₂ ▸ List.mem_cons_self)
  have hrowsA₁ : dA₁.wagerTransactions = d.wagerTransactions ++ [b₁] := by
    rw [hA₁.extends_.wagerTransactions, hrow₁]
  have hrowsB₂ : dB₂.wagerTransactions =
      d.wagerTransactions ++ ([Submit.parkedRow P r gR₂] ++ [b₂]) := by
    rw [hB₂.extends_.wagerTransactions, hrowsB₁, hrow₂, List.append_assoc]
  have hterminal : b₁.isTerminal = true := by
    refine settled_terminal hcA (by rw [hrowsA₁]; simp) ?_
    unfold WagerTransaction.requiresReference
    rw [hb₁.kind]
    exact hcmds.unreferenced
  -- so does the reversal, which finds it
  have hnewB₂ : gB₂.New d := by
    intro t ht
    refine hB₂.new t ?_
    rw [hrowsB₁]
    exact List.mem_append_left _ ht
  have hnames := names_inOrder hcmds hc hb₁ hrowsA₁ hA₁.new hA₂
  have hnames' := names_outOfOrder hcmds hc hb₂ hnewB₂ hrowsB₂
    (hA₂.admitted.reference hcmds.requires)
  have hids : ∀ a b : WalletRow, SameWalletRow a b → a.id = b.id := fun _ _ => SameWalletRow.id
  have hself : List.Forall₂ SameWalletRow d.wallets d.wallets :=
    List.forall₂_same.mpr fun _ _ => rfl
  have hwallets : List.Forall₂ SameWalletRow dA₁.wallets dB₂.wallets := by
    rw [hA₁.extends_.wallets, hB₂.extends_.wallets, hwalletsB₁]
    exact forall₂_upsertAll hids hself hb.wallets
  have hr := reversal_sameRows hcA hA₂ hcmds.requires hcmds.canonical hnames hnames' hsame hterminal
    hwallets hretried
  obtain ⟨r₁, r₂, hrow₁', hrow₂', hid₁', hid₂', hsame', hlink'⟩ := hr.row
  have hr₁ : Submit.RowOf r gR₁ r₁ := hA₂.decides.rowOf (hrow₁' ▸ List.mem_cons_self)
  have hsettled : resolveReference dB₂ (Submit.parkedRow P r gR₂) ≠ .ok .pending := by
    rw [hnames'.resolves]
    have hterminal' : b₂.isTerminal = true := by
      unfold WagerTransaction.isTerminal at hterminal ⊢
      rw [← hsame.status]
      exact hterminal
    intro hpending
    exact checkReference_terminal hterminal' (Except.ok.inj hpending)
  obtain ⟨houtbox, hinbox⟩ := hretried.appends hsettled rfl
  have hr₂ : Submit.RowOf r gR₂ r₂ := hsame'.rowOf hr₁ hid₂'
  have hentries : dB₂.ledgerEntries = d.ledgerEntries ++
      (Submit.decided P b walletB₂ resolutionB₂ gB₂).2.2.ledgerEntries := by
    rw [hB₂.extends_.ledgerEntries, hentriesB₁, List.append_nil]
  refine ⟨b₁, r₁, b₂, r₂, hb₁, hr₁, hb₂, hr₂, ?_, ?_, hsame, hsame', hlink, ?_, ?_, ?_, ?_, ?_⟩
  · rw [hA₂.extends_.wagerTransactions, hrowsA₁, hrow₁', List.append_assoc]
    rfl
  · refine retried_rows hrow₂' hrowsB₂ hid₂'.symm ?_ ?_
    · rw [hid₂']
      exact hB₁.new
    · rw [hid₂, hid₂']
      refine (hB₂.new (Submit.parkedRow P r gR₂) ?_).symm
      rw [hrowsB₁]
      exact List.mem_append_right _ List.mem_cons_self
  · exact hlink'
  · rw [hA₂.extends_.wallets]
    exact forall₂_upsertAll hids hwallets hr.wallets
  · refine ⟨_, _, _, _, ?_, ?_, hid₁ ▸ hid₂ ▸ hb.entries, hid₁' ▸ hid₂' ▸ hr.entries⟩
    · rw [hA₂.extends_.ledgerEntries, hA₁.extends_.ledgerEntries, List.append_assoc]
    · show dB₂.ledgerEntries ++ w.ledgerEntries = _
      rw [hentries, List.append_assoc]
  · refine ⟨_, _, parkedMessage P r gR₂, _, _, ?_, ?_, ?_, hid₁ ▸ hid₂ ▸ hb.messages,
      hid₁' ▸ hid₂' ▸ hr.messages⟩
    · rw [hA₂.extends_.outboxMessages, hA₁.extends_.outboxMessages, List.append_assoc]
    · rw [houtbox, hB₂.extends_.outboxMessages, hmessagesB₁, List.append_assoc, List.append_assoc]
      rfl
    · exact ⟨_, _, rfl, hid₂'.symm⟩
  · show dA₂.inboxMessages = upsertAll InboxMessage.key dB₂.inboxMessages w.inboxMessages
    rw [hinbox, hA₂.extends_.inboxMessages, hA₁.extends_.inboxMessages, upsertAll_nil,
      hB₂.extends_.inboxMessages, hB₁.extends_.inboxMessages]

/-! ## In the system -/

section

variable {c c' cA₁ cA₂ cB₁ cB₂ cB₃ : Config Shared Proc} {i₁ i₂ j₁ j₂ k : Pid} {n : Nat}
  {outA₁ outA₂ outB₁ outB₂ : SubmitWagerTransactionResult} {waiting : WagerTransaction}

theorem ReprocessesAlone.reachable {id : Id} (hrun : ReprocessesAlone P k n id c c')
    (h : Reachable (step P) initial c) : Reachable (step P) initial c' := by
  obtain ⟨c₀, c₁, inp, count, hstart, -, hbegin, hsteps, -⟩ := hrun
  have hreach : Reachable (step P) initial c₁ := .step (.step h trivial hstart) trivial hbegin
  exact hreach.trans hsteps.reachable

theorem Submit.RowOf.found (hb : Submit.RowOf b g t) (hc : Consistent P d)
    (ht : t ∈ d.wagerTransactions) : d.findByIdempotencyKey b.idempotencyKey = some t := by
  rw [← hb.idempotencyKey]
  exact lookup_of_mem hc.idempotencyKeys ht

/-- A transaction and its reversal come to the same in either order, if the reversal that came first
is retried once. -/
theorem outOfOrder_converges (h : Reachable (step P) initial c)
    (hcmds : ReversalOf P c.shared.db b r) (hA₁ : SubmitsAlone P i₁ b c cA₁ (.ok outA₁))
    (hA₂ : SubmitsAlone P i₂ r cA₁ cA₂ (.ok outA₂)) (hB₁ : SubmitsAlone P j₁ r c cB₁ (.ok outB₁))
    (hB₂ : SubmitsAlone P j₂ b cB₁ cB₂ (.ok outB₂))
    (hwaits : cB₂.shared.db.findByIdempotencyKey r.idempotencyKey = some waiting)
    (hB₃ : ReprocessesAlone P k n waiting.id cB₂ cB₃) :
    ∃ b₁ r₁ b₂ r₂, cA₂.shared.db.findByIdempotencyKey b.idempotencyKey = some b₁ ∧
      cA₂.shared.db.findByIdempotencyKey r.idempotencyKey = some r₁ ∧
        cB₃.shared.db.findByIdempotencyKey b.idempotencyKey = some b₂ ∧
          cB₃.shared.db.findByIdempotencyKey r.idempotencyKey = some r₂ ∧
            Converged c.shared.db cA₂.shared.db cB₃.shared.db b₁ r₁ b₂ r₂ ∧
              SameBalances cA₂.shared.db cB₃.shared.db ∧
                SameMovements cA₂.shared.db cB₃.shared.db := by
  have hreachA₁ := hA₁.1.reachable h
  have hreachA₂ := hA₂.1.reachable hreachA₁
  have hreachB₁ := hB₁.1.reachable h
  have hreachB₂ := hB₂.1.reachable hreachB₁
  have hreachB₃ := hB₃.reachable hreachB₂
  have hc := (reachable_ok h).1.consistent
  have hcA₁ := (reachable_ok hreachA₁).1.consistent
  have hcA₂ := (reachable_ok hreachA₂).1.consistent
  have hcB₁ := (reachable_ok hreachB₁).1.consistent
  have hcB₂ := (reachable_ok hreachB₂).1.consistent
  have hcB₃ := (reachable_ok hreachB₃).1.consistent
  -- no call finds its key or its external id taken
  obtain ⟨walletB₁, resolutionB₁, gB₁, haddsA₁⟩ := submitsAlone_adds h hcmds.unclaimed hA₁
  obtain ⟨walletR₁, resolutionR₁, gR₁, haddsA₂⟩ := submitsAlone_adds hreachA₁
    (haddsA₁.unclaimed hcmds.unclaimedReversal hcmds.keys hcmds.externalIds) hA₂
  obtain ⟨walletR₂, resolutionR₂, gR₂, haddsB₁⟩ := submitsAlone_adds h hcmds.unclaimedReversal hB₁
  obtain ⟨walletB₂, resolutionB₂, gB₂, haddsB₂⟩ := submitsAlone_adds hreachB₁
    (haddsB₁.unclaimed hcmds.unclaimed hcmds.keys.symm hcmds.externalIds.symm) hB₂
  -- what the run retries is the row of the reversal
  have hmem : Submit.parkedRow P r gR₂ ∈ cB₂.shared.db.wagerTransactions := by
    obtain rfl := hcmds.waits haddsB₁
    rw [haddsB₂.extends_.wagerTransactions, haddsB₁.extends_.wagerTransactions]
    exact List.mem_append_left _ (List.mem_append_right _ List.mem_cons_self)
  have hparked : cB₂.shared.db.findByIdempotencyKey r.idempotencyKey =
      some (Submit.parkedRow P r gR₂) := lookup_of_mem hcB₂.idempotencyKeys hmem
  obtain rfl : Submit.parkedRow P r gR₂ = waiting := Option.some.inj (hparked.symm.trans hwaits)
  obtain ⟨w, hdb, hretried⟩ := reprocessesAlone_retries hreachB₂
    (lookup_of_mem hcB₂.transactionIds hmem) hB₃
  obtain ⟨b₁, r₁, b₂, r₂, hb₁, hr₁, hb₂, hr₂, hconverged⟩ :=
    converged hcmds hc hcA₁ hcB₁ haddsA₁ haddsA₂ haddsB₁ haddsB₂ hretried
  rw [← hdb] at hconverged
  refine ⟨b₁, r₁, b₂, r₂, hb₁.found hcA₂ ?_, hr₁.found hcA₂ ?_, hb₂.found hcB₃ ?_,
    hr₂.found hcB₃ ?_, hconverged, hconverged.balances, hconverged.movements⟩
  · rw [hconverged.inOrder]
    simp
  · rw [hconverged.inOrder]
    simp
  · rw [hconverged.outOfOrder]
    simp
  · rw [hconverged.outOfOrder]
    simp

end

/-! ## A rollback that arrives before its bet -/

def betOnce : SubmitWagerTransactionCommand := submitCommand .bet "bet-1" none (uuidText 10)

def rollbackOfBet : SubmitWagerTransactionCommand :=
  submitCommand .rollback "rollback-1" (some "bet-1") (uuidText 10)

/-- The first step of a run that picks `id` once it is due. -/
def picksAt (first : Nat) (id : Id) : Input :=
  ⟨1000 * first, fun k => uuidText (10 * first + k), [id], true⟩

/-- The configuration before the two calls, those after each of them in order, those out of order,
the row that waits, and the configuration after the run that retries it. -/
def rollbackInEitherOrder : Option (Config Shared Proc × Config Shared Proc × Config Shared Proc ×
    Config Shared Proc × Config Shared Proc × WagerTransaction × Config Shared Proc) := do
  let c ← exec (step localPlatform) initial (runCall 0 (.openWallet openCommand) 1 6)
  let cA₁ ← execAlone localPlatform 1 (.submit betOnce) (inputs 7 6) c
  let cA₂ ← execAlone localPlatform 2 (.submit rollbackOfBet) (inputs 13 8) cA₁
  let cB₁ ← execAlone localPlatform 1 (.submit rollbackOfBet) (inputs 21 7) c
  let cB₂ ← execAlone localPlatform 2 (.submit betOnce) (inputs 28 6) cB₁
  let waiting ← cB₂.shared.db.findByIdempotencyKey rollbackOfBet.idempotencyKey
  let cB₃ ← execAlone localPlatform 3 (.reprocess 20) (picksAt 50 waiting.id :: inputs 51 5) cB₂
  return (c, cA₁, cA₂, cB₁, cB₂, waiting, cB₃)

theorem exists_result {p : Proc} (h : p.outcome.any (·.isOk) = true) :
    ∃ result, p.outcome = some (.ok result) := by
  obtain ⟨out, hout, hok⟩ := (Option.any_eq_true _ _).mp h
  cases out with
  | error err => cases hok
  | ok result => exact ⟨result, hout⟩

theorem rollbackFirst_converges : ∃ c cA₂ cB₃ : Config Shared Proc, ∃ b₁ r₁ b₂ r₂,
    Reachable (step localPlatform) initial c ∧
      cA₂.shared.db.wagerTransactions.map (fun t => (t.kind, t.status)) =
        [(.opening, .processed), (.bet, .processed), (.rollback, .processed)] ∧
          Converged c.shared.db cA₂.shared.db cB₃.shared.db b₁ r₁ b₂ r₂ ∧
            SameBalances cA₂.shared.db cB₃.shared.db := by
  have hrun : rollbackInEitherOrder.any (fun out =>
      ((out.2.1.procs 1).outcome.any (·.isOk) && (out.2.2.1.procs 2).outcome.any (·.isOk)) &&
        ((out.2.2.2.1.procs 1).outcome.any (·.isOk) &&
          (out.2.2.2.2.1.procs 2).outcome.any (·.isOk)) &&
            decide ((out.2.2.2.2.2.2.procs 3).picked = some (20, 1)) &&
              (decide (Submit.Unclaimed out.1.shared.db betOnce) &&
                decide (Submit.Unclaimed out.1.shared.db rollbackOfBet)) &&
                  decide (out.2.2.1.shared.db.wagerTransactions.map (fun t => (t.kind, t.status)) =
                    [(.opening, .processed), (.bet, .processed), (.rollback, .processed)])) =
      true := by
    decide +kernel
  cases hout : rollbackInEitherOrder with
  | none =>
    rw [hout] at hrun
    cases hrun
  | some out =>
    rw [hout] at hrun
    simp only [Option.any_some, Bool.and_eq_true, decide_eq_true_eq] at hrun
    obtain ⟨⟨⟨⟨⟨hA₁, hA₂⟩, ⟨hB₁, hB₂⟩⟩, hB₃⟩, ⟨hfresh, hfresh'⟩⟩, hrows⟩ := hrun
    unfold rollbackInEitherOrder at hout
    obtain ⟨c, hexec, hrest⟩ := Option.bind_eq_some_iff.mp hout
    obtain ⟨cA₁, hexecA₁, hrest⟩ := Option.bind_eq_some_iff.mp hrest
    obtain ⟨cA₂, hexecA₂, hrest⟩ := Option.bind_eq_some_iff.mp hrest
    obtain ⟨cB₁, hexecB₁, hrest⟩ := Option.bind_eq_some_iff.mp hrest
    obtain ⟨cB₂, hexecB₂, hrest⟩ := Option.bind_eq_some_iff.mp hrest
    obtain ⟨waiting, hwaits, hrest⟩ := Option.bind_eq_some_iff.mp hrest
    obtain ⟨cB₃, hexecB₃, hrest⟩ := Option.bind_eq_some_iff.mp hrest
    obtain rfl := Option.some.inj hrest
    obtain ⟨outA₁, hA₁⟩ := exists_result hA₁
    obtain ⟨outA₂, hA₂⟩ := exists_result hA₂
    obtain ⟨outB₁, hB₁⟩ := exists_result hB₁
    obtain ⟨outB₂, hB₂⟩ := exists_result hB₂
    have hcmds : ReversalOf localPlatform c.shared.db betOnce rollbackOfBet :=
      ⟨Or.inl rfl, Or.inr rfl, rfl, rfl, by decide +kernel, by decide +kernel, hfresh, hfresh',
        by decide +kernel⟩
    have h := reachable_of_exec hexec
    have hsubmitA₁ := submitsAlone_of_exec h hexecA₁ hA₁
    have hsubmitA₂ := submitsAlone_of_exec (hsubmitA₁.1.reachable h) hexecA₂ hA₂
    have hsubmitB₁ := submitsAlone_of_exec h hexecB₁ hB₁
    have hsubmitB₂ := submitsAlone_of_exec (hsubmitB₁.1.reachable h) hexecB₂ hB₂
    have hretry := reprocessesAlone_of_exec hexecB₃ rfl hB₃
    obtain ⟨b₁, r₁, b₂, r₂, -, -, -, -, hconverged, hbalances, -⟩ := outOfOrder_converges h hcmds
      hsubmitA₁ hsubmitA₂ hsubmitB₁ hsubmitB₂ hwaits hretry
    exact ⟨c, cA₂, cB₃, b₁, r₁, b₂, r₂, h, hrows, hconverged, hbalances⟩

end WageringProcessor
