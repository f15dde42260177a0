import WageringProcessor.Invariants.Admission

/-!
# What a submit alone leaves for others

The rows that a submit commits are its own: its transaction, which is new, one entry and one version
of its wallet.  A call that names another wallet, another key and other external ids does not see
them.
-/

namespace WageringProcessor

open Library.Interleaving Library.Table WagerTransactionFinalizer

variable {P : Platform} {d d' : Database} {cmd : SubmitWagerTransactionCommand} {wallet : Wallet}
  {tx : WagerTransaction} {ctx : EventContext} {newId : Nat → Id} {g : Generated}
  {resolution : Option ReferenceResolution} {reference : Option WagerTransaction} {credited : Bool}
  {w : Writes} {ws : List Writes}

/-! ## The rows of a decision -/

/-- The rows that settle `tx`, which undoes nothing but a reference that was resolved. -/
structure Leaves (P : Platform) (tx : WagerTransaction) (wallet : Wallet)
    (resolution : Option ReferenceResolution) (newId : Nat → Id) (w : Writes) : Prop where
  wallets : w.wallets = [] ∨ ∃ wallet', w.wallets = [toWalletEntity P wallet'] ∧
    wallet'.id = wallet.id ∧ wallet'.playerId = wallet.playerId
  row : ∃ tx', WritesRow P tx tx' w ∧ (tx'.referenceTransactionId = none ∨
    ∃ b, resolution = some (.resolved b) ∧ tx'.referenceTransactionId = some b.id)
  entries : ∀ e ∈ w.ledgerEntries, e.walletId = wallet.id
  messages : (w.outboxMessages.map OutboxMessage.id).Sublist [newId 1, newId 2]
  inbox : w.inboxMessages = []

theorem sublist_first (a b : Id) : [a].Sublist [a, b] :=
  List.Sublist.cons_cons a (List.nil_sublist _)

/-- The reference with which a transaction is accepted is the one that was resolved. -/
def Referenced (resolution : Option ReferenceResolution) (reference : Option WagerTransaction) :
    Prop :=
  reference = none ∨ ∃ b, resolution = some (.resolved b) ∧ reference = some b

theorem Referenced.id (h : Referenced resolution reference) : reference.map (·.id) = none ∨
    ∃ b, resolution = some (.resolved b) ∧ reference.map (·.id) = some b.id := by
  rcases h with rfl | ⟨b, hb, rfl⟩
  · exact Or.inl rfl
  · exact Or.inr ⟨b, hb, rfl⟩

theorem acceptance_leaves (h : Referenced resolution reference) :
    Leaves P tx wallet resolution newId
      (acceptance P tx wallet reference credited ctx newId).2.2 := by
  unfold acceptance
  dsimp only
  split
  · exact ⟨Or.inl rfl, ⟨_, ⟨rfl, rfl⟩, h.id⟩, fun e he => absurd he List.not_mem_nil,
      sublist_first _ _, rfl⟩
  · refine ⟨Or.inr ⟨_, rfl, rfl, rfl⟩, ⟨_, ⟨rfl, rfl⟩, h.id⟩, fun e he => ?_, List.Sublist.refl _,
      rfl⟩
    rw [List.mem_singleton.mp he]
    rfl

theorem effect_leaves (hnone : tx.referenceTransactionId = none)
    (h : Referenced resolution reference) : Leaves P tx wallet resolution newId
      (effect P tx wallet reference credited ctx newId).2.2 := by
  cases hrefusal : refusal tx wallet credited with
  | some code =>
    rw [effect_refused hrefusal]
    exact ⟨Or.inl rfl, ⟨_, ⟨rfl, rfl⟩, Or.inl hnone⟩, fun e he => absurd he List.not_mem_nil,
      sublist_first _ _, rfl⟩
  | none =>
    rw [effect_accepted hrefusal]
    exact acceptance_leaves h

namespace Submit

theorem decision_leaves (hnone : tx.referenceTransactionId = none) :
    Leaves P tx wallet resolution newId (decision P wallet tx ctx newId resolution).2.2 := by
  match resolution with
  | some .pending | some (.rejected code) =>
    exact ⟨Or.inl rfl, ⟨_, ⟨rfl, rfl⟩, Or.inl hnone⟩, fun e he => absurd he List.not_mem_nil,
      sublist_first _ _, rfl⟩
  | some (.resolved b) => exact effect_leaves hnone (Or.inr ⟨b, rfl, rfl⟩)
  | none => exact effect_leaves hnone (Or.inl rfl)

end Submit

/-! ## What they change -/

/-- `d'` has the rows of `d`, those of `w` after them and the wallets as `w` has them. -/
structure Extends (d d' : Database) (w : Writes) : Prop where
  wallets : d'.wallets = upsertAll WalletRow.id d.wallets w.wallets
  wagerTransactions : d'.wagerTransactions = d.wagerTransactions ++ w.wagerTransactions
  ledgerEntries : d'.ledgerEntries = d.ledgerEntries ++ w.ledgerEntries
  outboxMessages : d'.outboxMessages = d.outboxMessages ++ w.outboxMessages
  inboxMessages : d'.inboxMessages = d.inboxMessages

theorem extends_nothing (d : Database) : Extends d d {} :=
  ⟨rfl, (List.append_nil _).symm, (List.append_nil _).symm, (List.append_nil _).symm, rfl⟩

/-- The claim is replaced by what the call makes of it. -/
theorem claimed_wagerTransactions (h : Leaves P tx wallet resolution newId w)
    (hnew : ∀ t ∈ d.wagerTransactions, t.id ≠ tx.id) :
    (d.applyAll [Submit.claimWrites P tx, w]).wagerTransactions =
      d.wagerTransactions ++ w.wagerTransactions := by
  obtain ⟨tx', hrow, -⟩ := h.row
  have hid : (toWagerTransactionEntity P tx).id = (toWagerTransactionEntity P tx').id :=
    congrArg (·.id) hrow.props.symm
  show upsertAll (·.id) (upsert (·.id) d.wagerTransactions (toWagerTransactionEntity P tx))
    w.wagerTransactions = d.wagerTransactions ++ w.wagerTransactions
  rw [hrow.row]
  show upsert (·.id) (upsert (·.id) d.wagerTransactions (toWagerTransactionEntity P tx))
    (toWagerTransactionEntity P tx') = d.wagerTransactions ++ [toWagerTransactionEntity P tx']
  rw [show upsert (·.id) (upsert (·.id) d.wagerTransactions (toWagerTransactionEntity P tx))
      (toWagerTransactionEntity P tx') =
    upsert (·.id) d.wagerTransactions (toWagerTransactionEntity P tx') from upsert_upsert hid]
  refine upsert_of_fresh fun t ht heq => hnew t ht ?_
  rw [heq]
  exact hid.symm

theorem extends_claimed (h : Leaves P tx wallet resolution newId w)
    (hnew : ∀ t ∈ d.wagerTransactions, t.id ≠ tx.id)
    (hmessages : ∀ m ∈ d.outboxMessages, m.id ≠ newId 1 ∧ m.id ≠ newId 2)
    (hne : newId 1 ≠ newId 2) :
    Extends d (d.applyAll [Submit.claimWrites P tx, w]) w := by
  refine ⟨rfl, claimed_wagerTransactions h hnew, ?_, ?_, ?_⟩
  · show d.ledgerEntries ++ [] ++ w.ledgerEntries = d.ledgerEntries ++ w.ledgerEntries
    rw [List.append_nil]
  · have hids : [newId 1, newId 2].Nodup := by simpa using hne
    refine upsertAll_of_fresh (hids.sublist h.messages) fun m hm m' hm' => ?_
    have hmem := h.messages.subset (List.mem_map_of_mem hm)
    rcases List.mem_cons.mp hmem with hfirst | hsecond
    · rw [hfirst]
      exact (hmessages m' hm').1
    · rw [List.mem_singleton.mp hsecond]
      exact (hmessages m' hm').2
  · show upsertAll InboxMessage.key (upsertAll InboxMessage.key d.inboxMessages [])
        w.inboxMessages =
      d.inboxMessages
    rw [h.inbox]
    rfl

/-! ## Who does not see them -/

/-- `cmd` names none of the rows: not their wallet, not their key and not their external ids. -/
structure Unrelated (P : Platform) (d : Database) (cmd : SubmitWagerTransactionCommand)
    (w : Writes) : Prop where
  wallets : ∀ r ∈ w.wallets, r.id ≠ P.canonical cmd.walletId
  key : ∀ t ∈ w.wagerTransactions, t.idempotencyKey ≠ cmd.idempotencyKey
  external : ∀ t ∈ w.wagerTransactions, (t.providerId, t.externalTransactionId) ≠
    (cmd.providerId, cmd.externalTransactionId)
  reference : ∀ externalId, cmd.referenceExternalTransactionId = some externalId →
    ∀ t ∈ w.wagerTransactions, (t.providerId, t.externalTransactionId) ≠
      (cmd.providerId, externalId)
  undone : ∀ t ∈ w.wagerTransactions, ∀ b ∈ d.wagerTransactions,
    t.referenceTransactionId = some b.id → b.walletId ≠ P.canonical cmd.walletId

namespace Unrelated

variable (h : Unrelated P d cmd w) (he : Extends d d' w)
include h he

theorem findWallet : d'.findWallet (P.canonical cmd.walletId) =
    d.findWallet (P.canonical cmd.walletId) := by
  unfold Database.findWallet Database.walletRow
  rw [he.wallets, lookup_upsertAll_of_ne h.wallets]

theorem findByIdempotencyKey : d'.findByIdempotencyKey cmd.idempotencyKey =
    d.findByIdempotencyKey cmd.idempotencyKey := by
  unfold Database.findByIdempotencyKey
  rw [he.wagerTransactions, lookup_append_of_ne h.key]

theorem findByExternal :
    d'.findByProviderAndExternalId cmd.providerId cmd.externalTransactionId =
      d.findByProviderAndExternalId cmd.providerId cmd.externalTransactionId := by
  unfold Database.findByProviderAndExternalId
  rw [he.wagerTransactions, lookup_append_of_ne h.external]

theorem findReference
    (hpresent : ¬WagerTransaction.missingReference cmd.referenceExternalTransactionId = true) :
    d'.findByProviderAndExternalId cmd.providerId
        (cmd.referenceExternalTransactionId.getD "") =
      d.findByProviderAndExternalId cmd.providerId
        (cmd.referenceExternalTransactionId.getD "") := by
  cases hreference : cmd.referenceExternalTransactionId with
  | none =>
    rw [hreference] at hpresent
    exact absurd rfl hpresent
  | some externalId =>
    unfold Database.findByProviderAndExternalId
    rw [he.wagerTransactions]
    exact lookup_append_of_ne (h.reference externalId hreference)

theorem findProcessedReversal {b : WagerTransaction} (hb : b ∈ d.wagerTransactions)
    (hwallet : b.walletId = P.canonical cmd.walletId) (kind : WagerTransactionKind) :
    d'.findProcessedReversal b.id kind = d.findProcessedReversal b.id kind := by
  unfold Database.findProcessedReversal
  have hnone : w.wagerTransactions.find? (fun t => t.referenceTransactionId = some b.id &&
      t.kind = kind && t.status = .processed) = none := by
    rw [List.find?_eq_none]
    intro t ht htrue
    simp only [Bool.and_eq_true, decide_eq_true_eq] at htrue
    exact h.undone t ht b hb htrue.1.1 hwallet
  rw [he.wagerTransactions, List.find?_append, hnone, Option.or_none]

theorem admission_eq : Submit.admission P d' cmd = Submit.admission P d cmd := by
  have hwallet : ∀ id, P.uuid cmd.walletId = some id → d'.findWallet id = d.findWallet id := by
    intro id huuid
    rw [← Platform.canonical_of_uuid huuid]
    exact h.findWallet he
  unfold Submit.admission
  rw [h.findByIdempotencyKey he, h.findByExternal he]
  cases huuid : P.uuid cmd.walletId with
  | none => rfl
  | some id =>
    dsimp only
    rw [hwallet id huuid]

/-- A replay is of a row of the wallet that the call names. -/
theorem handleClaimConflict_eq (hinj : Function.Injective P.sha256) (hc : Consistent P d) :
    Submit.handleClaimConflict P d' cmd = Submit.handleClaimConflict P d cmd := by
  unfold Submit.handleClaimConflict
  rw [h.findByIdempotencyKey he]
  cases hfound : d.findByIdempotencyKey cmd.idempotencyKey with
  | none =>
    unfold Submit.externalTaken
    rw [h.findByExternal he]
  | some byKey =>
    dsimp only
    refine if_ctx_congr Iff.rfl (fun hmatches => ?_) fun _ => rfl
    have hpayload := (Submit.matchesPayload_iff hinj hc (lookup_mem hfound).1).mp hmatches
    have hwallet : P.canonical cmd.walletId = byKey.walletId :=
      Platform.canonical_of_uuid hpayload.walletId
    unfold Submit.replay
    rw [← hwallet, h.findWallet he]

theorem proceed_eq (hinj : Function.Injective P.sha256) (hc : Consistent P d) (hnew : g.New d)
    (hnew' : g.New d') (admitted : Option Wallet) :
    Submit.proceed P d' cmd g admitted = Submit.proceed P d cmd g admitted := by
  cases admitted with
  | none => exact h.handleClaimConflict_eq he hinj hc
  | some wallet =>
    have hresolve : Submit.resolve P d' (Submit.draft P cmd g) =
        Submit.resolve P d (Submit.draft P cmd g) := by
      refine Submit.resolve_congr hnew hnew' (h.findReference he) fun b hb hwallet => ?_
      have hcanonical : b.walletId = P.canonical cmd.walletId := by
        rw [← hwallet]
        exact (Platform.canonical_of_uuid (hc.rows b hb).identity.wallet).symm
      rw [h.findProcessedReversal he hb hcanonical]
    unfold Submit.proceed Submit.resolveAndSettle
    dsimp only
    rw [hresolve]

/-- The call does what it would do without the rows. -/
theorem execute_eq (hinj : Function.Injective P.sha256) (hc : Consistent P d) (hnew : g.New d)
    (hnew' : g.New d') : Submit.execute P d' cmd g = Submit.execute P d cmd g := by
  rw [Submit.execute_eq, Submit.execute_eq, h.admission_eq he]
  cases Submit.admission P d cmd with
  | error err => rfl
  | ok admitted => exact h.proceed_eq he hinj hc hnew hnew' admitted

end Unrelated

/-! ## A call and its rows -/

/-- The commands name different wallets, keys and external ids, and neither names the other's
transaction as its reference. -/
structure Unconnected (P : Platform) (cmd₁ cmd₂ : SubmitWagerTransactionCommand) : Prop where
  wallets : P.canonical cmd₁.walletId ≠ P.canonical cmd₂.walletId
  keys : cmd₁.idempotencyKey ≠ cmd₂.idempotencyKey
  externalIds : (cmd₁.providerId, cmd₁.externalTransactionId) ≠
    (cmd₂.providerId, cmd₂.externalTransactionId)
  reference : ¬(cmd₁.providerId = cmd₂.providerId ∧
    cmd₁.referenceExternalTransactionId = some cmd₂.externalTransactionId)
  referenced : ¬(cmd₂.providerId = cmd₁.providerId ∧
    cmd₂.referenceExternalTransactionId = some cmd₁.externalTransactionId)

theorem Unconnected.symm {cmd₁ cmd₂ : SubmitWagerTransactionCommand}
    (h : Unconnected P cmd₁ cmd₂) : Unconnected P cmd₂ cmd₁ :=
  ⟨h.wallets.symm, h.keys.symm, h.externalIds.symm, h.referenced, h.reference⟩

/-- The rows belong to the wallet and to the transaction that `cmd` names. -/
structure OwnRows (P : Platform) (d : Database) (cmd : SubmitWagerTransactionCommand) (w : Writes) :
    Prop where
  wallets : ∀ r ∈ w.wallets, r.id = P.canonical cmd.walletId ∧ ∃ r' ∈ d.wallets, r'.id = r.id
  rows : ∀ t ∈ w.wagerTransactions, t.idempotencyKey = cmd.idempotencyKey ∧
    (t.providerId, t.externalTransactionId) = (cmd.providerId, cmd.externalTransactionId) ∧
      t.walletId = P.canonical cmd.walletId ∧ ∀ b ∈ d.wagerTransactions,
        t.referenceTransactionId = some b.id → b.walletId = P.canonical cmd.walletId
  entries : ∀ e ∈ w.ledgerEntries, e.walletId = P.canonical cmd.walletId

theorem OwnRows.unrelated {cmd₁ cmd₂ : SubmitWagerTransactionCommand} (h : OwnRows P d cmd₁ w)
    (hcmds : Unconnected P cmd₁ cmd₂) : Unrelated P d cmd₂ w := by
  refine ⟨fun r hr => ?_, fun t ht => ?_, fun t ht => ?_, fun externalId hnamed t ht heq => ?_,
    fun t ht b hb hundoes => ?_⟩
  · rw [(h.wallets r hr).1]
    exact hcmds.wallets
  · rw [(h.rows t ht).1]
    exact hcmds.keys
  · rw [(h.rows t ht).2.1]
    exact hcmds.externalIds
  · rw [(h.rows t ht).2.1] at heq
    obtain ⟨hprovider, hexternal⟩ := Prod.mk.inj heq
    exact hcmds.referenced ⟨hprovider.symm, hexternal ▸ hnamed⟩
  · rw [(h.rows t ht).2.2.2 b hb hundoes]
    exact hcmds.wallets

/-- Nothing that belongs to the wallet was changed. -/
structure Untouched (d d' : Database) (walletId : Id) : Prop where
  wallet : d'.walletRow walletId = d.walletRow walletId
  entries : d'.entriesOfWallet walletId = d.entriesOfWallet walletId
  transactions : (d'.wagerTransactions.filter fun t => t.walletId = walletId) =
    d.wagerTransactions.filter fun t => t.walletId = walletId

theorem OwnRows.untouched {walletId : Id} (h : OwnRows P d cmd w) (he : Extends d d' w)
    (hne : P.canonical cmd.walletId ≠ walletId) : Untouched d d' walletId := by
  have hentries : w.ledgerEntries.filter (fun e => e.walletId = walletId) = [] := by
    rw [List.filter_eq_nil_iff]
    intro e hentry
    rw [h.entries e hentry, decide_eq_true_eq]
    exact hne
  have hrows : w.wagerTransactions.filter (fun t => t.walletId = walletId) = [] := by
    rw [List.filter_eq_nil_iff]
    intro t ht
    rw [(h.rows t ht).2.2.1, decide_eq_true_eq]
    exact hne
  refine ⟨?_, ?_, ?_⟩
  · unfold Database.walletRow
    rw [he.wallets]
    refine lookup_upsertAll_of_ne fun r hr => ?_
    rw [(h.wallets r hr).1]
    exact hne
  · unfold Database.entriesOfWallet
    rw [he.ledgerEntries, List.filter_append, hentries, List.append_nil]
  · rw [he.wagerTransactions, List.filter_append, hrows, List.append_nil]

namespace Submit

/-- The rows that a call adds or changes in the end. -/
def net (ws : List Writes) : Writes := ws.getLast?.getD {}

@[simp] theorem net_nil : net [] = {} := rfl

@[simp] theorem net_pair (w₁ w₂ : Writes) : net [w₁, w₂] = w₂ := rfl

theorem Decides.committed (h : Decides P d cmd wallet resolution g) :
    committed (execute P d cmd g) =
      [claimWrites P (draft P cmd g), (decided P cmd wallet resolution g).2.2] := by
  rw [h.executes]
  rfl

theorem Decides.leaves (_ : Decides P d cmd wallet resolution g) :
    Leaves P (draft P cmd g) wallet resolution g.newId (decided P cmd wallet resolution g).2.2 :=
  decision_leaves rfl

/-- What a call commits: nothing, or its decision. -/
theorem Course.net_eq (h : Course P d cmd) (hnew : g.New d) :
    committed (execute P d cmd g) = [] ∨
      ∃ wallet resolution, Admitted P d cmd wallet ∧ Decides P d cmd wallet resolution g := by
  rcases h.quiet_or with ⟨out, answers⟩ | ⟨wallet, resolution, hadmitted, hdecides⟩
  · rw [answers g hnew]
    cases out with
    | ok result => exact Or.inl rfl
    | error err => exact Or.inl rfl
  · exact Or.inr ⟨wallet, resolution, hadmitted, hdecides g hnew⟩

theorem Course.extends (h : Course P d cmd) (hnew : g.New d)
    (hws : committed (execute P d cmd g) = ws) (hids : (g.written ws).Nodup)
    (hfresh : ∀ id ∈ g.written ws, ∀ m ∈ d.outboxMessages, m.id ≠ id) :
    Extends d (d.applyAll ws) (net ws) := by
  rcases h.net_eq hnew with hnothing | ⟨wallet, resolution, -, hdecides⟩
  · rw [hnothing] at hws
    subst hws
    exact extends_nothing d
  · rw [hdecides.committed] at hws
    subst hws
    rw [net_pair]
    have hwritten : g.written [claimWrites P (draft P cmd g),
        (decided P cmd wallet resolution g).2.2] = g.ids := if_neg (List.cons_ne_nil _ _)
    rw [hwritten] at hids hfresh
    refine extends_claimed hdecides.leaves hnew (fun m hm => ⟨?_, ?_⟩) ?_
    · exact hfresh (g.newId 1) (by simp [Generated.ids]) m hm
    · exact hfresh (g.newId 2) (by simp [Generated.ids]) m hm
    · have hpair : [g.newId 1, g.newId 2].Nodup := hids.sublist (List.drop_sublist 3 g.ids)
      simpa using hpair

theorem Course.ownRows (h : Course P d cmd) (hc : Consistent P d) (hnew : g.New d) :
    OwnRows P d cmd (net (committed (execute P d cmd g))) := by
  rcases h.net_eq hnew with hnothing | ⟨wallet, resolution, hadmitted, hdecides⟩
  · rw [hnothing, net_nil]
    exact ⟨fun _ h => absurd h List.not_mem_nil, fun _ h => absurd h List.not_mem_nil,
      fun _ h => absurd h List.not_mem_nil⟩
  rw [hdecides.committed, net_pair]
  have hleaves := hdecides.leaves
  obtain ⟨tx', hrow, hreference⟩ := hleaves.row
  have hwallet := Platform.canonical_of_uuid hadmitted.walletId
  refine ⟨fun r hr => ?_, fun t ht => ?_, fun e he => (hleaves.entries e he).trans hwallet.symm⟩
  · rcases hleaves.wallets with hnone | ⟨wallet', hone, hid, -⟩
    · rw [hnone] at hr
      cases hr
    · rw [hone] at hr
      obtain ⟨r', hr', hread⟩ := hadmitted.found
      rw [List.mem_singleton.mp hr, hwallet]
      refine ⟨hid, r', hr', ?_⟩
      show r'.id = wallet'.id
      rw [hid, hread]
      rfl
  · rw [hrow.mem ht]
    refine ⟨congrArg (·.idempotencyKey) hrow.props,
      congrArg (fun p => (p.providerId, p.externalTransactionId)) hrow.props,
      congrArg (fun p : CreateWagerTransactionProps => P.canonical p.walletId) hrow.props,
      fun b hb hundoes => ?_⟩
    rcases hreference with hnone | ⟨b', rfl, hb'⟩
    · cases hnone.symm.trans hundoes
    · -- what the call undoes is a transaction of its own wallet
      have hfits : ReferenceOk P d (draft P cmd g) (some b') := hdecides.fits
      obtain ⟨b'', hsome, hrow', hreverses⟩ := hfits.referenced (ReferenceOk.requires hfits)
      obtain rfl := Option.some.inj hsome
      have hid : b'.id = b.id := Option.some.inj (hb'.symm.trans hundoes)
      rw [← List.inj_on_of_nodup_map hc.transactionIds hrow' hb hid]
      exact hreverses.walletId

end Submit

/-! ## In the system -/

section

variable {c c' : Config Shared Proc} {i : Pid}
  {out : Except Exception SubmitWagerTransactionResult}

/-- What a call that ran alone with the values `g` has left. -/
structure Submitted (P : Platform) (cmd : SubmitWagerTransactionCommand)
    (c c' : Config Shared Proc) (out : Except Exception SubmitWagerTransactionResult)
    (g : Generated) : Prop where
  new : g.New c.shared.db
  answer : (Submit.execute P c.shared.db cmd g).map Prod.fst = out
  extends_ : Extends c.shared.db c'.shared.db
    (Submit.net (Submit.committed (Submit.execute P c.shared.db cmd g)))
  drew : Drew c.shared c'.shared
    (g.written (Submit.committed (Submit.execute P c.shared.db cmd g)))
  drawn : ∀ id, c.shared.drawn id → c'.shared.drawn id

theorem submitsAlone_submitted (h : Reachable (step P) initial c)
    (hrun : SubmitsAlone P i cmd c c' out) : ∃ g, Submitted P cmd c c' out g := by
  obtain ⟨g, ws, hnew, hout, rfl, hdb, hdrew, hmono⟩ := submitsAlone_executes h hrun
  have hs := (reachable_ok h).1
  refine ⟨g, hnew, hout, ?_, hdrew, hmono⟩
  rw [hdb]
  exact (Submit.course hs.consistent cmd).extends hnew rfl hdrew.nodup fun id hid m hm heq =>
    hdrew.new id hid (heq ▸ hs.drawn.messages m hm)

end

end WageringProcessor
