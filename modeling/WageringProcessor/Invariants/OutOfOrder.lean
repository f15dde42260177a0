import WageringProcessor.Invariants.Renaming
import WageringProcessor.Invariants.ReprocessAlone

/-!
# One request settled at once or after a wait

A reversal that finds its reference at once and one that waited for it come to the same settlement:
they ask the same of rows that are alike, on wallets that are alike.
-/

namespace WageringProcessor

open Library.Interleaving Library.Table WagerTransactionFinalizer

variable {P : Platform} {d d' : Database} {tx tx' x x' : WagerTransaction} {wallet wallet' : Wallet}
  {reference reference' : Option WagerTransaction} {credited : Bool} {ctx ctx' : EventContext}
  {newId newId' : Nat → Id} {cmd cmd' : SubmitWagerTransactionCommand} {g g' : Generated}
  {resolution : Option ReferenceResolution}

/-! ## Two settlements of one request -/

/-- The rows are of one request: they differ in their ids and in when they were created. -/
def SameRequest (t t' : CreateWagerTransactionProps) : Prop :=
  ∃ id createdAt, t = { t' with id := id, createdAt := createdAt }

/-- One request came to the same end. -/
structure SameSettlement (t t' : WagerTransaction) : Prop where
  request : SameRequest t.toCreateWagerTransactionProps t'.toCreateWagerTransactionProps
  status : t.status = t'.status
  failureCode : t.failureCode = t'.failureCode

/-- Neither row has undone anything, or each has undone the row whose id is given for it. -/
def SameLink (id id' : Option Id) (t t' : WagerTransaction) : Prop :=
  t.referenceTransactionId = none ∧ t'.referenceTransactionId = none ∨
    t.referenceTransactionId = id ∧ t'.referenceTransactionId = id'

/-- The entries of the transactions `id` and `id'`, up to their ids and times. -/
structure SameMovement (id id' : Id) (e e' : WalletLedgerEntry) : Prop where
  transactionId : e.transactionId = id
  transactionId' : e'.transactionId = id'
  rest : e = { e' with id := e.id, transactionId := e.transactionId, createdAt := e.createdAt }

/-- The messages about the transactions `id` and `id'`, up to their ids and times and to the call
that they trace back to. -/
structure SameReport (id id' : Id) (m m' : OutboxMessage) : Prop where
  transactionId : m.payload.data.transactionId = id
  transactionId' : m'.payload.data.transactionId = id'
  payload : m.payload = { m'.payload with
    eventId := m.payload.eventId
    correlationId := m.payload.correlationId
    causationId := m.payload.causationId
    occurredAt := m.payload.occurredAt
    data := m'.payload.data.withTransactionId id }
  rest : m = { m' with id := m.id, payload := m.payload, occurredAt := m.occurredAt }

/-- The rows of two settlements of one request. -/
structure SameRows (id id' : Id) (link link' : Option Id) (w w' : Writes) : Prop where
  wallets : List.Forall₂ SameWalletRow w.wallets w'.wallets
  row : ∃ t t', w.wagerTransactions = [t] ∧ w'.wagerTransactions = [t'] ∧ t.id = id ∧ t'.id = id' ∧
    SameSettlement t t' ∧ SameLink link link' t t'
  entries : List.Forall₂ (SameMovement id id') w.ledgerEntries w'.ledgerEntries
  messages : List.Forall₂ (SameReport id id') w.outboxMessages w'.outboxMessages

/-- What two settlements start from: nothing has been decided about either row. -/
structure SameStart (tx tx' : WagerTransaction) : Prop where
  request : SameRequest tx.toCreateWagerTransactionProps tx'.toCreateWagerTransactionProps
  failureCode : tx.failureCode = tx'.failureCode
  unlinked : tx.referenceTransactionId = none
  unlinked' : tx'.referenceTransactionId = none

/-- The wallets differ in when they were changed last. -/
def SameWalletState (wallet wallet' : Wallet) : Prop :=
  ∃ updatedAt, wallet = { wallet' with updatedAt := updatedAt }

theorem rejection_same (h : SameStart tx tx') (code : FailureCode) (link link' : Option Id)
    (eventId eventId' : Id) : SameRows tx.id tx'.id link link'
      (rejectionWrites P (rejectedTransaction tx code ctx.now) ctx eventId)
      (rejectionWrites P (rejectedTransaction tx' code ctx'.now) ctx' eventId') := by
  obtain ⟨⟨id, createdAt, hprops⟩, hcode, hnone, hnone'⟩ := h
  cases tx with
  | mk props status referenceId failureCode processedAt attempts retryAt =>
    cases tx' with
    | mk props' status' referenceId' failureCode' processedAt' attempts' retryAt' =>
      obtain rfl : props = { props' with id := id, createdAt := createdAt } := hprops
      refine ⟨.nil, ?_, .nil, ?_⟩
      · exact ⟨_, _, rfl, rfl, rfl, rfl, ⟨⟨id, createdAt, rfl⟩, rfl, rfl⟩, Or.inl ⟨hnone, hnone'⟩⟩
      · exact .cons ⟨rfl, rfl, rfl, rfl⟩ .nil

theorem refusal_same (hrequest : SameRequest tx.toCreateWagerTransactionProps
      tx'.toCreateWagerTransactionProps) (hwallet : SameWalletState wallet wallet') :
    refusal tx wallet credited = refusal tx' wallet' credited := by
  obtain ⟨id, createdAt, hprops⟩ := hrequest
  obtain ⟨updatedAt, rfl⟩ := hwallet
  have hkind : tx.kind = tx'.kind := by rw [hprops]
  have hmoney : tx.money = tx'.money := by rw [hprops]
  unfold refusal
  rw [hkind, hmoney]

theorem acceptance_same (h : SameStart tx tx') (hwallet : SameWalletState wallet wallet') :
    SameRows tx.id tx'.id (reference.map (·.id)) (reference'.map (·.id))
      (acceptance P tx wallet reference credited ctx newId).2.2
      (acceptance P tx' wallet' reference' credited ctx' newId').2.2 := by
  obtain ⟨⟨id, createdAt, hprops⟩, hcode, -, -⟩ := h
  obtain ⟨updatedAt, rfl⟩ := hwallet
  cases tx with
  | mk props status referenceId failureCode processedAt attempts retryAt =>
    cases tx' with
    | mk props' status' referenceId' failureCode' processedAt' attempts' retryAt' =>
      obtain rfl : props = { props' with id := id, createdAt := createdAt } := hprops
      unfold acceptance
      dsimp only
      by_cases hloss : props'.kind = .loss
      · rw [if_pos hloss, if_pos hloss]
        refine ⟨.nil, ?_, .nil, ?_⟩
        · exact ⟨_, _, rfl, rfl, rfl, rfl, ⟨⟨id, createdAt, rfl⟩, rfl, hcode⟩, Or.inr ⟨rfl, rfl⟩⟩
        · exact .cons ⟨rfl, rfl, rfl, rfl⟩ .nil
      · rw [if_neg hloss, if_neg hloss]
        refine ⟨.cons rfl .nil, ?_, .cons ⟨rfl, rfl, rfl⟩ .nil, ?_⟩
        · exact ⟨_, _, rfl, rfl, rfl, rfl, ⟨⟨id, createdAt, rfl⟩, rfl, hcode⟩, Or.inr ⟨rfl, rfl⟩⟩
        · exact .cons ⟨rfl, rfl, rfl, rfl⟩ (.cons ⟨rfl, rfl, rfl, rfl⟩ .nil)

theorem effect_sameRows (h : SameStart tx tx') (hwallet : SameWalletState wallet wallet') :
    SameRows tx.id tx'.id (reference.map (·.id)) (reference'.map (·.id))
      (effect P tx wallet reference credited ctx newId).2.2
      (effect P tx' wallet' reference' credited ctx' newId').2.2 := by
  have hsame : refusal tx wallet credited = refusal tx' wallet' credited :=
    refusal_same h.request hwallet
  cases hrefusal : refusal tx wallet credited with
  | some code =>
    rw [effect_refused hrefusal, effect_refused (hsame.symm.trans hrefusal)]
    exact rejection_same h code _ _ _ _
  | none =>
    rw [effect_accepted hrefusal, effect_accepted (hsame.symm.trans hrefusal)]
    exact acceptance_same h hwallet

/-! ## The same question about the same reference -/

/-- `x` is the row that `tx` names as its reference, and nothing of the kind has undone it. -/
structure Names (d : Database) (tx x : WagerTransaction) : Prop where
  present : ¬WagerTransaction.missingReference tx.referenceExternalTransactionId = true
  found : d.findByProviderAndExternalId tx.providerId
    (tx.referenceExternalTransactionId.getD "") = some x
  notReversed : NotReversed d tx x

theorem Names.resolves (h : Names d tx x) :
    resolveReference d tx = .ok (checkReference tx x) := by
  have hnone := notReversed_iff.mp h.notReversed
  have hfind : findReference d tx = .ok (checkReference tx x) := by
    unfold findReference
    rw [if_neg h.present, h.found]
  unfold resolveReference
  rw [hfind]
  cases hcheck : checkReference tx x with
  | pending => rfl
  | rejected code => rfl
  | resolved b =>
    obtain ⟨rfl, -⟩ := checkReference_resolved hcheck
    show Except.ok (findReversal d tx b) = _
    unfold findReversal
    rw [Option.isNone_iff_eq_none.mp hnone, Option.isSome_none, if_neg Bool.false_ne_true]

/-- A settled row is not waited for. -/
theorem checkReference_terminal (h : x.isTerminal = true) : checkReference tx x ≠ .pending := by
  intro hpending
  unfold checkReference at hpending
  split at hpending
  · cases hpending
  split at hpending
  · cases hpending
  split at hpending
  · rename_i hunsettled
    rcases WagerTransaction.isTerminal_iff.mp h with hstatus | hstatus | hstatus
    all_goals
      rw [hstatus] at hunsettled
      exact absurd hunsettled (by decide)
  split at hpending
  · cases hpending
  split at hpending
  · cases hpending
  · cases hpending

/-- Two rows of one request find the same of references that came to the same end. -/
theorem checkReference_same (hrequest : SameRequest tx.toCreateWagerTransactionProps
      tx'.toCreateWagerTransactionProps) (hx : SameSettlement x x')
    (hterminal : x.isTerminal = true) :
    (∃ code, checkReference tx x = .rejected code ∧ checkReference tx' x' = .rejected code) ∨
      checkReference tx x = .resolved x ∧ checkReference tx' x' = .resolved x' := by
  have hpending : checkReference tx x ≠ .pending := checkReference_terminal hterminal
  obtain ⟨id, createdAt, hprops⟩ := hrequest
  obtain ⟨⟨id', createdAt', hprops'⟩, hstatus, -⟩ := hx
  have howner : sameOwner tx x = sameOwner tx' x' := by
    unfold sameOwner
    rw [hprops, hprops']
  have hkind : validKind tx.kind x.kind = validKind tx'.kind x'.kind := by rw [hprops, hprops']
  have hmoney : tx.money.equals x.money = tx'.money.equals x'.money := by rw [hprops, hprops']
  unfold checkReference at hpending ⊢
  rw [howner, hkind, hmoney, hstatus] at hpending ⊢
  by_cases h₁ : (!sameOwner tx' x') = true
  · rw [if_pos h₁, if_pos h₁]
    exact Or.inl ⟨_, rfl, rfl⟩
  rw [if_neg h₁, if_neg h₁]
  by_cases h₂ : (!validKind tx'.kind x'.kind) = true
  · rw [if_pos h₂, if_pos h₂]
    exact Or.inl ⟨_, rfl, rfl⟩
  rw [if_neg h₂, if_neg h₂]
  rw [if_neg h₁, if_neg h₂] at hpending
  by_cases h₃ : (x'.status = .pending || x'.status = .pendingReference) = true
  · rw [if_pos h₃] at hpending
    exact absurd rfl hpending
  rw [if_neg h₃, if_neg h₃]
  by_cases h₄ : (x'.status = .rejected || x'.status = .failed) = true
  · rw [if_pos h₄, if_pos h₄]
    exact Or.inl ⟨_, rfl, rfl⟩
  rw [if_neg h₄, if_neg h₄]
  by_cases h₅ : (!tx'.money.equals x'.money) = true
  · rw [if_pos h₅, if_pos h₅]
    exact Or.inl ⟨_, rfl, rfl⟩
  rw [if_neg h₅, if_neg h₅]
  exact Or.inr ⟨rfl, rfl⟩

/-- What the database that a row is new to has not undone. -/
theorem notReversed_new (hc : Consistent P d) (hrequires : tx.requiresReference = true)
    (hnew : ∀ t ∈ d.wagerTransactions, t.id ≠ x.id) : NotReversed d tx x := by
  intro t ht hprocessed hkind hlink
  have hrequires' : t.requiresReference = true := by
    rw [WagerTransaction.requiresReference, hkind]
    exact hrequires
  obtain ⟨b, hb⟩ := (hc.rows t ht).reversal hprocessed hrequires'
  have hid : b.id = x.id := Option.some.inj (hb.referenceId.symm.trans hlink)
  exact hnew b hb.row hid

theorem NotReversed.append {added : List WagerTransaction} (h : NotReversed d tx x)
    (hrows : d'.wagerTransactions = d.wagerTransactions ++ added)
    (hadded : ∀ t ∈ added, t.status = .processed → t.kind ≠ tx.kind) : NotReversed d' tx x := by
  intro t ht hprocessed hkind
  rw [hrows] at ht
  rcases List.mem_append.mp ht with ht | ht
  · exact h t ht hprocessed hkind
  · exact absurd hkind (hadded t ht hprocessed)

/-- A reversal finds the row that it names among those that were added to a database which does not
have it. -/
theorem names_added {pre post : List WagerTransaction} (hc : Consistent P d)
    (hrows : d'.wagerTransactions = d.wagerTransactions ++ (pre ++ x :: post))
    (hrequires : tx.requiresReference = true)
    (hpresent : ¬WagerTransaction.missingReference tx.referenceExternalTransactionId = true)
    (hunknown : ∀ t ∈ d.wagerTransactions, (t.providerId, t.externalTransactionId) ≠
      (tx.providerId, tx.referenceExternalTransactionId.getD ""))
    (hpre : ∀ t ∈ pre, (t.providerId, t.externalTransactionId) ≠
      (tx.providerId, tx.referenceExternalTransactionId.getD ""))
    (hx : (x.providerId, x.externalTransactionId) =
      (tx.providerId, tx.referenceExternalTransactionId.getD ""))
    (hnew : ∀ t ∈ d.wagerTransactions, t.id ≠ x.id)
    (hadded : ∀ t ∈ pre ++ x :: post, t.status = .processed → t.kind ≠ tx.kind) :
    Names d' tx x := by
  refine ⟨hpresent, ?_, (notReversed_new hc hrequires hnew).append hrows hadded⟩
  unfold Database.findByProviderAndExternalId
  rw [hrows, ← List.append_assoc]
  refine lookup_append_cons (fun t ht => ?_) hx
  rcases List.mem_append.mp ht with ht | ht
  · exact hunknown t ht
  · exact hpre t ht

/-! ## A call that decides about its row -/

namespace Submit

theorem admission_taken (h : admission P d cmd = .ok none) : ¬Unclaimed d cmd := by
  intro hunclaimed
  have hkey : d.findByIdempotencyKey cmd.idempotencyKey = none :=
    lookup_eq_none.mpr hunclaimed.key
  have hexternal : d.findByProviderAndExternalId cmd.providerId cmd.externalTransactionId = none :=
    lookup_eq_none.mpr hunclaimed.external
  unfold admission at h
  rw [hkey, hexternal] at h
  split at h
  · cases h
  split at h
  · cases h
  split at h
  · cases h
  split at h
  · cases h
  split at h
  · cases h
  split at h
  · cases h
  · cases h

/-- A call for a key that nobody has claimed decides about its row, if it returns. -/
theorem Course.decides_of_ok {result : SubmitWagerTransactionResult} (h : Course P d cmd)
    (hunclaimed : Unclaimed d cmd) (hnew : g.New d)
    (hok : (execute P d cmd g).map Prod.fst = .ok result) :
    ∃ wallet resolution, Admitted P d cmd wallet ∧ Decides P d cmd wallet resolution g := by
  cases h with
  | refused admits =>
    rw [execute_eq, admits] at hok
    cases hok
  | taken admits => exact absurd hunclaimed (admission_taken admits)
  | unbalanced admits nothing answers =>
    rw [answers g hnew] at hok
    cases hok
  | settles admits moves decides => exact ⟨_, _, admission_eq_some admits, decides g hnew⟩

/-- The call has added the row that it decided about to `d`. -/
structure Adds (P : Platform) (cmd : SubmitWagerTransactionCommand) (d d' : Database)
    (wallet : Wallet) (resolution : Option ReferenceResolution) (g : Generated) : Prop where
  new : g.New d
  admitted : Admitted P d cmd wallet
  decides : Decides P d cmd wallet resolution g
  extends_ : Extends d d' (decided P cmd wallet resolution g).2.2

/-- `t` is a row of the call. -/
structure RowOf (cmd : SubmitWagerTransactionCommand) (g : Generated) (t : WagerTransaction) :
    Prop where
  id : t.id = g.transactionId
  idempotencyKey : t.idempotencyKey = cmd.idempotencyKey
  externalIds : (t.providerId, t.externalTransactionId) =
    (cmd.providerId, cmd.externalTransactionId)
  kind : t.kind = cmd.kind

theorem Decides.rowOf {t : WagerTransaction} (h : Decides P d cmd wallet resolution g)
    (ht : t ∈ (decided P cmd wallet resolution g).2.2.wagerTransactions) : RowOf cmd g t := by
  obtain ⟨tx', hrow, -⟩ := h.leaves.row
  have hprops : tx'.toCreateWagerTransactionProps = props P cmd g.transactionId g.now := hrow.props
  rw [hrow.mem ht]
  unfold toWagerTransactionEntity
  rw [hprops]
  exact ⟨rfl, rfl, rfl, rfl⟩

theorem Adds.unclaimed (h : Adds P cmd d d' wallet resolution g) (hunclaimed : Unclaimed d cmd')
    (hkeys : cmd.idempotencyKey ≠ cmd'.idempotencyKey)
    (hexternals : cmd.externalTransactionId ≠ cmd'.externalTransactionId) : Unclaimed d' cmd' := by
  refine ⟨fun t ht => ?_, fun t ht => ?_⟩
  · rw [h.extends_.wagerTransactions] at ht
    rcases List.mem_append.mp ht with ht | ht
    · exact hunclaimed.key t ht
    · rw [(h.decides.rowOf ht).idempotencyKey]
      exact hkeys
  · rw [h.extends_.wagerTransactions] at ht
    rcases List.mem_append.mp ht with ht | ht
    · exact hunclaimed.external t ht
    · rw [(h.decides.rowOf ht).externalIds]
      exact fun heq => hexternals (Prod.mk.inj heq).2

theorem Admitted.findWallet (h : Admitted P d cmd wallet) (hc : Consistent P d) :
    d.findWallet (P.canonical cmd.walletId) = some wallet := by
  obtain ⟨r, hr, rfl⟩ := h.found
  rw [Platform.canonical_of_uuid h.walletId]
  exact hc.findWallet hr

theorem Admitted.player_canonical (h : Admitted P d cmd wallet) (hc : Consistent P d) :
    P.canonical cmd.playerId = cmd.playerId := by
  obtain ⟨r, hr, rfl⟩ := h.found
  have hplayer : r.playerId = cmd.playerId := h.player
  have huuid := (hc.accounts r hr).player
  rw [hplayer] at huuid
  exact Platform.canonical_of_uuid huuid

/-! ## A reference that is not there yet -/

theorem resolve_unknown (hnew : g.New d) (hadmitted : Admitted P d cmd wallet)
    (hrequires : requiresReferenceFor cmd.kind = true)
    (hunknown : d.findByProviderAndExternalId cmd.providerId
      (cmd.referenceExternalTransactionId.getD "") = none)
    (hself : cmd.externalTransactionId ≠ cmd.referenceExternalTransactionId.getD "") :
    resolve P d (draft P cmd g) = .ok (some .pending) := by
  have hpresent : ¬WagerTransaction.missingReference cmd.referenceExternalTransactionId = true := by
    rw [hadmitted.reference hrequires]
    exact Bool.false_ne_true
  have hown : referenceOf P d cmd g = none := by
    rcases referenceOf_cases (P := P) hnew with ⟨t, hfound, -⟩ | ⟨-, hown⟩
    · rw [hunknown] at hfound
      cases hfound
    · rw [hown, if_neg fun heq => hself (Prod.mk.inj heq).2]
  have hneeds : (draft P cmd g).requiresReference = true := hrequires
  unfold resolve
  rw [if_pos hneeds, resolveReference, findReference_draft, if_neg hpresent, hown]
  rfl

/-- The row with which the call waits. -/
def parkedRow (P : Platform) (cmd : SubmitWagerTransactionCommand) (g : Generated) :
    WagerTransaction := toWagerTransactionEntity P (parkedTransaction (draft P cmd g) g.now)

/-- In canonical spelling the row that waits asks what the call asks. -/
theorem sameStart_parked (hwallet : P.canonical cmd.walletId = cmd.walletId)
    (hplayer : P.canonical cmd.playerId = cmd.playerId) (g g' : Generated) :
    SameStart (draft P cmd g) (parkedRow P cmd g') := by
  refine ⟨⟨g.transactionId, g.now, ?_⟩, rfl, rfl, rfl⟩
  show props P cmd g.transactionId g.now = { props P cmd g.transactionId g.now with
    walletId := P.canonical cmd.walletId, playerId := P.canonical cmd.playerId }
  rw [hwallet, hplayer]
  rfl

theorem sameStart_draft (P : Platform) (cmd : SubmitWagerTransactionCommand) (g g' : Generated) :
    SameStart (draft P cmd g) (draft P cmd g') :=
  ⟨⟨g.transactionId, g.now, rfl⟩, rfl, rfl, rfl⟩

end Submit

/-! ## In the system -/

theorem submitsAlone_adds {c c' : Config Shared Proc} {i : Pid}
    {result : SubmitWagerTransactionResult} (h : Reachable (step P) initial c)
    (hunclaimed : Submit.Unclaimed c.shared.db cmd)
    (hrun : SubmitsAlone P i cmd c c' (.ok result)) :
    ∃ wallet resolution g,
      Submit.Adds P cmd c.shared.db c'.shared.db wallet resolution g := by
  obtain ⟨g, hsubmitted⟩ := submitsAlone_submitted h hrun
  have hcourse := Submit.course (reachable_ok h).1.consistent cmd
  obtain ⟨wallet, resolution, hadmitted, hdecides⟩ :=
    hcourse.decides_of_ok hunclaimed hsubmitted.new hsubmitted.answer
  refine ⟨wallet, resolution, g, hsubmitted.new, hadmitted, hdecides, ?_⟩
  have hextends := hsubmitted.extends_
  rw [hdecides.committed, Submit.net_pair] at hextends
  exact hextends

/-! ## The reversal in the two orders -/

theorem findWallet_same (h : List.Forall₂ SameWalletRow d.wallets d'.wallets) {id : Id}
    (hfound : d.findWallet id = some wallet) (hfound' : d'.findWallet id = some wallet') :
    SameWalletState wallet wallet' := by
  obtain ⟨row, hrow, rfl⟩ := Option.map_eq_some_iff.mp hfound
  obtain ⟨row', hrow', rfl⟩ := Option.map_eq_some_iff.mp hfound'
  have hids : ∀ a b : WalletRow, SameWalletRow a b → a.id = b.id := fun _ _ => SameWalletRow.id
  have hrel : Option.Rel SameWalletRow (d.walletRow id) (d'.walletRow id) := rel_lookup hids h id
  rw [hrow, hrow'] at hrel
  cases hrel with
  | some hsame =>
    refine ⟨row.updatedAt, ?_⟩
    unfold SameWalletRow at hsame
    rw [hsame]
    rfl

/-- The call for a reversal that finds its reference, and the retry of the row that waited for
it. -/
theorem reversal_sameRows {dA dA' dB : Database} {b b' : WagerTransaction} {w : Writes}
    (hcA : Consistent P dA) (hadds : Submit.Adds P cmd dA dA' wallet resolution g)
    (hrequires : requiresReferenceFor cmd.kind = true)
    (hcanonical : P.isCanonical cmd.walletId = true)
    (hnames : Names (dA.apply (Submit.claimWrites P (Submit.draft P cmd g)))
      (Submit.draft P cmd g) b)
    (hnames' : Names dB (Submit.parkedRow P cmd g') b') (hsame : SameSettlement b b')
    (hterminal : b.isTerminal = true)
    (hwallets : List.Forall₂ SameWalletRow dA.wallets dB.wallets)
    (hretried : Reprocess.Retried P dB (Submit.parkedRow P cmd g') w) :
    SameRows g.transactionId g'.transactionId (some b.id) (some b'.id)
      (Submit.decided P cmd wallet resolution g).2.2 w := by
  have hneeds : (Submit.draft P cmd g).requiresReference = true := hrequires
  have hspelled : P.canonical cmd.walletId = cmd.walletId :=
    Platform.canonical_of_uuid (Platform.isCanonical_iff.mp hcanonical)
  have hstart := Submit.sameStart_parked hspelled (hadds.admitted.player_canonical hcA) g g'
  have hresolve := hadds.decides.resolves
  unfold Submit.resolve at hresolve
  rw [if_pos hneeds, hnames.resolves] at hresolve
  obtain rfl : some (checkReference (Submit.draft P cmd g) b) = resolution := Except.ok.inj hresolve
  have hretry := hnames'.resolves
  rcases checkReference_same hstart.request hsame hterminal with ⟨code, hcode, hcode'⟩ | ⟨hb, hb'⟩
  · rw [hcode'] at hretry
    rw [hcode]
    cases hretried with
    | waits resolves => cases hretry.symm.trans resolves
    | rejected code' ctx eventId resolves new =>
      obtain rfl := ReferenceResolution.rejected.inj (Except.ok.inj (hretry.symm.trans resolves))
      exact rejection_same hstart code _ _ _ _
    | applied b wallet ctx newId resolves found distinct new => cases hretry.symm.trans resolves
  · rw [hb'] at hretry
    rw [hb]
    cases hretried with
    | waits resolves => cases hretry.symm.trans resolves
    | rejected code' ctx eventId resolves new => cases hretry.symm.trans resolves
    | applied b'' wallet' ctx newId resolves found distinct new =>
      obtain rfl := ReferenceResolution.resolved.inj (Except.ok.inj (hretry.symm.trans resolves))
      have hkind : b.kind = b'.kind := by
        obtain ⟨id, createdAt, hprops⟩ := hsame.request
        rw [hprops]
      have hwallet := findWallet_same hwallets (hadds.admitted.findWallet hcA) found
      rw [← hkind]
      show SameRows _ _ ((some b).map (·.id)) ((some b').map (·.id))
        (effect P (Submit.draft P cmd g)
        wallet (some b) (b.kind ≠ .bet) _ g.newId).2.2 _
      exact effect_sameRows hstart hwallet

end WageringProcessor
