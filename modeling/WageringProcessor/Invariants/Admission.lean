import WageringProcessor.Invariants.Alone

/-!
# What a submit alone depends on

`admission` is all that comes before the row of the call matters: the refusals, and whether its
claim is taken.  What follows for the row is the decision on it, which depends on the values that
the call has drawn only where it copies them.
-/

namespace WageringProcessor

open Library.Interleaving Library.Table WagerTransactionFinalizer

variable {P : Platform} {d d' : Database} {cmd : SubmitWagerTransactionCommand} {wallet : Wallet}
  {tx : WagerTransaction} {ctx : EventContext} {g g' : Generated}
  {resolution : Option ReferenceResolution}

namespace Submit

/-- Nobody else holds anything. -/
abbrev Everything (_ : Resource) : Prop := True

/-- The row of the call as it is created. -/
def draft (P : Platform) (cmd : SubmitWagerTransactionCommand) (g : Generated) :
    WagerTransaction :=
  ⟨props P cmd g.transactionId g.now, .pending, none, none, none, 0, none⟩

/-- The wallet with which the call goes on from its claim; `none` where the claim is taken. -/
def admission (P : Platform) (d : Database) (cmd : SubmitWagerTransactionCommand) :
    Except Exception (Option Wallet) :=
  if cmd.kind = .opening then
    .error (.domain openingNotAccepted)
  else
    match P.uuid cmd.walletId with
    | none => .error .database
    | some id =>
      match d.findWallet id with
      | none => .error (.domain (.walletNotFound cmd.walletId))
      | some wallet =>
        if wallet.playerId ≠ cmd.playerId then
          .error (.domain (.walletPlayerMismatch cmd.walletId cmd.playerId))
        else if requiresReferenceFor cmd.kind &&
            WagerTransaction.missingReference cmd.referenceExternalTransactionId then
          .error (.domain (.missingReference cmd.kind.text))
        else if cmd.money.minorUnits < 0 then
          .error .database
        else if (d.findByIdempotencyKey cmd.idempotencyKey).isSome ||
            (d.findByProviderAndExternalId cmd.providerId cmd.externalTransactionId).isSome then
          .ok none
        else
          .ok (some wallet)

/-- What follows the admission. -/
def proceed (P : Platform) (d : Database) (cmd : SubmitWagerTransactionCommand) (g : Generated) :
    Option Wallet → Answer
  | none => handleClaimConflict P d cmd
  | some wallet => resolveAndSettle P d wallet (draft P cmd g)
      (eventContext cmd (draft P cmd g) g.correlationId) g.newId

theorem claim_draft (wallet : Wallet) : claim P d cmd wallet (draft P cmd g) g =
    if cmd.money.minorUnits < 0 then .error .database
    else if (d.findByIdempotencyKey cmd.idempotencyKey).isSome ||
        (d.findByProviderAndExternalId cmd.providerId cmd.externalTransactionId).isSome then
      handleClaimConflict P d cmd
    else proceed P d cmd g (some wallet) := by
  have hcheck : Database.violatesCheck (claimWrites P (draft P cmd g)) = true ↔
      cmd.money.minorUnits < 0 := by
    simp [Database.violatesCheck, claimWrites, toWagerTransactionEntity, draft, props]
  unfold claim
  rw [if_congr hcheck rfl rfl]
  rfl

theorem execute_eq (P : Platform) (d : Database) (cmd : SubmitWagerTransactionCommand)
    (g : Generated) : execute P d cmd g =
      match admission P d cmd with
      | .error err => .error err
      | .ok admitted => proceed P d cmd g admitted := by
  unfold execute admission processNew
  by_cases hopening : cmd.kind = .opening
  · rw [if_pos hopening, if_pos hopening]
  rw [if_neg hopening, if_neg hopening]
  cases huuid : P.uuid cmd.walletId with
  | none => rfl
  | some id =>
    dsimp only
    cases hfound : d.findWallet id with
    | none => rfl
    | some wallet =>
      dsimp only
      by_cases hplayer : wallet.playerId ≠ cmd.playerId
      · rw [if_pos hplayer, if_pos hplayer]
      rw [if_neg hplayer, if_neg hplayer]
      have hcreate : WagerTransaction.create (props P cmd g.transactionId g.now) =
          if requiresReferenceFor cmd.kind &&
              WagerTransaction.missingReference cmd.referenceExternalTransactionId then
            .error (.missingReference cmd.kind.text)
          else .ok (draft P cmd g) := if_neg hopening
      rw [hcreate]
      by_cases hmissing : (requiresReferenceFor cmd.kind &&
          WagerTransaction.missingReference cmd.referenceExternalTransactionId) = true
      · rw [if_pos hmissing, if_pos hmissing]
      rw [if_neg hmissing, if_neg hmissing]
      dsimp only
      rw [claim_draft]
      split
      · rfl
      split
      · rfl
      · rfl

/-- What the call has passed where it goes on with a wallet. -/
structure Admitted (P : Platform) (d : Database) (cmd : SubmitWagerTransactionCommand)
    (wallet : Wallet) : Prop where
  kind : cmd.kind ≠ .opening
  walletId : P.uuid cmd.walletId = some wallet.id
  found : ∃ r ∈ d.wallets, wallet = toWalletDomain r
  player : wallet.playerId = cmd.playerId
  reference : requiresReferenceFor cmd.kind = true →
    WagerTransaction.missingReference cmd.referenceExternalTransactionId = false
  money : 0 ≤ cmd.money.minorUnits
  unclaimed : Unclaimed d cmd

theorem admission_eq_some (h : admission P d cmd = .ok (some wallet)) :
    Admitted P d cmd wallet := by
  unfold admission at h
  split at h
  · cases h
  rename_i hkind
  split at h
  · cases h
  rename_i id huuid
  split at h
  · cases h
  rename_i wallet' hfound
  split at h
  · cases h
  rename_i hplayer
  split at h
  · cases h
  rename_i hmissing
  split at h
  · cases h
  rename_i hmoney
  split at h
  · cases h
  rename_i htaken
  obtain rfl := Option.some.inj (Except.ok.inj h)
  obtain ⟨r, hrow, rfl⟩ := Option.map_eq_some_iff.mp hfound
  obtain ⟨hr, rfl⟩ := lookup_mem hrow
  simp only [Bool.or_eq_true, not_or, Option.not_isSome_iff_eq_none] at htaken
  refine ⟨hkind, huuid, ⟨r, hr, rfl⟩, not_not.mp hplayer, fun hrequires => ?_, Int.not_lt.mp hmoney,
    lookup_eq_none.mp htaken.1, lookup_eq_none.mp htaken.2⟩
  rw [hrequires, Bool.true_and, Bool.not_eq_true] at hmissing
  exact hmissing

theorem Admitted.ready (h : Admitted P d cmd wallet) (hc : Consistent P d)
    (hnew : ∀ t ∈ d.wagerTransactions, t.id ≠ g.transactionId) :
    Ready P Everything d cmd wallet (draft P cmd g) := by
  obtain ⟨r, hr, hread⟩ := h.found
  have hnamed : r.id = P.canonical cmd.walletId := by
    rw [Platform.canonical_of_uuid h.walletId, hread]
    rfl
  have hdrafted : Drafted P Everything d cmd wallet (draft P cmd g) :=
    ⟨trivial, hnew, ⟨g.now, rfl⟩, h.kind, h.reference, ⟨r, trivial, hr, hread, hnamed⟩, h.walletId,
      h.player⟩
  exact hdrafted.ready hc h.money trivial h.unclaimed.key trivial h.unclaimed.external

/-! ## The resolution -/

/-- The rows that a call sees: its own comes last. -/
theorem claimed_rows (hnew : ∀ t ∈ d.wagerTransactions, t.id ≠ tx.id) :
    (d.apply (claimWrites P tx)).wagerTransactions =
      d.wagerTransactions ++ [toWagerTransactionEntity P tx] := upsert_of_fresh hnew

/-- No reference is found that has not been settled, so never the row of the call itself. -/
theorem checkReference_draft (P : Platform) (cmd : SubmitWagerTransactionCommand)
    (g g' : Generated) :
    checkReference (draft P cmd g') (toWagerTransactionEntity P (draft P cmd g')) =
      checkReference (draft P cmd g) (toWagerTransactionEntity P (draft P cmd g)) := by
  unfold checkReference
  rfl

theorem claimed_findByProviderAndExternalId (hnew : ∀ t ∈ d.wagerTransactions, t.id ≠ tx.id)
    (providerId externalTransactionId : String) :
    (d.apply (claimWrites P tx)).findByProviderAndExternalId providerId externalTransactionId =
      (d.findByProviderAndExternalId providerId externalTransactionId).or
        (if (tx.providerId, tx.externalTransactionId) = (providerId, externalTransactionId) then
          some (toWagerTransactionEntity P tx)
        else none) := by
  unfold Database.findByProviderAndExternalId lookup
  rw [claimed_rows hnew, List.find?_append, List.find?_singleton]
  congr 1
  exact if_congr decide_eq_true_iff rfl rfl

/-- The row of the call undoes nothing yet. -/
theorem claimed_findProcessedReversal (hnew : ∀ t ∈ d.wagerTransactions, t.id ≠ tx.id)
    (hreference : tx.referenceTransactionId = none) (id : Id) (kind : WagerTransactionKind) :
    (d.apply (claimWrites P tx)).findProcessedReversal id kind =
      d.findProcessedReversal id kind := by
  have hrow : (toWagerTransactionEntity P tx).referenceTransactionId = none := hreference
  unfold Database.findProcessedReversal
  rw [claimed_rows hnew, List.find?_append, List.find?_singleton, hrow, if_neg (by simp),
    Option.or_none]

/-- The row that the call finds as its reference. -/
def referenceOf (P : Platform) (d : Database) (cmd : SubmitWagerTransactionCommand)
    (g : Generated) : Option WagerTransaction :=
  (d.apply (claimWrites P (draft P cmd g))).findByProviderAndExternalId cmd.providerId
    (cmd.referenceExternalTransactionId.getD "")

theorem findReference_draft (P : Platform) (d : Database) (cmd : SubmitWagerTransactionCommand)
    (g : Generated) :
    findReference (d.apply (claimWrites P (draft P cmd g))) (draft P cmd g) =
      if WagerTransaction.missingReference cmd.referenceExternalTransactionId then
        .error (.invariantViolation "resolveReference chamado numa transação sem referência")
      else
        .ok ((referenceOf P d cmd g).elim .pending (checkReference (draft P cmd g))) := by
  unfold findReference
  refine if_congr Iff.rfl rfl (congrArg Except.ok ?_)
  show _ = (referenceOf P d cmd g).elim .pending (checkReference (draft P cmd g))
  cases hfound : referenceOf P d cmd g with
  | none =>
    rw [show (d.apply (claimWrites P (draft P cmd g))).findByProviderAndExternalId
      (draft P cmd g).providerId ((draft P cmd g).referenceExternalTransactionId.getD "") = none
        from hfound]
    rfl
  | some x =>
    rw [show (d.apply (claimWrites P (draft P cmd g))).findByProviderAndExternalId
      (draft P cmd g).providerId ((draft P cmd g).referenceExternalTransactionId.getD "") = some x
        from hfound]
    rfl

/-- The reference is a row of the database, or the call finds its own row. -/
theorem referenceOf_cases (hnew : ∀ t ∈ d.wagerTransactions, t.id ≠ g.transactionId) :
    (∃ x, d.findByProviderAndExternalId cmd.providerId
        (cmd.referenceExternalTransactionId.getD "") = some x ∧ referenceOf P d cmd g = some x) ∨
      d.findByProviderAndExternalId cmd.providerId
          (cmd.referenceExternalTransactionId.getD "") = none ∧
        referenceOf P d cmd g =
          if (cmd.providerId, cmd.externalTransactionId) =
              (cmd.providerId, cmd.referenceExternalTransactionId.getD "") then
            some (toWagerTransactionEntity P (draft P cmd g))
          else none := by
  have hclaimed := @claimed_findByProviderAndExternalId P d (draft P cmd g) hnew
    cmd.providerId (cmd.referenceExternalTransactionId.getD "")
  cases hfound : d.findByProviderAndExternalId cmd.providerId
      (cmd.referenceExternalTransactionId.getD "") with
  | some x =>
    rw [hfound, Option.some_or] at hclaimed
    exact Or.inl ⟨x, rfl, hclaimed⟩
  | none =>
    rw [hfound, Option.none_or] at hclaimed
    exact Or.inr ⟨rfl, hclaimed⟩

theorem checkReference_referenceOf (hnew : ∀ t ∈ d.wagerTransactions, t.id ≠ g.transactionId)
    (hnew' : ∀ t ∈ d'.wagerTransactions, t.id ≠ g'.transactionId)
    (hreference : d'.findByProviderAndExternalId cmd.providerId
        (cmd.referenceExternalTransactionId.getD "") =
      d.findByProviderAndExternalId cmd.providerId (cmd.referenceExternalTransactionId.getD "")) :
    (referenceOf P d' cmd g').elim .pending (checkReference (draft P cmd g')) =
      (referenceOf P d cmd g).elim .pending (checkReference (draft P cmd g)) := by
  rcases referenceOf_cases (P := P) hnew with ⟨x, hfound, hx⟩ | ⟨hfound, hown⟩
  · rcases referenceOf_cases (P := P) hnew' with ⟨x', hfound', hx'⟩ | ⟨hfound', -⟩
    · rw [hreference, hfound] at hfound'
      obtain rfl := Option.some.inj hfound'
      rw [hx, hx']
      rfl
    · rw [hreference, hfound] at hfound'
      cases hfound'
  · rcases referenceOf_cases (P := P) hnew' with ⟨x', hfound', hx'⟩ | ⟨hfound', hown'⟩
    · rw [hreference, hfound] at hfound'
      cases hfound'
    · rw [hown, hown']
      split
      · exact checkReference_draft P cmd g g'
      · rfl

/-- What is found for the reference does not depend on what else is in the database. -/
theorem resolve_congr (hnew : ∀ t ∈ d.wagerTransactions, t.id ≠ g.transactionId)
    (hnew' : ∀ t ∈ d'.wagerTransactions, t.id ≠ g'.transactionId)
    (hreference : ¬WagerTransaction.missingReference cmd.referenceExternalTransactionId = true →
      d'.findByProviderAndExternalId cmd.providerId
          (cmd.referenceExternalTransactionId.getD "") =
        d.findByProviderAndExternalId cmd.providerId
          (cmd.referenceExternalTransactionId.getD ""))
    (hreversal : ∀ b ∈ d.wagerTransactions, b.walletId = cmd.walletId →
      (d'.findProcessedReversal b.id cmd.kind).isSome =
        (d.findProcessedReversal b.id cmd.kind).isSome) :
    resolve P d' (draft P cmd g') = resolve P d (draft P cmd g) := by
  unfold resolve
  refine if_congr Iff.rfl (congrArg (Except.map some) ?_) rfl
  unfold resolveReference
  rw [findReference_draft, findReference_draft]
  by_cases hmissing :
      WagerTransaction.missingReference cmd.referenceExternalTransactionId = true
  · rw [if_pos hmissing, if_pos hmissing]
    rfl
  rw [if_neg hmissing, if_neg hmissing,
    checkReference_referenceOf (P := P) hnew hnew' (hreference hmissing)]
  cases hresolution : (referenceOf P d cmd g).elim .pending (checkReference (draft P cmd g)) with
  | pending => rfl
  | rejected code => rfl
  | resolved b =>
    -- a resolved reference is a row of the database, and of the wallet that the call names
    have hb : b ∈ d.wagerTransactions ∧ b.walletId = cmd.walletId := by
      rcases referenceOf_cases (P := P) hnew with ⟨x, hfound, hx⟩ | ⟨-, hown⟩
      · rw [hx] at hresolution
        obtain ⟨rfl, howner, -⟩ := checkReference_resolved hresolution
        unfold sameOwner at howner
        simp only [Bool.and_eq_true, decide_eq_true_eq] at howner
        exact ⟨(lookup_mem hfound).1, howner.1.1.2⟩
      · rw [hown] at hresolution
        split at hresolution
        · obtain ⟨-, -, -, hprocessed, -⟩ := checkReference_resolved hresolution
          cases hprocessed
        · cases hresolution
    show Except.ok (findReversal _ (draft P cmd g') b) =
      Except.ok (findReversal _ (draft P cmd g) b)
    unfold findReversal
    rw [@claimed_findProcessedReversal P _ (draft P cmd g) hnew rfl,
      @claimed_findProcessedReversal P _ (draft P cmd g') hnew' rfl]
    rw [show (d'.findProcessedReversal b.id (draft P cmd g').kind).isSome =
      (d.findProcessedReversal b.id (draft P cmd g).kind).isSome from hreversal b hb.1 hb.2]

theorem Ready.resolves {own : Resource → Prop} (h : Ready P own d cmd wallet tx)
    (hc : Consistent P d) :
    ∃ resolution, resolve P d tx = .ok resolution ∧ ResolutionOk P d tx resolution := by
  unfold resolve
  by_cases hrequires : tx.requiresReference = true
  · rw [if_pos hrequires]
    have hpresent :
        ¬WagerTransaction.missingReference tx.referenceExternalTransactionId = true := by
      have hreference := h.reference (h.requiresReference.symm.trans hrequires)
      obtain ⟨now, hprops⟩ := h.props_eq
      rw [show tx.referenceExternalTransactionId = cmd.referenceExternalTransactionId from
        congrArg (·.referenceExternalTransactionId) hprops, hreference]
      exact Bool.false_ne_true
    cases hfind : findReference (d.apply (claimWrites P tx)) tx with
    | error err =>
      unfold findReference at hfind
      rw [if_neg hpresent] at hfind
      cases hfind
    | ok found =>
      unfold resolveReference
      rw [hfind]
      cases found with
      | pending => exact ⟨_, rfl, hrequires⟩
      | rejected code => exact ⟨_, rfl, findReference_rejected hrequires hfind⟩
      | resolved reference =>
        refine ⟨_, rfl, ?_⟩
        show ResolutionOk P d tx (some (findReversal (d.apply (claimWrites P tx)) tx reference))
        unfold findReversal
        split
        · exact hrequires
        · exact h.reference_ok hc hrequires hfind
  · rw [if_neg hrequires]
    exact ⟨none, rfl, Bool.eq_false_iff.mpr hrequires⟩

/-! ## The course of the call -/

/-- What the call commits where nothing refuses it. -/
def decided (P : Platform) (cmd : SubmitWagerTransactionCommand) (wallet : Wallet)
    (resolution : Option ReferenceResolution) (g : Generated) :
    WagerTransaction × Wallet × Writes :=
  decision P wallet (draft P cmd g) (eventContext cmd (draft P cmd g) g.correlationId) g.newId
    resolution

/-- With the values that it has drawn the call commits its decision. -/
structure Decides (P : Platform) (d : Database) (cmd : SubmitWagerTransactionCommand)
    (wallet : Wallet) (resolution : Option ReferenceResolution) (g : Generated) : Prop where
  ready : Ready P Everything d cmd wallet (draft P cmd g)
  resolves : resolve P d (draft P cmd g) = .ok resolution
  fits : ResolutionOk P d (draft P cmd g) resolution
  executes : execute P d cmd g = .ok
    (⟨(decided P cmd wallet resolution g).1, false,
      (decided P cmd wallet resolution g).2.1.balance⟩,
      [claimWrites P (draft P cmd g), (decided P cmd wallet resolution g).2.2])

/-- The call would move its wallet by nothing, which the wallet refuses with an exception. -/
structure MovesNothing (cmd : SubmitWagerTransactionCommand) (wallet : Wallet) : Prop where
  unreferenced : requiresReferenceFor cmd.kind = false
  kind : cmd.kind ≠ .loss
  currency : cmd.money.currency = wallet.currency
  zero : cmd.money.minorUnits = 0

/-- What a call comes to, whatever it draws. -/
inductive Course (P : Platform) (d : Database) (cmd : SubmitWagerTransactionCommand) : Prop
  | refused {err : Exception} (admits : admission P d cmd = .error err)
  | taken (admits : admission P d cmd = .ok none)
  | unbalanced {wallet : Wallet} (admits : admission P d cmd = .ok (some wallet))
      (nothing : MovesNothing cmd wallet) (answers : ∀ g : Generated, g.New d →
        execute P d cmd g = .error (.domain .unbalancedLedgerEntry))
  | settles {wallet : Wallet} {resolution : Option ReferenceResolution}
      (admits : admission P d cmd = .ok (some wallet)) (moves : ¬MovesNothing cmd wallet)
      (decides : ∀ g : Generated, g.New d → Decides P d cmd wallet resolution g)

theorem handleClaimConflict_quiet (P : Platform) (d : Database)
    (cmd : SubmitWagerTransactionCommand) :
    ∃ out : Except Exception SubmitWagerTransactionResult,
      handleClaimConflict P d cmd = out.map (·, []) := by
  unfold handleClaimConflict
  split
  · split
    · exact ⟨.ok _, rfl⟩
    · exact ⟨.error _, rfl⟩
  · unfold externalTaken
    split
    · exact ⟨.error _, rfl⟩
    · exact ⟨.error _, rfl⟩

theorem admission_execute {admitted : Option Wallet} (h : admission P d cmd = .ok admitted)
    (g : Generated) : execute P d cmd g = proceed P d cmd g admitted := by
  rw [execute_eq, h]

/-- The call gives one answer and writes nothing, or it commits a decision. -/
theorem Course.quiet_or (h : Course P d cmd) :
    (∃ out : Except Exception SubmitWagerTransactionResult,
        ∀ g : Generated, g.New d → execute P d cmd g = out.map (·, [])) ∨
      ∃ wallet resolution, Admitted P d cmd wallet ∧
        ∀ g : Generated, g.New d → Decides P d cmd wallet resolution g := by
  cases h with
  | @refused err admits =>
    refine Or.inl ⟨.error err, fun g _ => ?_⟩
    rw [execute_eq, admits]
    rfl
  | taken admits =>
    obtain ⟨out, hout⟩ := handleClaimConflict_quiet P d cmd
    exact Or.inl ⟨out, fun g _ => (admission_execute admits g).trans hout⟩
  | unbalanced admits nothing answers => exact Or.inl ⟨.error _, answers⟩
  | settles admits moves decides => exact Or.inr ⟨_, _, admission_eq_some admits, decides⟩

theorem resolve_none (h : resolve P d tx = .ok resolution) :
    resolution = none ↔ tx.requiresReference = false := by
  unfold resolve at h
  by_cases hrequires : tx.requiresReference = true
  · rw [if_pos hrequires] at h
    obtain ⟨found, -, rfl⟩ := ok_of_map h
    rw [hrequires]
    exact ⟨fun hnone => absurd hnone (Option.some_ne_none found), fun hfalse => absurd hfalse.symm
      Bool.false_ne_true⟩
  · rw [if_neg hrequires] at h
    rw [← Except.ok.inj h]
    exact ⟨fun _ => Bool.eq_false_iff.mpr hrequires, fun _ => rfl⟩

/-- The amounts with which the decision does not throw. -/
theorem amountOk_iff (hadmitted : Admitted P d cmd wallet)
    (hresolve : resolve P d (draft P cmd g) = .ok resolution) :
    AmountOk wallet (draft P cmd g) resolution ↔ ¬MovesNothing cmd wallet := by
  have hnone := resolve_none hresolve
  have hmoney := hadmitted.money
  constructor
  · intro hamount hnothing
    have hpositive : 0 < cmd.money.minorUnits :=
      hamount (hnone.mpr hnothing.unreferenced) hnothing.kind hnothing.currency
    rw [hnothing.zero] at hpositive
    exact absurd hpositive (lt_irrefl 0)
  · intro hmoves hunreferenced hkind hcurrency
    by_contra hle
    have hzero : cmd.money.minorUnits = 0 := le_antisymm (Int.not_lt.mp hle) hmoney
    exact hmoves ⟨hnone.mp hunreferenced, hkind, hcurrency, hzero⟩

theorem course (hc : Consistent P d) (cmd : SubmitWagerTransactionCommand) : Course P d cmd := by
  cases hadmission : admission P d cmd with
  | error err => exact .refused hadmission
  | ok admitted =>
    cases admitted with
    | none => exact .taken hadmission
    | some wallet =>
      have hadmitted := admission_eq_some hadmission
      obtain ⟨new, hnew₀⟩ := exists_new d
      -- what is found for the reference is the same for every row that the call may insert
      obtain ⟨resolution, hresolve₀, hfits₀⟩ :=
        (hadmitted.ready (g := ⟨0, new, new, fun _ => new⟩) hc hnew₀).resolves hc
      have hresolve : ∀ g : Generated, g.New d → resolve P d (draft P cmd g) = .ok resolution :=
        fun g hnew => (resolve_congr hnew₀ hnew (fun _ => rfl) fun _ _ _ => rfl).trans hresolve₀
      have hfits : ∀ g : Generated, g.New d → ResolutionOk P d (draft P cmd g) resolution := by
        intro g hnew
        obtain ⟨resolution', hresolve', hfits'⟩ := (hadmitted.ready hc hnew).resolves hc
        rw [hresolve g hnew] at hresolve'
        obtain rfl := Except.ok.inj hresolve'
        exact hfits'
      have hsettle : ∀ g : Generated, g.New d → execute P d cmd g =
          settle P wallet (draft P cmd g) (eventContext cmd (draft P cmd g) g.correlationId)
            g.newId resolution := by
        intro g hnew
        rw [admission_execute hadmission]
        unfold proceed resolveAndSettle
        dsimp only
        rw [hresolve g hnew]
      by_cases hmoves : ¬MovesNothing cmd wallet
      · refine .settles hadmission hmoves fun g hnew =>
          ⟨hadmitted.ready hc hnew, hresolve g hnew, hfits g hnew, ?_⟩
        rw [hsettle g hnew, settle, decide_eq hc (hadmitted.ready hc hnew) (hfits g hnew)
          ((amountOk_iff hadmitted (hresolve g hnew)).mpr hmoves)]
        rfl
      · refine .unbalanced hadmission (not_not.mp hmoves) fun g hnew => ?_
        rw [hsettle g hnew, settle, decide_zero (hadmitted.ready hc hnew) hc (hfits g hnew)
          fun hamount => hmoves ((amountOk_iff hadmitted (hresolve g hnew)).mp hamount)]

end Submit

end WageringProcessor
