import WageringProcessor.Invariants.Executing

/-!
# A call whose claim is taken

What `execute` does for a key, or a `(providerId, externalTransactionId)`, that is already
committed: it locks the wallet, finds the claim taken, and answers from the committed row.
-/

namespace WageringProcessor

open Library.Interleaving Library.Table

variable {P : Platform} {i j : Pid} {s s' : Shared} {d d' : Database}
  {own : Resource → Prop} {cmd : SubmitWagerTransactionCommand} {t t' : WagerTransaction}
  {inp : Input} {stage stage' : SubmitStage} {wallet : Wallet} {tx : WagerTransaction}

namespace Submit

/-! ## The calls and the rows that stand in their way -/

/-- The guards that come before the claim let the call pass. -/
structure Admissible (P : Platform) (d : Database) (cmd : SubmitWagerTransactionCommand) :
    Prop where
  kind : cmd.kind ≠ .opening
  wallet : ∃ r ∈ d.wallets, P.uuid cmd.walletId = some r.id ∧ r.playerId = cmd.playerId
  reference : requiresReferenceFor cmd.kind = true →
    WagerTransaction.missingReference cmd.referenceExternalTransactionId = false
  money : 0 ≤ cmd.money.minorUnits

/-- `t` was committed for the key and the payload of the call. -/
structure Recorded (P : Platform) (d : Database) (cmd : SubmitWagerTransactionCommand)
    (t : WagerTransaction) : Prop where
  row : t ∈ d.wagerTransactions
  key : t.idempotencyKey = cmd.idempotencyKey
  payload : PayloadOf P t.toCreateWagerTransactionProps cmd.payload

/-- The key of the call was committed with another payload, or what it submits under another key. -/
inductive Conflicts (P : Platform) (d : Database) (cmd : SubmitWagerTransactionCommand) : Prop
  | key (t : WagerTransaction) (row : t ∈ d.wagerTransactions)
      (key : t.idempotencyKey = cmd.idempotencyKey)
      (payload : ¬PayloadOf P t.toCreateWagerTransactionProps cmd.payload)
  | external (t : WagerTransaction) (row : t ∈ d.wagerTransactions)
      (external : (t.providerId, t.externalTransactionId) =
        (cmd.providerId, cmd.externalTransactionId))
      (key : t.idempotencyKey ≠ cmd.idempotencyKey)

theorem Admissible.stable (h : Admissible P d cmd) (hk : Keeps d d') : Admissible P d' cmd := by
  obtain ⟨r, hr, hid, hplayer⟩ := h.wallet
  obtain ⟨r', hr', hid', hplayer', -⟩ := hk.wallets r hr
  exact { h with wallet := ⟨r', hr', hid'.symm ▸ hid, hplayer'.trans hplayer⟩ }

theorem Recorded.stable (h : Recorded P d cmd t) (hk : Keeps d d') : ∃ t',
    t'.toCreateWagerTransactionProps = t.toCreateWagerTransactionProps ∧ Recorded P d' cmd t' := by
  obtain ⟨t', ht', hprops⟩ := hk.rows t h.row
  refine ⟨t', hprops, ht', ?_, ?_⟩
  · rw [hprops]
    exact h.key
  · rw [hprops]
    exact h.payload

theorem Conflicts.stable (h : Conflicts P d cmd) (hk : Keeps d d') : Conflicts P d' cmd := by
  cases h with
  | key t row key payload =>
    obtain ⟨t', ht', hprops⟩ := hk.rows t row
    refine .key t' ht' ?_ ?_
    · rw [hprops]
      exact key
    · rw [hprops]
      exact payload
  | external t row external key =>
    obtain ⟨t', ht', hprops⟩ := hk.rows t row
    refine .external t' ht' ?_ ?_
    · rw [hprops]
      exact external
    · rw [hprops]
      exact key

/-- The digest that the code compares decides whether the payload is the row's. -/
theorem matchesPayload_iff (hinj : Function.Injective P.sha256) (hc : Consistent P d)
    (ht : t ∈ d.wagerTransactions) : t.matchesPayload (cmd.payloadHash P) = true ↔
      PayloadOf P t.toCreateWagerTransactionProps cmd.payload := by
  have hidentity := (hc.rows t ht).identity
  simp only [WagerTransaction.matchesPayload, decide_eq_true_eq]
  constructor
  · intro hhash
    have hkind : t.kind ≠ .opening := by
      intro hopening
      exact P.sha256_ne_internal _ (hhash.symm.trans (hidentity.opening hopening))
    obtain ⟨payload, hpayload⟩ := hidentity.submitted hkind
    rw [computePayloadHash_inj hinj (hhash.symm.trans hpayload.hash)]
    exact hpayload
  · intro hpayload
    exact hpayload.hash

theorem Recorded.matches (h : Recorded P d cmd t) : t.matchesPayload (cmd.payloadHash P) = true :=
  decide_eq_true h.payload.hash

/-- A call whose transaction was committed would pass the guards again. -/
theorem Recorded.admissible (h : Recorded P d cmd t) (hc : Consistent P d) :
    Admissible P d cmd := by
  obtain ⟨hrow, hkey, hpayload⟩ := h
  have hidentity := (hc.rows t hrow).identity
  have hkind : cmd.kind = t.kind := WagerTransactionKind.text_injective hpayload.kind
  obtain ⟨w, hw, hid, hplayer⟩ := hidentity.owner
  refine ⟨fun hopening => ?_, ⟨w, hw, hid.symm ▸ hpayload.walletId, ?_⟩, fun hrequires => ?_, ?_⟩
  · have hinternal := hidentity.opening (hkind ▸ hopening)
    exact P.sha256_ne_internal _ (hpayload.hash.symm.trans hinternal)
  · exact hplayer.trans hpayload.playerId.symm
  · have hreference : cmd.referenceExternalTransactionId = t.referenceExternalTransactionId :=
      hpayload.reference
    rw [hreference]
    exact hidentity.reference (hkind ▸ hrequires)
  · have hamount : minorUnitsToDecimalString cmd.money.minorUnits =
        minorUnitsToDecimalString t.money.minorUnits := congrArg (·.amount) hpayload.money
    have hnonneg := hidentity.money
    by_contra hneg
    have hminus := (minus_mem_iff cmd.money.minorUnits).mpr (by omega)
    rw [hamount] at hminus
    have := (minus_mem_iff t.money.minorUnits).mp hminus
    omega

/-- A key that is recorded is not in conflict. -/
theorem Recorded.not_conflicts (h : Recorded P d cmd t) (hc : Consistent P d) :
    ¬Conflicts P d cmd := by
  intro hconflicts
  cases hconflicts with
  | key t' row key payload =>
    obtain rfl := List.inj_on_of_nodup_map hc.idempotencyKeys row h.row (key.trans h.key.symm)
    exact payload h.payload
  | external t' row external key =>
    have hexternal : (t.providerId, t.externalTransactionId) =
        (cmd.providerId, cmd.externalTransactionId) :=
      Prod.ext h.payload.providerId.symm h.payload.externalTransactionId.symm
    obtain rfl := List.inj_on_of_nodup_map hc.externalIds row h.row (external.trans hexternal.symm)
    exact key h.key

/-- What the call submits was committed under some key. -/
def ExternalTaken (d : Database) (cmd : SubmitWagerTransactionCommand) : Prop :=
  ∃ t ∈ d.wagerTransactions, (t.providerId, t.externalTransactionId) =
    (cmd.providerId, cmd.externalTransactionId)

theorem ExternalTaken.stable (h : ExternalTaken d cmd) (hk : Keeps d d') :
    ExternalTaken d' cmd := by
  obtain ⟨t, ht, hexternal⟩ := h
  obtain ⟨t', ht', hprops⟩ := hk.rows t ht
  refine ⟨t', ht', ?_⟩
  rw [hprops]
  exact hexternal

/-- Without a row under the key the conflict is about what the call submits. -/
theorem Conflicts.externalTaken (h : Conflicts P d cmd)
    (hkey : ∀ t ∈ d.wagerTransactions, t.idempotencyKey ≠ cmd.idempotencyKey) :
    ExternalTaken d cmd := by
  cases h with
  | key t row key _ => exact absurd key (hkey t row)
  | external t row external _ => exact ⟨t, row, external⟩

/-! ## The steps up to the claim -/

theorem create_eq (hkind : cmd.kind ≠ .opening)
    (hreference : requiresReferenceFor cmd.kind = true →
      WagerTransaction.missingReference cmd.referenceExternalTransactionId = false)
    (id : Id) (now : Date) : WagerTransaction.create (props P cmd id now) =
      .ok ⟨props P cmd id now, .pending, none, none, none, 0, none⟩ := by
  have hmissing : ¬(requiresReferenceFor (props P cmd id now).kind &&
      WagerTransaction.missingReference
        (props P cmd id now).referenceExternalTransactionId) = true := by
    intro h
    obtain ⟨hrequires, hmissing⟩ := Bool.and_eq_true_iff.mp h
    exact Bool.false_ne_true ((hreference hrequires).symm.trans hmissing)
  have hkind' : (props P cmd id now).kind ≠ .opening := hkind
  unfold WagerTransaction.create
  rw [if_neg hkind', if_neg hmissing]

/-- A call that the guards let pass goes on to its claim. -/
theorem step_lockWallet_admissible {now : Date} (hc : Consistent P s.db)
    (hadmissible : Admissible P s.db cmd)
    (hstep : step P cmd i inp s (.lockWallet now) = some (s', stage')) :
    ∃ wallet tx, stage' = .claimKey wallet tx := by
  obtain ⟨r, hr, huuid, hplayer⟩ := hadmissible.wallet
  cases step_way hstep with
  | noUuid uuid => cases huuid.symm.trans uuid
  | noWallet uuid missing =>
    obtain rfl := Option.some.inj (huuid.symm.trans uuid)
    cases (hc.findWallet hr).symm.trans missing
  | otherPlayer locks player =>
    obtain rfl := hc.wallet_inj hr locks.row (Option.some.inj (huuid.symm.trans locks.uuid))
    exact absurd hplayer player
  | invalid _ _ _ create =>
    rw [create_eq hadmissible.kind hadmissible.reference] at create
    cases create
  | drafted => exact ⟨_, _, rfl⟩

theorem Drafted.external (h : Drafted P own d cmd wallet tx) :
    (tx.providerId, tx.externalTransactionId) = (cmd.providerId, cmd.externalTransactionId) := by
  obtain ⟨now, hprops⟩ := h.props_eq
  rw [hprops]
  rfl

/-! ## A replay -/

/-- The stages of a call whose transaction is committed; it answers with one of `stored`. -/
def Replaying (stored : WagerTransaction → Prop) : SubmitStage → Prop
  | .begin | .lockWallet _ | .claimKey _ _ | .findByKey => True
  | .findWallet byKey => stored byKey
  | .returned result => result.idempotentReplay = true ∧ stored result.transaction
  | _ => False

theorem Replaying.mono {stored stored' : WagerTransaction → Prop}
    (h : ∀ t, stored t → stored' t) (hstage : Replaying stored stage) :
    Replaying stored' stage := by
  cases stage with
  | findWallet byKey => exact h byKey hstage
  | returned result => exact ⟨hstage.1, h _ hstage.2⟩
  | _ => exact hstage

theorem step_replaying {stored : WagerTransaction → Prop} (hc : Consistent P s.db)
    (hrecorded : Recorded P s.db cmd t) (hstored : stored t)
    (hok : Ok P (owns s i) s.db cmd stage) (hstage : Replaying stored stage)
    (hstep : step P cmd i inp s stage = some (s', stage')) : Replaying stored stage' := by
  have hadmissible := hrecorded.admissible hc
  have hfound : s.db.findByIdempotencyKey cmd.idempotencyKey = some t := by
    rw [← hrecorded.key]
    exact lookup_of_mem hc.idempotencyKeys hrecorded.row
  cases step_way hstep with
  | begin | drafted | keyTaken => trivial
  | opening kind => exact absurd kind hadmissible.kind
  | noUuid | noWallet | otherPlayer | invalid =>
    obtain ⟨wallet, tx, heq⟩ := step_lockWallet_admissible hc hadmissible hstep
    cases heq
  | unclaimable check =>
    exact absurd ((Drafted.violatesCheck_iff hok).mp check) (not_lt.mpr hadmissible.money)
  | keyClaimed _ _ free =>
    rw [Drafted.key hok] at free
    cases hfound.symm.trans free
  | noKey missing => cases hfound.symm.trans missing
  | sameKey found =>
    obtain rfl := Option.some.inj (hfound.symm.trans found)
    exact hstored
  | otherPayload found matching =>
    obtain rfl := Option.some.inj (hfound.symm.trans found)
    cases hrecorded.matches.symm.trans matching
  | replayed => exact ⟨rfl, hstage⟩
  | _ => exact hstage.elim

/-! ## A conflict -/

def conflictError (cmd : SubmitWagerTransactionCommand) (err : Exception) : Prop :=
  ∃ detail, err = .domain (.idempotencyConflict cmd.idempotencyKey detail)

/-- The stages of a call in conflict; where `admitted` holds, the guards let it pass. -/
def Refusing (admitted : Prop) (d : Database) (cmd : SubmitWagerTransactionCommand) :
    SubmitStage → Prop
  | .begin | .lockWallet _ | .claimKey _ _ | .findByKey => True
  | .claimExternal _ _ | .findByExternal => ExternalTaken d cmd
  | .threw err => admitted → conflictError cmd err
  | _ => False

theorem Refusing.stable {admitted : Prop} (hk : Keeps d d') (h : Refusing admitted d cmd stage) :
    Refusing admitted d' cmd stage := by
  cases stage with
  | claimExternal | findByExternal => exact ExternalTaken.stable h hk
  | _ => exact h

theorem step_refusing {admitted : Prop} (hinj : Function.Injective P.sha256)
    (hc : Consistent P s.db) (hconflicts : Conflicts P s.db cmd)
    (hadmitted : admitted → Admissible P s.db cmd)
    (hok : Ok P (owns s i) s.db cmd stage) (hstage : Refusing admitted s.db cmd stage)
    (hstep : step P cmd i inp s stage = some (s', stage')) :
    Refusing admitted s.db cmd stage' := by
  cases step_way hstep with
  | begin | drafted | keyTaken | externalTaken => trivial
  | opening kind => exact fun h => absurd kind (hadmitted h).kind
  | noUuid | noWallet | otherPlayer | invalid =>
    intro h
    obtain ⟨wallet, tx, heq⟩ := step_lockWallet_admissible hc (hadmitted h) hstep
    cases heq
  | unclaimable check =>
    intro h
    exact absurd ((Drafted.violatesCheck_iff hok).mp check) (not_lt.mpr (hadmitted h).money)
  | keyClaimed _ _ free =>
    rw [Drafted.key hok] at free
    exact hconflicts.externalTaken (lookup_eq_none.mp free)
  | referring _ free | unreferring _ free =>
    obtain ⟨t, ht, hexternal⟩ := hstage
    exact absurd (hexternal.trans hok.1.external.symm) (lookup_eq_none.mp free t ht)
  | noKey missing => exact hconflicts.externalTaken (lookup_eq_none.mp missing)
  | sameKey found matching =>
    -- the row under the key is the call's own, so nothing is in conflict
    obtain ⟨hrow, hkey⟩ := lookup_mem found
    have hpayload := (matchesPayload_iff hinj hc hrow).mp matching
    exact absurd hconflicts (Recorded.not_conflicts ⟨hrow, hkey, hpayload⟩ hc)
  | otherPayload => exact fun _ => ⟨none, rfl⟩
  | otherKey => exact fun _ => ⟨some externalConflict, rfl⟩
  | unexplained missing =>
    obtain ⟨t, ht, hexternal⟩ := hstage
    exact absurd hexternal (lookup_eq_none.mp missing t ht)
  | _ => exact hstage.elim

/-! ## Their end -/

/-- The resources that a call may have to wait for before its claim is decided. -/
def Awaits (P : Platform) (cmd : SubmitWagerTransactionCommand) : Resource → Prop
  | .wallet id => P.uuid cmd.walletId = some id
  | .idempotencyKey idempotencyKey => idempotencyKey = cmd.idempotencyKey
  | .external providerId externalTransactionId =>
    (providerId, externalTransactionId) = (cmd.providerId, cmd.externalTransactionId)
  | _ => False

/-- The steps that are left to a call whose claim is taken. -/
def stepsLeft : SubmitStage → Nat
  | .begin => 6
  | .lockWallet _ => 5
  | .claimKey _ _ => 4
  | .claimExternal _ _ => 3
  | .findByKey => 2
  | .findWallet _ | .findByExternal => 1
  | _ => 0

theorem step_stepsLeft (hstage : 0 < stepsLeft stage)
    (hstep : step P cmd i inp s stage = some (s', stage')) :
    stepsLeft stage' < stepsLeft stage := by
  cases step_way hstep with
  | unnamed | found | unresolved | resolved | undecided | duplicated | unflushed | decided =>
    cases hstage
  | _ => simp [stepsLeft]

/-- While nobody holds what the call awaits, its next step is possible. -/
theorem exists_step (newId : Nat → Id) (hstage : 0 < stepsLeft stage)
    (hok : Ok P (owns s i) s.db cmd stage)
    (htaken : ∀ wallet tx, stage = .claimExternal wallet tx → ExternalTaken s.db cmd)
    (hfree : ∀ k, Awaits P cmd k → s.locks k = none ∨ owns s i k)
    (hcanonical : P.isCanonical (newId 0) = true)
    (hfresh : 5 ≤ stepsLeft stage → ¬s.drawn (newId 0)) :
    ∃ out, step P cmd i ⟨0, newId, [], true⟩ s stage = some out := by
  cases stage with
  | begin =>
    dsimp only [step]
    split <;> exact ⟨_, rfl⟩
  | lockWallet now =>
    dsimp only [step]
    unfold Shared.lockWallet
    split
    · exact ⟨_, rfl⟩
    · rename_i wid huuid
      split
      · exact ⟨_, rfl⟩
      · rename_i wallet hfound
        have hlocked : ∀ k ∈ [Resource.wallet wid], s.locks k = none ∨ owns s i k := by
          intro k hk
          obtain rfl := List.mem_singleton.mp hk
          exact hfree _ huuid
        obtain ⟨s₁, htake⟩ := exists_take hlocked
        have hdraw : ∃ s₂, s₁.draw i P [newId 0] = some s₂ := by
          refine exists_draw ?_ (List.nodup_singleton _) ?_
          · intro id' hid
            obtain rfl := List.mem_singleton.mp hid
            exact hcanonical
          · intro id' hid
            obtain rfl := List.mem_singleton.mp hid
            rw [take_drawn htake (by simp)]
            exact hfresh (Nat.le_refl 5)
        obtain ⟨s₂, hdraw⟩ := hdraw
        simp only [htake, Option.map_some, Option.bind_eq_bind, Option.bind_some, hdraw]
        split
        · exact ⟨_, rfl⟩
        · split <;> exact ⟨_, rfl⟩
  | claimKey wallet tx =>
    dsimp only [step]
    split
    · exact ⟨_, rfl⟩
    · have hfreeKey : ∀ k ∈ [Resource.idempotencyKey tx.idempotencyKey],
          s.locks k = none ∨ owns s i k := by
        intro k hk
        obtain rfl := List.mem_singleton.mp hk
        exact hfree _ hok.key
      obtain ⟨s₁, htake⟩ := exists_take hfreeKey
      simp only [htake, Option.bind_eq_bind, Option.bind_some]
      split <;> exact ⟨_, rfl⟩
  | claimExternal wallet tx =>
    have hfreeExternal : ∀ k ∈ [Resource.external tx.providerId tx.externalTransactionId],
        s.locks k = none ∨ owns s i k := by
      intro k hk
      obtain rfl := List.mem_singleton.mp hk
      exact hfree _ hok.1.external
    obtain ⟨s₁, htake⟩ := exists_take hfreeExternal
    obtain ⟨t, ht, hexternal⟩ := htaken wallet tx rfl
    have hfound : (s₁.db.findByProviderAndExternalId tx.providerId
        tx.externalTransactionId).isSome = true := by
      apply Option.isSome_iff_ne_none.mpr
      intro hnone
      rw [(take_acquires htake).db, Database.findByProviderAndExternalId, hok.1.external] at hnone
      exact lookup_eq_none.mp hnone t ht hexternal
    simp only [step, htake, Option.bind_eq_bind, Option.bind_some, hfound, if_true]
    exact ⟨_, rfl⟩
  | findByKey =>
    dsimp only [step]
    split
    · exact ⟨_, rfl⟩
    · split <;> exact ⟨_, rfl⟩
  | findWallet byKey => exact ⟨_, rfl⟩
  | findByExternal =>
    dsimp only [step]
    split <;> exact ⟨_, rfl⟩
  | _ => cases hstage

end Submit

/-! ## A run of the call alone -/

variable {c c' : Config Shared Proc}

/-- A call in a stage of `Q`, which its own steps keep, comes to its end once nobody holds what it
awaits. -/
theorem Executes.exists_end {Q : Config Shared Proc → SubmitStage → Prop}
    (hreach : Reachable (step P) initial c) (hexecutes : Executes cmd stage (c.procs i))
    (hQ : Q c stage)
    (htaken : ∀ c₁ wallet tx, Q c₁ (.claimExternal wallet tx) →
      Submit.ExternalTaken c₁.shared.db cmd)
    (hown : ∀ c₁ c₂ inp stage stage', Reachable (step P) c c₁ → Executes cmd stage (c₁.procs i) →
      Q c₁ stage → next (step P) c₁ i (.step inp) = some c₂ →
        Submit.step P cmd i inp c₁.shared stage = some (c₂.shared, stage') → Q c₂ stage')
    (hfree : ∀ j k, j ≠ i → Submit.Awaits P cmd k → ¬owns c.shared j k)
    (hfresh : ∃ id, P.isCanonical id = true ∧ ¬c.shared.drawn id) :
    ∃ c', Reachable (step P) c c' ∧ ∃ stage', Executes cmd stage' (c'.procs i) ∧ Q c' stage' ∧
      Submit.stepsLeft stage' = 0 := by
  obtain ⟨id₀, hcanonical₀, hfresh₀⟩ := hfresh
  refine Reach.eventually (I := fun n c₁ => Reachable (step P) c c₁ ∧ ∃ stage₁,
    Executes cmd stage₁ (c₁.procs i) ∧ Q c₁ stage₁ ∧ Submit.stepsLeft stage₁ = n ∧
      (∀ j k, j ≠ i → Submit.Awaits P cmd k → ¬owns c₁.shared j k) ∧
        (5 ≤ Submit.stepsLeft stage₁ → ¬c₁.shared.drawn id₀)) ?_
    ⟨.init, stage, hexecutes, hQ, rfl, hfree, fun _ => hfresh₀⟩
  rintro n c₁ ⟨hreach₁, stage₁, hexecutes₁, hQ₁, rfl, hfree₁, hfresh₁⟩ hgoal
  have hleft : 0 < Submit.stepsLeft stage₁ :=
    Nat.pos_of_ne_zero fun hzero => hgoal ⟨stage₁, hexecutes₁, hQ₁, hzero⟩
  have hinitial := Reach.trans hreach hreach₁
  have hok := hexecutes₁.ok ((reachable_ok hinitial).2 i)
  have hfreeOrOwn : ∀ k, Submit.Awaits P cmd k → c₁.shared.locks k = none ∨ owns c₁.shared i k := by
    intro k hk
    cases hlock : c₁.shared.locks k with
    | none => exact Or.inl rfl
    | some j =>
      by_cases hij : j = i
      · exact Or.inr (hij ▸ hlock)
      · exact absurd hlock (hfree₁ j k hij hk)
  obtain ⟨⟨s', stage'⟩, hstep⟩ := Submit.exists_step (fun _ => id₀) hleft hok
    (fun wallet tx heq => htaken c₁ wallet tx (heq ▸ hQ₁)) hfreeOrOwn hcanonical₀ hfresh₁
  obtain ⟨p', hproc, hexecutes'⟩ := hexecutes₁.procStep_some hstep
  obtain ⟨c₂, hmoved, rfl, rfl⟩ := next_of_step (step P) (a := .step _) hproc
  have hlt := Submit.step_stepsLeft hleft hstep
  refine ⟨i, _, c₂, Submit.stepsLeft stage', hlt, trivial, hmoved, .step hreach₁ trivial hmoved,
    stage', hexecutes', hown _ _ _ _ _ hreach₁ hexecutes₁ hQ₁ hmoved hstep, rfl, ?_, ?_⟩
  · intro j k hij hk
    rw [(reachable_effect hinitial hmoved).owns_iff hij]
    exact hfree₁ j k hij hk
  · -- more than five steps are left at the beginning only, where nothing is drawn
    intro hfive
    cases stage₁ with
    | begin =>
      have hsame : c₂.shared = c₁.shared := by
        dsimp only [Submit.step] at hstep
        split at hstep
        all_goals
          obtain ⟨hshared, -⟩ := Prod.mk.inj (Option.some.inj hstep)
          exact hshared.symm
      rw [hsame]
      exact hfresh₁ (Nat.le_succ 5)
    | _ => exact absurd (Nat.lt_of_le_of_lt hfive hlt) (by simp [Submit.stepsLeft])

end WageringProcessor
