import WageringProcessor.Invariants.FirstSubmit
import WageringProcessor.UseCases.SubmitAlone
import Mathlib.Algebra.Order.BigOperators.Group.List
import Mathlib.Algebra.Order.Group.Nat

/-!
# A call that runs alone

From the start of a submit only its own steps are taken.  It ends as `Submit.execute` says.
-/

namespace WageringProcessor

open Library.Interleaving Library.Table WagerTransactionFinalizer

variable {P : Platform} {i : Pid} {s₀ s s' : Shared} {d : Database} {own : Resource → Prop}
  {cmd : SubmitWagerTransactionCommand} {inp : Input} {stage stage' : SubmitStage}
  {wallet : Wallet} {tx : WagerTransaction} {ctx : EventContext} {ids ids' : List Id}
  {resolution : Option ReferenceResolution} {g : Generated}

theorem owns.drawn {id : Id} (h : owns s i (.uuid id)) : s.drawn id := by
  intro hnone
  cases h.symm.trans hnone

/-- The id for the row is no row's. -/
def Generated.New (g : Generated) (d : Database) : Prop :=
  ∀ t ∈ d.wagerTransactions, t.id ≠ g.transactionId

/-- There is always an id that no row has. -/
theorem exists_new (d : Database) : ∃ id : Id, ∀ t ∈ d.wagerTransactions, t.id ≠ id := by
  refine ⟨String.ofList (List.replicate
    ((d.wagerTransactions.map fun t => t.id.length).sum + 1) 'x'), fun t ht heq => ?_⟩
  have hlength := List.le_sum_of_mem (List.mem_map_of_mem (f := fun t : WagerTransaction =>
    t.id.length) ht)
  rw [heq, String.length_ofList, List.length_replicate] at hlength
  omega

/-! ## The run -/

/-- Steps of `i` alone. -/
abbrev OnlySteps (i : Pid) (_ : Config Shared Proc) (j : Pid) (a : Action) : Prop :=
  j = i ∧ ∃ inp, a = .step inp

/-- `i` starts the call, and nobody else moves from then on. -/
def RunsAlone (P : Platform) (i : Pid) (call : Call) (c c' : Config Shared Proc) : Prop :=
  ∃ c₀, next (step P) c i (.start call) = some c₀ ∧ Reach (step P) (OnlySteps i) c₀ c'

theorem RunsAlone.reachable {call : Call} {c c' : Config Shared Proc}
    (h : Reachable (step P) initial c)
    (hrun : RunsAlone P i call c c') : Reachable (step P) initial c' := by
  obtain ⟨c₀, hstart, hsteps⟩ := hrun
  exact Reach.trans (.step h trivial hstart) hsteps.reachable

/-- The run in which the steps of the call are given `inputs`. -/
def execAlone (P : Platform) (i : Pid) (call : Call) (inputs : List Input)
    (c : Config Shared Proc) : Option (Config Shared Proc) :=
  (next (step P) c i (.start call)).bind fun c₀ =>
    exec (step P) c₀ (inputs.map fun inp => (i, .step inp))

theorem onlySteps_of_exec {inputs : List Input} {c c' : Config Shared Proc}
    (h : exec (step P) c (inputs.map fun inp => (i, .step inp)) = some c') :
    Reach (step P) (OnlySteps i) c c' := by
  induction inputs generalizing c with
  | nil =>
    obtain rfl := Option.some.inj h
    exact .init
  | cons inp inputs ih =>
    obtain ⟨c₁, hmoved, hrest⟩ := Option.bind_eq_some_iff.mp h
    exact Reach.trans (.step .init ⟨rfl, inp, rfl⟩ hmoved) (ih hrest)

theorem runsAlone_of_exec {call : Call} {inputs : List Input} {c c' : Config Shared Proc}
    (h : execAlone P i call inputs c = some c') : RunsAlone P i call c c' := by
  obtain ⟨c₀, hstart, hexec⟩ := Option.bind_eq_some_iff.mp h
  exact ⟨c₀, hstart, onlySteps_of_exec hexec⟩

/-- The ids were drawn on the way from `s₀` to `s`. -/
structure Drew (s₀ s : Shared) (ids : List Id) : Prop where
  nodup : ids.Nodup
  new : ∀ id ∈ ids, ¬s₀.drawn id
  drawn : ∀ id ∈ ids, s.drawn id

theorem Drew.mono (h : Drew s₀ s ids) (hmono : ∀ id, s.drawn id → s'.drawn id) :
    Drew s₀ s' ids := ⟨h.nodup, h.new, fun id hid => hmono id (h.drawn id hid)⟩

theorem Drew.draw (h : Drew s₀ s ids) (hmono : ∀ id, s₀.drawn id → s.drawn id)
    (hdraw : s.draw i P ids' = some s') : Drew s₀ s' (ids ++ ids') := by
  have hdraws := draw_draws hdraw
  refine ⟨?_, fun id hid => ?_, fun id hid => ?_⟩
  · rw [List.nodup_append]
    exact ⟨h.nodup, hdraws.nodup, fun a ha b hb heq => hdraws.fresh b hb (heq ▸ h.drawn a ha)⟩
  · rcases List.mem_append.mp hid with hid | hid
    · exact h.new id hid
    · exact fun hdrawn => hdraws.fresh id hid (hmono id hdrawn)
  · rcases List.mem_append.mp hid with hid | hid
    · exact hdraws.taken _ (h.drawn id hid)
    · exact (hdraws.holdsId hid).drawn

namespace Submit

/-! ## What `execute` comes to at each stage -/

theorem Drafted.create_eq (h : Drafted P own d cmd wallet tx) :
    WagerTransaction.create (props P cmd tx.id tx.createdAt) = .ok tx := by
  obtain ⟨now, hcreated⟩ := h.created
  have hnow : tx.createdAt = now := by rw [hcreated]; rfl
  have hkind : ¬(props P cmd tx.id tx.createdAt).kind = .opening := h.kind
  have hreference : ¬(requiresReferenceFor (props P cmd tx.id tx.createdAt).kind &&
      WagerTransaction.missingReference
        (props P cmd tx.id tx.createdAt).referenceExternalTransactionId) = true := by
    intro hmissing
    obtain ⟨hrequires, hmissing⟩ := Bool.and_eq_true_iff.mp hmissing
    have hpresent := h.reference hrequires
    rw [show WagerTransaction.missingReference cmd.referenceExternalTransactionId = true from
      hmissing] at hpresent
    cases hpresent
  unfold WagerTransaction.create
  rw [if_neg hkind, if_neg hreference, hnow]
  exact congrArg Except.ok hcreated.symm

theorem Drafted.execute_eq (h : Drafted P own d cmd wallet tx) (hc : Consistent P d)
    (hnow : g.now = tx.createdAt) (hid : g.transactionId = tx.id) :
    execute P d cmd g = claim P d cmd wallet tx g := by
  obtain ⟨r, hheld⟩ := h.held
  have hfound : d.findWallet wallet.id = some wallet := by
    rw [hheld.read]
    exact hc.findWallet hheld.row
  unfold execute processNew
  rw [if_neg h.kind, h.walletId]
  dsimp only
  rw [hfound]
  dsimp only
  rw [if_neg (not_not.mpr h.player), hnow, hid, h.create_eq]

theorem Ready.execute_eq (h : Ready P own d cmd wallet tx) (hc : Consistent P d)
    (hnow : g.now = tx.createdAt) (hid : g.transactionId = tx.id) : execute P d cmd g =
      resolveAndSettle P d wallet tx (eventContext cmd tx g.correlationId) g.newId := by
  have hstored : ¬Database.violatesCheck (claimWrites P tx) = true := by
    have hmoney : ¬tx.money.minorUnits < 0 := Int.not_lt.mpr h.claimed.identity.money
    simpa [Database.violatesCheck, claimWrites, toWagerTransactionEntity] using hmoney
  have hkey : d.findByIdempotencyKey tx.idempotencyKey = none :=
    lookup_eq_none.mpr h.claimed.newKey
  have hexternal : d.findByProviderAndExternalId tx.providerId tx.externalTransactionId = none :=
    lookup_eq_none.mpr h.claimed.newExternal
  rw [h.toDrafted.execute_eq hc hnow hid]
  unfold claim
  rw [if_neg hstored, hkey, hexternal]
  rfl

theorem resolve_resolved {b : WagerTransaction} (h : resolve P d tx = .ok (some (.resolved b))) :
    NotReversed (d.apply (claimWrites P tx)) tx b := by
  unfold resolve at h
  split at h
  · obtain ⟨resolution, hresolve, hsome⟩ := ok_of_map h
    obtain rfl := Option.some.inj hsome
    obtain ⟨found, -, hfound⟩ := ok_of_map hresolve
    cases found with
    | pending | rejected => cases hfound
    | resolved reference =>
      have hreversal : findReversal (d.apply (claimWrites P tx)) tx reference = .resolved b :=
        hfound
      unfold findReversal at hreversal
      split at hreversal
      · cases hreversal
      · rename_i hnone
        obtain rfl := ReferenceResolution.resolved.inj hreversal
        rw [Option.not_isSome_iff_eq_none] at hnone
        exact notReversed_iff.mpr (hnone ▸ rfl)
  · cases Except.ok.inj h

/-- What a call alone writes is no second reversal. -/
theorem resolve_once {newId : Nat → Id} {t : WagerTransaction}
    (hres : resolve P d tx = .ok resolution)
    (ht : t ∈ (decision P wallet tx ctx newId resolution).2.2.wagerTransactions) :
    (d.apply (claimWrites P tx)).violatesReferenceOnce t = false := by
  by_contra hviolates
  rw [Bool.not_eq_false] at hviolates
  have hrequires := decision_reversal ht hviolates
  have hprocessed : t.status = .processed := by
    by_contra hstatus
    rw [not_violatesReferenceOnce hstatus] at hviolates
    cases hviolates
  match resolution with
  | none =>
    unfold resolve at hres
    rw [if_pos hrequires] at hres
    obtain ⟨_, -, hsome⟩ := ok_of_map hres
    cases hsome
  | some .pending =>
    obtain rfl := List.mem_singleton.mp ht
    cases hprocessed
  | some (.rejected code) =>
    obtain rfl := List.mem_singleton.mp ht
    cases hprocessed
  | some (.resolved b) =>
    have hreference : t.referenceTransactionId = some b.id ∧ t.kind = tx.kind := by
      have ht' :
          t ∈ (effect P tx wallet (some b) (b.kind ≠ .bet) ctx newId).2.2.wagerTransactions :=
        ht
      cases hrefusal : refusal tx wallet (b.kind ≠ .bet) with
      | some code =>
        rw [effect_refused hrefusal] at ht'
        obtain rfl := List.mem_singleton.mp ht'
        cases hprocessed
      | none =>
        rw [effect_accepted hrefusal] at ht'
        unfold acceptance at ht'
        dsimp only at ht'
        split at ht'
        all_goals
          obtain rfl := List.mem_singleton.mp ht'
          exact ⟨rfl, rfl⟩
    unfold Database.violatesReferenceOnce at hviolates
    simp only [Bool.and_eq_true, List.any_eq_true, decide_eq_true_eq] at hviolates
    obtain ⟨-, other, hother, ⟨⟨-, hstatus⟩, hkind⟩, hsame⟩ := hviolates
    exact resolve_resolved hres other hother hstatus (hkind.trans hreference.2)
      (hsame.trans hreference.1)

/-! ## What the call knows at each stage -/

/-- The context was made for `tx`, whose id and correlation were drawn. -/
def Correlated (s₀ s : Shared) (cmd : SubmitWagerTransactionCommand) (tx : WagerTransaction)
    (ctx : EventContext) : Prop :=
  ∃ correlationId, Drew s₀ s [tx.id, correlationId] ∧ ctx = eventContext cmd tx correlationId

def Knows (P : Platform) (s₀ : Shared) (cmd : SubmitWagerTransactionCommand) (s : Shared) :
    SubmitStage → Prop
  | .begin | .lockWallet _ => True
  | .claimKey _ tx | .claimExternal _ tx => Drew s₀ s [tx.id]
  | .findReference _ tx ctx => Correlated s₀ s cmd tx ctx
  | .findReversal _ tx ctx reference => Correlated s₀ s cmd tx ctx ∧
      findReference (s₀.db.apply (claimWrites P tx)) tx = .ok (.resolved reference)
  | .finalize _ tx ctx resolution => Correlated s₀ s cmd tx ctx ∧
      resolve P s₀.db tx = .ok resolution
  | .commit writes result => ∃ g : Generated, g.New s₀.db ∧
      execute P s₀.db cmd g = .ok (result, writes) ∧ Drew s₀ s g.ids
  | .findByKey => ∃ g : Generated, g.New s₀.db ∧
      execute P s₀.db cmd g = handleClaimConflict P s₀.db cmd
  | .findWallet byKey => ∃ g : Generated, g.New s₀.db ∧
      execute P s₀.db cmd g = replay s₀.db cmd byKey
  | .findByExternal => ∃ g : Generated, g.New s₀.db ∧
      execute P s₀.db cmd g = externalTaken s₀.db cmd
  | .returned result => ∃ g : Generated, g.New s₀.db ∧ execute P s₀.db cmd g = .ok (result, [])
  | .threw err => ∃ g : Generated, g.New s₀.db ∧ execute P s₀.db cmd g = .error err

/-- The values of which only those for the row are known. -/
def rowGenerated (tx : WagerTransaction) (correlationId : Id) (newId : Nat → Id) : Generated :=
  ⟨tx.createdAt, tx.id, correlationId, newId⟩

/-- Whether the row can be created does not depend on what was drawn for it. -/
theorem create_error {id : Id} {now : Date} {err : DomainError}
    (h : WagerTransaction.create (props P cmd id now) = .error err) (id' : Id) (now' : Date) :
    WagerTransaction.create (props P cmd id' now') = .error err := by
  unfold WagerTransaction.create at h ⊢
  split at h
  · rename_i hopening
    exact (if_pos hopening).trans h
  rename_i hopening
  split at h
  · rename_i hmissing
    exact (if_neg hopening).trans ((if_pos hmissing).trans h)
  · cases h

/-- The wallet is there, so `processNew` goes on with it. -/
theorem LocksWallet.execute_eq {s₁ : Shared} {r : WalletRow} (h : LocksWallet P cmd i s s₁ r)
    (hc : Consistent P s.db) (hkind : cmd.kind ≠ .opening) (g : Generated) :
    execute P s.db cmd g = processNew P s.db cmd (toWalletDomain r) g := by
  unfold execute
  rw [if_neg hkind, h.uuid]
  dsimp only
  rw [hc.findWallet h.row]

theorem step_lockWallet_knows {now : Date} (hc : Consistent P s.db) (hkind : cmd.kind ≠ .opening)
    (hdb : s.db = s₀.db) (hmono : ∀ id, s₀.drawn id → s.drawn id)
    (hstep : step P cmd i inp s (.lockWallet now) = some (s', stage')) :
    Knows P s₀ cmd s' stage' := by
  obtain ⟨new, hnew⟩ := exists_new s₀.db
  cases step_way hstep with
  | noUuid uuid =>
    refine ⟨⟨now, new, new, inp.newId⟩, hnew, ?_⟩
    unfold execute
    rw [if_neg hkind, uuid]
  | noWallet uuid missing =>
    refine ⟨⟨now, new, new, inp.newId⟩, hnew, ?_⟩
    unfold execute
    rw [if_neg hkind, uuid]
    dsimp only
    rw [← hdb, missing]
  | otherPlayer locks player =>
    refine ⟨⟨now, new, new, inp.newId⟩, hnew, ?_⟩
    rw [← hdb, locks.execute_eq hc hkind]
    exact if_pos player
  | invalid locks player _ create =>
    refine ⟨⟨now, new, new, inp.newId⟩, hnew, ?_⟩
    have hsame : ¬(toWalletDomain _).playerId ≠ cmd.playerId := not_not.mpr player
    rw [← hdb, locks.execute_eq hc hkind]
    unfold processNew
    rw [if_neg hsame, create_error create new now]
  | @drafted _ s₁ _ r tx locks _ draws create =>
    have hid : tx.id = inp.newId 0 := by
      rw [(create_ok create).1]
      rfl
    have hnone : Drew s₀ s₁ [] := ⟨.nil, by simp, by simp⟩
    show Drew s₀ s' [tx.id]
    rw [hid]
    exact hnone.draw (fun id hid => (take_drawn locks.takes (by simp)).mpr (hmono id hid)) draws

theorem step_claimKey_knows (hc : Consistent P s₀.db) (hdb : s.db = s₀.db)
    (hok : Drafted P (owns s i) s.db cmd wallet tx) (hdrew : Drew s₀ s [tx.id])
    (hstep : step P cmd i inp s (.claimKey wallet tx) = some (s', stage')) :
    Knows P s₀ cmd s' stage' := by
  have hok₀ : Drafted P (owns s i) s₀.db cmd wallet tx := hdb ▸ hok
  have hexecute := hok₀.execute_eq (g := rowGenerated tx tx.id inp.newId) hc rfl rfl
  unfold claim at hexecute
  cases step_way hstep with
  | unclaimable check =>
    rw [if_pos check] at hexecute
    exact ⟨rowGenerated tx tx.id inp.newId, hok₀.newId, hexecute⟩
  | keyTaken check _ taken =>
    rw [hdb] at taken
    rw [if_neg (Bool.not_eq_true _ ▸ check), taken, Bool.true_or, if_pos rfl] at hexecute
    exact ⟨rowGenerated tx tx.id inp.newId, hok₀.newId, hexecute⟩
  | keyClaimed _ takes => exact hdrew.mono fun id => (take_drawn takes (by simp)).mpr

theorem step_claimExternal_knows (hc : Consistent P s₀.db) (hdb : s.db = s₀.db)
    (hmono : ∀ id, s₀.drawn id → s.drawn id)
    (hok : Ok P (owns s i) s.db cmd (.claimExternal wallet tx)) (hdrew : Drew s₀ s [tx.id])
    (hstep : step P cmd i inp s (.claimExternal wallet tx) = some (s', stage')) :
    Knows P s₀ cmd s' stage' := by
  obtain ⟨hdrafted, hmoney, -, -⟩ := hok
  have hcorrelated : ∀ {s₁ s₂},
      s.take i [.external tx.providerId tx.externalTransactionId] = some s₁ →
      s₁.draw i P [inp.newId 0] = some s₂ → Correlated s₀ s₂ cmd tx (contextOf cmd inp tx) := by
    intro s₁ s₂ htake hdraw
    have hmono₁ : ∀ id, s.drawn id → s₁.drawn id := fun id => (take_drawn htake (by simp)).mpr
    exact ⟨inp.newId 0, (hdrew.mono hmono₁).draw (fun id hid => hmono₁ id (hmono id hid)) hdraw,
      rfl⟩
  cases step_way hstep with
  | externalTaken _ taken =>
    have hdrafted₀ : Drafted P (owns s i) s₀.db cmd wallet tx := hdb ▸ hdrafted
    have hexecute := hdrafted₀.execute_eq (g := rowGenerated tx tx.id inp.newId) hc rfl rfl
    have hcheck : ¬Database.violatesCheck (claimWrites P tx) = true := fun hviolates =>
      absurd (hdrafted.violatesCheck_iff.mp hviolates) (not_lt.mpr hmoney)
    rw [hdb] at taken
    rw [claim, if_neg hcheck, taken, Bool.or_true, if_pos rfl] at hexecute
    exact ⟨rowGenerated tx tx.id inp.newId, hdrafted₀.newId, hexecute⟩
  | referring takes _ draws => exact hcorrelated takes draws
  | unreferring takes _ draws requires =>
    exact ⟨hcorrelated takes draws, if_neg (Bool.not_eq_true _ ▸ requires)⟩

theorem step_findReference_knows (hdb : s.db = s₀.db)
    (hok : Ok P (owns s i) s.db cmd (.findReference wallet tx ctx))
    (hknows : Correlated s₀ s cmd tx ctx)
    (hstep : step P cmd i inp s (.findReference wallet tx ctx) = some (s', stage')) :
    Knows P s₀ cmd s' stage' := by
  obtain ⟨hready, hrequires⟩ := hok
  have hresolve : resolve P s₀.db tx =
      (resolveReference (s₀.db.apply (claimWrites P tx)) tx).map some := if_pos hrequires
  cases step_way hstep with
  -- the reference of a reversal is never missing
  | unnamed finds => exact absurd finds (findReference_named (hready.missing hrequires))
  | found finds =>
    rw [hdb] at finds
    exact ⟨hknows, finds⟩
  | unresolved finds unresolved =>
    rw [hdb] at finds
    refine ⟨hknows, ?_⟩
    rw [hresolve, resolveReference_of_find finds unresolved]
    rfl

theorem step_findReversal_knows {reference : WagerTransaction} (hdb : s.db = s₀.db)
    (hok : Ok P (owns s i) s.db cmd (.findReversal wallet tx ctx reference))
    (hknows : Knows P s₀ cmd s (.findReversal wallet tx ctx reference))
    (hstep : step P cmd i inp s (.findReversal wallet tx ctx reference) = some (s', stage')) :
    Knows P s₀ cmd s' stage' := by
  obtain ⟨hcorrelated, hfind⟩ := hknows
  dsimp only [step] at hstep
  obtain ⟨rfl, rfl⟩ := Prod.mk.inj (Option.some.inj hstep)
  refine ⟨hcorrelated, ?_⟩
  rw [resolve, if_pos hok.2.1, resolveReference, hfind, hdb]
  rfl

/-- Where the amount is zero, the wallet throws. -/
theorem decide_zero {newId : Nat → Id} (hready : Ready P own d cmd wallet tx)
    (hc : Consistent P d) (hresolution : ResolutionOk P d tx resolution)
    (hamount : ¬AmountOk wallet tx resolution) :
    decide P wallet tx ctx resolution newId = .error .unbalancedLedgerEntry := by
  unfold AmountOk at hamount
  push Not at hamount
  obtain ⟨rfl, hloss, hcurrency, hle⟩ := hamount
  obtain ⟨r, -, -, hread, hreadCurrency⟩ := hready.account hc
  have hnonneg : 0 ≤ tx.money.minorUnits := hready.claimed.identity.money
  exact applyEffect_zero hreadCurrency hread hloss hresolution hcurrency (by omega)

theorem step_finalize_knows (hc : Consistent P s.db) (hd : Drawn s.drawn s.db)
    (hdb : s.db = s₀.db) (hmono : ∀ id, s₀.drawn id → s.drawn id)
    (hok : Ok P (owns s i) s.db cmd (.finalize wallet tx ctx resolution))
    (hknows : Knows P s₀ cmd s (.finalize wallet tx ctx resolution))
    (hstep : step P cmd i inp s (.finalize wallet tx ctx resolution) = some (s', stage')) :
    Knows P s₀ cmd s' stage' := by
  obtain ⟨⟨correlationId, hdrew, rfl⟩, hresolve⟩ := hknows
  obtain ⟨hready, hresolution⟩ := hok
  have hready₀ : Ready P (owns s i) s₀.db cmd wallet tx := hdb ▸ hready
  have hexecute : execute P s₀.db cmd (rowGenerated tx correlationId inp.newId) =
      settle P wallet tx (eventContext cmd tx correlationId) inp.newId resolution := by
    rw [hready₀.execute_eq (hdb ▸ hc) rfl rfl, resolveAndSettle, hresolve]
    rfl
  by_cases hamount : AmountOk wallet tx resolution
  · rcases step_finalize_decides hc hd ⟨hready, hresolution⟩ hamount hstep with
      ⟨out, rfl, hflush, rfl, -⟩ | ⟨⟨t, ht, hviolates⟩, -⟩
    · refine ⟨rowGenerated tx correlationId inp.newId, hready₀.newId, ?_, ?_⟩
      · rw [hexecute, settle, decide_eq hc hready hresolution hamount]
      · obtain ⟨s₁, hdraw, hrest⟩ := Option.bind_eq_some_iff.mp hstep
        rw [decide_eq hc hready hresolution hamount] at hrest
        dsimp only at hrest
        rw [(draw_draws hdraw).db, hflush] at hrest
        obtain ⟨rfl, -⟩ := Prod.mk.inj (Option.some.inj hrest)
        exact hdrew.draw hmono hdraw
    · rw [hdb, resolve_once hresolve ht] at hviolates
      cases hviolates
  · have hthrows : ∀ newId,
        decide P wallet tx (eventContext cmd tx correlationId) resolution newId =
        .error .unbalancedLedgerEntry := fun newId => decide_zero hready hc hresolution hamount
    obtain ⟨s₁, -, hrest⟩ := Option.bind_eq_some_iff.mp hstep
    rw [hthrows] at hrest
    obtain ⟨-, rfl⟩ := Prod.mk.inj (Option.some.inj hrest)
    refine ⟨rowGenerated tx correlationId inp.newId, hready₀.newId, ?_⟩
    rw [hexecute, settle, hthrows]

theorem step_knows (hc : Consistent P s.db) (hd : Drawn s.drawn s.db) (hdb : s.db = s₀.db)
    (hmono : ∀ id, s₀.drawn id → s.drawn id) (hok : Ok P (owns s i) s.db cmd stage)
    (hknows : Knows P s₀ cmd s stage) (hstep : step P cmd i inp s stage = some (s', stage')) :
    Knows P s₀ cmd s' stage' := by
  have hc₀ : Consistent P s₀.db := hdb ▸ hc
  cases stage with
  | begin =>
    dsimp only [step] at hstep
    split at hstep
    · rename_i hopening
      obtain ⟨-, rfl⟩ := Prod.mk.inj (Option.some.inj hstep)
      obtain ⟨new, hnew⟩ := exists_new s₀.db
      exact ⟨⟨inp.now, new, new, inp.newId⟩, hnew, if_pos hopening⟩
    · obtain ⟨-, rfl⟩ := Prod.mk.inj (Option.some.inj hstep)
      trivial
  | lockWallet now => exact step_lockWallet_knows hc hok hdb hmono hstep
  | claimKey wallet tx => exact step_claimKey_knows hc₀ hdb hok hknows hstep
  | claimExternal wallet tx => exact step_claimExternal_knows hc₀ hdb hmono hok hknows hstep
  | findReference wallet tx ctx => exact step_findReference_knows hdb hok hknows hstep
  | findReversal wallet tx ctx reference => exact step_findReversal_knows hdb hok hknows hstep
  | finalize wallet tx ctx resolution => exact step_finalize_knows hc hd hdb hmono hok hknows hstep
  | findByKey =>
    obtain ⟨g, hnew, hexecute⟩ := hknows
    rw [← hdb] at hexecute
    unfold handleClaimConflict at hexecute
    cases step_way hstep with
    | noKey missing =>
      rw [missing, hdb] at hexecute
      exact ⟨g, hnew, hexecute⟩
    | sameKey found matching =>
      rw [found] at hexecute
      dsimp only at hexecute
      rw [if_pos matching, hdb] at hexecute
      exact ⟨g, hnew, hexecute⟩
    | otherPayload found matching =>
      rw [found] at hexecute
      dsimp only at hexecute
      rw [if_neg (Bool.not_eq_true _ ▸ matching), hdb] at hexecute
      exact ⟨g, hnew, hexecute⟩
  | findWallet byKey =>
    obtain ⟨g, hnew, hexecute⟩ := hknows
    dsimp only [step] at hstep
    rw [hdb] at hstep
    obtain ⟨-, rfl⟩ := Prod.mk.inj (Option.some.inj hstep)
    exact ⟨g, hnew, hexecute⟩
  | findByExternal =>
    obtain ⟨g, hnew, hexecute⟩ := hknows
    rw [← hdb] at hexecute
    unfold externalTaken at hexecute
    cases step_way hstep with
    | otherKey found =>
      rw [found, hdb] at hexecute
      exact ⟨g, hnew, hexecute⟩
    | unexplained missing =>
      rw [missing, hdb] at hexecute
      exact ⟨g, hnew, hexecute⟩
  | commit | returned | threw => cases hstep

end Submit

/-! ## In the system -/

variable {c c₀ c' : Config Shared Proc}

/-- How far the call has come. -/
def Submit.SoFar (P : Platform) (s₀ : Shared) (cmd : SubmitWagerTransactionCommand) (s : Shared)
    (stage : SubmitStage) : Prop :=
  (∀ id, s₀.drawn id → s.drawn id) ∧
    (s.db = s₀.db ∧ Submit.Knows P s₀ cmd s stage ∨
      ∃ g result ws, stage = .returned result ∧ g.New s₀.db ∧
        Submit.execute P s₀.db cmd g = .ok (result, ws) ∧ s.db = s₀.db.applyAll ws ∧
          Drew s₀ s g.ids)

theorem start_submit (hstart : next (step P) c i (.start (.submit cmd)) = some c₀) :
    c₀.shared = c.shared ∧ c₀.procs i = .submit cmd .begin := by
  have hstep := next_self hstart
  obtain ⟨-, hout⟩ := Option.ite_none_right_eq_some.mp hstep
  obtain ⟨hshared, hproc⟩ := Prod.mk.inj (Option.some.inj hout)
  exact ⟨hshared.symm, hproc.symm⟩

theorem submit_soFar {p : Proc} (hs : SharedOk P s) (hok : Submit.Ok P (owns s i) s.db cmd stage)
    (h : Submit.SoFar P s₀ cmd s stage)
    (hstep : step P i (.step inp) s (.submit cmd stage) = some (s', p)) :
    ∃ stage', p = .submit cmd stage' ∧ Submit.SoFar P s₀ cmd s' stage' := by
  obtain ⟨hmono, ⟨hdb, hknows⟩ | ⟨_, _, _, rfl, -⟩⟩ := h
  · cases step_way hstep with
    | submit steps =>
      have hquiet := (Submit.step_ok hs.consistent hs.drawn hok steps).1
      exact ⟨_, rfl, fun id hid => hquiet.advances.drawn id (hmono id hid), Or.inl
        ⟨hquiet.db.trans hdb, Submit.step_knows hs.consistent hs.drawn hdb hmono hok hknows steps⟩⟩
    | @submitted _ _ ws result =>
      obtain ⟨g, hnew, hexecute, hdrew⟩ := hknows
      have hkept : ∀ id, s.drawn id → (s.commit i ws).drawn id := fun id hid =>
        giveBack_drawn (s := { s with db := s.db.applyAll ws }) (fun _ => rfl) hid
      exact ⟨_, rfl, fun id hid => hkept id (hmono id hid), Or.inr ⟨g, result, ws, rfl, hnew,
        hexecute, congrArg (·.applyAll ws) hdb, hdrew.mono hkept⟩⟩
  · cases hstep

/-- A submit that runs alone does what `execute` says, with values that it has drawn. -/
theorem runsAlone_submit (h : Reachable (step P) initial c)
    (hrun : RunsAlone P i (.submit cmd) c c') :
    ∃ stage, c'.procs i = .submit cmd stage ∧ Submit.SoFar P c.shared cmd c'.shared stage := by
  obtain ⟨c₀, hstart, hsteps⟩ := hrun
  have hreach : Reachable (step P) initial c₀ := .step h trivial hstart
  obtain ⟨hshared, hproc⟩ := start_submit hstart
  rw [← hshared]
  refine hsteps.invariant (P := fun c => ∃ stage, c.procs i = .submit cmd stage ∧
    Submit.SoFar P c₀.shared cmd c.shared stage) ?_ ?_
  · exact ⟨.begin, hproc, fun _ hid => hid, Or.inl ⟨rfl, trivial⟩⟩
  · rintro c₁ j a c₂ hrun ⟨stage, hstage, hsofar⟩ ⟨rfl, inp, rfl⟩ hmoved
    obtain ⟨hs, hprocs⟩ := reachable_ok (hreach.trans hrun.reachable)
    have hok : ProcOk P j c₁.shared (.submit cmd stage) := hstage ▸ hprocs j
    have hstep := next_self hmoved
    rw [hstage] at hstep
    exact submit_soFar hs hok hsofar hstep

/-- The end of a call that returns or throws. -/
def endStage : Except Exception SubmitWagerTransactionResult → SubmitStage
  | .ok result => .returned result
  | .error err => .threw err

/-- `i` submits the command alone, and `out` is what its caller gets. -/
def SubmitsAlone (P : Platform) (i : Pid) (cmd : SubmitWagerTransactionCommand)
    (c c' : Config Shared Proc) (out : Except Exception SubmitWagerTransactionResult) : Prop :=
  RunsAlone P i (.submit cmd) c c' ∧ c'.procs i = .submit cmd (endStage out)

/-- What the caller of a submit has got. -/
def Proc.outcome : Proc → Option (Except Exception SubmitWagerTransactionResult)
  | .submit _ (.returned result) => some (.ok result)
  | .submit _ (.threw err) => some (.error err)
  | _ => none

theorem submitsAlone_of_exec {inputs : List Input}
    {out : Except Exception SubmitWagerTransactionResult}
    (h : Reachable (step P) initial c) (hexec : execAlone P i (.submit cmd) inputs c = some c')
    (hout : (c'.procs i).outcome = some out) : SubmitsAlone P i cmd c c' out := by
  have hrun := runsAlone_of_exec hexec
  obtain ⟨stage, hstage, -⟩ := runsAlone_submit h hrun
  refine ⟨hrun, ?_⟩
  rw [hstage] at hout ⊢
  cases stage with
  | returned result =>
    obtain rfl := Option.some.inj hout
    rfl
  | threw err =>
    obtain rfl := Option.some.inj hout
    rfl
  | _ => cases hout

/-- The ids among the generated ones that the writes have. -/
def Generated.written (g : Generated) (ws : List Writes) : List Id := if ws = [] then [] else g.ids

/-- A submit that runs alone does what `execute` says, with values that it has drawn. -/
theorem submitsAlone_executes {out : Except Exception SubmitWagerTransactionResult}
    (h : Reachable (step P) initial c) (hrun : SubmitsAlone P i cmd c c' out) :
    ∃ g ws, g.New c.shared.db ∧ (Submit.execute P c.shared.db cmd g).map Prod.fst = out ∧
      Submit.committed (Submit.execute P c.shared.db cmd g) = ws ∧
        c'.shared.db = c.shared.db.applyAll ws ∧ Drew c.shared c'.shared (g.written ws) ∧
          ∀ id, c.shared.drawn id → c'.shared.drawn id := by
  obtain ⟨stage, hstage, hmono, hsofar⟩ := runsAlone_submit h hrun.1
  rw [hrun.2] at hstage
  obtain rfl := (Proc.submit.inj hstage).2
  have hnothing : ∀ g : Generated, Drew c.shared c'.shared (g.written []) :=
    fun _ => ⟨.nil, by simp [Generated.written], by simp [Generated.written]⟩
  rcases hsofar with ⟨hdb, hknows⟩ | ⟨g, result, ws, heq, hnew, hexecute, hdb, hdrew⟩
  · cases out with
    | ok result =>
      obtain ⟨g, hnew, hexecute⟩ := hknows
      refine ⟨g, [], hnew, ?_, ?_, hdb, hnothing g, hmono⟩
      · rw [hexecute]
        rfl
      · rw [hexecute]
        rfl
    | error err =>
      obtain ⟨g, hnew, hexecute⟩ := hknows
      refine ⟨g, [], hnew, ?_, ?_, hdb, hnothing g, hmono⟩
      · rw [hexecute]
        rfl
      · rw [hexecute]
        rfl
  · cases out with
    | ok result' =>
      obtain rfl := SubmitStage.returned.inj heq
      refine ⟨g, ws, hnew, ?_, ?_, hdb, ?_, hmono⟩
      · rw [hexecute]
        rfl
      · rw [hexecute]
        rfl
      · unfold Generated.written
        split
        · exact ⟨.nil, by simp, by simp⟩
        · exact hdrew
    | error err => cases heq

end WageringProcessor
