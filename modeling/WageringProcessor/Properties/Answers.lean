import WageringProcessor.Properties.Idempotency
import WageringProcessor.Properties.Serial

/-!
# The answers of a submit

Whatever a call of `execute` answers, it would have answered at once in some state of the run while
it was under way.
-/

namespace WageringProcessor

open Library.Interleaving Library.Table WagerTransactionFinalizer

variable {P : Platform} {i j : Pid} {s s' : Shared} {d d' : Database} {own : Resource → Prop}
  {p p' : Proc} {c c' : Config Shared Proc} {a : Action} {inp : Input}
  {cmd : SubmitWagerTransactionCommand} {stage stage' : SubmitStage} {wallet : Wallet}
  {tx : WagerTransaction} {result : SubmitWagerTransactionResult} {ws : List Writes}
  {looked looked' : Query → Database → Prop} {J J' K : Database → Prop}
  {m : Move Shared Proc Action} {moves : List (Move Shared Proc Action)}

/-! ## The steps of a call -/

def SubmitStage.ended : SubmitStage → Bool
  | .returned _ | .threw _ => true
  | _ => false

/-- The step is one of the call `i`, which is in `execute`. -/
structure StepOf (i : Pid) (cmd : SubmitWagerTransactionCommand) (m : Move Shared Proc Action) :
    Prop where
  pid : m.pid = i
  executes : ∃ stage, Executes cmd stage (m.before.procs i) ∧ stage.ended = false

/-- `J` holds of the database where the call `i` takes one of its steps in `execute`. -/
def During (moves : List (Move Shared Proc Action)) (i : Pid) (cmd : SubmitWagerTransactionCommand)
    (J : Database → Prop) : Prop :=
  ∃ m ∈ moves, StepOf i cmd m ∧ J m.before.shared.db

/-- `J` holds where the call takes one of its steps, and `K` where it takes a later one. -/
def DuringThen (moves : List (Move Shared Proc Action)) (i : Pid)
    (cmd : SubmitWagerTransactionCommand) (J K : Database → Prop) : Prop :=
  ∃ m m', [m, m'].Sublist moves ∧ StepOf i cmd m ∧ StepOf i cmd m' ∧
    J m.before.shared.db ∧ K m'.before.shared.db

theorem During.now (h : Executes cmd stage (c.procs i)) (hended : stage.ended = false)
    (hJ : J c.shared.db) : During (moves ++ [⟨c, i, a, c'⟩]) i cmd J :=
  ⟨_, List.mem_append_right _ List.mem_cons_self, ⟨rfl, stage, h, hended⟩, hJ⟩

theorem During.later (h : During moves i cmd J) : During (moves ++ [m]) i cmd J := by
  obtain ⟨m₁, hm₁, hstep, hJ⟩ := h
  exact ⟨m₁, List.mem_append_left _ hm₁, hstep, hJ⟩

theorem During.imp (h : During moves i cmd J) (himp : ∀ d, J d → J' d) :
    During moves i cmd J' := by
  obtain ⟨m₁, hm₁, hstep, hJ⟩ := h
  exact ⟨m₁, hm₁, hstep, himp _ hJ⟩

theorem During.andThen (h : During moves i cmd J) (hexecutes : Executes cmd stage (c.procs i))
    (hended : stage.ended = false) (hK : K c.shared.db) :
    DuringThen (moves ++ [⟨c, i, a, c'⟩]) i cmd J K := by
  obtain ⟨m₁, hm₁, hstep, hJ⟩ := h
  exact ⟨m₁, ⟨c, i, a, c'⟩, (List.singleton_sublist.mpr hm₁).append (.refl _), hstep,
    ⟨rfl, stage, hexecutes, hended⟩, hJ, hK⟩

theorem DuringThen.later (h : DuringThen moves i cmd J K) :
    DuringThen (moves ++ [m]) i cmd J K := by
  obtain ⟨m₁, m₂, hsub, hrest⟩ := h
  exact ⟨m₁, m₂, hsub.trans (List.sublist_append_left _ _), hrest⟩

/-- A statement of the call `i` has failed. -/
def Failed (moves : List (Move Shared Proc Action)) (i : Pid) : Prop :=
  ∃ m ∈ moves, m.pid = i ∧ m.action = .fail

theorem Failed.later (h : Failed moves i) : Failed (moves ++ [m]) i := by
  obtain ⟨m₁, hm₁, hfail⟩ := h
  exact ⟨m₁, List.mem_append_left _ hm₁, hfail⟩

namespace Submit

/-! ## A call that comes to its claim -/

/-- `execute` gets as far as the claim, and the row can be inserted but for its keys. -/
structure Arrives (P : Platform) (d : Database) (cmd : SubmitWagerTransactionCommand) : Prop where
  kind : cmd.kind ≠ .opening
  wallet : ∃ wallet, P.uuid cmd.walletId = some wallet.id ∧ d.findWallet wallet.id = some wallet ∧
    wallet.playerId = cmd.playerId
  row : ∃ id now, WagerTransaction.create (props P cmd id now) =
    .ok ⟨props P cmd id now, .pending, none, none, none, 0, none⟩
  money : 0 ≤ cmd.money.minorUnits

theorem Drafted.arrives (h : Drafted P own d cmd wallet tx) (hc : Consistent P d)
    (hmoney : 0 ≤ cmd.money.minorUnits) : Arrives P d cmd := by
  obtain ⟨r, hheld⟩ := h.held
  have hfound : d.findWallet wallet.id = some wallet := by
    rw [hheld.read]
    exact hc.findWallet hheld.row
  obtain ⟨now, hcreated⟩ := h.created
  have hnow : tx.createdAt = now := by rw [hcreated]; rfl
  refine ⟨h.kind, ⟨wallet, h.walletId, hfound, h.player⟩, ⟨tx.id, now, ?_⟩, hmoney⟩
  rw [← hnow, h.create_eq, hcreated]
  rfl

theorem Arrives.stable (h : Arrives P d cmd) (hc' : Consistent P d') (hk : Keeps d d') :
    Arrives P d' cmd := by
  obtain ⟨wallet, huuid, hfound, hplayer⟩ := h.wallet
  refine { h with wallet := ?_ }
  obtain ⟨r, hrow, rfl⟩ := Option.map_eq_some_iff.mp hfound
  obtain ⟨hr, -⟩ := lookup_mem hrow
  obtain ⟨r', hr', hsame⟩ := hk.wallets r hr
  refine ⟨toWalletDomain r', ?_, hc'.findWallet hr', ?_⟩
  · rw [huuid]
    exact congrArg some hsame.1.symm
  · exact hsame.2.1.trans hplayer

/-- Where one of its keys is taken, the call ends as `handleClaimConflict` says. -/
theorem Arrives.conflicts (h : Arrives P d cmd) (htaken : Taken d cmd) :
    ∃ g, execute P d cmd g = handleClaimConflict P d cmd := by
  obtain ⟨wallet, huuid, hfound, hplayer⟩ := h.wallet
  obtain ⟨id, now, hcreate⟩ := h.row
  refine ⟨⟨now, id, id, fun _ => id⟩, ?_⟩
  unfold execute processNew
  rw [if_neg h.kind, huuid]
  dsimp only
  rw [hfound]
  dsimp only
  rw [if_neg (not_not.mpr hplayer), hcreate]
  dsimp only
  have hcheck : ¬Database.violatesCheck (claimWrites P
      ⟨props P cmd id now, .pending, none, none, none, 0, none⟩) = true := by
    have hmoney : ¬cmd.money.minorUnits < 0 := Int.not_lt.mpr h.money
    simpa [Database.violatesCheck, claimWrites, toWagerTransactionEntity, props] using hmoney
  unfold claim
  rw [if_neg hcheck, if_pos]
  rw [Bool.or_eq_true]
  rcases htaken with ⟨t, ht, hkey⟩ | ⟨t, ht, hexternal⟩
  · exact Or.inl (List.find?_isSome.mpr ⟨t, ht, decide_eq_true hkey⟩)
  · exact Or.inr (List.find?_isSome.mpr ⟨t, ht, decide_eq_true hexternal⟩)

/-- A claim that its CHECK refuses ends the call. -/
theorem Drafted.unclaimable (h : Drafted P own d cmd wallet tx) (hc : Consistent P d)
    (hcheck : Database.violatesCheck (claimWrites P tx) = true) :
    ∃ g, execute P d cmd g = .error .database := by
  refine ⟨rowGenerated tx tx.id fun _ => tx.id, ?_⟩
  rw [h.execute_eq hc rfl rfl]
  exact if_pos hcheck

/-! ## What a call answers -/

/-- What the call answers is answered by a serial submit that has `looked` so. -/
def Served (P : Platform) (looked : Query → Database → Prop) (cmd : SubmitWagerTransactionCommand)
    (result : SubmitWagerTransactionResult) (d : Database) : Prop :=
  ∃ g ws, Serial P looked d cmd g result ws ∧
    (requiresReferenceFor cmd.kind = false → execute P d cmd g = .ok (result, ws))

def Refused (P : Platform) (cmd : SubmitWagerTransactionCommand) (err : Exception)
    (d : Database) : Prop := ∃ g, execute P d cmd g = .error err

/-- The call would answer with the row `t`, and with its balance. -/
def Replays (P : Platform) (cmd : SubmitWagerTransactionCommand) (t : WagerTransaction)
    (balance : Money) (d : Database) : Prop :=
  ∃ g, execute P d cmd g = .ok (⟨t, true, balance⟩, [])

theorem Serial.mono {g : Generated} (hlooked : ∀ q v, looked q v → looked' q v)
    (h : Serial P looked d cmd g result ws) : Serial P looked' d cmd g result ws := by
  cases h with
  | decides fresh executes new => exact .decides fresh executes new
  | parks fresh executes new created asked unresolved parked =>
    exact .parks fresh executes new created (hlooked _ _ asked) unresolved parked

theorem Served.mono (hlooked : ∀ q v, looked q v → looked' q v)
    (h : Served P looked cmd result d) : Served P looked' cmd result d := by
  obtain ⟨g, ws, hserial, hplain⟩ := h
  exact ⟨g, ws, hserial.mono hlooked, hplain⟩

/-- A kind that needs no reference is decided as if nothing interleaved with it. -/
theorem Serial.executes {g : Generated} (h : Serial P looked d cmd g result ws)
    (hplain : requiresReferenceFor cmd.kind = false) : execute P d cmd g = .ok (result, ws) := by
  cases h with
  | decides _ executes _ => exact executes
  | parks _ _ _ created _ unresolved _ =>
    have hrequires : WagerTransaction.requiresReference _ = requiresReferenceFor cmd.kind :=
      congrArg WagerTransaction.requiresReference (create_ok created).1
    unfold resolve at unresolved
    rw [hrequires, hplain] at unresolved
    cases unresolved

theorem Committing.new (h : Committing P looked own d cmd ws result) :
    result.idempotentReplay = false := by
  cases h
  rfl

theorem Committing.served (h : Committing P looked own d cmd ws result) (hc : Consistent P d) :
    Served P looked cmd result d := by
  obtain ⟨g, hserial⟩ := h.serial hc
  exact ⟨g, ws, hserial, hserial.executes⟩

end Submit

/-- The row `t` is replayed where the call takes one of its steps, and the balance is that of the
row where it takes a later one. -/
def ReplayedAt (P : Platform) (moves : List (Move Shared Proc Action)) (i : Pid)
    (cmd : SubmitWagerTransactionCommand) (t : WagerTransaction) (balance : Money) : Prop :=
  DuringThen moves i cmd (fun d => ∃ balance, Submit.Replays P cmd t balance d)
    fun d => ∃ t', t'.toCreateWagerTransactionProps = t.toCreateWagerTransactionProps ∧
      Submit.Replays P cmd t' balance d

/-- What the call throws is thrown by a serial submit, or a statement of the call failed. -/
def Thrown (P : Platform) (moves : List (Move Shared Proc Action)) (i : Pid)
    (cmd : SubmitWagerTransactionCommand) (err : Exception) : Prop :=
  (err = .database ∧ Failed moves i) ∨ During moves i cmd (Submit.Refused P cmd err)

/-- What is known of the answer of the call, at each stage. -/
def Told (P : Platform) (moves : List (Move Shared Proc Action)) (d : Database) (i : Pid)
    (cmd : SubmitWagerTransactionCommand) : SubmitStage → Prop
  | .findByKey => Submit.Arrives P d cmd
  | .findWallet byKey => Submit.Arrives P d cmd ∧
      (∃ row ∈ d.wagerTransactions,
        row.toCreateWagerTransactionProps = byKey.toCreateWagerTransactionProps ∧
          row.idempotencyKey = cmd.idempotencyKey ∧ row.payloadHash = cmd.payloadHash P) ∧
      During moves i cmd fun d => ∃ balance, Submit.Replays P cmd byKey balance d
  | .findByExternal => During moves i cmd (Submit.Refused P cmd
      (.domain (.idempotencyConflict cmd.idempotencyKey (some Submit.externalConflict))))
  | .returned result =>
      (result.idempotentReplay = false ∧
        During moves i cmd (Submit.Served P (Looked (history moves) i) cmd result)) ∨
      (result.idempotentReplay = true ∧ ReplayedAt P moves i cmd result.transaction result.balance)
  | .threw err => Thrown P moves i cmd err
  | _ => True

theorem Told.later (h : Told P moves d i cmd stage) (hc' : Consistent P d') (hk : Keeps d d') :
    Told P (moves ++ [m]) d' i cmd stage := by
  cases stage with
  | findByKey => exact Submit.Arrives.stable h hc' hk
  | findWallet byKey =>
    obtain ⟨harrives, ⟨row, hrow, hprops, hkey, hhash⟩, hduring⟩ := h
    obtain ⟨row', hrow', hprops'⟩ := hk.rows row hrow
    exact ⟨harrives.stable hc' hk, ⟨row', hrow', hprops'.trans hprops,
      (congrArg (·.idempotencyKey) hprops').trans hkey,
      (congrArg (·.payloadHash) hprops').trans hhash⟩, hduring.later⟩
  | findByExternal => exact During.later h
  | returned result =>
    rcases h with ⟨hnew, hserved⟩ | ⟨hreplay, hreplayed⟩
    · exact Or.inl ⟨hnew, hserved.later.imp fun _ => .mono fun _ _ hlooked => hlooked.mono m⟩
    · exact Or.inr ⟨hreplay, hreplayed.later⟩
  | threw err => exact h.imp (fun hfailed => ⟨hfailed.1, hfailed.2.later⟩) During.later
  | _ => trivial

/-! ## A step -/

/-- Where the key of the call is taken, it replays the row or is refused. -/
theorem Submit.handleClaimConflict_found {row : WagerTransaction}
    (hfound : d.findByIdempotencyKey cmd.idempotencyKey = some row) :
    Submit.handleClaimConflict P d cmd =
      if row.matchesPayload (cmd.payloadHash P) then Submit.replay d cmd row
      else .error (.domain (.idempotencyConflict cmd.idempotencyKey none)) := by
  unfold Submit.handleClaimConflict
  rw [hfound]

theorem Submit.ended_of_step (hstep : Submit.step P cmd i inp s stage = some (s', stage')) :
    stage.ended = false := by
  cases stage <;> first | rfl | cases hstep

section

variable (hexecutes : Executes cmd stage (c.procs i))
  (hstep : Submit.step P cmd i inp c.shared stage = some (s', stage'))
include hexecutes hstep

theorem step_refused {err : Exception} (h : Submit.Refused P cmd err c.shared.db) :
    Thrown P (moves ++ [⟨c, i, a, c'⟩]) i cmd err :=
  Or.inr (.now hexecutes (Submit.ended_of_step hstep) h)

theorem step_told_findByKey (hstage : stage = .findByKey) (h : Submit.Arrives P c.shared.db cmd)
    (htaken : Submit.Taken c.shared.db cmd) :
    Told P (moves ++ [⟨c, i, a, c'⟩]) s'.db i cmd stage' := by
  subst hstage
  obtain ⟨g, hexecute⟩ := h.conflicts htaken
  have hdb := (Submit.step_way hstep).db
  cases Submit.step_way hstep with
  | noKey missing =>
    -- the key is free, so it is the external id that is taken
    refine .now hexecutes rfl ⟨g, ?_⟩
    rw [hexecute]
    unfold Submit.handleClaimConflict
    rw [missing]
    rcases htaken with ⟨t, ht, hkey⟩ | ⟨t, ht, hexternal⟩
    · exact absurd hkey (lookup_eq_none.mp missing t ht)
    · have hsome : (c.shared.db.findByProviderAndExternalId cmd.providerId
          cmd.externalTransactionId).isSome = true :=
        List.find?_isSome.mpr ⟨t, ht, decide_eq_true hexternal⟩
      obtain ⟨t', ht'⟩ := Option.isSome_iff_exists.mp hsome
      unfold Submit.externalTaken
      rw [ht']
  | sameKey found matching =>
    rw [Submit.handleClaimConflict_found found, if_pos matching] at hexecute
    obtain ⟨hrow, hkey⟩ := lookup_mem found
    rw [hdb]
    exact ⟨h, ⟨_, hrow, rfl, hkey, of_decide_eq_true matching⟩, .now hexecutes rfl ⟨_, g, hexecute⟩⟩
  | otherPayload found matching =>
    rw [Submit.handleClaimConflict_found found, if_neg (Bool.not_eq_true _ ▸ matching)] at hexecute
    exact step_refused hexecutes hstep ⟨g, hexecute⟩

variable (hreach : Reachable (step P) initial c)
include hreach

/-- Before the claim the call throws what it reads. -/
theorem step_told_early {err : Exception} (hthrew : stage' = .threw err)
    (hknows : Submit.Knows P c.shared cmd c.shared stage) :
    Thrown P (moves ++ [⟨c, i, a, c'⟩]) i cmd err := by
  obtain ⟨hs, hprocs⟩ := reachable_ok hreach
  have hknows' := Submit.step_knows hs.consistent hs.drawn rfl (fun _ h => h)
    (hexecutes.ok (hprocs i)) hknows hstep
  subst hthrew
  obtain ⟨g, -, hexecute⟩ := hknows'
  exact step_refused hexecutes hstep ⟨g, hexecute⟩

/-- The balance is read after the row. -/
theorem step_told_findWallet {byKey : WagerTransaction} (hstage : stage = .findWallet byKey)
    (h : Told P moves c.shared.db i cmd (.findWallet byKey)) :
    Told P (moves ++ [⟨c, i, a, c'⟩]) s'.db i cmd stage' := by
  subst hstage
  obtain ⟨harrives, ⟨row, hrow, hprops, hkey, hhash⟩, hduring⟩ := h
  obtain ⟨-, rfl⟩ := Prod.mk.inj (Option.some.inj hstep)
  refine Or.inr ⟨rfl, hduring.andThen hexecutes rfl ⟨row, hprops, ?_⟩⟩
  obtain ⟨g, hexecute⟩ := harrives.conflicts (Or.inl ⟨row, hrow, hkey⟩)
  have hfound := lookup_of_mem (reachable_consistent hreach).idempotencyKeys hrow
  rw [hkey] at hfound
  have hmatches : row.matchesPayload (cmd.payloadHash P) = true := decide_eq_true hhash
  rw [Submit.handleClaimConflict_found hfound, if_pos hmatches] at hexecute
  refine ⟨g, hexecute.trans ?_⟩
  unfold Submit.replay
  rw [show row.walletId = byKey.walletId from congrArg (·.walletId) hprops]

theorem step_told (hlinear : Submit.Linear P looked (owns c.shared i) c.shared.db cmd stage)
    (h : Told P moves c.shared.db i cmd stage) :
    Told P (moves ++ [⟨c, i, a, c'⟩]) s'.db i cmd stage' := by
  obtain ⟨hs, hprocs⟩ := reachable_ok hreach
  have hc := hs.consistent
  have hok := hexecutes.ok (hprocs i)
  have hdb := (Submit.step_way hstep).db
  cases Submit.step_way hstep with
  | begin | drafted | keyClaimed | referring | unreferring | found | unresolved | resolved =>
    trivial
  | opening | noUuid | noWallet | otherPlayer | invalid =>
    exact step_told_early hexecutes hstep hreach rfl trivial
  | unclaimable check =>
    exact step_refused hexecutes hstep (Submit.Drafted.unclaimable hok hc check)
  | keyTaken check =>
    rw [hdb]
    refine Submit.Drafted.arrives hok hc (not_lt.mp fun hneg => ?_)
    rw [(Submit.Drafted.violatesCheck_iff hok).mpr hneg] at check
    cases check
  | externalTaken =>
    rw [hdb]
    exact hok.1.arrives hc hok.2.1
  -- the reference of a reversal is never missing
  | unnamed finds => exact absurd finds (findReference_named (hok.1.missing hok.2))
  | undecided | duplicated | unflushed | decided =>
    rcases Submit.step_finalize_commits hc hs.drawn hok hlinear hstep with
      ⟨ws, result, heq, -⟩ | ⟨heq, g, hexecute⟩
    · rw [heq]
      trivial
    · rw [heq]
      exact step_refused hexecutes hstep ⟨g, hexecute⟩
  | noKey | sameKey | otherPayload => exact step_told_findByKey hexecutes hstep rfl h hlinear
  | replayed => exact step_told_findWallet hexecutes hstep hreach rfl h
  | otherKey =>
    have hduring : During moves i cmd _ := h
    exact Or.inr hduring.later
  | unexplained missing =>
    obtain ⟨t, ht, hexternal⟩ := hlinear
    exact absurd hexternal (lookup_eq_none.mp missing t ht)

end

/-! ## Runs -/

/-- How a process comes to return from `execute`. -/
theorem step_toReturned (h : Executes cmd (.returned result) p')
    (hstep : step P i a s p = some (s', p')) :
    (∃ ws, p = .submit cmd (.commit ws result)) ∨ ∃ inp stage, a = .step inp ∧
      Executes cmd stage p ∧ Submit.step P cmd i inp s stage = some (s', .returned result) := by
  cases step_way hstep with
  | @start call => cases call <;> cases h
  | fail =>
    cases p with
    | consume messageId stage => cases stage <;> cases h
    | _ => cases h
  | submit steps =>
    cases h
    exact Or.inr ⟨_, _, rfl, .direct, steps⟩
  | submitted =>
    cases h
    exact Or.inl ⟨_, rfl⟩
  | consume steps =>
    cases h with
    | nested _ now claimed =>
      rcases Consume.step_toSubmit steps with hbegin | ⟨stage, rfl, hsubmit⟩
      · cases hbegin
      · exact Or.inr ⟨_, stage, rfl, .nested _ now claimed, hsubmit⟩
  | crash | openWallet | reprocess | publishOutbox => cases h

/-- What the call `i` of `execute` knows of its commit. -/
theorem Executes.linear (hexecutes : Executes cmd stage p) (h : p.Linear P looked own d) :
    Submit.Linear P looked own d cmd stage := by
  cases hexecutes <;> exact h

theorem runs_told (h : Runs P initial c moves) : ∀ i cmd stage, Executes cmd stage (c.procs i) →
    Told P moves c.shared.db i cmd stage := by
  induction h with
  | init =>
    intro i cmd stage hexecutes
    have hidle : Executes cmd stage .idle := hexecutes
    cases hidle
  | @step c c' i a moves run _ hmoved htold =>
    intro j cmd stage hexecutes
    have hreach := run.reach
    have hc := reachable_consistent hreach
    by_cases hij : j = i
    · subst hij
      have hlinear := runs_linear run j
      have hinner : ∀ {inp before}, Executes cmd before (c.procs j) →
          Submit.step P cmd j inp c.shared before = some (c'.shared, stage) →
            Told P (moves ++ [⟨c, j, a, c'⟩]) c'.shared.db j cmd stage :=
        fun hbefore hstep =>
          step_told hbefore hstep hreach (hbefore.linear hlinear) (htold j cmd _ hbefore)
      rcases step_toExecutes hexecutes (next_self hmoved) with
        rfl | ⟨rfl, rfl⟩ | ⟨result, rfl⟩ | ⟨inp, before, -, hbefore, hstep⟩
      · trivial
      · exact Or.inl ⟨rfl, _, List.mem_append_right _ List.mem_cons_self, rfl, rfl⟩
      · rcases step_toReturned hexecutes (next_self hmoved) with
          ⟨ws, hcommit⟩ | ⟨inp, before, -, hbefore, hstep⟩
        · -- the call returns where it commits
          have hbefore : Executes cmd (.commit ws result) (c.procs j) := hcommit ▸ .direct
          have hcommitting : Submit.Committing P _ _ _ cmd ws result := hbefore.linear hlinear
          exact Or.inl ⟨hcommitting.new, .now hbefore rfl
            ((hcommitting.served hc).mono fun _ _ hlooked => hlooked.mono _)⟩
        · exact hinner hbefore hstep
      · exact hinner hbefore hstep
    · rw [next_other hmoved hij] at hexecutes
      exact (htold j cmd stage hexecutes).later (reachable_consistent (.step hreach trivial hmoved))
        ((reachable_effect hreach hmoved).history hc).toKeeps

/-- What the callers of `execute` are answered, by the API or in a consumer, at the end of a run. -/
structure Linearized (P : Platform) (c : Config Shared Proc)
    (moves : List (Move Shared Proc Action)) : Prop where
  commits : ∀ i cmd ws result, Executes cmd (.commit ws result) (c.procs i) →
    ∃ g, Submit.Serial P (Looked (history moves) i) c.shared.db cmd g result ws
  returned : ∀ i cmd result, Executes cmd (.returned result) (c.procs i) →
    result.idempotentReplay = false →
      During moves i cmd (Submit.Served P (Looked (history moves) i) cmd result)
  replayed : ∀ i cmd result, Executes cmd (.returned result) (c.procs i) →
    result.idempotentReplay = true → ReplayedAt P moves i cmd result.transaction result.balance
  threw : ∀ i cmd err, Executes cmd (.threw err) (c.procs i) → Thrown P moves i cmd err

theorem reachable_linearized (h : Runs P initial c moves) : Linearized P c moves where
  commits i cmd ws result hexecutes := by
    have hcommitting : Submit.Committing P _ _ _ cmd ws result := hexecutes.linear (runs_linear h i)
    exact hcommitting.serial (reachable_consistent h.reach)
  returned i cmd result hexecutes hnew := by
    rcases runs_told h i cmd _ hexecutes with ⟨-, hserved⟩ | ⟨hreplay, -⟩
    · exact hserved
    · cases hnew.symm.trans hreplay
  replayed i cmd result hexecutes hreplay := by
    rcases runs_told h i cmd _ hexecutes with ⟨hnew, -⟩ | ⟨-, hreplayed⟩
    · cases hnew.symm.trans hreplay
    · exact hreplayed
  threw i cmd err hexecutes := runs_told h i cmd _ hexecutes

/-- The bet is submitted again, and then with another amount. -/
def resubmittedBet : List (Pid × Action) :=
  openAndBet ++ runCall 2 (.submit (submitCommand .bet "bet-1" none (uuidText 10))) 13 5 ++
    runCall 3 (.submit { submitCommand .bet "bet-1" none (uuidText 10) with
      money := ⟨9000, brl⟩ }) 18 4

theorem resubmittedBet_linearized : ∃ c moves, Runs localPlatform initial c moves ∧
    isReplay (c.procs 1) = some false ∧ isReplay (c.procs 2) = some true ∧
      c.procs 3 = .submit
        { submitCommand .bet "bet-1" none (uuidText 10) with money := ⟨9000, brl⟩ }
        (.threw (.domain (.idempotencyConflict "key-bet-1" none))) ∧
      Linearized localPlatform c moves := by
  have hrun : (watchIf (step localPlatform) (fun _ _ _ => True)
      (fun c i a c' => [(⟨c, i, a, c'⟩ : Move Shared Proc Action)]) initial [] resubmittedBet).any
      (fun out => decide (isReplay (out.1.procs 1) = some false) &&
        decide (isReplay (out.1.procs 2) = some true) &&
        decide (out.1.procs 3 = .submit { submitCommand .bet "bet-1" none (uuidText 10) with
          money := ⟨9000, brl⟩ } (.threw (.domain (.idempotencyConflict "key-bet-1" none))))) =
      true := by
    decide +kernel
  obtain ⟨c, moves, hruns, hp⟩ := watched_of_any hrun
  simp only [Bool.and_eq_true, decide_eq_true_eq] at hp
  obtain ⟨⟨hfirst, hsecond⟩, hthird⟩ := hp
  exact ⟨c, moves, hruns, hfirst, hsecond, hthird, reachable_linearized hruns⟩

/-! ## The conflicts -/

end WageringProcessor
