import WageringProcessor.Invariants.Commits
import WageringProcessor.Invariants.Effect
import WageringProcessor.Invariants.Locking

/-!
# What a reprocess run does with one waiting row

A run reads the row when its batch begins, holds its lock until it ends, and writes at most one
decision on it.
-/

namespace WageringProcessor

open Library.Interleaving Library.Locks Library.Table WagerTransactionFinalizer

variable {P : Platform} {i j : Pid} {s s' : Shared} {p p' : Proc} {c c' : Config Shared Proc}
  {a : Action} {inp : Input} {own own' : Resource → Prop} {d d' : Database} {D : Prop} {id : Id}
  {tx t : WagerTransaction} {run : ReprocessRun} {todo rest : List WagerTransaction}
  {stage stage' : ReprocessStage} {batchSize : Nat}

/-! ## Stages -/

/-- The variables of a run that has begun and has not ended. -/
def ReprocessStage.run? : ReprocessStage → Option ReprocessRun
  | .item run _ | .findReversal run _ _ _ _ | .resolved run _ _ _ _ | .applyEffect run _ _ _ _ _ =>
    some run
  | .begin | .returned _ | .threw _ => none

def Proc.run? : Proc → Option ReprocessRun
  | .reprocess _ stage => stage.run?
  | _ => none

/-- A run that goes on with the row `id` has not found a reference that decides it. -/
def undecided (id : Id) : Proc → Action → Bool
  | .reprocess _ (.resolved _ tx _ resolution _), .step _ => tx.id ≠ id || resolution = .pending
  | _, _ => true

/-- A run takes its own time for every event, and applies an effect only where a reference may
decide the row `id`. -/
def ReprocessStage.Timed (D : Prop) (id : Id) : ReprocessStage → Prop
  | .findReversal run _ ctx _ _ | .resolved run _ ctx _ _ => ctx.now = run.now
  | .applyEffect run tx ctx _ _ _ => ctx.now = run.now ∧ (tx.id = id → D)
  | _ => True

theorem Reprocess.Ok.runOk (h : Ok P own d stage) (hrun : stage.run? = some run) :
    ∃ todo, RunOk P own d run todo := by
  cases stage with
  | begin | returned | threw => cases hrun
  | item run₀ todo =>
    obtain rfl := Option.some.inj hrun
    exact ⟨todo, h⟩
  | findReversal run₀ tx ctx reference rest | resolved run₀ tx ctx reference rest
  | applyEffect run₀ tx ctx wallet reference rest =>
    obtain rfl := Option.some.inj hrun
    exact ⟨_, h.1⟩

/-! ## What a pick may leave -/

/-- What a run at `now` may leave of a waiting row; a terminal row of another kind than a timeout
only where `D` holds. -/
inductive Tried (D : Prop) (now : Date) (tx : WagerTransaction) : WagerTransaction → Prop
  | waits (again : tx.referenceRetryAttempts < MAX_REFERENCE_RETRY_ATTEMPTS) :
      Tried D now tx (parkedTransaction tx now)
  | timesOut (spent : MAX_REFERENCE_RETRY_ATTEMPTS ≤ tx.referenceRetryAttempts) :
      Tried D now tx (rejectedTransaction tx .referenceResolutionTimeout now)
  | decides {t : WagerTransaction} (found : D) (terminal : t.isTerminal = true) : Tried D now tx t

theorem stored_of_props (hstored : toWagerTransactionEntity P tx = tx)
    (h : t.toCreateWagerTransactionProps = tx.toCreateWagerTransactionProps) :
    toWagerTransactionEntity P t = t := by
  have hwallet : P.canonical t.walletId = t.walletId := by
    rw [congrArg CreateWagerTransactionProps.walletId h]
    exact congrArg (fun t : WagerTransaction => t.walletId) hstored
  have hplayer : P.canonical t.playerId = t.playerId := by
    rw [congrArg CreateWagerTransactionProps.playerId h]
    exact congrArg (fun t : WagerTransaction => t.playerId) hstored
  unfold toWagerTransactionEntity
  rw [hwallet, hplayer]

/-- The row that a decision on an unresolved item writes. -/
theorem Reprocess.decide_tried {ctx : EventContext} {failureCode : Option FailureCode}
    {eventId : Id} {w : Writes} (hstored : toWagerTransactionEntity P tx = tx)
    (hopen : tx.isTerminal = false) (hfound : failureCode ≠ none → D)
    (hw : Reprocess.decide P tx ctx failureCode eventId = .ok w) :
    ∃ t, w.wagerTransactions = [t] ∧ t.id = tx.id ∧ Tried D ctx.now tx t := by
  obtain ⟨hrow, -, -⟩ := Reprocess.decide_row hopen hw
  have hid := congrArg CreateWagerTransactionProps.id hrow.props
  refine ⟨_, stored_of_props hstored hrow.props ▸ hrow.row, hid, ?_⟩
  unfold retriedTransaction
  cases failureCode with
  | some code => exact .decides (hfound nofun) rfl
  | none =>
    dsimp only
    split
    · exact .timesOut ‹_›
    · exact .waits (Nat.lt_of_not_le ‹_›)

theorem applyEffect_tried {ctx : EventContext} {wallet : Wallet}
    {reference : Option WagerTransaction} {newId : Nat → Id}
    {out : WagerTransaction × Wallet × Writes} {now : Date} (hopen : tx.isTerminal = false)
    (hout : applyEffect P tx wallet reference ctx newId = .ok out) :
    ∃ t, out.2.2.wagerTransactions = [t] ∧ t.id = tx.id ∧ (D → Tried D now tx t) := by
  have hrow := applyEffect_row hopen hout
  have hid : out.1.id = tx.id := congrArg CreateWagerTransactionProps.id hrow.props
  refine ⟨_, hrow.row, hid, fun found => .decides found ?_⟩
  cases applyEffect_cases hopen hout with
  | lost | moved => rfl
  | rejected _ _ _ _ hreject =>
    rw [(reject_row hopen hreject).2]
    rfl

/-! ## A run and the row -/

/-- The row `id`, if the run has picked it: unchanged since the run read it, when it was due, and
as the run sees it either that or what the run has decided. -/
structure Attempt (D : Prop) (id : Id) (d : Database) (run : ReprocessRun) : Prop where
  picked : ∀ tx ∈ run.batch, tx.id = id →
    tx ∈ d.wagerTransactions ∧ Database.duePendingReference run.now tx = true
  tried : ∀ tx ∈ run.batch, tx.id = id → ∃ t ∈ (d.applyAll run.writes).wagerTransactions,
    t.id = id ∧ (t = tx ∨ Tried D run.now tx t)

def Retrying (D : Prop) (id : Id) (d : Database) : Proc → Prop
  | .reprocess _ stage => stage.Timed D id ∧ ∀ run, stage.run? = some run → Attempt D id d run
  | _ => True

theorem Attempt.stable (h : Attempt D id d run) (hrun : Reprocess.RunOk P own d run todo)
    (hc : Consistent P d) (f : Frame own d d') : Attempt D id d' run := by
  have hview := hrun.settled.frame_applyAll hc f
  constructor
  · intro tx htx hid
    obtain ⟨hmem, hdue⟩ := h.picked tx htx hid
    exact ⟨f.ownRow tx hmem (hrun.owns tx htx), hdue⟩
  · intro tx htx hid
    obtain ⟨t, ht, htid, htried⟩ := h.tried tx htx hid
    have howns : own (.transaction t.id) := by
      rw [htid, ← hid]
      exact hrun.owns tx htx
    exact ⟨t, hview.ownRow t ht howns, htid, htried⟩

/-- One more decision, on the item `tx`. -/
theorem Attempt.settle {w : Writes} (h : Attempt D id d run)
    (hrun : Reprocess.RunOk P own d run (tx :: rest)) (hrow : w.wagerTransactions = [t])
    (hid : t.id = tx.id) (htried : tx.id = id → Tried D run.now tx t) :
    Attempt D id d { run with writes := run.writes ++ [w] } := by
  have hview : d.applyAll (run.writes ++ [w]) = (d.applyAll run.writes).apply w := by
    simp [Database.applyAll]
  refine ⟨h.picked, fun x hx hxid => ?_⟩
  dsimp only at hx ⊢
  rw [hview]
  by_cases hitem : tx.id = id
  · obtain ⟨done, hbatch, -⟩ := hrun.decided
    have htx : tx ∈ run.batch := by
      rw [hbatch]
      exact List.mem_append_right _ List.mem_cons_self
    obtain rfl : x = tx := List.inj_on_of_nodup_map hrun.nodup hx htx (hxid.trans hitem.symm)
    exact ⟨t, (Database.mem_transactions_apply hrow).mpr (Or.inl rfl), hid.trans hitem,
      Or.inr (htried hitem)⟩
  · obtain ⟨t₀, ht₀, hid₀, htried₀⟩ := h.tried x hx hxid
    have hne : t₀.id ≠ t.id := by
      rw [hid₀, hid]
      exact Ne.symm hitem
    exact ⟨t₀, (Database.mem_transactions_apply hrow).mpr (Or.inr ⟨ht₀, hne⟩), hid₀, htried₀⟩

/-! ## The steps of a run -/

theorem Reprocess.begin_attempt {inp : Input} (hdb : s'.db = s.db)
    (hbatch : isBatch s inp.now batchSize inp.batch = true) :
    Attempt D id s'.db ⟨inp.now, inp.batch.filterMap s.db.findWagerTransaction, []⟩ := by
  simp only [isBatch, Bool.and_eq_true, List.all_eq_true] at hbatch
  obtain ⟨⟨-, hdue⟩, -⟩ := hbatch
  rw [hdb]
  constructor
  · intro tx htx _
    obtain ⟨id', hid', hfind⟩ := List.mem_filterMap.mp htx
    have havailable := hdue id' hid'
    rw [hfind] at havailable
    simp only [Option.any_some, available, Bool.and_eq_true] at havailable
    exact ⟨(lookup_mem hfind).1, havailable.1⟩
  · intro tx htx hid
    obtain ⟨id', -, hfind⟩ := List.mem_filterMap.mp htx
    exact ⟨tx, (lookup_mem hfind).1, hid, Or.inl rfl⟩

theorem Reprocess.Decision.run? {ids : List Id} {outcome : Except DomainError Writes}
    (decision : Decision P inp stage run tx rest ids outcome) : stage.run? = some run := by
  cases decision <;> rfl

/-- The row of a decision.  A rejection by the reference, or an effect, needs `D`. -/
theorem Reprocess.Decision.tried {ids : List Id} {outcome : Except DomainError Writes}
    {w : Writes} (decision : Decision P inp stage run tx rest ids outcome)
    (hc : Consistent P d) (hok : Ok P own d stage)
    (hguard : D ∨ undecided id (.reprocess batchSize stage) (.step inp) = true)
    (htimed : stage.Timed D id) (hw : outcome = .ok w) :
    ∃ t, w.wagerTransactions = [t] ∧ t.id = tx.id ∧ (tx.id = id → Tried D run.now tx t) := by
  have hrun := decision.runOk hok
  have hstored := ((hrun.consistent hc).rows tx hrun.head.row).stored
  have hopen := not_terminal_of_pendingReference hrun.head.status
  cases decision with
  | rejects =>
    by_cases hid : tx.id = id
    · have hdecisive : D := by
        refine hguard.resolve_right fun hundecided => ?_
        simp [undecided, hid] at hundecided
      obtain ⟨t, hrow, htid, htried⟩ := decide_tried hstored hopen (fun _ => hdecisive) hw
      exact ⟨t, hrow, htid, fun _ => htimed ▸ htried⟩
    · obtain ⟨t, hrow, htid, -⟩ := decide_tried hstored hopen (fun _ => trivial) hw
      exact ⟨t, hrow, htid, fun h => absurd h hid⟩
  | waits =>
    obtain ⟨t, hrow, htid, htried⟩ := decide_tried hstored hopen (fun h => absurd rfl h) hw
    exact ⟨t, hrow, htid, fun _ => htimed ▸ htried⟩
  | applies =>
    obtain ⟨out, hout, rfl⟩ := ok_of_map hw
    obtain ⟨t, hrow, htid, htried⟩ := applyEffect_tried hopen hout
    exact ⟨t, hrow, htid, fun hid => htried (htimed.2 hid)⟩

theorem Reprocess.step_retrying (hs : SharedOk P s) (hok : Ok P (owns s i) s.db stage)
    (hguard : D ∨ undecided id (.reprocess batchSize stage) (.step inp) = true)
    (h : Retrying D id s.db (.reprocess batchSize stage))
    (hstep : step P i batchSize inp s stage = some (s', stage')) :
    Retrying D id s'.db (.reprocess batchSize stage') := by
  obtain ⟨htimed, hattempt⟩ := h
  cases step_way hstep with
  | begin batch takes =>
    refine ⟨trivial, fun run hrun => ?_⟩
    obtain rfl := Option.some.inj hrun
    exact begin_attempt (take_db takes) batch
  | found draws | unresolved draws =>
    rw [draw_db draws]
    exact ⟨rfl, hattempt⟩
  | resolved => exact ⟨htimed, hattempt⟩
  | @locked _ tx _ _ _ _ _ _ _ takes =>
    have hdecisive : tx.id = id → D := by
      intro hid
      refine hguard.resolve_right fun hundecided => ?_
      simp [undecided, hid] at hundecided
    rw [take_db takes]
    exact ⟨⟨htimed, hdecisive⟩, hattempt⟩
  | decided decision writes draws =>
    obtain ⟨t, hrow, htid, htried⟩ := decision.tried hs.consistent hok hguard htimed writes
    refine ⟨trivial, fun run' hrun' => ?_⟩
    obtain rfl := Option.some.inj hrun'
    rw [draw_db draws]
    exact (hattempt _ decision.run?).settle (decision.runOk hok) hrow htid htried
  | commits | unnamed | noUuid | noWallet | undecided | unflushed => exact ⟨trivial, nofun⟩

theorem step_retrying (hs : SharedOk P s) (hp : ProcOk P i s p)
    (hguard : D ∨ undecided id p a = true) (h : Retrying D id s.db p)
    (hstep : step P i a s p = some (s', p')) : Retrying D id s'.db p' := by
  cases p' with
  | reprocess batchSize stage' =>
    rcases step_reprocess hstep with rfl | rfl | ⟨inp, stage, rfl, rfl, hinner⟩
    · exact ⟨trivial, nofun⟩
    · exact ⟨trivial, nofun⟩
    · exact Reprocess.step_retrying hs hp hguard h hinner
  | _ => trivial

theorem Retrying.stable (h : Retrying D id s.db p) (hp : ProcOk P j s p)
    (hc : Consistent P s.db) (f : Frame (owns s j) s.db s'.db) : Retrying D id s'.db p := by
  cases p with
  | reprocess batchSize stage =>
    refine ⟨h.1, fun run hrun => ?_⟩
    obtain ⟨todo, hrunOk⟩ := Reprocess.Ok.runOk hp hrun
    exact (h.2 run hrun).stable hrunOk hc f
  | _ => trivial

/-- The condition on the steps of a run. -/
abbrev Undecided (id : Id) (c : Config Shared Proc) (i : Pid) (a : Action) : Prop :=
  undecided id (c.procs i) a = true

theorem reach_retrying {ok : Config Shared Proc → Pid → Action → Prop} {c₁ : Config Shared Proc}
    (hok : ∀ c i a, ok c i a → D ∨ Undecided id c i a) (h₁ : Reachable (step P) initial c₁)
    (hstart : ∀ i, Retrying D id c₁.shared.db (c₁.procs i)) (h : Reach (step P) ok c₁ c) (i : Pid) :
    Retrying D id c.shared.db (c.procs i) := by
  refine h.invariant (P := fun c => ∀ i, Retrying D id c.shared.db (c.procs i)) hstart ?_ i
  intro c j a c' hreach hretrying hguard hmoved k
  have hreachable := Reach.trans h₁ hreach.reachable
  obtain ⟨hs, hprocs⟩ := reachable_ok hreachable
  by_cases hkj : k = j
  · subst hkj
    exact step_retrying hs (hprocs k) (hok c k a hguard) (hretrying k) (next_self hmoved)
  · rw [next_other hmoved hkj]
    exact (hretrying k).stable (hprocs k) hs.consistent
      ((reachable_effect hreachable hmoved).frame hs.consistent hkj)

theorem reachable_retrying (h : Reachable (step P) initial c) (id : Id) (i : Pid) :
    Retrying True id c.shared.db (c.procs i) :=
  reach_retrying (fun _ _ _ _ => Or.inl trivial) .init (fun _ => trivial) h i

/-! ## What a step does to the row -/

/-- The run that a step commits. -/
def committedRun : Proc → Action → Option ReprocessRun
  | .reprocess _ (.item run []), .step _ => some run
  | _, _ => none

/-- A committed pick: the time of its run, the row as the run read it and the row that it left. -/
structure Pick where
  now : Date
  seen : WagerTransaction
  left : Option WagerTransaction
deriving DecidableEq, Repr

/-- The picks of the row `id` that a step commits. -/
def picks (id : Id) (c : Config Shared Proc) (i : Pid) (a : Action) (c' : Config Shared Proc) :
    List Pick :=
  match committedRun (c.procs i) a with
  | none => []
  | some run =>
    (run.batch.filter (·.id = id)).map fun tx =>
      ⟨run.now, tx, c'.shared.db.findWagerTransaction id⟩

theorem committedRun_eq_some (h : committedRun p a = some run) :
    ∃ batchSize inp, p = .reprocess batchSize (.item run []) ∧ a = .step inp := by
  unfold committedRun at h
  split at h
  · obtain rfl := Option.some.inj h
    exact ⟨_, _, rfl, rfl⟩
  · cases h

theorem committedRun_of_commits (h : (Proc.reprocess batchSize stage).commits = true)
    (hrun : stage.run? = some run) :
    committedRun (.reprocess batchSize stage) (.step inp) = some run := by
  cases stage with
  | item run₀ todo =>
    cases todo with
    | nil => exact hrun
    | cons => cases h
  | _ => cases h

/-- Who holds the lock of a row picked it. -/
theorem mayHold_transaction (h : p.mayHold (.transaction id) = true) :
    ∃ batchSize stage run, p = .reprocess batchSize stage ∧ stage.run? = some run ∧
      ∃ tx ∈ run.batch, tx.id = id := by
  cases p with
  | reprocess batchSize stage =>
    have hrun : ∀ run : ReprocessRun, run.mayHold (.transaction id) = true →
        ∃ tx ∈ run.batch, tx.id = id := by
      intro run hmay
      obtain ⟨tx, htx, hid⟩ := List.any_eq_true.mp hmay
      exact ⟨tx, htx, of_decide_eq_true hid⟩
    cases stage with
    | begin | returned | threw => cases h
    | item run todo => exact ⟨_, _, run, rfl, rfl, hrun run h⟩
    | findReversal run tx ctx reference rest => exact ⟨_, _, run, rfl, rfl, hrun run h⟩
    | resolved run tx ctx resolution rest => exact ⟨_, _, run, rfl, rfl, hrun run h⟩
    | applyEffect run tx ctx wallet reference rest => exact ⟨_, _, run, rfl, rfl, hrun run h⟩
  | idle | crashed => cases h
  | openWallet cmd stage => cases stage <;> cases h
  | submit cmd stage =>
    have hmay : stage.mayHold (.transaction id) = true := h
    have hown := SubmitStage.ofSubmit_of_mayHold hmay
    cases hown
  | consume messageId stage =>
    cases stage with
    | submit now claimed cmd stage =>
      have hmay : (ConsumeStage.submit now claimed cmd stage).mayHold (.transaction id) = true := h
      rcases ConsumeStage.mayHold_submit.mp hmay with ⟨messageId, hk⟩ | hmay
      · cases hk
      · have hown := SubmitStage.ofSubmit_of_mayHold hmay
        cases hown
    | _ => cases h
  | publishOutbox batchSize stage => cases stage <;> cases h

/-- A row that no committed run has picked stays as it is, once it is in the database. -/
theorem row_stays (h : Reachable (step P) initial c) (hmoved : next (step P) c i a = some c')
    (ht : t ∈ c.shared.db.wagerTransactions)
    (hnot : ∀ run, committedRun (c.procs i) a = some run → ∀ tx ∈ run.batch, tx.id ≠ t.id) :
    t ∈ c'.shared.db.wagerTransactions := by
  have hc := reachable_consistent h
  have heffect := reachable_effect h hmoved
  by_cases howns : owns c.shared i (.transaction t.id)
  · obtain ⟨batchSize, stage, run, hp, hrun, tx, htx, hid⟩ :=
      mayHold_transaction (reachable_holds h i _ rfl howns)
    rcases step_writes (next_self hmoved) with ⟨hcommits, ⟨inp, rfl⟩, -, -⟩ | ⟨hdb, -⟩
    · -- the commit of a run that has picked the row
      refine absurd hid (hnot run ?_ tx htx)
      rw [hp] at hcommits ⊢
      exact committedRun_of_commits hcommits hrun
    · rw [hdb]
      exact ht
  · have hframe : Frame (fun k => k = .transaction t.id) c.shared.db c'.shared.db :=
      heffect.frameOf hc fun k hk => by rw [hk]; exact howns
    exact hframe.ownRow t ht rfl

/-- What a step that commits a pick of the row does to it. -/
structure Picked (D : Prop) (id : Id) (d d' : Database) (p : Pick) (t : WagerTransaction) :
    Prop where
  seen : p.seen ∈ d.wagerTransactions
  seenId : p.seen.id = id
  due : Database.duePendingReference p.now p.seen = true
  left : p.left = some t
  row : t ∈ d'.wagerTransactions
  rowId : t.id = id
  tried : Tried D p.now p.seen t

theorem picks_cases (h : Reachable (step P) initial c)
    (hretrying : Retrying D id c.shared.db (c.procs i))
    (hmoved : next (step P) c i a = some c') :
    (picks id c i a c' = [] ∧ ∀ t ∈ c.shared.db.wagerTransactions, t.id = id →
      t ∈ c'.shared.db.wagerTransactions) ∨
    ∃ p t, picks id c i a c' = [p] ∧ Picked D id c.shared.db c'.shared.db p t := by
  by_cases hpicked : ∃ run, committedRun (c.procs i) a = some run ∧ ∃ tx ∈ run.batch, tx.id = id
  · right
    obtain ⟨run, hcommitted, tx, htx, hid⟩ := hpicked
    obtain ⟨batchSize, inp, hp, rfl⟩ := committedRun_eq_some hcommitted
    obtain ⟨hs, hprocs⟩ := reachable_ok h
    have hrun : Reprocess.RunOk P (owns c.shared i) c.shared.db run [] := by
      have hok := hprocs i
      rw [hp] at hok
      exact hok
    rw [hp] at hretrying
    have hattempt := hretrying.2 run rfl
    have hview := hrun.consistent hs.consistent
    have hdb : c'.shared.db = c.shared.db.applyAll run.writes := by
      have hstep := next_self hmoved
      rw [hp] at hstep
      exact congrArg (fun out => out.1.db) (Option.some.inj hstep).symm
    obtain ⟨hmem, hdue⟩ := hattempt.picked tx htx hid
    obtain ⟨t, ht, htid, htried⟩ := hattempt.tried tx htx hid
    have hleft : c'.shared.db.findWagerTransaction id = some t := by
      rw [hdb, ← htid]
      exact lookup_of_mem hview.transactionIds ht
    refine ⟨⟨run.now, tx, some t⟩, t, ?_, hmem, hid, hdue, rfl, hdb ▸ ht, htid, ?_⟩
    · have hfilter := filter_of_mem hrun.nodup htx
      rw [hid] at hfilter
      unfold picks
      rw [hcommitted]
      dsimp only
      rw [hfilter, hleft]
      rfl
    · refine htried.resolve_left fun heq => ?_
      -- the run has decided all of its items, so the row is no longer the one it read
      obtain ⟨done, hdone, hdecided⟩ := hrun.decided
      rw [List.append_nil] at hdone
      obtain ⟨t', ht', htid', hstatus⟩ := hdecided tx (hdone ▸ htx)
      obtain rfl : t' = t :=
        List.inj_on_of_nodup_map hview.transactionIds ht' ht (htid'.trans (hid.trans htid.symm))
      have hwaits : t'.status = .pendingReference := by
        rw [heq]
        simp only [Database.duePendingReference, Bool.and_eq_true, decide_eq_true_eq] at hdue
        exact hdue.1
      rw [hwaits] at hstatus
      rcases hstatus with hstatus | hstatus | ⟨-, hattempts⟩
      · cases hstatus
      · cases hstatus
      · rw [heq] at hattempts
        omega
  · left
    constructor
    · unfold picks
      cases hcommitted : committedRun (c.procs i) a with
      | none => rfl
      | some run =>
        dsimp only
        rw [List.filter_eq_nil_iff.mpr, List.map_nil]
        intro tx htx hid
        exact hpicked ⟨run, hcommitted, tx, htx, of_decide_eq_true hid⟩
    · intro t ht hid
      refine row_stays h hmoved ht fun run hcommitted tx htx htxid => ?_
      exact hpicked ⟨run, hcommitted, tx, htx, htxid.trans hid⟩

end WageringProcessor
