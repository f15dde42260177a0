import WageringProcessor.Invariants.Flushing
import WageringProcessor.Invariants.Calls
import WageringProcessor.Runs

/-!
# Every item of a batch is decided

A reprocess run resolves the reference of an item before it locks the wallet.  When no reversal of
the same kind is committed in between, the run decides each item of its batch and commits.
-/

namespace WageringProcessor

open Library.Interleaving Library.Table WagerTransactionFinalizer

variable {P : Platform} {i j : Pid} {s s' : Shared} {p p' q : Proc} {c c' : Config Shared Proc}
  {a : Action} {batchSize : Nat} {run : ReprocessRun} {tx reference : WagerTransaction}
  {batch rest : List WagerTransaction} {ctx : EventContext} {inp : Input}
  {stage stage' : ReprocessStage}

/-! ## When a resolution is still in time -/

/-- When the run goes to lock the wallet, its reference is still not reversed. -/
def inTime (s : Shared) : Proc → Action → Bool
  | .reprocess _ (.resolved run tx _ (.resolved reference) _), .step _ =>
    ((Reprocess.view s run).findProcessedReversal reference.id tx.kind).isNone
  | _, _ => true

/-- The condition on the steps of a run. -/
abbrev InTime (c : Config Shared Proc) (i : Pid) (a : Action) : Prop :=
  inTime c.shared (c.procs i) a = true

theorem notReversed_of_findReversal {d : Database}
    (h : findReversal d tx reference = .resolved reference) :
    (d.findProcessedReversal reference.id tx.kind).isNone = true := by
  unfold findReversal at h
  split at h
  · cases h
  · rename_i hnone
    exact Option.isNone_iff_eq_none.mpr (Option.not_isSome_iff_eq_none.mp hnone)

namespace Reprocess

/-! ## What a run has before it -/

/-- The batch of a run that has begun and has not ended. -/
def batch? : ReprocessStage → Option (List WagerTransaction)
  | .item run _ | .findReversal run _ _ _ _ | .resolved run _ _ _ _ | .applyEffect run _ _ _ _ _ =>
    some run.batch
  | .begin | .returned _ | .threw _ => none

/-- A bound on the steps, and on the new ids, that a run still needs. -/
def stepsLeft : ReprocessStage → Nat
  | .item _ todo => 6 * todo.length + 1
  | .findReversal _ _ _ _ rest => 6 * rest.length + 6
  | .resolved _ _ _ _ rest => 6 * rest.length + 5
  | .applyEffect _ _ _ _ _ rest => 6 * rest.length + 4
  | _ => 0

theorem stepsLeft_pos (h : batch? stage = some batch) : 0 < stepsLeft stage := by
  cases stage with
  | begin | returned | threw => cases h
  | _ => exact Nat.succ_pos _

/-- The run is deciding `batch`, or has decided all of it. -/
def Deciding (batch : List WagerTransaction) (s : Shared) (stage : ReprocessStage) : Prop :=
  batch? stage = some batch ∨ (stage = .returned batch.length ∧ ∀ tx ∈ batch, Decided s.db tx)

/-- Nothing has reversed the reference of an item whose wallet the run has locked. -/
def StillOpen (s : Shared) : ReprocessStage → Prop
  | .applyEffect run tx _ _ reference _ => NotReversed (view s run) tx reference
  | _ => True

/-! ## A step of a run in time -/

variable (hs : SharedOk P s)
include hs

theorem locks_wallet (hrun : RunOk P (owns s i) s.db run (tx :: rest)) :
    ∃ r : WalletRow, r.id = tx.walletId ∧ s.lockWallet i P run.writes tx.walletId =
      (s.take i [.wallet r.id]).map fun s => (s, .ok (some (toWalletDomain r))) := by
  have hview := hrun.consistent hs.consistent
  obtain ⟨r, hr, hid, huuid⟩ := LockedRow.walletRow hview hrun.head
  exact ⟨r, hid, Submit.lockWallet_found hview.walletIds hr huuid⟩

/-- Nothing keeps a run from a decision. -/
theorem Decision.flushes {ids : List Id} {outcome : Except DomainError Writes}
    (decision : Decision P inp stage run tx rest ids outcome) (hok : Ok P (owns s i) s.db stage)
    (hopen : StillOpen s stage) (hdraw : s.draw i P ids = some s') :
    ∃ w, outcome = .ok w ∧ (view s run).flush w = .ok () := by
  have hdraws := draw_draws hdraw
  have hok' := hok.stable hs.consistent hdraws.keeps hdraws.frame
  have hrun := decision.runOk hok'
  have hview := hrun.consistent (hdraws.db ▸ hs.consistent)
  have hnew : ∀ id ∈ ids, NewId (owns s' i) (s'.db.applyAll run.writes) id :=
    fun _ => decision.newId hs.drawn hok hdraw
  rw [view, ← hdraws.db]
  cases decision with
  | rejects =>
    exact decide_flushes _ hview hrun.head (fun _ hcode => Option.some.inj hcode ▸ hok.2)
      (hnew _ List.mem_cons_self)
  | waits =>
    exact decide_flushes _ hview hrun.head (fun _ hcode => by cases hcode)
      (hnew _ List.mem_cons_self)
  | @applies _ _ reference =>
    obtain ⟨-, href, r, hheld⟩ := hok'
    have hne : inp.newId 1 ≠ inp.newId 2 := by
      have hnodup := hdraws.nodup
      simp only [List.nodup_cons, List.mem_cons, List.not_mem_nil, or_false] at hnodup
      exact hnodup.2.1
    have hopen' : NotReversed (s'.db.applyAll run.writes) tx reference := by
      rw [hdraws.db]
      exact hopen
    obtain ⟨out, hout, hflush⟩ := applyEffect_flushes _ hview hrun.head hheld href hopen'
      (hnew _ (by simp)) (hnew _ (by simp)) hne
    rw [hout]
    exact ⟨out.2.2, rfl, hflush⟩

omit hs in
/-- A decision is nearer to the end of the run. -/
theorem Decision.nearer {ids : List Id} {outcome : Except DomainError Writes} {ws : List Writes}
    (decision : Decision P inp stage run tx rest ids outcome) (hbatch : batch? stage = some batch) :
    run.batch = batch ∧ stepsLeft (.item { run with writes := ws } rest) < stepsLeft stage := by
  cases decision with
  | rejects | waits | applies =>
    refine ⟨Option.some.inj hbatch, ?_⟩
    simp only [stepsLeft]
    omega

/-- The next step of a run decides, or brings it nearer to its next decision. -/
theorem step_deciding (hok : Ok P (owns s i) s.db stage) (hopen : StillOpen s stage)
    (hbatch : batch? stage = some batch)
    (hstep : step P i batchSize inp s stage = some (s', stage')) :
    Deciding batch s' stage' ∧ stepsLeft stage' < stepsLeft stage := by
  cases step_way hstep with
  | begin => cases hbatch
  | commits =>
    obtain rfl := Option.some.inj hbatch
    obtain ⟨done, hdone, hdecided⟩ := RunOk.decided hok
    rw [List.append_nil] at hdone
    refine ⟨Or.inr ⟨rfl, fun tx htx => hdecided tx (hdone ▸ htx)⟩, Nat.zero_lt_one⟩
  | unnamed _ finds =>
    obtain ⟨resolution, hfind⟩ :=
      findReference_exists (RunOk.consistent hok hs.consistent) (RunOk.head hok)
    cases finds.symm.trans hfind
  | found | unresolved =>
    refine ⟨Or.inl hbatch, ?_⟩
    simp only [stepsLeft, List.length_cons]
    omega
  | resolved | locked =>
    refine ⟨Or.inl hbatch, ?_⟩
    simp only [stepsLeft]
    omega
  | noUuid uuid =>
    obtain ⟨r, -, -, huuid⟩ := LockedRow.walletRow (hok.1.consistent hs.consistent) hok.1.head
    cases uuid.symm.trans huuid
  | noWallet uuid missing =>
    have hview := hok.1.consistent hs.consistent
    obtain ⟨r, hr, -, huuid⟩ := LockedRow.walletRow hview hok.1.head
    obtain rfl := Option.some.inj (uuid.symm.trans huuid)
    cases missing.symm.trans (hview.findWallet hr)
  | undecided decision throws draws =>
    obtain ⟨w, hw, -⟩ := decision.flushes hs hok hopen draws
    cases throws.symm.trans hw
  | unflushed decision writes draws flush =>
    obtain ⟨w, hw, hflush⟩ := decision.flushes hs hok hopen draws
    obtain rfl := Except.ok.inj (writes.symm.trans hw)
    cases flush.symm.trans hflush
  | decided decision =>
    obtain ⟨hrun, hnearer⟩ := decision.nearer hbatch
    exact ⟨Or.inl (congrArg some hrun), hnearer⟩

/-- A rejected resolution is the rejection of its item. -/
theorem step_rejects {failureCode : FailureCode}
    (hok : Ok P (owns s i) s.db (.resolved run tx ctx (.rejected failureCode) rest))
    (hstep : step P i batchSize inp s (.resolved run tx ctx (.rejected failureCode) rest) =
      some (s', stage')) :
    ∃ w, stage' = .item { run with writes := run.writes ++ [w] } rest ∧ w.wagerTransactions =
      [toWagerTransactionEntity P (rejectedTransaction tx failureCode ctx.now)] := by
  cases step_way hstep with
  | undecided decision throws draws =>
    obtain ⟨w, hw, -⟩ := decision.flushes hs hok trivial draws
    cases throws.symm.trans hw
  | unflushed decision writes draws flush =>
    obtain ⟨w, hw, hflush⟩ := decision.flushes hs hok trivial draws
    obtain rfl := Except.ok.inj (writes.symm.trans hw)
    cases flush.symm.trans hflush
  | decided decision writes =>
    cases decision with
    | rejects =>
      refine ⟨_, rfl, ?_⟩
      dsimp only [decide] at writes
      rw [reject_eq (not_terminal_of_pendingReference hok.1.head.status)] at writes
      rw [← Except.ok.inj writes]

omit hs in
/-- A run comes to the effect of a reversal by locking its wallet. -/
theorem step_to_applyEffect {wallet : Wallet}
    (hstep : step P i batchSize inp s stage =
      some (s', .applyEffect run tx ctx wallet reference rest)) :
    stage = .resolved run tx ctx (.resolved reference) rest ∧ s'.db = s.db := by
  cases step_way hstep with
  | locked _ _ takes => exact ⟨rfl, take_db takes⟩

/-- Nobody reverses the reference of an item while the run holds the wallet. -/
theorem StillOpen.stable {s' : Shared} {own : Resource → Prop} (hopen : StillOpen s stage)
    (hok : Ok P own s.db stage) (hc' : Consistent P s'.db) (f : Frame own s.db s'.db) :
    StillOpen s' stage := by
  cases stage with
  | applyEffect run tx ctx wallet reference rest =>
    obtain ⟨hrun, href, r, hheld⟩ := hok
    have hview := hrun.settled.frame_applyAll hs.consistent f
    have hrun' := hrun.stable hs.consistent (fun _ hk => hk) f
    have hrequires := (LockedRow.waiting hrun.head (hrun.consistent hs.consistent)).kind
    exact NotReversed.stable hopen (hrun'.consistent hc') hview hheld href hrequires
  | _ => trivial

/-- While nobody else holds a wallet of the batch, the next step of a run is possible. -/
theorem exists_step (hok : Ok P (owns s i) s.db stage) (hbatch : batch? stage = some batch)
    (hfree : ∀ j, j ≠ i → ∀ tx ∈ batch, ¬owns s j (.wallet tx.walletId)) {newId : Nat → Id}
    (hcanonical : ∀ k < 3, P.isCanonical (newId k) = true) (hnew : ∀ k < 3, ¬s.drawn (newId k))
    (hne : newId 0 ≠ newId 1 ∧ newId 0 ≠ newId 2 ∧ newId 1 ≠ newId 2) :
    ∃ out, step P i batchSize ⟨0, newId, [], true⟩ s stage = some out := by
  have hone : ∀ k < 3, ∃ s', s.draw i P [newId k] = some s' := by
    intro k hk
    refine exists_draw ?_ (List.nodup_singleton _) ?_
    all_goals
      intro id hid
      obtain rfl := List.mem_singleton.mp hid
    · exact hcanonical k hk
    · exact hnew k hk
  match stage, hok, hbatch with
  | .item run [], _, _ => exact ⟨_, rfl⟩
  | .item run (tx :: rest), _, _ =>
    obtain ⟨s₁, hdraw⟩ := hone 0 (by decide)
    simp only [step, hdraw, Option.bind_eq_bind, Option.bind_some]
    split <;> exact ⟨_, rfl⟩
  | .findReversal run tx ctx reference rest, _, _ => exact ⟨_, rfl⟩
  | .resolved run tx ctx (.resolved reference) rest, hok, hbatch =>
    obtain ⟨r, hid, heq⟩ := locks_wallet hs hok.1
    have htx : tx ∈ batch := by
      obtain ⟨done, hdone, -⟩ := RunOk.decided hok.1
      rw [← Option.some.inj hbatch, hdone]
      exact List.mem_append_right _ List.mem_cons_self
    have hlock : ∀ k ∈ [Resource.wallet r.id], s.locks k = none ∨ owns s i k := by
      intro k hk
      obtain rfl := List.mem_singleton.mp hk
      cases hheld : s.locks (.wallet r.id) with
      | none => exact Or.inl rfl
      | some j =>
        by_cases hij : j = i
        · exact Or.inr (hij ▸ hheld)
        · exact absurd (hid ▸ hheld) (hfree j hij tx htx)
    obtain ⟨s₁, htake⟩ := exists_take hlock
    simp only [step, heq, htake, Option.map_some, Option.bind_eq_bind, Option.bind_some]
    exact ⟨_, rfl⟩
  | .resolved run tx ctx (.rejected failureCode) rest, _, _ =>
    obtain ⟨s₁, hdraw⟩ := hone 1 (by decide)
    simp only [step, hdraw, Option.bind_eq_bind, Option.bind_some]
    exact ⟨_, rfl⟩
  | .resolved run tx ctx .pending rest, _, _ =>
    obtain ⟨s₁, hdraw⟩ := hone 1 (by decide)
    simp only [step, hdraw, Option.bind_eq_bind, Option.bind_some]
    exact ⟨_, rfl⟩
  | .applyEffect run tx ctx wallet reference rest, _, _ =>
    have hthree : ∃ s', s.draw i P [newId 0, newId 1, newId 2] = some s' := by
      refine exists_draw ?_ (by simp [hne]) ?_
      · simp [hcanonical]
      · simp [hnew]
    obtain ⟨s₁, hdraw⟩ := hthree
    simp only [step, hdraw, Option.bind_eq_bind, Option.bind_some]
    exact ⟨_, rfl⟩
  | .begin, _, hbatch => cases hbatch
  | .returned _, _, hbatch => cases hbatch
  | .threw _, _, hbatch => cases hbatch

omit hs in
/-- What a decision draws are the ids of the step. -/
theorem Decision.given {ids : List Id} {outcome : Except DomainError Writes}
    (decision : Decision P inp stage run tx rest ids outcome) {id : Id} (hid : id ∈ ids) :
    ∃ k < 3, id = inp.newId k := by
  cases decision with
  | rejects | waits => exact ⟨1, by decide, List.mem_singleton.mp hid⟩
  | applies =>
    simp only [List.mem_cons, List.not_mem_nil, or_false] at hid
    rcases hid with rfl | rfl | rfl
    · exact ⟨0, by decide, rfl⟩
    · exact ⟨1, by decide, rfl⟩
    · exact ⟨2, by decide, rfl⟩

omit hs in
/-- A step draws ids that it is given. -/
theorem step_drawn (hbatch : batch? stage = some batch)
    (hstep : step P i batchSize inp s stage = some (s', stage')) {id : Id} (h : s'.drawn id) :
    s.drawn id ∨ ∃ k < 3, id = inp.newId k := by
  cases step_way hstep with
  | begin => cases hbatch
  | commits => exact Or.inl (drawn_of_giveBack h)
  | resolved => exact Or.inl h
  | noUuid | noWallet => exact Or.inl (drawn_of_giveBack h)
  | locked _ _ takes => exact Or.inl ((take_drawn takes (by simp)).mp h)
  | unnamed draws =>
    exact (draw_drawn draws (drawn_of_giveBack h)).imp_right fun hid =>
      ⟨0, by decide, List.mem_singleton.mp hid⟩
  | found draws | unresolved draws =>
    exact (draw_drawn draws h).imp_right fun hid => ⟨0, by decide, List.mem_singleton.mp hid⟩
  | undecided decision _ draws | unflushed decision _ draws =>
    exact (draw_drawn draws (drawn_of_giveBack h)).imp_right decision.given
  | decided decision _ draws => exact (draw_drawn draws h).imp_right decision.given

end Reprocess

/-! ## Runs in time -/

/-- Nothing has reversed the references of the items whose wallets are locked. -/
def AllOpen (c : Config Shared Proc) : Prop :=
  ∀ i batchSize stage, c.procs i = .reprocess batchSize stage → Reprocess.StillOpen c.shared stage

/-- The step before the effect of a reversal is in time, so nothing has reversed its reference. -/
theorem step_stillOpen {batchSize : Nat} (htime : InTime c i a)
    (hstep : step P i a c.shared (c.procs i) = some (s', .reprocess batchSize stage')) :
    Reprocess.StillOpen s' stage' := by
  cases stage' with
  | applyEffect run tx ctx wallet reference rest =>
    rcases step_reprocess hstep with hbegin | hthrew | ⟨inp, stage, rfl, hp, hinner⟩
    · cases hbegin
    · cases hthrew
    · obtain ⟨rfl, hdb⟩ := Reprocess.step_to_applyEffect hinner
      rw [InTime, hp] at htime
      show NotReversed (s'.db.applyAll run.writes) tx reference
      rw [hdb]
      exact notReversed_iff.mpr htime
  | _ => trivial

theorem reach_allOpen (h : Reach (step P) InTime initial c) : AllOpen c := by
  refine h.invariant (P := AllOpen) (fun i batchSize stage hp => by cases hp) ?_
  intro c i a c' run hopen htime hmoved j batchSize stage hp
  have hreach := run.reachable
  by_cases hij : j = i
  · subst hij
    have hstep := next_self hmoved
    rw [hp] at hstep
    exact step_stillOpen htime hstep
  · have hp₀ := hp
    rw [next_other hmoved hij] at hp₀
    obtain ⟨hs, hprocs⟩ := reachable_ok hreach
    have hok := hprocs j
    rw [hp₀] at hok
    have heffect := reachable_effect hreach hmoved
    exact (hopen j batchSize stage hp₀).stable hs hok (heffect.sharedOk hs).consistent
      (heffect.frame hs.consistent hij)

/-! ## The batches -/

/-- The decisions of reprocess runs. -/
structure BatchesDecided (P : Platform) (c : Config Shared Proc) : Prop where
  neverAborts : ∀ i batchSize stage inp c' err, c.procs i = .reprocess batchSize stage →
    next (step P) c i (.step inp) = some c' → c'.procs i ≠ .reprocess batchSize (.threw err)
  /-- At its commit a run has decided its whole batch. -/
  decided : ∀ i batchSize run inp c', c.procs i = .reprocess batchSize (.item run []) →
    next (step P) c i (.step inp) = some c' →
      c'.procs i = .reprocess batchSize (.returned run.batch.length) ∧
        ∀ tx ∈ run.batch, Reprocess.Decided c'.shared.db tx
  /-- A reversal that finds another one before it is rejected for that. -/
  alreadyReversed : ∀ i batchSize run tx ctx reference rest inp c',
    c.procs i = .reprocess batchSize (.findReversal run tx ctx reference rest) →
      ((Reprocess.view c.shared run).findProcessedReversal reference.id tx.kind).isSome = true →
        next (step P) c i (.step inp) = some c' → c'.procs i =
          .reprocess batchSize (.resolved run tx ctx (.rejected .referenceAlreadyReversed) rest)
  rejected : ∀ i batchSize run tx ctx failureCode rest inp c',
    c.procs i = .reprocess batchSize (.resolved run tx ctx (.rejected failureCode) rest) →
      next (step P) c i (.step inp) = some c' → ∃ w, c'.procs i =
          .reprocess batchSize (.item { run with writes := run.writes ++ [w] } rest) ∧
        w.wagerTransactions =
          [toWagerTransactionEntity P (rejectedTransaction tx failureCode ctx.now)]
  /-- A run commits once nobody holds a wallet of its batch. -/
  completes : ∀ i batchSize stage batch, c.procs i = .reprocess batchSize stage →
    Reprocess.batch? stage = some batch → (∀ inp, InTime c i (.step inp)) →
      (∀ j, j ≠ i → ∀ tx ∈ batch, ¬owns c.shared j (.wallet tx.walletId)) →
        (∃ ids : List Id, 3 * Reprocess.stepsLeft stage ≤ ids.length ∧ ids.Nodup ∧
          ∀ id ∈ ids, P.isCanonical id = true ∧ ¬c.shared.drawn id) →
          ∃ c', Reach (step P) InTime c c' ∧
            c'.procs i = .reprocess batchSize (.returned batch.length) ∧
              ∀ tx ∈ batch, Reprocess.Decided c'.shared.db tx

section

variable (h : Reach (step P) InTime initial c)
include h

theorem reach_deciding {c' : Config Shared Proc} (hp : c.procs i = .reprocess batchSize stage)
    (hbatch : Reprocess.batch? stage = some batch)
    (hmoved : next (step P) c i (.step inp) = some c') : ∃ stage',
      c'.procs i = .reprocess batchSize stage' ∧ Reprocess.Deciding batch c'.shared stage' ∧
        Reprocess.stepsLeft stage' < Reprocess.stepsLeft stage ∧
          Reprocess.step P i batchSize inp c.shared stage = some (c'.shared, stage') := by
  obtain ⟨hs, hprocs⟩ := reachable_ok h.reachable
  have hok := hprocs i
  have hstep := next_self hmoved
  rw [hp] at hok hstep
  obtain ⟨⟨s₁, stage'⟩, hinner, hout⟩ := Option.map_eq_some_iff.mp hstep
  obtain ⟨rfl, hproc⟩ := Prod.mk.inj hout
  have hopen := reach_allOpen h i batchSize stage hp
  obtain ⟨hdeciding, hlt⟩ := Reprocess.step_deciding hs hok hopen hbatch hinner
  exact ⟨stage', hproc.symm, hdeciding, hlt, hinner⟩

theorem reach_neverAborts {c' : Config Shared Proc} {err : Exception}
    (hp : c.procs i = .reprocess batchSize stage)
    (hmoved : next (step P) c i (.step inp) = some c') :
    c'.procs i ≠ .reprocess batchSize (.threw err) := by
  intro hthrew
  cases hbatch : Reprocess.batch? stage with
  | some batch =>
    obtain ⟨stage', hp', hdeciding, -⟩ := reach_deciding h hp hbatch hmoved
    rw [hp'] at hthrew
    obtain rfl := (Proc.reprocess.inj hthrew).2
    rcases hdeciding with hnone | ⟨hreturned, -⟩
    · cases hnone
    · cases hreturned
  | none =>
    have hstep := next_self hmoved
    rw [hp, hthrew] at hstep
    obtain ⟨⟨s₁, stage'⟩, hinner, hout⟩ := Option.map_eq_some_iff.mp hstep
    obtain ⟨rfl, hproc⟩ := Prod.mk.inj hout
    obtain rfl := (Proc.reprocess.inj hproc).2
    cases stage with
    | begin =>
      dsimp only [Reprocess.step] at hinner
      split at hinner
      · obtain ⟨s₂, -, hrest⟩ := Option.bind_eq_some_iff.mp hinner
        cases hrest
      · cases hinner
    | returned | threw => cases hinner
    | _ => cases hbatch

/-- A run that nobody holds up comes to its commit. -/
theorem reach_completes (hp : c.procs i = .reprocess batchSize stage)
    (hbatch : Reprocess.batch? stage = some batch) (htime : ∀ inp, InTime c i (.step inp))
    (hfree : ∀ j, j ≠ i → ∀ tx ∈ batch, ¬owns c.shared j (.wallet tx.walletId))
    (hids : FreshIds P c.shared (3 * Reprocess.stepsLeft stage)) :
    ∃ c', Reach (step P) InTime c c' ∧
      c'.procs i = .reprocess batchSize (.returned batch.length) ∧
        ∀ tx ∈ batch, Reprocess.Decided c'.shared.db tx := by
  refine Reach.eventually (I := fun n c₁ => Reach (step P) InTime c c₁ ∧ ∃ stage₁,
    c₁.procs i = .reprocess batchSize stage₁ ∧ Reprocess.Deciding batch c₁.shared stage₁ ∧
      Reprocess.stepsLeft stage₁ = n ∧ (∀ inp, InTime c₁ i (.step inp)) ∧
        (∀ j, j ≠ i → ∀ tx ∈ batch, ¬owns c₁.shared j (.wallet tx.walletId)) ∧
          FreshIds P c₁.shared (3 * Reprocess.stepsLeft stage₁)) ?_
    ⟨.init, stage, hp, Or.inl hbatch, rfl, htime, hfree, hids⟩
  rintro n c₁ ⟨h₁, stage₁, hp₁, hdeciding₁, rfl, htime₁, hfree₁, hids₁⟩ hgoal
  have hreach := Reach.trans h h₁
  obtain ⟨hs, hprocs⟩ := reachable_ok hreach.reachable
  have hok := hprocs i
  rw [hp₁] at hok
  rcases hdeciding₁ with hbatch₁ | ⟨rfl, hdecided⟩
  · -- the step is given three of the ids, whatever it draws of them
    have hpos := Reprocess.stepsLeft_pos hbatch₁
    have hnext : FreshIds P c₁.shared (3 * (Reprocess.stepsLeft stage₁ - 1) + 3) := by
      rw [show 3 * (Reprocess.stepsLeft stage₁ - 1) + 3 = 3 * Reprocess.stepsLeft stage₁ by omega]
      exact hids₁
    obtain ⟨newId, hnew, hdistinct, hlater⟩ := hnext.next
    have hexists : ∃ out, Reprocess.step P i batchSize ⟨0, newId, [], true⟩ c₁.shared stage₁ =
        some out :=
      Reprocess.exists_step hs hok hbatch₁ hfree₁ (fun k _ => (hnew k).1) (fun k _ => (hnew k).2)
        hdistinct
    obtain ⟨⟨s₂, stage₂⟩, hinner⟩ := hexists
    have hproc : step P i (.step ⟨0, newId, [], true⟩) c₁.shared (c₁.procs i) =
        some (s₂, .reprocess batchSize stage₂) := by
      rw [hp₁]
      exact Option.map_eq_some_iff.mpr ⟨_, hinner, rfl⟩
    obtain ⟨c₂, hmoved, -, -⟩ := next_of_step (step P) hproc
    obtain ⟨stage', hp', hdeciding', hlt, hstep'⟩ := reach_deciding hreach hp₁ hbatch₁ hmoved
    have hreach₂ := Reach.step h₁ (htime₁ _) hmoved
    refine ⟨i, _, c₂, Reprocess.stepsLeft stage', hlt, htime₁ _, hmoved, hreach₂, stage', hp',
      hdeciding', rfl, ?_, ?_, ?_⟩
    · intro inp
      rw [InTime, hp']
      cases stage' with
      | resolved run tx ctx resolution rest =>
        cases resolution with
        | resolved reference =>
          obtain ⟨hsame, -, hresolved⟩ := Reprocess.step_to_resolved hstep'
          rw [hsame]
          exact notReversed_of_findReversal hresolved
        | pending | rejected => rfl
      | _ => rfl
    · intro j hj tx htx howns
      have heffect := reachable_effect hreach.reachable hmoved
      exact hfree₁ j hj tx htx ((heffect.owns_iff hj _).mp howns)
    · have hleft : FreshIds P c₂.shared (3 * (Reprocess.stepsLeft stage₁ - 1)) := by
        refine hlater c₂.shared fun id hdrawn => ?_
        rcases Reprocess.step_drawn hbatch₁ hstep' hdrawn with hdrawn | ⟨k, -, hid⟩
        · exact Or.inl hdrawn
        · exact Or.inr ⟨k, hid⟩
      exact hleft.mono (by omega) fun id hdrawn => hdrawn
  · exact absurd ⟨hp₁, hdecided⟩ hgoal

/-- Where no reversal is committed between the resolution of an item and the lock of its wallet,
every reprocess run decides its batch. -/
theorem reach_batchesDecided : BatchesDecided P c where
  neverAborts _ _ _ _ _ _ hp hmoved := reach_neverAborts h hp hmoved
  decided i batchSize run inp c' hp hmoved := by
    obtain ⟨stage', hp', hdeciding, -, hinner⟩ := reach_deciding h hp rfl hmoved
    obtain ⟨-, rfl⟩ := Prod.mk.inj (Option.some.inj hinner)
    rcases hdeciding with hbatch | ⟨-, hdecided⟩
    · cases hbatch
    · exact ⟨hp', hdecided⟩
  alreadyReversed i batchSize run tx ctx reference rest inp c' hp hreversed hmoved := by
    obtain ⟨stage', hp', -, -, hinner⟩ := reach_deciding h hp rfl hmoved
    obtain ⟨-, rfl⟩ := Prod.mk.inj (Option.some.inj hinner)
    rw [hp', findReversal, if_pos hreversed]
  rejected i batchSize run tx ctx failureCode rest inp c' hp hmoved := by
    obtain ⟨hs, hprocs⟩ := reachable_ok h.reachable
    have hok := hprocs i
    rw [hp] at hok
    obtain ⟨stage', hp', -, -, hinner⟩ := reach_deciding h hp rfl hmoved
    obtain ⟨w, rfl, hrow⟩ := Reprocess.step_rejects hs hok hinner
    exact ⟨w, hp', hrow⟩
  completes _ _ _ _ hp hbatch htime hfree hids := reach_completes h hp hbatch htime hfree hids

end

/-! ## Two runs on one bet -/

/-- A refund that waits, and its bet. -/
def refundBeforeBet : List (Pid × Action) :=
  runCall 0 (.openWallet openCommand) 1 6 ++
    runCall 1 (.submit (submitCommand .refund "refund-1" (some "bet-1") (uuidText 10))) 7 7 ++
      runCall 2 (.submit (submitCommand .bet "bet-1" none (uuidText 10))) 14 6

/-- A second refund of the bet. -/
def secondRefund : List (Pid × Action) :=
  runCall 4 (.submit (submitCommand .refund "refund-2" (some "bet-1") (uuidText 10))) 110 8

/-- A run begun after the second refund rejects the first one. -/
theorem lateRefund_batchesDecided : ∃ c, Reach (step localPlatform) InTime initial c ∧
    BatchesDecided localPlatform c ∧
      c.shared.db.wagerTransactions.map (fun t =>
          (t.externalTransactionId, t.status, t.failureCode)) =
        [(uuidText 20, .processed, none),
          ("refund-1", .rejected, some .referenceAlreadyReversed), ("bet-1", .processed, none),
          ("refund-2", .processed, none)] := by
  have hrun : (execIf (step localPlatform) InTime initial (refundBeforeBet ++ secondRefund ++
      (3, .start (.reprocess 20)) :: (3, tick 120 [uuidText 80] true) :: steps 3 121 4)).any
        (fun c => decide (c.shared.db.wagerTransactions.map (fun t =>
          (t.externalTransactionId, t.status, t.failureCode)) =
        [(uuidText 20, .processed, none),
          ("refund-1", .rejected, some .referenceAlreadyReversed), ("bet-1", .processed, none),
          ("refund-2", .processed, none)])) = true := by
    decide +kernel
  obtain ⟨c, hreach, hp⟩ := reach_of_any hrun
  exact ⟨c, hreach, reach_batchesDecided hreach, of_decide_eq_true hp⟩

/-- A run that resolves the first refund before the second one commits aborts, and the first
refund is left without a decision. -/
theorem overtakenRefund_aborts : ∃ c, Reachable (step localPlatform) initial c ∧
    c.procs 3 = .reprocess 20 (.threw .uniqueConstraintViolation) ∧
      c.shared.db.wagerTransactions.map (fun t =>
          (t.externalTransactionId, t.status, t.referenceRetryAttempts)) =
        [(uuidText 20, .processed, 0), ("refund-1", .pendingReference, 1),
          ("bet-1", .processed, 0), ("refund-2", .processed, 0)] := by
  have hrun : (exec (step localPlatform) initial (refundBeforeBet ++
      (3, .start (.reprocess 20)) :: (3, tick 100 [uuidText 80] true) :: steps 3 101 2 ++
        secondRefund ++ steps 3 120 2)).any (fun c =>
      decide (c.procs 3 = .reprocess 20 (.threw .uniqueConstraintViolation)) &&
        decide (c.shared.db.wagerTransactions.map (fun t =>
          (t.externalTransactionId, t.status, t.referenceRetryAttempts)) =
        [(uuidText 20, .processed, 0), ("refund-1", .pendingReference, 1),
          ("bet-1", .processed, 0), ("refund-2", .processed, 0)])) = true := by
    decide +kernel
  obtain ⟨c, hreach, hp⟩ := reachable_of_any hrun
  simp only [Bool.and_eq_true, decide_eq_true_eq] at hp
  exact ⟨c, hreach, hp⟩

end WageringProcessor
