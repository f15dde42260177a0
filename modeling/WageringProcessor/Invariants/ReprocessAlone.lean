import WageringProcessor.Invariants.Alone

/-!
# A reprocess run that runs alone

A run whose batch is one row.  Where it returns it has made one decision, on what `resolveReference`
finds in the database that the run started from.
-/

namespace WageringProcessor

open Library.Interleaving Library.Table WagerTransactionFinalizer

variable {P : Platform} {i : Pid} {s s' : Shared} {d : Database} {t : WagerTransaction}
  {wallet : Wallet} {ctx : EventContext} {newId : Nat → Id} {inp : Input} {n : Nat}
  {stage stage' : ReprocessStage} {resolution : ReferenceResolution}

namespace Reprocess

/-- What the run writes about `t`. -/
inductive Retried (P : Platform) (d : Database) (t : WagerTransaction) : Writes → Prop
  | waits {w : Writes} (resolves : resolveReference d t = .ok .pending) : Retried P d t w
  | rejected (code : FailureCode) (ctx : EventContext) (eventId : Id)
      (resolves : resolveReference d t = .ok (.rejected code))
      (new : ∀ m ∈ d.outboxMessages, m.id ≠ eventId) :
      Retried P d t (rejectionWrites P (rejectedTransaction t code ctx.now) ctx eventId)
  | applied (b : WagerTransaction) (wallet : Wallet) (ctx : EventContext) (newId : Nat → Id)
      (resolves : resolveReference d t = .ok (.resolved b))
      (found : d.findWallet t.walletId = some wallet) (distinct : newId 1 ≠ newId 2)
      (new : ∀ m ∈ d.outboxMessages, m.id ≠ newId 1 ∧ m.id ≠ newId 2) :
      Retried P d t (effect P t wallet (some b) (b.kind ≠ .bet) ctx newId).2.2

/-- The run has the one item `t` before it, and has written nothing. -/
structure Fresh (d : Database) (t : WagerTransaction) (s : Shared) (run : ReprocessRun)
    (tx : WagerTransaction) (rest : List WagerTransaction) : Prop where
  db : s.db = d
  writes : run.writes = []
  item : tx = t
  rest : rest = []

def Knows (P : Platform) (d : Database) (t : WagerTransaction) (s : Shared) :
    ReprocessStage → Prop
  | .begin => False
  | .item run (tx :: rest) => Fresh d t s run tx rest
  | .item run [] => s.db = d ∧ ∃ w, run.writes = [w] ∧ Retried P d t w
  | .findReversal run tx _ reference rest => Fresh d t s run tx rest ∧
      findReference d t = .ok (.resolved reference)
  | .resolved run tx _ resolution rest => Fresh d t s run tx rest ∧
      resolveReference d t = .ok resolution
  | .applyEffect run tx _ wallet reference rest => Fresh d t s run tx rest ∧
      resolveReference d t = .ok (.resolved reference) ∧ d.findWallet t.walletId = some wallet
  | .returned _ => ∃ w, s.db = d.apply w ∧ Retried P d t w
  | .threw _ => True

theorem Fresh.view {run : ReprocessRun} {tx : WagerTransaction} {rest : List WagerTransaction}
    (h : Fresh d t s run tx rest) : view s run = d := by
  unfold Reprocess.view
  rw [h.writes, h.db]
  rfl

theorem Fresh.of_db {run : ReprocessRun} {tx : WagerTransaction} {rest : List WagerTransaction}
    (h : Fresh d t s run tx rest) (hdb : s'.db = s.db) : Fresh d t s' run tx rest :=
  ⟨hdb.trans h.db, h.writes, h.item, h.rest⟩

/-- What is drawn for an event is new to the database. -/
theorem newEvent_of_draw {ids : List Id} {eventId : Id} (hd : Drawn s.drawn s.db)
    (hdraw : s.draw i P ids = some s') (hmem : eventId ∈ ids) :
    ∀ m ∈ s.db.outboxMessages, m.id ≠ eventId :=
  fun m hm heq => (draw_draws hdraw).fresh _ hmem (heq ▸ hd.messages m hm)

variable {run : ReprocessRun} {tx : WagerTransaction} {rest : List WagerTransaction}
  {ids : List Id} {outcome : Except DomainError Writes}

theorem Decision.fresh (decision : Decision P inp stage run tx rest ids outcome)
    (h : Knows P d t s stage) : Fresh d t s run tx rest := by
  cases decision <;> exact h.1

/-- What a decision writes about `t`. -/
theorem Decision.retried (decision : Decision P inp stage run tx rest ids outcome)
    (hc : Consistent P s.db) (hd : Drawn s.drawn s.db) (hok : Ok P (owns s i) s.db stage)
    (hknows : Knows P d t s stage) (hdraw : s.draw i P ids = some s') {w : Writes}
    (hw : outcome = .ok w) : Retried P d t w := by
  have hfresh := decision.fresh hknows
  have hopen := not_terminal_of_pendingReference (decision.runOk hok).head.status
  have hnew : ∀ id ∈ ids, ∀ m ∈ d.outboxMessages, m.id ≠ id :=
    fun _ hid => hfresh.db ▸ newEvent_of_draw hd hdraw hid
  cases decision with
  | rejects =>
    dsimp only [decide] at hw
    rw [reject_eq hopen] at hw
    rw [← Except.ok.inj hw, hfresh.item]
    exact .rejected _ _ (inp.newId 1) hknows.2 (hnew _ List.mem_cons_self)
  | waits => exact .waits hknows.2
  | applies =>
    obtain ⟨hrun, href, r, hheld⟩ := hok
    have hdistinct : inp.newId 1 ≠ inp.newId 2 := by
      have hnodup := (draw_draws hdraw).nodup
      simp only [List.nodup_cons, List.mem_cons, List.not_mem_nil, or_false] at hnodup
      exact hnodup.2.1
    rw [applyEffect_eq (hrun.effective hc href hheld)] at hw
    rw [← Except.ok.inj hw, hfresh.item]
    exact .applied _ _ _ inp.newId hknows.2.1 hknows.2.2 hdistinct
      fun m hm => ⟨hnew _ (by simp) m hm, hnew _ (by simp) m hm⟩

theorem step_knows (hc : Consistent P s.db) (hd : Drawn s.drawn s.db)
    (hok : Ok P (owns s i) s.db stage) (hknows : Knows P d t s stage)
    (hstep : step P i n inp s stage = some (s', stage')) : Knows P d t s' stage' := by
  cases step_way hstep with
  | begin => exact hknows.elim
  | @commits run =>
    obtain ⟨hdb, w, hwrites, hretried⟩ := hknows
    refine ⟨w, ?_, hretried⟩
    show s.db.applyAll run.writes = d.apply w
    rw [hdb, hwrites]
    rfl
  | found draws finds =>
    have hfresh : Fresh d t s _ _ _ := hknows
    rw [hfresh.view, hfresh.item] at finds
    exact ⟨hfresh.of_db (draw_db draws), finds⟩
  | unresolved draws finds hunresolved =>
    have hfresh : Fresh d t s _ _ _ := hknows
    rw [hfresh.view, hfresh.item] at finds
    exact ⟨hfresh.of_db (draw_db draws), resolveReference_of_find finds hunresolved⟩
  | resolved =>
    obtain ⟨hfresh, hfind⟩ := hknows
    refine ⟨hfresh, ?_⟩
    unfold resolveReference
    rw [hfind, hfresh.view, hfresh.item]
    rfl
  | @locked run tx _ _ _ _ r row uuid takes =>
    obtain ⟨hfresh, hresolve⟩ := hknows
    refine ⟨hfresh.of_db (take_db takes), hresolve, ?_⟩
    have hview : s.db.applyAll run.writes = d := hfresh.view
    have hcview := hok.1.consistent hc
    -- the row has its wallet's id in canonical spelling
    have hid : P.uuid tx.walletId = some tx.walletId :=
      (hcview.rows tx hok.1.head.row).identity.wallet
    rw [hview] at hcview
    rw [hfresh.view] at row
    rw [← hfresh.item, ← Option.some.inj (uuid.symm.trans hid)]
    exact hcview.findWallet row
  | @decided _ run tx rest _ _ _ w decision writes draws =>
    have hfresh := decision.fresh hknows
    rw [hfresh.rest]
    refine ⟨(draw_db draws).trans hfresh.db, w, ?_, decision.retried hc hd hok hknows draws writes⟩
    show run.writes ++ [w] = [w]
    rw [hfresh.writes]
    rfl
  | unnamed | noUuid | noWallet | undecided | unflushed => trivial

/-- The run picks `t` and nothing else. -/
theorem step_begin_knows {id : Id} (hfound : s.db.findWagerTransaction id = some t)
    (hbatch : inp.batch = [id]) (hstep : step P i n inp s .begin = some (s', stage')) :
    Knows P s.db t s' stage' := by
  cases step_way hstep with
  | begin _ takes =>
    have hpicked : [id].filterMap s.db.findWagerTransaction = [t] :=
      List.filterMap_cons_some hfound
    rw [hbatch, hpicked]
    exact ⟨take_db takes, rfl, rfl, rfl⟩
  | undecided decision | unflushed decision | decided decision => cases decision

end Reprocess

/-! ## In the system -/

variable {c c' : Config Shared Proc}

/-- `i` runs the use case alone, on a batch that is the row `id`, and it returns. -/
def ReprocessesAlone (P : Platform) (i : Pid) (n : Nat) (id : Id) (c c' : Config Shared Proc) :
    Prop :=
  ∃ c₀ c₁ inp count, next (step P) c i (.start (.reprocess n)) = some c₀ ∧ inp.batch = [id] ∧
    next (step P) c₀ i (.step inp) = some c₁ ∧ Reach (step P) (OnlySteps i) c₁ c' ∧
      c'.procs i = .reprocess n (.returned count)

/-- What a run that has returned was given and how many rows it has picked. -/
def Proc.picked : Proc → Option (Nat × Nat)
  | .reprocess n (.returned count) => some (n, count)
  | _ => none

theorem Proc.picked_eq_some {p : Proc} {count : Nat} (h : p.picked = some (n, count)) :
    p = .reprocess n (.returned count) := by
  unfold Proc.picked at h
  split at h
  · obtain ⟨rfl, rfl⟩ := Prod.mk.inj (Option.some.inj h)
    rfl
  · cases h

theorem reprocessesAlone_of_exec {id : Id} {inputs : List Input} {count : Nat}
    (hexec : execAlone P i (.reprocess n) (inp :: inputs) c = some c') (hbatch : inp.batch = [id])
    (hpicked : (c'.procs i).picked = some (n, count)) : ReprocessesAlone P i n id c c' := by
  obtain ⟨c₀, hstart, hrest⟩ := Option.bind_eq_some_iff.mp hexec
  obtain ⟨c₁, hbegin, hrest⟩ := Option.bind_eq_some_iff.mp hrest
  exact ⟨c₀, c₁, inp, count, hstart, hbatch, hbegin, onlySteps_of_exec hrest,
    Proc.picked_eq_some hpicked⟩

theorem start_reprocess {c₀ : Config Shared Proc}
    (hstart : next (step P) c i (.start (.reprocess n)) = some c₀) :
    c₀.shared = c.shared ∧ c₀.procs i = .reprocess n .begin := by
  have hstep := next_self hstart
  obtain ⟨-, hout⟩ := Option.ite_none_right_eq_some.mp hstep
  obtain ⟨hshared, hproc⟩ := Prod.mk.inj (Option.some.inj hout)
  exact ⟨hshared.symm, hproc.symm⟩

/-- A reprocess run that runs alone settles its row by what it found, or lets it wait. -/
theorem reprocessesAlone_retries {id : Id} (h : Reachable (step P) initial c)
    (hfound : c.shared.db.findWagerTransaction id = some t)
    (hrun : ReprocessesAlone P i n id c c') :
    ∃ w, c'.shared.db = c.shared.db.apply w ∧ Reprocess.Retried P c.shared.db t w := by
  obtain ⟨c₀, c₁, inp, count, hstart, hbatch, hbegin, hsteps, hreturned⟩ := hrun
  obtain ⟨hshared, hproc⟩ := start_reprocess hstart
  have hreach : Reachable (step P) initial c₁ := .step (.step h trivial hstart) trivial hbegin
  have hstep := next_self hbegin
  rw [hproc] at hstep
  obtain ⟨⟨s₁, stage₁⟩, hinner, hout⟩ := Option.map_eq_some_iff.mp hstep
  obtain ⟨hshared₁, hproc₁⟩ := Prod.mk.inj hout
  rw [hshared] at hinner
  have hknows := Reprocess.step_begin_knows hfound hbatch hinner
  have hinvariant : ∃ stage, c'.procs i = .reprocess n stage ∧
      Reprocess.Knows P c.shared.db t c'.shared stage := by
    refine hsteps.invariant (P := fun c' => ∃ stage, c'.procs i = .reprocess n stage ∧
      Reprocess.Knows P c.shared.db t c'.shared stage) ?_ ?_
    · exact ⟨stage₁, hproc₁.symm, hshared₁ ▸ hknows⟩
    · rintro c₂ j a c₃ hrun ⟨stage, hstage, hknows⟩ ⟨rfl, inp, rfl⟩ hmoved
      obtain ⟨hs, hprocs⟩ := reachable_ok (hreach.trans hrun.reachable)
      have hok : ProcOk P j c₂.shared (.reprocess n stage) := hstage ▸ hprocs j
      have hstep := next_self hmoved
      rw [hstage] at hstep
      obtain ⟨⟨s', stage'⟩, hinner, hout⟩ := Option.map_eq_some_iff.mp hstep
      obtain ⟨hshared', hproc'⟩ := Prod.mk.inj hout
      exact ⟨stage', hproc'.symm,
        hshared' ▸ Reprocess.step_knows hs.consistent hs.drawn hok hknows hinner⟩
  obtain ⟨stage, hstage, hknows⟩ := hinvariant
  rw [hreturned] at hstage
  obtain rfl := (Proc.reprocess.inj hstage).2
  exact hknows

end WageringProcessor
