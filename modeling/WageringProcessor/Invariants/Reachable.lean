import WageringProcessor.Invariants.Consume
import WageringProcessor.Invariants.OpenWallet
import WageringProcessor.Invariants.PublishOutbox
import WageringProcessor.Invariants.Reprocess
import WageringProcessor.Invariants.SystemSteps

/-!
# The invariant of the system

Every step of a call advances the shared state as the call is permitted to, and keeps what the call
knows.  With the frame that it leaves to the others this is an invariant of every run.
-/

namespace WageringProcessor

open Library.Interleaving Library.Table

variable {P : Platform} {i j : Pid} {s s' : Shared} {p p' q : Proc} {c : Config Shared Proc}

/-- What the call `i` knows of the state at its stage. -/
def ProcOk (P : Platform) (i : Pid) (s : Shared) : Proc → Prop
  | .openWallet cmd stage => OpenWallet.Ok P (owns s i) s.db cmd stage
  | .submit cmd stage => Submit.Ok P (owns s i) s.db cmd stage
  | .consume messageId stage => Consume.Ok P (owns s i) s.db messageId stage
  | .reprocess _ stage => Reprocess.Ok P (owns s i) s.db stage
  | .publishOutbox _ stage => PublishOutbox.Ok i (owns s i) s stage
  | .idle | .crashed => True

structure SharedOk (P : Platform) (s : Shared) : Prop where
  consistent : Consistent P s.db
  drawn : Drawn s.drawn s.db
  deleted : ∀ messageId ∈ s.deleted, Consume.Received s.db messageId

/-! ## What a step does to the shared state -/

/-- A step of the call `i`, whose stage before it is `p`. -/
inductive Effect (P : Platform) (i : Pid) (s s' : Shared) (p : Proc) : Prop
  | works (h : Advances P i s s')
  | sends {batchSize : Nat} {run : PublishRun} {m : OutboxMessage} {rest : List OutboxMessage}
      {delivered : Bool} (stage : p = .publishOutbox batchSize (.publishing run (m :: rest)))
      (sent : s' = PublishOutbox.send i s m delivered)
  | deletes (messageId : String) (received : Consume.Received s.db messageId)
      (deleted : s' = { s with deleted := messageId :: s.deleted })

/-- The step is a frame for whoever holds nothing that `i` holds. -/
theorem Effect.frameOf {own : Resource → Prop} (h : Effect P i s s' p) (hc : Consistent P s.db)
    (hdisj : ∀ k, own k → ¬owns s i k) : Frame own s.db s'.db := by
  cases h with
  | works h =>
    obtain ⟨ws, hdb, hws⟩ := h.changes
    exact hdb ▸ hws.frame hc hdisj
  | sends _ sent =>
    rw [sent, PublishOutbox.send_db]
    exact .refl _ _
  | deletes _ _ deleted => exact deleted ▸ .refl _ _

theorem Effect.frame (h : Effect P i s s' p) (hc : Consistent P s.db) (hij : j ≠ i) :
    Frame (owns s j) s.db s'.db := h.frameOf hc fun k => owns_disjoint hij k

theorem Effect.owns_iff (h : Effect P i s s' p) (hij : j ≠ i) (k : Resource) :
    owns s' j k ↔ owns s j k := by
  cases h with
  | works h => exact h.owns_iff hij k
  | sends _ sent =>
    unfold owns
    rw [sent, PublishOutbox.send_locks]
  | deletes _ _ deleted => exact deleted ▸ Iff.rfl

theorem Effect.keepsDrawn (h : Effect P i s s' p) {id : Id} (howns : owns s j (.uuid id)) :
    owns s' j (.uuid id) := by
  cases h with
  | works h => exact h.keepsDrawn howns
  | sends _ sent =>
    unfold owns
    rw [sent, PublishOutbox.send_locks]
    exact howns
  | deletes _ _ deleted => exact deleted ▸ howns

theorem Effect.sent_mem (h : Effect P i s s' p) {x : Sent} (hx : x ∈ s.sent) : x ∈ s'.sent := by
  cases h with
  | works h => exact h.sent ▸ hx
  | sends _ sent => exact sent ▸ PublishOutbox.mem_send.mpr (Or.inl hx)
  | deletes _ _ deleted => exact deleted ▸ hx

/-- A frame for nobody: what no call ever changes. -/
theorem Effect.history (h : Effect P i s s' p) (hc : Consistent P s.db) :
    Frame (fun _ => False) s.db s'.db := h.frameOf hc fun _ hfalse => hfalse.elim

theorem Effect.sharedOk (h : Effect P i s s' p) (hs : SharedOk P s) : SharedOk P s' := by
  have hhistory := h.history hs.consistent
  cases h with
  | works h =>
    exact ⟨h.consistent hs.consistent, h.drawnAll hs.drawn,
      fun messageId hm => (hs.deleted messageId (h.deleted ▸ hm)).stable hhistory⟩
  | @sends _ _ m _ delivered _ sent =>
    subst sent
    have hdb : (PublishOutbox.send i s m delivered).db = s.db := PublishOutbox.send_db delivered
    refine ⟨hdb ▸ hs.consistent, ?_, fun messageId hm => ?_⟩
    · rw [hdb]
      refine hs.drawn.mono fun id hid => ?_
      unfold Shared.drawn
      rwa [PublishOutbox.send_locks]
    · -- a send changes neither the database nor what is deleted
      rw [PublishOutbox.send_deleted] at hm
      rw [hdb]
      exact hs.deleted messageId hm
  | deletes messageId received deleted =>
    subst deleted
    refine ⟨hs.consistent, hs.drawn, fun messageId' hm => ?_⟩
    rcases List.mem_cons.mp hm with rfl | hm
    · exact received
    · exact hs.deleted messageId' hm

/-- The assertions of the other calls survive the step. -/
theorem Effect.procOk (h : Effect P i s s' p) (hc : Consistent P s.db) (hij : j ≠ i)
    (hq : ProcOk P j s q) : ProcOk P j s' q := by
  have hframe := h.frame hc hij
  have hown : ∀ k, owns s j k → owns s' j k := fun k => (h.owns_iff hij k).mpr
  cases q with
  | openWallet => exact OpenWallet.Ok.stable hown hframe hq
  | submit => exact Submit.Ok.stable hown hframe hq
  | consume => exact Consume.Ok.stable hown hframe hq
  | reprocess => exact Reprocess.Ok.stable hc hown hframe hq
  | publishOutbox => exact PublishOutbox.Ok.stable hown hframe (fun _ => h.sent_mem) hq
  | idle | crashed => trivial

/-! ## The steps of a call -/

theorem submit_commit_ok {cmd : SubmitWagerTransactionCommand} {writes : List Writes}
    {result : SubmitWagerTransactionResult}
    (hp : Submit.Ok P (owns s i) s.db cmd (.commit writes result)) :
    Advances P i s (s.commit i writes) ∧
      Submit.Ok P (owns (s.commit i writes) i) (s.commit i writes).db cmd (.returned result) := by
  obtain ⟨w, hw, hsettled⟩ := Submit.Prepared.permitted hp
  exact ⟨hsettled.queues.advances hw (.single (.settled hsettled)),
    Submit.Prepared.returned hp fun id hid => giveBack_keeps hid rfl⟩

theorem consumeStep_ok {messageId : String} {inp : Input} {stage stage' : ConsumeStage}
    (hs : SharedOk P s) (hp : Consume.Ok P (owns s i) s.db messageId stage)
    (h : Consume.step P messageId i inp s stage = some (s', stage')) :
    Effect P i s s' (.consume messageId stage) ∧
      Consume.Ok P (owns s' i) s'.db messageId stage' := by
  -- the deletion is the one step outside the database
  by_cases hdelete : ∃ outcome nested, stage = .delete outcome nested
  · obtain ⟨outcome, nested, rfl⟩ := hdelete
    obtain ⟨rfl, rfl⟩ := Prod.mk.inj (Option.some.inj h)
    have hfinished : Consume.Finished P (owns s i) s.db messageId outcome nested := hp
    exact ⟨.deletes messageId hfinished.received rfl, Or.inr hfinished⟩
  · obtain ⟨hadvances, hok⟩ := Consume.step_ok hs.consistent hs.drawn hp
      (fun outcome nested heq => hdelete ⟨outcome, nested, heq⟩) h
    exact ⟨.works hadvances, hok⟩

theorem publishStep_ok {batchSize : Nat} {inp : Input} {stage stage' : PublishStage}
    (hs : SharedOk P s) (hp : PublishOutbox.Ok i (owns s i) s stage)
    (h : PublishOutbox.step i batchSize inp s stage = some (s', stage')) :
    Effect P i s s' (.publishOutbox batchSize stage) ∧
      PublishOutbox.Ok i (owns s' i) s' stage' := by
  match stage, hp, h with
  | .begin, _, h =>
    obtain ⟨hadvances, hok⟩ := PublishOutbox.step_begin h
    exact ⟨.works hadvances, hok⟩
  | .publishing run [], hp, h =>
    obtain ⟨rfl, rfl⟩ := Prod.mk.inj (Option.some.inj h)
    -- the commit marks what the run has sent
    obtain ⟨hrun, hsent⟩ := hp
    refine ⟨.works (commit_advances rfl (.single hrun.permitted) fun w hw => ?_), trivial⟩
    obtain rfl := List.mem_singleton.mp hw
    exact hsent
  | .publishing run (m :: rest), hp, h =>
    obtain ⟨rfl, hok⟩ := PublishOutbox.step_publishing_ok hs.consistent hp h
    exact ⟨.sends rfl rfl, hok⟩
  | .returned _, _, h => cases h
  | .threw _, _, h => cases h

theorem failed_ok : ProcOk P i s p.failed := by
  cases p with
  | consume messageId stage =>
    cases stage with
    | delete => trivial
    | _ => exact Or.inl ⟨rfl, rfl⟩
  | _ => trivial

theorem step_ok {a : Action} (hs : SharedOk P s) (hp : ProcOk P i s p)
    (h : step P i a s p = some (s', p')) : Effect P i s s' p ∧ ProcOk P i s' p' := by
  cases step_way h with
  | @start call => exact ⟨.works (.refl P i s), by cases call <;> trivial⟩
  -- a failure and a crash only roll back
  | fail => exact ⟨.works rollback_advances, failed_ok⟩
  | crash => exact ⟨.works rollback_advances, trivial⟩
  | openWallet steps =>
    obtain ⟨hadvances, hok⟩ := OpenWallet.step_ok hs.drawn hp steps
    exact ⟨.works hadvances, hok⟩
  | submit steps =>
    obtain ⟨hquiet, hok⟩ := Submit.step_ok hs.consistent hs.drawn hp steps
    exact ⟨.works hquiet.advances, hok⟩
  | submitted =>
    obtain ⟨hadvances, hok⟩ := submit_commit_ok hp
    exact ⟨.works hadvances, hok⟩
  | consume steps => exact consumeStep_ok hs hp steps
  | reprocess steps =>
    obtain ⟨hadvances, hok⟩ := Reprocess.step_ok hs.consistent hs.drawn hp steps
    exact ⟨.works hadvances, hok⟩
  | publishOutbox steps => exact publishStep_ok hs hp steps

/-! ## The invariant -/

theorem initial_ok (P : Platform) : SharedOk P initial.shared :=
  ⟨.empty P, by constructor <;> simp [initial, Shared.init, Database.empty],
    by simp [initial, Shared.init]⟩

/-- In every reachable state the database is consistent and every call knows what it should. -/
theorem reachable_ok (h : Reachable (step P) initial c) :
    SharedOk P c.shared ∧ ∀ i, ProcOk P i c.shared (c.procs i) := by
  refine h.ownAndRely (I := SharedOk P) (L := ProcOk P) (initial_ok P) (fun _ => trivial) ?_ ?_
  · intro c i a s p _ _ hs hp hstep
    obtain ⟨heffect, hp'⟩ := step_ok hs hp hstep
    exact ⟨heffect.sharedOk hs, hp'⟩
  · intro c i a s p j q _ _ hs hp hstep hij hq
    obtain ⟨heffect, -⟩ := step_ok hs hp hstep
    exact heffect.procOk hs.consistent hij hq

theorem reachable_consistent (h : Reachable (step P) initial c) : Consistent P c.shared.db :=
  (reachable_ok h).1.consistent

/-- What a step of a reachable configuration does to the shared state. -/
theorem reachable_effect {a : Action} {c' : Config Shared Proc}
    (h : Reachable (step P) initial c) (hmoved : next (step P) c i a = some c') :
    Effect P i c.shared c'.shared (c.procs i) := by
  obtain ⟨s, p, hstep, rfl⟩ := next_eq_some.mp hmoved
  obtain ⟨hs, hprocs⟩ := reachable_ok h
  exact (step_ok hs (hprocs i) hstep).1

theorem reachable_keepsDrawn {c' : Config Shared Proc} {id : Id} (h : Reachable (step P) initial c)
    (h' : Reachable (step P) c c') (howns : owns c.shared i (.uuid id)) :
    owns c'.shared i (.uuid id) := by
  induction h' with
  | init => exact howns
  | step run _ moved ih => exact (reachable_effect (Reach.trans h run) moved).keepsDrawn ih

/-- What no call ever changes has not changed along a run. -/
theorem reachable_history {c' : Config Shared Proc} (h : Reachable (step P) initial c)
    (h' : Reachable (step P) c c') : Frame (fun _ => False) c.shared.db c'.shared.db := by
  induction h' with
  | init => exact .refl _ _
  | step run _ moved ih =>
    have hreach := Reach.trans h run
    exact ih.trans ((reachable_effect hreach moved).history (reachable_consistent hreach))

end WageringProcessor
