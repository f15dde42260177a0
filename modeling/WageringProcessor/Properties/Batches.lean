import WageringProcessor.Invariants.ConsumeAlone
import WageringProcessor.Runs

/-!
# The queue and the API

A command does the same whether it comes through the queue or through the API.  A batch that is
consumed with nothing else running leaves what submitting its bodies one after the other leaves,
with the rows of the inbox besides: the inbox spares a redelivered message its `execute`, which
would have written nothing.
-/

namespace WageringProcessor

open Library.Interleaving Library.Table

variable {P : Platform} {i : Pid} {c c' c₁ : Config Shared Proc} {messageId : String}
  {outcome : ConsumeOutcome} {d d' : Database} {cmd : SubmitWagerTransactionCommand}
  {g : Generated} {messages : List String}

/-! ## A message -/

/-- `i` consumes the message alone, and its call ends with `outcome`. -/
def ConsumesAlone (P : Platform) (i : Pid) (messageId : String) (c c' : Config Shared Proc)
    (outcome : ConsumeOutcome) : Prop :=
  RunsAlone P i (.consume messageId) c c' ∧
    ∃ nested, c'.procs i = .consume messageId (.done outcome nested)

theorem start_consume {c₀ : Config Shared Proc}
    (hstart : next (step P) c i (.start (.consume messageId)) = some c₀) :
    c₀.shared = c.shared ∧ c₀.procs i = .consume messageId .begin := by
  have hstep := next_self hstart
  obtain ⟨-, hout⟩ := Option.ite_none_right_eq_some.mp hstep
  obtain ⟨hshared, hproc⟩ := Prod.mk.inj (Option.some.inj hout)
  exact ⟨hshared.symm, hproc.symm⟩

/-- How far the call has come. -/
structure Consume.SoFar (P : Platform) (s₀ : Shared) (messageId : String) (s : Shared)
    (stage : ConsumeStage) : Prop where
  drawn : ∀ id, s₀.drawn id → s.drawn id
  deleted : (∀ outcome nested, stage ≠ .done outcome nested) → s.deleted = s₀.deleted
  knows : Consume.Knows P s₀ messageId s stage

theorem Consume.step_soFar {s₀ s s' : Shared} {stage stage' : ConsumeStage} {inp : Input}
    (hs : SharedOk P s) (hok : Consume.Ok P (owns s i) s.db messageId stage)
    (h : Consume.SoFar P s₀ messageId s stage)
    (hstep : Consume.step P messageId i inp s stage = some (s', stage')) :
    Consume.SoFar P s₀ messageId s' stage' := by
  have hknows := Consume.step_knows hs.consistent hs.drawn h.drawn h.deleted hok h.knows hstep
  by_cases hdelete : ∃ outcome nested, stage = .delete outcome nested
  · obtain ⟨outcome, nested, rfl⟩ := hdelete
    obtain ⟨rfl, rfl⟩ := Prod.mk.inj (Option.some.inj hstep)
    exact ⟨h.drawn, fun hdone => absurd rfl (hdone outcome nested), hknows⟩
  · have hadvances := (Consume.step_ok hs.consistent hs.drawn hok
      (fun outcome nested heq => hdelete ⟨outcome, nested, heq⟩) hstep).1
    have hmoving : ∀ outcome nested, stage ≠ .done outcome nested := by
      rintro outcome nested rfl
      cases hstep
    exact ⟨fun id hid => hadvances.drawn id (h.drawn id hid),
      fun _ => hadvances.deleted.trans (h.deleted hmoving), hknows⟩

theorem runsAlone_consume (h : Reachable (step P) initial c)
    (hrun : RunsAlone P i (.consume messageId) c c') :
    ∃ stage, c'.procs i = .consume messageId stage ∧
      Consume.SoFar P c.shared messageId c'.shared stage := by
  obtain ⟨c₀, hstart, hsteps⟩ := hrun
  have hreach : Reachable (step P) initial c₀ := .step h trivial hstart
  obtain ⟨hshared, hproc⟩ := start_consume hstart
  rw [← hshared]
  refine hsteps.invariant (P := fun c => ∃ stage, c.procs i = .consume messageId stage ∧
    Consume.SoFar P c₀.shared messageId c.shared stage) ?_ ?_
  · exact ⟨.begin, hproc, fun _ hid => hid, fun _ => rfl, rfl⟩
  · rintro c₁ j a c₂ hrun ⟨stage, hstage, hsofar⟩ ⟨rfl, inp, rfl⟩ hmoved
    obtain ⟨hs, hprocs⟩ := reachable_ok (hreach.trans hrun.reachable)
    have hok : ProcOk P j c₁.shared (.consume messageId stage) := hstage ▸ hprocs j
    have hstep := next_self hmoved
    rw [hstage] at hstep
    obtain ⟨⟨s', stage'⟩, hinner, hout⟩ := Option.map_eq_some_iff.mp hstep
    obtain ⟨hshared', hproc'⟩ := Prod.mk.inj hout
    exact ⟨stage', hproc'.symm, hshared' ▸ Consume.step_soFar hs hok hsofar hinner⟩

/-- How a consumer has ended. -/
def Proc.consumed : Proc → Option ConsumeOutcome
  | .consume _ (.done outcome _) => some outcome
  | _ => none

theorem consumesAlone_of_exec {inputs : List Input} (h : Reachable (step P) initial c)
    (hexec : execAlone P i (.consume messageId) inputs c = some c')
    (hout : (c'.procs i).consumed = some outcome) : ConsumesAlone P i messageId c c' outcome := by
  have hrun := runsAlone_of_exec hexec
  obtain ⟨stage, hstage, -⟩ := runsAlone_consume h hrun
  refine ⟨hrun, ?_⟩
  rw [hstage] at hout ⊢
  cases stage with
  | done outcome' nested =>
    obtain rfl := Option.some.inj hout
    exact ⟨nested, rfl⟩
  | _ => cases hout

/-- What the use case sees of the state. -/
def seen (c : Config Shared Proc) : Consume.Seen := (c.shared.db, c.shared.deleted)

/-- A consumer that runs alone does what `consumeOne` says. -/
theorem consumesAlone_consumeOne (h : Reachable (step P) initial c)
    (hrun : ConsumesAlone P i messageId c c' outcome) :
    ∃ now g, g.New c.shared.db ∧ (Consume.handle P c.shared.db messageId now g).1 = outcome ∧
      Consume.consumeOne P messageId now g (seen c) = seen c' := by
  obtain ⟨stage, hstage, hsofar⟩ := runsAlone_consume h hrun.1
  obtain ⟨nested, hdone⟩ := hrun.2
  rw [hdone] at hstage
  obtain rfl := (Proc.consume.inj hstage).2
  obtain ⟨hdeleted, writes, ⟨now, g, hnew, hhandle⟩, hdb⟩ := hsofar.knows
  refine ⟨now, g, hnew, congrArg Prod.fst hhandle, ?_⟩
  unfold Consume.consumeOne seen
  rw [hhandle]
  exact Prod.ext hdb.symm hdeleted.symm

/-! ## The same commands through the API -/

/-- The tables but the inbox. -/
def Database.withoutInbox (d : Database) : Database := { d with inboxMessages := [] }

/-- The row that `execute` leaves where the body of the message is submitted through the API. -/
def submitBody (P : Platform) (m : Consume.Delivery) (d : Database) : Database :=
  match parseWagerTransactionMessage P (P.messageBody m.messageId) with
  | .error _ => d
  | .ok cmd => d.applyAll (Submit.committed (Submit.execute P d cmd m.drawn))

def submitBodies (P : Platform) : List Consume.Delivery → Database → Database
  | [], d => d
  | m :: messages, d => submitBodies P messages (submitBody P m d)

theorem execute_withoutInbox (d : Database) (cmd : SubmitWagerTransactionCommand) (g : Generated) :
    Submit.execute P d.withoutInbox cmd g = Submit.execute P d cmd g := rfl

theorem applyAll_withoutInbox (ws : List Writes) (d : Database) :
    (d.withoutInbox.applyAll ws).withoutInbox = (d.applyAll ws).withoutInbox := by
  induction ws generalizing d with
  | nil => rfl
  | cons w ws ih =>
    show ((d.withoutInbox.apply w).applyAll ws).withoutInbox =
      ((d.apply w).applyAll ws).withoutInbox
    rw [← ih (d.withoutInbox.apply w), ← ih (d.apply w)]
    rfl

theorem submitBody_withoutInbox (m : Consume.Delivery) (h : d.withoutInbox = d'.withoutInbox) :
    (submitBody P m d).withoutInbox = (submitBody P m d').withoutInbox := by
  unfold submitBody
  cases parseWagerTransactionMessage P (P.messageBody m.messageId) with
  | error => exact h
  | ok cmd =>
    dsimp only
    rw [← execute_withoutInbox d, ← execute_withoutInbox d', h, ← applyAll_withoutInbox _ d, h,
      applyAll_withoutInbox]

theorem submitBodies_withoutInbox (messages : List Consume.Delivery)
    (h : d.withoutInbox = d'.withoutInbox) :
    (submitBodies P messages d).withoutInbox = (submitBodies P messages d').withoutInbox := by
  induction messages generalizing d d' with
  | nil => exact h
  | cons m messages ih => exact ih (submitBody_withoutInbox m h)

theorem create_key {props : CreateWagerTransactionProps} {tx : WagerTransaction}
    (h : WagerTransaction.create props = .ok tx) : tx.idempotencyKey = props.idempotencyKey := by
  unfold WagerTransaction.create at h
  split at h
  · cases h
  split at h
  · cases h
  · rw [← Except.ok.inj h]

/-- A key that is taken is never written for again. -/
theorem execute_taken (h : (d.findByIdempotencyKey cmd.idempotencyKey).isSome = true) :
    Submit.committed (Submit.execute P d cmd g) = [] := by
  obtain ⟨byKey, hfound⟩ := Option.isSome_iff_exists.mp h
  have hconflict : Submit.committed (Submit.handleClaimConflict P d cmd) = [] := by
    unfold Submit.handleClaimConflict
    rw [hfound]
    dsimp only
    split <;> rfl
  unfold Submit.execute
  split
  · rfl
  split
  · rfl
  split
  · rfl
  unfold Submit.processNew
  split
  · rfl
  split
  · rfl
  rename_i tx hcreate
  unfold Submit.claim
  split
  · rfl
  have hkey : tx.idempotencyKey = cmd.idempotencyKey := create_key hcreate
  rw [hkey, h, Bool.true_or, if_pos rfl]
  exact hconflict

theorem apply_inbox_withoutInbox (ms : List InboxMessage) (d : Database) :
    (d.apply { inboxMessages := ms }).withoutInbox = d.withoutInbox := by
  simp [Database.apply, Database.withoutInbox]

theorem applyAll_received_withoutInbox (received marked : List InboxMessage) (ws : List Writes)
    (d : Database) : (d.applyAll ([{ inboxMessages := received }] ++ ws ++
      [{ inboxMessages := marked }])).withoutInbox = (d.applyAll ws).withoutInbox := by
  simp only [Database.applyAll, List.foldl_append, List.foldl_cons, List.foldl_nil]
  rw [apply_inbox_withoutInbox]
  show ((d.apply { inboxMessages := received }).applyAll ws).withoutInbox =
    (d.applyAll ws).withoutInbox
  rw [← applyAll_withoutInbox, apply_inbox_withoutInbox, applyAll_withoutInbox]

/-- What `handle` commits, but for the inbox, is what `execute` does. -/
theorem handle_submits (hc : Consistent P d) (m : Consume.Delivery) :
    (d.applyAll (Consume.handle P d m.messageId m.now m.drawn).2).withoutInbox =
      (submitBody P m d).withoutInbox := by
  cases hfound : d.findByConsumerAndMessageId CONSUMER_NAME m.messageId with
  | some existing =>
    -- the command of a message that is processed was applied, so its key is taken
    obtain ⟨hrow, hkey⟩ := lookup_mem hfound
    have hinbox := hc.inbox existing hrow
    obtain ⟨cmd, hparse, t, ht, htkey, -⟩ := hinbox.backed
    rw [show existing.messageId = m.messageId from (Prod.mk.inj hkey).2] at hparse
    have htaken : (d.findByIdempotencyKey cmd.idempotencyKey).isSome = true := by
      rw [← htkey, show d.findByIdempotencyKey t.idempotencyKey = some t from
        lookup_of_mem hc.idempotencyKeys ht]
      rfl
    unfold Consume.handle submitBody
    rw [hfound, hparse]
    dsimp only
    rw [if_pos hinbox.processed, execute_taken htaken]
  | none =>
    rw [Consume.handle_new hfound]
    unfold submitBody
    cases hparse : parseWagerTransactionMessage P (P.messageBody m.messageId) with
    | error err =>
      rw [Consume.process_malformed hparse]
      rfl
    | ok cmd =>
      dsimp only
      cases hexecute : Submit.execute P d cmd m.drawn with
      | error err =>
        rw [Consume.process_threw hparse hexecute]
        rfl
      | ok answer =>
        rw [Consume.process_returned hparse hexecute rfl]
        exact applyAll_received_withoutInbox _ _ answer.2 d

/-! ## A batch -/

/-- The messages are consumed in this order, each alone, by any workers. -/
inductive ConsumesInTurn (P : Platform) :
    List String → Config Shared Proc → Config Shared Proc → Prop
  | nil (c : Config Shared Proc) : ConsumesInTurn P [] c c
  | cons {i : Pid} {messageId : String} {messages : List String} {outcome : ConsumeOutcome}
      {c c₁ c' : Config Shared Proc} (first : ConsumesAlone P i messageId c c₁ outcome)
      (rest : ConsumesInTurn P messages c₁ c') : ConsumesInTurn P (messageId :: messages) c c'

/-- The batch was consumed as `run` says, and submitting its bodies instead would have left the same
tables but the inbox. -/
structure Consumed (P : Platform) (c c' : Config Shared Proc) (batch : List Consume.Delivery) :
    Prop where
  fresh : Consume.Fresh P batch (seen c)
  runs : Consume.run P batch (seen c) = seen c'
  submits : c'.shared.db.withoutInbox = (submitBodies P batch c.shared.db).withoutInbox

theorem Consumed.cons {m : Consume.Delivery} {batch : List Consume.Delivery}
    (hc : Consistent P c.shared.db) (hnew : m.drawn.New c.shared.db)
    (hfirst : Consume.consumeOne P m.messageId m.now m.drawn (seen c) = seen c₁)
    (h : Consumed P c₁ c' batch) : Consumed P c c' (m :: batch) := by
  refine ⟨⟨hnew, ?_⟩, ?_, ?_⟩
  · rw [hfirst]
    exact h.fresh
  · rw [Consume.run, hfirst]
    exact h.runs
  · have hdb : c.shared.db.applyAll (Consume.handle P c.shared.db m.messageId m.now m.drawn).2 =
        c₁.shared.db := congrArg Prod.fst hfirst
    have hsame : c₁.shared.db.withoutInbox = (submitBody P m c.shared.db).withoutInbox :=
      hdb ▸ handle_submits hc m
    rw [h.submits]
    exact submitBodies_withoutInbox batch hsame

/-- A batch that is consumed with nothing else running does what its bodies do through the API. -/
theorem consumesInTurn_submits (h : Reachable (step P) initial c)
    (hrun : ConsumesInTurn P messages c c') :
    ∃ batch : List Consume.Delivery, batch.map (·.messageId) = messages ∧
      Consumed P c c' batch := by
  induction hrun with
  | nil c => exact ⟨[], rfl, trivial, rfl, rfl⟩
  | @cons i messageId messages outcome c c₁ c' first rest ih =>
    obtain ⟨now, g, hnew, -, hfirst⟩ := consumesAlone_consumeOne h first
    obtain ⟨batch, hmessages, hconsumed⟩ := ih (first.1.reachable h)
    refine ⟨⟨messageId, now, g⟩ :: batch, ?_,
      hconsumed.cons (reachable_ok h).1.consistent hnew hfirst⟩
    rw [List.map_cons, hmessages]

/-- A bet is delivered twice, and in between a message that names a wallet that does not exist. -/
def redelivered : Option (Config Shared Proc × Config Shared Proc × Config Shared Proc ×
    Config Shared Proc) := do
  let c ← exec (step localPlatform) initial (runCall 0 (.openWallet openCommand) 1 6)
  let c₁ ← execAlone localPlatform 1 (.consume "message-1") (inputs 7 13) c
  let c₂ ← execAlone localPlatform 2 (.consume "message-2") (inputs 20 7) c₁
  let c₃ ← execAlone localPlatform 3 (.consume "message-1") (inputs 27 4) c₂
  return (c, c₁, c₂, c₃)

theorem redelivered_submits : ∃ (c c' : Config Shared Proc) (batch : List Consume.Delivery),
    batch.map (·.messageId) = ["message-1", "message-2", "message-1"] ∧
      c'.shared.db.wallets.map (·.balanceAmount) = [7000] ∧
        c'.shared.deleted = ["message-1", "message-1"] ∧ Consumed localPlatform c c' batch := by
  have hrun : redelivered.any (fun out =>
      ((out.2.1.procs 1).consumed.isSome && (out.2.2.1.procs 2).consumed.isSome) &&
        (out.2.2.2.procs 3).consumed.isSome &&
          (decide (out.2.2.2.shared.db.wallets.map (·.balanceAmount) = [7000]) &&
            decide (out.2.2.2.shared.deleted = ["message-1", "message-1"]))) = true := by
    decide +kernel
  cases hout : redelivered with
  | none =>
    rw [hout] at hrun
    cases hrun
  | some out =>
    rw [hout] at hrun
    simp only [Option.any_some, Bool.and_eq_true, decide_eq_true_eq,
      Option.isSome_iff_exists] at hrun
    obtain ⟨⟨⟨⟨out₁, h₁⟩, ⟨out₂, h₂⟩⟩, ⟨out₃, h₃⟩⟩, hbalances, hdeleted⟩ := hrun
    unfold redelivered at hout
    obtain ⟨c, hexec, hrest⟩ := Option.bind_eq_some_iff.mp hout
    obtain ⟨c₁, hexec₁, hrest⟩ := Option.bind_eq_some_iff.mp hrest
    obtain ⟨c₂, hexec₂, hrest⟩ := Option.bind_eq_some_iff.mp hrest
    obtain ⟨c₃, hexec₃, hrest⟩ := Option.bind_eq_some_iff.mp hrest
    obtain rfl := Option.some.inj hrest
    have h := reachable_of_exec hexec
    have hconsume₁ := consumesAlone_of_exec h hexec₁ h₁
    have hreach₁ := hconsume₁.1.reachable h
    have hconsume₂ := consumesAlone_of_exec hreach₁ hexec₂ h₂
    have hconsume₃ := consumesAlone_of_exec (hconsume₂.1.reachable hreach₁) hexec₃ h₃
    obtain ⟨batch, hmessages, hconsumed⟩ := consumesInTurn_submits h
      (.cons hconsume₁ (.cons hconsume₂ (.cons hconsume₃ (.nil c₃))))
    exact ⟨c, c₃, batch, hmessages, hbalances, hdeleted, hconsumed⟩

end WageringProcessor
