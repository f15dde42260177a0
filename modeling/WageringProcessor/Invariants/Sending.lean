import WageringProcessor.Invariants.Reachable

/-!
# What was sent, and by which run

The queue of events only grows, and one call adds to it: a publishing run that is at a message of
its batch.  `SendsOk` says what the sends of a call are at each of its stages, `SentOk` how the
queue and the outbox relate in every reachable state.
-/

namespace WageringProcessor

open Library.Interleaving Library.Table PublishOutbox

variable {P : Platform} {i j : Pid} {s s' : Shared} {p p' q : Proc} {c c' : Config Shared Proc}
  {m m' : OutboxMessage} {x y : Sent}

/-- The call ended without returning. -/
def Proc.aborted : Proc → Bool
  | crashed => true
  | publishOutbox _ (.threw _) => true
  | _ => false

/-- What the sends of the call `i` are at its stage: the messages that its run has saved as
published, and once the run has returned, published rows. -/
def SendsOk (i : Pid) (s : Shared) : Proc → Prop
  | .publishOutbox _ (.publishing run _) => ∀ x ∈ s.sent, x.sender = i →
      ∃ m ∈ run.saved, m.publishedAt.isSome = true ∧ x = sentBy i m
  | .publishOutbox _ (.returned _) => ∀ x ∈ s.sent, x.sender = i →
      ∃ m ∈ s.db.outboxMessages, m.publishedAt.isSome = true ∧ x = sentBy i m
  | .publishOutbox _ (.threw _) | .crashed => True
  | _ => ∀ x ∈ s.sent, x.sender ≠ i

/-- Whatever was sent is a row of the outbox, and every published row was sent. -/
structure SentOk (s : Shared) : Prop where
  rows : ∀ x ∈ s.sent, ∃ m ∈ s.db.outboxMessages, x = sentBy x.sender m
  published : ∀ m ∈ s.db.outboxMessages, m.publishedAt.isSome = true → ∃ i, sentBy i m ∈ s.sent

/-! ## What a step adds to the queue -/

theorem Effect.sent_eq (h : Effect P i s s' p)
    (hp : ∀ batchSize run todo, p ≠ .publishOutbox batchSize (.publishing run todo)) :
    s'.sent = s.sent := by
  cases h with
  | works h => exact h.sent
  | sends stage => exact absurd stage (hp _ _ _)
  | deletes _ _ deleted => rw [deleted]

/-- A step adds at most one message, in the name of the call that takes it. -/
theorem Effect.sent_append (h : Effect P i s s' p) : s'.sent = s.sent ∨
    ∃ batchSize run m rest, p = .publishOutbox batchSize (.publishing run (m :: rest)) ∧
      s'.sent = s.sent ++ [sentBy i m] ∧ s'.db = s.db := by
  cases h with
  | works h => exact Or.inl h.sent
  | @sends batchSize run m rest delivered stage sent =>
    cases delivered with
    | false => exact Or.inl (by rw [sent]; rfl)
    | true => exact Or.inr ⟨batchSize, run, m, rest, stage, by rw [sent]; rfl, by rw [sent]; rfl⟩
  | deletes _ _ deleted => exact Or.inl (by rw [deleted])

theorem Effect.sent_other (h : Effect P i s s' p) (hij : j ≠ i) (hx : x ∈ s'.sent)
    (hsender : x.sender = j) : x ∈ s.sent := by
  rcases h.sent_append with heq | ⟨_, _, m, _, -, heq, -⟩
  · rwa [heq] at hx
  · rw [heq] at hx
    rcases List.mem_append.mp hx with hx | hx
    · exact hx
    · obtain rfl := List.mem_singleton.mp hx
      exact absurd hsender.symm hij

theorem Effect.published (h : Effect P i s s' p) (hm : m ∈ s'.db.outboxMessages)
    (hp : m.publishedAt.isSome = true) : m ∈ s.db.outboxMessages ∨ sentBy i m ∈ s.sent := by
  cases h with
  | works h => exact h.published m hm hp
  | sends _ sent =>
    rw [sent, send_db] at hm
    exact Or.inl hm
  | deletes _ _ deleted =>
    rw [deleted] at hm
    exact Or.inl hm

/-! ## The sends of a run -/

theorem publishStep_sends {batchSize : Nat} {inp : Input} {stage stage' : PublishStage}
    (hs : SharedOk P s) (hp : PublishOutbox.Ok i (owns s i) s stage)
    (h : SendsOk i s (.publishOutbox batchSize stage))
    (hstep : PublishOutbox.step i batchSize inp s stage = some (s', stage')) :
    SendsOk i s' (.publishOutbox batchSize stage') := by
  match stage, hp, h, hstep with
  | .begin, _, h, hstep =>
    obtain ⟨rows, -, htake, rfl⟩ := step_begin_eq hstep
    have hsent : s'.sent = s.sent := (take_acquires htake).sent
    intro x hx hsender
    exact absurd hsender (h x (hsent ▸ hx))
  | .publishing run [], hp, h, hstep =>
    obtain ⟨rfl, rfl⟩ := Prod.mk.inj (Option.some.inj hstep)
    intro x hx hsender
    obtain ⟨m, hm, hpublished, rfl⟩ := h x hx hsender
    exact ⟨m, hp.1.saved_row hm, hpublished, rfl⟩
  | .publishing run (m :: rest), hp, h, hstep =>
    rw [step_publishing hs.consistent hp.1] at hstep
    obtain ⟨rfl, rfl⟩ := Prod.mk.inj (Option.some.inj hstep)
    intro x hx hsender
    rcases mem_send.mp hx with hx | ⟨hdelivered, rfl⟩
    · obtain ⟨m', hm', hpublished, rfl⟩ := h x hx hsender
      exact ⟨m', List.mem_append_left _ hm', hpublished, rfl⟩
    · refine ⟨published m run.now, List.mem_append_right _ ?_, rfl, rfl⟩
      rw [if_pos hdelivered]
      exact List.mem_singleton_self _
  | .returned _, _, _, hstep => cases hstep
  | .threw _, _, _, hstep => cases hstep

theorem step_sends {a : Action} (hs : SharedOk P s) (hp : ProcOk P i s p) (h : SendsOk i s p)
    (hstep : step P i a s p = some (s', p')) : SendsOk i s' p' := by
  have heffect := (step_ok hs hp hstep).1
  cases step_way hstep with
  | @start call => cases call <;> exact h
  | fail =>
    cases p with
    | consume messageId stage => cases stage <;> trivial
    | publishOutbox => trivial
    | crashed => trivial
    | _ => exact h
  | crash => trivial
  | publishOutbox steps => exact publishStep_sends hs hp h steps
  | openWallet | submit | submitted | consume | reprocess =>
    -- the call goes on as one that does not publish
    have hsent := heffect.sent_eq (by simp)
    exact fun x hx => h x (hsent ▸ hx)

/-- The steps of the others leave the sends of a call as they are. -/
theorem Effect.sendsOk (h : Effect P i s s' p) (hc : Consistent P s.db) (hij : j ≠ i)
    (hq : SendsOk j s q) : SendsOk j s' q := by
  have hold : ∀ x ∈ s'.sent, x.sender = j → x ∈ s.sent := fun x hx => h.sent_other hij hx
  match q, hq with
  | .publishOutbox _ (.publishing _ _), hq => exact fun x hx hj => hq x (hold x hx hj) hj
  | .publishOutbox _ (.returned _), hq =>
    intro x hx hj
    obtain ⟨m, hm, hp, hx⟩ := hq x (hold x hx hj) hj
    obtain ⟨m', hm', -, hsame⟩ := (h.history hc).envelope m hm
    exact ⟨m, hsame hp ▸ hm', hp, hx⟩
  | .publishOutbox _ (.threw _), _ => trivial
  | .crashed, _ => trivial
  | .publishOutbox _ .begin, hq => exact fun x hx hj => hq x (hold x hx hj) hj
  | .idle, hq => exact fun x hx hj => hq x (hold x hx hj) hj
  | .openWallet _ _, hq => exact fun x hx hj => hq x (hold x hx hj) hj
  | .submit _ _, hq => exact fun x hx hj => hq x (hold x hx hj) hj
  | .consume _ _, hq => exact fun x hx hj => hq x (hold x hx hj) hj
  | .reprocess _ _, hq => exact fun x hx hj => hq x (hold x hx hj) hj

theorem Effect.sentOk (h : Effect P i s s' p) (hs : SharedOk P s) (hp : ProcOk P i s p)
    (hsent : SentOk s) : SentOk s' := by
  have hhistory := h.history hs.consistent
  refine ⟨fun x hx => ?_, fun m hm hpublished => ?_⟩
  · have hrow : ∃ m ∈ s.db.outboxMessages, x = sentBy x.sender m := by
      rcases h.sent_append with heq | ⟨_, run, m, rest, stage, heq, -⟩
      · exact hsent.rows x (heq ▸ hx)
      · rw [heq] at hx
        rcases List.mem_append.mp hx with hx | hx
        · exact hsent.rows x hx
        · obtain rfl := List.mem_singleton.mp hx
          subst stage
          obtain ⟨done, hbatch, -⟩ := hp.1.saved
          exact ⟨m, hp.1.rows m (hbatch ▸ List.mem_append_right _ List.mem_cons_self), rfl⟩
    obtain ⟨m, hm, hxm⟩ := hrow
    obtain ⟨m', hm', ⟨hid, haggregate, -, hpayload, -⟩, -⟩ := hhistory.envelope m hm
    refine ⟨m', hm', hxm.trans ?_⟩
    simp only [sentBy, hid, haggregate, hpayload]
  · rcases h.published hm hpublished with hm | hx
    · obtain ⟨j, hx⟩ := hsent.published m hm hpublished
      exact ⟨j, h.sent_mem hx⟩
    · exact ⟨i, h.sent_mem hx⟩

theorem reachable_sends (h : Reachable (step P) initial c) :
    SentOk c.shared ∧ ∀ i, SendsOk i c.shared (c.procs i) := by
  have hinit : SentOk initial.shared := by
    constructor <;> simp [initial, Shared.init, Database.empty]
  refine h.ownAndRely (I := SentOk) (L := SendsOk) hinit (fun i => ?_) ?_ ?_
  · show ∀ x ∈ ([] : List Sent), x.sender ≠ i
    exact fun x hx => absurd hx List.not_mem_nil
  · intro c i a s p run _ hsent hsends hstep
    obtain ⟨hs, hprocs⟩ := reachable_ok run
    exact ⟨(step_ok hs (hprocs i) hstep).1.sentOk hs (hprocs i) hsent,
      step_sends hs (hprocs i) hsends hstep⟩
  · intro c i a s p j q run _ _ _ hstep hij hq
    obtain ⟨hs, hprocs⟩ := reachable_ok run
    exact (step_ok hs (hprocs i) hstep).1.sendsOk hs.consistent hij hq

/-! ## The order of the outbox -/

def Database.outboxIds (d : Database) : List Id := d.outboxMessages.map OutboxMessage.id

section

variable {own : Resource → Prop} {d d' : Database}

/-- The outbox grows at its end. -/
theorem Permitted.outboxIds {w : Writes} (h : Permitted P own d w) :
    ∃ new, (d.apply w).outboxIds = d.outboxIds ++ new := by
  have hnew : ∀ {w : Writes}, NewMessages own d w.outboxMessages →
      ∃ new, (d.apply w).outboxIds = d.outboxIds ++ new := by
    intro w n
    refine ⟨w.outboxMessages.map OutboxMessage.id, ?_⟩
    rw [Database.outboxIds, outbox_apply n, List.map_append]
    rfl
  cases h with
  | settled settled =>
    obtain ⟨s, -⟩ := settled
    exact hnew s.messages
  | openedWith opens => exact hnew opens.messages
  | opened writes | received writes =>
    subst writes
    exact ⟨[], (List.append_nil _).symm⟩
  | published writes nodup saved =>
    subst writes
    refine ⟨[], ?_⟩
    rw [List.append_nil]
    refine map_upsertAll_of_same (fun m' hm' => ?_) fun _ _ _ _ hid => hid
    obtain ⟨m, hm, -, -, hsame⟩ := saved m' hm'
    exact ⟨m, hm, hsame.1.symm⟩

theorem PermittedSeq.outboxIds {ws : List Writes} (h : PermittedSeq P own d ws) :
    ∃ new, (d.applyAll ws).outboxIds = d.outboxIds ++ new := by
  induction h with
  | nil d => exact ⟨[], (List.append_nil _).symm⟩
  | @cons d w ws head _ ih =>
    obtain ⟨new, hnew⟩ := head.outboxIds
    obtain ⟨new', hnew'⟩ := ih
    refine ⟨new ++ new', ?_⟩
    rw [← List.append_assoc, ← hnew]
    exact hnew'

theorem Effect.outboxIds (h : Effect P i s s' p) :
    ∃ new, s'.db.outboxIds = s.db.outboxIds ++ new := by
  cases h with
  | works h =>
    obtain ⟨ws, hdb, hws⟩ := h.changes
    rw [hdb]
    exact hws.outboxIds
  | sends _ sent => exact ⟨[], by rw [sent, send_db, List.append_nil]⟩
  | deletes _ _ deleted => exact ⟨[], by rw [deleted, List.append_nil]⟩

/-- A row under an id that was there before is that row, except for what publishing changes. -/
theorem Frame.old_message (f : Frame own d d') (hids : d'.outboxIds.Nodup)
    (hm : m' ∈ d'.outboxMessages) (hold : m'.id ∈ d.outboxIds) :
    ∃ m ∈ d.outboxMessages, m.SameEnvelope m' ∧ (m.publishedAt.isSome = true → m' = m) ∧
      (own (.outbox m.id) → m' = m) := by
  obtain ⟨m, hmem, hid⟩ := List.mem_map.mp hold
  obtain ⟨m₁, hm₁, hsame, hpublished⟩ := f.envelope m hmem
  obtain rfl : m₁ = m' := List.inj_on_of_nodup_map hids hm₁ hm (hsame.1.trans hid)
  refine ⟨m, hmem, hsame, hpublished, fun hown => ?_⟩
  exact List.inj_on_of_nodup_map hids hm₁ (f.ownMessage m hmem hown) hsame.1

end

end WageringProcessor
