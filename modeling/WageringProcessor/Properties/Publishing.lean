import WageringProcessor.Invariants.Calls
import WageringProcessor.Invariants.Sending
import WageringProcessor.Library.ListOrder
import WageringProcessor.Runs

/-!
# Publishing the outbox

Any number of publishing runs, sends that fail, and calls that stop between any two of their steps.
No event is lost and none is sent twice, except by a run that ends without committing.
-/

namespace WageringProcessor

open Library.Interleaving Library.ListOrder Library.Table PublishOutbox

variable {P : Platform} {i j : Pid} {c c' : Config Shared Proc} {a : Action} {batchSize : Nat}
  {run : PublishRun} {m m' : OutboxMessage} {rest : List OutboxMessage}

/-! ## What holds of published rows -/

/-- `m'` is `m` after a failed send at `now`. -/
structure Rescheduled (now : Date) (m m' : OutboxMessage) : Prop where
  envelope : m.SameEnvelope m'
  pending : m'.isPending = true
  attempts : m'.attempts = m.attempts + 1
  later : ∃ at_ ∈ m'.nextAttemptAt, now < at_

/-- The run of `i` committed the row `m` as published, after it had sent it. -/
def PublishedBy (P : Platform) (c : Config Shared Proc) (i : Pid) (m : OutboxMessage) : Prop :=
  ∃ c₀ c₁ batchSize run inp, Reachable (step P) initial c₀ ∧
    c₀.procs i = .publishOutbox batchSize (.publishing run []) ∧
    next (step P) c₀ i (.step inp) = some c₁ ∧ Reachable (step P) c₁ c ∧
    m ∉ c₀.shared.db.outboxMessages ∧ m ∈ c₁.shared.db.outboxMessages ∧
    sentBy i m ∈ c₀.shared.sent

structure PublishedOnce (P : Platform) (c : Config Shared Proc) : Prop where
  published : ∀ m ∈ c.shared.db.outboxMessages, m.publishedAt.isSome = true →
    ∃ i, PublishedBy P c i m
  /-- A send is followed by the next message, whatever comes of it. -/
  sends : ∀ i batchSize run m rest inp,
    c.procs i = .publishOutbox batchSize (.publishing run (m :: rest)) →
      ∃ c' m', next (step P) c i (.step inp) = some c' ∧
        c'.procs i =
          .publishOutbox batchSize (.publishing { run with saved := run.saved ++ [m'] } rest) ∧
        c'.shared.db = c.shared.db ∧
        if inp.delivered then
          m' = { m with publishedAt := some run.now } ∧
            c'.shared.sent = c.shared.sent ++ [sentBy i m]
        else
          Rescheduled run.now m m' ∧ c'.shared.sent = c.shared.sent
  /-- A run commits its whole batch: published what it has sent, rescheduled the rest. -/
  commits : ∀ i batchSize run inp,
    c.procs i = .publishOutbox batchSize (.publishing run []) →
      ∃ c', next (step P) c i (.step inp) = some c' ∧
        c'.procs i = .publishOutbox batchSize (.returned run.batch.length) ∧
        ∀ m ∈ run.batch, ∃ m' ∈ c'.shared.db.outboxMessages,
          if sentBy i m ∈ c.shared.sent then m' = { m with publishedAt := some run.now }
          else Rescheduled run.now m m'
  /-- A run that aborts leaves the rows of its batch as it has read them. -/
  aborts : ∀ i a c' batchSize run todo,
    c.procs i = .publishOutbox batchSize (.publishing run todo) →
      next (step P) c i a = some c' → (c'.procs i).aborted = true →
        c'.shared.db = c.shared.db ∧ ∀ m ∈ run.batch, m ∈ c'.shared.db.outboxMessages
  /-- A published row is never changed and never selected again. -/
  final : ∀ m ∈ c.shared.db.outboxMessages, m.publishedAt.isSome = true →
    ∀ c', Reachable (step P) c c' → m ∈ c'.shared.db.outboxMessages ∧
      ∀ i batchSize run todo, c'.procs i = .publishOutbox batchSize (.publishing run todo) →
        ∀ m' ∈ run.batch, m'.id ≠ m.id
  /-- When a message was sent twice, the run that sent it first was aborted. -/
  duplicates : ∀ x y, Precedes c.shared.sent x y →
    x.messageDeduplicationId = y.messageDeduplicationId → (c.procs x.sender).aborted = true

/-! ## One step -/

theorem retried_rescheduled {now : Date} (h : m.publishedAt = none) :
    Rescheduled now m (retried m now) := by
  refine ⟨⟨rfl, rfl, rfl, rfl, rfl⟩, by simp [OutboxMessage.isPending, retried, h], rfl, _, rfl, ?_⟩
  exact Nat.lt_add_of_pos_right (OutboxMessage.computeBackoffMs_pos (m.attempts + 1))

theorem publishing_ok (h : Reachable (step P) initial c) {todo : List OutboxMessage}
    (hp : c.procs i = .publishOutbox batchSize (.publishing run todo)) :
    RunOk (owns c.shared i) c.shared.db run todo ∧ AllSent i c.shared.sent run.saved := by
  have hproc := (reachable_ok h).2 i
  rw [hp] at hproc
  exact hproc

theorem reachable_publishing_sends (h : Reachable (step P) initial c)
    (hp : c.procs i = .publishOutbox batchSize (.publishing run (m :: rest))) (inp : Input) :
    ∃ c', next (step P) c i (.step inp) = some c' ∧ c'.shared = send i c.shared m inp.delivered ∧
      c'.procs i = .publishOutbox batchSize (.publishing { run with saved := run.saved ++
        [if inp.delivered then published m run.now else retried m run.now] } rest) := by
  have hstep : PublishOutbox.step i batchSize inp c.shared (.publishing run (m :: rest)) = some _ :=
    step_publishing (reachable_consistent h) (publishing_ok h hp).1
  refine ⟨_, next_eq_some.mpr ⟨_, _, ?_, rfl⟩, rfl, Function.update_self ..⟩
  rw [hp]
  exact Option.map_eq_some_iff.mpr ⟨_, hstep, rfl⟩

/-- A batch is sent as far as it is saved as published. -/
theorem saved_of_batch (h : Reachable (step P) initial c)
    (hp : c.procs i = .publishOutbox batchSize (.publishing run [])) (hm : m ∈ run.batch) :
    ∃ m' ∈ run.saved, if sentBy i m ∈ c.shared.sent then m' = published m run.now
      else m' = retried m run.now := by
  obtain ⟨hrun, hall⟩ := publishing_ok h hp
  have hsends := (reachable_sends h).2 i
  rw [hp] at hsends
  obtain ⟨done, hbatch, hsaved⟩ := hrun.saved
  rw [List.append_nil] at hbatch
  subst hbatch
  have hpending := hrun.pending m hm
  obtain ⟨m', hm', hms⟩ := mem_saved hsaved hm
  refine ⟨m', hm', ?_⟩
  rcases hms with rfl | rfl
  · have hsent : sentBy i m ∈ c.shared.sent := hall (published m run.now) hm' rfl
    rw [if_pos hsent]
  · rw [if_neg]
    intro hsent
    -- what was sent was saved as published, under the same id
    obtain ⟨n, hn, hpublished, heq⟩ := hsends _ hsent rfl
    have hid : n.id = m.id := (congrArg Sent.messageDeduplicationId heq).symm
    have hnodup : (run.saved.map OutboxMessage.id).Nodup := saved_ids hsaved ▸ hrun.nodup
    obtain rfl := List.inj_on_of_nodup_map hnodup hn hm' hid
    simp [retried, hpending] at hpublished

theorem reachable_commits (h : Reachable (step P) initial c)
    (hp : c.procs i = .publishOutbox batchSize (.publishing run [])) (inp : Input) :
    ∃ c', next (step P) c i (.step inp) = some c' ∧
      c'.procs i = .publishOutbox batchSize (.returned run.batch.length) ∧
      ∀ m ∈ run.batch, ∃ m' ∈ c'.shared.db.outboxMessages,
        if sentBy i m ∈ c.shared.sent then m' = published m run.now
        else Rescheduled run.now m m' := by
  refine ⟨_, next_eq_some.mpr ⟨_, _, by rw [hp]; rfl, rfl⟩, Function.update_self .., ?_⟩
  intro m hm
  have hrun := (publishing_ok h hp).1
  obtain ⟨m', hm', hif⟩ := saved_of_batch h hp hm
  refine ⟨m', hrun.saved_row hm', ?_⟩
  split at hif
  · rwa [if_pos ‹_›]
  · rw [if_neg ‹_›, hif]
    exact retried_rescheduled (hrun.pending m hm)

/-- The only step of a publishing run that writes is its commit. -/
theorem publishing_writes (h : Reachable (step P) initial c) {todo : List OutboxMessage}
    (hp : c.procs i = .publishOutbox batchSize (.publishing run todo))
    (hmoved : next (step P) c i a = some c') : c'.shared.db = c.shared.db ∨
      todo = [] ∧ (∃ inp, a = .step inp) ∧
        c'.procs i = .publishOutbox batchSize (.returned run.batch.length) ∧
        c'.shared.db = c.shared.db.applyAll (writes run) := by
  obtain ⟨s, p, hstep, rfl⟩ := next_eq_some.mp hmoved
  rw [hp] at hstep
  cases step_way hstep with
  | fail | crash => exact Or.inl rfl
  | publishOutbox steps =>
    cases todo with
    | nil =>
      obtain ⟨rfl, rfl⟩ := Prod.mk.inj (Option.some.inj steps)
      exact Or.inr ⟨rfl, ⟨_, rfl⟩, Function.update_self .., rfl⟩
    | cons m rest =>
      rw [step_publishing (reachable_consistent h) (publishing_ok h hp).1] at steps
      obtain ⟨rfl, rfl⟩ := Prod.mk.inj (Option.some.inj steps)
      exact Or.inl (send_db _)

theorem publishing_aborts (h : Reachable (step P) initial c) {todo : List OutboxMessage}
    (hp : c.procs i = .publishOutbox batchSize (.publishing run todo))
    (hmoved : next (step P) c i a = some c') (haborted : (c'.procs i).aborted = true) :
    c'.shared.db = c.shared.db := by
  rcases publishing_writes h hp hmoved with hdb | ⟨-, -, hreturned, -⟩
  · exact hdb
  · rw [hreturned] at haborted
    exact absurd haborted Bool.false_ne_true

/-- A call that has sent something publishes, or has ended. -/
theorem sender_publishes (h : Reachable (step P) initial c) {x : Sent}
    (hx : x ∈ c.shared.sent) (hsender : x.sender = i) :
    (∃ batchSize run todo, c.procs i = .publishOutbox batchSize (.publishing run todo)) ∨
      (∃ batchSize count, c.procs i = .publishOutbox batchSize (.returned count)) ∨
        (c.procs i).aborted = true := by
  have hsends := (reachable_sends h).2 i
  match hp : c.procs i, hsends with
  | .publishOutbox _ (.publishing _ _), _ => exact Or.inl ⟨_, _, _, rfl⟩
  | .publishOutbox _ (.returned _), _ => exact Or.inr (Or.inl ⟨_, _, rfl⟩)
  | .publishOutbox _ (.threw _), _ => exact Or.inr (Or.inr rfl)
  | .crashed, _ => exact Or.inr (Or.inr rfl)
  | .publishOutbox _ .begin, hsends => exact absurd hsender (hsends x hx)
  | .idle, hsends => exact absurd hsender (hsends x hx)
  | .openWallet _ _, hsends => exact absurd hsender (hsends x hx)
  | .submit _ _, hsends => exact absurd hsender (hsends x hx)
  | .consume _ _, hsends => exact absurd hsender (hsends x hx)
  | .reprocess _ _, hsends => exact absurd hsender (hsends x hx)

theorem Proc.ended_of_aborted {p : Proc} (hp : p.aborted = true) :
    p ≠ .idle ∧ p.running = false := by
  cases p with
  | crashed => exact ⟨Proc.noConfusion, rfl⟩
  | publishOutbox batchSize stage =>
    cases stage with
    | threw => exact ⟨Proc.noConfusion, rfl⟩
    | _ => cases hp
  | _ => cases hp

theorem aborted_stays (hp : (c.procs i).aborted = true) : next (step P) c i a = none :=
  next_ended (Proc.ended_of_aborted hp).1 (Proc.ended_of_aborted hp).2

theorem returned_stays {count : Nat}
    (hp : c.procs i = .publishOutbox batchSize (.returned count)) :
    next (step P) c i a = none := by
  refine next_ended ?_ ?_
  · rw [hp]
    exact Proc.noConfusion
  · rw [hp]
    rfl

/-- A row becomes published only by the commit of a run that has sent it. -/
theorem published_step (h : Reachable (step P) initial c)
    (hmoved : next (step P) c i a = some c') (hm : m ∈ c'.shared.db.outboxMessages)
    (hpublished : m.publishedAt.isSome = true) (hnew : m ∉ c.shared.db.outboxMessages) :
    ∃ batchSize run inp, a = .step inp ∧
      c.procs i = .publishOutbox batchSize (.publishing run []) ∧
        sentBy i m ∈ c.shared.sent := by
  have hsent : sentBy i m ∈ c.shared.sent :=
    ((reachable_effect h hmoved).published hm hpublished).resolve_left hnew
  rcases sender_publishes (i := i) h hsent rfl with ⟨batchSize, run, todo, hp⟩ | ⟨_, _, hp⟩ | hp
  · rcases publishing_writes h hp hmoved with hdb | ⟨rfl, ⟨inp, ha⟩, -, -⟩
    · exact absurd (hdb ▸ hm) hnew
    · exact ⟨batchSize, run, inp, ha, hp, hsent⟩
  · rw [returned_stays hp] at hmoved
    cases hmoved
  · rw [aborted_stays hp] at hmoved
    cases hmoved

/-! ## Whole runs -/

theorem reachable_published (h : Reachable (step P) initial c) (hm : m ∈ c.shared.db.outboxMessages)
    (hpublished : m.publishedAt.isSome = true) : ∃ i, PublishedBy P c i m := by
  induction h with
  | init => simp [initial, Shared.init, Database.empty] at hm
  | @step c c' i a run _ moved ih =>
    by_cases hold : m ∈ c.shared.db.outboxMessages
    · obtain ⟨j, c₀, c₁, batchSize, run₀, inp, hreach, hp, hnext, hafter, hrest⟩ := ih hold
      exact ⟨j, c₀, c₁, batchSize, run₀, inp, hreach, hp, hnext, .step hafter trivial moved, hrest⟩
    · obtain ⟨batchSize, run₀, inp, rfl, hp, hsent⟩ := published_step run moved hm hpublished hold
      exact ⟨i, c, c', batchSize, run₀, inp, run, hp, moved, .init, hold, hm, hsent⟩

/-- A row that is published stays as it is, and is in no batch. -/
theorem reachable_final (h : Reachable (step P) initial c) (hm : m ∈ c.shared.db.outboxMessages)
    (hpublished : m.publishedAt.isSome = true) (h' : Reachable (step P) c c') :
    m ∈ c'.shared.db.outboxMessages ∧
      ∀ i batchSize run todo, c'.procs i = .publishOutbox batchSize (.publishing run todo) →
        ∀ m' ∈ run.batch, m'.id ≠ m.id := by
  obtain ⟨m₁, hm₁, -, hsame⟩ := (reachable_history h h').envelope m hm
  obtain rfl : m₁ = m := hsame hpublished
  refine ⟨hm₁, fun i batchSize run todo hp m' hm' hid => ?_⟩
  have hreach := Reach.trans h h'
  have hrun := (publishing_ok hreach hp).1
  obtain rfl : m' = m₁ :=
    List.inj_on_of_nodup_map (reachable_consistent hreach).outboxIds (hrun.rows m' hm') hm₁ hid
  rw [hrun.pending m' hm'] at hpublished
  exact absurd hpublished Bool.false_ne_true

/-- Nobody that could still commit has sent a message that a run is about to send. -/
theorem sent_before (h : Reachable (step P) initial c)
    (hp : c.procs i = .publishOutbox batchSize (.publishing run (m :: rest))) {x : Sent}
    (hx : x ∈ c.shared.sent) (hid : x.messageDeduplicationId = m.id) :
    x.sender ≠ i ∧ (c.procs x.sender).aborted = true := by
  have hrun := (publishing_ok h hp).1
  obtain ⟨done, hbatch, -⟩ := hrun.saved
  have hbatched : m ∈ run.batch := hbatch ▸ List.mem_append_right _ List.mem_cons_self
  have hne : x.sender ≠ i := by
    intro hsender
    have hsends := (reachable_sends h).2 i
    rw [hp] at hsends
    obtain ⟨m', hm', -, rfl⟩ := hsends x hx hsender
    obtain ⟨-, -, -, htodo⟩ := hrun.of_saved hm'
    exact htodo m List.mem_cons_self hid.symm
  refine ⟨hne, ?_⟩
  have hsends := (reachable_sends h).2 x.sender
  rcases sender_publishes h hx rfl with ⟨batchSize', run', todo', hp'⟩ | ⟨_, _, hp'⟩ | hp'
  · -- both would hold the lock of the row
    rw [hp'] at hsends
    obtain ⟨m', hm', -, hxm⟩ := hsends x hx rfl
    have hrun' := (publishing_ok h hp').1
    obtain ⟨m₀, hm₀, hsaved, -⟩ := hrun'.of_saved hm'
    have hsame : m₀.id = m.id := by
      rw [← hsaved.id, ← hid, hxm]
      rfl
    exact absurd (hsame ▸ hrun.owns m hbatched) (owns_disjoint hne _ (hrun'.owns m₀ hm₀))
  · rw [hp'] at hsends
    obtain ⟨m', hm', hpublished, hxm⟩ := hsends x hx rfl
    have hsame : m'.id = m.id := by
      rw [← hid, hxm]
      rfl
    have hconsistent := reachable_consistent h
    obtain rfl :=
      List.inj_on_of_nodup_map hconsistent.outboxIds hm' (hrun.rows m hbatched) hsame
    rw [hrun.pending m' hbatched] at hpublished
    exact absurd hpublished Bool.false_ne_true
  · exact hp'

theorem reachable_duplicates (h : Reachable (step P) initial c) (x y : Sent)
    (hxy : Precedes c.shared.sent x y)
    (hid : x.messageDeduplicationId = y.messageDeduplicationId) :
    (c.procs x.sender).aborted = true := by
  induction h with
  | init => exact absurd hxy.mem_left List.not_mem_nil
  | @step c c' i a run _ moved ih =>
    have haborted : (c.procs x.sender).aborted = true := by
      rcases (reachable_effect run moved).sent_append with heq | ⟨_, _, m, _, hp, heq, -⟩
      · exact ih (heq ▸ hxy)
      · rw [heq] at hxy
        rcases precedes_concat.mp hxy with hxy | ⟨hx, rfl⟩
        · exact ih hxy
        · exact (sent_before run hp hx hid).2
    obtain ⟨s, p, -, rfl⟩ := next_eq_some.mp moved
    have hne : x.sender ≠ i := by
      intro hsender
      rw [hsender] at haborted
      rw [aborted_stays haborted] at moved
      cases moved
    rw [show (Config.mk s (Function.update c.procs i p)).procs x.sender = c.procs x.sender from
      Function.update_of_ne hne _ _]
    exact haborted

/-- In every reachable state no event is lost and none is sent twice, except by an aborted run. -/
theorem reachable_publishedOnce (h : Reachable (step P) initial c) : PublishedOnce P c where
  published m hm hpublished := reachable_published h hm hpublished
  sends i batchSize run m rest inp hp := by
    obtain ⟨c', hnext, hshared, hp'⟩ := reachable_publishing_sends h hp inp
    refine ⟨c', _, hnext, hp', ?_, ?_⟩
    · rw [hshared, send_db]
    · rw [hshared]
      cases inp.delivered with
      | true => exact ⟨rfl, rfl⟩
      | false =>
        obtain ⟨done, hbatch, -⟩ := (publishing_ok h hp).1.saved
        have hmem : m ∈ run.batch := hbatch ▸ List.mem_append_right _ List.mem_cons_self
        exact ⟨retried_rescheduled ((publishing_ok h hp).1.pending m hmem), rfl⟩
  commits i batchSize run inp hp := reachable_commits h hp inp
  aborts i a c' batchSize run todo hp hmoved haborted := by
    have hdb := publishing_aborts h hp hmoved haborted
    rw [hdb]
    exact ⟨rfl, (publishing_ok h hp).1.rows⟩
  final m hm hpublished c' h' := reachable_final h hm hpublished h'
  duplicates := reachable_duplicates h

theorem failedSend_publishedOnce : ∃ c, Reachable (step localPlatform) initial c ∧
    c.shared.sent.map (fun x => (x.messageDeduplicationId, x.messageGroupId)) =
        [(uuidText 53, uuidText 10)] ∧
      PublishedOnce localPlatform c := by
  obtain ⟨c, hreach, hsent, -⟩ := failedSend_reaches
  exact ⟨c, hreach, hsent, reachable_publishedOnce hreach⟩

end WageringProcessor
