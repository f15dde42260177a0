import WageringProcessor.Invariants.Decisions
import WageringProcessor.UseCases.PublishOutbox

/-!
# What a publishing run knows at each stage
-/

namespace WageringProcessor

open Library.Interleaving (Pid)
open Library.Table

namespace PublishOutbox

variable {P : Platform} {i : Pid} {s s' : Shared} {own own' : Resource → Prop} {d d' : Database}
  {run : PublishRun} {todo rest : List OutboxMessage} {m m' : OutboxMessage} {batchSize : Nat}
  {inp : Input} {stage stage' : PublishStage}

/-! ## The assertions -/

def published (m : OutboxMessage) (now : Date) : OutboxMessage := { m with publishedAt := some now }

def retried (m : OutboxMessage) (now : Date) : OutboxMessage :=
  { m with
    attempts := m.attempts + 1
    nextAttemptAt := some (now + OutboxMessage.computeBackoffMs (m.attempts + 1)) }

/-- What the run saves of `m`: published, or scheduled for a later attempt. -/
def Saved (now : Date) (m m' : OutboxMessage) : Prop := m' = published m now ∨ m' = retried m now

/-- The run holds its batch, whose rows are as they were read; `todo` is left. -/
structure RunOk (own : Resource → Prop) (d : Database) (run : PublishRun)
    (todo : List OutboxMessage) : Prop where
  nodup : (run.batch.map OutboxMessage.id).Nodup
  owns : ∀ m ∈ run.batch, own (.outbox m.id)
  rows : ∀ m ∈ run.batch, m ∈ d.outboxMessages
  pending : ∀ m ∈ run.batch, m.publishedAt = none
  saved : ∃ done, run.batch = done ++ todo ∧ List.Forall₂ (Saved run.now) done run.saved

/-- What the run saves as published, it has sent. -/
def AllSent (i : Pid) (sent : List Sent) (saved : List OutboxMessage) : Prop :=
  ∀ m ∈ saved, m.publishedAt.isSome = true → sentBy i m ∈ sent

def Ok (i : Pid) (own : Resource → Prop) (s : Shared) : PublishStage → Prop
  | .publishing run todo => RunOk own s.db run todo ∧ AllSent i s.sent run.saved
  | _ => True

/-! ## They survive the steps of others -/

theorem RunOk.stable (hown : ∀ k, own k → own' k) (f : Frame own d d')
    (h : RunOk own d run todo) : RunOk own' d' run todo :=
  ⟨h.nodup, fun m hm => hown _ (h.owns m hm),
    fun m hm => f.ownMessage m (h.rows m hm) (h.owns m hm), h.pending, h.saved⟩

theorem Ok.stable (hown : ∀ k, own k → own' k) (f : Frame own s.db s'.db)
    (hsent : ∀ x ∈ s.sent, x ∈ s'.sent) (h : Ok i own s stage) : Ok i own' s' stage := by
  cases stage with
  | begin | returned | threw => trivial
  | publishing => exact ⟨h.1.stable hown f, fun m hm hp => hsent _ (h.2 m hm hp)⟩

/-! ## What is saved -/

theorem Saved.sameEnvelope {now : Date} (h : Saved now m m') : m.SameEnvelope m' := by
  rcases h with rfl | rfl <;> exact ⟨rfl, rfl, rfl, rfl, rfl⟩

theorem Saved.id {now : Date} (h : Saved now m m') : m'.id = m.id := h.sameEnvelope.1

theorem publishOne_eq (hp : m.publishedAt = none) (now : Date) (delivered : Bool) :
    publishOne m now delivered = .ok (if delivered then published m now else retried m now) := by
  unfold publishOne
  rw [OutboxMessage.markPublished_eq hp, OutboxMessage.scheduleRetry_eq hp]
  cases delivered <;> rfl

theorem saved_mem {now : Date} {done saved : List OutboxMessage}
    (h : List.Forall₂ (Saved now) done saved) (hm' : m' ∈ saved) : ∃ m ∈ done, Saved now m m' := by
  induction h with
  | nil => simp at hm'
  | cons head _ ih =>
    rcases List.mem_cons.mp hm' with rfl | hm'
    · exact ⟨_, List.mem_cons_self, head⟩
    · obtain ⟨m, hm, hsaved⟩ := ih hm'
      exact ⟨m, List.mem_cons_of_mem _ hm, hsaved⟩

theorem mem_saved {now : Date} {done saved : List OutboxMessage}
    (h : List.Forall₂ (Saved now) done saved) (hm : m ∈ done) : ∃ m' ∈ saved, Saved now m m' := by
  induction h with
  | nil => simp at hm
  | cons head _ ih =>
    rcases List.mem_cons.mp hm with rfl | hm
    · exact ⟨_, List.mem_cons_self, head⟩
    · obtain ⟨m', hm', hsaved⟩ := ih hm
      exact ⟨m', List.mem_cons_of_mem _ hm', hsaved⟩

theorem saved_ids {now : Date} {done saved : List OutboxMessage}
    (h : List.Forall₂ (Saved now) done saved) :
    saved.map OutboxMessage.id = done.map OutboxMessage.id := by
  induction h with
  | nil => rfl
  | cons head _ ih => rw [List.map_cons, List.map_cons, ih, head.id]

theorem RunOk.permitted (h : RunOk own d run todo) :
    Permitted P own d { outboxMessages := run.saved } := by
  obtain ⟨done, hbatch, hsaved⟩ := h.saved
  refine .published rfl ?_ fun m' hm' => ?_
  · have hnodup := h.nodup
    rw [hbatch, List.map_append] at hnodup
    rw [saved_ids hsaved]
    exact (List.nodup_append.mp hnodup).1
  · obtain ⟨m, hm, hms⟩ := saved_mem hsaved hm'
    have hmem : m ∈ run.batch := hbatch ▸ List.mem_append_left _ hm
    exact ⟨m, h.rows m hmem, h.owns m hmem, h.pending m hmem, hms.sameEnvelope⟩

/-- The rows still to do are in the run's view as they were read. -/
theorem RunOk.view_row (h : RunOk own d run (m :: rest)) (hc : Consistent P d) :
    (d.applyAll (writes run)).findOutboxMessage m.id = some m := by
  obtain ⟨done, hbatch, hsaved⟩ := h.saved
  have hnodup := h.nodup
  rw [hbatch, List.map_append, List.map_cons] at hnodup
  obtain ⟨hdone, -, hdisjoint⟩ := List.nodup_append.mp hnodup
  have hmem : m ∈ (d.applyAll (writes run)).outboxMessages := by
    refine (mem_upsertAll (by rwa [saved_ids hsaved])).mpr (Or.inr ⟨?_, fun n hn hid => ?_⟩)
    · exact h.rows m (hbatch ▸ List.mem_append_right _ List.mem_cons_self)
    · have hn' : n.id ∈ done.map OutboxMessage.id :=
        saved_ids hsaved ▸ List.mem_map_of_mem hn
      exact hdisjoint _ hn' _ List.mem_cons_self hid.symm
  exact lookup_of_mem (nodup_upsertAll hc.outboxIds) hmem

/-- No constraint refuses what a run saves. -/
theorem RunOk.flush (h : RunOk own d run (m :: rest)) (hc : Consistent P d)
    (hs : Saved run.now m m') :
    (d.applyAll (writes run)).flush { outboxMessages := [m'] } = .ok () := by
  obtain ⟨done, hbatch, -⟩ := h.saved
  have hrow := h.view_row hc
  have hpending := h.pending m (hbatch ▸ List.mem_append_right _ List.mem_cons_self)
  obtain ⟨hid, haggregate, htype, hpayload, hoccurred⟩ := hs.sameEnvelope
  simp [Database.flush, Database.violatesCheck, Database.violatesTrigger, hid, hrow, hpending,
    haggregate, htype, hpayload, hoccurred]

/-- What a run has saved comes from a message of its batch, which is not among those to do. -/
theorem RunOk.of_saved (h : RunOk own d run todo) (hm' : m' ∈ run.saved) :
    ∃ m ∈ run.batch, Saved run.now m m' ∧ ∀ n ∈ todo, n.id ≠ m'.id := by
  obtain ⟨done, hbatch, hsaved⟩ := h.saved
  obtain ⟨m, hm, hms⟩ := saved_mem hsaved hm'
  have hnodup := h.nodup
  rw [hbatch, List.map_append] at hnodup
  refine ⟨m, hbatch ▸ List.mem_append_left _ hm, hms, fun n hn hid => ?_⟩
  have hdisjoint := (List.nodup_append.mp hnodup).2.2
  exact hdisjoint _ (List.mem_map_of_mem hm) _ (List.mem_map_of_mem hn) (hms.id ▸ hid.symm)

/-- Once the run is committed its rows are as it saved them. -/
theorem RunOk.saved_row (h : RunOk own d run todo) (hm' : m' ∈ run.saved) :
    m' ∈ (d.applyAll (writes run)).outboxMessages := by
  obtain ⟨done, hbatch, hsaved⟩ := h.saved
  have hnodup := h.nodup
  rw [hbatch, List.map_append, ← saved_ids hsaved] at hnodup
  exact (mem_upsertAll (List.nodup_append.mp hnodup).1).mpr (Or.inl hm')

theorem RunOk.save (h : RunOk own d run (m :: rest)) (hs : Saved run.now m m') :
    RunOk own d { run with saved := run.saved ++ [m'] } rest := by
  obtain ⟨done, hbatch, hsaved⟩ := h.saved
  refine ⟨h.nodup, h.owns, h.rows, h.pending, done ++ [m], by simpa using hbatch, ?_⟩
  exact List.rel_append hsaved (.cons hs .nil)

/-! ## The batch -/

/-- What `isBatch` says of the rows that the query returns. -/
structure Batch (s : Shared) (now : Date) (ids : List Id) (rows : List OutboxMessage) : Prop where
  map_id : rows.map OutboxMessage.id = ids
  nodup : ids.Nodup
  mem : ∀ m ∈ rows, m ∈ s.db.outboxMessages
  due : ∀ m ∈ rows, available s now m = true
  sorted : rows.Pairwise fun m m' => m.occurredAt ≤ m'.occurredAt
  least : ∀ m ∈ s.db.outboxMessages, available s now m = true →
    m.id ∈ ids ∨ ∀ m' ∈ rows, m'.occurredAt ≤ m.occurredAt

theorem isBatch_rows {now : Date} {limit : Nat} {ids : List Id}
    (h : isBatch s now limit ids = true) :
    Batch s now ids (ids.filterMap s.db.findOutboxMessage) := by
  simp only [isBatch, Bool.and_eq_true, decide_eq_true_eq, List.all_eq_true] at h
  obtain ⟨⟨⟨⟨hnodup, havailable⟩, -⟩, hsorted⟩, hleast⟩ := h
  have hfound : ∀ id ∈ ids, (lookup OutboxMessage.id id s.db.outboxMessages).isSome := by
    intro id hid
    cases hfind : s.db.findOutboxMessage id with
    | none => simpa [hfind] using havailable id hid
    | some m => exact Option.isSome_iff_exists.mpr ⟨m, hfind⟩
  refine ⟨map_filterMap_lookup hfound, hnodup, fun m hm => (mem_filterMap_lookup hm).1,
    fun m hm => ?_, hsorted, fun m hm hmavailable => ?_⟩
  · obtain ⟨id, hid, hrow⟩ := List.mem_filterMap.mp hm
    have hany := havailable id hid
    rwa [hrow] at hany
  · have hor := hleast m hm
    rw [hmavailable, Bool.not_true, Bool.false_or, Bool.or_eq_true] at hor
    rcases hor with hid | hall
    · exact Or.inl (by simpa using hid)
    · exact Or.inr fun m' hm' => by simpa using List.all_eq_true.mp hall m' hm'

theorem available_pending {now : Date} (h : available s now m = true) : m.publishedAt = none := by
  simp only [available, Bool.and_eq_true, decide_eq_true_eq] at h
  exact (OutboxMessage.isDue_iff.mp h.1).1

/-! ## A step of a run -/

theorem step_begin_eq (hstep : step i batchSize inp s .begin = some (s', stage')) :
    ∃ rows, Batch s inp.now inp.batch rows ∧ s.take i (inp.batch.map .outbox) = some s' ∧
      stage' = .publishing ⟨inp.now, rows, []⟩ rows := by
  dsimp only [step] at hstep
  split at hstep
  · rename_i hbatch
    obtain ⟨s₁, htake, hrest⟩ := Option.bind_eq_some_iff.mp hstep
    obtain ⟨rfl, rfl⟩ := Prod.mk.inj (Option.some.inj hrest)
    exact ⟨_, isBatch_rows hbatch, htake, rfl⟩
  · simp at hstep

theorem step_begin (hstep : step i batchSize inp s .begin = some (s', stage')) :
    Advances P i s s' ∧ Ok i (owns s' i) s' stage' := by
  obtain ⟨rows, hbatch, htake, rfl⟩ := step_begin_eq hstep
  have hacq := take_acquires htake
  refine ⟨hacq.advances, ⟨?_, fun m hm => ?_, fun m hm => ?_, fun m hm => ?_, [], rfl, .nil⟩,
    fun _ hm => absurd hm List.not_mem_nil⟩
  · rw [hbatch.map_id]
    exact hbatch.nodup
  · have hid : m.id ∈ inp.batch := hbatch.map_id ▸ List.mem_map_of_mem hm
    exact hacq.holds _ (List.mem_map_of_mem hid)
  · rw [hacq.db]
    exact hbatch.mem m hm
  · exact available_pending (hbatch.due m hm)

/-- A send, whatever comes of it, is followed by the next message. -/
theorem step_publishing (hc : Consistent P s.db) (h : RunOk (owns s i) s.db run (m :: rest)) :
    step i batchSize inp s (.publishing run (m :: rest)) = some (send i s m inp.delivered,
      .publishing { run with saved := run.saved ++
        [if inp.delivered then published m run.now else retried m run.now] } rest) := by
  obtain ⟨done, hbatch, -⟩ := h.saved
  have hpending := h.pending m (hbatch ▸ List.mem_append_right _ List.mem_cons_self)
  have hsaved : Saved run.now m
      (if inp.delivered then published m run.now else retried m run.now) := by
    split
    · exact Or.inl rfl
    · exact Or.inr rfl
  have hdb : (send i s m inp.delivered).db = s.db := by
    unfold send
    split <;> rfl
  have hflush := h.flush hc hsaved
  dsimp only [step]
  rw [publishOne_eq hpending]
  dsimp only
  rw [hdb, hflush]

theorem send_locks (delivered : Bool) : (send i s m delivered).locks = s.locks := by
  unfold send
  split <;> rfl

theorem send_db (delivered : Bool) : (send i s m delivered).db = s.db := by
  unfold send
  split <;> rfl

theorem send_deleted (delivered : Bool) : (send i s m delivered).deleted = s.deleted := by
  unfold send
  split <;> rfl

theorem mem_send {delivered : Bool} {x : Sent} : x ∈ (send i s m delivered).sent ↔
    x ∈ s.sent ∨ (delivered = true ∧ x = sentBy i m) := by
  unfold send
  split
  · rename_i h
    simp [h, sentBy]
  · rename_i h
    simp [h]

theorem step_publishing_ok (hc : Consistent P s.db)
    (h : Ok i (owns s i) s (.publishing run (m :: rest)))
    (hstep : step i batchSize inp s (.publishing run (m :: rest)) = some (s', stage')) :
    s' = send i s m inp.delivered ∧ Ok i (owns s' i) s' stage' := by
  obtain ⟨hrun, hsent⟩ := h
  rw [step_publishing hc hrun] at hstep
  obtain ⟨rfl, rfl⟩ := Prod.mk.inj (Option.some.inj hstep)
  refine ⟨rfl, ?_, ?_⟩
  · have howns : owns (send i s m inp.delivered) i = owns s i := by
      unfold owns
      rw [send_locks]
    rw [howns, send_db]
    refine hrun.save ?_
    split
    · exact Or.inl rfl
    · exact Or.inr rfl
  · intro m' hm' hp
    rcases List.mem_append.mp hm' with hm' | hm'
    · exact mem_send.mpr (Or.inl (hsent m' hm' hp))
    · obtain rfl := List.mem_singleton.mp hm'
      obtain ⟨done, hbatch, -⟩ := hrun.saved
      have hpending := hrun.pending m (hbatch ▸ List.mem_append_right _ List.mem_cons_self)
      cases hdelivered : inp.delivered with
      | true => exact mem_send.mpr (Or.inr ⟨rfl, rfl⟩)
      | false => simp [hdelivered, retried, hpending] at hp

end PublishOutbox

end WageringProcessor
