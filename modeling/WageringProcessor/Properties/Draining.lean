import WageringProcessor.Invariants.Alone
import WageringProcessor.Invariants.Locking
import WageringProcessor.Library.Draining
import WageringProcessor.Runs

/-!
# Draining the outbox

Publishing runs that follow one another while nothing else runs and the queue accepts what is sent.
Each takes the oldest messages that wait, so together they send all of them in the order in which
they occurred, and the outbox is empty after as many runs as it has batches.
-/

namespace WageringProcessor

open Library.Interleaving Library.Table Library.Locks Library.Draining

variable {P : Platform} {i : Pid} {n k : Nat} {since : Date} {s₀ s s' s'' : Shared}
  {c c' c₀ : Config Shared Proc} {m m' : OutboxMessage} {msgs msgs' : List OutboxMessage}
  {run : PublishRun} {todo : List OutboxMessage} {stage stage' : PublishStage} {inp : Input}
  {now : Date} {limit : Nat} {ids : List Id}

/-! ## What a run does -/

def Database.pendingMessages (d : Database) : List OutboxMessage :=
  d.outboxMessages.filter OutboxMessage.isPending

abbrev Older (m m' : OutboxMessage) : Prop := m.occurredAt ≤ m'.occurredAt

/-- No run holds a message. -/
def Shared.OutboxFree (s : Shared) : Prop := ∀ id, s.locks (.outbox id) = none

/-- Whatever waits may be tried by then. -/
def Database.DueBy (d : Database) (since : Date) : Prop :=
  ∀ m ∈ d.pendingMessages, m.isDue since = true

/-- `msgs` were published in this order: of those that waited, the `n` oldest. -/
structure Publishes (n : Nat) (since : Date) (s s' : Shared) (msgs : List OutboxMessage) :
    Prop where
  takes : Takes Older n s.db.pendingMessages msgs s'.db.pendingMessages
  sent : ∃ xs, s'.sent = s.sent ++ xs ∧ List.Forall₂ (fun m x => ∃ i, x = sentBy i m) msgs xs
  published : ∀ m ∈ msgs, ∃ now, since ≤ now ∧
    PublishOutbox.published m now ∈ s'.db.outboxMessages
  kept : ∀ m ∈ s.db.outboxMessages, m.isPending = false → m ∈ s'.db.outboxMessages
  /-- No other table is changed. -/
  tables : ∃ rows, s'.db = { s.db with outboxMessages := rows }
  free : s'.OutboxFree

theorem Publishes.dueBy (h : Publishes n since s s' msgs) (hdue : s.db.DueBy since) :
    s'.db.DueBy since := fun m hm => hdue m (h.takes.rest_mem hm)

theorem publishes_none (hfree : s.OutboxFree) : Publishes 0 since s s [] :=
  ⟨takes_none _, ⟨[], (List.append_nil _).symm, .nil⟩, by simp, fun _ hm _ => hm,
    ⟨s.db.outboxMessages, rfl⟩, hfree⟩

theorem Publishes.append (h : Publishes n since s s' msgs) (h' : Publishes k since s' s'' msgs') :
    Publishes (n + k) since s s'' (msgs ++ msgs') := by
  refine ⟨h.takes.append h'.takes, ?_, ?_, ?_, ?_, h'.free⟩
  · obtain ⟨xs, hxs, hsent⟩ := h.sent
    obtain ⟨ys, hys, hsent'⟩ := h'.sent
    exact ⟨xs ++ ys, by rw [hys, hxs, List.append_assoc], List.rel_append hsent hsent'⟩
  · intro m hm
    rcases List.mem_append.mp hm with hm | hm
    · obtain ⟨now, hnow, hrow⟩ := h.published m hm
      exact ⟨now, hnow, h'.kept _ hrow rfl⟩
    · exact h'.published m hm
  · exact fun m hm hp => h'.kept m (h.kept m hm hp) hp
  · obtain ⟨rows, hrows⟩ := h.tables
    obtain ⟨rows', hrows'⟩ := h'.tables
    exact ⟨rows', by rw [hrows', hrows]⟩

namespace PublishOutbox

/-! ## The batch -/

/-- The rows that the query may return. -/
def candidates (s : Shared) (now : Date) : List OutboxMessage :=
  s.db.outboxMessages.filter (available s now)

theorem candidates_eq (hfree : s.OutboxFree) (hdue : s.db.DueBy since) (hnow : since ≤ now) :
    candidates s now = s.db.pendingMessages := by
  apply List.filter_congr
  intro m hm
  rw [available, hfree, decide_eq_true rfl, Bool.and_true, Bool.eq_iff_iff]
  constructor
  · intro hdue
    exact (Bool.and_eq_true_iff.mp hdue).1
  · intro hpending
    have hsince := OutboxMessage.isDue_iff.mp (hdue m (List.mem_filter.mpr ⟨hm, hpending⟩))
    exact OutboxMessage.isDue_iff.mpr
      ⟨hsince.1, fun at_ hat => le_trans (hsince.2 at_ hat) hnow⟩

theorem nodup_of_ids {rows : List OutboxMessage} (h : (rows.map OutboxMessage.id).Nodup) :
    rows.Nodup := h.of_map _

/-- What the query returns are the oldest of the candidates. -/
theorem isBatch_takes (hids : (s.db.outboxMessages.map OutboxMessage.id).Nodup)
    (h : isBatch s now limit ids = true) :
    ∃ rest, Takes Older limit (candidates s now) (ids.filterMap s.db.findOutboxMessage) rest := by
  have hbatch := isBatch_rows h
  have hlength : ids.length = min limit (s.db.outboxMessages.countP (available s now)) := by
    simp only [isBatch, Bool.and_eq_true, decide_eq_true_eq] at h
    exact h.1.1.2
  have hnodup : (candidates s now).Nodup := (nodup_of_ids hids).filter _
  refine ⟨(candidates s now).filter (fun m => m.id ∉ ids), ?_, ?_, hbatch.sorted, ?_⟩
  · have hrows : (ids.filterMap s.db.findOutboxMessage).Nodup :=
      nodup_of_ids (hbatch.map_id.symm ▸ hbatch.nodup)
    refine (List.perm_ext_iff_of_nodup (List.nodup_append.mpr
      ⟨hrows, hnodup.filter _, fun m hm m' hm' heq => ?_⟩) hnodup).mpr fun m => ?_
    · have hid := (List.mem_filter.mp hm').2
      rw [decide_eq_true_eq] at hid
      exact hid (heq ▸ (mem_filterMap_lookup hm).2)
    · rw [List.mem_append, List.mem_filter, decide_eq_true_eq]
      constructor
      · rintro (hm | ⟨hm, -⟩)
        · exact List.mem_filter.mpr ⟨hbatch.mem m hm, hbatch.due m hm⟩
        · exact hm
      · intro hm
        by_cases hid : m.id ∈ ids
        · left
          refine List.mem_filterMap.mpr ⟨m.id, hid, ?_⟩
          exact lookup_of_mem hids (List.mem_filter.mp hm).1
        · exact Or.inr ⟨hm, hid⟩
  · rw [← List.length_map, hbatch.map_id, hlength, List.countP_eq_length_filter]
    rfl
  · intro m hm m' hm'
    obtain ⟨hcandidate, hid⟩ := List.mem_filter.mp hm'
    obtain ⟨hrow, havailable⟩ := List.mem_filter.mp hcandidate
    rcases hbatch.least m' hrow havailable with hin | hall
    · rw [decide_eq_true_eq] at hid
      exact absurd hin hid
    · exact hall m hm

/-- There is always a batch for the query to return. -/
theorem exists_isBatch (hids : (s.db.outboxMessages.map OutboxMessage.id).Nodup) (now : Date)
    (limit : Nat) : ∃ ids, isBatch s now limit ids = true := by
  obtain ⟨taken, rest, htakes⟩ := exists_takes OutboxMessage.occurredAt limit (candidates s now)
  have hrow : ∀ m ∈ taken, m ∈ s.db.outboxMessages ∧ available s now m = true :=
    fun m hm => List.mem_filter.mp (htakes.taken_mem hm)
  have hfound : ∀ m ∈ taken, s.db.findOutboxMessage m.id = some m :=
    fun m hm => lookup_of_mem hids (hrow m hm).1
  have hrows : (taken.map OutboxMessage.id).filterMap s.db.findOutboxMessage = taken := by
    rw [List.filterMap_map]
    calc taken.filterMap (s.db.findOutboxMessage ∘ OutboxMessage.id)
      _ = taken.filterMap some := List.filterMap_congr hfound
      _ = taken := List.filterMap_some
  have hnodup : (taken.map OutboxMessage.id).Nodup := by
    have hall : (taken ++ rest).Nodup := htakes.perm.nodup_iff.mpr ((nodup_of_ids hids).filter _)
    refine (List.nodup_append.mp hall).1.map_on fun a ha b hb heq => ?_
    exact List.inj_on_of_nodup_map hids (hrow a ha).1 (hrow b hb).1 heq
  refine ⟨taken.map OutboxMessage.id, ?_⟩
  simp only [isBatch, hrows, Bool.and_eq_true, decide_eq_true_eq, List.all_eq_true]
  refine ⟨⟨⟨⟨hnodup, fun id hid => ?_⟩, ?_⟩, htakes.sorted⟩, fun m hm => ?_⟩
  · obtain ⟨m, hm, rfl⟩ := List.mem_map.mp hid
    rw [hfound m hm]
    exact (hrow m hm).2
  · rw [List.length_map, htakes.length, List.countP_eq_length_filter]
    rfl
  · cases havailable : available s now m with
    | false => rfl
    | true =>
      rw [Bool.not_true, Bool.false_or, Bool.or_eq_true]
      have hfilter := htakes.perm.symm.subset (List.mem_filter.mpr ⟨hm, havailable⟩)
      rcases List.mem_append.mp hfilter with
        hin | hin
      · left
        simpa using ⟨m, hin, rfl⟩
      · right
        simpa using fun m' hm' => htakes.least m' hm' m hin

theorem step_begin_batch (hbatch : isBatch s inp.now n inp.batch = true)
    (htake : s.take i (inp.batch.map .outbox) = some s') :
    step i n inp s .begin = some (s', .publishing
      ⟨inp.now, inp.batch.filterMap s.db.findOutboxMessage, []⟩
      (inp.batch.filterMap s.db.findOutboxMessage)) := by
  dsimp only [step]
  rw [if_pos hbatch]
  show (s.take i (inp.batch.map .outbox)).bind _ = _
  rw [htake]
  rfl

/-! ## A run -/

/-- How far a run that began in `s₀` has come. -/
def Knows (n : Nat) (since : Date) (i : Pid) (s₀ s : Shared) : PublishStage → Prop
  | .begin => s = s₀
  | .publishing run todo => since ≤ run.now ∧ s.db = s₀.db ∧
      (∀ id, s.locks (.outbox id) = none ∨ owns s i (.outbox id)) ∧
        (∃ rest, Takes Older n s₀.db.pendingMessages run.batch rest) ∧
          ∃ done, run.batch = done ++ todo ∧ run.saved = done.map (published · run.now) ∧
            s.sent = s₀.sent ++ done.map (sentBy i)
  | .returned _ => ∃ msgs, Publishes n since s₀ s msgs
  | .threw _ => False

theorem step_begin_knows (hc : Consistent P s₀.db) (hfree : s₀.OutboxFree)
    (hdue : s₀.db.DueBy since) (hnow : since ≤ inp.now)
    (hstep : step i n inp s₀ .begin = some (s', stage')) : Knows n since i s₀ s' stage' := by
  dsimp only [step] at hstep
  split at hstep
  · rename_i hbatch
    obtain ⟨s₁, htake, hrest⟩ := Option.bind_eq_some_iff.mp hstep
    obtain ⟨rfl, rfl⟩ := Prod.mk.inj (Option.some.inj hrest)
    have hacq := take_acquires htake
    refine ⟨hnow, hacq.db, fun id => ?_, ?_, [], rfl, rfl, ?_⟩
    · obtain ⟨locks, hlocks, rfl⟩ := Option.map_eq_some_iff.mp htake
      obtain ⟨-, rfl⟩ := acquire_eq_some.mp hlocks
      unfold owns
      dsimp only
      split
      · exact Or.inr rfl
      · exact Or.inl (hfree id)
    · rw [← candidates_eq hfree hdue hnow]
      exact isBatch_takes hc.outboxIds hbatch
    · rw [hacq.sent]
      exact (List.append_nil _).symm
  · cases hstep

theorem step_publishing_knows {rest : List OutboxMessage} (hc : Consistent P s.db)
    (hok : RunOk (owns s i) s.db run (m :: rest)) (hdelivered : inp.delivered = true)
    (hknows : Knows n since i s₀ s (.publishing run (m :: rest)))
    (hstep : step i n inp s (.publishing run (m :: rest)) = some (s', stage')) :
    Knows n since i s₀ s' stage' := by
  obtain ⟨hnow, hdb, hlocks, htakes, done, hbatch, hsaved, hsent⟩ := hknows
  rw [step_publishing hc hok, hdelivered] at hstep
  obtain ⟨rfl, rfl⟩ := Prod.mk.inj (Option.some.inj hstep)
  refine ⟨hnow, hdb, hlocks, htakes, done ++ [m], ?_, ?_, ?_⟩
  · rw [List.append_assoc]
    exact hbatch
  · rw [List.map_append, ← hsaved]
    rfl
  · show s.sent ++ [sentBy i m] = _
    rw [hsent, List.map_append, List.append_assoc]
    rfl

section

variable {rows : List OutboxMessage} {d : Database}
  (hids : (d.outboxMessages.map OutboxMessage.id).Nodup)
  (htakes : Takes Older n d.pendingMessages rows todo)
include hids htakes

omit hids in
theorem taken_row (hm : m ∈ rows) : m ∈ d.outboxMessages ∧ m.isPending = true :=
  List.mem_filter.mp (htakes.taken_mem hm)

theorem published_ids (now : Date) :
    ((rows.map (published · now)).map OutboxMessage.id).Nodup := by
  have hall : (rows ++ todo).Nodup := htakes.perm.nodup_iff.mpr ((nodup_of_ids hids).filter _)
  rw [List.map_map]
  exact (List.nodup_append.mp hall).1.map_on fun a ha b hb heq =>
    List.inj_on_of_nodup_map hids (taken_row htakes ha).1 (taken_row htakes hb).1 heq

/-- The rows once the batch is saved as published. -/
theorem mem_saved_published (now : Date) :
    m ∈ (d.apply { outboxMessages := rows.map (published · now) }).outboxMessages ↔
      (∃ m' ∈ rows, published m' now = m) ∨ m ∈ d.outboxMessages ∧ m ∉ rows := by
  show m ∈ upsertAll OutboxMessage.id d.outboxMessages _ ↔ _
  rw [mem_upsertAll (published_ids hids htakes now), List.mem_map]
  refine or_congr_right (and_congr_right fun hm =>
    ⟨fun hother hin => ?_, fun hnotin r hr hid => ?_⟩)
  · exact hother (published m now) (List.mem_map_of_mem hin) rfl
  · obtain ⟨m', hm', rfl⟩ := List.mem_map.mp hr
    obtain rfl := List.inj_on_of_nodup_map hids hm (taken_row htakes hm').1 hid
    exact hnotin hm'

/-- What is left to wait then. -/
theorem takes_saved (now : Date) : Takes Older n d.pendingMessages rows
    (d.apply { outboxMessages := rows.map (published · now) }).pendingMessages := by
  have hall : (rows ++ todo).Nodup := htakes.perm.nodup_iff.mpr ((nodup_of_ids hids).filter _)
  have hmem : ∀ m, m ∈ (d.apply { outboxMessages := rows.map (published · now) }).pendingMessages ↔
      m ∈ todo := by
    intro m
    rw [Database.pendingMessages, List.mem_filter, mem_saved_published hids htakes]
    constructor
    · rintro ⟨⟨m', -, rfl⟩ | ⟨hm, hnotin⟩, hp⟩
      · cases hp
      · have hin := htakes.perm.symm.subset (List.mem_filter.mpr ⟨hm, hp⟩)
        exact (List.mem_append.mp hin).resolve_left hnotin
    · intro hm
      obtain ⟨hold, hp⟩ := List.mem_filter.mp (htakes.rest_mem hm)
      exact ⟨Or.inr ⟨hold, fun hin => (List.nodup_append.mp hall).2.2 m hin m hm rfl⟩, hp⟩
  have hnodup : (d.apply { outboxMessages := rows.map (published · now) }).pendingMessages.Nodup :=
    (nodup_of_ids (nodup_upsertAll hids)).filter _
  have hperm := (List.perm_ext_iff_of_nodup hnodup (List.nodup_append.mp hall).2.1).mpr hmem
  exact ⟨(hperm.append_left rows).trans htakes.perm, htakes.length, htakes.sorted,
    fun a ha b hb => htakes.least a ha b ((hmem b).mp hb)⟩

end

theorem commit_publishes (hc : Consistent P s.db)
    (hknows : Knows n since i s₀ s (.publishing run [])) :
    Publishes n since s₀ (s.commit i (writes run)) run.batch := by
  obtain ⟨hnow, hdb, hlocks, ⟨rest, htakes⟩, done, hbatch, hsaved, hsent⟩ := hknows
  rw [List.append_nil] at hbatch
  obtain rfl := hbatch
  have hids : (s₀.db.outboxMessages.map OutboxMessage.id).Nodup := hdb ▸ hc.outboxIds
  have hcommitted : (s.commit i (writes run)).db =
      s₀.db.apply { outboxMessages := run.batch.map (published · run.now) } := by
    rw [← hdb, ← hsaved]
    rfl
  refine ⟨?_, ⟨run.batch.map (sentBy i), hsent, ?_⟩, fun m hm => ⟨run.now, hnow, ?_⟩,
    fun m hm hp => ?_, ?_, fun id => ?_⟩
  · rw [hcommitted]
    exact takes_saved hids htakes run.now
  · rw [List.forall₂_map_right_iff]
    exact List.forall₂_same.mpr fun m _ => ⟨i, rfl⟩
  · rw [hcommitted]
    exact (mem_saved_published hids htakes run.now).mpr (Or.inl ⟨m, hm, rfl⟩)
  · rw [hcommitted]
    refine (mem_saved_published hids htakes run.now).mpr (Or.inr ⟨hm, fun hin => ?_⟩)
    cases hp.symm.trans (taken_row htakes hin).2
  · refine ⟨upsertAll OutboxMessage.id s₀.db.outboxMessages
      (run.batch.map (published · run.now)), ?_⟩
    rw [hcommitted]
    simp [Database.apply]
  · show release s.locks i Resource.isLock (.outbox id) = none
    unfold release
    split
    · rfl
    · rename_i hheld
      rcases hlocks id with hnone | hown
      · exact hnone
      · exact absurd ⟨hown, rfl⟩ hheld

theorem step_knows (hc : Consistent P s.db) (hok : Ok i (owns s i) s stage)
    (hfree : s₀.OutboxFree) (hdue : s₀.db.DueBy since) (hdelivered : inp.delivered = true)
    (hnow : since ≤ inp.now) (hknows : Knows n since i s₀ s stage)
    (hstep : step i n inp s stage = some (s', stage')) : Knows n since i s₀ s' stage' := by
  cases stage with
  | begin =>
    obtain rfl : s = s₀ := hknows
    exact step_begin_knows hc hfree hdue hnow hstep
  | publishing run todo =>
    cases todo with
    | nil =>
      obtain ⟨rfl, rfl⟩ := Prod.mk.inj (Option.some.inj hstep)
      exact ⟨run.batch, commit_publishes hc hknows⟩
    | cons m rest => exact step_publishing_knows hc hok.1 hdelivered hknows hstep
  | returned | threw => cases hstep

end PublishOutbox

/-! ## In the system -/

/-- Steps of `i` alone, none before `since`, in which the queue accepts what is sent. -/
abbrev Delivering (i : Pid) (since : Date) (_ : Config Shared Proc) (j : Pid) (a : Action) : Prop :=
  j = i ∧ ∃ inp, a = .step inp ∧ inp.delivered = true ∧ since ≤ inp.now

/-- `i` makes a publishing run alone, which returns. -/
def PublishesAlone (P : Platform) (n : Nat) (since : Date) (i : Pid) (c c' : Config Shared Proc) :
    Prop :=
  ∃ c₀, next (step P) c i (.start (.publishOutbox n)) = some c₀ ∧
    Reach (step P) (Delivering i since) c₀ c' ∧
      ∃ count, c'.procs i = .publishOutbox n (.returned count)

theorem PublishesAlone.reachable (h : Reachable (step P) initial c)
    (hrun : PublishesAlone P n since i c c') : Reachable (step P) initial c' := by
  obtain ⟨c₀, hstart, hsteps, -⟩ := hrun
  exact Reach.trans (.step h trivial hstart) hsteps.reachable

theorem start_publish (hstart : next (step P) c i (.start (.publishOutbox n)) = some c₀) :
    c₀.shared = c.shared ∧ c₀.procs i = .publishOutbox n .begin := by
  have hstep := next_self hstart
  obtain ⟨-, hout⟩ := Option.ite_none_right_eq_some.mp hstep
  obtain ⟨hshared, hproc⟩ := Prod.mk.inj (Option.some.inj hout)
  exact ⟨hshared.symm, hproc.symm⟩

theorem delivering_knows (h : Reachable (step P) initial c) (hfree : c.shared.OutboxFree)
    (hdue : c.shared.db.DueBy since) (hproc : c.procs i = .publishOutbox n .begin)
    (hsteps : Reach (step P) (Delivering i since) c c') :
    ∃ stage, c'.procs i = .publishOutbox n stage ∧
      PublishOutbox.Knows n since i c.shared c'.shared stage := by
  refine hsteps.invariant (P := fun c' => ∃ stage, c'.procs i = .publishOutbox n stage ∧
    PublishOutbox.Knows n since i c.shared c'.shared stage) ⟨.begin, hproc, rfl⟩ ?_
  rintro c₁ j a c₂ hrun ⟨stage, hstage, hknows⟩ ⟨rfl, inp, rfl, hdelivered, hnow⟩ hmoved
  obtain ⟨hs, hprocs⟩ := reachable_ok (h.trans hrun.reachable)
  have hok : ProcOk P j c₁.shared (.publishOutbox n stage) := hstage ▸ hprocs j
  have hstep := next_self hmoved
  rw [hstage] at hstep
  obtain ⟨⟨s', stage'⟩, hinner, hout⟩ := Option.map_eq_some_iff.mp hstep
  obtain ⟨hshared', hproc'⟩ := Prod.mk.inj hout
  exact ⟨stage', hproc'.symm, hshared' ▸ PublishOutbox.step_knows hs.consistent hok hfree hdue
    hdelivered hnow hknows hinner⟩

theorem publishesAlone_publishes (h : Reachable (step P) initial c) (hfree : c.shared.OutboxFree)
    (hdue : c.shared.db.DueBy since) (hrun : PublishesAlone P n since i c c') :
    ∃ msgs, Publishes n since c.shared c'.shared msgs := by
  obtain ⟨c₀, hstart, hsteps, count, hreturned⟩ := hrun
  obtain ⟨hshared, hproc⟩ := start_publish hstart
  rw [← hshared] at hfree hdue ⊢
  obtain ⟨stage, hstage, hknows⟩ :=
    delivering_knows (.step h trivial hstart) hfree hdue hproc hsteps
  rw [hreturned] at hstage
  obtain rfl := (Proc.publishOutbox.inj hstage).2
  exact hknows

/-! ### A run can always be made -/

/-- Some process has made no call yet. -/
theorem exists_idle (h : Reachable (step P) initial c) : ∃ i, c.procs i = .idle := by
  have hrest : ∃ bound : Nat, ∀ j, bound ≤ j → c.procs j = .idle := by
    refine h.invariant (P := fun c => ∃ bound : Nat, ∀ j, bound ≤ j → c.procs j = .idle)
      ⟨0, fun _ _ => rfl⟩ ?_
    rintro c₁ i a c₂ - ⟨bound, hidle⟩ - hmoved
    refine ⟨max bound (i + 1), fun j hj => ?_⟩
    have hbound : bound ≤ j := by omega
    have hne : j ≠ i := Nat.ne_of_gt (by omega)
    rw [next_other hmoved hne]
    exact hidle j hbound
  obtain ⟨bound, hidle⟩ := hrest
  exact ⟨bound, hidle bound (Nat.le_refl bound)⟩

/-- What a delivering step of a run is given. -/
def deliveringInput (now : Date) (batch : List Id) : Input := ⟨now, fun _ => "", batch, true⟩

theorem next_publishing {stage : PublishStage} (hproc : c.procs i = .publishOutbox n stage)
    (hstep : PublishOutbox.step i n inp c.shared stage = some (s', stage')) :
    ∃ c', next (step P) c i (.step inp) = some c' ∧ c'.procs i = .publishOutbox n stage' := by
  refine ⟨⟨s', Function.update c.procs i (.publishOutbox n stage')⟩, next_eq_some.mpr
    ⟨s', .publishOutbox n stage', ?_, rfl⟩, Function.update_self i _ c.procs⟩
  show procStep P i inp c.shared (c.procs i) = _
  rw [hproc]
  simp only [procStep, hstep, Option.map_some]

/-- Once it has its batch, the run can be led to its end. -/
theorem publishing_returns (h : Reachable (step P) initial c)
    (hproc : c.procs i = .publishOutbox n (.publishing run todo)) : ∃ c',
      Reach (step P) (Delivering i since) c c' ∧
        ∃ count, c'.procs i = .publishOutbox n (.returned count) := by
  have hguard : Delivering i since c i (.step (deliveringInput since [])) :=
    ⟨rfl, _, rfl, rfl, le_refl since⟩
  induction todo generalizing c run with
  | nil =>
    have hstep : PublishOutbox.step i n (deliveringInput since []) c.shared (.publishing run []) =
        some (c.shared.commit i (PublishOutbox.writes run), .returned run.batch.length) := rfl
    obtain ⟨c', hmoved, hproc'⟩ := next_publishing (P := P) hproc hstep
    exact ⟨c', .step .init hguard hmoved, _, hproc'⟩
  | cons m rest ih =>
    obtain ⟨hs, hprocs⟩ := reachable_ok h
    have hok : ProcOk P i c.shared (.publishOutbox n (.publishing run (m :: rest))) :=
      hproc ▸ hprocs i
    obtain ⟨run', hstep⟩ : ∃ run', PublishOutbox.step i n (deliveringInput since []) c.shared
        (.publishing run (m :: rest)) =
          some (PublishOutbox.send i c.shared m true, .publishing run' rest) :=
      ⟨_, PublishOutbox.step_publishing hs.consistent hok.1⟩
    obtain ⟨c₁, hmoved, hproc₁⟩ := next_publishing (P := P) hproc hstep
    obtain ⟨c', hsteps, hreturned⟩ := ih (.step h trivial hmoved) hproc₁
      ⟨rfl, _, rfl, rfl, le_refl since⟩
    exact ⟨c', Reach.trans (.step .init hguard hmoved) hsteps, hreturned⟩

theorem exists_publishesAlone (h : Reachable (step P) initial c) (hfree : c.shared.OutboxFree)
    (n : Nat) (since : Date) : ∃ i c', PublishesAlone P n since i c c' := by
  obtain ⟨i, hidle⟩ := exists_idle h
  obtain ⟨ids, hbatch⟩ := PublishOutbox.exists_isBatch (s := c.shared)
    (reachable_consistent h).outboxIds since n
  let c₀ : Config Shared Proc :=
    ⟨c.shared, Function.update c.procs i (.publishOutbox n .begin)⟩
  have hstart : next (step P) c i (.start (.publishOutbox n)) = some c₀ :=
    next_eq_some.mpr ⟨_, _, if_pos hidle, rfl⟩
  -- nobody holds a row, so the batch is locked at once
  obtain ⟨s₁, htake⟩ : ∃ s₁, c.shared.take i (ids.map .outbox) = some s₁ := by
    refine ⟨_, Option.map_eq_some_iff.mpr ⟨_, acquire_eq_some.mpr ⟨fun k hk => ?_, rfl⟩, rfl⟩⟩
    obtain ⟨id, -, rfl⟩ := List.mem_map.mp hk
    exact Or.inl (hfree id)
  have hbegin : PublishOutbox.step i n (deliveringInput since ids) c.shared .begin =
      some (s₁, .publishing ⟨since, ids.filterMap c.shared.db.findOutboxMessage, []⟩
        (ids.filterMap c.shared.db.findOutboxMessage)) :=
    PublishOutbox.step_begin_batch hbatch htake
  obtain ⟨c₁, hmoved, hproc₁⟩ := next_publishing (P := P) (start_publish hstart).2 hbegin
  have hreach₁ : Reachable (step P) initial c₁ := .step (.step h trivial hstart) trivial hmoved
  obtain ⟨c', hsteps, hreturned⟩ : ∃ c', Reach (step P) (Delivering i since) c₁ c' ∧
      ∃ count, c'.procs i = .publishOutbox n (.returned count) :=
    publishing_returns hreach₁ hproc₁
  have hfirst : Reach (step P) (Delivering i since) c₀ c₁ :=
    .step .init ⟨rfl, _, rfl, rfl, le_refl since⟩ hmoved
  exact ⟨i, c', c₀, hstart, hfirst.trans hsteps, hreturned⟩

/-! ## Runs in turn -/

/-- `k` publishing runs, each alone. -/
inductive PublishesInTurn (P : Platform) (n : Nat) (since : Date) :
    Nat → Config Shared Proc → Config Shared Proc → Prop
  | none (c : Config Shared Proc) : PublishesInTurn P n since 0 c c
  | next {i : Pid} {k : Nat} {c c₁ c' : Config Shared Proc}
      (first : PublishesAlone P n since i c c₁)
      (rest : PublishesInTurn P n since k c₁ c') : PublishesInTurn P n since (k + 1) c c'

theorem PublishesInTurn.reachable (hruns : PublishesInTurn P n since k c c')
    (h : Reachable (step P) initial c) : Reachable (step P) initial c' := by
  induction hruns with
  | none => exact h
  | next first _ ih => exact ih (first.reachable h)

theorem exists_publishesInTurn (h : Reachable (step P) initial c) (hfree : c.shared.OutboxFree)
    (hdue : c.shared.db.DueBy since) (k : Nat) : ∃ c', PublishesInTurn P n since k c c' := by
  induction k generalizing c with
  | zero => exact ⟨c, .none c⟩
  | succ k ih =>
    obtain ⟨i, c₁, hfirst⟩ := exists_publishesAlone h hfree n since
    obtain ⟨msgs, hpublishes⟩ := publishesAlone_publishes h hfree hdue hfirst
    obtain ⟨c', hrest⟩ := ih (hfirst.reachable h) hpublishes.free (hpublishes.dueBy hdue)
    exact ⟨c', .next hfirst hrest⟩

theorem publishesInTurn_publishes (h : Reachable (step P) initial c) (hfree : c.shared.OutboxFree)
    (hdue : c.shared.db.DueBy since) (hruns : PublishesInTurn P n since k c c') :
    ∃ msgs, Publishes (k * n) since c.shared c'.shared msgs := by
  induction hruns with
  | none c =>
    rw [Nat.zero_mul]
    exact ⟨[], publishes_none hfree⟩
  | @next i k c c₁ c' first rest ih =>
    obtain ⟨msgs, hpublishes⟩ := publishesAlone_publishes h hfree hdue first
    obtain ⟨msgs', hpublishes'⟩ := ih (first.reachable h) hpublishes.free (hpublishes.dueBy hdue)
    refine ⟨msgs ++ msgs', ?_⟩
    rw [Nat.succ_mul, Nat.add_comm]
    exact hpublishes.append hpublishes'

/-- What `k` runs in turn come to. -/
structure Drains (P : Platform) (n : Nat) (since : Date) (k : Nat) (c : Config Shared Proc) :
    Prop where
  possible : ∃ c', PublishesInTurn P n since k c c'
  publishes : ∀ c', PublishesInTurn P n since k c c' →
    ∃ msgs, Publishes (k * n) since c.shared c'.shared msgs ∧
      (c.shared.db.pendingMessages.length ≤ k * n →
        c'.shared.db.pendingMessages = [] ∧ msgs.Perm c.shared.db.pendingMessages)

/-- The call is between its query and its commit. -/
def Proc.publishing : Proc → Bool
  | .publishOutbox _ (.publishing _ _) => true
  | _ => false

theorem publishing_of_mayHold {p : Proc} {id : Id} (h : p.mayHold (.outbox id) = true) :
    p.publishing = true := by
  cases p with
  | idle | crashed => cases h
  | openWallet cmd stage => cases stage <;> cases h
  | submit cmd stage => cases stage <;> cases h
  | consume messageId stage =>
    cases stage with
    | submit now claimed cmd stage => cases stage <;> cases h
    | _ => cases h
  | reprocess batchSize stage => cases stage <;> cases h
  | publishOutbox batchSize stage =>
    cases stage with
    | publishing => rfl
    | _ => cases h

theorem outboxFree_of_quiet (h : Reachable (step P) initial c)
    (hquiet : ∀ j, (c.procs j).publishing = false) : c.shared.OutboxFree := by
  intro id
  by_contra hheld
  obtain ⟨j, hj⟩ := Option.ne_none_iff_exists'.mp hheld
  have hpublishing := publishing_of_mayHold (reachable_holds h j (.outbox id) rfl hj)
  rw [hquiet j] at hpublishing
  cases hpublishing

/-- As many runs as there are batches empty the outbox. -/
theorem reachable_drains (h : Reachable (step P) initial c)
    (hquiet : ∀ j, (c.procs j).publishing = false) (hdue : c.shared.db.DueBy since) (n k : Nat) :
    Drains P n since k c := by
  have hfree := outboxFree_of_quiet h hquiet
  refine ⟨exists_publishesInTurn h hfree hdue k, fun c' hruns => ?_⟩
  obtain ⟨msgs, hpublishes⟩ := publishesInTurn_publishes h hfree hdue hruns
  exact ⟨msgs, hpublishes, hpublishes.takes.drained⟩

/-- A wallet was opened and a bet placed, which left four messages; three fit in a batch. -/
theorem openAndBet_drains : ∃ c, Reachable (step localPlatform) initial c ∧
    c.shared.db.pendingMessages.length = 4 ∧ Drains localPlatform 3 1000000 2 c := by
  have hrun : (exec (step localPlatform) initial openAndBet).any (fun c =>
      !(c.procs 0).publishing && !(c.procs 1).publishing &&
        (decide (c.shared.db.pendingMessages.length = 4) &&
          decide (∀ m ∈ c.shared.db.pendingMessages, m.isDue 1000000 = true))) = true := by
    decide +kernel
  cases hexec : exec (step localPlatform) initial openAndBet with
  | none =>
    rw [hexec] at hrun
    cases hrun
  | some c =>
    rw [hexec] at hrun
    simp only [Option.any_some, Bool.and_eq_true, Bool.not_eq_true', decide_eq_true_eq] at hrun
    obtain ⟨⟨hzero, hone⟩, hlength, hdue⟩ := hrun
    have hreach := reachable_of_exec hexec
    refine ⟨c, hreach, hlength, reachable_drains hreach (fun j => ?_) hdue 3 2⟩
    by_cases hj : j = 0 ∨ j = 1
    · rcases hj with rfl | rfl
      · exact hzero
      · exact hone
    · have hothers : ∀ move ∈ openAndBet, move.1 = 0 ∨ move.1 = 1 := by
        decide +kernel
      rw [exec_other hexec fun move hmove heq => hj (by rw [← heq]; exact hothers move hmove)]
      rfl

end WageringProcessor
