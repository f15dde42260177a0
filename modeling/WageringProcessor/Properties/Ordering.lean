import WageringProcessor.Properties.OutboxHistory
import WageringProcessor.Properties.Publishing
import Mathlib

/-!
# The order of the events of an aggregate

The outbox lists the events of an aggregate in the order in which they happened.  Publishing keeps
that order in every run in which no batch overtakes an earlier event and no send follows a failed
one of its aggregate.
-/

namespace WageringProcessor

open Library.Interleaving Library.ListOrder Library.Table PublishOutbox
open OutboxMessage (not_pending_iff)

variable {P : Platform} {i j : Pid} {s s' : Shared} {p p' q : Proc} {c c' : Config Shared Proc}
  {a : Action} {batchSize : Nat} {run : PublishRun} {m m₀ : OutboxMessage}
  {todo rest : List OutboxMessage}

/-! ## When a step keeps its turn -/

/-- `m₀` is an event of the aggregate of `m` that happened before it. -/
structure Earlier (d : Database) (m₀ m : OutboxMessage) : Prop where
  row : m₀ ∈ d.outboxMessages
  before : Precedes d.outboxIds m₀.id m.id
  aggregateId : m₀.aggregateId = m.aggregateId

/-- No event of the batch overtakes one of its aggregate: each earlier one that is still pending is
due and not locked, has not a later `occurredAt`, and comes first where `occurredAt` is the same. -/
abbrev BatchInTurn (s : Shared) (inp : Input) : Prop :=
  ∀ m ∈ s.db.outboxMessages, m.id ∈ inp.batch → ∀ m₀ ∈ s.db.outboxMessages,
    Precedes s.db.outboxIds m₀.id m.id → m₀.aggregateId = m.aggregateId → m₀.isPending = true →
      available s inp.now m₀ = true ∧ (m₀.occurredAt < m.occurredAt ∨
        m₀.occurredAt = m.occurredAt ∧ Precedes inp.batch m₀.id m.id)

/-- The send of `m` does not succeed after one of its aggregate has failed in the same run. -/
abbrev SendInTurn (run : PublishRun) (m : OutboxMessage) (inp : Input) : Prop :=
  inp.delivered = true → ∀ m' ∈ run.saved, m'.aggregateId = m.aggregateId → m'.isPending = false

def inTurn (s : Shared) : Proc → Action → Bool
  | .publishOutbox _ .begin, .step inp => decide (BatchInTurn s inp)
  | .publishOutbox _ (.publishing run (m :: _)), .step inp => decide (SendInTurn run m inp)
  | _, _ => true

/-- The condition on the steps of a run. -/
abbrev InTurn (c : Config Shared Proc) (i : Pid) (a : Action) : Prop :=
  inTurn c.shared (c.procs i) a = true

/-! ## The order that is kept -/

/-- Whatever happened before a message that was sent was sent before it. -/
def SentInTurn (s : Shared) : Prop :=
  ∀ pre x post, s.sent = pre ++ x :: post → ∀ m₀ ∈ s.db.outboxMessages,
    Precedes s.db.outboxIds m₀.id x.messageDeduplicationId → m₀.aggregateId = x.messageGroupId →
      ∃ y ∈ pre, y.messageDeduplicationId = m₀.id

/-- Successful sends follow the order in which the events of an aggregate happened. -/
structure SentInOrder (c : Config Shared Proc) : Prop where
  earlier : SentInTurn c.shared
  /-- Of two sends to one group the first is of the earlier event, unless the later one repeats what
  an aborted run had sent. -/
  ordered : ∀ x y, Precedes c.shared.sent x y → x.messageGroupId = y.messageGroupId →
    Precedes c.shared.db.outboxIds x.messageDeduplicationId y.messageDeduplicationId ∨
      ∃ z ∈ c.shared.sent, z.messageDeduplicationId = y.messageDeduplicationId ∧
        (c.procs z.sender).aborted = true
  /-- What a message that is sent comes after is published, if only by the same run. -/
  published : ∀ i batchSize run m rest inp,
    c.procs i = .publishOutbox batchSize (.publishing run (m :: rest)) →
      InTurn c i (.step inp) → inp.delivered = true → ∀ m₀, Earlier c.shared.db m₀ m →
        m₀.isPending = false ∨ ∃ m' ∈ run.saved, m'.id = m₀.id ∧ m'.isPending = false
  /-- The balance changes of a wallet are sent in the order of its versions. -/
  versions : ∀ pre x post, c.shared.sent = pre ++ x :: post → ∀ m₀ ∈ c.shared.db.outboxMessages,
    ∀ walletId, m₀.payload.data.isBalanceChangeOf walletId = true →
      x.body.data.isBalanceChangeOf walletId = true →
        (∃ v₀ ∈ m₀.payload.data.walletVersion?, ∃ v ∈ x.body.data.walletVersion?, v₀ < v) →
          ∃ y ∈ pre, y.messageDeduplicationId = m₀.id

/-! ## What a run in turn keeps -/

/-- Whatever happened before a message of the batch is published, or before it in the batch. -/
def TurnOk (s : Shared) : Proc → Prop
  | .publishOutbox _ (.publishing run _) => ∀ m ∈ run.batch, ∀ m₀, Earlier s.db m₀ m →
      m₀.publishedAt.isSome = true ∨
        (m₀ ∈ run.batch ∧ Precedes (run.batch.map OutboxMessage.id) m₀.id m.id)
  | _ => True

/-- An event that happened before an old one is old itself. -/
theorem Effect.earlier (h : Effect P i s s' p) (hs' : Consistent P s'.db)
    {own : Resource → Prop} (f : Frame own s.db s'.db) (hm : m.id ∈ s.db.outboxIds)
    (he : Earlier s'.db m₀ m) : ∃ m₁, Earlier s.db m₁ m ∧ m₁.id = m₀.id ∧
      (m₁.publishedAt.isSome = true → m₀ = m₁) ∧ (own (.outbox m₁.id) → m₀ = m₁) := by
  obtain ⟨new, hids⟩ := h.outboxIds
  have hnodup : s'.db.outboxIds.Nodup := hs'.outboxIds
  have hbefore : Precedes s.db.outboxIds m₀.id m.id :=
    (hids ▸ he.before).of_append (hids ▸ hnodup) hm
  obtain ⟨m₁, hm₁, hsame, hpublished, howned⟩ :=
    f.old_message hnodup he.row hbefore.mem_left
  have hid : m₁.id = m₀.id := hsame.1.symm
  exact ⟨m₁, ⟨hm₁, hid ▸ hbefore, hsame.2.1.symm.trans he.aggregateId⟩, hid, hpublished, howned⟩

theorem Effect.turnOk (h : Effect P i s s' p) (hc : Consistent P s.db) (hc' : Consistent P s'.db)
    (hij : j ≠ i) (hq : ProcOk P j s q) (ht : TurnOk s q) : TurnOk s' q := by
  match q, hq, ht with
  | .publishOutbox _ (.publishing run todo), hq, ht =>
    have f := h.frame hc hij
    intro m hm m₀ he
    have hmem : m.id ∈ s.db.outboxIds := List.mem_map_of_mem (hq.1.rows m hm)
    obtain ⟨m₁, he₁, hid, hpublished, howned⟩ := h.earlier hc' f hmem he
    rcases ht m hm m₁ he₁ with hp | ⟨hbatch, hbefore⟩
    · exact Or.inl (hpublished hp ▸ hp)
    · obtain rfl := howned (hq.1.owns m₁ hbatch)
      exact Or.inr ⟨hbatch, hbefore⟩
  | .publishOutbox _ .begin, _, _ => trivial
  | .publishOutbox _ (.returned _), _, _ => trivial
  | .publishOutbox _ (.threw _), _, _ => trivial
  | .openWallet _ _, _, _ => trivial
  | .submit _ _, _, _ => trivial
  | .consume _ _, _, _ => trivial
  | .reprocess _ _, _, _ => trivial
  | .idle, _, _ => trivial
  | .crashed, _, _ => trivial

/-! ## A step in turn -/

/-- In a batch taken in turn, what happened before one of its messages and is still pending stands
before it. -/
theorem batch_inTurn {now : Date} {ids : List Id} {rows : List OutboxMessage}
    (hc : Consistent P s.db) (hbatch : Batch s now ids rows) (hm : m ∈ rows)
    (he : Earlier s.db m₀ m) (havailable : available s now m₀ = true)
    (hturn : m₀.occurredAt < m.occurredAt ∨
      m₀.occurredAt = m.occurredAt ∧ Precedes ids m₀.id m.id) :
    m₀ ∈ rows ∧ Precedes (rows.map OutboxMessage.id) m₀.id m.id := by
  have hmem : m₀.id ∈ ids → m₀ ∈ rows := by
    intro hid
    obtain ⟨m₁, hm₁, hsame⟩ := List.mem_map.mp (hbatch.map_id ▸ hid)
    obtain rfl := List.inj_on_of_nodup_map hc.outboxIds (hbatch.mem m₁ hm₁) he.row hsame
    exact hm₁
  rcases hturn with hlt | ⟨-, hbefore⟩
  · have hm₀ : m₀ ∈ rows := by
      rcases hbatch.least m₀ he.row havailable with hid | hall
      · exact hmem hid
      · exact absurd (hall m hm) (Nat.not_le.mpr hlt)
    have hne : m₀ ≠ m := by
      rintro rfl
      exact Nat.lt_irrefl _ hlt
    exact ⟨hm₀, (precedes_of_pairwise hbatch.sorted hm₀ hm hne (Nat.not_le.mpr hlt)).map _⟩
  · refine ⟨hmem hbefore.mem_left, ?_⟩
    rw [hbatch.map_id]
    exact hbefore

theorem publishStep_turnOk {inp : Input} {stage : PublishStage} {stage' : PublishStage}
    (run : Reachable (step P) initial c) (hp : c.procs i = .publishOutbox batchSize stage)
    (hturn : InTurn c i (.step inp)) (ht : TurnOk c.shared (.publishOutbox batchSize stage))
    (hstep : PublishOutbox.step i batchSize inp c.shared stage = some (s', stage')) :
    TurnOk s' (.publishOutbox batchSize stage') := by
  have hc := reachable_consistent run
  rw [InTurn, hp] at hturn
  match stage, hp, hturn, ht, hstep with
  | .begin, _, hturn, _, hstep =>
    obtain ⟨rows, hbatch, htake, rfl⟩ := step_begin_eq hstep
    have hdb := (take_acquires htake).db
    intro m hm m₀ he
    rw [hdb] at he
    cases hpublished : m₀.publishedAt with
    | some => exact Or.inl rfl
    | none =>
      have hid : m.id ∈ inp.batch := hbatch.map_id ▸ List.mem_map_of_mem hm
      have hpending : m₀.isPending = true := by simp [OutboxMessage.isPending, hpublished]
      obtain ⟨havailable, horder⟩ := of_decide_eq_true hturn m (hbatch.mem m hm) hid m₀ he.row
        he.before he.aggregateId hpending
      exact Or.inr (batch_inTurn hc hbatch hm he havailable horder)
  | .publishing run₀ [], _, _, _, hstep =>
    obtain ⟨rfl, rfl⟩ := Prod.mk.inj (Option.some.inj hstep)
    trivial
  | .publishing run₀ (m :: rest), hp, _, ht, hstep =>
    rw [step_publishing hc (publishing_ok run hp).1] at hstep
    obtain ⟨rfl, rfl⟩ := Prod.mk.inj (Option.some.inj hstep)
    intro n hn m₀ he
    rw [send_db] at he
    exact ht n hn m₀ he
  | .returned _, _, _, _, hstep => cases hstep
  | .threw _, _, _, _, hstep => cases hstep

theorem step_turnOk (run : Reachable (step P) initial c) (hturn : InTurn c i a)
    (ht : TurnOk c.shared (c.procs i)) (hstep : step P i a c.shared (c.procs i) = some (s', p')) :
    TurnOk s' p' := by
  generalize hp : c.procs i = p at hstep ht
  cases step_way hstep with
  | @start call => cases call <;> trivial
  | fail =>
    cases p with
    | consume messageId stage => cases stage <;> trivial
    | _ => trivial
  | publishOutbox steps => exact publishStep_turnOk run hp hturn ht steps
  | crash | openWallet | submit | submitted | consume | reprocess => trivial

/-- When a run in turn sends `m`, whatever happened before it is published, if only by the run. -/
theorem published_earlier (h : Reachable (step P) initial c) (ht : TurnOk c.shared (c.procs i))
    (hp : c.procs i = .publishOutbox batchSize (.publishing run (m :: rest)))
    (hturn : ∀ m' ∈ run.saved, m'.aggregateId = m.aggregateId → m'.isPending = false)
    (he : Earlier c.shared.db m₀ m) :
    m₀.isPending = false ∨ ∃ m' ∈ run.saved, m'.id = m₀.id ∧ m'.isPending = false := by
  have hrun := (publishing_ok h hp).1
  obtain ⟨done, hbatch, hsaved⟩ := hrun.saved
  rw [hp] at ht
  have hm : m ∈ run.batch := hbatch ▸ List.mem_append_right _ List.mem_cons_self
  rcases ht m hm m₀ he with hpublished | ⟨hm₀, hbefore⟩
  · exact Or.inl (not_pending_iff.mpr hpublished)
  · -- it was handled before `m` in the same run
    have hnodup := hrun.nodup
    rw [hbatch, List.map_append, List.map_cons] at hnodup hbefore
    obtain ⟨m₁, hm₁, hid⟩ := List.mem_map.mp (hbefore.mem_of_split hnodup)
    obtain ⟨m', hm', hms⟩ := mem_saved hsaved hm₁
    have hm₁batch : m₁ ∈ run.batch := hbatch ▸ List.mem_append_left _ hm₁
    obtain rfl : m₁ = m₀ := List.inj_on_of_nodup_map (reachable_consistent h).outboxIds
      (hrun.rows m₁ hm₁batch) he.row hid
    have haggregate : m'.aggregateId = m.aggregateId :=
      hms.sameEnvelope.2.1.trans he.aggregateId
    exact Or.inr ⟨m', hm', hms.id, hturn m' hm' haggregate⟩

theorem sent_earlier (h : Reachable (step P) initial c) (ht : TurnOk c.shared (c.procs i))
    (hp : c.procs i = .publishOutbox batchSize (.publishing run (m :: rest)))
    (hturn : ∀ m' ∈ run.saved, m'.aggregateId = m.aggregateId → m'.isPending = false)
    (he : Earlier c.shared.db m₀ m) : ∃ y ∈ c.shared.sent, y.messageDeduplicationId = m₀.id := by
  rcases published_earlier h ht hp hturn he with hpublished | ⟨m', hm', hid, hpublished⟩
  · obtain ⟨j, hsent⟩ :=
      (reachable_sends h).1.published m₀ he.row (not_pending_iff.mp hpublished)
    exact ⟨_, hsent, rfl⟩
  · exact ⟨_, (publishing_ok h hp).2 m' hm' (not_pending_iff.mp hpublished), hid⟩

theorem delivered_of_sent (hp : c.procs i = .publishOutbox batchSize (.publishing run (m :: rest)))
    (hstep : step P i a c.shared (c.procs i) = some (s', p')) (hne : s'.sent ≠ c.shared.sent) :
    ∃ inp, a = .step inp ∧ inp.delivered = true := by
  rw [hp] at hstep
  cases step_way hstep with
  | fail | crash => exact absurd rfl hne
  | @publishOutbox inp _ _ _ _ steps =>
    refine ⟨inp, rfl, ?_⟩
    by_contra hdelivered
    have hsame : send i c.shared m inp.delivered = c.shared := if_neg hdelivered
    dsimp only [PublishOutbox.step] at steps
    rw [hsame] at steps
    split at steps
    · obtain ⟨rfl, rfl⟩ := Prod.mk.inj (Option.some.inj steps)
      exact hne rfl
    · split at steps
      all_goals
        obtain ⟨rfl, rfl⟩ := Prod.mk.inj (Option.some.inj steps)
        exact hne rfl

theorem step_sentInTurn (run : Reachable (step P) initial c) (hturn : InTurn c i a)
    (hsent : SentInTurn c.shared) (ht : TurnOk c.shared (c.procs i))
    (hstep : step P i a c.shared (c.procs i) = some (s', p')) : SentInTurn s' := by
  obtain ⟨hs, hprocs⟩ := reachable_ok run
  have heffect := (step_ok hs (hprocs i) hstep).1
  have hs' := heffect.sharedOk hs
  have hrows := (reachable_sends run).1.rows
  intro pre x post hsplit m₀ hm₀ hbefore haggregate
  rcases heffect.sent_append with heq | ⟨batchSize, run₀, m, rest, hp, heq, hdb⟩
  · -- an old send, and the events before it are old
    rw [heq] at hsplit
    obtain ⟨m, hm, hxm⟩ := hrows x (hsplit ▸ List.mem_append_right _ List.mem_cons_self)
    have hid : x.messageDeduplicationId = m.id := congrArg Sent.messageDeduplicationId hxm
    have hgroup : x.messageGroupId = m.aggregateId := congrArg Sent.messageGroupId hxm
    have he : Earlier s'.db m₀ m := ⟨hm₀, hid ▸ hbefore, haggregate.trans hgroup⟩
    obtain ⟨m₁, he₁, hid₁, -⟩ := heffect.earlier hs'.consistent (heffect.history hs.consistent)
      (List.mem_map_of_mem hm) he
    rw [← hid₁]
    exact hsent pre x post hsplit m₁ he₁.row (hid ▸ he₁.before) (he₁.aggregateId.trans hgroup.symm)
  · rw [hdb] at hm₀ hbefore
    rw [heq] at hsplit
    rcases List.eq_nil_or_concat post with rfl | ⟨post', y, rfl⟩
    · obtain ⟨rfl, hlast⟩ := List.append_inj' hsplit rfl
      obtain rfl : sentBy i m = x := (List.cons.inj hlast).1
      obtain ⟨inp, rfl, hdelivered⟩ := delivered_of_sent hp hstep (by simp [heq])
      rw [InTurn, hp] at hturn
      exact sent_earlier run ht hp (of_decide_eq_true hturn hdelivered) ⟨hm₀, hbefore, haggregate⟩
    · have hsplit' : c.shared.sent ++ [sentBy i m] = (pre ++ x :: post') ++ [y] := by
        simpa using hsplit
      obtain ⟨hold, -⟩ := List.append_inj' hsplit' rfl
      exact hsent pre x post' hold m₀ hm₀ hbefore haggregate

/-! ## Runs in turn -/

theorem reach_sentInTurn (h : Reach (step P) InTurn initial c) :
    SentInTurn c.shared ∧ ∀ i, TurnOk c.shared (c.procs i) := by
  have hinit : SentInTurn initial.shared := by
    intro pre x post hsplit
    exact absurd (congrArg List.length hsplit) (by simp [initial, Shared.init])
  refine (h.ownAndRely (I := SentInTurn) (L := fun i s p => ProcOk P i s p ∧ TurnOk s p)
    hinit (fun _ => ⟨trivial, trivial⟩) ?_ ?_).imp_right fun hprocs i => (hprocs i).2
  · intro c i a s p run hturn hsent ht hstep
    have hs := (reachable_ok run.reachable).1
    exact ⟨step_sentInTurn run.reachable hturn hsent ht.2 hstep, (step_ok hs ht.1 hstep).2,
      step_turnOk run.reachable hturn ht.2 hstep⟩
  · intro c i a s p j q run _ _ hi hstep hij hq
    have hs := (reachable_ok run.reachable).1
    have heffect := (step_ok hs hi.1 hstep).1
    exact ⟨heffect.procOk hs.consistent hij hq.1,
      heffect.turnOk hs.consistent (heffect.sharedOk hs).consistent hij hq.1 hq.2⟩

/-- The events of one group that were sent twice or out of turn were sent by a run that aborted. -/
theorem sends_ordered (h : Reachable (step P) initial c) (hsent : SentInTurn c.shared) (x y : Sent)
    (hxy : Precedes c.shared.sent x y) (hgroup : x.messageGroupId = y.messageGroupId) :
    Precedes c.shared.db.outboxIds x.messageDeduplicationId y.messageDeduplicationId ∨
      ∃ z ∈ c.shared.sent, z.messageDeduplicationId = y.messageDeduplicationId ∧
        (c.procs z.sender).aborted = true := by
  by_cases hid : x.messageDeduplicationId = y.messageDeduplicationId
  · exact Or.inr ⟨x, hxy.mem_left, hid, reachable_duplicates h x y hxy hid⟩
  · have hrows := (reachable_sends h).1.rows
    obtain ⟨m, hm, hxm⟩ := hrows x hxy.mem_left
    obtain ⟨n, hn, hyn⟩ := hrows y hxy.mem_right
    have hxid : x.messageDeduplicationId = m.id := congrArg Sent.messageDeduplicationId hxm
    have hyid : y.messageDeduplicationId = n.id := congrArg Sent.messageDeduplicationId hyn
    have hygroup : y.messageGroupId = n.aggregateId := congrArg Sent.messageGroupId hyn
    rcases precedes_total (l := c.shared.db.outboxIds) (hxid ▸ List.mem_map_of_mem hm)
      (hyid ▸ List.mem_map_of_mem hn) hid with hbefore | hbefore
    · exact Or.inl hbefore
    · -- what `y` carries happened first, so it had been sent before `x` too
      obtain ⟨pre, post, hsplit, hx⟩ := precedes_iff.mp hxy
      obtain ⟨s, t, rfl⟩ := List.append_of_mem hx
      obtain ⟨z, hz, hzid⟩ := hsent s x (t ++ y :: post) (by simpa using hsplit) n hn
        (hyid ▸ hbefore) (hygroup.symm.trans hgroup.symm)
      have hzy : Precedes c.shared.sent z y :=
        precedes_iff.mpr ⟨_, post, hsplit, List.mem_append_left _ hz⟩
      have hsame : z.messageDeduplicationId = y.messageDeduplicationId := hzid.trans hyid.symm
      exact Or.inr ⟨z, hzy.mem_left, hsame, reachable_duplicates h z y hzy hsame⟩

/-! ## The versions of a wallet -/

theorem Consistent.balanceChange_wallet (hc : Consistent P s.db) (hm : m ∈ s.db.outboxMessages)
    {walletId : Id} (h : m.payload.data.isBalanceChangeOf walletId = true) :
    ∃ w ∈ s.db.wallets, w.id = walletId := by
  have hhappened := hc.happened (List.mem_map_of_mem (f := fun m => m.payload.data) hm)
  cases hdata : m.payload.data with
  | walletBalanceChanged id transactionId direction money before after version =>
    rw [hdata] at h
    change EventData.Happened s.db m.payload.data at hhappened
    rw [hdata] at hhappened
    obtain ⟨e, he, hwallet, -, -⟩ := hhappened
    obtain ⟨t, ht, -, -, hfor⟩ := hc.entry_row he
    obtain ⟨w, hw, hid, -⟩ := (hc.rows t ht).identity.owner
    have hsame : id = walletId := by simpa [EventData.isBalanceChangeOf] using h
    exact ⟨w, hw, by rw [hid, ← hfor.walletId, hwallet, hsame]⟩
  | _ => simp [hdata, EventData.isBalanceChangeOf] at h

/-- Of two balance changes of a wallet, the one of the smaller version happened first. -/
theorem Consistent.versions_before (hc : Consistent P s.db) (hm₀ : m₀ ∈ s.db.outboxMessages)
    (hm : m ∈ s.db.outboxMessages) {walletId : Id}
    (h₀ : m₀.payload.data.isBalanceChangeOf walletId = true)
    (h : m.payload.data.isBalanceChangeOf walletId = true) {v₀ v : Nat}
    (hv₀ : v₀ ∈ m₀.payload.data.walletVersion?) (hv : v ∈ m.payload.data.walletVersion?)
    (hlt : v₀ < v) : Precedes s.db.outboxIds m₀.id m.id := by
  obtain ⟨w, hw, rfl⟩ := hc.balanceChange_wallet hm h
  have hne : m ≠ m₀ := by
    rintro rfl
    exact Nat.lt_irrefl v (Option.some.inj (hv₀.symm.trans hv) ▸ hlt)
  rcases precedes_total hm₀ hm hne.symm with hbefore | hbefore
  · exact hbefore.map _
  · -- the versions of the balance changes of `w` increase along the outbox
    have hevents : Precedes (s.db.balanceEventsOf w.id) m.payload.data m₀.payload.data := by
      have hfilter := (hbefore.map fun m => m.payload.data).filter (·.isBalanceChangeOf w.id)
      rwa [List.filter_cons_of_pos h, List.filter_cons_of_pos h₀, List.filter_nil] at hfilter
    have hversions : Precedes ((s.db.balanceEventsOf w.id).filterMap EventData.walletVersion?)
        v v₀ := by
      have hmap := hevents.filterMap EventData.walletVersion?
      rwa [List.filterMap_cons_some hv, List.filterMap_cons_some hv₀, List.filterMap_nil] at hmap
    have hne : s.db.entriesOfWallet w.id ≠ [] := by
      intro hnil
      have hnone := (hc.accounts w hw).events
      rw [hnil, List.zipWith_nil_left] at hnone
      exact absurd hevents.mem_left (hnone ▸ List.not_mem_nil)
    obtain ⟨first, hrange, -, -⟩ := (hc.accounts w hw).walletVersions hne
    rw [hrange] at hversions
    have hsorted := List.pairwise_iff_forall_sublist.mp List.pairwise_lt_range' hversions
    exact absurd hlt (Nat.not_lt.mpr hsorted.le)

/-- Along every run in turn the events of an aggregate are sent in the order in which they
happened. -/
theorem reach_sentInOrder (h : Reach (step P) InTurn initial c) : SentInOrder c := by
  have hreach := h.reachable
  obtain ⟨hsent, hturns⟩ := reach_sentInTurn h
  refine ⟨hsent, sends_ordered hreach hsent, ?_, ?_⟩
  · intro i batchSize run m rest inp hp hturn hdelivered m₀ he
    rw [InTurn, hp] at hturn
    exact published_earlier hreach (hturns i) hp (of_decide_eq_true hturn hdelivered) he
  rintro pre x post hsplit m₀ hm₀ walletId h₀ hx ⟨v₀, hv₀, v, hv, hlt⟩
  have hc := reachable_consistent hreach
  obtain ⟨m, hm, hxm⟩ :=
    (reachable_sends hreach).1.rows x (hsplit ▸ List.mem_append_right _ List.mem_cons_self)
  have hid : x.messageDeduplicationId = m.id := congrArg Sent.messageDeduplicationId hxm
  have hbody : x.body = m.payload := congrArg Sent.body hxm
  have hgroup : x.messageGroupId = m.aggregateId := congrArg Sent.messageGroupId hxm
  rw [hbody] at hx hv
  have hbefore := hc.versions_before hm₀ hm h₀ hx hv₀ hv hlt
  refine hsent pre x post hsplit m₀ hm₀ (hid ▸ hbefore) ?_
  rw [hgroup, (hc.envelopes m₀ hm₀).wallet walletId h₀, (hc.envelopes m hm).wallet walletId hx]

/-- Both events of an opening are sent in turn. -/
def publishOpening : List (Pid × Action) :=
  runCall 0 (.openWallet openCommand) 1 6 ++
    [(1, .start (.publishOutbox 20)), (1, tick 7 [uuidText 52, uuidText 53] true),
      (1, tick 8 [] true), (1, tick 9 [] true), (1, tick 10 [] true)]

theorem publishOpening_sentInOrder : ∃ c, Reach (step localPlatform) InTurn initial c ∧
    c.shared.sent.map Sent.messageDeduplicationId = [uuidText 52, uuidText 53] ∧
      SentInOrder c := by
  have hrun : (execIf (step localPlatform) InTurn initial publishOpening).any (fun c =>
      c.shared.sent.map Sent.messageDeduplicationId = [uuidText 52, uuidText 53]) = true := by
    decide +kernel
  obtain ⟨c, hreach, hsent⟩ := reach_of_any hrun
  exact ⟨c, hreach, of_decide_eq_true hsent, reach_sentInOrder hreach⟩

/-- A failed send lets the next event of the aggregate overtake. -/
theorem failedSend_not_sentInOrder : ∃ c, Reachable (step localPlatform) initial c ∧
    c.shared.sent.map (fun x => (x.messageDeduplicationId, x.messageGroupId)) =
        [(uuidText 53, uuidText 10)] ∧
      c.shared.db.outboxMessages.map (fun m => (m.id, m.aggregateId, m.attempts, m.publishedAt)) =
        [(uuidText 52, uuidText 10, 1, none), (uuidText 53, uuidText 10, 0, some 7000)] ∧
      ¬SentInOrder c := by
  obtain ⟨c, hreach, hsent, hrows⟩ := failedSend_reaches
  refine ⟨c, hreach, hsent, hrows, fun h => ?_⟩
  obtain ⟨x, hx, hxids⟩ := List.map_eq_singleton_iff.mp hsent
  obtain ⟨m₀, ms, hms, hm₀, hrest⟩ := List.map_eq_cons_iff.mp hrows
  obtain ⟨m₁, hm₁, hm₁row⟩ := List.map_eq_singleton_iff.mp hrest
  obtain ⟨hid, hgroup⟩ := Prod.mk.inj hxids
  obtain ⟨hid₀, haggregate, -⟩ := Prod.mk.inj hm₀ |>.imp id Prod.mk.inj
  have hids : c.shared.db.outboxIds = [m₀.id, m₁.id] := by rw [Database.outboxIds, hms, hm₁]; rfl
  have hbefore : Precedes c.shared.db.outboxIds m₀.id x.messageDeduplicationId := by
    rw [hids, hid, ← (Prod.mk.inj hm₁row).1]
    exact List.Sublist.refl _
  obtain ⟨y, hy, -⟩ := h.earlier [] x [] hx m₀ (hms ▸ List.mem_cons_self) hbefore
    (haggregate.trans hgroup.symm)
  exact absurd hy List.not_mem_nil

end WageringProcessor
