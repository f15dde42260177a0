import WageringProcessor.Invariants.Sending
import WageringProcessor.Persistence.Jsonb
import WageringProcessor.Runs

/-!
# Deduplication on the queue

The queue drops a message whose `MessageDeduplicationId` it has seen, so the id has to stand for the
body: no two events may share it, and every send of one event has to have it.
-/

namespace WageringProcessor

open Library.Interleaving Library.JsonText

variable {P : Platform} {c : Config Shared Proc} {read : Json → Json} {x y : Sent}
  {m m' : OutboxMessage}

/-- `MessageBody`. -/
def Sent.text (read : Json → Json) (x : Sent) : String := x.body.body read

structure Deduplicated (read : Json → Json) (c : Config Shared Proc) : Prop where
  exact : ∀ x ∈ c.shared.sent, ∀ y ∈ c.shared.sent,
    x.messageDeduplicationId = y.messageDeduplicationId ↔ x.text read = y.text read
  /-- Whoever has the body knows the event, and what is sent with the same body is of one group. -/
  tells : ∀ x ∈ c.shared.sent, ∀ y ∈ c.shared.sent, x.text read = y.text read →
    x.body = y.body ∧ x.messageGroupId = y.messageGroupId
  /-- What was not sent yet has another body than all that was. -/
  fresh : ∀ x ∈ c.shared.sent, ∀ m ∈ c.shared.db.outboxMessages,
    m.payload.body read = x.text read → m.id = x.messageDeduplicationId
  named : ∀ x ∈ c.shared.sent,
    (read x.body.toJSON).get? "eventId" = some (.string x.messageDeduplicationId) ∧
      (read x.body.toJSON).get? "aggregateId" = some (.string x.messageGroupId)

/-- The rows of the outbox have different bodies. -/
theorem Consistent.outbox_body_inj {d : Database} (hc : Consistent P d)
    (hread : ∀ m ∈ d.outboxMessages, ReadsBack read m.payload.toJSON)
    (hm : m ∈ d.outboxMessages) (hm' : m' ∈ d.outboxMessages)
    (h : m.payload.body read = m'.payload.body read) : m = m' := by
  have hevent := body_inj (hread m hm) (hread m' hm') h
  refine List.inj_on_of_nodup_map hc.outboxIds hm hm' ?_
  rw [(hc.envelopes m hm).id, (hc.envelopes m' hm').id, hevent]

/-- The database gives back the payloads that it has stored, their keys in any order. -/
theorem reachable_deduplicated (h : Reachable (step P) initial c)
    (hread : ∀ m ∈ c.shared.db.outboxMessages, ReadsBack read m.payload.toJSON) :
    Deduplicated read c := by
  have hc := reachable_consistent h
  have hrow := (reachable_sends h).1.rows
  have hsame : ∀ x ∈ c.shared.sent, ∀ m ∈ c.shared.db.outboxMessages,
      m.payload.body read = x.text read → x = sentBy x.sender m := by
    intro x hx m hm hbody
    obtain ⟨m', hm', heq⟩ := hrow x hx
    rw [heq] at hbody
    obtain rfl := hc.outbox_body_inj hread hm hm' hbody
    exact heq
  have htells : ∀ x ∈ c.shared.sent, ∀ y ∈ c.shared.sent, x.text read = y.text read →
      ∃ m, x = sentBy x.sender m ∧ y = sentBy y.sender m := by
    intro x hx y hy hbody
    obtain ⟨m, hm, heq⟩ := hrow x hx
    refine ⟨m, heq, hsame y hy m hm ?_⟩
    rw [← hbody, heq]
    rfl
  constructor
  · intro x hx y hy
    constructor
    · intro hid
      obtain ⟨m, hm, hxm⟩ := hrow x hx
      obtain ⟨m', hm', hym⟩ := hrow y hy
      rw [hxm, hym] at hid
      obtain rfl : m = m' := List.inj_on_of_nodup_map hc.outboxIds hm hm' hid
      rw [hxm, hym]
      rfl
    · intro hbody
      obtain ⟨m, hxm, hym⟩ := htells x hx y hy hbody
      rw [hxm, hym]
      rfl
  · intro x hx y hy hbody
    obtain ⟨m, hxm, hym⟩ := htells x hx y hy hbody
    rw [hxm, hym]
    exact ⟨rfl, rfl⟩
  · intro x hx m hm hbody
    rw [hsame x hx m hm hbody]
    rfl
  · intro x hx
    obtain ⟨m, hm, hxm⟩ := hrow x hx
    have henvelope := hc.envelopes m hm
    rw [hxm]
    refine ⟨(hread m hm).get? ?_, (hread m hm).get? ?_⟩
    · show some (Json.string m.payload.eventId) = some (.string m.id)
      rw [henvelope.id]
    · rw [sentBy, henvelope.aggregateId]
      rfl

/-- A publisher sends the four messages of an opening and of a bet and stops before it commits;
another one sends them again. -/
def sendTwice : List (Pid × Action) :=
  openAndBet ++ [(2, .start (.publishOutbox 20)),
    (2, tick 13 [uuidText 53, uuidText 52, uuidText 112, uuidText 111] true)] ++ steps 2 14 4 ++
      [(2, .crash), (3, .start (.publishOutbox 20)),
        (3, tick 20 [uuidText 53, uuidText 52, uuidText 112, uuidText 111] true)] ++ steps 3 21 5

theorem sendTwice_deduplicated : ∃ c, Reachable (step localPlatform) initial c ∧
    c.shared.sent.map (fun x => (x.sender, x.messageDeduplicationId)) =
      [(2, uuidText 53), (2, uuidText 52), (2, uuidText 112), (2, uuidText 111),
        (3, uuidText 53), (3, uuidText 52), (3, uuidText 112), (3, uuidText 111)] ∧
      Deduplicated jsonb c := by
  have hrun : (exec (step localPlatform) initial sendTwice).any (fun c =>
      decide (c.shared.sent.map (fun x => (x.sender, x.messageDeduplicationId)) =
      [(2, uuidText 53), (2, uuidText 52), (2, uuidText 112), (2, uuidText 111),
        (3, uuidText 53), (3, uuidText 52), (3, uuidText 112), (3, uuidText 111)])) = true := by
    decide +kernel
  obtain ⟨c, hreach, hp⟩ := reachable_of_any hrun
  exact ⟨c, hreach, of_decide_eq_true hp,
    reachable_deduplicated hreach fun m _ => jsonb_readsBack (wellFormed_toJSON m.payload)⟩

end WageringProcessor
