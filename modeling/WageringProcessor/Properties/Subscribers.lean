import WageringProcessor.Invariants.Sending
import WageringProcessor.Library.Redelivery
import WageringProcessor.Properties.Draining
import WageringProcessor.Properties.OutboxHistory

/-!
# What the queue of events tells

The events are sent in an order that is not that of the movements, and some of them more than once.
The versions in them are enough to put them in order: whoever receives the events of a wallet, in
any order and any number of times, has its ledger as soon as nothing about it waits in the
outbox. -/

namespace WageringProcessor

open Library.Interleaving Library.Redelivery

variable {P : Platform} {c c' : Config Shared Proc} {d : Database} {w : WalletRow}
  {received : List IntegrationEvent} {since : Date} {n k : Nat}

/-! ## The stamps of the balance events -/

def EventData.stamp (e : EventData) : Nat := e.walletVersion?.getD 0

/-- What was received about a wallet, each event once and in the order of the versions. -/
def toldOf (received : List IntegrationEvent) (walletId : Id) : List EventData :=
  reorder EventData.stamp ((received.map (·.data)).filter (·.isBalanceChangeOf walletId))

theorem stamps_zipWith (es : List WalletLedgerEntry) (vs : List Nat) (h : es.length = vs.length) :
    (es.zipWith balanceChange vs).map EventData.stamp = vs := by
  rw [List.map_zipWith]
  induction es generalizing vs with
  | nil => exact (List.length_eq_zero_iff.mp h.symm).symm
  | cons e es ih =>
    cases vs with
    | nil => cases h
    | cons v vs =>
      rw [List.zipWith_cons_cons, ih vs (Nat.succ.inj h)]
      rfl

theorem AccountOk.stamped (h : AccountOk P d w) :
    Stamped EventData.stamp (d.balanceEventsOf w.id) := by
  have hpairwise : ((d.balanceEventsOf w.id).map EventData.stamp).Pairwise (· < ·) := by
    rw [h.events, stamps_zipWith _ _ (by simp [lastVersions])]
    exact List.pairwise_lt_range'
  exact List.pairwise_map.mp hpairwise

/-! ## What a subscriber has -/

/-- The events of the movements of a wallet, with the versions that they left it at. -/
def Database.movementsOf (d : Database) (w : WalletRow) : List EventData :=
  (d.entriesOfWallet w.id).zipWith balanceChange
    (lastVersions w.version (d.entriesOfWallet w.id).length)

structure Subscribed (c : Config Shared Proc) (received : List IntegrationEvent) : Prop where
  /-- What was received is part of the ledger, and in its order. -/
  told : ∀ w ∈ c.shared.db.wallets,
    (toldOf received w.id).Sublist (c.shared.db.movementsOf w)
  complete : (∀ x ∈ c.shared.sent, x.body ∈ received) → ∀ w ∈ c.shared.db.wallets,
    (∀ m ∈ c.shared.db.pendingMessages, m.payload.data.isBalanceChangeOf w.id = false) →
      toldOf received w.id = c.shared.db.movementsOf w ∧
        lastBalance w.id w.currency (toldOf received w.id) =
          (Money.mk w.balanceAmount w.currency).toJSON

theorem lastBalance_filter (walletId : Id) (currency : Currency) (events : List EventData) :
    lastBalance walletId currency (events.filter (·.isBalanceChangeOf walletId)) =
      lastBalance walletId currency events := by
  have hsame : ∀ e : EventData, e.isBalanceChangeOf walletId = false →
      e.balanceAfterOf walletId = none := by
    intro e he
    cases e with
    | walletBalanceChanged id _ _ _ _ _ _ => exact if_neg (of_decide_eq_false he)
    | _ => rfl
  have hall : (events.filter (·.isBalanceChangeOf walletId)).filterMap (·.balanceAfterOf walletId) =
      events.filterMap (·.balanceAfterOf walletId) := by
    induction events with
    | nil => rfl
    | cons e events ih =>
      cases he : e.isBalanceChangeOf walletId with
      | false => rw [List.filter_cons_of_neg (by simp [he]), ih, List.filterMap_cons, hsame e he]
      | true => rw [List.filter_cons_of_pos he, List.filterMap_cons, List.filterMap_cons, ih]
  unfold lastBalance
  rw [hall]

theorem sent_eventData (h : Reachable (step P) initial c) {x : Sent} (hx : x ∈ c.shared.sent) :
    x.body.data ∈ c.shared.db.eventData := by
  obtain ⟨m, hm, heq⟩ := (reachable_sends h).1.rows x hx
  rw [heq]
  exact List.mem_map_of_mem hm

/-- What waits no longer was sent. -/
theorem eventData_sent (h : Reachable (step P) initial c) {m : OutboxMessage}
    (hm : m ∈ c.shared.db.outboxMessages) (hnot : m ∉ c.shared.db.pendingMessages) :
    ∃ x ∈ c.shared.sent, x.body = m.payload := by
  have hpublished : m.publishedAt.isSome = true := by
    rw [← OutboxMessage.not_pending_iff, ← Bool.not_eq_true]
    exact fun hp => hnot (List.mem_filter.mpr ⟨hm, hp⟩)
  obtain ⟨i, hsent⟩ := (reachable_sends h).1.published m hm hpublished
  exact ⟨_, hsent, rfl⟩

theorem reachable_subscribed (h : Reachable (step P) initial c)
    (hreceived : ∀ e ∈ received, ∃ x ∈ c.shared.sent, x.body = e) : Subscribed c received := by
  have hc := reachable_consistent h
  have hknown : ∀ w : WalletRow, ∀ e ∈ (received.map (·.data)).filter (·.isBalanceChangeOf w.id),
      e ∈ c.shared.db.balanceEventsOf w.id := by
    intro w e he
    obtain ⟨hmem, hof⟩ := List.mem_filter.mp he
    obtain ⟨body, hbody, rfl⟩ := List.mem_map.mp hmem
    obtain ⟨x, hx, rfl⟩ := hreceived body hbody
    exact List.mem_filter.mpr ⟨sent_eventData h hx, hof⟩
  constructor
  · intro w hw
    have haccount := hc.accounts w hw
    rw [Database.movementsOf, ← haccount.events, toldOf,
      reorder_eq_filter haccount.stamped (hknown w)]
    exact List.filter_sublist
  · intro hall w hw hquiet
    have haccount := hc.accounts w hw
    have htold : toldOf received w.id = c.shared.db.balanceEventsOf w.id := by
      refine reorder_eq haccount.stamped fun e => ⟨hknown w e, fun he => ?_⟩
      obtain ⟨hmem, hof⟩ := List.mem_filter.mp he
      obtain ⟨m, hm, rfl⟩ := List.mem_map.mp hmem
      have hnot : m ∉ c.shared.db.pendingMessages := fun hin => by
        rw [hquiet m hin] at hof
        cases hof
      obtain ⟨x, hx, hbody⟩ := eventData_sent h hm hnot
      rw [← hbody]
      exact List.mem_filter.mpr ⟨List.mem_map_of_mem (hall x hx), hbody ▸ hof⟩
    refine ⟨htold.trans haccount.events, ?_⟩
    rw [htold, Database.balanceEventsOf, lastBalance_filter]
    exact haccount.lastBalance

/-- Once the outbox is drained, the queue has told of everything that happened until then. -/
theorem drained_told (h : Reachable (step P) initial c)
    (hquiet : ∀ j, (c.procs j).publishing = false) (hdue : c.shared.db.DueBy since)
    (hk : c.shared.db.pendingMessages.length ≤ k * n) (hruns : PublishesInTurn P n since k c c')
    (hreceived : ∀ e, e ∈ received ↔ ∃ x ∈ c'.shared.sent, x.body = e)
    (hw : w ∈ c.shared.db.wallets) :
    toldOf received w.id = c.shared.db.movementsOf w ∧
      lastBalance w.id w.currency (toldOf received w.id) =
        (Money.mk w.balanceAmount w.currency).toJSON := by
  obtain ⟨msgs, hpublishes, hdrained⟩ := (reachable_drains h hquiet hdue n k).publishes c' hruns
  obtain ⟨rows, htables⟩ := hpublishes.tables
  have hsubscribed := reachable_subscribed (hruns.reachable h) fun e he => (hreceived e).mp he
  have hmovements : c'.shared.db.movementsOf w = c.shared.db.movementsOf w := by
    rw [htables]
    rfl
  rw [← hmovements]
  refine hsubscribed.complete (fun x hx => (hreceived x.body).mpr ⟨x, hx, rfl⟩) w ?_ fun m hm => ?_
  · rw [htables]
    exact hw
  · rw [(hdrained hk).1] at hm
    cases hm

/-- The four events of an opening and a bet are sent, and received twice in the wrong order. -/
def openBetAndPublish : List (Pid × Action) :=
  openAndBet ++ [(2, .start (.publishOutbox 20)),
    (2, tick 13 [uuidText 53, uuidText 52, uuidText 112, uuidText 111] true)] ++ steps 2 14 5

theorem openBetAndPublish_subscribed :
    ∃ (c : Config Shared Proc) (received : List IntegrationEvent),
    Reachable (step localPlatform) initial c ∧
      received = (c.shared.sent ++ c.shared.sent).reverse.map (·.body) ∧
        (toldOf received (uuidText 10)).map EventData.stamp = [1, 2] ∧ Subscribed c received := by
  have hrun : (exec (step localPlatform) initial openBetAndPublish).any (fun c =>
      decide ((toldOf ((c.shared.sent ++ c.shared.sent).reverse.map (·.body)) (uuidText 10)).map
        EventData.stamp = [1, 2])) = true := by
    decide +kernel
  obtain ⟨c, hreach, hp⟩ := reachable_of_any hrun
  refine ⟨c, _, hreach, rfl, of_decide_eq_true hp, reachable_subscribed hreach fun e he => ?_⟩
  obtain ⟨x, hx, rfl⟩ := List.mem_map.mp he
  rw [List.mem_reverse, List.mem_append, or_self] at hx
  exact ⟨x, hx, rfl⟩

end WageringProcessor
