import WageringProcessor.Invariants.Calls
import WageringProcessor.Runs

/-!
# Consuming the queue of commands

The queue delivers a message any number of times and to any number of workers.  A message is deleted
only once its command has been applied, and however often a command arrives it is applied once.
-/

namespace WageringProcessor

open Library.Interleaving Library.Table

variable {P : Platform} {i : Pid} {s s' : Shared} {c c' : Config Shared Proc} {d : Database}
  {a : Action} {messageId : String} {inp : Input} {stage stage' : ConsumeStage}
  {outcome : ConsumeOutcome} {nested : Option NestedSubmit}

/-! ## What holds of consumed messages -/

/-- The movements of the transactions that were submitted under `idempotencyKey`. -/
def Database.entriesOfKey (d : Database) (idempotencyKey : String) : List WalletLedgerEntry :=
  d.ledgerEntries.filter fun e => d.wagerTransactions.any fun t =>
    t.id = e.transactionId && t.idempotencyKey = idempotencyKey

structure ConsumedOnce (P : Platform) (c : Config Shared Proc) : Prop where
  deleted : ∀ messageId ∈ c.shared.deleted, Consume.Received c.shared.db messageId
  /-- The row of a message is committed before the step that deletes the message. -/
  deletes : ∀ i a c' messageId, next (step P) c i a = some c' → messageId ∈ c'.shared.deleted →
    messageId ∈ c.shared.deleted ∨ Consume.Received c.shared.db messageId
  processed : ∀ row ∈ c.shared.db.inboxMessages, row.isProcessed = true
  /-- The branch for a row that exists but is not processed is never taken. -/
  recovery : ∀ i messageId now inp c', c.procs i = .consume messageId (.findInbox now) →
    next (step P) c i (.step inp) = some c' →
      c'.procs i = .consume messageId (.claimInbox now) ∨
        c'.procs i = .consume messageId (.commit [] .duplicate none)
  backed : ∀ row ∈ c.shared.db.inboxMessages, ∃ cmd,
    parseWagerTransactionMessage P (P.messageBody row.messageId) = .ok cmd ∧
      ∃ t ∈ c.shared.db.wagerTransactions, t.idempotencyKey = cmd.idempotencyKey ∧
        t.payloadHash = cmd.payloadHash P
  /-- Of a call that did not acknowledge its message no step changed the database. -/
  unacknowledged : ∀ i messageId outcome nested,
    c.procs i = .consume messageId (.done outcome nested) → outcome.ack = false →
      ∀ c₀ a c₁, Reachable (step P) initial c₀ → next (step P) c₀ i a = some c₁ →
        Reachable (step P) c₁ c → c₁.shared.db = c₀.shared.db
  applied : ∀ idempotencyKey, (c.shared.db.entriesOfKey idempotencyKey).length ≤ 1
  /-- What was applied is never taken back or applied again. -/
  ledger : ∀ c', Reachable (step P) c c' →
    c.shared.db.ledgerEntries <+: c'.shared.db.ledgerEntries

/-! ## The effect of a key -/

theorem Consistent.entriesOfKey (h : Consistent P d) (idempotencyKey : String) :
    (d.entriesOfKey idempotencyKey).length ≤ 1 := by
  by_cases hex : ∃ t ∈ d.wagerTransactions, t.idempotencyKey = idempotencyKey
  · obtain ⟨t, ht, rfl⟩ := hex
    have hsame : d.entriesOfKey t.idempotencyKey = d.entriesOf t.id := by
      apply List.filter_congr
      intro e _
      rw [Bool.eq_iff_iff, List.any_eq_true, decide_eq_true_eq]
      constructor
      · rintro ⟨t', ht', heq⟩
        obtain ⟨hid, hkey⟩ : t'.id = e.transactionId ∧ t'.idempotencyKey = t.idempotencyKey := by
          simpa using heq
        rw [← hid, List.inj_on_of_nodup_map h.idempotencyKeys ht' ht hkey]
      · intro hid
        exact ⟨t, ht, by simp [hid]⟩
    rw [hsame]
    have hrow := h.rows t ht
    by_cases hmoves : Moves t
    · obtain ⟨e, hone, -⟩ := hrow.moved hmoves
      rw [hone]
      exact Nat.le_refl 1
    · rw [hrow.unmoved hmoves]
      exact Nat.zero_le 1
  · have hnone : d.entriesOfKey idempotencyKey = [] := by
      apply List.filter_eq_nil_iff.mpr
      intro e _ hany
      obtain ⟨t, ht, heq⟩ := List.any_eq_true.mp hany
      exact hex ⟨t, ht, by simpa using (Bool.and_eq_true_iff.mp heq).2⟩
    rw [hnone]
    exact Nat.zero_le 1

theorem Database.applyAll_ledger (ws : List Writes) (d : Database) :
    d.ledgerEntries <+: (d.applyAll ws).ledgerEntries := by
  induction ws generalizing d with
  | nil => exact List.prefix_refl _
  | cons w ws ih =>
    exact (List.prefix_append d.ledgerEntries w.ledgerEntries).trans (ih (d.apply w))

theorem Effect.ledger {p : Proc} (h : Effect P i s s' p) :
    s.db.ledgerEntries <+: s'.db.ledgerEntries := by
  cases h with
  | works h =>
    obtain ⟨ws, hdb, -⟩ := h.changes
    rw [hdb]
    exact Database.applyAll_ledger ws s.db
  | sends _ sent =>
    have hdb : s'.db = s.db := by rw [sent, PublishOutbox.send_db]
    exact hdb ▸ List.prefix_refl _
  | deletes _ _ deleted => exact deleted ▸ List.prefix_refl _

theorem reachable_ledger (h : Reachable (step P) initial c) (h' : Reachable (step P) c c') :
    c.shared.db.ledgerEntries <+: c'.shared.db.ledgerEntries := by
  induction h' with
  | init => exact List.prefix_refl _
  | step run _ moved ih => exact ih.trans (reachable_effect (Reach.trans h run) moved).ledger

/-! ## A step of a consumer -/

/-- A consumer writes by its commit alone. -/
theorem Consume.step_db (hp : Consume.Ok P (owns s i) s.db messageId stage)
    (hstep : Consume.step P messageId i inp s stage = some (s', stage')) :
    s'.db = s.db ∨ ∃ outcome nested, outcome.ack = true ∧ stage' = .delete outcome nested := by
  rcases (Consume.step_way hstep).db with hdb | ⟨writes, outcome, nested, rfl, -, rfl⟩
  · exact Or.inl hdb
  · have hack : outcome.ack = true := by
      cases hp with
      | duplicate => rfl
      | processed => rfl
    exact Or.inr ⟨outcome, nested, hack, rfl⟩

/-- The call has committed, so it acknowledges unless it crashes. -/
def Committed : Proc → Prop
  | .consume _ (.delete outcome _) | .consume _ (.done outcome _) => outcome.ack = true
  | .crashed => True
  | _ => False

theorem step_committed {p p' : Proc} (hp : Committed p)
    (hstep : step P i a s p = some (s', p')) : Committed p' := by
  cases step_way hstep with
  | fail running =>
    cases p with
    | consume messageId stage =>
      cases stage with
      | delete => trivial
      | done => cases running
      | _ => exact hp.elim
    | crashed => trivial
    | _ => exact hp.elim
  | crash => trivial
  | consume steps =>
    cases Consume.step_way steps with
    | deletes => exact hp
    | _ => exact hp.elim
  | start | openWallet | submit | submitted | reprocess | publishOutbox => exact hp.elim

/-- A step of a consumer that writes is its commit. -/
theorem consumer_writes (h : Reachable (step P) initial c)
    (hcall : c.procs i = .idle ∨ (c.procs i).call = some (.consume messageId))
    (hmoved : next (step P) c i a = some c') :
    c'.shared.db = c.shared.db ∨ Committed (c'.procs i) := by
  obtain ⟨hs, hprocs⟩ := reachable_ok h
  have hproc := hprocs i
  obtain ⟨s', p', hstep, rfl⟩ := next_eq_some.mp hmoved
  show s'.db = c.shared.db ∨ Committed (Function.update c.procs i p' i)
  rw [Function.update_self]
  generalize c.procs i = p at hstep hcall hproc
  cases step_way hstep with
  | start | fail | crash => exact Or.inl rfl
  | consume steps =>
    rcases Consume.step_db hproc steps with hdb | ⟨outcome, nested, hack, rfl⟩
    · exact Or.inl hdb
    · exact Or.inr hack
  | openWallet | submit | submitted | reprocess | publishOutbox => simp [Proc.call] at hcall

/-! ## Whole runs -/

theorem reachable_unacknowledged {c₀ c₁ : Config Shared Proc}
    (hp : c.procs i = .consume messageId (.done outcome nested)) (hack : outcome.ack = false)
    (h₀ : Reachable (step P) initial c₀) (hmoved : next (step P) c₀ i a = some c₁)
    (h₁ : Reachable (step P) c₁ c) : c₁.shared.db = c₀.shared.db := by
  have hcall : c₀.procs i = .idle ∨ (c₀.procs i).call = some (.consume messageId) := by
    have hafter := Reach.trans (.step .init trivial hmoved) h₁
    cases hk : (c₀.procs i).call with
    | some k =>
      rcases reachable_call hafter hk with hcrashed | hcall
      · rw [hp] at hcrashed
        cases hcrashed
      · rw [hp] at hcall
        exact Or.inr hcall.symm
    | none =>
      -- only an idle process has no call and takes a step
      obtain ⟨s', p', hstep, -⟩ := next_eq_some.mp hmoved
      refine Or.inl ((step_running hstep).resolve_right fun hrunning => ?_)
      generalize c₀.procs i = p at hk hrunning
      cases p with
      | idle | crashed => cases hrunning
      | _ => cases hk
  rcases consumer_writes h₀ hcall hmoved with hdb | hcommitted
  · exact hdb
  · have hstays : Committed (c.procs i) :=
      h₁.procInvariant hcommitted fun _ _ _ _ _ hq hstep => step_committed hq hstep
    rw [hp] at hstays
    exact absurd (hack.symm.trans hstays) Bool.false_ne_true

theorem step_recovery (h : Reachable (step P) initial c) {now : Date}
    (hp : c.procs i = .consume messageId (.findInbox now))
    (hmoved : next (step P) c i (.step inp) = some c') :
    c'.procs i = .consume messageId (.claimInbox now) ∨
      c'.procs i = .consume messageId (.commit [] .duplicate none) := by
  obtain ⟨s', p', hstep, rfl⟩ := next_eq_some.mp hmoved
  show Function.update c.procs i p' i = _ ∨ Function.update c.procs i p' i = _
  rw [Function.update_self]
  rw [hp] at hstep
  obtain ⟨⟨s₁, stage'⟩, hinner, hout⟩ := Option.map_eq_some_iff.mp hstep
  obtain ⟨rfl, rfl⟩ := Prod.mk.inj hout
  cases Consume.step_way hinner with
  | missing => exact Or.inl rfl
  | duplicate => exact Or.inr rfl
  | unprocessed found processed =>
    -- a committed row is processed
    have hprocessed := ((reachable_consistent h).inbox _ (lookup_mem found).1).processed
    exact absurd (hprocessed.symm.trans processed) (by decide)

theorem step_deletes (h : Reachable (step P) initial c)
    (hmoved : next (step P) c i a = some c') (hdeleted : messageId ∈ c'.shared.deleted) :
    messageId ∈ c.shared.deleted ∨ Consume.Received c.shared.db messageId := by
  cases reachable_effect h hmoved with
  | works h => exact Or.inl (h.deleted ▸ hdeleted)
  | sends _ sent =>
    rw [sent, PublishOutbox.send_deleted] at hdeleted
    exact Or.inl hdeleted
  | deletes messageId' received deleted =>
    rw [deleted] at hdeleted
    rcases List.mem_cons.mp hdeleted with rfl | hold
    · exact Or.inr received
    · exact Or.inl hold

/-- In every reachable state what was acknowledged was applied, and nothing was applied twice. -/
theorem reachable_consumedOnce (h : Reachable (step P) initial c) : ConsumedOnce P c where
  deleted := (reachable_ok h).1.deleted
  deletes _ _ _ _ hmoved hdeleted := step_deletes h hmoved hdeleted
  processed row hrow := ((reachable_consistent h).inbox row hrow).processed
  recovery _ _ _ _ _ hp hmoved := step_recovery h hp hmoved
  backed row hrow := ((reachable_consistent h).inbox row hrow).backed
  unacknowledged _ _ _ _ hp hack _ _ _ h₀ hmoved h₁ := reachable_unacknowledged hp hack h₀ hmoved h₁
  applied := (reachable_consistent h).entriesOfKey
  ledger _ h' := reachable_ledger h h'

/-- A bet arrives in a message that is delivered twice and in a direct call as well; another message
names a wallet that does not exist. -/
def consumeAndSubmit : List (Pid × Action) :=
  runCall 0 (.openWallet openCommand) 1 6 ++
    runCall 1 (.consume "message-1") 7 13 ++ runCall 2 (.consume "message-1") 20 4 ++
      runCall 3 (.consume "message-2") 24 7 ++
        runCall 4 (.submit (submitCommand .bet "bet-1" none (uuidText 10))) 31 5

theorem consumeAndSubmit_consumedOnce : ∃ c, Reachable (step localPlatform) initial c ∧
    c.shared.deleted = ["message-1", "message-1"] ∧
      (c.shared.db.entriesOfKey "key-bet-1").length = 1 ∧
        c.procs 3 = .consume "message-2"
          (.done (.error (.domain (.walletNotFound (uuidText 99)))) none) ∧
          ConsumedOnce localPlatform c := by
  have hrun : (exec (step localPlatform) initial consumeAndSubmit).any (fun c =>
      decide (c.shared.deleted = ["message-1", "message-1"]) &&
        decide ((c.shared.db.entriesOfKey "key-bet-1").length = 1) &&
          decide (c.procs 3 = .consume "message-2"
            (.done (.error (.domain (.walletNotFound (uuidText 99)))) none))) = true := by
    decide +kernel
  obtain ⟨c, hreach, hp⟩ := reachable_of_any hrun
  simp only [Bool.and_eq_true, decide_eq_true_eq] at hp
  obtain ⟨⟨hdeleted, hentries⟩, hfailed⟩ := hp
  exact ⟨c, hreach, hdeleted, hentries, hfailed, reachable_consumedOnce hreach⟩

end WageringProcessor
