import WageringProcessor.Invariants.Finalizing
import WageringProcessor.Invariants.Retrying
import WageringProcessor.Runs

/-!
# A waiting reference is retried, at most ten times

From the commit that parks a row, every change of the row is a committed pick of a reprocess
run. -/

namespace WageringProcessor

open Library.Chain Library.Interleaving Library.Table WagerTransactionFinalizer

variable {P : Platform} {i : Pid} {a : Action} {c c' : Config Shared Proc} {D : Prop} {id : Id}
  {t t' : WagerTransaction} {p : Pick} {ps : List Pick}

/-! ## The first parking -/

/-- `t` waits since its submit, which set its first retry. -/
structure FirstParked (t : WagerTransaction) : Prop where
  waits : t.status = .pendingReference
  attempts : t.referenceRetryAttempts = 1
  scheduled : t.nextReferenceRetryAt = some (t.createdAt + computeReferenceBackoffMs 0)

/-- A waiting row is written for the first time, or is in the database. -/
def ParksFirst (d : Database) (w : Writes) : Prop :=
  ∀ t ∈ w.wagerTransactions, t.status = .pendingReference →
    FirstParked t ∨ ∃ x ∈ d.wagerTransactions, x.id = t.id

theorem Submit.decide_parksFirst {d : Database} {wallet : Wallet} {tx : WagerTransaction}
    {ctx : EventContext} {resolution : Option ReferenceResolution} {newId : Nat → Id}
    {out : WagerTransaction × Wallet × Writes}
    (hcreated : tx = ⟨tx.toCreateWagerTransactionProps, .pending, none, none, none, 0, none⟩)
    (htimed : ctx.now = tx.createdAt)
    (hout : Submit.decide P wallet tx ctx resolution newId = .ok out) :
    ParksFirst d out.2.2 := by
  have hopen : tx.isTerminal = false := by
    rw [hcreated]
    rfl
  have hrow := Submit.decide_row hopen hout
  intro t ht hwaits
  obtain rfl := hrow.mem ht
  have heffect : ∀ reference, applyEffect P tx wallet reference ctx newId = .ok out →
      out.1.status ≠ .pendingReference := by
    intro reference happly
    cases applyEffect_cases hopen happly with
    | lost | moved => exact nofun
    | rejected _ _ _ _ hreject =>
      rw [(reject_row hopen hreject).2]
      exact nofun
  match resolution, hout with
  | none, hout => exact absurd hwaits (heffect none hout)
  | some (.resolved b), hout => exact absurd hwaits (heffect (some b) hout)
  | some (.rejected code), hout =>
    obtain ⟨out', hreject, hout⟩ := ok_of_bind hout
    obtain rfl := Except.ok.inj hout
    rw [(reject_row hopen hreject).2] at hwaits
    cases hwaits
  | some .pending, hout =>
    obtain ⟨out', hmark, hout⟩ := ok_of_bind hout
    obtain rfl := Except.ok.inj hout
    left
    have hattempts : tx.referenceRetryAttempts = 0 := by rw [hcreated]
    rw [(markPendingReference_row hopen hmark).2]
    refine ⟨rfl, ?_, ?_⟩
    · show tx.referenceRetryAttempts + 1 = 1
      rw [hattempts]
    · show some (ctx.now + computeReferenceBackoffMs tx.referenceRetryAttempts) =
        some (tx.createdAt + computeReferenceBackoffMs 0)
      rw [hattempts, htimed]

/-- The decision of a run is on a row of the database. -/
theorem picked_row (h : Reachable (step P) initial c) {batchSize : Nat}
    {stage : ReprocessStage} {run : ReprocessRun} {tx : WagerTransaction}
    {rest : List WagerTransaction} (hp : c.procs i = .reprocess batchSize stage)
    (hrun : stage.run? = some run)
    (hok : Reprocess.RunOk P (owns c.shared i) c.shared.db run (tx :: rest)) :
    ∃ x ∈ c.shared.db.wagerTransactions, x.id = tx.id := by
  have hretrying := reachable_retrying h tx.id i
  rw [hp] at hretrying
  obtain ⟨done, hbatch, -⟩ := hok.decided
  have htx : tx ∈ run.batch := by
    rw [hbatch]
    exact List.mem_append_right _ List.mem_cons_self
  exact ⟨tx, ((hretrying.2 run hrun).picked tx htx rfl).1, rfl⟩

theorem reachable_parksFirst (h : Reachable (step P) initial c) :
    ∀ w ∈ (c.procs i).writes, ParksFirst c.shared.db w := by
  refine (reach_written (D := fun _ => True) (Q := ParksFirst) trivial ?_ (fun _ _ _ _ _ => trivial)
    ?_ h).2 i
  · intro d d' w hframe hfirst t ht hwaits
    rcases hfirst t ht hwaits with hfirst | ⟨x, hx, hid⟩
    · exact Or.inl hfirst
    · obtain ⟨x', hx', hprops⟩ := hframe.rows x hx
      exact Or.inr ⟨x', hx', (congrArg CreateWagerTransactionProps.id hprops).trans hid⟩
  · intro c i inp w hreach _ _ _ hemits
    have hprocs := (reachable_ok hreach).2 i
    cases hemits with
    | claim stage writes =>
      intro t ht hwaits
      obtain ⟨hready, -⟩ := stage.ok hprocs
      rw [writes] at ht
      obtain rfl := List.mem_singleton.mp ht
      rw [hready.claimed.created] at hwaits
      cases hwaits
    | decision stage decided writes =>
      obtain ⟨hready, -⟩ := stage.ok hprocs
      rw [writes]
      exact Submit.decide_parksFirst hready.claimed.created (reachable_timed hreach stage) decided
    | retry stage code decided =>
      rw [stage] at hprocs
      have hopen := not_terminal_of_pendingReference hprocs.1.head.status
      obtain ⟨hrow, -, -⟩ := Reprocess.decide_row hopen decided
      intro t ht _
      obtain rfl := hrow.mem ht
      obtain ⟨x, hx, hid⟩ := picked_row hreach stage rfl hprocs.1
      exact Or.inr ⟨x, hx, hid.trans (congrArg CreateWagerTransactionProps.id hrow.props).symm⟩
    | reversal stage applied writes =>
      rw [stage] at hprocs
      have hrow := applyEffect_row (not_terminal_of_pendingReference hprocs.1.head.status) applied
      intro t ht _
      rw [writes] at ht
      obtain rfl := hrow.mem ht
      obtain ⟨x, hx, hid⟩ := picked_row hreach stage rfl hprocs.1
      exact Or.inr ⟨x, hx, hid.trans (congrArg CreateWagerTransactionProps.id hrow.props).symm⟩
    | opens stage writes =>
      intro t ht
      rw [writes] at ht
      cases ht
    | opensWith stage moved writes =>
      intro t ht hwaits
      rcases writes with rfl | rfl
      · cases ht
      · rw [stage] at hprocs
        obtain rfl := List.mem_singleton.mp ht
        have hcreated := hprocs.1.created
        rw [hcreated] at hwaits
        cases hwaits
    | queues wallets rows entries =>
      intro t ht
      rw [rows] at ht
      cases ht

/-- A row that becomes PENDING_REFERENCE has been parked once. -/
theorem becomes_firstParked (h : Reachable (step P) initial c)
    (hmoved : next (step P) c i a = some c')
    (hbefore : ∀ x ∈ c.shared.db.wagerTransactions, x.id = t.id → x.status ≠ .pendingReference)
    (hrow : t ∈ c'.shared.db.wagerTransactions) (hwaits : t.status = .pendingReference) :
    FirstParked t := by
  have hc := reachable_consistent h
  have hc' := reachable_consistent (.step h trivial hmoved)
  rcases step_writes (next_self hmoved) with ⟨-, -, hshared, -⟩ | ⟨hdb, -⟩
  · rw [hshared] at hrow
    rcases Database.mem_transactions_applyAll hrow with ht | ⟨w, hw, ht⟩
    · exact absurd hwaits (hbefore t ht rfl)
    · rcases reachable_parksFirst h w hw t ht hwaits with hfirst | ⟨x, hx, hid⟩
      · exact hfirst
      · -- an earlier row with this id has settled, so it is still there
        have hsettled : x.isTerminal = true := by
          rcases (hc.rows x hx).lifecycle with hlife | hlife | hlife
          · exact absurd hlife.status (hbefore x hx hid)
          · exact WagerTransaction.isTerminal_iff.mpr (Or.inl hlife.status)
          · exact WagerTransaction.isTerminal_iff.mpr (Or.inr (Or.inl hlife.status))
        have hx' := ((reachable_effect h hmoved).history hc).terminal x hx hsettled
        rw [hshared] at hc' hx'
        obtain rfl : x = t := List.inj_on_of_nodup_map hc'.transactionIds hx' hrow hid
        rw [not_terminal_of_pendingReference hwaits] at hsettled
        cases hsettled
  · rw [hdb] at hrow
    exact absurd hwaits (hbefore t hrow rfl)

/-- No run has picked a row that is not waiting. -/
theorem unpicked (h : Reachable (step P) initial c)
    (hbefore : ∀ x ∈ c.shared.db.wagerTransactions, x.id = id → x.status ≠ .pendingReference)
    {run : ReprocessRun} (hrun : (c.procs i).run? = some run) : ∀ tx ∈ run.batch, tx.id ≠ id := by
  intro tx htx hid
  cases hp : c.procs i with
  | reprocess batchSize stage =>
    have hretrying := reachable_retrying h id i
    rw [hp] at hrun hretrying
    obtain ⟨hmem, hdue⟩ := (hretrying.2 run hrun).picked tx htx hid
    simp only [Database.duePendingReference, Bool.and_eq_true, decide_eq_true_eq] at hdue
    exact hbefore tx hmem hid hdue.1
  | _ =>
    rw [hp] at hrun
    cases hrun

/-- The step that parks the row leaves it to runs that begin later. -/
theorem becomes_unpicked (h : Reachable (step P) initial c)
    (hmoved : next (step P) c i a = some c')
    (hbefore : ∀ x ∈ c.shared.db.wagerTransactions, x.id = t.id → x.status ≠ .pendingReference)
    (hrow : t ∈ c'.shared.db.wagerTransactions) (hwaits : t.status = .pendingReference) (j : Pid) :
    Retrying D t.id c'.shared.db (c'.procs j) := by
  cases hp : c'.procs j with
  | reprocess batchSize stage =>
    have h' : Reachable (step P) initial c' := .step h trivial hmoved
    have hunpicked : ∀ run, stage.run? = some run → ∀ tx ∈ run.batch, tx.id ≠ t.id := by
      intro run hrun
      by_cases hij : j = i
      · subst hij
        have hstep := next_self hmoved
        rw [hp] at hstep
        rcases step_reprocess hstep with rfl | rfl | ⟨inp, stage₀, rfl, -, hinner⟩
        · cases hrun
        · cases hrun
        · rcases Reprocess.step_writes hinner with ⟨run₀, rfl, -, -⟩ | hwriting
          · obtain ⟨-, rfl⟩ := Prod.mk.inj (Option.some.inj hinner)
            cases hrun
          · rw [hwriting.db] at hrow
            exact absurd hwaits (hbefore t hrow rfl)
      · have hrun' : (c.procs j).run? = some run := by
          rw [← next_other hmoved hij, hp]
          exact hrun
        exact unpicked h hbefore hrun'
    have hretrying := reachable_retrying h' t.id j
    have hok := (reachable_ok h').2 j
    rw [hp] at hretrying hok
    refine ⟨?_, fun run hrun => ⟨fun tx htx hid => ?_, fun tx htx hid => ?_⟩⟩
    · cases stage with
      | applyEffect run tx ctx wallet reference rest =>
        refine ⟨hretrying.1.1, fun hid => absurd hid (hunpicked run rfl tx ?_)⟩
        obtain ⟨done, hbatch, -⟩ := hok.1.decided
        rw [hbatch]
        exact List.mem_append_right _ List.mem_cons_self
      | _ => exact hretrying.1
    · exact absurd hid (hunpicked run hrun tx htx)
    · exact absurd hid (hunpicked run hrun tx htx)
  | _ => trivial

/-! ## From one pick to the next -/

structure Due (now : Date) (t : WagerTransaction) : Prop where
  waits : t.status = .pendingReference
  scheduled : ∃ next, t.nextReferenceRetryAt = some next ∧ next ≤ now

theorem Consistent.due {d : Database} {now : Date} (hc : Consistent P d)
    (ht : t ∈ d.wagerTransactions) (hdue : Database.duePendingReference now t = true) :
    Due now t := by
  simp only [Database.duePendingReference, Bool.and_eq_true, decide_eq_true_eq] at hdue
  obtain ⟨next, hnext⟩ := Option.isSome_iff_exists.mp
    (Waiting.unsettled hdue.1 (hc.rows t ht).lifecycle).scheduled
  rw [hnext] at hdue
  exact ⟨hdue.1, next, hnext, of_decide_eq_true hdue.2⟩

/-- A pick finds the row due and leaves one of the rows that a run may leave of it. -/
structure Pick.Made (D : Prop) (p : Pick) : Prop where
  due : Due p.now p.seen
  tried : ∃ t, p.left = some t ∧ Tried D p.now p.seen t

/-- The picks `ps` lead from the row `t` to the row `t'`, each from what the one before it left. -/
structure Tries (D : Prop) (t : WagerTransaction) (ps : List Pick) (t' : WagerTransaction) :
    Prop where
  linked : Linked (fun p => some p.seen) Pick.left (some t) ps (some t')
  made : ∀ p ∈ ps, p.Made D

theorem Tries.refl (D : Prop) (t : WagerTransaction) : Tries D t [] t :=
  ⟨rfl, fun _ hp => absurd hp List.not_mem_nil⟩

theorem Tries.nil (h : Tries D t [] t') : t' = t := (Option.some.inj h.linked).symm

theorem Tries.cons (h : Tries D t (p :: ps) t') :
    t.status = .pendingReference ∧
      ∃ t₁, p.left = some t₁ ∧ Tried D p.now t t₁ ∧ Tries D t₁ ps t' := by
  obtain ⟨hseen, hrest⟩ := h.linked
  have hmade := h.made p List.mem_cons_self
  obtain ⟨t₁, hleft, htried⟩ := hmade.tried
  obtain rfl : p.seen = t := Option.some.inj hseen
  rw [hleft] at hrest
  exact ⟨hmade.due.waits, t₁, hleft, htried, hrest, fun q hq =>
    h.made q (List.mem_cons_of_mem p hq)⟩

/-- A settled row is not picked. -/
theorem Tries.settled (h : Tries D t ps t') (hterminal : t.isTerminal = true) :
    ps = [] ∧ t' = t := by
  cases ps with
  | nil => exact ⟨rfl, h.nil⟩
  | cons p ps =>
    rw [not_terminal_of_pendingReference h.cons.1] at hterminal
    cases hterminal

/-- A waiting row has seen one more attempt with every pick, and settles before the eleventh. -/
theorem Tries.counted (h : Tries D t ps t') (hwaits : t.status = .pendingReference)
    (hattempts : t.referenceRetryAttempts ≤ MAX_REFERENCE_RETRY_ATTEMPTS) :
    (t'.status = .pendingReference ∧
        t'.referenceRetryAttempts = t.referenceRetryAttempts + ps.length ∧
        t'.referenceRetryAttempts ≤ MAX_REFERENCE_RETRY_ATTEMPTS) ∨
      (t'.isTerminal = true ∧
        t.referenceRetryAttempts + ps.length ≤ MAX_REFERENCE_RETRY_ATTEMPTS + 1) := by
  induction ps generalizing t with
  | nil =>
    rw [h.nil]
    exact Or.inl ⟨hwaits, rfl, hattempts⟩
  | cons p ps ih =>
    obtain ⟨-, t₁, -, htried, hrest⟩ := h.cons
    have hsettled : t₁.isTerminal = true → t'.isTerminal = true ∧
        t.referenceRetryAttempts + (p :: ps).length ≤ MAX_REFERENCE_RETRY_ATTEMPTS + 1 := by
      intro hterminal
      obtain ⟨rfl, rfl⟩ := hrest.settled hterminal
      exact ⟨hterminal, Nat.add_le_add_right hattempts 1⟩
    rw [List.length_cons] at hsettled ⊢
    cases htried with
    | waits again =>
      have hnext := ih hrest rfl again
      rw [show (parkedTransaction t p.now).referenceRetryAttempts =
        t.referenceRetryAttempts + 1 from rfl] at hnext
      rcases hnext with ⟨hstill, hcount, hless⟩ | ⟨hterminal, hless⟩
      · exact Or.inl ⟨hstill, by omega, hless⟩
      · exact Or.inr ⟨hterminal, by omega⟩
    | timesOut spent => exact Or.inr (hsettled rfl)
    | decides found terminal => exact Or.inr (hsettled terminal)

/-! ## The delays -/

/-- The time from `now` to the next retry of a row. -/
def delay (now : Date) (t : WagerTransaction) : Nat := t.nextReferenceRetryAt.getD now - now

/-- The delays that picks set. -/
def delays (ps : List Pick) : List Nat :=
  ps.filterMap fun p => (p.left.filter (·.status = .pendingReference)).map (delay p.now)

theorem delay_parked (t : WagerTransaction) (now : Date) :
    delay now (parkedTransaction t now) = computeReferenceBackoffMs t.referenceRetryAttempts :=
  Nat.add_sub_cancel_left now _

theorem Tries.delays (h : Tries D t ps t') (hwaits : t.status = .pendingReference) :
    (∀ x ∈ delays ps, computeReferenceBackoffMs t.referenceRetryAttempts ≤ x) ∧
      (delays ps).Pairwise (· ≤ ·) := by
  induction ps generalizing t with
  | nil => exact ⟨nofun, .nil⟩
  | cons p ps ih =>
    obtain ⟨-, t₁, hleft, htried, hrest⟩ := h.cons
    have hsettled : t₁.isTerminal = true → WageringProcessor.delays (p :: ps) = [] := by
      intro hterminal
      obtain ⟨rfl, -⟩ := hrest.settled hterminal
      have hstatus : t₁.status ≠ .pendingReference := by
        intro hwaits
        rw [not_terminal_of_pendingReference hwaits] at hterminal
        cases hterminal
      unfold WageringProcessor.delays
      rw [List.filterMap_cons_none]
      · rfl
      · rw [hleft, Option.filter_some_neg (by simpa using hstatus)]
        rfl
    cases htried with
    | waits again =>
      obtain ⟨hless, hsorted⟩ := ih hrest rfl
      have hdelays : WageringProcessor.delays (p :: ps) =
          computeReferenceBackoffMs t.referenceRetryAttempts :: WageringProcessor.delays ps := by
        unfold WageringProcessor.delays
        rw [List.filterMap_cons_some (b := delay p.now (parkedTransaction t p.now)), delay_parked]
        rw [hleft]
        rfl
      have hmore : ∀ x ∈ WageringProcessor.delays ps,
          computeReferenceBackoffMs t.referenceRetryAttempts ≤ x :=
        fun x hx => (computeReferenceBackoffMs_mono (Nat.le_succ _)).trans (hless x hx)
      rw [hdelays]
      refine ⟨fun x hx => ?_, List.pairwise_cons.mpr ⟨hmore, hsorted⟩⟩
      rcases List.mem_cons.mp hx with rfl | hx
      · exact Nat.le_refl _
      · exact hmore x hx
    | timesOut spent =>
      rw [hsettled rfl]
      exact ⟨nofun, .nil⟩
    | decides found terminal =>
      rw [hsettled terminal]
      exact ⟨nofun, .nil⟩

/-! ## Runs -/

theorem watched_tries {ok : Config Shared Proc → Pid → Action → Prop} {c₁ : Config Shared Proc}
    (hok : ∀ c i a, ok c i a → D ∨ Undecided t.id c i a) (h₁ : Reachable (step P) initial c₁)
    (hstart : ∀ i, Retrying D t.id c₁.shared.db (c₁.procs i))
    (hrow : t ∈ c₁.shared.db.wagerTransactions)
    (h : Watched (step P) ok (picks t.id) c₁ c ps) :
    ∃ t' ∈ c.shared.db.wagerTransactions, t'.id = t.id ∧ Tries D t ps t' := by
  refine h.invariant (P := fun c ps =>
    ∃ t' ∈ c.shared.db.wagerTransactions, t'.id = t.id ∧ Tries D t ps t') ?_ ?_
  · exact ⟨t, hrow, rfl, .refl D t⟩
  · intro c i a c' ps hreach ⟨t', ht', hid, htries⟩ _ hmoved
    have hreachable := Reach.trans h₁ hreach.reachable
    have hretrying := reach_retrying hok h₁ hstart hreach i
    rcases picks_cases hreachable hretrying hmoved with ⟨hnone, hstays⟩ | ⟨p, t'', hone, hpicked⟩
    · rw [hnone, List.append_nil]
      exact ⟨t', hstays t' ht' hid, hid, htries⟩
    · rw [hone]
      have hseen : p.seen = t' :=
        List.inj_on_of_nodup_map (reachable_consistent hreachable).transactionIds hpicked.seen ht'
          (hpicked.seenId.trans hid.symm)
      refine ⟨t'', hpicked.row, hpicked.rowId, ?_, fun q hq => ?_⟩
      · rw [← hpicked.left]
        exact htries.linked.concat (congrArg some hseen)
      · rcases List.mem_append.mp hq with hq | hq
        · exact htries.made q hq
        · rw [List.mem_singleton.mp hq]
          exact ⟨(reachable_consistent hreachable).due hpicked.seen hpicked.due, t'', hpicked.left,
            hpicked.tried⟩

/-- What the runs after the commit that parked `t` have made of it: `ps` are the committed picks. -/
structure Retried (t : WagerTransaction) (ps : List Pick) (c : Config Shared Proc) : Prop where
  /-- Each pick sees what the one before it left, and nothing else changes the row. -/
  linked : Linked (fun p => some p.seen) Pick.left (some t) ps
    (c.shared.db.findWagerTransaction t.id)
  /-- A pick settles the row, or counts one more attempt and sets a later retry. -/
  outcome : ∀ p ∈ ps, ∃ t', p.left = some t' ∧ (t'.isTerminal = true ∨
    (t'.status = .pendingReference ∧
      t'.referenceRetryAttempts = p.seen.referenceRetryAttempts + 1 ∧
        ∃ next, t'.nextReferenceRetryAt = some next ∧ p.now < next))
  /-- No run, whether it commits or not, picks the row before its next retry. -/
  due : ∀ i run, (c.procs i).run? = some run → ∀ tx ∈ run.batch, tx.id = t.id →
    c.shared.db.findWagerTransaction t.id = some tx ∧ Due run.now tx
  committedDue : ∀ p ∈ ps, Due p.now p.seen
  first : t.referenceRetryAttempts = 1 ∧
    ∃ next, t.nextReferenceRetryAt = some next ∧ t.createdAt < next
  delays : (delay t.createdAt t :: delays ps).Pairwise (· ≤ ·)
  bounded : ps.length ≤ 10
  settled : ps.length = 10 →
    ∃ t', c.shared.db.findWagerTransaction t.id = some t' ∧ t'.isTerminal = true

def EventData.isPendingReference : EventData → Bool
  | .wagerTransactionPendingReference _ _ => true
  | _ => false

structure TimedOut (t : WagerTransaction) : Prop where
  status : t.status = .rejected
  failureCode : t.failureCode = some .referenceResolutionTimeout

/-- What they have made of it when no pick found its reference decided. -/
structure OnlyTimesOut (t : WagerTransaction) (ps : List Pick) (d : Database) : Prop where
  last : ∀ p ∈ ps, p.seen.referenceRetryAttempts = 10 → ∃ t', p.left = some t' ∧ TimedOut t'
  settled : ∀ t', d.findWagerTransaction t.id = some t' → t'.isTerminal = true →
    TimedOut t' ∧ (d.eventsOf t.id).countP (·.isPendingReference) = 10 ∧
      ∃ p ∈ ps, p.seen.referenceRetryAttempts = 10 ∧ p.left = some t'

theorem Tries.retried (h : Tries D t ps t') (hfirst : FirstParked t)
    (hfind : c.shared.db.findWagerTransaction t.id = some t')
    (hdue : ∀ i run, (c.procs i).run? = some run → ∀ tx ∈ run.batch, tx.id = t.id →
      c.shared.db.findWagerTransaction t.id = some tx ∧ Due run.now tx) : Retried t ps c := by
  have hattempts : t.referenceRetryAttempts ≤ MAX_REFERENCE_RETRY_ATTEMPTS := by
    rw [hfirst.attempts]
    decide
  have hcounted := h.counted hfirst.waits hattempts
  rw [hfirst.attempts] at hcounted
  have hmax : MAX_REFERENCE_RETRY_ATTEMPTS = 10 := rfl
  refine ⟨hfind ▸ h.linked, fun p hp => ?_, hdue, fun p hp => (h.made p hp).due, ?_, ?_, ?_, ?_⟩
  · obtain ⟨t₁, hleft, htried⟩ := (h.made p hp).tried
    refine ⟨t₁, hleft, ?_⟩
    cases htried with
    | waits again =>
      have hpos := computeReferenceBackoffMs_pos p.seen.referenceRetryAttempts
      exact Or.inr ⟨rfl, rfl, _, rfl, Nat.lt_add_of_pos_right hpos⟩
    | timesOut spent => exact Or.inl rfl
    | decides found terminal => exact Or.inl terminal
  · have hpos := computeReferenceBackoffMs_pos 0
    exact ⟨hfirst.attempts, _, hfirst.scheduled, Nat.lt_add_of_pos_right hpos⟩
  · obtain ⟨hless, hsorted⟩ := h.delays hfirst.waits
    refine List.pairwise_cons.mpr ⟨fun x hx => ?_, hsorted⟩
    have hdelay : delay t.createdAt t = computeReferenceBackoffMs 0 := by
      unfold delay
      rw [hfirst.scheduled]
      exact Nat.add_sub_cancel_left _ _
    rw [hdelay]
    exact (computeReferenceBackoffMs_mono (Nat.zero_le _)).trans (hless x hx)
  · rcases hcounted with ⟨-, hcount, hless⟩ | ⟨-, hless⟩ <;> omega
  · intro hten
    refine ⟨t', hfind, ?_⟩
    rcases hcounted with ⟨-, hcount, hless⟩ | ⟨hterminal, -⟩
    · omega
    · exact hterminal

/-- The pending events of a row are as many as its attempts. -/
theorem Consistent.pendingEvents {d : Database} (hc : Consistent P d)
    (ht : t ∈ d.wagerTransactions) :
    (d.eventsOf t.id).countP (·.isPendingReference) = t.referenceRetryAttempts := by
  obtain ⟨parked, final, hevents, hlength, hparked, hfinal⟩ := (hc.rows t ht).history
  have hall : parked.countP (·.isPendingReference) = parked.length := by
    rw [List.countP_eq_length]
    intro e he
    obtain ⟨data, -, rfl⟩ := hparked e he
    rfl
  have hnone : final.countP (·.isPendingReference) = 0 := by
    rw [List.countP_eq_zero]
    intro e he
    cases hfinal with
    | waiting => cases he
    | rejected | lost =>
      rw [List.mem_singleton.mp he]
      exact Bool.false_ne_true
    | moved =>
      rcases List.mem_cons.mp he with rfl | he
      · exact Bool.false_ne_true
      · rw [List.mem_singleton.mp he]
        exact Bool.false_ne_true
  rw [hevents, List.countP_append, hall, hnone, hlength, Nat.add_zero]

theorem Tries.onlyTimesOut {d : Database} (h : Tries False t ps t')
    (hwaits : t.status = .pendingReference) (hc : Consistent P d)
    (ht' : t' ∈ d.wagerTransactions) (hid : t'.id = t.id) : OnlyTimesOut t ps d := by
  have hfind : d.findWagerTransaction t.id = some t' := by
    rw [← hid]
    exact lookup_of_mem hc.transactionIds ht'
  constructor
  · intro p hp hspent
    obtain ⟨t₁, hleft, htried⟩ := (h.made p hp).tried
    refine ⟨t₁, hleft, ?_⟩
    cases htried with
    | waits again =>
      rw [hspent] at again
      exact absurd again (by decide)
    | timesOut spent => exact ⟨rfl, rfl⟩
    | decides found => exact found.elim
  · intro x hx hterminal
    obtain rfl : t' = x := Option.some.inj (hfind.symm.trans hx)
    have hlast : ∃ p, ps.getLast? = some p := by
      cases hps : ps.getLast? with
      | some p => exact ⟨p, rfl⟩
      | none =>
        obtain rfl := List.getLast?_eq_none_iff.mp hps
        rw [h.nil, not_terminal_of_pendingReference hwaits] at hterminal
        cases hterminal
    obtain ⟨p, hp⟩ := hlast
    have hmem := List.mem_of_getLast? hp
    have hleft := h.linked.getLast hp
    obtain ⟨t₁, hleft₁, htried⟩ := (h.made p hmem).tried
    obtain rfl : t₁ = t' := Option.some.inj (hleft₁.symm.trans hleft)
    have hless := (hc.rows _ ht').attempts
    cases htried with
    | waits again => cases hterminal
    | timesOut spent =>
      have hten : p.seen.referenceRetryAttempts = 10 := Nat.le_antisymm hless spent
      refine ⟨⟨rfl, rfl⟩, ?_, p, hmem, hten, hleft⟩
      rw [← hid, hc.pendingEvents ht']
      exact hten
    | decides found => exact found.elim

/-- From the commit at which a row becomes PENDING_REFERENCE, reprocess runs retry it at most ten
times and never early, and if they never find its reference decided it ends by the timeout. -/
theorem pendingReference_retried {c₀ c₁ : Config Shared Proc} {i : Pid} {a : Action}
    (h₀ : Reachable (step P) initial c₀) (hmoved : next (step P) c₀ i a = some c₁)
    (hbefore : ∀ x ∈ c₀.shared.db.wagerTransactions, x.id = t.id → x.status ≠ .pendingReference)
    (hrow : t ∈ c₁.shared.db.wagerTransactions) (hwaits : t.status = .pendingReference) :
    (∀ c ps, Watched (step P) (fun _ _ _ => True) (picks t.id) c₁ c ps → Retried t ps c) ∧
      ∀ c ps, Watched (step P) (Undecided t.id) (picks t.id) c₁ c ps →
        Retried t ps c ∧ OnlyTimesOut t ps c.shared.db := by
  have h₁ : Reachable (step P) initial c₁ := .step h₀ trivial hmoved
  have hfirst := becomes_firstParked h₀ hmoved hbefore hrow hwaits
  have hdue : ∀ c, Reachable (step P) initial c → ∀ i run, (c.procs i).run? = some run →
      ∀ tx ∈ run.batch, tx.id = t.id →
        c.shared.db.findWagerTransaction t.id = some tx ∧ Due run.now tx := by
    intro c hreach i run hrun tx htx hid
    have hc := reachable_consistent hreach
    have hretrying := reachable_retrying hreach t.id i
    cases hp : c.procs i with
    | reprocess batchSize stage =>
      rw [hp] at hrun hretrying
      obtain ⟨hmem, hdue⟩ := (hretrying.2 run hrun).picked tx htx hid
      refine ⟨?_, hc.due hmem hdue⟩
      rw [← hid]
      exact lookup_of_mem hc.transactionIds hmem
    | _ =>
      rw [hp] at hrun
      cases hrun
  have hretried : ∀ {D : Prop} {ok : Config Shared Proc → Pid → Action → Prop}
      {c : Config Shared Proc} {ps : List Pick}, (∀ c i a, ok c i a → D ∨ Undecided t.id c i a) →
      Watched (step P) ok (picks t.id) c₁ c ps → Retried t ps c ∧
        ∃ t' ∈ c.shared.db.wagerTransactions, t'.id = t.id ∧ Tries D t ps t' := by
    intro D ok c ps hok hwatched
    have hreach := Reach.trans h₁ hwatched.reach.reachable
    obtain ⟨t', ht', hid, htries⟩ := watched_tries hok h₁
      (becomes_unpicked h₀ hmoved hbefore hrow hwaits) hrow hwatched
    refine ⟨htries.retried hfirst ?_ (hdue c hreach), t', ht', hid, htries⟩
    rw [← hid]
    exact lookup_of_mem (reachable_consistent hreach).transactionIds ht'
  constructor
  · intro c ps hwatched
    exact (hretried (D := True) (fun _ _ _ _ => Or.inl trivial) hwatched).1
  · intro c ps hwatched
    obtain ⟨hall, t', ht', hid, htries⟩ := hretried (fun _ _ _ hok => Or.inr hok) hwatched
    exact ⟨hall, htries.onlyTimesOut hwaits
      (reachable_consistent (Reach.trans h₁ hwatched.reach.reachable)) ht' hid⟩

/-! ## A refund without its bet -/

/-- A refund up to its commit; its bet never comes. -/
def unmatchedRefund : List (Pid × Action) :=
  runCall 0 (.openWallet openCommand) 1 6 ++
    runCall 1 (.submit (submitCommand .refund "refund-1" (some "bet-1") (uuidText 10))) 7 6

/-- A reprocess run that picks the refund. -/
def retry (i : Pid) (first : Nat) : List (Pid × Action) :=
  (i, .start (.reprocess 20)) :: (i, tick first [uuidText 80] true) :: steps i (first + 1) 3

def tenRetries : List (Pid × Action) :=
  retry 2 14 ++ retry 3 30 ++ retry 4 60 ++ retry 5 110 ++ retry 6 200 ++ retry 7 400 ++
    retry 8 800 ++ retry 9 1200 ++ retry 10 1600 ++ retry 11 2000

/-- The configuration before the commit of the refund, the one after it, the refund's row, and what
the retries make of it. -/
def retriedRefund : Option (Config Shared Proc × Config Shared Proc × WagerTransaction ×
    Config Shared Proc × List Pick) := do
  let c₀ ← exec (step localPlatform) initial unmatchedRefund
  let c₁ ← next (step localPlatform) c₀ 1 (tick 13 [] true)
  let t ← c₁.shared.db.findWagerTransaction (uuidText 80)
  let out ← watchIf (step localPlatform) (Undecided t.id) (picks t.id) c₁ [] tenRetries
  return (c₀, c₁, t, out)

theorem unmatchedRefund_timesOut : ∃ c₁ c t ps, Reachable (step localPlatform) initial c₁ ∧
    Watched (step localPlatform) (Undecided t.id) (picks t.id) c₁ c ps ∧ ps.length = 10 ∧
      Retried t ps c ∧ OnlyTimesOut t ps c.shared.db := by
  have hrun : retriedRefund.any (fun out =>
      decide (∀ x ∈ out.1.shared.db.wagerTransactions,
        x.id = out.2.2.1.id → x.status ≠ .pendingReference) &&
        (decide (out.2.2.1.status = .pendingReference) &&
          decide (out.2.2.2.2.length = 10))) = true := by
    decide +kernel
  cases hout : retriedRefund with
  | none =>
    rw [hout] at hrun
    cases hrun
  | some out =>
    rw [hout] at hrun
    simp only [Option.any_some, Bool.and_eq_true, decide_eq_true_eq] at hrun
    obtain ⟨hbefore, hwaits, hlength⟩ := hrun
    unfold retriedRefund at hout
    obtain ⟨c₀, hexec, hrest⟩ := Option.bind_eq_some_iff.mp hout
    obtain ⟨c₁, hmoved, hrest⟩ := Option.bind_eq_some_iff.mp hrest
    obtain ⟨t, hfind, hrest⟩ := Option.bind_eq_some_iff.mp hrest
    obtain ⟨⟨c, ps⟩, hwatch, hrest⟩ := Option.bind_eq_some_iff.mp hrest
    obtain rfl := Option.some.inj hrest
    have h₀ := reachable_of_exec hexec
    have hwatched : Watched (step localPlatform) (Undecided t.id) (picks t.id) c₁ c ps :=
      Watched.extend .init hwatch
    have hretried := (pendingReference_retried h₀ hmoved hbefore (lookup_mem hfind).1 hwaits).2
      c ps hwatched
    exact ⟨c₁, c, t, ps, .step h₀ trivial hmoved, hwatched, hlength, hretried⟩

end WageringProcessor
