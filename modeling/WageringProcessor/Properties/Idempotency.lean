import WageringProcessor.Invariants.Resubmit
import WageringProcessor.Properties.Consumption

/-!
# Idempotent submission

`execute` is called any number of times for one key, by the API and by consumers, in any
interleaving.  One call does the work; the others return its transaction or throw.
-/

namespace WageringProcessor

open Library.Interleaving Library.Table

variable {P : Platform} {i j : Pid} {c c₁ c₂ c' : Config Shared Proc}
  {cmd cmd' : SubmitWagerTransactionCommand} {result result' : SubmitWagerTransactionResult}
  {t x : WagerTransaction} {stage : SubmitStage}

/-! ## What idempotency is -/

/-- The call returned and what it wrote is committed; a call in a consumer is completed by the
commit of the consumer. -/
inductive Completed (cmd : SubmitWagerTransactionCommand) (result : SubmitWagerTransactionResult) :
    Proc → Prop
  | direct : Completed cmd result (.submit cmd (.returned result))
  | deleting (messageId : String) (outcome : ConsumeOutcome) :
      Completed cmd result (.consume messageId (.delete outcome (some ⟨cmd, result⟩)))
  | consumed (messageId : String) (outcome : ConsumeOutcome) :
      Completed cmd result (.consume messageId (.done outcome (some ⟨cmd, result⟩)))

/-- `x` is the row of `t` as it was at some point between `c` and `c'`. -/
def StoredAs (P : Platform) (c c' : Config Shared Proc) (t x : WagerTransaction) : Prop :=
  ∃ c₁, Reachable (step P) c c₁ ∧ Reachable (step P) c₁ c' ∧
    x ∈ c₁.shared.db.wagerTransactions ∧
      x.toCreateWagerTransactionProps = t.toCreateWagerTransactionProps

/-- No other call holds what the call `i` awaits, and a new id can be drawn. -/
structure Unhindered (P : Platform) (c : Config Shared Proc) (i : Pid)
    (cmd : SubmitWagerTransactionCommand) : Prop where
  free : ∀ j k, j ≠ i → Submit.Awaits P cmd k → ¬owns c.shared j k
  newId : ∃ id, P.isCanonical id = true ∧ ¬c.shared.drawn id

/-- No step of the call `i` from `c` on, until `execute` is over, changes the database. -/
def Harmless (P : Platform) (c : Config Shared Proc) (i : Pid)
    (cmd : SubmitWagerTransactionCommand) : Prop :=
  ∀ c₁ stage a c₂, Reachable (step P) c c₁ → Executes cmd stage (c₁.procs i) →
    next (step P) c₁ i a = some c₂ → c₂.shared.db = c₁.shared.db

/-- From `c` on the call `i` returns the stored transaction. -/
structure Replayed (P : Platform) (c : Config Shared Proc) (i : Pid)
    (cmd : SubmitWagerTransactionCommand) (t : WagerTransaction) : Prop where
  harmless : Harmless P c i cmd
  returns : ∀ c₁ result, Reachable (step P) c c₁ → Executes cmd (.returned result) (c₁.procs i) →
    result.idempotentReplay = true ∧ StoredAs P c c₁ t result.transaction
  neverThrows : ∀ c₁ stage inp c₂ err, Reachable (step P) c c₁ → Executes cmd stage (c₁.procs i) →
    next (step P) c₁ i (.step inp) = some c₂ → ¬Executes cmd (.threw err) (c₂.procs i)
  completes : ∀ c₁ stage, Reachable (step P) c c₁ → Executes cmd stage (c₁.procs i) →
    (∀ err, stage ≠ .threw err) → Unhindered P c₁ i cmd →
      ∃ c₂ result, Reachable (step P) c₁ c₂ ∧ Executes cmd (.returned result) (c₂.procs i)

/-- From `c` on the call `i` throws, the conflict where no guard stops it before. -/
structure Refused (P : Platform) (c : Config Shared Proc) (i : Pid)
    (cmd : SubmitWagerTransactionCommand) : Prop where
  harmless : Harmless P c i cmd
  neverReturns : ∀ c₁ result, Reachable (step P) c c₁ →
    ¬Executes cmd (.returned result) (c₁.procs i)
  throws : ∀ c₁ stage, Reachable (step P) c c₁ → Executes cmd stage (c₁.procs i) →
    Unhindered P c₁ i cmd →
      ∃ c₂ err, Reachable (step P) c₁ c₂ ∧ Executes cmd (.threw err) (c₂.procs i)
  conflict : Submit.Admissible P c.shared.db cmd → ∀ c₁ stage inp c₂ err,
    Reachable (step P) c c₁ → Executes cmd stage (c₁.procs i) →
      next (step P) c₁ i (.step inp) = some c₂ → Executes cmd (.threw err) (c₂.procs i) →
        Submit.conflictError cmd err

structure Idempotent (P : Platform) (c : Config Shared Proc) : Prop where
  keys : (c.shared.db.wagerTransactions.map (·.idempotencyKey)).Nodup
  movements : ∀ idempotencyKey, (c.shared.db.entriesOfKey idempotencyKey).length ≤ 1
  rowsKept : ∀ c', Reachable (step P) c c' → ∀ t ∈ c.shared.db.wagerTransactions,
    ∃ t' ∈ c'.shared.db.wagerTransactions,
      t'.toCreateWagerTransactionProps = t.toCreateWagerTransactionProps
  ledgerKept : ∀ c', Reachable (step P) c c' →
    c.shared.db.ledgerEntries <+: c'.shared.db.ledgerEntries
  /-- Two calls for one key, of which one may have been completed long before the other. -/
  agree : ∀ c₁ i j cmd cmd' result result', Reachable (step P) initial c₁ →
    Reachable (step P) c₁ c → Completed cmd result (c₁.procs i) →
      Completed cmd' result' (c.procs j) → cmd.idempotencyKey = cmd'.idempotencyKey →
        cmd.payload = cmd'.payload ∧ result.transaction.id = result'.transaction.id ∧
          (result.idempotentReplay = false → result'.idempotentReplay = false → i = j)
  replayed : ∀ i cmd t, Executes cmd .begin (c.procs i) → Submit.Recorded P c.shared.db cmd t →
    Replayed P c i cmd t
  refused : ∀ i cmd, Executes cmd .begin (c.procs i) → Submit.Conflicts P c.shared.db cmd →
    Refused P c i cmd

/-! ## Completed calls -/

theorem Completed.returned (h : Reachable (step P) initial c)
    (hcompleted : Completed cmd result (c.procs i)) :
    Submit.Returned P (owns c.shared i) c.shared.db cmd result := by
  have hproc := (reachable_ok h).2 i
  generalize c.procs i = p at hcompleted hproc
  cases hcompleted with
  | direct => exact hproc
  | deleting => exact (Consume.Finished.returned hproc _ rfl).2
  | consumed =>
    rcases hproc with ⟨-, hnone⟩ | hfinished
    · cases hnone
    · exact (hfinished.returned _ rfl).2

/-- What a completed call returned stays committed, and its id stays the call's. -/
theorem reachable_returned (h₁ : Reachable (step P) initial c₁) (h : Reachable (step P) c₁ c)
    (hreturned : Submit.Returned P (owns c₁.shared i) c₁.shared.db cmd result) :
    Submit.Returned P (owns c.shared i) c.shared.db cmd result :=
  ⟨Submit.Answers.stable (reachable_history h₁ h) hreturned.answers,
    fun hnew => reachable_keepsDrawn h₁ h (hreturned.drew hnew)⟩

theorem Submit.Returned.agree (hinj : Function.Injective P.sha256)
    (hc : Consistent P c.shared.db)
    (h : Submit.Returned P (owns c.shared i) c.shared.db cmd result)
    (h' : Submit.Returned P (owns c.shared j) c.shared.db cmd' result')
    (hkey : cmd.idempotencyKey = cmd'.idempotencyKey) :
    cmd.payload = cmd'.payload ∧ result.transaction.id = result'.transaction.id ∧
      (result.idempotentReplay = false → result'.idempotentReplay = false → i = j) := by
  obtain ⟨row, hrow, hprops, hkeyRow, hhash⟩ := h.answers
  obtain ⟨row', hrow', hprops', hkeyRow', hhash'⟩ := h'.answers
  have hsame : row = row' := List.inj_on_of_nodup_map hc.idempotencyKeys hrow hrow'
    (hkeyRow.trans (hkey.trans hkeyRow'.symm))
  subst hsame
  have hid : result.transaction.id = result'.transaction.id :=
    congrArg (·.id) (hprops.symm.trans hprops')
  refine ⟨computePayloadHash_inj hinj (hhash.symm.trans hhash'), hid, fun hnew hnew' => ?_⟩
  have hown := h.drew hnew
  have hown' := h'.drew hnew'
  rw [← hid] at hown'
  exact Option.some.inj (hown.symm.trans hown')

/-! ## Calls whose transaction is committed -/

theorem StoredAs.mono (h : StoredAs P c c₁ t x) (h' : Reachable (step P) c₁ c₂) :
    StoredAs P c c₂ t x := by
  obtain ⟨c₀, h₀, h₁, hrow⟩ := h
  exact ⟨c₀, h₀, Reach.trans h₁ h', hrow⟩

/-- A call that never comes to its commit is harmless. -/
theorem harmless_of (h : Reachable (step P) initial c)
    (hrun : ∀ c₁ ws result, Reachable (step P) c c₁ →
      ¬Executes cmd (.commit ws result) (c₁.procs i)) :
    Harmless P c i cmd := by
  intro c₁ stage a c₂ h₁ hexecutes hmoved
  have hne : ∀ ws result, stage ≠ .commit ws result :=
    fun ws result heq => hrun c₁ ws result h₁ (heq ▸ hexecutes)
  obtain ⟨hs, hprocs⟩ := reachable_ok (Reach.trans h h₁)
  rcases step_executes hexecutes hne (next_self hmoved) with ⟨_, _, -, hsubmit, -⟩ | ⟨hdb, -⟩
  · exact (Submit.step_ok hs.consistent hs.drawn (hexecutes.ok (hprocs i)) hsubmit).1.db
  · exact hdb

section

variable (h : Reachable (step P) initial c) (hrecorded : Submit.Recorded P c.shared.db cmd t)
include h hrecorded

theorem replaying_own {inp : Input} {stage' : SubmitStage} (h₁ : Reachable (step P) c c₁)
    (hexecutes : Executes cmd stage (c₁.procs i))
    (hstage : Submit.Replaying (StoredAs P c c₁ t) stage)
    (hmoved : next (step P) c₁ i (.step inp) = some c₂)
    (hsubmit : Submit.step P cmd i inp c₁.shared stage = some (c₂.shared, stage')) :
    Submit.Replaying (StoredAs P c c₂ t) stage' := by
  obtain ⟨hs, hprocs⟩ := reachable_ok (Reach.trans h h₁)
  obtain ⟨t₁, hprops, hrecorded₁⟩ := hrecorded.stable (reachable_history h h₁).toKeeps
  have hstored : StoredAs P c c₁ t t₁ := ⟨c₁, h₁, .init, hrecorded₁.row, hprops⟩
  have hmove : Reachable (step P) c₁ c₂ := .step .init trivial hmoved
  exact (Submit.step_replaying hs.consistent hrecorded₁ hstored (hexecutes.ok (hprocs i)) hstage
    hsubmit).mono fun x hx => hx.mono hmove

theorem reachable_replaying (hstart : Executes cmd .begin (c.procs i))
    (h₁ : Reachable (step P) c c₁) (hexecutes : Executes cmd stage (c₁.procs i)) :
    Submit.Replaying (StoredAs P c c₁ t) stage ∨ stage = .threw .database := by
  refine reach_executes (Q := fun c₁ stage => Submit.Replaying (StoredAs P c c₁ t) stage ∨
    stage = .threw .database) hstart (Or.inl trivial) ?_ (fun _ => Or.inr rfl) ?_ ?_ h₁ hexecutes
  · rintro c₁ ws result (hreplaying | hthrew)
    · exact hreplaying
    · cases hthrew
  · intro c₁ c₂ j a stage _ hmoved hQ
    have hmove : Reachable (step P) c₁ c₂ := .step .init trivial hmoved
    exact hQ.imp_left (Submit.Replaying.mono fun x hx => hx.mono hmove)
  · rintro c₁ c₂ inp stage stage' h₁ hexecutes (hreplaying | rfl) hmoved hsubmit
    · exact Or.inl (replaying_own h hrecorded h₁ hexecutes hreplaying hmoved hsubmit)
    · cases hsubmit

theorem replayed_of_recorded (hstart : Executes cmd .begin (c.procs i)) : Replayed P c i cmd t := by
  have hrun : ∀ {c₁ stage}, Reachable (step P) c c₁ → Executes cmd stage (c₁.procs i) →
      Submit.Replaying (StoredAs P c c₁ t) stage ∨ stage = .threw .database :=
    fun h₁ hexecutes => reachable_replaying h hrecorded hstart h₁ hexecutes
  have hcommit : ∀ c₁ ws result, Reachable (step P) c c₁ →
      ¬Executes cmd (.commit ws result) (c₁.procs i) := by
    intro c₁ ws result h₁ hexecutes
    rcases hrun h₁ hexecutes with hreplaying | hthrew
    · exact hreplaying
    · cases hthrew
  refine ⟨harmless_of h hcommit, fun c₁ result h₁ hexecutes => ?_, ?_, ?_⟩
  · exact (hrun h₁ hexecutes).resolve_right nofun
  · intro c₁ stage inp c₂ err h₁ hexecutes hmoved hthrew
    have hne : ∀ ws result, stage ≠ .commit ws result :=
      fun ws result heq => hcommit c₁ ws result h₁ (heq ▸ hexecutes)
    obtain ⟨-, hsubmit⟩ := hexecutes.submitStep hne hthrew (next_self hmoved)
    rcases hrun h₁ hexecutes with hreplaying | rfl
    · exact replaying_own h hrecorded h₁ hexecutes hreplaying hmoved hsubmit
    · cases hsubmit
  · intro c₁ stage h₁ hexecutes hrunning hunhindered
    have hstage := (hrun h₁ hexecutes).resolve_right (hrunning .database)
    obtain ⟨c₂, h₂, stage', hexecutes', hreplaying, hend⟩ := hexecutes.exists_end
      (Q := fun c₂ stage => Submit.Replaying (StoredAs P c c₂ t) stage) (Reach.trans h h₁) hstage
      (fun _ _ _ hQ => hQ.elim)
      (fun _ _ _ _ _ h₂ hexecutes₂ hQ hmoved hsubmit =>
        replaying_own h hrecorded (Reach.trans h₁ h₂) hexecutes₂ hQ hmoved hsubmit)
      hunhindered.free hunhindered.newId
    cases stage' with
    | returned result => exact ⟨c₂, result, h₂, hexecutes'⟩
    | begin | lockWallet | claimKey | findByKey | findWallet => cases hend
    | _ => exact hreplaying.elim

end

/-! ## Calls in conflict -/

section

variable (hinj : Function.Injective P.sha256) (h : Reachable (step P) initial c)
  (hconflicts : Submit.Conflicts P c.shared.db cmd)
include hinj h hconflicts

theorem refusing_own {inp : Input} {stage' : SubmitStage} (h₁ : Reachable (step P) c c₁)
    (hexecutes : Executes cmd stage (c₁.procs i))
    (hstage : Submit.Refusing (Submit.Admissible P c.shared.db cmd) c₁.shared.db cmd stage)
    (hmoved : next (step P) c₁ i (.step inp) = some c₂)
    (hsubmit : Submit.step P cmd i inp c₁.shared stage = some (c₂.shared, stage')) :
    Submit.Refusing (Submit.Admissible P c.shared.db cmd) c₂.shared.db cmd stage' := by
  have hinitial := Reach.trans h h₁
  obtain ⟨hs, hprocs⟩ := reachable_ok hinitial
  have hkeeps := (reachable_history h h₁).toKeeps
  exact (Submit.step_refusing hinj hs.consistent (hconflicts.stable hkeeps)
    (fun hadmissible => hadmissible.stable hkeeps) (hexecutes.ok (hprocs i)) hstage hsubmit).stable
      ((reachable_effect hinitial hmoved).history hs.consistent).toKeeps

theorem reachable_refusing (hstart : Executes cmd .begin (c.procs i))
    (h₁ : Reachable (step P) c c₁) (hexecutes : Executes cmd stage (c₁.procs i)) :
    Submit.Refusing (Submit.Admissible P c.shared.db cmd) c₁.shared.db cmd stage ∨
      stage = .threw .database := by
  refine reach_executes
    (Q := fun c₁ stage =>
      Submit.Refusing (Submit.Admissible P c.shared.db cmd) c₁.shared.db cmd stage ∨
      stage = .threw .database) hstart (Or.inl trivial) ?_ (fun _ => Or.inr rfl) ?_ ?_ h₁ hexecutes
  · rintro c₁ ws result (hrefusing | hthrew)
    · exact hrefusing
    · cases hthrew
  · intro c₁ c₂ j a stage h₁ hmoved hQ
    have hinitial := Reach.trans h h₁
    have hhistory := (reachable_effect hinitial hmoved).history (reachable_consistent hinitial)
    exact hQ.imp_left (Submit.Refusing.stable hhistory.toKeeps)
  · rintro c₁ c₂ inp stage stage' h₁ hexecutes (hrefusing | rfl) hmoved hsubmit
    · exact Or.inl (refusing_own hinj h hconflicts h₁ hexecutes hrefusing hmoved hsubmit)
    · cases hsubmit

theorem refused_of_conflicts (hstart : Executes cmd .begin (c.procs i)) : Refused P c i cmd := by
  have hrun : ∀ {c₁ stage}, Reachable (step P) c c₁ → Executes cmd stage (c₁.procs i) →
      Submit.Refusing (Submit.Admissible P c.shared.db cmd) c₁.shared.db cmd stage ∨
        stage = .threw .database :=
    fun h₁ hexecutes => reachable_refusing hinj h hconflicts hstart h₁ hexecutes
  have hcommit : ∀ c₁ ws result, Reachable (step P) c c₁ →
      ¬Executes cmd (.commit ws result) (c₁.procs i) := by
    intro c₁ ws result h₁ hexecutes
    rcases hrun h₁ hexecutes with hrefusing | hthrew
    · exact hrefusing
    · cases hthrew
  refine ⟨harmless_of h hcommit, fun c₁ result h₁ hexecutes => ?_, ?_, ?_⟩
  · exact (hrun h₁ hexecutes).resolve_right nofun
  · intro c₁ stage h₁ hexecutes hunhindered
    rcases hrun h₁ hexecutes with hstage | rfl
    · obtain ⟨c₂, h₂, stage', hexecutes', hrefusing, hend⟩ := hexecutes.exists_end
        (Q := fun c₂ stage =>
          Submit.Refusing (Submit.Admissible P c.shared.db cmd) c₂.shared.db cmd stage)
        (Reach.trans h h₁) hstage (fun _ _ _ hQ => hQ)
        (fun _ _ _ _ _ h₂ hexecutes₂ hQ hmoved hsubmit =>
          refusing_own hinj h hconflicts (Reach.trans h₁ h₂) hexecutes₂ hQ hmoved hsubmit)
        hunhindered.free hunhindered.newId
      cases stage' with
      | threw err => exact ⟨c₂, err, h₂, hexecutes'⟩
      | begin | lockWallet | claimKey | claimExternal | findByKey | findByExternal => cases hend
      | _ => exact hrefusing.elim
    · exact ⟨c₁, _, .init, hexecutes⟩
  · intro hadmissible c₁ stage inp c₂ err h₁ hexecutes hmoved hthrew
    have hne : ∀ ws result, stage ≠ .commit ws result :=
      fun ws result heq => hcommit c₁ ws result h₁ (heq ▸ hexecutes)
    obtain ⟨-, hsubmit⟩ := hexecutes.submitStep hne hthrew (next_self hmoved)
    rcases hrun h₁ hexecutes with hrefusing | rfl
    · exact refusing_own hinj h hconflicts h₁ hexecutes hrefusing hmoved hsubmit hadmissible
    · cases hsubmit

end

/-! ## Every reachable state -/

theorem reachable_idempotent (hinj : Function.Injective P.sha256)
    (h : Reachable (step P) initial c) : Idempotent P c where
  keys := (reachable_consistent h).idempotencyKeys
  movements := (reachable_consistent h).entriesOfKey
  rowsKept _ h' := (reachable_history h h').rows
  ledgerKept _ h' := reachable_ledger h h'
  agree _ _ _ _ _ _ _ h₁ h' hcompleted hcompleted' hkey :=
    (reachable_returned h₁ h' (hcompleted.returned h₁)).agree hinj (reachable_consistent h)
      (hcompleted'.returned h) hkey
  replayed _ _ _ hstart hrecorded := replayed_of_recorded h hrecorded hstart
  refused _ _ hstart hconflicts := refused_of_conflicts hinj h hconflicts hstart

/-- Whether the call returned a replay. -/
def isReplay : Proc → Option Bool
  | .submit _ (.returned result) => some result.idempotentReplay
  | _ => none

/-- A bet is submitted by two calls whose steps alternate: the second waits for the wallet until the
first has committed. -/
def betTwice : List (Pid × Action) :=
  runCall 0 (.openWallet openCommand) 1 6 ++
    runCall 1 (.submit (submitCommand .bet "bet-1" none (uuidText 10))) 7 3 ++
      runCall 2 (.submit (submitCommand .bet "bet-1" none (uuidText 10))) 10 1 ++
        steps 1 11 3 ++ steps 2 14 4

theorem betTwice_idempotent : ∃ c, Reachable (step localPlatform) initial c ∧
    isReplay (c.procs 1) = some false ∧ isReplay (c.procs 2) = some true ∧
      (c.shared.db.entriesOfKey "key-bet-1").length = 1 ∧ Idempotent localPlatform c := by
  have hrun : (exec (step localPlatform) initial betTwice).any (fun c =>
      decide (isReplay (c.procs 1) = some false) && decide (isReplay (c.procs 2) = some true) &&
        decide ((c.shared.db.entriesOfKey "key-bet-1").length = 1)) = true := by
    decide +kernel
  obtain ⟨c, hreach, hp⟩ := reachable_of_any hrun
  simp only [Bool.and_eq_true, decide_eq_true_eq] at hp
  obtain ⟨⟨hfirst, hsecond⟩, hentries⟩ := hp
  exact ⟨c, hreach, hfirst, hsecond, hentries, reachable_idempotent localSha256_injective hreach⟩

/-- The key of the bet, with the id of a wallet that does not exist. -/
def otherWallet : SubmitWagerTransactionCommand := submitCommand .bet "bet-1" none (uuidText 99)

/-- The wallet is looked for before the claim is inserted, so the error of a call in conflict need
not be the conflict. -/
theorem otherWallet_not_conflictError : ∃ c c₁ c₂ inp err,
    Reachable (step localPlatform) initial c ∧ Executes otherWallet .begin (c.procs 2) ∧
      otherWallet.kind ≠ .opening ∧ Submit.Conflicts localPlatform c.shared.db otherWallet ∧
        Reachable (step localPlatform) c c₁ ∧
          next (step localPlatform) c₁ 2 (.step inp) = some c₂ ∧
            Executes otherWallet (.threw err) (c₂.procs 2) ∧
              ¬Submit.conflictError otherWallet err := by
  have hrun : (exec (step localPlatform) initial
      (openAndBet ++ [(2, .start (.submit otherWallet))])).any (fun c =>
        decide (c.procs 2 = .submit otherWallet .begin) &&
          c.shared.db.wagerTransactions.any (fun t =>
            t.idempotencyKey = otherWallet.idempotencyKey && t.walletId ≠ uuidText 99) &&
          (exec (step localPlatform) c (steps 2 13 1)).any (fun c₁ =>
            (next (step localPlatform) c₁ 2 (tick 14 [] true)).any (fun c₂ =>
              decide (c₂.procs 2 =
                .submit otherWallet (.threw (.domain (.walletNotFound (uuidText 99)))))))) =
      true := by
    decide +kernel
  obtain ⟨c, hreach, hp⟩ := reachable_of_any hrun
  simp only [Bool.and_eq_true, decide_eq_true_eq] at hp
  obtain ⟨⟨hbegin, hrow⟩, hend⟩ := hp
  obtain ⟨c₁, hreach₁, hend⟩ := reachable_of_any hend
  obtain ⟨c₂, hmoved, hthrew⟩ := (Option.any_eq_true _ _).mp hend
  obtain ⟨t, ht, hkey⟩ := List.any_eq_true.mp hrow
  simp only [Bool.and_eq_true, decide_eq_true_eq] at hkey hthrew
  refine ⟨c, c₁, c₂, _, .domain (.walletNotFound (uuidText 99)), hreach, hbegin ▸ .direct,
    by decide,
    .key t ht hkey.1 fun hpayload => ?_, hreach₁, hmoved, hthrew ▸ .direct, ?_⟩
  · have hwallet : localPlatform.uuid (uuidText 99) = some t.walletId := hpayload.walletId
    have hcanonical : localPlatform.uuid (uuidText 99) = some (uuidText 99) := by
      decide +kernel
    exact hkey.2 (Option.some.inj (hwallet.symm.trans hcanonical))
  · rintro ⟨detail, heq⟩
    cases heq

end WageringProcessor
