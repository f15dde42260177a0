import WageringProcessor.ColumnSystem
import WageringProcessor.Invariants.ColumnFit
import WageringProcessor.Runs

/-!
# What a submit answers to its caller

`execute` checks its command in several places, and some inputs pass all of them: the kind OPENING,
a wallet id that is no uuid, texts and amounts that do not fit their columns, and the amount 0.00
for a BET or a WIN in the currency of its wallet.  It answers with an internal error exactly where
it meets one of these.  A text is one of characters: half a surrogate pair, which a JSON body can
escape, is none.
-/

namespace WageringProcessor

open Library.Interleaving WagerTransactionFinalizer

variable {P : Platform} {i : Pid} {s s' : Shared} {c c' : Config Shared Proc} {a : Action}
  {inp : Input} {p p' : Proc} {cmd : SubmitWagerTransactionCommand} {stage stage' : SubmitStage}
  {wallet : Wallet} {tx : WagerTransaction} {ctx : EventContext} {newId : Nat → Id}
  {resolution : Option ReferenceResolution} {reference : Option WagerTransaction} {credited : Bool}

/-! ## The inputs that no check covers -/

/-- The caller is told what was wrong, with a status of its own. -/
def Exception.isRefusal : Exception → Bool
  | .domain err => [400, 404, 409, 503].contains err.httpStatus
  | _ => false

/-- The texts and the amount of a command fit the columns of its row. -/
def SubmitWagerTransactionCommand.fits (cmd : SubmitWagerTransactionCommand) : Bool :=
  fitsVarchar 128 cmd.providerId && fitsVarchar 256 cmd.externalTransactionId &&
    fitsVarchar 512 cmd.idempotencyKey && fitsVarchar 256 cmd.roundId &&
      fitsVarchar 256 cmd.gameId &&
      fitsBigint cmd.money.minorUnits && cmd.referenceExternalTransactionId.all (fitsVarchar 256)

namespace Submit

/-- The amount 0.00, where only the ledger entry checks it. -/
def zeroAmount (cmd : SubmitWagerTransactionCommand) (wallet : Wallet) :
    Option ReferenceResolution → Bool
  | none => cmd.kind ≠ .loss && cmd.money.currency = wallet.currency && cmd.money.minorUnits = 0
  | some _ => false

/-- Where `execute` meets an input that it does not expect. -/
def overlooks (P : Platform) (cmd : SubmitWagerTransactionCommand) : SubmitStage → Bool
  | .begin => cmd.kind = .opening
  | .lockWallet _ => (P.uuid cmd.walletId).isNone
  | .claimKey _ _ => !cmd.fits
  | .finalize wallet tx ctx resolution => zeroAmount cmd wallet resolution ||
      !(cmd.fits && eventFits tx ctx && resolutionFits wallet tx resolution)
  | _ => false

end Submit

/-! ## The stages -/

namespace Submit

theorem Drafted.fits {own : Resource → Prop} {d : Database} (h : Drafted P own d cmd wallet tx) :
    tx.fits = cmd.fits := by
  obtain ⟨now, hprops⟩ := h.props_eq
  unfold WagerTransaction.fits
  rw [hprops]
  rfl

/-- An amount that is not 0.00, where the ledger entry checks it. -/
theorem Ready.amountOk {own : Resource → Prop} {d : Database} (h : Ready P own d cmd wallet tx)
    (hzero : zeroAmount cmd wallet resolution = false) : AmountOk wallet tx resolution := by
  intro hnone hloss hcurrency
  rw [hnone, zeroAmount] at hzero
  rw [h.sameKind] at hloss
  rw [h.money] at hcurrency
  have hnonneg : 0 ≤ tx.money.minorUnits := h.claimed.identity.money
  have hne : cmd.money.minorUnits ≠ 0 := by
    intro heq
    simp [hloss, hcurrency, heq] at hzero
  rw [← h.money] at hne
  omega

/-- What a step sends fits, if the step overlooks nothing. -/
theorem sent_fits (hc : Consistent P s.db) (hok : Ok P (owns s i) s.db cmd stage)
    (h : overlooks P cmd stage = false) : (sent P inp stage).all Writes.fits = true := by
  cases stage with
  | claimKey wallet tx =>
    have hdrafted : Drafted P (owns s i) s.db cmd wallet tx := hok
    have hfits : cmd.fits = true := by simpa [overlooks] using h
    show ((true && (tx.fits && true)) && true && true && true && true) = true
    rw [hdrafted.fits, hfits]
    rfl
  | finalize wallet tx ctx resolution =>
    obtain ⟨hready, hresolution⟩ := hok
    obtain ⟨hzero, hfits⟩ := Bool.or_eq_false_iff.mp h
    have hfits : (cmd.fits && eventFits tx ctx && resolutionFits wallet tx resolution) = true := by
      simpa using hfits
    have hsent : sent P inp (.finalize wallet tx ctx resolution) =
        [(decision P wallet tx ctx inp.newId resolution).2.2] := by
      dsimp only [sent]
      rw [decide_eq hc hready hresolution (hready.amountOk hzero)]
    rw [hsent, List.all_cons, decision_fits, hready.toDrafted.fits, hfits]
    rfl
  | _ => rfl

/-- The error of a step is an internal one exactly where the step overlooks its input. -/
def Answers500 (P : Platform) (cmd : SubmitWagerTransactionCommand) (stage stage' : SubmitStage) :
    Prop :=
  (overlooks P cmd stage = true → ∃ err, stage' = .threw err ∧ err.isRefusal = false) ∧
    (overlooks P cmd stage = false → ∀ err, stage' = .threw err → err.isRefusal = true)

theorem Answers500.refuses {err : Exception} (hexpected : overlooks P cmd stage = false)
    (hrefusal : err.isRefusal = true) : Answers500 P cmd stage (.threw err) := by
  refine ⟨fun h => absurd (h.symm.trans hexpected) (by decide), fun _ err' herr => ?_⟩
  rw [← SubmitStage.threw.inj herr]
  exact hrefusal

theorem Answers500.goesOn (hexpected : overlooks P cmd stage = false)
    (hnot : ∀ err, stage' ≠ .threw err) : Answers500 P cmd stage stage' :=
  ⟨fun h => absurd (h.symm.trans hexpected) (by decide), fun _ err herr => absurd herr (hnot err)⟩

theorem Answers500.fails {err : Exception} (hoverlooked : overlooks P cmd stage = true)
    (hinternal : err.isRefusal = false) : Answers500 P cmd stage (.threw err) :=
  ⟨fun _ => ⟨err, rfl, hinternal⟩, fun h => absurd (h.symm.trans hoverlooked) (by decide)⟩

/-- `create` refuses a command of a client with the status 400. -/
theorem create_refuses {props : CreateWagerTransactionProps} {err : DomainError}
    (hkind : props.kind ≠ .opening) (h : WagerTransaction.create props = .error err) :
    (Exception.domain err).isRefusal = true := by
  unfold WagerTransaction.create at h
  rw [if_neg hkind] at h
  split at h
  · obtain rfl := Except.error.inj h
    rfl
  · cases h

theorem claim_fits (h : Drafted P (owns s i) s.db cmd wallet tx)
    (hfits : (sent P inp (.claimKey wallet tx)).all Writes.fits = true) : cmd.fits = true := by
  have hall : ((true && (tx.fits && true) && true && true && true) && true) = true := hfits
  rw [h.fits] at hall
  simpa using hall

theorem claim_checked (h : Drafted P (owns s i) s.db cmd wallet tx) (hfits : cmd.fits = true) :
    Database.violatesCheck (claimWrites P tx) = false := by
  simp only [SubmitWagerTransactionCommand.fits, Bool.and_eq_true, fitsBigint_iff] at hfits
  have hmoney : 0 ≤ tx.money.minorUnits := h.money ▸ hfits.1.2.1
  have hnot : ¬tx.money.minorUnits < 0 := by omega
  simpa [Database.violatesCheck, claimWrites, toWagerTransactionEntity] using hnot

theorem finalize_answers (hc : Consistent P s.db) (hd : Drawn s.drawn s.db)
    (h : Ok P (owns s i) s.db cmd (.finalize wallet tx ctx resolution))
    (hfits : (sent P inp (.finalize wallet tx ctx resolution)).all Writes.fits = true)
    (hstep : step P cmd i inp s (.finalize wallet tx ctx resolution) = some (s', stage')) :
    Answers500 P cmd (.finalize wallet tx ctx resolution) stage' := by
  obtain ⟨hready, hresolution⟩ := h
  cases hzero : zeroAmount cmd wallet resolution with
  | false =>
    have hamount := hready.amountOk hzero
    have hoverlooked : overlooks P cmd (.finalize wallet tx ctx resolution) = false := by
      dsimp only [sent] at hfits
      rw [decide_eq hc hready hresolution hamount] at hfits
      have hdecision : (decision P wallet tx ctx inp.newId resolution).2.2.fits = true := by
        simpa using hfits
      rw [decision_fits, hready.toDrafted.fits] at hdecision
      rw [overlooks, hzero, hdecision]
      rfl
    rcases step_finalize_decides hc hd ⟨hready, hresolution⟩ hamount hstep with
      ⟨out, -, -, rfl, -⟩ | ⟨-, rfl⟩
    · exact .goesOn hoverlooked nofun
    · exact .goesOn hoverlooked nofun
  | true =>
    have hoverlooked : overlooks P cmd (.finalize wallet tx ctx resolution) = true := by
      rw [overlooks, hzero, Bool.true_or]
    cases resolution with
    | some => cases hzero
    | none =>
      simp only [zeroAmount, Bool.and_eq_true, decide_eq_true_eq] at hzero
      obtain ⟨⟨hloss, hcurrency⟩, hamount⟩ := hzero
      obtain ⟨r, -, -, hnonneg, hread⟩ := hready.account hc
      rw [← hready.money] at hcurrency hamount
      rw [← hready.sameKind] at hloss
      have hdecide : decide P wallet tx ctx none inp.newId = .error .unbalancedLedgerEntry :=
        applyEffect_zero hread hnonneg hloss hresolution hcurrency hamount
      obtain ⟨s₁, -, hrest⟩ := Option.bind_eq_some_iff.mp hstep
      rw [hdecide] at hrest
      obtain ⟨-, rfl⟩ := Prod.mk.inj (Option.some.inj hrest)
      exact .fails hoverlooked rfl

theorem step_answers (hc : Consistent P s.db) (hd : Drawn s.drawn s.db)
    (hok : Ok P (owns s i) s.db cmd stage)
    (hfits : (sent P inp stage).all Writes.fits = true)
    (hstep : step P cmd i inp s stage = some (s', stage')) : Answers500 P cmd stage stage' := by
  cases step_way hstep with
  | opening kind => exact .fails (decide_eq_true kind) rfl
  | begin kind => exact .goesOn (decide_eq_false kind) nofun
  | noUuid uuid => exact .fails (by rw [overlooks, uuid]; rfl) rfl
  | noWallet uuid => exact .refuses (by rw [overlooks, uuid]; rfl) rfl
  | otherPlayer locks => exact .refuses (by rw [overlooks, locks.uuid]; rfl) rfl
  | invalid locks _ _ create =>
    have hkind : cmd.kind ≠ .opening := hok
    exact .refuses (by rw [overlooks, locks.uuid]; rfl) (create_refuses hkind create)
  | drafted locks => exact .goesOn (by rw [overlooks, locks.uuid]; rfl) nofun
  | unclaimable check =>
    -- the check on the amount is one of the limits of the column
    exact absurd ((claim_checked hok (claim_fits hok hfits)).symm.trans check) Bool.false_ne_true
  | keyTaken | keyClaimed =>
    exact .goesOn (by rw [overlooks, claim_fits hok hfits]; rfl) nofun
  | unnamed finds =>
    -- `create` refused the command if it named no reference
    have hnamed : WagerTransaction.missingReference _ = false :=
      hok.1.claimed.identity.reference hok.2
    unfold findReference at finds
    split at finds
    · rename_i hmissing
      exact absurd (hnamed.symm.trans hmissing) Bool.false_ne_true
    · cases finds
  | undecided | duplicated | unflushed | decided => exact finalize_answers hc hd hok hfits hstep
  | externalTaken | referring | unreferring | found | unresolved | resolved | noKey | sameKey
  | replayed => exact .goesOn rfl nofun
  | otherPayload | otherKey | unexplained => exact .refuses rfl rfl

end Submit

/-! ## Runs whose inputs are expected -/

def Proc.overlooks (P : Platform) : Proc → Bool
  | .submit cmd stage | .consume _ (.submit _ _ cmd stage) => Submit.overlooks P cmd stage
  | _ => false

theorem Executes.overlooks (h : Executes cmd stage p) :
    p.overlooks P = Submit.overlooks P cmd stage := by
  cases h <;> rfl

theorem Executes.sent (h : Executes cmd stage p) : p.sent P inp = Submit.sent P inp stage := by
  cases h <;> rfl

def Action.fails : Action → Bool
  | .fail => true
  | _ => false

/-- The condition on the steps of a run: `execute` overlooks no input, and none of its statements
fails for a reason outside the code. -/
abbrev Expected (P : Platform) (c : Config Shared Proc) (i : Pid) (a : Action) : Prop :=
  (c.procs i).overlooks P = false ∧ (a.fails && (c.procs i).command.isSome) = false

def SubmitStage.failure : SubmitStage → Option Exception
  | .threw err => some err
  | _ => none

/-- The error that ended the call of `execute`. -/
def Proc.failure : Proc → Option Exception
  | .submit _ stage | .consume _ (.submit _ _ _ stage) => stage.failure
  | .consume _ (.done (.error err) _) => some err
  | _ => none

theorem Executes.failure (h : Executes cmd stage p) : p.failure = stage.failure := by
  cases h <;> rfl

/-- What the callers of `execute` are told over tables that have the limits of their columns: a call
that throws refuses its command, and what a call returns is stored. -/
structure Refusals (P : Platform) (c : Config Shared Proc) : Prop where
  thrown : ∀ i cmd err, Executes cmd (.threw err) (c.procs i) → err.isRefusal = true
  answers : ∀ i inp cmd stage s' p', Executes cmd stage (c.procs i) → (c.procs i).failure = none →
    columnStep P i (.step inp) c.shared (c.procs i) = some (s', p') →
      ((∃ err, p'.failure = some err ∧ err.isRefusal = false) ↔
        Submit.overlooks P cmd stage = true)
  stored : ∀ i cmd result, Executes cmd (.returned result) (c.procs i) →
    ∃ t ∈ c.shared.db.wagerTransactions, t.id = result.transaction.id ∧
      t.idempotencyKey = cmd.idempotencyKey ∧ t.payloadHash = cmd.payloadHash P

section

variable (h : Reachable (step P) initial c) (hexecutes : Executes cmd stage (c.procs i))
include h hexecutes

theorem reachable_sentFits (hexpected : Submit.overlooks P cmd stage = false) :
    ((c.procs i).sent P inp).all Writes.fits = true := by
  obtain ⟨hs, hprocs⟩ := reachable_ok h
  rw [hexecutes.sent]
  exact Submit.sent_fits hs.consistent (hexecutes.ok (hprocs i)) hexpected

theorem reachable_answers (hfits : ((c.procs i).sent P inp).all Writes.fits = true)
    (hstep : Submit.step P cmd i inp c.shared stage = some (s', stage')) :
    Submit.Answers500 P cmd stage stage' := by
  obtain ⟨hs, hprocs⟩ := reachable_ok h
  rw [hexecutes.sent] at hfits
  exact Submit.step_answers hs.consistent hs.drawn (hexecutes.ok (hprocs i)) hfits hstep

/-- A statement that the columns refuse is an internal error. -/
theorem reachable_refused (hfits : ((c.procs i).sent P inp).all Writes.fits = false)
    (hstep : step P i .fail c.shared (c.procs i) = some (s', p')) :
    p'.failure = some .database ∧ Submit.overlooks P cmd stage = true := by
  constructor
  · dsimp only [step] at hstep
    split at hstep
    · obtain ⟨-, rfl⟩ := Prod.mk.inj (Option.some.inj hstep)
      generalize c.procs i = p at hexecutes
      cases hexecutes <;> rfl
    · cases hstep
  · by_contra hexpected
    have hsent : ((c.procs i).sent P inp).all Writes.fits = true :=
      reachable_sentFits h hexecutes (Bool.not_eq_true _ ▸ hexpected)
    exact Bool.false_ne_true (hfits.symm.trans hsent)

end

/-- A step from a stage of `execute`: one of its own, or one after it has returned. -/
theorem Executes.steps (hexecutes : Executes cmd stage p) (hnone : p.failure = none)
    (hstep : step P i (.step inp) s p = some (s', p')) :
    (∃ stage', Submit.step P cmd i inp s stage = some (s', stage') ∧ Executes cmd stage' p') ∨
      p'.failure = none ∧ Submit.overlooks P cmd stage = false := by
  dsimp only [step] at hstep
  rw [hexecutes.failure] at hnone
  cases hexecutes with
  | direct =>
    obtain ⟨⟨s₁, stage₁⟩, hinner, hout⟩ := Option.map_eq_some_iff.mp hstep
    obtain ⟨rfl, rfl⟩ := Prod.mk.inj hout
    cases stage with
    | threw => cases hnone
    | returned => cases hinner
    | commit =>
      obtain ⟨-, rfl⟩ := Prod.mk.inj (Option.some.inj hinner)
      exact Or.inr ⟨rfl, rfl⟩
    | _ => exact Or.inl ⟨stage₁, hinner, .direct⟩
  | nested messageId now claimed =>
    obtain ⟨⟨s₁, stage₁⟩, hinner, hout⟩ := Option.map_eq_some_iff.mp hstep
    obtain ⟨rfl, rfl⟩ := Prod.mk.inj hout
    cases stage with
    | threw => cases hnone
    | returned | commit =>
      obtain ⟨-, rfl⟩ := Prod.mk.inj (Option.some.inj hinner)
      exact Or.inr ⟨rfl, rfl⟩
    | _ =>
      simp only [Consume.step] at hinner
      obtain ⟨⟨s₂, stage₂⟩, hsubmit, hout⟩ := Option.map_eq_some_iff.mp hinner
      obtain ⟨rfl, rfl⟩ := Prod.mk.inj hout
      exact Or.inl ⟨stage₂, hsubmit, .nested messageId now claimed⟩

/-- A step of the API or of a consumer ends `execute` with an internal error exactly where it
overlooks its input. -/
theorem reachable_failure (h : Reachable (step P) initial c)
    (hexecutes : Executes cmd stage (c.procs i)) (hnone : (c.procs i).failure = none)
    (hstep : columnStep P i (.step inp) c.shared (c.procs i) = some (s', p')) :
    (∃ err, p'.failure = some err ∧ err.isRefusal = false) ↔
      Submit.overlooks P cmd stage = true := by
  cases hfits : ((c.procs i).sent P inp).all Writes.fits with
  | false =>
    rw [columnStep_refused hfits] at hstep
    obtain ⟨hfailure, hoverlooked⟩ := reachable_refused h hexecutes hfits hstep
    exact ⟨fun _ => hoverlooked, fun _ => ⟨.database, hfailure, rfl⟩⟩
  | true =>
    rw [columnStep_fits hfits] at hstep
    rcases hexecutes.steps hnone hstep with ⟨stage', hsubmit, hexecutes'⟩ | ⟨hnone', hexpected⟩
    · have hanswers := reachable_answers h hexecutes hfits hsubmit
      rw [hexecutes'.failure]
      constructor
      · rintro ⟨err, hfailure, hinternal⟩
        by_contra hexpected
        have hthrew : stage' = .threw err := by
          cases stage' <;> cases hfailure
          rfl
        have hrefusal := hanswers.2 (Bool.not_eq_true _ ▸ hexpected) err hthrew
        exact Bool.false_ne_true (hinternal.symm.trans hrefusal)
      · intro hoverlooked
        obtain ⟨err, rfl, hinternal⟩ := hanswers.1 hoverlooked
        exact ⟨err, rfl, hinternal⟩
    · rw [hnone', hexpected]
      constructor
      · rintro ⟨err, hfailure, -⟩
        cases hfailure
      · exact fun h => absurd h Bool.false_ne_true

/-- Only a call of `execute` that fails has failed. -/
theorem Executes.of_failed {err : Exception} (h : Executes cmd (.threw err) p.failed) :
    p.command.isSome = true := by
  cases p with
  | submit => rfl
  | consume messageId stage => cases stage <;> cases h
  | _ => cases h

theorem executes_of_command (h : p.command.isSome = true) : ∃ cmd stage, Executes cmd stage p := by
  cases p with
  | submit cmd stage => exact ⟨cmd, stage, .direct⟩
  | consume messageId stage =>
    cases stage with
    | submit now claimed cmd stage => exact ⟨cmd, stage, .nested messageId now claimed⟩
    | _ => cases h
  | _ => cases h

/-- How a call of `execute` comes to throw, if none of its statements fails. -/
theorem step_toThrew {err : Exception} (hexecutes : Executes cmd (.threw err) p')
    (hfails : (a.fails && p.command.isSome) = false) (hstep : step P i a s p = some (s', p')) :
    ∃ inp stage, a = .step inp ∧ Executes cmd stage p ∧
      Submit.step P cmd i inp s stage = some (s', .threw err) := by
  rcases step_toExecutes hexecutes hstep with hbegin | ⟨rfl, -⟩ | ⟨result, hreturned⟩ | hsubmit
  · cases hbegin
  · dsimp only [step] at hstep
    split at hstep
    · obtain ⟨-, rfl⟩ := Prod.mk.inj (Option.some.inj hstep)
      rw [hexecutes.of_failed] at hfails
      cases hfails
    · cases hstep
  · cases hreturned
  · exact hsubmit

theorem reach_thrown (h : Reach (columnStep P) (Expected P) initial c) :
    ∀ i cmd err, Executes cmd (.threw err) (c.procs i) → err.isRefusal = true := by
  refine h.invariant
    (P := fun c => ∀ i cmd err, Executes cmd (.threw err) (c.procs i) → err.isRefusal = true) ?_ ?_
  · intro i cmd err hexecutes
    have hidle : Executes cmd (.threw err) .idle := hexecutes
    cases hidle
  intro c i a c' run ih ⟨hexpected, hfails⟩ hmoved j cmd err hexecutes
  by_cases hij : j = i
  · subst hij
    have hreach := reach_columns run
    have hthrew : ∀ {b}, (b.fails && (c.procs j).command.isSome) = false →
        (∀ inp, b = .step inp → ((c.procs j).sent P inp).all Writes.fits = true) →
          step P j b c.shared (c.procs j) = some (c'.shared, c'.procs j) →
            err.isRefusal = true := by
      intro b hfails hfits hstep
      obtain ⟨inp, stage, hb, hbefore, hsubmit⟩ := step_toThrew hexecutes hfails hstep
      rw [hbefore.overlooks] at hexpected
      exact (reachable_answers hreach hbefore (hfits inp hb) hsubmit).2 hexpected err rfl
    have hself := next_self hmoved
    cases a with
    | step inp =>
      cases hfits : ((c.procs j).sent P inp).all Writes.fits with
      | true =>
        rw [columnStep_fits hfits] at hself
        refine hthrew rfl (fun inp' hinp => ?_) hself
        obtain rfl := Action.step.inj hinp
        exact hfits
      | false =>
        -- the columns refuse nothing of a call that overlooks nothing
        rw [columnStep_refused hfits] at hself
        refine hthrew (Bool.eq_false_iff.mpr fun hcommand => ?_) (fun _ hb => by cases hb) hself
        obtain ⟨cmd₀, stage, hbefore⟩ := executes_of_command hcommand
        rw [hbefore.overlooks] at hexpected
        exact Bool.false_ne_true (hfits.symm.trans (reachable_sentFits hreach hbefore hexpected))
    | start | fail | crash => exact hthrew hfails (fun _ hb => by cases hb) hself
  · rw [next_other hmoved hij] at hexecutes
    exact ih j cmd err hexecutes

/-- In a run whose every input is expected, what a call throws is a refusal. -/
theorem reach_refusals (h : Reach (columnStep P) (Expected P) initial c) : Refusals P c where
  thrown := reach_thrown h
  answers _ _ _ _ _ _ hexecutes hnone hstep :=
    reachable_failure (reach_columns h) hexecutes hnone hstep
  stored i cmd result hexecutes := by
    have hreturned : Submit.Returned P (owns c.shared i) c.shared.db cmd result :=
      hexecutes.ok ((reachable_ok (reach_columns h)).2 i)
    obtain ⟨row, hrow, hprops, hkey, hhash⟩ := hreturned.answers
    exact ⟨row, hrow, congrArg (·.id) hprops, hkey, hhash⟩

/-- A BET of another amount on the wallet `walletId`. -/
def betOf (minorUnits : Int) (walletId : String) : SubmitWagerTransactionCommand :=
  { submitCommand .bet "bet-2" none walletId with money := ⟨minorUnits, brl⟩ }

/-- A BET in a round whose name is of `length` characters. -/
def betInRound (length : Nat) : SubmitWagerTransactionCommand :=
  { betOf 3000 (uuidText 10) with roundId := String.ofList (List.replicate length 'r') }

/-- One BET of 30.00 is accepted, one of 90.00 is not covered, one names no wallet. -/
theorem expectedBets_refused : ∃ c,
    Reach (columnStep localPlatform) (Expected localPlatform) initial c ∧
      Refusals localPlatform c ∧
        c.shared.db.wagerTransactions.map (fun t => (t.kind, t.status)) =
          [(.opening, .processed), (.bet, .processed), (.bet, .rejected)] ∧
        c.procs 3 = .submit (betOf 9000 (uuidText 99))
          (.threw (.domain (.walletNotFound (uuidText 99)))) := by
  have hrun : (execIf (columnStep localPlatform) (Expected localPlatform) initial
      (openAndBet ++ runCall 2 (.submit (betOf 9000 (uuidText 10))) 13 6 ++
        runCall 3 (.submit (betOf 9000 (uuidText 99))) 19 2)).any (fun c =>
      decide (c.shared.db.wagerTransactions.map (fun t => (t.kind, t.status)) =
          [(.opening, .processed), (.bet, .processed), (.bet, .rejected)]) &&
        decide (c.procs 3 = .submit (betOf 9000 (uuidText 99))
          (.threw (.domain (.walletNotFound (uuidText 99)))))) = true := by
    decide +kernel
  obtain ⟨c, hreach, hp⟩ := reach_of_any hrun
  simp only [Bool.and_eq_true, decide_eq_true_eq] at hp
  exact ⟨c, hreach, reach_refusals hreach, hp⟩

/-- A BET of 0.00, a wallet id that is no uuid, the kind OPENING, and a round whose name is longer
than its column. -/
theorem unexpected_internalErrors : ∃ c, Reachable (columnStep localPlatform) initial c ∧
    Money.ofProps ⟨"0.00", "BRL"⟩ = .ok (betOf 0 (uuidText 10)).money ∧
      c.procs 1 = .submit (betOf 0 (uuidText 10)) (.threw (.domain .unbalancedLedgerEntry)) ∧
      c.procs 2 = .submit (submitCommand .opening "opening-1" none (uuidText 10))
        (.threw (.domain Submit.openingNotAccepted)) ∧
      c.procs 3 = .submit (betOf 3000 "wallet-1") (.threw .database) ∧
      c.procs 4 = .submit (betInRound 257) (.threw .database) ∧
      DomainError.unbalancedLedgerEntry.httpStatus = 500 ∧
        Submit.openingNotAccepted.httpStatus = 500 := by
  have hrun : (exec (columnStep localPlatform) initial
      (runCall 0 (.openWallet openCommand) 1 6 ++
        runCall 1 (.submit (betOf 0 (uuidText 10))) 7 5 ++
          runCall 2 (.submit (submitCommand .opening "opening-1" none (uuidText 10))) 13 1 ++
            runCall 3 (.submit (betOf 3000 "wallet-1")) 14 2 ++
              runCall 4 (.submit (betInRound 257)) 16 3)).any (fun c =>
      decide (c.procs 1 = .submit (betOf 0 (uuidText 10))
          (.threw (.domain .unbalancedLedgerEntry))) &&
        decide (c.procs 2 = .submit (submitCommand .opening "opening-1" none (uuidText 10))
          (.threw (.domain Submit.openingNotAccepted))) &&
        decide (c.procs 3 = .submit (betOf 3000 "wallet-1") (.threw .database)) &&
          decide (c.procs 4 = .submit (betInRound 257) (.threw .database))) = true := by
    decide +kernel
  obtain ⟨c, hreach, hp⟩ := reachable_of_any hrun
  simp only [Bool.and_eq_true, decide_eq_true_eq] at hp
  exact ⟨c, hreach, by decide, hp.1.1.1, hp.1.1.2, hp.1.2, hp.2, by decide, by decide⟩

end WageringProcessor
