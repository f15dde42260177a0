import WageringProcessor.Invariants.Calls

/-!
# A call of `execute`, on its own or in a consumer

Until it returns or throws, what a call of `execute` does is `Submit.step`, whoever called it.
-/

namespace WageringProcessor

open Library.Interleaving

variable {P : Platform} {i j : Pid} {s s' : Shared} {p p' : Proc} {c c' : Config Shared Proc}
  {a : Action} {inp : Input} {cmd cmd' : SubmitWagerTransactionCommand}
  {stage stage' : SubmitStage}

/-- The process is at `stage` of `execute`, which the API or a consumer called for `cmd`. -/
inductive Executes (cmd : SubmitWagerTransactionCommand) (stage : SubmitStage) : Proc → Prop
  | direct : Executes cmd stage (.submit cmd stage)
  | nested (messageId : String) (now : Date) (claimed : List Writes) :
      Executes cmd stage (.consume messageId (.submit now claimed cmd stage))

/-- The command that a process executes. -/
def Proc.command : Proc → Option SubmitWagerTransactionCommand
  | .submit cmd _ | .consume _ (.submit _ _ cmd _) => some cmd
  | _ => none

theorem Executes.command (h : Executes cmd stage p) : p.command = some cmd := by
  cases h <;> rfl

/-- The process is past `execute`. -/
def Past : Proc → Prop
  | .consume _ (.markProcessed _ _ _) | .consume _ (.commit _ _ _) | .consume _ (.delete _ _)
  | .consume _ (.done _ _) | .crashed => True
  | _ => False

theorem Executes.unique (h : Executes cmd stage p) (h' : Executes cmd' stage' p) :
    cmd = cmd' ∧ stage = stage' := by
  cases h with
  | direct =>
    cases h'
    exact ⟨rfl, rfl⟩
  | nested =>
    cases h'
    exact ⟨rfl, rfl⟩

theorem Executes.not_past (h : Executes cmd stage p) : ¬Past p := by
  cases h <;> exact id

/-- What the process knows is what its call of `execute` knows. -/
theorem Executes.ok (h : Executes cmd stage p) (hp : ProcOk P i s p) :
    Submit.Ok P (owns s i) s.db cmd stage := by
  cases h with
  | direct => exact hp
  | nested => exact hp.2.2

/-- A process in `execute` takes the steps of `execute`. -/
theorem Executes.procStep_some (h : Executes cmd stage p)
    (hstep : Submit.step P cmd i inp s stage = some (s', stage')) :
    ∃ p', procStep P i inp s p = some (s', p') ∧ Executes cmd stage' p' := by
  cases h with
  | direct =>
    refine ⟨.submit cmd stage', ?_, .direct⟩
    cases stage with
    | commit | returned | threw => cases hstep
    | _ => simp only [procStep, submitStep, hstep, Option.map_some]
  | nested messageId now claimed =>
    refine ⟨.consume messageId (.submit now claimed cmd stage'), ?_, .nested messageId now claimed⟩
    cases stage with
    | commit | returned | threw => cases hstep
    | _ => simp only [procStep, Consume.step, hstep, Option.map_some]

/-- Nothing else happens to it before its commit, except that its process fails or that it returns
to its consumer; neither changes the database. -/
theorem step_executes (h : Executes cmd stage p) (hcommit : ∀ ws result, stage ≠ .commit ws result)
    (hstep : step P i a s p = some (s', p')) :
    (∃ inp stage', a = .step inp ∧ Submit.step P cmd i inp s stage = some (s', stage') ∧
        Executes cmd stage' p') ∨
      s'.db = s.db ∧ (Past p' ∨ a = .fail ∧ Executes cmd (.threw .database) p') := by
  cases step_way hstep with
  | start => cases h
  | fail =>
    cases h with
    | direct => exact Or.inr ⟨rfl, Or.inr ⟨rfl, .direct⟩⟩
    | nested => exact Or.inr ⟨rfl, Or.inl trivial⟩
  | crash => exact Or.inr ⟨rfl, Or.inl trivial⟩
  | submit steps =>
    cases h with
    | direct => exact Or.inl ⟨_, _, rfl, steps, .direct⟩
  | submitted =>
    cases h with
    | direct => exact absurd rfl (hcommit _ _)
  | consume steps =>
    cases h with
    | nested _ now claimed =>
      cases Consume.step_way steps with
      | submitted => exact absurd rfl (hcommit _ _)
      | replayed | threw => exact Or.inr ⟨rfl, Or.inl trivial⟩
      | executes executes => exact Or.inl ⟨_, _, rfl, executes, .nested _ now claimed⟩
  | openWallet | reprocess | publishOutbox => cases h

/-- How a consumer comes to a stage of `execute`: it parses its message, or it is there already. -/
theorem Consume.step_toSubmit {messageId : String} {now : Date} {claimed : List Writes}
    {cstage : ConsumeStage}
    (hstep : Consume.step P messageId i inp s cstage = some (s', .submit now claimed cmd stage')) :
    stage' = .begin ∨ ∃ stage, cstage = .submit now claimed cmd stage ∧
      Submit.step P cmd i inp s stage = some (s', stage') := by
  generalize hto : ConsumeStage.submit now claimed cmd stage' = cstage' at hstep
  cases Consume.step_way hstep with
  | parsed => exact Or.inl (ConsumeStage.submit.inj hto).2.2.2
  | executes executes =>
    obtain ⟨rfl, rfl, rfl, rfl⟩ := ConsumeStage.submit.inj hto
    exact Or.inr ⟨_, rfl, executes⟩
  | _ => cases hto

theorem Consume.step_toExecutes {messageId : String} {cstage cstage' : ConsumeStage}
    (h : Executes cmd stage' (.consume messageId cstage'))
    (hstep : Consume.step P messageId i inp s cstage = some (s', cstage')) :
    stage' = .begin ∨ ∃ stage, Executes cmd stage (.consume messageId cstage) ∧
      Submit.step P cmd i inp s stage = some (s', stage') := by
  cases h with
  | nested _ now claimed =>
    rcases Consume.step_toSubmit hstep with hbegin | ⟨stage, rfl, hsubmit⟩
    · exact Or.inl hbegin
    · exact Or.inr ⟨stage, .nested messageId now claimed, hsubmit⟩

/-- How a process comes to a stage of `execute`. -/
theorem step_toExecutes (h : Executes cmd stage' p') (hstep : step P i a s p = some (s', p')) :
    stage' = .begin ∨ (a = .fail ∧ stage' = .threw .database) ∨
      (∃ result, stage' = .returned result) ∨ ∃ inp stage, a = .step inp ∧ Executes cmd stage p ∧
        Submit.step P cmd i inp s stage = some (s', stage') := by
  cases step_way hstep with
  | @start call =>
    cases call <;> cases h
    exact Or.inl rfl
  | fail =>
    cases p with
    | submit =>
      cases h
      exact Or.inr (Or.inl ⟨rfl, rfl⟩)
    | consume messageId stage => cases stage <;> cases h
    | _ => cases h
  | submit steps =>
    cases h
    exact Or.inr (Or.inr (Or.inr ⟨_, _, rfl, .direct, steps⟩))
  | submitted =>
    cases h
    exact Or.inr (Or.inr (Or.inl ⟨_, rfl⟩))
  | consume steps =>
    rcases Consume.step_toExecutes h steps with hbegin | ⟨stage₀, hexecutes, hsubmit⟩
    · exact Or.inl hbegin
    · exact Or.inr (Or.inr (Or.inr ⟨_, stage₀, rfl, hexecutes, hsubmit⟩))
  | crash | openWallet | reprocess | publishOutbox => cases h

/-- A step that leads from `execute` to `execute` is one of its steps. -/
theorem Executes.submitStep (h : Executes cmd stage p)
    (hcommit : ∀ ws result, stage ≠ .commit ws result) (h' : Executes cmd' stage' p')
    (hstep : step P i (.step inp) s p = some (s', p')) :
    cmd' = cmd ∧ Submit.step P cmd i inp s stage = some (s', stage') := by
  rcases step_executes h hcommit hstep with
    ⟨inp₁, stage₁, hinp, hsubmit, hexecutes⟩ | ⟨-, hpast | ⟨hfail, -⟩⟩
  · obtain rfl := Action.step.inj hinp
    obtain ⟨rfl, rfl⟩ := hexecutes.unique h'
    exact ⟨rfl, hsubmit⟩
  · exact absurd hpast h'.not_past
  · cases hfail

theorem Consume.step_past {messageId : String} {cstage cstage' : ConsumeStage}
    (h : Past (.consume messageId cstage))
    (hstep : Consume.step P messageId i inp s cstage = some (s', cstage')) :
    Past (.consume messageId cstage') := by
  cases Consume.step_way hstep with
  | unfound | unmarked | marked | commits | deletes => trivial
  | _ => exact h.elim

theorem failed_past (h : Past p) : Past p.failed := by
  cases p with
  | consume messageId stage => cases stage <;> trivial
  | crashed => trivial
  | _ => exact h.elim

theorem step_past (h : Past p) (hstep : step P i a s p = some (s', p')) : Past p' := by
  cases step_way hstep with
  | fail => exact failed_past h
  | crash => trivial
  | consume steps => exact Consume.step_past h steps
  | start | openWallet | submit | submitted | reprocess | publishOutbox => exact h.elim

/-- Run rule for a call of `execute`: what its own steps keep and the steps of others preserve. -/
theorem reach_executes {Q : Config Shared Proc → SubmitStage → Prop}
    (hstart : Executes cmd stage (c.procs i)) (hQ : Q c stage)
    (hcommit : ∀ c₁ ws result, ¬Q c₁ (.commit ws result))
    (hfail : ∀ c₁, Q c₁ (.threw .database))
    (hrely : ∀ c₁ c₂ j a stage, Reachable (step P) c c₁ → next (step P) c₁ j a = some c₂ →
      Q c₁ stage → Q c₂ stage)
    (hown : ∀ c₁ c₂ inp stage stage', Reachable (step P) c c₁ → Executes cmd stage (c₁.procs i) →
      Q c₁ stage → next (step P) c₁ i (.step inp) = some c₂ →
        Submit.step P cmd i inp c₁.shared stage = some (c₂.shared, stage') → Q c₂ stage')
    (h : Reachable (step P) c c') (hexecutes : Executes cmd stage' (c'.procs i)) :
    Q c' stage' := by
  have hinv : (∃ stage, Executes cmd stage (c'.procs i) ∧ Q c' stage) ∨ Past (c'.procs i) := by
    refine h.invariant
      (P := fun c₁ => (∃ stage, Executes cmd stage (c₁.procs i) ∧ Q c₁ stage) ∨ Past (c₁.procs i))
      (Or.inl ⟨stage, hstart, hQ⟩) fun c₁ j a c₂ hreach hinv _ hmoved => ?_
    by_cases hij : i = j
    · subst hij
      rcases hinv with ⟨stage₁, hexecutes, hQ₁⟩ | hpast
      · have hne : ∀ ws result, stage₁ ≠ .commit ws result :=
          fun ws result heq => hcommit c₁ ws result (heq ▸ hQ₁)
        rcases step_executes hexecutes hne (next_self hmoved) with
          ⟨inp, stage', rfl, hsubmit, hexecutes'⟩ | ⟨-, hpast | ⟨-, hthrew⟩⟩
        · exact Or.inl ⟨stage', hexecutes', hown _ _ inp _ _ hreach hexecutes hQ₁ hmoved hsubmit⟩
        · exact Or.inr hpast
        · exact Or.inl ⟨_, hthrew, hfail _⟩
      · exact Or.inr (step_past hpast (next_self hmoved))
    · rw [next_other hmoved hij]
      exact hinv.imp_left fun ⟨stage₁, hexecutes, hQ₁⟩ =>
        ⟨stage₁, hexecutes, hrely _ _ _ _ _ hreach hmoved hQ₁⟩
  rcases hinv with ⟨stage₁, hexecutes₁, hQ₁⟩ | hpast
  · obtain ⟨-, rfl⟩ := hexecutes₁.unique hexecutes
    exact hQ₁
  · exact absurd hpast hexecutes.not_past

/-! ## The time of a call -/

/-- The events of a submit have the time at which its row was created. -/
def SubmitStage.Timed : SubmitStage → Prop
  | .findReference _ tx ctx | .findReversal _ tx ctx _ | .finalize _ tx ctx _ =>
    ctx.now = tx.createdAt
  | _ => True

theorem Submit.step_timed (h : stage.Timed)
    (hstep : Submit.step P cmd i inp s stage = some (s', stage')) : stage'.Timed := by
  cases Submit.step_way hstep with
  | referring | unreferring => rfl
  | found | unresolved | resolved => exact h
  | _ => trivial

theorem reachable_timed (h : Reachable (step P) initial c)
    (hexecutes : Executes cmd stage (c.procs i)) : stage.Timed := by
  have hinv : ∀ cmd stage, Executes cmd stage (c.procs i) → stage.Timed := by
    refine h.procInvariant (Q := fun p => ∀ cmd stage, Executes cmd stage p → stage.Timed) ?_ ?_
    · intro cmd stage hinitial
      cases hinitial
    · intro c₁ a s₁ p₁ _ htimed hstep cmd stage hexecutes
      rcases step_toExecutes hexecutes hstep with rfl | ⟨-, rfl⟩ | ⟨result, rfl⟩ |
        ⟨inp, stage₀, -, hbefore, hsubmit⟩
      · trivial
      · trivial
      · trivial
      · exact Submit.step_timed (htimed cmd stage₀ hbefore) hsubmit
  exact hinv cmd stage hexecutes

end WageringProcessor
