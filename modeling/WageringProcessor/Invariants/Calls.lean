import WageringProcessor.Invariants.Reachable

/-!
# A call from its start to its end

A process makes one call and goes through its stages; a call that has ended takes no step.
-/

namespace WageringProcessor

open Library.Interleaving

variable {P : Platform} {i j : Pid} {s s' : Shared} {p p' : Proc} {c c' : Config Shared Proc}
  {a : Action} {k : Call}

/-- The call that a process makes; a crashed process has lost it. -/
def Proc.call : Proc → Option Call
  | idle | crashed => none
  | openWallet cmd _ => some (.openWallet cmd)
  | submit cmd _ => some (.submit cmd)
  | consume messageId _ => some (.consume messageId)
  | reprocess batchSize _ => some (.reprocess batchSize)
  | publishOutbox batchSize _ => some (.publishOutbox batchSize)

theorem failed_call : p.failed = .crashed ∨ p.failed.call = p.call := by
  cases p with
  | consume messageId stage =>
    cases stage with
    | delete => exact Or.inl rfl
    | _ => exact Or.inr rfl
  | _ => exact Or.inr rfl

/-- A call goes on as the same call, unless it crashes. -/
theorem step_call (h : step P i a s p = some (s', p')) (hcall : p.call = some k) :
    p' = .crashed ∨ p'.call = some k := by
  cases step_way h with
  | start => cases hcall
  | fail => exact failed_call.imp_right fun hfailed => hfailed.trans hcall
  | crash => exact Or.inl rfl
  | openWallet | submit | submitted | consume | reprocess | publishOutbox => exact Or.inr hcall

theorem step_running (h : step P i a s p = some (s', p')) : p = .idle ∨ p.running = true := by
  cases step_way h with
  | start => exact Or.inl rfl
  | fail running | crash running => exact Or.inr running
  | submitted => exact Or.inr rfl
  -- every stage but the last ones has a step
  | @openWallet _ _ stage _ _ steps => cases stage <;> first | exact Or.inr rfl | cases steps
  | @submit _ _ stage _ _ steps => cases stage <;> first | exact Or.inr rfl | cases steps
  | @consume _ _ stage _ _ steps => cases stage <;> first | exact Or.inr rfl | cases steps
  | @reprocess _ _ stage _ _ steps => cases stage <;> first | exact Or.inr rfl | cases steps
  | @publishOutbox _ _ stage _ _ steps => cases stage <;> first | exact Or.inr rfl | cases steps

/-- A call that has ended takes no step. -/
theorem next_ended (hne : c.procs i ≠ .idle) (h : (c.procs i).running = false) :
    next (step P) c i a = none := by
  cases hnext : next (step P) c i a with
  | none => rfl
  | some c' =>
    obtain ⟨s', p', hstep, -⟩ := next_eq_some.mp hnext
    rcases step_running hstep with hidle | hrunning
    · exact absurd hidle hne
    · rw [h] at hrunning
      cases hrunning

/-- How a process comes to a stage of a reprocess run. -/
theorem step_reprocess {batchSize : Nat} {stage' : ReprocessStage}
    (h : step P i a s p = some (s', .reprocess batchSize stage')) :
    stage' = .begin ∨ stage' = .threw .database ∨ ∃ inp stage, a = .step inp ∧
      p = .reprocess batchSize stage ∧
        Reprocess.step P i batchSize inp s stage = some (s', stage') := by
  generalize hto : Proc.reprocess batchSize stage' = p₁ at h
  cases step_way h with
  | @start call =>
    cases call with
    | reprocess => exact Or.inl (Proc.reprocess.inj hto).2
    | _ => cases hto
  | fail =>
    cases p with
    | reprocess => exact Or.inr (Or.inl (Proc.reprocess.inj hto).2)
    | consume messageId stage => cases stage <;> cases hto
    | idle | crashed | openWallet | submit | publishOutbox => cases hto
  | reprocess steps =>
    obtain ⟨rfl, rfl⟩ := Proc.reprocess.inj hto
    exact Or.inr (Or.inr ⟨_, _, rfl, rfl, steps⟩)
  | crash | openWallet | submit | submitted | consume | publishOutbox => cases hto

/-- A run resolves a reference when it asks for an earlier reversal. -/
theorem Reprocess.step_to_resolved {batchSize : Nat} {inp : Input} {stage : ReprocessStage}
    {run : ReprocessRun} {tx reference : WagerTransaction} {ctx : EventContext}
    {rest : List WagerTransaction}
    (hstep : step P i batchSize inp s stage =
      some (s', .resolved run tx ctx (.resolved reference) rest)) :
    s' = s ∧ stage = .findReversal run tx ctx reference rest ∧
      WagerTransactionFinalizer.findReversal (view s run) tx reference = .resolved reference := by
  generalize hto : ReprocessStage.resolved run tx ctx (.resolved reference) rest = stage' at hstep
  cases step_way hstep with
  | unresolved _ _ hunresolved =>
    -- the first query alone resolves nothing
    obtain ⟨-, -, -, hresolution, -⟩ := ReprocessStage.resolved.inj hto
    exact absurd hresolution.symm (hunresolved reference)
  | @resolved _ _ reference₀ =>
    obtain ⟨rfl, rfl, rfl, hresolution, rfl⟩ := ReprocessStage.resolved.inj hto
    -- the second query leaves the reference as it was, or rejects
    have hsame : reference₀ = reference := by
      unfold WagerTransactionFinalizer.findReversal at hresolution
      split at hresolution
      · cases hresolution
      · exact (ReferenceResolution.resolved.inj hresolution).symm
    subst hsame
    exact ⟨rfl, rfl, hresolution.symm⟩
  | _ => cases hto

theorem reachable_call (h : Reachable (step P) c c') (hcall : (c.procs i).call = some k) :
    c'.procs i = .crashed ∨ (c'.procs i).call = some k := by
  refine h.procInvariant (Q := fun p => p = .crashed ∨ p.call = some k)
    (Or.inr hcall) fun d a s' p' _ hd hmove => ?_
  rcases hd with hcrashed | hcall
  · rw [hcrashed] at hmove
    rcases step_running hmove with hidle | hrunning
    · cases hidle
    · cases hrunning
  · exact step_call hmove hcall

end WageringProcessor
