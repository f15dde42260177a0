import WageringProcessor.System

/-!
# What a step of the system can do

A process starts a call, takes a step of it, fails or crashes.
-/

namespace WageringProcessor

open Library.Interleaving

variable (P : Platform) (i : Pid) (s : Shared)

inductive Way : Action → Proc → Shared → Proc → Prop
  | start {call : Call} : Way (.start call) .idle s (.start call)
  -- the database rolls back what the open transaction has done
  | fail {p : Proc} (running : p.running = true) : Way .fail p (s.rollback i) p.failed
  | crash {p : Proc} (running : p.running = true) : Way .crash p (s.rollback i) .crashed
  | openWallet {inp : Input} {cmd : OpenWalletCommand} {stage stage' : OpenWalletStage}
      {s₁ : Shared} (steps : OpenWallet.step P cmd i inp s stage = some (s₁, stage')) :
      Way (.step inp) (.openWallet cmd stage) s₁ (.openWallet cmd stage')
  | submit {inp : Input} {cmd : SubmitWagerTransactionCommand} {stage stage' : SubmitStage}
      {s₁ : Shared} (steps : Submit.step P cmd i inp s stage = some (s₁, stage')) :
      Way (.step inp) (.submit cmd stage) s₁ (.submit cmd stage')
  | submitted {inp : Input} {cmd : SubmitWagerTransactionCommand} {writes : List Writes}
      {result : SubmitWagerTransactionResult} :
      Way (.step inp) (.submit cmd (.commit writes result)) (s.commit i writes)
        (.submit cmd (.returned result))
  | consume {inp : Input} {messageId : String} {stage stage' : ConsumeStage} {s₁ : Shared}
      (steps : Consume.step P messageId i inp s stage = some (s₁, stage')) :
      Way (.step inp) (.consume messageId stage) s₁ (.consume messageId stage')
  | reprocess {inp : Input} {batchSize : Nat} {stage stage' : ReprocessStage} {s₁ : Shared}
      (steps : Reprocess.step P i batchSize inp s stage = some (s₁, stage')) :
      Way (.step inp) (.reprocess batchSize stage) s₁ (.reprocess batchSize stage')
  | publishOutbox {inp : Input} {batchSize : Nat} {stage stage' : PublishStage} {s₁ : Shared}
      (steps : PublishOutbox.step i batchSize inp s stage = some (s₁, stage')) :
      Way (.step inp) (.publishOutbox batchSize stage) s₁ (.publishOutbox batchSize stage')

variable {P i s} {s' : Shared} {p p' : Proc} {a : Action} {inp : Input}

theorem submitStep_way {cmd : SubmitWagerTransactionCommand} {stage stage' : SubmitStage}
    (h : submitStep P cmd i inp s stage = some (s', stage')) :
    Way P i s (.step inp) (.submit cmd stage) s' (.submit cmd stage') := by
  cases stage with
  | commit writes result =>
    obtain ⟨rfl, rfl⟩ := Prod.mk.inj (Option.some.inj h)
    exact .submitted
  | _ =>
    simp only [submitStep] at h
    exact .submit h

theorem procStep_way (h : procStep P i inp s p = some (s', p')) :
    Way P i s (.step inp) p s' p' := by
  cases p with
  | openWallet cmd stage =>
    obtain ⟨⟨s₁, stage'⟩, hstep, hout⟩ := Option.map_eq_some_iff.mp h
    obtain ⟨rfl, rfl⟩ := Prod.mk.inj hout
    exact .openWallet hstep
  | submit cmd stage =>
    obtain ⟨⟨s₁, stage'⟩, hstep, hout⟩ := Option.map_eq_some_iff.mp h
    obtain ⟨rfl, rfl⟩ := Prod.mk.inj hout
    exact submitStep_way hstep
  | consume messageId stage =>
    obtain ⟨⟨s₁, stage'⟩, hstep, hout⟩ := Option.map_eq_some_iff.mp h
    obtain ⟨rfl, rfl⟩ := Prod.mk.inj hout
    exact .consume hstep
  | reprocess batchSize stage =>
    obtain ⟨⟨s₁, stage'⟩, hstep, hout⟩ := Option.map_eq_some_iff.mp h
    obtain ⟨rfl, rfl⟩ := Prod.mk.inj hout
    exact .reprocess hstep
  | publishOutbox batchSize stage =>
    obtain ⟨⟨s₁, stage'⟩, hstep, hout⟩ := Option.map_eq_some_iff.mp h
    obtain ⟨rfl, rfl⟩ := Prod.mk.inj hout
    exact .publishOutbox hstep
  | idle | crashed => cases h

/-- What a step of the system can do. -/
theorem step_way (h : step P i a s p = some (s', p')) : Way P i s a p s' p' := by
  cases a with
  | start call =>
    obtain ⟨rfl, hstarted⟩ := Option.ite_none_right_eq_some.mp h
    obtain ⟨rfl, rfl⟩ := Prod.mk.inj (Option.some.inj hstarted)
    exact .start
  | step inp => exact procStep_way h
  | fail =>
    obtain ⟨hrunning, hfailed⟩ := Option.ite_none_right_eq_some.mp h
    obtain ⟨rfl, rfl⟩ := Prod.mk.inj (Option.some.inj hfailed)
    exact .fail hrunning
  | crash =>
    obtain ⟨hrunning, hcrashed⟩ := Option.ite_none_right_eq_some.mp h
    obtain ⟨rfl, rfl⟩ := Prod.mk.inj (Option.some.inj hcrashed)
    exact .crash hrunning

end WageringProcessor
