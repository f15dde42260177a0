import WageringProcessor.Persistence.Columns
import WageringProcessor.System

/-!
# The system with the limits of the columns

A call takes its steps as in `step`, except that a statement fails when a row that it sends does not
fit its columns.
-/

namespace WageringProcessor

open Library.Interleaving WagerTransactionFinalizer

/-! ## What the next statement of a call sends -/

def OpenWallet.sent (P : Platform) (cmd : OpenWalletCommand) (inp : Input) :
    OpenWalletStage → List Writes
  | .insertWallet _ wallet => [walletWrites P wallet]
  | .claimKey _ _ tx => [Submit.claimWrites P tx]
  | .insertEntry now wallet tx =>
    match openingEntry cmd (inp.newId 0) wallet tx now with
    | .error _ => []
    | .ok entry => [openingWrites P cmd wallet tx entry ⟨inp.newId 1, none, now⟩ inp.newId]
  | _ => []

def Submit.sent (P : Platform) (inp : Input) : SubmitStage → List Writes
  | .claimKey _ tx => [claimWrites P tx]
  | .finalize wallet tx ctx resolution =>
    match decide P wallet tx ctx resolution inp.newId with
    | .error _ => []
    | .ok (_, _, writes) => [writes]
  | _ => []

def Consume.sent (P : Platform) (messageId : String) (inp : Input) : ConsumeStage → List Writes
  | .claimInbox now | .markProcessed now _ _ => [{ inboxMessages := [receive P messageId now] }]
  | .submit _ _ _ stage => Submit.sent P inp stage
  | _ => []

def Reprocess.sent (P : Platform) (inp : Input) : ReprocessStage → List Writes
  | .resolved _ tx ctx (.rejected failureCode) _ =>
    (decide P tx ctx (some failureCode) (inp.newId 1)).toOption.toList
  | .resolved _ tx ctx .pending _ => (decide P tx ctx none (inp.newId 1)).toOption.toList
  | .applyEffect _ tx ctx wallet reference _ =>
    match applyEffect P tx wallet (some reference) ctx inp.newId with
    | .error _ => []
    | .ok (_, _, writes) => [writes]
  | _ => []

def PublishOutbox.sent : PublishStage → List Writes
  | .publishing run [] => writes run
  | _ => []

def Proc.sent (P : Platform) (inp : Input) : Proc → List Writes
  | openWallet cmd stage => OpenWallet.sent P cmd inp stage
  | submit _ stage => Submit.sent P inp stage
  | consume messageId stage => Consume.sent P messageId inp stage
  | reprocess _ stage => Reprocess.sent P inp stage
  | publishOutbox _ stage => PublishOutbox.sent stage
  | idle | crashed => []

/-! ## The steps -/

def columnStep (P : Platform) : LocalStep Shared Proc Action
  | i, .step inp, s, p =>
    if (p.sent P inp).all Writes.fits then step P i (.step inp) s p else step P i .fail s p
  | i, a, s, p => step P i a s p

variable {P : Platform} {i : Pid} {a : Action} {s : Shared} {p : Proc} {out : Shared × Proc}
  {inp : Input} {ok : Config Shared Proc → Pid → Action → Prop} {c : Config Shared Proc}

theorem columnStep_fits (h : (p.sent P inp).all Writes.fits = true) :
    columnStep P i (.step inp) s p = step P i (.step inp) s p := if_pos h

theorem columnStep_refused (h : (p.sent P inp).all Writes.fits = false) :
    columnStep P i (.step inp) s p = step P i .fail s p :=
  if_neg (by rw [h]; exact Bool.false_ne_true)

/-- A step with the limits is one without them, or a failure. -/
theorem columnStep_step (h : columnStep P i a s p = some out) :
    ∃ a', step P i a' s p = some out := by
  cases a with
  | step inp =>
    cases hfits : (p.sent P inp).all Writes.fits with
    | true => exact ⟨.step inp, columnStep_fits hfits ▸ h⟩
    | false => exact ⟨.fail, columnStep_refused hfits ▸ h⟩
  | start call => exact ⟨.start call, h⟩
  | fail => exact ⟨.fail, h⟩
  | crash => exact ⟨.crash, h⟩

theorem reach_columns (h : Reach (columnStep P) ok initial c) : Reachable (step P) initial c :=
  h.refines fun _ _ _ _ _ hstep => columnStep_step hstep

end WageringProcessor
