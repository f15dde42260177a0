import WageringProcessor.UseCases.Consume
import WageringProcessor.UseCases.OpenWallet
import WageringProcessor.UseCases.PublishOutbox
import WageringProcessor.UseCases.Reprocess

/-!
# The system

Any number of calls of the five use cases over one database.  A call runs one statement at a time
in any interleaving with the others; a statement may fail for a reason outside the code, and the
process of a call may stop between any two of its steps.
-/

namespace WageringProcessor

open Library.Interleaving

inductive Call
  | openWallet (cmd : OpenWalletCommand)
  | submit (cmd : SubmitWagerTransactionCommand)
  | consume (messageId : String)
  | reprocess (batchSize : Nat)
  | publishOutbox (batchSize : Nat)
deriving DecidableEq, Repr

inductive Proc
  | idle
  | openWallet (cmd : OpenWalletCommand) (stage : OpenWalletStage)
  | submit (cmd : SubmitWagerTransactionCommand) (stage : SubmitStage)
  | consume (messageId : String) (stage : ConsumeStage)
  | reprocess (batchSize : Nat) (stage : ReprocessStage)
  | publishOutbox (batchSize : Nat) (stage : PublishStage)
  | crashed
deriving DecidableEq, Repr

namespace Proc

def start : Call → Proc
  | .openWallet cmd => openWallet cmd .begin
  | .submit cmd => submit cmd .begin
  | .consume messageId => consume messageId .begin
  | .reprocess batchSize => reprocess batchSize .begin
  | .publishOutbox batchSize => publishOutbox batchSize .begin

/-- Between the start of a call and its end. -/
def running : Proc → Bool
  | idle | crashed => false
  | openWallet _ (.returned _) | openWallet _ (.threw _) => false
  | submit _ (.returned _) | submit _ (.threw _) => false
  | consume _ (.done _ _) => false
  | reprocess _ (.returned _) | reprocess _ (.threw _) => false
  | publishOutbox _ (.returned _) | publishOutbox _ (.threw _) => false
  | _ => true

/-- The statement that the call waits for fails.  A consumer catches this unless it is deleting
its message, where the failure ends the call. -/
def failed : Proc → Proc
  | openWallet cmd _ => openWallet cmd (.threw .database)
  | submit cmd _ => submit cmd (.threw .database)
  | consume _ (.delete _ _) => crashed
  | consume messageId _ => consume messageId (.done (.error .database) none)
  | reprocess batchSize _ => reprocess batchSize (.threw .database)
  | publishOutbox batchSize _ => publishOutbox batchSize (.threw .database)
  | p => p

end Proc

inductive Action
  | start (call : Call)
  | step (inp : Input)
  | fail
  | crash

def submitStep (P : Platform) (cmd : SubmitWagerTransactionCommand) (i : Pid) (inp : Input)
    (s : Shared) : SubmitStage → Option (Shared × SubmitStage)
  | .commit writes result => some (s.commit i writes, .returned result)
  | stage => Submit.step P cmd i inp s stage

def procStep (P : Platform) (i : Pid) (inp : Input) (s : Shared) : Proc → Option (Shared × Proc)
  | .openWallet cmd stage =>
    (OpenWallet.step P cmd i inp s stage).map fun (s, stage) => (s, .openWallet cmd stage)
  | .submit cmd stage =>
    (submitStep P cmd i inp s stage).map fun (s, stage) => (s, .submit cmd stage)
  | .consume messageId stage =>
    (Consume.step P messageId i inp s stage).map fun (s, stage) => (s, .consume messageId stage)
  | .reprocess batchSize stage =>
    (Reprocess.step P i batchSize inp s stage).map fun (s, stage) => (s, .reprocess batchSize stage)
  | .publishOutbox batchSize stage =>
    (PublishOutbox.step i batchSize inp s stage).map fun (s, stage) =>
      (s, .publishOutbox batchSize stage)
  | .idle => none
  | .crashed => none

def step (P : Platform) : LocalStep Shared Proc Action
  | _, .start call, s, p => if p = .idle then some (s, .start call) else none
  | i, .step inp, s, p => procStep P i inp s p
  -- the database rolls back what the open transaction has done
  | i, .fail, s, p => if p.running then some (s.rollback i, p.failed) else none
  | i, .crash, s, p => if p.running then some (s.rollback i, .crashed) else none

/-- The empty database, no call made yet. -/
def initial : Config Shared Proc := ⟨.init, fun _ => .idle⟩

end WageringProcessor
