import WageringProcessor.UseCases.Submit

/-!
# ConsumeWagerTransactionBatchUseCase

`consume-wager-transaction-batch.use-case.ts` for one delivered message: `handle`, then the deletion
of the message when it is acknowledged.
-/

namespace WageringProcessor

open Library.Interleaving (Pid)

def CONSUMER_NAME : String := "wager-transactions-consumer"

inductive ConsumeOutcome
  | processed
  | duplicate
  | malformed (error : Exception)
  | error (error : Exception)
deriving DecidableEq, Repr

def ConsumeOutcome.ack : ConsumeOutcome → Bool
  | processed | duplicate => true
  | malformed _ | error _ => false

/-- A nested call of `execute` and what it returned. -/
structure NestedSubmit where
  cmd : SubmitWagerTransactionCommand
  result : SubmitWagerTransactionResult
deriving DecidableEq, Repr

inductive ConsumeStage
  | begin
  | findInbox (now : Date)
  | claimInbox (now : Date)
  | parse (now : Date) (claimed : List Writes)
  | submit (now : Date) (claimed : List Writes) (cmd : SubmitWagerTransactionCommand)
      (stage : SubmitStage)
  | markProcessed (now : Date) (writes : List Writes) (nested : NestedSubmit)
  | commit (writes : List Writes) (outcome : ConsumeOutcome) (nested : Option NestedSubmit)
  | delete (outcome : ConsumeOutcome) (nested : Option NestedSubmit)
  | done (outcome : ConsumeOutcome) (nested : Option NestedSubmit)
deriving DecidableEq, Repr

namespace Consume

variable (P : Platform) (messageId : String) (i : Pid)

/-- The catch block: everything is rolled back and the message is not acknowledged. -/
def abort (s : Shared) (err : Exception) : Shared × ConsumeStage :=
  (s.rollback i,
    .done (match err with
      | .invalidWagerTransactionMessage _ => .malformed err
      | _ => .error err) none)

def receive (now : Date) : InboxMessage :=
  .receive CONSUMER_NAME messageId (P.sha256 (P.messageBody messageId)) now

def step (inp : Input) (s : Shared) : ConsumeStage → Option (Shared × ConsumeStage)
  | .begin => some (s, .findInbox inp.now)
  | .findInbox now =>
    match s.db.findByConsumerAndMessageId CONSUMER_NAME messageId with
    | none => some (s, .claimInbox now)
    | some existing =>
      -- a claim that was not marked is left over from a crash, and is not made again
      if existing.isProcessed then some (s, .commit [] .duplicate none)
      else some (s, .parse now [])
  | .claimInbox now => do
    let s ← s.take i [.inbox messageId]
    if (s.db.findByConsumerAndMessageId CONSUMER_NAME messageId).isSome then
      return abort i s .uniqueConstraintViolation
    else
      return (s, .parse now [{ inboxMessages := [receive P messageId now] }])
  | .parse now claimed =>
    match parseWagerTransactionMessage P (P.messageBody messageId) with
    | .error err => some (abort i s err)
    | .ok cmd => some (s, .submit now claimed cmd .begin)
  -- the nested `transactional` is a savepoint: its rows are committed with the mark of the inbox
  | .submit now claimed cmd (.commit writes result) =>
    some (s, .markProcessed now (claimed ++ writes) ⟨cmd, result⟩)
  | .submit now claimed cmd (.returned result) =>
    some (s, .markProcessed now claimed ⟨cmd, result⟩)
  | .submit _ _ _ (.threw err) => some (abort i s err)
  | .submit now claimed cmd stage =>
    (Submit.step P cmd i inp s stage).map fun (s, stage) => (s, .submit now claimed cmd stage)
  | .markProcessed now writes nested =>
    match (s.db.applyAll writes).findByConsumerAndMessageId CONSUMER_NAME messageId with
    | none => some (abort i s .database)
    | some row =>
      match row.markProcessed now with
      | .error err => some (abort i s (.domain err))
      | .ok row =>
        some (s, .commit (writes ++ [{ inboxMessages := [row] }]) .processed (some nested))
  -- the message is deleted only after the commit
  | .commit writes outcome nested => some (s.commit i writes, .delete outcome nested)
  | .delete outcome nested =>
    some ({ s with deleted := messageId :: s.deleted }, .done outcome nested)
  | .done _ _ => none

end Consume

end WageringProcessor
