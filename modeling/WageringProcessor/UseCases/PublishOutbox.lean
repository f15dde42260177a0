import WageringProcessor.UseCases.Shared

/-!
# PublishOutboxBatchUseCase

`publish-outbox-batch.use-case.ts`: the messages are sent inside the database transaction that
marks them.
-/

namespace WageringProcessor

open Library.Interleaving (Pid)

structure PublishRun where
  now : Date
  batch : List OutboxMessage
  saved : List OutboxMessage
deriving DecidableEq, Repr

inductive PublishStage
  | begin
  | publishing (run : PublishRun) (todo : List OutboxMessage)
  | returned (count : Nat)
  | threw (err : Exception)
deriving DecidableEq, Repr

namespace PublishOutbox

variable (i : Pid)

/-- A row that `FOR UPDATE SKIP LOCKED` does not skip. -/
def available (s : Shared) (now : Date) (m : OutboxMessage) : Bool :=
  m.isDue now && s.locks (.outbox m.id) = none

/-- `ids` may be what `findDueBatch` returns: `limit` of the available rows, the ones with the
least `occurredAt`, in that order. -/
def isBatch (s : Shared) (now : Date) (limit : Nat) (ids : List Id) : Bool :=
  let rows := ids.filterMap s.db.findOutboxMessage
  decide ids.Nodup &&
    ids.all (fun id => (s.db.findOutboxMessage id).any (available s now)) &&
    ids.length = min limit (s.db.outboxMessages.countP (available s now)) &&
    decide (rows.Pairwise fun m m' => m.occurredAt ≤ m'.occurredAt) &&
    s.db.outboxMessages.all fun m =>
      !available s now m || ids.contains m.id || rows.all fun m' => m'.occurredAt ≤ m.occurredAt

/-- What `publishOne` leaves of the message; the catch block covers `markPublished` as well. -/
def publishOne (m : OutboxMessage) (now : Date) (delivered : Bool) :
    Except DomainError OutboxMessage :=
  if delivered then
    match m.markPublished now with
    | .ok m => .ok m
    | .error _ => m.scheduleRetry now
  else
    m.scheduleRetry now

def writes (run : PublishRun) : List Writes := [{ outboxMessages := run.saved }]

def abort (s : Shared) (err : Exception) : Shared × PublishStage := (s.rollback i, .threw err)

def send (s : Shared) (m : OutboxMessage) (delivered : Bool) : Shared :=
  if delivered then { s with sent := s.sent ++ [⟨i, m.payload, m.aggregateId, m.id⟩] } else s

def step (batchSize : Nat) (inp : Input) (s : Shared) :
    PublishStage → Option (Shared × PublishStage)
  | .begin =>
    if isBatch s inp.now batchSize inp.batch then do
      let batch := inp.batch.filterMap s.db.findOutboxMessage
      let s ← s.take i (inp.batch.map .outbox)
      return (s, .publishing ⟨inp.now, batch, []⟩ batch)
    else
      none
  | .publishing run [] => some (s.commit i (writes run), .returned run.batch.length)
  | .publishing run (m :: rest) =>
    -- what is sent stays sent, also where the run is rolled back
    let s := send i s m inp.delivered
    match publishOne m run.now inp.delivered with
    | .error err => some (abort i s (.domain err))
    | .ok m' =>
      match (s.db.applyAll (writes run)).flush { outboxMessages := [m'] } with
      | .error err => some (abort i s err)
      | .ok () => some (s, .publishing { run with saved := run.saved ++ [m'] } rest)
  | .returned _ => none
  | .threw _ => none

end PublishOutbox

end WageringProcessor
