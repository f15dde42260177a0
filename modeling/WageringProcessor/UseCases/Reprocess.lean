import WageringProcessor.UseCases.Shared

/-!
# ReprocessPendingReferencesUseCase

`reprocess-pending-references.use-case.ts`: one database transaction for the whole batch.  Unlike
a submit, `processOne` resolves the reference before it locks the wallet.
-/

namespace WageringProcessor

open Library.Interleaving (Pid)

/-- The variables of `run`, with the rows written so far. -/
structure ReprocessRun where
  now : Date
  batch : List WagerTransaction
  writes : List Writes
deriving DecidableEq, Repr

inductive ReprocessStage
  | begin
  | item (run : ReprocessRun) (todo : List WagerTransaction)
  | findReversal (run : ReprocessRun) (tx : WagerTransaction) (ctx : EventContext)
      (reference : WagerTransaction) (rest : List WagerTransaction)
  | resolved (run : ReprocessRun) (tx : WagerTransaction) (ctx : EventContext)
      (resolution : ReferenceResolution) (rest : List WagerTransaction)
  | applyEffect (run : ReprocessRun) (tx : WagerTransaction) (ctx : EventContext)
      (wallet : Wallet) (reference : WagerTransaction) (rest : List WagerTransaction)
  | returned (count : Nat)
  | threw (err : Exception)
deriving DecidableEq, Repr

namespace Reprocess

open WagerTransactionFinalizer

variable (P : Platform) (i : Pid)

/-- A row that `FOR UPDATE SKIP LOCKED` does not skip. -/
def available (s : Shared) (now : Date) (t : WagerTransaction) : Bool :=
  Database.duePendingReference now t && s.locks (.transaction t.id) = none

/-- `ids` may be what `findDuePendingReferenceBatch` returns: any `limit` of the available rows, in
any order. -/
def isBatch (s : Shared) (now : Date) (limit : Nat) (ids : List Id) : Bool :=
  decide ids.Nodup &&
    ids.all (fun id => (s.db.findWagerTransaction id).any (available s now)) &&
      ids.length = min limit (s.db.wagerTransactions.countP (available s now))

def abort (s : Shared) (err : Exception) : Shared × ReprocessStage := (s.rollback i, .threw err)

def view (s : Shared) (run : ReprocessRun) : Database := s.db.applyAll run.writes

/-- Sends what the decision on one item writes, or gives the whole run up. -/
def settle (s : Shared) (run : ReprocessRun) (rest : List WagerTransaction)
    (outcome : Except DomainError Writes) : Shared × ReprocessStage :=
  match outcome with
  | .error err => abort i s (.domain err)
  | .ok writes =>
    match (view s run).flush writes with
    | .error err => abort i s err
    | .ok () => (s, .item { run with writes := run.writes ++ [writes] } rest)

/-- The decision on an item whose reference is not resolved. -/
def decide (tx : WagerTransaction) (ctx : EventContext) (failureCode : Option FailureCode)
    (eventId : Id) : Except DomainError Writes :=
  match failureCode with
  | some failureCode => (reject P tx failureCode ctx eventId).map Prod.snd
  | none =>
    if MAX_REFERENCE_RETRY_ATTEMPTS ≤ tx.referenceRetryAttempts then
      (reject P tx .referenceResolutionTimeout ctx eventId).map Prod.snd
    else
      (markPendingReference P tx ctx eventId).map Prod.snd

def step (batchSize : Nat) (inp : Input) (s : Shared) :
    ReprocessStage → Option (Shared × ReprocessStage)
  | .begin =>
    if isBatch s inp.now batchSize inp.batch then do
      let batch := inp.batch.filterMap s.db.findWagerTransaction
      let s ← s.take i (inp.batch.map .transaction)
      return (s, .item ⟨inp.now, batch, []⟩ batch)
    else
      none
  -- the end of the loop: one commit for the whole batch
  | .item run [] => some (s.commit i run.writes, .returned run.batch.length)
  -- `processOne` up to the first query of `resolveReference`
  | .item run (tx :: rest) => do
    let s ← s.draw i P [inp.newId 0]
    let ctx := ⟨inp.newId 0, none, run.now⟩
    match findReference (view s run) tx with
    | .error err => return abort i s (.domain err)
    | .ok (.resolved reference) => return (s, .findReversal run tx ctx reference rest)
    | .ok resolution => return (s, .resolved run tx ctx resolution rest)
  | .findReversal run tx ctx reference rest =>
    some (s, .resolved run tx ctx (findReversal (view s run) tx reference) rest)
  -- the wallet is locked only now that its reference has been read
  | .resolved run tx ctx (.resolved reference) rest => do
    match ← s.lockWallet i P run.writes tx.walletId with
    | (s, .error err) => return abort i s err
    | (s, .ok none) => return abort i s (.domain (.walletNotFound tx.walletId))
    | (s, .ok (some wallet)) => return (s, .applyEffect run tx ctx wallet reference rest)
  | .resolved run tx ctx (.rejected failureCode) rest => do
    let s ← s.draw i P [inp.newId 1]
    return settle i s run rest (decide P tx ctx (some failureCode) (inp.newId 1))
  -- the last attempt times out, the others are scheduled again
  | .resolved run tx ctx .pending rest => do
    let s ← s.draw i P [inp.newId 1]
    return settle i s run rest (decide P tx ctx none (inp.newId 1))
  | .applyEffect run tx ctx wallet reference rest => do
    let s ← s.draw i P [inp.newId 0, inp.newId 1, inp.newId 2]
    return settle i s run rest
      ((applyEffect P tx wallet (some reference) ctx inp.newId).map fun out => out.2.2)
  | .returned _ => none
  | .threw _ => none

end Reprocess

end WageringProcessor
