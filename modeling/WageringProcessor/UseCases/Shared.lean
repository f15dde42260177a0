import WageringProcessor.Library.Locks
import WageringProcessor.Wagering.Finalizer

/-!
# What the use cases share

The committed database, the locks that open database transactions hold, the queue of events and
the messages deleted from the queue of commands.  A lock on the key of a row that is being inserted
stands for the wait of a second `INSERT` of that key in a unique index.  The id that `newId()`
returns is held for ever, so no two calls of `newId()` return the same one.
-/

namespace WageringProcessor

open Library.Interleaving (Pid)
open Library.Locks

inductive Resource
  | wallet (id : Id)
  | transaction (id : Id)
  | idempotencyKey (idempotencyKey : String)
  | external (providerId externalTransactionId : String)
  | playerCurrency (playerId : Id) (currency : Currency)
  | inbox (messageId : String)
  | outbox (id : Id)
  | uuid (id : Id)
deriving DecidableEq

namespace Resource

/-- Given back when the database transaction ends. -/
def isLock : Resource → Bool
  | uuid _ => false
  | _ => true

/-- Taken by the body of a submit, so given back when it rolls back to its savepoint. -/
def ofSubmit : Resource → Bool
  | wallet _ | idempotencyKey _ | external _ _ => true
  | _ => false

end Resource

/-- A successful `sqs.send` on the queue of events. -/
structure Sent where
  sender : Pid
  body : IntegrationEvent
  messageGroupId : String
  messageDeduplicationId : Id
deriving DecidableEq

structure Shared where
  db : Database
  locks : Locks Resource
  sent : List Sent
  deleted : List String

namespace Shared

def init : Shared := ⟨.empty, fun _ => none, [], []⟩

variable (s : Shared) (i : Pid)

def take (keys : List Resource) : Option Shared :=
  (acquire s.locks i keys).map fun locks => { s with locks := locks }

/-- `newId()`, once for each of `ids`. -/
def draw (P : Platform) (ids : List Id) : Option Shared :=
  if ids.all P.isCanonical then
    (acquireNew s.locks i (ids.map .uuid)).map fun locks => { s with locks := locks }
  else
    none

def giveBack (which : Resource → Bool) : Shared :=
  { s with locks := release s.locks i which }

def rollback : Shared := s.giveBack i Resource.isLock

def commit (writes : List Writes) : Shared :=
  ({ s with db := s.db.applyAll writes }).giveBack i Resource.isLock

/-- `findById(em, text, PESSIMISTIC_WRITE)` where the transaction has written `writes`: waits for
the row lock, then reads the row. -/
def lockWallet (P : Platform) (writes : List Writes) (text : String) :
    Option (Shared × Except Exception (Option Wallet)) :=
  match P.uuid text with
  | none => some (s, .error .database)
  | some id =>
    match (s.db.applyAll writes).findWallet id with
    | none => some (s, .ok none)
    | some wallet => (s.take i [.wallet id]).map fun s => (s, .ok (some wallet))

end Shared

/-- What a step is given from outside: the clock, fresh ids, the rows that a `LIMIT` query returns
and whether the queue accepts a message. -/
structure Input where
  now : Date
  newId : Nat → Id
  batch : List Id
  delivered : Bool

end WageringProcessor
