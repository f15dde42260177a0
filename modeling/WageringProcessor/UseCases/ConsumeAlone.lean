import WageringProcessor.UseCases.Consume
import WageringProcessor.UseCases.SubmitAlone

/-!
# A batch that nothing interleaves with

`run` as one function of the database that it finds, with the time that it reads for each message
and what the nested `execute` draws as arguments.
-/

namespace WageringProcessor

namespace Consume

/-- What the catch block answers. -/
def caught (err : Exception) : ConsumeOutcome :=
  match err with
  | .invalidWagerTransactionMessage _ => .malformed err
  | _ => .error err

variable (P : Platform) (d : Database) (messageId : String) (now : Date) (g : Generated)

/-- The transaction from `parseWagerTransactionMessage` on: `claimed` is what it wrote before, and
`row` the row of the message by then. -/
def process (claimed : List Writes) (row : InboxMessage) : ConsumeOutcome × List Writes :=
  match parseWagerTransactionMessage P (P.messageBody messageId) with
  | .error err => (caught err, [])
  | .ok cmd =>
    match Submit.execute P d cmd g with
    | .error err => (caught err, [])
    | .ok (_, writes) =>
      match row.markProcessed now with
      | .error err => (caught (.domain err), [])
      | .ok row => (.processed, claimed ++ writes ++ [{ inboxMessages := [row] }])

/-- The outcome, with the rows that are committed by then. -/
def handle : ConsumeOutcome × List Writes :=
  match d.findByConsumerAndMessageId CONSUMER_NAME messageId with
  | some existing =>
    if existing.isProcessed then (.duplicate, [])
    else process P d messageId now g [] existing
  | none =>
    process P d messageId now g [{ inboxMessages := [receive P messageId now] }]
      (receive P messageId now)

/-- The database and the deleted messages. -/
abbrev Seen := Database × List String

def acknowledge (outcome : ConsumeOutcome) (messageId : String) (deleted : List String) :
    List String :=
  if outcome.ack then messageId :: deleted else deleted

def consumeOne (seen : Seen) : Seen :=
  let (outcome, writes) := handle P seen.1 messageId now g
  (seen.1.applyAll writes, acknowledge outcome messageId seen.2)

/-- A message of the batch, with what is drawn for it. -/
structure Delivery where
  messageId : String
  now : Date
  drawn : Generated

/-- The loop of `run`. -/
def run : List Delivery → Seen → Seen
  | [], seen => seen
  | m :: messages, seen => run messages (consumeOne P m.messageId m.now m.drawn seen)

/-- No row has the id that is drawn for a message when its turn comes. -/
def Fresh : List Delivery → Seen → Prop
  | [], _ => True
  | m :: messages, seen =>
    (∀ t ∈ seen.1.wagerTransactions, t.id ≠ m.drawn.transactionId) ∧
      Fresh messages (consumeOne P m.messageId m.now m.drawn seen)

end Consume

end WageringProcessor
