import WageringProcessor.Library.Interleaving
import WageringProcessor.Library.Table

/-!
# SqsClientAdapter

`sqs-client.adapter.ts`: the calls of one process share the cache of queue URLs.  Each of them
awaits `resolveQueueUrl` and then its own request, and others go on meanwhile.
-/

namespace WageringProcessor

open Library.Interleaving Library.Table

structure ReceivedSqsMessage where
  messageId : String
  receiptHandle : String
  body : String
deriving DecidableEq, Repr

/-- A call of the port. -/
inductive SqsCall
  | send (queueName body messageGroupId deduplicationId : String)
  | receive (queueName : String) (maxMessages waitTimeSeconds : Nat)
  | delete (queueName receiptHandle : String)
  | checkConnection (queueName : String)
deriving DecidableEq, Repr

inductive SqsRequest
  | getQueueUrl (queueName : String)
  | sendMessage (queueUrl messageBody messageGroupId messageDeduplicationId : String)
  | receiveMessage (queueUrl : String) (maxNumberOfMessages waitTimeSeconds : Nat)
  | deleteMessage (queueUrl receiptHandle : String)
deriving DecidableEq, Repr

inductive SqsError
  | queueNotFound (queueName : String)
  /-- The request was rejected. -/
  | rejected
deriving DecidableEq, Repr

namespace SqsCall

def queueName : SqsCall → String
  | send queueName _ _ _ | receive queueName _ _ | delete queueName _ | checkConnection queueName =>
    queueName

/-- The request of the call once its queue has the URL `queueUrl`; a check has none of its own. -/
def command (queueUrl : String) : SqsCall → SqsRequest
  | send _ body messageGroupId deduplicationId =>
    .sendMessage queueUrl body messageGroupId deduplicationId
  | receive _ maxMessages waitTimeSeconds => .receiveMessage queueUrl maxMessages waitTimeSeconds
  | delete _ receiptHandle => .deleteMessage queueUrl receiptHandle
  | checkConnection queueName => .getQueueUrl queueName

end SqsCall

inductive SqsStage
  | idle
  /-- `resolveQueueUrl` awaits the service. -/
  | resolving (call : SqsCall)
  /-- `resolveQueueUrl` has returned, and the call that awaits it has not gone on yet. -/
  | resolved (call : SqsCall) (queueUrl : String)
  /-- The call awaits its own request. -/
  | commanding (call : SqsCall) (queueUrl : String)
  | checking (queueName : String)
  | returned (messages : List ReceivedSqsMessage)
  | threw (err : SqsError)
deriving DecidableEq, Repr

/-- `queueUrlCache`. -/
abbrev UrlCache := List (String × String)

namespace SqsClientAdapter

def cached (cache : UrlCache) (queueName : String) : Option String :=
  (lookup Prod.fst queueName cache).map Prod.snd

/-- What passes `if (value)`: a text that is not empty. -/
def truthy (value : Option String) : Option String := value.filter (· ≠ "")

end SqsClientAdapter

end WageringProcessor
