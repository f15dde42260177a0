import WageringProcessor.Persistence.Database
import WageringProcessor.Wagering.PayloadHash

/-!
# Commands and the messages that carry them

`SubmitWagerTransactionCommand` and `parse-wager-transaction-message.ts`.
-/

namespace WageringProcessor

open Library.JsonText (Json)

structure SubmitWagerTransactionCommand where
  providerId : String
  externalTransactionId : String
  idempotencyKey : String
  playerId : String
  walletId : String
  roundId : String
  gameId : String
  kind : WagerTransactionKind
  money : Money
  referenceExternalTransactionId : Option String
  correlationId : Option String
  causationId : Option String
deriving DecidableEq, Repr

namespace SubmitWagerTransactionCommand

/-- The business payload that `execute` hashes. -/
def payload (cmd : SubmitWagerTransactionCommand) : PayloadHashInput where
  providerId := cmd.providerId
  externalTransactionId := cmd.externalTransactionId
  playerId := cmd.playerId
  walletId := cmd.walletId
  roundId := cmd.roundId
  gameId := cmd.gameId
  kind := cmd.kind.text
  money := cmd.money.toJSON
  referenceExternalTransactionId := cmd.referenceExternalTransactionId

def payloadHash (P : Platform) (cmd : SubmitWagerTransactionCommand) : String :=
  computePayloadHash P.sha256 cmd.payload

end SubmitWagerTransactionCommand

def requireString (value : Option Json) (field : String) : Except Exception String :=
  match value with
  | some (.string s) => if s = "" then .error (absent field) else .ok s
  | _ => .error (absent field)
where
  absent (field : String) : Exception :=
    .invalidWagerTransactionMessage ("campo \"" ++ field ++ "\" ausente ou não é string")

def parseKind (text : String) : Except Exception WagerTransactionKind :=
  match WagerTransactionKind.all.find? fun kind => kind.text = text with
  | some kind => .ok kind
  | none => .error (.invalidWagerTransactionMessage ("kind \"" ++ text ++ "\" inválido"))

/-- `JSON.parse` with its two checks on the whole body. -/
def parseBody (P : Platform) (body : String) : Except Exception Json :=
  match P.jsonParse body with
  | none => .error (.invalidWagerTransactionMessage "body não é JSON válido")
  | some (.object members) => .ok (.object members)
  | some (.array items) => .ok (.array items)
  | some _ => .error (.invalidWagerTransactionMessage "body não é um objeto")

def requireMoney (value : Option Json) : Except Exception Json :=
  match value with
  | some (.object members) => .ok (.object members)
  | some (.array items) => .ok (.array items)
  | _ => .error (.invalidWagerTransactionMessage "campo \"money\" ausente")

def optionalString (value : Option Json) (field : String) : Except Exception (Option String) :=
  match value with
  | none => .ok none
  | some v => (requireString (some v) field).map some

def parseWagerTransactionMessage (P : Platform) (body : String) :
    Except Exception SubmitWagerTransactionCommand := do
  let raw ← parseBody P body
  let kind ← parseKind (← requireString (raw.get? "kind") "kind")
  let moneyRaw ← requireMoney (raw.get? "money")
  let referenceExternalTransactionId ←
    optionalString (raw.get? "referenceExternalTransactionId") "referenceExternalTransactionId"
  let providerId ← requireString (raw.get? "providerId") "providerId"
  let externalTransactionId ←
    requireString (raw.get? "externalTransactionId") "externalTransactionId"
  let idempotencyKey ← requireString (raw.get? "idempotencyKey") "idempotencyKey"
  let playerId ← requireString (raw.get? "playerId") "playerId"
  let walletId ← requireString (raw.get? "walletId") "walletId"
  let roundId ← requireString (raw.get? "roundId") "roundId"
  let gameId ← requireString (raw.get? "gameId") "gameId"
  let amount ← requireString (moneyRaw.get? "amount") "money.amount"
  let currency ← requireString (moneyRaw.get? "currency") "money.currency"
  let money ← (Money.ofProps ⟨amount, currency⟩).mapError .domain
  return {
    providerId, externalTransactionId, idempotencyKey, playerId, walletId, roundId, gameId, kind,
    money, referenceExternalTransactionId
    correlationId := none
    causationId := none }

end WageringProcessor
