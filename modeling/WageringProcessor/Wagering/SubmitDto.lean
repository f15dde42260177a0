import WageringProcessor.Wagering.ParseMessage

/-!
# The HTTP entry

`submit-wager-transaction.dto.ts`, `money.dto.ts` and `submitTransaction` of
`wagering.controller.ts`, behind the global `ValidationPipe` of `main.ts`.
-/

namespace WageringProcessor

open Library.JsonText (Json)

/-- Why a request builds no command: the `ValidationPipe` answers 400, `Money.from` throws, or the
controller reads a property of a money that is not there. -/
inductive HttpRefusal
  | badRequest
  | domain (error : DomainError)
  | typeError
deriving DecidableEq, Repr

/-- What an optional property of the DTO holds. -/
inductive OptionalProperty
  | undefined
  | null
  | text (s : String)
deriving DecidableEq, Repr

/-- The command that the controller builds; it hands the reference on as it came. -/
structure HttpCommand where
  providerId : String
  externalTransactionId : String
  idempotencyKey : String
  playerId : String
  walletId : String
  roundId : String
  gameId : String
  kind : WagerTransactionKind
  money : Money
  referenceExternalTransactionId : OptionalProperty
deriving DecidableEq, Repr

namespace HttpCommand

def withReference (cmd : HttpCommand) (reference : Option String) : PayloadHashInput where
  providerId := cmd.providerId
  externalTransactionId := cmd.externalTransactionId
  playerId := cmd.playerId
  walletId := cmd.walletId
  roundId := cmd.roundId
  gameId := cmd.gameId
  kind := cmd.kind.text
  money := cmd.money.toJSON
  referenceExternalTransactionId := reference

/-- The business payload that `execute` hashes; `JSON.stringify` keeps a `null`. -/
def payload (cmd : HttpCommand) : Json :=
  match cmd.referenceExternalTransactionId, (cmd.withReference none).toJson with
  | .text s, _ => (cmd.withReference (some s)).toJson
  | .null, .object members => .object (members ++ [("referenceExternalTransactionId", .null)])
  | _, value => value

def payloadHash (P : Platform) (cmd : HttpCommand) : String := P.sha256 (canonicalJson cmd.payload)

end HttpCommand

/-- The properties of `SubmitWagerTransactionDto`. -/
def submitProperties : List String :=
  ["providerId", "externalTransactionId", "idempotencyKey", "playerId", "walletId", "roundId",
    "gameId", "kind", "money", "referenceExternalTransactionId"]

/-- The properties of `MoneyDto`. -/
def moneyProperties : List String := ["amount", "currency"]

/-- `forbidNonWhitelisted`. -/
def onlyProperties (properties : List String) (members : List (String × Json)) : Bool :=
  members.all fun m => properties.contains m.1

/-- `@IsString()`. -/
def isString (value : Option Json) : Except HttpRefusal String :=
  match value with
  | some (.string s) => .ok s
  | _ => .error .badRequest

/-- `@IsOptional() @IsString()`. -/
def isOptionalString (value : Option Json) : Except HttpRefusal OptionalProperty :=
  match value with
  | none => .ok .undefined
  | some .null => .ok .null
  | some (.string s) => .ok (.text s)
  | _ => .error .badRequest

/-- `@IsEnum(WagerTransactionKind)`. -/
def isKind (value : Option Json) : Except HttpRefusal WagerTransactionKind :=
  match value with
  | some (.string s) =>
    match WagerTransactionKind.all.find? fun kind => kind.text = s with
    | some kind => .ok kind
    | none => .error .badRequest
  | _ => .error .badRequest

/-- `/^\d+\.\d{2}$/`. -/
def matchesAmount (amount : List Char) : Bool :=
  match amount.takeWhile Char.isDigit, amount.dropWhile Char.isDigit with
  | integer, ['.', d₁, d₂] => integer != [] && d₁.isDigit && d₂.isDigit
  | _, _ => false

/-- The decorators of `MoneyDto`. -/
def validateMoneyDto (members : List (String × Json)) : Except HttpRefusal MoneyProps := do
  let amount ← isString ((Json.object members).get? "amount")
  let currency ← isString ((Json.object members).get? "currency")
  if onlyProperties moneyProperties members && matchesAmount amount.toList &&
      validCurrency currency then
    return ⟨amount, currency⟩
  else
    throw .badRequest

/-- What the property `money` of the DTO holds. -/
inductive MoneyProperty
  | undefined
  | array
  | props (props : MoneyProps)
deriving DecidableEq, Repr

mutual

/-- An element of an array is validated like the value of the property. -/
def nestedMoney : Json → Bool
  | .object members => (validateMoneyDto members).toOption.isSome
  | .array items => nestedMonies items
  | _ => false

def nestedMonies : List Json → Bool
  | [] => true
  | item :: rest => nestedMoney item && nestedMonies rest

end

/-- `@ValidateNested() @Type(() => MoneyDto)`, which skips a money that is not there and looks for
monies in an array. -/
def validateMoney (value : Option Json) : Except HttpRefusal MoneyProperty :=
  match value with
  | none => .ok .undefined
  | some (.object members) => (validateMoneyDto members).map .props
  | some (.array items) => if nestedMonies items then .ok .array else .error .badRequest
  | _ => .error .badRequest

/-- `Money.from(dto.money)`.  An array has no amount, and the expressions read that as a text. -/
def moneyOf (money : MoneyProperty) : Except HttpRefusal Money :=
  match money with
  | .undefined => .error .typeError
  | .array => .error (.domain (.invalidMoneyAmount "undefined"))
  | .props props => (Money.ofProps props).mapError .domain

def submitTransaction (members : List (String × Json)) : Except HttpRefusal HttpCommand := do
  let dto := Json.object members
  if !onlyProperties submitProperties members then throw .badRequest
  let providerId ← isString (dto.get? "providerId")
  let externalTransactionId ← isString (dto.get? "externalTransactionId")
  let idempotencyKey ← isString (dto.get? "idempotencyKey")
  let playerId ← isString (dto.get? "playerId")
  let walletId ← isString (dto.get? "walletId")
  let roundId ← isString (dto.get? "roundId")
  let gameId ← isString (dto.get? "gameId")
  let kind ← isKind (dto.get? "kind")
  let moneyDto ← validateMoney (dto.get? "money")
  let referenceExternalTransactionId ←
    isOptionalString (dto.get? "referenceExternalTransactionId")
  let money ← moneyOf moneyDto
  return {
    providerId, externalTransactionId, idempotencyKey, playerId, walletId, roundId, gameId, kind,
    money, referenceExternalTransactionId }

end WageringProcessor
