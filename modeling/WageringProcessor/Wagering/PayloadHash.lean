import WageringProcessor.Shared.Kernel
import WageringProcessor.Wagering.CanonicalJson

/-!
# The payload hash

`payload-hash.ts`.  A member that is `undefined` is left out of the text, so a payload without a
reference has no such member.
-/

namespace WageringProcessor

open Library.JsonText

structure PayloadHashInput where
  providerId : String
  externalTransactionId : String
  playerId : String
  walletId : String
  roundId : String
  gameId : String
  kind : String
  money : MoneyProps
  referenceExternalTransactionId : Option String
deriving DecidableEq, Repr

def MoneyProps.toJson (money : MoneyProps) : Json :=
  .object [("amount", .string money.amount), ("currency", .string money.currency)]

def PayloadHashInput.toJson (input : PayloadHashInput) : Json :=
  .object <|
    [("providerId", .string input.providerId),
      ("externalTransactionId", .string input.externalTransactionId),
      ("playerId", .string input.playerId),
      ("walletId", .string input.walletId),
      ("roundId", .string input.roundId),
      ("gameId", .string input.gameId),
      ("kind", .string input.kind),
      ("money", input.money.toJson)] ++
    match input.referenceExternalTransactionId with
    | some reference => [("referenceExternalTransactionId", .string reference)]
    | none => []

def computePayloadHash (sha256 : String → String) (input : PayloadHashInput) : String :=
  sha256 (canonicalJson input.toJson)

theorem wellFormed_toJson (input : PayloadHashInput) : WellFormed input.toJson := by
  obtain ⟨_, _, _, _, _, _, _, _, reference⟩ := input
  cases reference <;>
    simp [PayloadHashInput.toJson, MoneyProps.toJson, WellFormed, WellFormedMembers]

/-- Payloads with the same members are the same. -/
theorem eq_of_same {input input' : PayloadHashInput}
    (h : SameUpToKeyOrder input.toJson input'.toJson) : input = input' := by
  obtain ⟨_, _, _, _, _, _, _, ⟨_, _⟩, reference⟩ := input
  obtain ⟨_, _, _, _, _, _, _, ⟨_, _⟩, reference'⟩ := input'
  cases reference <;> cases reference' <;>
    simp [PayloadHashInput.toJson, MoneyProps.toJson, SameMembers] at h <;>
    simp [h]

theorem canonicalJson_inj {input input' : PayloadHashInput}
    (h : canonicalJson input.toJson = canonicalJson input'.toJson) : input = input' :=
  eq_of_same <|
    (canonicalJson_eq_iff (wellFormed_toJson input) (wellFormed_toJson input')).mp h

/-- With a collision-free digest the hash determines the payload. -/
theorem computePayloadHash_inj {sha256 : String → String} (hinj : Function.Injective sha256)
    {input input' : PayloadHashInput}
    (h : computePayloadHash sha256 input = computePayloadHash sha256 input') : input = input' :=
  canonicalJson_inj (hinj h)

end WageringProcessor
