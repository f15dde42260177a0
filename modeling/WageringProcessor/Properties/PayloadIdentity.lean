import WageringProcessor.Runs
import WageringProcessor.Shared.MoneyText

/-!
# The payload hash identifies the business content

The canonical text of a value forgets the order of its keys and nothing else, so two commands have
the same digest exactly when their business fields agree.
-/

namespace WageringProcessor

open Library.JsonText (Json)

variable {P : Platform} {cmd cmd' : SubmitWagerTransactionCommand}

theorem payload_eq_iff : cmd.payload = cmd'.payload ↔
    cmd.providerId = cmd'.providerId ∧ cmd.externalTransactionId = cmd'.externalTransactionId ∧
    cmd.playerId = cmd'.playerId ∧ cmd.walletId = cmd'.walletId ∧ cmd.roundId = cmd'.roundId ∧
    cmd.gameId = cmd'.gameId ∧ cmd.kind = cmd'.kind ∧ cmd.money = cmd'.money ∧
    cmd.referenceExternalTransactionId = cmd'.referenceExternalTransactionId := by
  have hkind : cmd.kind.text = cmd'.kind.text ↔ cmd.kind = cmd'.kind :=
    WagerTransactionKind.text_injective.eq_iff
  have hmoney : cmd.money.toJSON = cmd'.money.toJSON ↔ cmd.money = cmd'.money :=
    ⟨Money.toJSON_inj, congrArg Money.toJSON⟩
  unfold SubmitWagerTransactionCommand.payload
  rw [PayloadHashInput.mk.injEq, hkind, hmoney]

/-- However the keys were inserted, the canonical text of a payload is that of its fields. -/
theorem canonicalJson_payload {input : PayloadHashInput} {v : Json} (hv : WellFormed v)
    (h : SameUpToKeyOrder v input.toJson) : canonicalJson v = canonicalJson input.toJson :=
  (canonicalJson_eq_iff hv (wellFormed_toJson input)).mpr h

theorem canonicalJson_identifies (P : Platform) :
    (∀ v w, WellFormed v → WellFormed w →
      (canonicalJson v = canonicalJson w ↔ SameUpToKeyOrder v w)) ∧
    (∀ (input input' : PayloadHashInput) (v v' : Json), WellFormed v → WellFormed v' →
      SameUpToKeyOrder v input.toJson → SameUpToKeyOrder v' input'.toJson →
        (canonicalJson v = canonicalJson v' ↔ input = input')) ∧
    (Function.Injective P.sha256 →
      ∀ (cmd cmd' : SubmitWagerTransactionCommand) (tx : WagerTransaction),
        tx.payloadHash = cmd.payloadHash P →
          (tx.matchesPayload (cmd'.payloadHash P) = true ↔
            cmd.providerId = cmd'.providerId ∧
            cmd.externalTransactionId = cmd'.externalTransactionId ∧
            cmd.playerId = cmd'.playerId ∧ cmd.walletId = cmd'.walletId ∧
            cmd.roundId = cmd'.roundId ∧ cmd.gameId = cmd'.gameId ∧ cmd.kind = cmd'.kind ∧
            cmd.money = cmd'.money ∧
            cmd.referenceExternalTransactionId = cmd'.referenceExternalTransactionId)) := by
  refine ⟨fun v w hv hw => canonicalJson_eq_iff hv hw, ?_, ?_⟩
  · intro input input' v v' hv hv' h h'
    rw [canonicalJson_payload hv h, canonicalJson_payload hv' h']
    exact ⟨canonicalJson_inj, fun heq => by rw [heq]⟩
  · intro hinj cmd cmd' tx htx
    rw [← payload_eq_iff, WagerTransaction.matchesPayload, decide_eq_true_eq, htx]
    exact ⟨computePayloadHash_inj hinj, congrArg (computePayloadHash P.sha256)⟩

/-! ## A refund whose members come in another order -/

def localRefund : SubmitWagerTransactionCommand :=
  submitCommand .refund "refund-1" (some "bet-1") (uuidText 10)

def localBet : SubmitWagerTransactionCommand := submitCommand .bet "bet-1" none (uuidText 10)

/-- The transaction that `create` makes for the command. -/
def createdFor (P : Platform) (cmd : SubmitWagerTransactionCommand) : WagerTransaction :=
  ⟨Submit.props P cmd (uuidText 100) 7000, .pending, none, none, none, 0, none⟩

theorem createdFor_payloadHash : (createdFor P cmd).payloadHash = cmd.payloadHash P := rfl

/-- The payload of the refund, its members in another order at both levels. -/
def shuffledPayload : Json :=
  .object
    [("walletId", .string (uuidText 10)),
      ("roundId", .string "round-1"),
      ("referenceExternalTransactionId", .string "bet-1"),
      ("providerId", .string "acme"),
      ("playerId", .string "0195a3c0-0000-7000-8000-0000000000ff"),
      ("money", .object [("currency", .string "BRL"), ("amount", .string "30.00")]),
      ("kind", .string "REFUND"),
      ("gameId", .string "game-1"),
      ("externalTransactionId", .string "refund-1")]

theorem shuffledPayload_wellFormed : WellFormed shuffledPayload := by
  simp [shuffledPayload, WellFormed, WellFormedMembers]

theorem shuffledPayload_same : SameUpToKeyOrder shuffledPayload localRefund.payload.toJson := by
  have hmoney : (⟨3000, brl⟩ : Money).toJSON = ⟨"30.00", "BRL"⟩ := by decide +kernel
  simp [shuffledPayload, localRefund, submitCommand, SubmitWagerTransactionCommand.payload,
    PayloadHashInput.toJson, hmoney, SameMembers, MoneyProps.toJson, WagerTransactionKind.text]

/-- The text is that of the refund's payload, which no other command has. -/
theorem shuffledPayload_identified :
    canonicalJson shuffledPayload = canonicalJson localRefund.payload.toJson ∧
      canonicalJson shuffledPayload ≠ canonicalJson localBet.payload.toJson ∧
        (createdFor localPlatform localRefund).matchesPayload
            (localRefund.payloadHash localPlatform) = true ∧
          (createdFor localPlatform localRefund).matchesPayload
            (localBet.payloadHash localPlatform) = false := by
  obtain ⟨hvalues, hpayloads, hhashes⟩ := canonicalJson_identifies localPlatform
  have hbet := wellFormed_toJson localBet.payload
  have hpayload : localRefund.payload ≠ localBet.payload :=
    fun heq => absurd (congrArg PayloadHashInput.kind heq) (by decide)
  have hmatches := fun cmd => hhashes localSha256_injective localRefund cmd _ createdFor_payloadHash
  refine ⟨?_, ?_, ?_, ?_⟩
  · exact (hvalues _ _ shuffledPayload_wellFormed (wellFormed_toJson _)).mpr shuffledPayload_same
  · have hsame := (hvalues _ _ hbet hbet).mp rfl
    exact fun heq => hpayload ((hpayloads _ _ _ _ shuffledPayload_wellFormed hbet
      shuffledPayload_same hsame).mp heq)
  · exact (hmatches localRefund).mpr ⟨rfl, rfl, rfl, rfl, rfl, rfl, rfl, rfl, rfl⟩
  · rw [← Bool.not_eq_true]
    exact fun h => hpayload (payload_eq_iff.mpr ((hmatches localBet).mp h))

end WageringProcessor
