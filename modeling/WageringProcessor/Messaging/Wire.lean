import WageringProcessor.Messaging.Domain
import WageringProcessor.Shared.IsoDate
import WageringProcessor.Wagering.PayloadHash

/-!
# The body of an event on the queue

`IntegrationEvent.toJSON` and what `publishOne` makes of it: the envelope is stored as `jsonb`,
which keeps its members but not their order, and what is read back is sent as its JSON text.
-/

namespace WageringProcessor

open Library.JsonText Library.Table

variable {read : Json → Json} {e e' : IntegrationEvent} {data data' : EventData}

/-- A member that is `undefined` is not part of the object. -/
def definedMember (name : String) (value : Option String) : List (String × Json) :=
  match value with
  | some text => [(name, .string text)]
  | none => []

def LedgerDirection.text : LedgerDirection → String
  | debit => "DEBIT"
  | credit => "CREDIT"

/-- The members that the three transaction events share. -/
def WagerTransactionData.members (tx : WagerTransactionData) : List (String × Json) :=
  [("transactionId", .string tx.transactionId), ("providerId", .string tx.providerId),
    ("externalTransactionId", .string tx.externalTransactionId), ("playerId", .string tx.playerId),
    ("walletId", .string tx.walletId), ("roundId", .string tx.roundId),
    ("gameId", .string tx.gameId), ("kind", .string tx.kind.text), ("money", tx.money.toJson)]

def EventData.toJson : EventData → Json
  | wagerTransactionProcessed tx balanceAfter =>
    .object (tx.members ++ [("balanceAfter", balanceAfter.toJson)])
  | wagerTransactionRejected tx failureCode =>
    .object (tx.members ++ definedMember "failureCode" (failureCode.map FailureCode.text))
  | wagerTransactionPendingReference tx reference =>
    .object (tx.members ++ definedMember "referenceExternalTransactionId" reference)
  | walletBalanceChanged walletId transactionId direction money balanceBefore balanceAfter
      walletVersion =>
    .object [("walletId", .string walletId), ("transactionId", .string transactionId),
      ("direction", .string direction.text), ("money", money.toJson),
      ("balanceBefore", balanceBefore.toJson), ("balanceAfter", balanceAfter.toJson),
      ("walletVersion", .number (Nat.repr walletVersion))]

def IntegrationEvent.toJSON (e : IntegrationEvent) : Json :=
  .object <|
    [("eventId", .string e.eventId), ("eventType", .string e.data.eventType),
      ("aggregateId", .string e.aggregateId), ("correlationId", .string e.correlationId)] ++
    definedMember "causationId" e.causationId ++
    [("occurredAt", .string (Pagination.toISOString e.occurredAt)),
      ("version", .number (Nat.repr e.version)), ("data", e.data.toJson)]

/-- `JSON.stringify(message.payload)`, where `read` is what the database returns for a stored
value. -/
def IntegrationEvent.body (read : Json → Json) (e : IntegrationEvent) : String :=
  stringify (read e.toJSON)

/-- The database returns the value that was stored, its keys in any order. -/
structure ReadsBack (read : Json → Json) (v : Json) : Prop where
  wellFormed : WellFormed (read v)
  same : SameUpToKeyOrder v (read v)

/-! ## Members -/

section

variable {v w : Json} {members others : List (String × Json)} {k : String}

theorem sameMembers_mem (h : SameMembers members others) (hv : (k, v) ∈ members) :
    ∃ w, (k, w) ∈ others ∧ SameUpToKeyOrder v w := by
  induction members with
  | nil => cases hv
  | cons m rest ih =>
    obtain ⟨hfirst, hrest⟩ := h
    rcases List.mem_cons.mp hv with rfl | hv
    · exact hfirst
    · exact ih hrest hv

theorem get?_of_mem (hnodup : (members.map Prod.fst).Nodup) (hv : (k, v) ∈ members) :
    (Json.object members).get? k = some v :=
  congrArg (Option.map Prod.snd) (lookup_of_mem hnodup hv)

theorem mem_of_get? (h : v.get? k = some w) :
    ∃ members, v = .object members ∧ (k, w) ∈ members := by
  cases v with
  | object members =>
    obtain ⟨m, hfind, rfl⟩ := Option.map_eq_some_iff.mp h
    obtain ⟨hmem, rfl⟩ : m ∈ members ∧ m.1 = k := lookup_mem hfind
    exact ⟨members, rfl, hmem⟩
  | _ => cases h

/-- Values that are the same up to key order have the same members. -/
theorem same_get? (h : SameUpToKeyOrder v w) (hw : WellFormed w) {a : Json}
    (ha : v.get? k = some a) : ∃ b, w.get? k = some b ∧ SameUpToKeyOrder a b := by
  obtain ⟨members, rfl, hmem⟩ := mem_of_get? ha
  cases w with
  | object others =>
    obtain ⟨b, hb, hsame⟩ := sameMembers_mem (same_object.mp h).2 hmem
    exact ⟨b, get?_of_mem hw.1 hb, hsame⟩
  | _ => simp only [SameUpToKeyOrder] at h

theorem same_symm (hv : WellFormed v) (hw : WellFormed w) (h : SameUpToKeyOrder v w) :
    SameUpToKeyOrder w v :=
  (canonicalJson_eq_iff hw hv).mp ((canonicalJson_eq_iff hv hw).mpr h).symm

/-- A member that is a text, or is left out, is the same in both. -/
theorem text_same {o o' : Option String} (hv : WellFormed v) (hw : WellFormed w)
    (h : SameUpToKeyOrder v w) (ho : v.get? k = o.map Json.string)
    (ho' : w.get? k = o'.map Json.string) : o = o' := by
  cases o with
  | some s =>
    obtain ⟨b, hb, hsame⟩ := same_get? h hw ho
    obtain rfl := same_string.mp hsame
    cases o' with
    | some t => exact congrArg some (Json.string.inj (Option.some.inj (hb.symm.trans ho')))
    | none => exact absurd (hb.symm.trans ho') nofun
  | none =>
    cases o' with
    | some t =>
      obtain ⟨b, hb, -⟩ := same_get? (same_symm hv hw h) hv ho'
      exact absurd (hb.symm.trans ho) nofun
    | none => rfl

end

/-! ## The envelope determines the event -/

theorem repr_inj {m n : Nat} (h : Nat.repr m = Nat.repr n) : m = n := by
  have hchars := congrArg String.toList h
  rw [Nat.toList_repr, Nat.toList_repr] at hchars
  rw [← @Nat.ofDigitChars_ten_toDigits m, hchars, Nat.ofDigitChars_ten_toDigits]

theorem numeral_repr (n : Nat) : Numeral (Nat.repr n) := by
  have hdigit : ∀ c ∈ (Nat.repr n).toList, c.isDigit = true := by
    intro c hc
    rw [Nat.toList_repr] at hc
    exact Nat.isDigit_of_mem_toDigits (by decide) (by decide) hc
  constructor
  · cases hchars : (Nat.repr n).toList with
    | nil =>
      rw [Nat.toList_repr] at hchars
      exact absurd hchars Nat.toDigits_ne_nil
    | cons c rest =>
      have hc := hdigit c (hchars ▸ List.mem_cons_self)
      exact ⟨c, rest, rfl, by rw [hc, Bool.true_or]⟩
  · intro c hc
    simp [numeralChar, hdigit c hc]

theorem FailureCode.text_injective {code code' : FailureCode} (h : code.text = code'.text) :
    code = code' := by
  cases code <;> cases code' <;> first | rfl | exact absurd h (by decide)

theorem LedgerDirection.text_injective {direction direction' : LedgerDirection}
    (h : direction.text = direction'.text) : direction = direction' := by
  cases direction <;> cases direction' <;> first | rfl | exact absurd h (by decide)

theorem wellFormed_money (money : MoneyProps) : WellFormed money.toJson := by
  simp [MoneyProps.toJson, WellFormed, WellFormedMembers]

theorem money_same {money money' : MoneyProps} (h : SameUpToKeyOrder money.toJson money'.toJson) :
    money = money' := by
  obtain ⟨amount, currency⟩ := money
  obtain ⟨amount', currency'⟩ := money'
  simp [MoneyProps.toJson, SameMembers] at h
  simp [h]

theorem wellFormed_data (data : EventData) : WellFormed data.toJson := by
  cases data with
  | wagerTransactionProcessed tx balanceAfter =>
    simp [EventData.toJson, WagerTransactionData.members, WellFormed, WellFormedMembers,
      wellFormed_money]
  | wagerTransactionRejected tx failureCode =>
    cases failureCode <;> simp [EventData.toJson, WagerTransactionData.members, definedMember,
      WellFormed, WellFormedMembers, wellFormed_money]
  | wagerTransactionPendingReference tx reference =>
    cases reference <;> simp [EventData.toJson, WagerTransactionData.members, definedMember,
      WellFormed, WellFormedMembers, wellFormed_money]
  | walletBalanceChanged walletId transactionId direction money balanceBefore balanceAfter
      version =>
    simp [EventData.toJson, WellFormed, WellFormedMembers, wellFormed_money, numeral_repr]

section

variable {v w : Json} {members others : List (String × Json)} {k s t : String}

/-- What is in both objects under one name is the same. -/
theorem member_same (hv : WellFormed (.object members)) (hw : WellFormed (.object others))
    (h : SameUpToKeyOrder (.object members) (.object others)) (hk : (k, v) ∈ members)
    (hk' : (k, w) ∈ others) : SameUpToKeyOrder v w := by
  obtain ⟨b, hb, hsame⟩ := same_get? h hw (get?_of_mem hv.1 hk)
  obtain rfl := Option.some.inj (hb.symm.trans (get?_of_mem hw.1 hk'))
  exact hsame

theorem string_same (h : SameUpToKeyOrder (.string s) (.string t)) : s = t :=
  (Json.string.inj (same_string.mp h)).symm

theorem number_same (h : SameUpToKeyOrder (.number s) (.number t)) : s = t := h

end

theorem transactionData_same {tx tx' : WagerTransactionData} {rest rest' : List (String × Json)}
    (hv : WellFormed (.object (tx.members ++ rest)))
    (hw : WellFormed (.object (tx'.members ++ rest')))
    (h : SameUpToKeyOrder (.object (tx.members ++ rest)) (.object (tx'.members ++ rest'))) :
    tx = tx' := by
  have hmember : ∀ {k : String} {v w : Json}, (k, v) ∈ tx.members → (k, w) ∈ tx'.members →
      SameUpToKeyOrder v w := fun hk hk' =>
    member_same hv hw h (List.mem_append_left _ hk) (List.mem_append_left _ hk')
  have htext : ∀ (k : String) {s t : String}, (k, Json.string s) ∈ tx.members →
      (k, Json.string t) ∈ tx'.members → s = t := fun _ _ _ hk hk' => string_same (hmember hk hk')
  have hkind : tx.kind.text = tx'.kind.text := by
    refine htext "kind" ?_ ?_ <;> simp [WagerTransactionData.members]
  have hmoney : tx.money = tx'.money := by
    refine money_same (hmember (k := "money") ?_ ?_) <;> simp [WagerTransactionData.members]
  have htexts : tx.transactionId = tx'.transactionId ∧ tx.providerId = tx'.providerId ∧
      tx.externalTransactionId = tx'.externalTransactionId ∧ tx.playerId = tx'.playerId ∧
        tx.walletId = tx'.walletId ∧ tx.roundId = tx'.roundId ∧ tx.gameId = tx'.gameId := by
    refine ⟨htext "transactionId" ?_ ?_, htext "providerId" ?_ ?_,
      htext "externalTransactionId" ?_ ?_, htext "playerId" ?_ ?_, htext "walletId" ?_ ?_,
      htext "roundId" ?_ ?_, htext "gameId" ?_ ?_⟩ <;> simp [WagerTransactionData.members]
  cases tx
  cases tx'
  rw [WagerTransactionData.mk.injEq]
  exact ⟨htexts.1, htexts.2.1, htexts.2.2.1, htexts.2.2.2.1, htexts.2.2.2.2.1,
    htexts.2.2.2.2.2.1, htexts.2.2.2.2.2.2, WagerTransactionKind.text_injective hkind, hmoney⟩

theorem eventData_same (htype : data.eventType = data'.eventType)
    (h : SameUpToKeyOrder data.toJson data'.toJson) : data = data' := by
  have hv := wellFormed_data data
  have hw := wellFormed_data data'
  cases data with
  | wagerTransactionProcessed tx balanceAfter =>
    cases data' with
    | wagerTransactionProcessed tx' balanceAfter' =>
      have hbalance : balanceAfter = balanceAfter' := by
        refine money_same (member_same (k := "balanceAfter") hv hw h ?_ ?_) <;> simp
      rw [transactionData_same hv hw h, hbalance]
    | _ => simp [EventData.eventType] at htype
  | wagerTransactionRejected tx failureCode =>
    cases data' with
    | wagerTransactionRejected tx' failureCode' =>
      have hcode : failureCode.map FailureCode.text = failureCode'.map FailureCode.text := by
        refine text_same (k := "failureCode") hv hw h ?_ ?_
        · cases failureCode <;>
            simp [EventData.toJson, WagerTransactionData.members, definedMember, Json.get?]
        · cases failureCode' <;>
            simp [EventData.toJson, WagerTransactionData.members, definedMember, Json.get?]
      rw [transactionData_same hv hw h,
        Option.map_injective (fun _ _ heq => FailureCode.text_injective heq) hcode]
    | _ => simp [EventData.eventType] at htype
  | wagerTransactionPendingReference tx reference =>
    cases data' with
    | wagerTransactionPendingReference tx' reference' =>
      have hreference : reference = reference' := by
        refine text_same (k := "referenceExternalTransactionId") hv hw h ?_ ?_
        · cases reference <;>
            simp [EventData.toJson, WagerTransactionData.members, definedMember, Json.get?]
        · cases reference' <;>
            simp [EventData.toJson, WagerTransactionData.members, definedMember, Json.get?]
      rw [transactionData_same hv hw h, hreference]
    | _ => simp [EventData.eventType] at htype
  | walletBalanceChanged walletId transactionId direction money balanceBefore balanceAfter
      version =>
    cases data' with
    | walletBalanceChanged walletId' transactionId' direction' money' balanceBefore' balanceAfter'
        version' =>
      have hmember : ∀ (k : String) {v w : Json}, (k, v) ∈ _ → (k, w) ∈ _ → SameUpToKeyOrder v w :=
        fun _ _ _ hk hk' => member_same hv hw h hk hk'
      have hversion : version = version' := by
        refine repr_inj (number_same (hmember "walletVersion" ?_ ?_)) <;> simp
      have hdirection : direction = direction' := by
        refine LedgerDirection.text_injective (string_same (hmember "direction" ?_ ?_)) <;> simp
      have hids : walletId = walletId' ∧ transactionId = transactionId' := by
        refine ⟨string_same (hmember "walletId" ?_ ?_),
          string_same (hmember "transactionId" ?_ ?_)⟩ <;> simp
      have hmoney : money = money' ∧ balanceBefore = balanceBefore' ∧
          balanceAfter = balanceAfter' := by
        refine ⟨money_same (hmember "money" ?_ ?_), money_same (hmember "balanceBefore" ?_ ?_),
          money_same (hmember "balanceAfter" ?_ ?_)⟩ <;> simp
      rw [hversion, hdirection, hids.1, hids.2, hmoney.1, hmoney.2.1, hmoney.2.2]
    | _ => simp [EventData.eventType] at htype

theorem wellFormed_toJSON (e : IntegrationEvent) : WellFormed e.toJSON := by
  cases hcause : e.causationId <;>
    simp [IntegrationEvent.toJSON, hcause, definedMember, WellFormed, WellFormedMembers,
      wellFormed_data, numeral_repr]

theorem toJSON_same (h : SameUpToKeyOrder e.toJSON e'.toJSON) : e = e' := by
  have hv := wellFormed_toJSON e
  have hw := wellFormed_toJSON e'
  have hmember : ∀ (k : String) {v w : Json}, (k, v) ∈ _ → (k, w) ∈ _ → SameUpToKeyOrder v w :=
    fun _ _ _ hk hk' => member_same hv hw h hk hk'
  have htexts : e.eventId = e'.eventId ∧ e.data.eventType = e'.data.eventType ∧
      e.aggregateId = e'.aggregateId ∧ e.correlationId = e'.correlationId := by
    refine ⟨string_same (hmember "eventId" ?_ ?_), string_same (hmember "eventType" ?_ ?_),
      string_same (hmember "aggregateId" ?_ ?_), string_same (hmember "correlationId" ?_ ?_)⟩ <;>
      simp
  have htime : e.occurredAt = e'.occurredAt := by
    refine Pagination.toISOString_inj (string_same (hmember "occurredAt" ?_ ?_)) <;> simp
  have hdata : e.data = e'.data := by
    refine eventData_same htexts.2.1 (hmember "data" ?_ ?_) <;> simp
  have hcause : e.causationId = e'.causationId := by
    refine text_same (k := "causationId") hv hw h ?_ ?_
    · cases hcause : e.causationId <;>
        simp [IntegrationEvent.toJSON, hcause, definedMember, Json.get?]
    · cases hcause : e'.causationId <;>
        simp [IntegrationEvent.toJSON, hcause, definedMember, Json.get?]
  cases e
  cases e'
  rw [IntegrationEvent.mk.injEq]
  exact ⟨htexts.1, htexts.2.2.1, htexts.2.2.2, hcause, htime, hdata⟩

/-! ## So does the body -/

mutual

theorem numerals_of_wellFormed : ∀ {v : Json}, WellFormed v → Numerals v
  | .null, _ | .bool _, _ | .string _, _ => trivial
  | .number _, h => h
  | .array _, h => numeralsItems_of_wellFormed h
  | .object _, h => numeralsMembers_of_wellFormed h.2.2

theorem numeralsItems_of_wellFormed : ∀ {items : List Json}, WellFormedItems items →
    NumeralsItems items
  | [], _ => trivial
  | _ :: _, h => ⟨numerals_of_wellFormed h.1, numeralsItems_of_wellFormed h.2⟩

theorem numeralsMembers_of_wellFormed : ∀ {members : List (String × Json)},
    WellFormedMembers members → NumeralsMembers members
  | [], _ => trivial
  | (_, _) :: _, h => ⟨numerals_of_wellFormed h.1, numeralsMembers_of_wellFormed h.2⟩

end

/-- Two events are sent with the same body only if they are the same. -/
theorem body_inj (hread : ReadsBack read e.toJSON) (hread' : ReadsBack read e'.toJSON)
    (h : e.body read = e'.body read) : e = e' := by
  have hvalue : read e.toJSON = read e'.toJSON :=
    stringify_inj (numerals_of_wellFormed hread.wellFormed)
      (numerals_of_wellFormed hread'.wellFormed) h
  refine toJSON_same ((canonicalJson_eq_iff (wellFormed_toJSON e) (wellFormed_toJSON e')).mp ?_)
  calc canonicalJson e.toJSON
    _ = canonicalJson (read e.toJSON) :=
      (canonicalJson_eq_iff (wellFormed_toJSON e) hread.wellFormed).mpr hread.same
    _ = canonicalJson (read e'.toJSON) := by rw [hvalue]
    _ = canonicalJson e'.toJSON :=
      ((canonicalJson_eq_iff (wellFormed_toJSON e') hread'.wellFormed).mpr hread'.same).symm

/-- A text in the envelope is in the body. -/
theorem ReadsBack.get? {v : Json} {k s : String} (h : ReadsBack read v)
    (hk : v.get? k = some (.string s)) : (read v).get? k = some (.string s) := by
  obtain ⟨b, hb, hsame⟩ := same_get? h.same h.wellFormed hk
  rw [hb, same_string.mp hsame]

end WageringProcessor
