import WageringProcessor.Shared.MoneyText
import WageringProcessor.Wagering.ParseMessage

/-!
# The grammar of a message

The bodies that have the shape of a submission, and what `parseWagerTransactionMessage` answers to
those that have it and to those that do not.
-/

namespace WageringProcessor

open Library.JsonText (Json)

/-- The fields of a body of the right shape, before `Money.from` has judged the amount. -/
@[ext] structure MessageFields where
  providerId : String
  externalTransactionId : String
  idempotencyKey : String
  playerId : String
  walletId : String
  roundId : String
  gameId : String
  kind : WagerTransactionKind
  money : MoneyProps
  referenceExternalTransactionId : Option String
deriving DecidableEq, Repr

/-- Member `key` of `value` is the string `s`, and `s` is not empty. -/
def HasString (value : Json) (key s : String) : Prop :=
  value.get? key = some (.string s) ∧ s ≠ ""

/-- Member `key` of `value` is absent, or a string that is not empty. -/
def HasOptionalString (value : Json) (key : String) : Option String → Prop
  | none => value.get? key = none
  | some s => HasString value key s

namespace MessageFields

/-- An object with these fields. -/
structure ShapeOf (f : MessageFields) (raw : Json) : Prop where
  object : ∃ members, raw = .object members
  providerId : HasString raw "providerId" f.providerId
  externalTransactionId : HasString raw "externalTransactionId" f.externalTransactionId
  idempotencyKey : HasString raw "idempotencyKey" f.idempotencyKey
  playerId : HasString raw "playerId" f.playerId
  walletId : HasString raw "walletId" f.walletId
  roundId : HasString raw "roundId" f.roundId
  gameId : HasString raw "gameId" f.gameId
  kind : raw.get? "kind" = some (.string f.kind.text)
  money : ∃ members, raw.get? "money" = some (.object members) ∧
    HasString (.object members) "amount" f.money.amount ∧
      HasString (.object members) "currency" f.money.currency
  reference : HasOptionalString raw "referenceExternalTransactionId"
    f.referenceExternalTransactionId

/-- The command with these fields. -/
def command (f : MessageFields) (money : Money) : SubmitWagerTransactionCommand where
  providerId := f.providerId
  externalTransactionId := f.externalTransactionId
  idempotencyKey := f.idempotencyKey
  playerId := f.playerId
  walletId := f.walletId
  roundId := f.roundId
  gameId := f.gameId
  kind := f.kind
  money := money
  referenceExternalTransactionId := f.referenceExternalTransactionId
  correlationId := none
  causationId := none

end MessageFields

/-- The body is JSON for an object of the shape of a submission with the fields `f`. -/
def Shaped (P : Platform) (body : String) (f : MessageFields) : Prop :=
  ∃ raw, P.jsonParse body = some raw ∧ f.ShapeOf raw

/-! ## What each check answers -/

/-- An answer that is not the error of a message of the wrong shape. -/
def Judged {α : Type} (result : Except Exception α) : Prop :=
  ∀ reason, result ≠ .error (.invalidWagerTransactionMessage reason)

/-- The check throws nothing but the error of a message of the wrong shape. -/
def ChecksShape {α : Type} (check : Except Exception α) : Prop :=
  ∀ err, check = .error err → ∃ reason, err = .invalidWagerTransactionMessage reason

variable {α β : Type} {P : Platform} {body : String} {value : Option Json} {field s : String}
  {f g : MessageFields} {raw : Json}

/-- After a check of the shape, any other answer is that of what follows it. -/
theorem ChecksShape.bind_eq_iff {check : Except Exception α} (h : ChecksShape check)
    {next : α → Except Exception β} {result : Except Exception β} (hresult : Judged result) :
    (check >>= next) = result ↔ ∃ a, check = .ok a ∧ next a = result := by
  cases check with
  | ok a => exact ⟨fun heq => ⟨a, rfl, heq⟩, fun ⟨_, ha, heq⟩ => Except.ok.inj ha ▸ heq⟩
  | error err =>
    obtain ⟨reason, rfl⟩ := h err rfl
    exact ⟨fun heq => absurd heq.symm (hresult reason), fun ⟨_, ha, _⟩ => by cases ha⟩

theorem requireString_ok_iff :
    requireString value field = .ok s ↔ value = some (.string s) ∧ s ≠ "" := by
  unfold requireString
  split
  · rename_i t
    by_cases hempty : t = ""
    · rw [if_pos hempty]
      refine ⟨fun h => (by cases h), fun ⟨heq, hne⟩ => ?_⟩
      rw [Option.some.injEq, Json.string.injEq] at heq
      exact absurd (heq ▸ hempty) hne
    · rw [if_neg hempty, Except.ok.injEq, Option.some.injEq, Json.string.injEq]
      exact ⟨fun h => ⟨h, h ▸ hempty⟩, And.left⟩
  · rename_i hnot
    refine ⟨fun h => (by cases h), fun ⟨heq, _⟩ => absurd heq (hnot s)⟩

theorem requireString_checks (value : Option Json) (field : String) :
    ChecksShape (requireString value field) := by
  intro err h
  unfold requireString at h
  split at h
  · split at h
    · exact ⟨_, (Except.error.inj h).symm⟩
    · cases h
  · exact ⟨_, (Except.error.inj h).symm⟩

theorem parseKind_ok_iff {text : String} {kind : WagerTransactionKind} :
    parseKind text = .ok kind ↔ text = kind.text := by
  -- no two kinds have one text, so each is found by its own
  have hfind : ∀ k : WagerTransactionKind,
      WagerTransactionKind.all.find? (fun k' => k'.text = k.text) = some k := by
    intro k
    cases k <;> decide
  unfold parseKind
  split
  · rename_i k hk
    have htext : k.text = text := by simpa using List.find?_some hk
    rw [Except.ok.injEq, ← htext]
    exact ⟨fun h => h ▸ rfl, fun h => WagerTransactionKind.text_injective h⟩
  · rename_i hnone
    refine ⟨fun h => (by cases h), fun h => ?_⟩
    rw [h, hfind kind] at hnone
    cases hnone

theorem parseKind_checks (text : String) : ChecksShape (parseKind text) := by
  intro err h
  unfold parseKind at h
  split at h
  · cases h
  · exact ⟨_, (Except.error.inj h).symm⟩

theorem parseBody_ok_iff : parseBody P body = .ok raw ↔ P.jsonParse body = some raw ∧
    ((∃ members, raw = .object members) ∨ ∃ items, raw = .array items) := by
  unfold parseBody
  split
  · rename_i hnone
    rw [hnone]
    exact ⟨fun h => (by cases h), fun h => (by cases h.1)⟩
  · rename_i members hsome
    rw [hsome, Except.ok.injEq, Option.some.injEq]
    exact ⟨fun h => ⟨h, .inl ⟨members, h.symm⟩⟩, And.left⟩
  · rename_i items hsome
    rw [hsome, Except.ok.injEq, Option.some.injEq]
    exact ⟨fun h => ⟨h, .inr ⟨items, h.symm⟩⟩, And.left⟩
  · rename_i v hobject harray hsome
    rw [hsome, Option.some.injEq]
    -- a value that is neither an object nor an array is refused
    refine ⟨fun h => (by cases h), ?_⟩
    rintro ⟨rfl, ⟨members, rfl⟩ | ⟨items, rfl⟩⟩
    · exact absurd rfl (hobject members)
    · exact absurd rfl (harray items)

theorem parseBody_checks (P : Platform) (body : String) : ChecksShape (parseBody P body) := by
  intro err h
  unfold parseBody at h
  split at h
  · exact ⟨_, (Except.error.inj h).symm⟩
  · cases h
  · cases h
  · exact ⟨_, (Except.error.inj h).symm⟩

theorem requireMoney_ok_iff : requireMoney value = .ok raw ↔ value = some raw ∧
    ((∃ members, raw = .object members) ∨ ∃ items, raw = .array items) := by
  unfold requireMoney
  split
  · rename_i members
    rw [Except.ok.injEq, Option.some.injEq]
    exact ⟨fun h => ⟨h, .inl ⟨members, h.symm⟩⟩, And.left⟩
  · rename_i items
    rw [Except.ok.injEq, Option.some.injEq]
    exact ⟨fun h => ⟨h, .inr ⟨items, h.symm⟩⟩, And.left⟩
  · rename_i hobject harray
    refine ⟨fun h => (by cases h), ?_⟩
    rintro ⟨rfl, ⟨members, rfl⟩ | ⟨items, rfl⟩⟩
    · exact absurd rfl (hobject members)
    · exact absurd rfl (harray items)

theorem requireMoney_checks (value : Option Json) : ChecksShape (requireMoney value) := by
  intro err h
  unfold requireMoney at h
  split at h
  · cases h
  · cases h
  · exact ⟨_, (Except.error.inj h).symm⟩

theorem optionalString_ok_iff {reference : Option String} :
    optionalString (raw.get? field) field = .ok reference ↔
      HasOptionalString raw field reference := by
  unfold optionalString
  split
  · rename_i hnone
    rw [Except.ok.injEq]
    cases reference with
    | none => exact ⟨fun _ => hnone, fun _ => rfl⟩
    | some s =>
      refine ⟨fun h => (by cases h), fun h => ?_⟩
      rw [h.1] at hnone
      cases hnone
  · -- a field that is there is required to be a string
    rename_i v hv
    cases hrequire : requireString (some v) field with
    | error err =>
      refine ⟨fun h => (by cases h), fun h => ?_⟩
      cases reference with
      | none =>
        rw [h] at hv
        cases hv
      | some s =>
        rw [← hv, requireString_ok_iff.mpr h] at hrequire
        cases hrequire
    | ok t =>
      have ht := requireString_ok_iff.mp hrequire
      rw [← hv] at ht
      constructor
      · intro h
        obtain rfl := Except.ok.inj h
        exact ht
      · intro h
        cases reference with
        | none =>
          rw [h] at hv
          cases hv
        | some s =>
          have hsame : s = t := by
            have heq := h.1.symm.trans ht.1
            rwa [Option.some.injEq, Json.string.injEq] at heq
          rw [hsame]
          rfl

theorem optionalString_checks (value : Option Json) (field : String) :
    ChecksShape (optionalString value field) := by
  intro err h
  unfold optionalString at h
  split at h
  · cases h
  · rename_i v
    cases hrequire : requireString (some v) field with
    | error err' =>
      rw [hrequire] at h
      obtain rfl := Except.error.inj h
      exact requireString_checks (some v) field _ hrequire
    | ok t =>
      rw [hrequire] at h
      cases h

/-! ## What the parser answers -/

theorem HasString.object {key : String} (h : HasString raw key s) :
    ∃ members, raw = .object members := by
  cases raw with
  | object members => exact ⟨members, rfl⟩
  | _ => cases h.1

/-- Every answer but the error of the shape is that of `Money.from` on a body of the right shape. -/
theorem parse_eq_iff {result : Except Exception SubmitWagerTransactionCommand}
    (hresult : Judged result) : parseWagerTransactionMessage P body = result ↔
      ∃ f, Shaped P body f ∧ ((Money.ofProps f.money).mapError .domain).map f.command = result := by
  unfold parseWagerTransactionMessage
  simp only [(parseBody_checks _ _).bind_eq_iff hresult,
    (requireString_checks _ _).bind_eq_iff hresult, (parseKind_checks _).bind_eq_iff hresult,
    (requireMoney_checks _).bind_eq_iff hresult, (optionalString_checks _ _).bind_eq_iff hresult,
    parseBody_ok_iff, requireString_ok_iff, parseKind_ok_iff, requireMoney_ok_iff,
    optionalString_ok_iff]
  -- each check has passed, so its field is there; only `Money.from` is left to judge
  constructor
  · rintro ⟨raw, ⟨hparse, -⟩, kindText, hkind, kind, rfl, moneyRaw, ⟨hmoney, -⟩, reference,
      hreference, providerId, hprovider, external, hexternal, key, hkey, player, hplayer, wallet,
      hwallet, round, hround, game, hgame, amount, hamount, currency, hcurrency, rfl⟩
    obtain ⟨members, rfl⟩ := HasString.object hamount
    refine ⟨⟨providerId, external, key, player, wallet, round, game, kind, ⟨amount, currency⟩,
      reference⟩, ⟨raw, hparse, HasString.object hkind, hprovider, hexternal, hkey, hplayer,
      hwallet,
        hround, hgame, hkind.1, ⟨members, hmoney, hamount, hcurrency⟩, hreference⟩, ?_⟩
    cases Money.ofProps ⟨amount, currency⟩ <;> rfl
  · -- and in a body of the right shape each check passes
    rintro ⟨f, ⟨raw, hparse, h⟩, rfl⟩
    obtain ⟨members, hmoney, hamount, hcurrency⟩ := h.money
    refine ⟨raw, ⟨hparse, .inl h.object⟩, f.kind.text, ⟨h.kind, ?_⟩, f.kind, rfl,
      .object members, ⟨hmoney, .inl ⟨members, rfl⟩⟩, f.referenceExternalTransactionId, h.reference,
      f.providerId, h.providerId, f.externalTransactionId, h.externalTransactionId,
      f.idempotencyKey, h.idempotencyKey, f.playerId, h.playerId, f.walletId, h.walletId,
      f.roundId, h.roundId, f.gameId, h.gameId, f.money.amount, hamount, f.money.currency,
      hcurrency, ?_⟩
    · cases f.kind <;> decide
    · show _ = Except.map _ (Except.mapError _ (Money.ofProps ⟨f.money.amount, f.money.currency⟩))
      cases Money.ofProps ⟨f.money.amount, f.money.currency⟩ <;> rfl

/-- On a body of the right shape the parser answers what `Money.from` answers. -/
theorem Shaped.parse (h : Shaped P body f) : parseWagerTransactionMessage P body =
    ((Money.ofProps f.money).mapError .domain).map f.command := by
  refine (parse_eq_iff ?_).mpr ⟨f, h, rfl⟩
  intro reason heq
  cases hmoney : Money.ofProps f.money <;> rw [hmoney] at heq <;> cases heq

/-- The parser throws the error of the shape exactly on the bodies that do not have it. -/
theorem parse_invalid_iff :
    (∃ reason, parseWagerTransactionMessage P body =
      .error (.invalidWagerTransactionMessage reason)) ↔ ¬∃ f, Shaped P body f := by
  constructor
  · rintro ⟨reason, hreason⟩ ⟨f, hf⟩
    rw [hf.parse] at hreason
    cases hmoney : Money.ofProps f.money <;> rw [hmoney] at hreason <;> cases hreason
  · intro hnot
    by_contra hjudged
    have hresult : Judged (parseWagerTransactionMessage P body) :=
      fun reason heq => hjudged ⟨reason, heq⟩
    obtain ⟨f, hf, _⟩ := (parse_eq_iff hresult).mp rfl
    exact hnot ⟨f, hf⟩

/-- The command is made of the fields of the body, and its money is what `Money.from` accepts. -/
theorem parse_ok_iff {cmd : SubmitWagerTransactionCommand} :
    parseWagerTransactionMessage P body = .ok cmd ↔ ∃ f money, Shaped P body f ∧
      Money.ofProps f.money = .ok money ∧ cmd = f.command money := by
  rw [parse_eq_iff (fun _ h => by cases h)]
  constructor
  · rintro ⟨f, hf, hresult⟩
    cases hmoney : Money.ofProps f.money with
    | error err =>
      rw [hmoney] at hresult
      cases hresult
    | ok money =>
      rw [hmoney] at hresult
      exact ⟨f, money, hf, hmoney, (Except.ok.inj hresult).symm⟩
  · rintro ⟨f, money, hf, hmoney, rfl⟩
    exact ⟨f, hf, by rw [hmoney]; rfl⟩

theorem parse_domain_iff {err : DomainError} :
    parseWagerTransactionMessage P body = .error (.domain err) ↔
      ∃ f, Shaped P body f ∧ Money.ofProps f.money = .error err := by
  rw [parse_eq_iff (fun _ h => by cases h)]
  constructor
  · rintro ⟨f, hf, hresult⟩
    -- only `Money.from` throws an error of the domain
    cases hmoney : Money.ofProps f.money with
    | error err' =>
      rw [hmoney] at hresult
      cases hresult
      exact ⟨f, hf, hmoney⟩
    | ok money =>
      rw [hmoney] at hresult
      cases hresult
  · rintro ⟨f, hf, hmoney⟩
    exact ⟨f, hf, by rw [hmoney]; rfl⟩

end WageringProcessor
