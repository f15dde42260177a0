import WageringProcessor.Runs
import WageringProcessor.Wagering.MessageGrammar
import WageringProcessor.Wagering.SubmitDto

/-!
# The two entries of a submission

A body that is sent over HTTP or over the queue.  The two entries agree on it unless it is typed as
a submission and leaves a field blank: the parser of messages refuses an empty text and a `null`
reference, and the decorators of the DTO do not.
-/

namespace WageringProcessor

open Library.JsonText (Json)

variable {P : Platform} {text : String} {members : List (String × Json)} {value : Option Json}

/-- The fields that both entries read as texts. -/
def textFields : List String :=
  ["providerId", "externalTransactionId", "idempotencyKey", "playerId", "walletId", "roundId",
    "gameId"]

/-- No field but those of the documented body, in it and in its money. -/
def OnlyDocumented (members : List (String × Json)) : Prop :=
  onlyProperties submitProperties members = true ∧
    ∀ money, (Json.object members).get? "money" = some (.object money) →
      onlyProperties moneyProperties money = true

/-- Every field has the type of a submission's. -/
structure TypedBody (members : List (String × Json)) : Prop where
  texts : ∀ key ∈ textFields, ∃ s, (Json.object members).get? key = some (.string s)
  kind : ∃ kind : WagerTransactionKind,
    (Json.object members).get? "kind" = some (.string kind.text)
  money : ∃ money props m, (Json.object members).get? "money" = some (.object money) ∧
    (Json.object money).get? "amount" = some (.string props.amount) ∧
      (Json.object money).get? "currency" = some (.string props.currency) ∧
        Money.ofProps props = .ok m
  reference : (Json.object members).get? "referenceExternalTransactionId" = none ∨
    (Json.object members).get? "referenceExternalTransactionId" = some .null ∨
      ∃ s, (Json.object members).get? "referenceExternalTransactionId" = some (.string s)

/-- A text is empty, or the reference is `null`. -/
def BlankField (members : List (String × Json)) : Prop :=
  (∃ key ∈ "referenceExternalTransactionId" :: textFields,
    (Json.object members).get? key = some (.string "")) ∨
      (Json.object members).get? "referenceExternalTransactionId" = some .null

/-- Both entries refuse the body, or both build commands of one payload hash and one key. -/
def EntriesAgree (P : Platform) (text : String) (members : List (String × Json)) : Prop :=
  ((∃ http, submitTransaction members = .ok http) ↔
    ∃ queue, parseWagerTransactionMessage P text = .ok queue) ∧
  ∀ http queue, submitTransaction members = .ok http →
    parseWagerTransactionMessage P text = .ok queue →
      http.payloadHash P = queue.payloadHash P ∧ http.idempotencyKey = queue.idempotencyKey

/-! ## What the decorators accept -/

theorem bind_ok_iff {ε α β : Type} {x : Except ε α} {f : α → Except ε β} {b : β} :
    (x >>= f) = .ok b ↔ ∃ a, x = .ok a ∧ f a = .ok b := by
  cases x with
  | error err => exact ⟨fun h => (by cases h), fun ⟨_, h, _⟩ => by cases h⟩
  | ok a => exact ⟨fun h => ⟨a, rfl, h⟩, fun ⟨_, ha, h⟩ => Except.ok.inj ha ▸ h⟩

theorem isString_ok_iff {s : String} : isString value = .ok s ↔ value = some (.string s) := by
  unfold isString
  split
  · rw [Except.ok.injEq, Option.some.injEq, Json.string.injEq]
  · rename_i hnot
    exact ⟨fun h => (by cases h), fun h => absurd h (hnot s)⟩

theorem isKind_ok_iff {kind : WagerTransactionKind} :
    isKind value = .ok kind ↔ value = some (.string kind.text) := by
  unfold isKind
  split
  · rename_i s
    have hparse : parseKind s = .ok kind ↔ s = kind.text := parseKind_ok_iff
    rw [Option.some.injEq, Json.string.injEq, ← hparse]
    unfold parseKind
    cases WagerTransactionKind.all.find? fun kind => kind.text = s with
    | some kind' =>
      dsimp only
      rw [Except.ok.injEq, Except.ok.injEq]
    | none => exact ⟨fun h => (by cases h), fun h => (by cases h)⟩
  · rename_i hnot
    exact ⟨fun h => (by cases h), fun h => absurd h (hnot _)⟩

theorem isOptionalString_ok_iff {property : OptionalProperty} :
    isOptionalString value = .ok property ↔
      (value = none ∧ property = .undefined) ∨ (value = some .null ∧ property = .null) ∨
        ∃ s, value = some (.string s) ∧ property = .text s := by
  unfold isOptionalString
  split
  · simp [eq_comm]
  · simp [eq_comm]
  · rename_i s
    simp [eq_comm]
  · rename_i hnone hnull hstring
    constructor
    · intro h
      cases h
    · rintro (⟨rfl, -⟩ | ⟨rfl, -⟩ | ⟨s, rfl, -⟩)
      · exact absurd rfl hnone
      · exact absurd rfl hnull
      · exact absurd rfl (hstring s)

/-- The amounts that `Money.from` accepts match the expression of the DTO. -/
theorem matchesAmount_of_valid {amount : List Char} (h : validAmount amount = true) :
    matchesAmount amount = true := by
  obtain ⟨integer, d₁, d₂, rfl, ⟨hne, hdigits, _⟩, hd₁, hd₂⟩ := validAmount_iff.mp h
  have htake : (integer ++ ['.', d₁, d₂]).takeWhile Char.isDigit = integer := by
    rw [List.takeWhile_append_of_pos hdigits]
    simp
  have hdrop : (integer ++ ['.', d₁, d₂]).dropWhile Char.isDigit = ['.', d₁, d₂] := by
    rw [List.dropWhile_append_of_pos hdigits]
    rfl
  unfold matchesAmount
  rw [htake, hdrop]
  simp [hne, hd₁, hd₂]

theorem validateMoneyDto_ok_iff {money : List (String × Json)} {props : MoneyProps} :
    validateMoneyDto money = .ok props ↔
      (Json.object money).get? "amount" = some (.string props.amount) ∧
      (Json.object money).get? "currency" = some (.string props.currency) ∧
      onlyProperties moneyProperties money = true ∧ matchesAmount props.amount.toList = true ∧
      validCurrency props.currency = true := by
  unfold validateMoneyDto
  simp only [bind_ok_iff, isString_ok_iff]
  constructor
  · rintro ⟨amount, hamount, currency, hcurrency, hchecks⟩
    split at hchecks
    · rename_i hall
      obtain rfl := Except.ok.inj hchecks
      simp only [Bool.and_eq_true] at hall
      exact ⟨hamount, hcurrency, hall.1.1, hall.1.2, hall.2⟩
    · cases hchecks
  · rintro ⟨hamount, hcurrency, honly, hmatches, hvalid⟩
    exact ⟨_, hamount, _, hcurrency, by rw [if_pos (by simp [honly, hmatches, hvalid])]; rfl⟩

theorem validateMoney_ok_iff {props : MoneyProps} : validateMoney value = .ok (.props props) ↔
    ∃ money, value = some (.object money) ∧ validateMoneyDto money = .ok props := by
  unfold validateMoney
  split
  · exact ⟨fun h => (by cases h), fun ⟨_, h, _⟩ => by cases h⟩
  · rename_i money
    simp only [Option.some.injEq, Json.object.injEq, exists_eq_left']
    cases validateMoneyDto money with
    | error err => exact ⟨fun h => (by cases h), fun h => (by cases h)⟩
    | ok props' =>
      show Except.ok (MoneyProperty.props props') = .ok (.props props) ↔ _
      rw [Except.ok.injEq, Except.ok.injEq, MoneyProperty.props.injEq]
  -- an array passes as one
  · refine ⟨fun h => ?_, fun ⟨_, h, _⟩ => by cases h⟩
    split at h
    · cases h
    · cases h
  · rename_i hobject _
    refine ⟨fun h => (by cases h), ?_⟩
    rintro ⟨money, rfl, _⟩
    exact absurd rfl (hobject money)

theorem moneyOf_ok_iff {property : MoneyProperty} {money : Money} :
    moneyOf property = .ok money ↔ ∃ p, property = .props p ∧ Money.ofProps p = .ok money := by
  cases property with
  | undefined => exact ⟨fun h => (by cases h), fun ⟨_, h, _⟩ => by cases h⟩
  | array => exact ⟨fun h => (by cases h), fun ⟨_, h, _⟩ => by cases h⟩
  | props p =>
    have hmap : ∀ r : Except DomainError Money,
        r.mapError HttpRefusal.domain = .ok money ↔ r = .ok money := by
      intro r
      cases r <;> simp [Except.mapError]
    rw [show moneyOf (.props p) = (Money.ofProps p).mapError .domain from rfl, hmap]
    simp

theorem submit_ok_iff {http : HttpCommand} : submitTransaction members = .ok http ↔
    onlyProperties submitProperties members = true ∧
    (Json.object members).get? "providerId" = some (.string http.providerId) ∧
    (Json.object members).get? "externalTransactionId" =
      some (.string http.externalTransactionId) ∧
    (Json.object members).get? "idempotencyKey" = some (.string http.idempotencyKey) ∧
    (Json.object members).get? "playerId" = some (.string http.playerId) ∧
    (Json.object members).get? "walletId" = some (.string http.walletId) ∧
    (Json.object members).get? "roundId" = some (.string http.roundId) ∧
    (Json.object members).get? "gameId" = some (.string http.gameId) ∧
    (Json.object members).get? "kind" = some (.string http.kind.text) ∧
    (∃ props, validateMoney ((Json.object members).get? "money") = .ok (.props props) ∧
      Money.ofProps props = .ok http.money) ∧
    isOptionalString ((Json.object members).get? "referenceExternalTransactionId") =
      .ok http.referenceExternalTransactionId := by
  unfold submitTransaction
  by_cases honly : onlyProperties submitProperties members = true
  · dsimp only
    rw [if_neg (by simp [honly])]
    simp only [honly, bind_ok_iff, isString_ok_iff, isKind_ok_iff, moneyOf_ok_iff, true_and]
    constructor
    · rintro ⟨_, hprovider, _, hexternal, _, hkey, _, hplayer, _, hwallet, _, hround, _, hgame, _,
        hkind, _, hmoney, _, hreference, _, ⟨props, rfl, hprops⟩, heq⟩
      obtain rfl := Except.ok.inj heq
      exact ⟨hprovider, hexternal, hkey, hplayer, hwallet, hround, hgame, hkind,
        ⟨props, hmoney, hprops⟩, hreference⟩
    · rintro ⟨hprovider, hexternal, hkey, hplayer, hwallet, hround, hgame, hkind,
        ⟨props, hmoney, hprops⟩, hreference⟩
      exact ⟨_, hprovider, _, hexternal, _, hkey, _, hplayer, _, hwallet, _, hround, _, hgame, _,
        hkind, _, hmoney, _, hreference, _, ⟨props, rfl, hprops⟩, rfl⟩
  · rw [if_pos (by simp [honly])]
    exact ⟨fun h => (by cases h), fun h => absurd h.1 honly⟩

/-! ## When the entries agree -/

theorem forall_textFields {p : String → Prop} : (∀ key ∈ textFields, p key) ↔
    p "providerId" ∧ p "externalTransactionId" ∧ p "idempotencyKey" ∧ p "playerId" ∧
      p "walletId" ∧ p "roundId" ∧ p "gameId" := by
  simp [textFields]

/-- Over HTTP the bodies of the right types build a command. -/
theorem submit_ok_iff_typed (hdoc : OnlyDocumented members) :
    (∃ http, submitTransaction members = .ok http) ↔ TypedBody members := by
  constructor
  · rintro ⟨http, h⟩
    obtain ⟨-, hprovider, hexternal, hkey, hplayer, hwallet, hround, hgame, hkind,
      ⟨props, hmoney, hprops⟩, hreference⟩ := submit_ok_iff.mp h
    obtain ⟨money, hmembers, hdto⟩ := validateMoney_ok_iff.mp hmoney
    obtain ⟨hamount, hcurrency, -⟩ := validateMoneyDto_ok_iff.mp hdto
    refine ⟨forall_textFields.mpr ⟨⟨_, hprovider⟩, ⟨_, hexternal⟩, ⟨_, hkey⟩, ⟨_, hplayer⟩,
      ⟨_, hwallet⟩, ⟨_, hround⟩, ⟨_, hgame⟩⟩, ⟨_, hkind⟩,
      ⟨money, props, _, hmembers, hamount, hcurrency, hprops⟩, ?_⟩
    rcases isOptionalString_ok_iff.mp hreference with ⟨hnone, -⟩ | ⟨hnull, -⟩ | ⟨s, hs, -⟩
    · exact Or.inl hnone
    · exact Or.inr (Or.inl hnull)
    · exact Or.inr (Or.inr ⟨s, hs⟩)
  · intro h
    obtain ⟨⟨provider, hprovider⟩, ⟨external, hexternal⟩, ⟨key, hkey⟩, ⟨player, hplayer⟩,
      ⟨wallet, hwallet⟩, ⟨round, hround⟩, ⟨game, hgame⟩⟩ := forall_textFields.mp h.texts
    obtain ⟨kind, hkind⟩ := h.kind
    obtain ⟨money, props, m, hmembers, hamount, hcurrency, hprops⟩ := h.money
    obtain ⟨property, hproperty⟩ : ∃ property,
        isOptionalString ((Json.object members).get? "referenceExternalTransactionId") =
          .ok property := by
      rcases h.reference with hnone | hnull | ⟨s, hs⟩
      · exact ⟨_, isOptionalString_ok_iff.mpr (Or.inl ⟨hnone, rfl⟩)⟩
      · exact ⟨_, isOptionalString_ok_iff.mpr (Or.inr (Or.inl ⟨hnull, rfl⟩))⟩
      · exact ⟨_, isOptionalString_ok_iff.mpr (Or.inr (Or.inr ⟨s, hs, rfl⟩))⟩
    obtain ⟨hvalid, hcode, -⟩ := Money.ofProps_ok_iff.mp hprops
    have hmoney := validateMoney_ok_iff.mpr ⟨money, hmembers, validateMoneyDto_ok_iff.mpr ⟨hamount,
      hcurrency, hdoc.2 money hmembers, matchesAmount_of_valid hvalid, hcode ▸ m.currency.valid⟩⟩
    exact ⟨⟨provider, external, key, player, wallet, round, game, kind, m, property⟩,
      submit_ok_iff.mpr ⟨hdoc.1, hprovider, hexternal, hkey, hplayer, hwallet, hround, hgame, hkind,
        ⟨props, hmoney, hprops⟩, hproperty⟩⟩

theorem not_blank_iff : ¬BlankField members ↔
    (∀ key ∈ textFields, (Json.object members).get? key ≠ some (.string "")) ∧
      (Json.object members).get? "referenceExternalTransactionId" ≠ some (.string "") ∧
        (Json.object members).get? "referenceExternalTransactionId" ≠ some .null := by
  have hblank : (¬∃ key ∈ "referenceExternalTransactionId" :: textFields,
      (Json.object members).get? key = some (.string "")) ↔
      ∀ key ∈ "referenceExternalTransactionId" :: textFields,
        (Json.object members).get? key ≠ some (.string "") :=
    ⟨fun h key hkey heq => h ⟨key, hkey, heq⟩, fun h ⟨key, hkey, heq⟩ => h key hkey heq⟩
  unfold BlankField
  rw [not_or, hblank, List.forall_mem_cons]
  exact ⟨fun ⟨⟨href, htexts⟩, hnull⟩ => ⟨htexts, href, hnull⟩,
    fun ⟨htexts, href, hnull⟩ => ⟨⟨href, htexts⟩, hnull⟩⟩

theorem HasString.not_empty {raw : Json} {key s : String} (h : HasString raw key s) :
    raw.get? key ≠ some (.string "") := by
  intro heq
  have hempty := h.1.symm.trans heq
  rw [Option.some.injEq, Json.string.injEq] at hempty
  exact h.2 hempty

theorem hasString_of {raw : Json} {key s : String} (h : raw.get? key = some (.string s))
    (hne : raw.get? key ≠ some (.string "")) : HasString raw key s :=
  ⟨h, fun hempty => hne (hempty ▸ h)⟩

/-- What `Money.from` accepts is not empty. -/
theorem ofProps_ne_empty {props : MoneyProps} {m : Money} (h : Money.ofProps props = .ok m) :
    props.amount ≠ "" ∧ props.currency ≠ "" := by
  obtain ⟨hvalid, hcode, -⟩ := Money.ofProps_ok_iff.mp h
  refine ⟨fun hempty => ?_, fun hempty => ?_⟩
  · rw [hempty] at hvalid
    exact absurd hvalid (by decide)
  · have hcurrency := m.currency.valid
    rw [hcode, hempty] at hcurrency
    exact absurd hcurrency (by decide)

/-- Over the queue they do so when no field is blank. -/
theorem parse_ok_iff_typed (hparse : P.jsonParse text = some (.object members)) :
    (∃ queue, parseWagerTransactionMessage P text = .ok queue) ↔
      TypedBody members ∧ ¬BlankField members := by
  rw [not_blank_iff]
  constructor
  · rintro ⟨queue, h⟩
    obtain ⟨f, m, ⟨raw, hraw, hf⟩, hprops, -⟩ := parse_ok_iff.mp h
    obtain rfl : .object members = raw := Option.some.inj (hparse.symm.trans hraw)
    obtain ⟨money, hmembers, hamount, hcurrency⟩ := hf.money
    refine ⟨⟨forall_textFields.mpr ⟨⟨_, hf.providerId.1⟩, ⟨_, hf.externalTransactionId.1⟩,
      ⟨_, hf.idempotencyKey.1⟩, ⟨_, hf.playerId.1⟩, ⟨_, hf.walletId.1⟩, ⟨_, hf.roundId.1⟩,
      ⟨_, hf.gameId.1⟩⟩, ⟨_, hf.kind⟩, ⟨money, _, m, hmembers, hamount.1, hcurrency.1, hprops⟩, ?_⟩,
      forall_textFields.mpr ⟨hf.providerId.not_empty, hf.externalTransactionId.not_empty,
        hf.idempotencyKey.not_empty, hf.playerId.not_empty, hf.walletId.not_empty,
        hf.roundId.not_empty, hf.gameId.not_empty⟩, ?_⟩
    · have hreference := hf.reference
      cases hopt : f.referenceExternalTransactionId with
      | none =>
        rw [hopt] at hreference
        exact Or.inl hreference
      | some s =>
        rw [hopt] at hreference
        exact Or.inr (Or.inr ⟨s, hreference.1⟩)
    · have hreference := hf.reference
      cases hopt : f.referenceExternalTransactionId with
      | none =>
        rw [hopt] at hreference
        have hnone : (Json.object members).get? "referenceExternalTransactionId" = none :=
          hreference
        rw [hnone]
        exact ⟨fun h => (by cases h), fun h => (by cases h)⟩
      | some s =>
        rw [hopt] at hreference
        refine ⟨hreference.not_empty, ?_⟩
        rw [hreference.1, ne_eq, Option.some.injEq]
        exact fun h => by cases h
  · rintro ⟨htyped, htexts, hempty, hnull⟩
    obtain ⟨⟨provider, hprovider⟩, ⟨external, hexternal⟩, ⟨key, hkey⟩, ⟨player, hplayer⟩,
      ⟨wallet, hwallet⟩, ⟨round, hround⟩, ⟨game, hgame⟩⟩ := forall_textFields.mp htyped.texts
    obtain ⟨hprovider', hexternal', hkey', hplayer', hwallet', hround', hgame'⟩ :=
      forall_textFields.mp htexts
    obtain ⟨kind, hkind⟩ := htyped.kind
    obtain ⟨money, props, m, hmembers, hamount, hcurrency, hprops⟩ := htyped.money
    obtain ⟨hamountne, hcurrencyne⟩ := ofProps_ne_empty hprops
    obtain ⟨reference, hreference⟩ : ∃ reference, HasOptionalString (.object members)
        "referenceExternalTransactionId" reference := by
      rcases htyped.reference with hnone | hisnull | ⟨s, hs⟩
      · exact ⟨none, hnone⟩
      · exact absurd hisnull hnull
      · exact ⟨some s, hasString_of hs hempty⟩
    refine ⟨_, parse_ok_iff.mpr ⟨⟨provider, external, key, player, wallet, round, game, kind, props,
      reference⟩, m, ⟨.object members, hparse, ⟨members, rfl⟩, hasString_of hprovider hprovider',
        hasString_of hexternal hexternal', hasString_of hkey hkey', hasString_of hplayer hplayer',
        hasString_of hwallet hwallet', hasString_of hround hround', hasString_of hgame hgame',
        hkind,
        ⟨money, hmembers, ⟨hamount, hamountne⟩, ⟨hcurrency, hcurrencyne⟩⟩, hreference⟩, hprops,
        rfl⟩⟩

theorem text_unique {s t : String} (hs : value = some (.string s)) (ht : value = some (.string t)) :
    s = t := by
  have heq := hs.symm.trans ht
  rwa [Option.some.injEq, Json.string.injEq] at heq

/-- Where both entries build a command, they build it of the same fields. -/
theorem same_command {http : HttpCommand} {queue : SubmitWagerTransactionCommand}
    (hparse : P.jsonParse text = some (.object members))
    (hhttp : submitTransaction members = .ok http)
    (hqueue : parseWagerTransactionMessage P text = .ok queue) :
    http.payload = queue.payload.toJson ∧ http.idempotencyKey = queue.idempotencyKey := by
  obtain ⟨-, hprovider, hexternal, hkey, hplayer, hwallet, hround, hgame, hkind,
    ⟨props, hmoney, hprops⟩, hreference⟩ := submit_ok_iff.mp hhttp
  obtain ⟨f, m, ⟨raw, hraw, hf⟩, hofProps, rfl⟩ := parse_ok_iff.mp hqueue
  obtain rfl : .object members = raw := Option.some.inj (hparse.symm.trans hraw)
  have hm : http.money = m := by
    obtain ⟨money, hmembers, hdto⟩ := validateMoney_ok_iff.mp hmoney
    obtain ⟨hamount, hcurrency, -⟩ := validateMoneyDto_ok_iff.mp hdto
    obtain ⟨money', hmembers', hamount', hcurrency'⟩ := hf.money
    have hsame := hmembers.symm.trans hmembers'
    rw [Option.some.injEq] at hsame
    rw [hsame] at hamount hcurrency
    have hprops' : props = f.money :=
      MoneyProps.ext (text_unique hamount hamount'.1) (text_unique hcurrency hcurrency'.1)
    rw [hprops'] at hprops
    exact Except.ok.inj (hprops.symm.trans hofProps)
  have hinput : ∀ reference, http.withReference reference =
      { (f.command m).payload with referenceExternalTransactionId := reference } := by
    intro reference
    unfold HttpCommand.withReference
    rw [text_unique hprovider hf.providerId.1, text_unique hexternal hf.externalTransactionId.1,
      text_unique hplayer hf.playerId.1, text_unique hwallet hf.walletId.1,
      text_unique hround hf.roundId.1, text_unique hgame hf.gameId.1, text_unique hkind hf.kind, hm]
    rfl
  refine ⟨?_, text_unique hkey hf.idempotencyKey.1⟩
  have hopt := hf.reference
  unfold HttpCommand.payload
  cases hfr : f.referenceExternalTransactionId with
  | none =>
    rw [hfr] at hopt
    have hnone : (Json.object members).get? "referenceExternalTransactionId" = none := hopt
    rw [hnone] at hreference
    rw [← Except.ok.inj hreference, hinput none]
    show _ = PayloadHashInput.toJson { (f.command m).payload with
      referenceExternalTransactionId := f.referenceExternalTransactionId }
    rw [hfr]
  | some s =>
    rw [hfr] at hopt
    rw [hopt.1] at hreference
    rw [← Except.ok.inj hreference]
    show (http.withReference (some s)).toJson = _
    rw [hinput (some s)]
    show _ = PayloadHashInput.toJson { (f.command m).payload with
      referenceExternalTransactionId := f.referenceExternalTransactionId }
    rw [hfr]

/-- The entries agree exactly on the bodies that are not both typed as a submission and blank in a
field. -/
theorem entriesAgree_iff (hparse : P.jsonParse text = some (.object members))
    (hdoc : OnlyDocumented members) :
    EntriesAgree P text members ↔ ¬(TypedBody members ∧ BlankField members) := by
  unfold EntriesAgree
  rw [submit_ok_iff_typed hdoc, parse_ok_iff_typed hparse]
  constructor
  · rintro ⟨hiff, -⟩ ⟨htyped, hblank⟩
    exact (hiff.mp htyped).2 hblank
  · intro hnot
    refine ⟨⟨fun htyped => ⟨htyped, fun hblank => hnot ⟨htyped, hblank⟩⟩, And.left⟩, ?_⟩
    intro http queue hhttp hqueue
    obtain ⟨hpayload, hkey⟩ := same_command hparse hhttp hqueue
    exact ⟨congrArg (fun v => P.sha256 (canonicalJson v)) hpayload, hkey⟩

def bodyMembers : List (String × Json) :=
  [("providerId", .string "acme"),
    ("externalTransactionId", .string "bet-1"),
    ("playerId", .string "0195a3c0-0000-7000-8000-0000000000ff"),
    ("walletId", .string (uuidText 10)),
    ("roundId", .string "round-1"),
    ("gameId", .string "game-1"),
    ("kind", .string "BET"),
    ("money", .object [("amount", .string "30.00"), ("currency", .string "BRL")]),
    ("idempotencyKey", .string "key-bet-1")]

theorem bodyMembers_money (members : List (String × Json)) :
    (Json.object (bodyMembers ++ members)).get? "money" =
      some (.object [("amount", .string "30.00"), ("currency", .string "BRL")]) := by
  simp [bodyMembers, Json.get?]

theorem bodyMembers_documented (members : List (String × Json)) {money : List (String × Json)}
    (h : (Json.object (bodyMembers ++ members)).get? "money" = some (.object money)) :
    onlyProperties moneyProperties money = true := by
  rw [bodyMembers_money, Option.some.injEq, Json.object.injEq] at h
  rw [← h]
  decide

/-- The same bet with a `null` for its reference. -/
def nullReferenceMembers : List (String × Json) :=
  bodyMembers ++ [("referenceExternalTransactionId", .null)]

def nullReferenceText : String :=
  "\x7b\"providerId\":\"acme\",\"externalTransactionId\":\"bet-1\"," ++
    "\"playerId\":\"0195a3c0-0000-7000-8000-0000000000ff\",\"walletId\":\"" ++ uuidText 10 ++
    "\",\"roundId\":\"round-1\",\"gameId\":\"game-1\",\"kind\":\"BET\"," ++
    "\"money\":\x7b\"amount\":\"30.00\",\"currency\":\"BRL\"\x7d," ++
    "\"idempotencyKey\":\"key-bet-1\",\"referenceExternalTransactionId\":null\x7d"

def nullReferencePlatform : Platform :=
  { localPlatform with
    jsonParse := fun body =>
      if body = nullReferenceText then some (.object nullReferenceMembers) else none }

theorem nullReference_disagree :
    nullReferencePlatform.jsonParse nullReferenceText = some (.object nullReferenceMembers) ∧
      OnlyDocumented nullReferenceMembers ∧
      ¬EntriesAgree nullReferencePlatform nullReferenceText nullReferenceMembers := by
  refine ⟨by simp [nullReferencePlatform], ⟨by decide, fun _ => bodyMembers_documented _⟩,
    fun hagree => ?_⟩
  · have hhttp : (submitTransaction nullReferenceMembers).toOption.isSome = true := by
      decide +kernel
    have hqueue : (parseWagerTransactionMessage nullReferencePlatform nullReferenceText).toOption =
        none := by
      decide +kernel
    cases hresult : submitTransaction nullReferenceMembers with
    | error err =>
      rw [hresult] at hhttp
      cases hhttp
    | ok http =>
      obtain ⟨queue, hparse⟩ := hagree.1.mp ⟨http, hresult⟩
      rw [hparse] at hqueue
      cases hqueue

theorem plainBet_agree :
    EntriesAgree localPlatform (bodyText "bet-1" (uuidText 10)) bodyMembers := by
  have huuid : uuidText 10 ≠ "" := by decide
  refine (entriesAgree_iff (by simp [localPlatform, localMessage, bodyJson, bodyMembers])
    ⟨by decide, fun _ => bodyMembers_documented []⟩).mpr ?_
  exact fun h => not_blank_iff.mpr
    ⟨forall_textFields.mpr (by simp [bodyMembers, Json.get?, huuid]),
      by simp [bodyMembers, Json.get?], by simp [bodyMembers, Json.get?]⟩ h.2

end WageringProcessor
