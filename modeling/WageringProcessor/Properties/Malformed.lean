import WageringProcessor.Runs
import WageringProcessor.Invariants.ConsumeSteps
import WageringProcessor.Invariants.SystemSteps
import WageringProcessor.Wagering.MessageGrammar

/-!
# Malformed messages

A consumer calls a message malformed exactly when its body does not have the shape of a submission.
A body of the right shape whose amount or currency `Money.from` refuses fails with that error of the
domain.
-/

namespace WageringProcessor

open Library.Interleaving Library.Locks

variable {P : Platform} {i : Pid} {s s' : Shared} {c : Config Shared Proc} {d : Database}
  {messageId : String} {cmd : SubmitWagerTransactionCommand} {inp : Input} {err : Exception}
  {stage : SubmitStage} {nested : Option NestedSubmit}

/-! ## What a submit throws -/

/-- An error of the domain or of the database. -/
def Exception.ofSubmit : Exception → Prop
  | .domain _ | .database => True
  | _ => False

theorem flush_ofSubmit {writes : Writes} (h : d.flush writes = .error err)
    (hunique : err ≠ .uniqueConstraintViolation) : err.ofSubmit := by
  unfold Database.flush at h
  split at h
  · rw [← Except.error.inj h]
    trivial
  split at h
  · exact absurd (Except.error.inj h).symm hunique
  · cases h

theorem step_threw (h : Submit.step P cmd i inp s stage = some (s', .threw err)) :
    err.ofSubmit := by
  cases Submit.step_way h with
  | unflushed _ _ flush other => exact flush_ofSubmit flush other
  | _ => trivial

/-! ## What a consumer reports -/

/-- A nested submit threw no error of a message, and only the parser called a message malformed. -/
def Classified (P : Platform) : Proc → Prop
  | .consume _ (.submit _ _ _ (.threw err)) => err.ofSubmit
  | .consume _ (.commit _ (.malformed _) _) => False
  | .consume _ (.delete (.malformed _) _) => False
  | .consume messageId (.done (.malformed err) _) =>
    parseWagerTransactionMessage P (P.messageBody messageId) = .error err ∧
      ∃ reason, err = .invalidWagerTransactionMessage reason
  | _ => True

theorem abort_classified (h : err.ofSubmit ∨ err = .uniqueConstraintViolation) :
    Classified P (.consume messageId (Consume.abort i s err).2) := by
  rcases h with h | rfl
  · cases err with
    | domain | database => trivial
    | uniqueConstraintViolation | invalidWagerTransactionMessage => cases h
  · trivial

theorem consume_classified {stage stage' : ConsumeStage}
    (hp : Classified P (.consume messageId stage))
    (h : Consume.step P messageId i inp s stage = some (s', stage')) :
    Classified P (.consume messageId stage') := by
  cases Consume.step_way h with
  | @taken _ s₁ => exact abort_classified (i := i) (s := s₁) (Or.inr rfl)
  | @unparsed _ _ err parses =>
    cases err with
    | invalidWagerTransactionMessage reason => exact ⟨parses, reason, rfl⟩
    | _ => trivial
  | @executes _ _ _ _ stage₁ _ executes =>
    cases stage₁ with
    | threw err => exact step_threw executes
    | _ => trivial
  | threw => exact abort_classified (i := i) (s := s) (Or.inl hp)
  | @commits _ outcome | @deletes outcome =>
    cases outcome with
    | malformed => exact hp.elim
    | _ => trivial
  | _ => trivial

theorem step_classified {a : Action} {p p' : Proc} (hp : Classified P p)
    (h : step P i a s p = some (s', p')) : Classified P p' := by
  cases step_way h with
  | @start call => cases call <;> trivial
  | fail =>
    cases p with
    | consume messageId stage => cases stage <;> trivial
    | _ => trivial
  | consume steps => exact consume_classified hp steps
  | crash | openWallet | submit | submitted | reprocess | publishOutbox => trivial

theorem reach_classified (h : Reachable (step P) initial c) (i : Pid) :
    Classified P (c.procs i) := by
  refine Reach.procInvariant (Q := Classified P) ?_ ?_ h
  · trivial
  · exact fun _ _ _ _ _ hp hstep => step_classified hp hstep

/-! ## The handling of a new message -/

/-- What the parser makes of the message, right after it. -/
def afterParse (P : Platform) (messageId : String) (now : Date) (claimed : List Writes) : Proc :=
  .consume messageId <|
    match parseWagerTransactionMessage P (P.messageBody messageId) with
    | .error (.invalidWagerTransactionMessage reason) =>
      .done (.malformed (.invalidWagerTransactionMessage reason)) none
    | .error err => .done (.error err) none
    | .ok cmd => .submit now claimed cmd .begin

/-- `count` steps of `i`, with the inputs `inp`. -/
def stepsOf (i : Pid) (inp : Nat → Input) (count : Nat) : List (Pid × Action) :=
  (List.range count).map fun k => (i, .step (inp k))

/-- A message that no consumer has claimed is claimed and parsed. -/
theorem handle_new (hidle : c.procs i = .idle)
    (hnew : c.shared.db.findByConsumerAndMessageId CONSUMER_NAME messageId = none)
    (hfree : c.shared.locks (.inbox messageId) = none) (inp : Nat → Input) :
    ∃ c', exec (step P) c ((i, .start (.consume messageId)) :: stepsOf i inp 4) = some c' ∧
      c'.procs i = afterParse P messageId (inp 0).now
        [{ inboxMessages := [Consume.receive P messageId (inp 0).now] }] ∧
      c'.shared.db = c.shared.db := by
  have hlock : ∃ s₁, c.shared.take i [.inbox messageId] = some s₁ ∧ s₁.db = c.shared.db :=
    ⟨_, Option.map_eq_some_iff.mpr ⟨_, acquire_eq_some.mpr ⟨by simp [hfree], rfl⟩, rfl⟩, rfl⟩
  obtain ⟨s₁, htake, hdb⟩ := hlock
  -- the start, the search in the inbox, the claim and the parser, one after another
  refine exec_of_step (s := c.shared) (p := .consume messageId .begin) ?_ fun c₁ hs₁ hp₁ => ?_
  · show (if c.procs i = .idle then _ else _) = _
    rw [if_pos hidle]
    rfl
  refine exec_of_step (s := c.shared) (p := .consume messageId (.findInbox (inp 0).now)) ?_
    fun c₂ hs₂ hp₂ => ?_
  · rw [hs₁, hp₁]
    rfl
  refine exec_of_step (s := c.shared) (p := .consume messageId (.claimInbox (inp 0).now)) ?_
    fun c₃ hs₃ hp₃ => ?_
  · rw [hs₂, hp₂]
    simp only [step, procStep, Consume.step, hnew, Option.map_some]
  refine exec_of_step (s := s₁) (p := .consume messageId (.parse (inp 0).now
    [{ inboxMessages := [Consume.receive P messageId (inp 0).now] }])) ?_ fun c₄ hs₄ hp₄ => ?_
  · have hnone : s₁.db.findByConsumerAndMessageId CONSUMER_NAME messageId = none := by
      rw [hdb]
      exact hnew
    rw [hs₃, hp₃]
    simp [step, procStep, Consume.step, htake, hnone]
  have hparse : ∃ s₂, step P i (.step (inp 3)) c₄.shared (c₄.procs i) = some (s₂,
      afterParse P messageId (inp 0).now
        [{ inboxMessages := [Consume.receive P messageId (inp 0).now] }]) ∧
        s₂.db = c.shared.db := by
    rw [hs₄, hp₄]
    simp only [step, procStep, Consume.step, afterParse]
    cases hresult : parseWagerTransactionMessage P (P.messageBody messageId) with
    | ok cmd => exact ⟨s₁, rfl, hdb⟩
    | error err => cases err <;> exact ⟨s₁.rollback i, rfl, hdb⟩
  obtain ⟨s₂, hstep, hdb₂⟩ := hparse
  exact exec_of_step hstep fun c₅ hs₅ hp₅ => ⟨c₅, rfl, hp₅, by rw [hs₅, hdb₂]⟩

/-- The parser accepts the bodies of the right shape whose money `Money.from` accepts, throws the
error of a message on the bodies without that shape and the error of `Money.from` on the others; and
so does a consumer report them. -/
theorem parse_classifies (P : Platform) :
    (∀ body cmd, parseWagerTransactionMessage P body = .ok cmd ↔ ∃ f money,
      Shaped P body f ∧ Money.ofProps f.money = .ok money ∧ cmd = f.command money) ∧
    (∀ body, (∃ reason, parseWagerTransactionMessage P body =
      .error (.invalidWagerTransactionMessage reason)) ↔ ¬∃ f, Shaped P body f) ∧
    (∀ body err, parseWagerTransactionMessage P body = .error (.domain err) ↔
      ∃ f, Shaped P body f ∧ Money.ofProps f.money = .error err) ∧
    (∀ c, Reachable (step P) initial c → ∀ i messageId err nested,
      c.procs i = .consume messageId (.done (.malformed err) nested) →
        ¬∃ f, Shaped P (P.messageBody messageId) f) ∧
    (∀ (c : Config Shared Proc) i messageId (inp : Nat → Input), c.procs i = .idle →
      c.shared.db.findByConsumerAndMessageId CONSUMER_NAME messageId = none →
      c.shared.locks (.inbox messageId) = none →
        ∃ c', exec (step P) c ((i, .start (.consume messageId)) :: stepsOf i inp 4) = some c' ∧
          c'.shared.db = c.shared.db ∧
          ((¬∃ f, Shaped P (P.messageBody messageId) f) →
            ∃ err, c'.procs i = .consume messageId (.done (.malformed err) none)) ∧
          (∀ f err, Shaped P (P.messageBody messageId) f → Money.ofProps f.money = .error err →
            c'.procs i = .consume messageId (.done (.error (.domain err)) none)) ∧
          (∀ f money, Shaped P (P.messageBody messageId) f → Money.ofProps f.money = .ok money →
            ∃ now claimed,
              c'.procs i = .consume messageId (.submit now claimed (f.command money) .begin))) := by
  refine ⟨fun _ _ => parse_ok_iff, fun _ => parse_invalid_iff, fun _ _ => parse_domain_iff,
    ?_, ?_⟩
  · intro c hreach i messageId err nested hdone
    have hclassified := reach_classified hreach i
    rw [hdone] at hclassified
    obtain ⟨hparse, reason, rfl⟩ := hclassified
    exact parse_invalid_iff.mp ⟨reason, hparse⟩
  · intro c i messageId inp hidle hnew hfree
    obtain ⟨c', hexec, hproc, hdb⟩ := handle_new (P := P) hidle hnew hfree inp
    unfold afterParse at hproc
    refine ⟨c', hexec, hdb, fun hshape => ?_, fun f err hf hmoney => ?_,
      fun f money hf hmoney => ?_⟩
    · obtain ⟨reason, hparse⟩ := parse_invalid_iff.mpr hshape
      rw [hparse] at hproc
      exact ⟨_, hproc⟩
    · rw [parse_domain_iff.mpr ⟨f, hf, hmoney⟩] at hproc
      exact hproc
    · rw [parse_ok_iff.mpr ⟨f, money, hf, hmoney, rfl⟩] at hproc
      exact ⟨_, _, hproc⟩

/-- A submission of 30 reais, written with one decimal. -/
def oneDecimalText : String :=
  "\x7b\"providerId\":\"acme\",\"externalTransactionId\":\"bet-1\",\"idempotencyKey\":\"key-1\"," ++
    "\"playerId\":\"0195a3c0-0000-7000-8000-0000000000ff\"," ++
    "\"walletId\":\"0195a3c0-0000-7000-8000-000000000010\",\"roundId\":\"round-1\"," ++
    "\"gameId\":\"game-1\",\"kind\":\"BET\"," ++
    "\"money\":\x7b\"amount\":\"30.0\",\"currency\":\"BRL\"\x7d\x7d"

def oneDecimalJson : Library.JsonText.Json :=
  .object
    [("providerId", .string "acme"),
      ("externalTransactionId", .string "bet-1"),
      ("idempotencyKey", .string "key-1"),
      ("playerId", .string "0195a3c0-0000-7000-8000-0000000000ff"),
      ("walletId", .string "0195a3c0-0000-7000-8000-000000000010"),
      ("roundId", .string "round-1"),
      ("gameId", .string "game-1"),
      ("kind", .string "BET"),
      ("money", .object [("amount", .string "30.0"), ("currency", .string "BRL")])]

def oneDecimalPlatform : Platform :=
  { localPlatform with
    jsonParse := fun body => if body = oneDecimalText then some oneDecimalJson else none
    messageBody := fun _ => oneDecimalText }

theorem oneDecimal_notMalformed :
    (∀ cmd, parseWagerTransactionMessage oneDecimalPlatform oneDecimalText ≠ .ok cmd) ∧
      (∀ reason, parseWagerTransactionMessage oneDecimalPlatform oneDecimalText ≠
        .error (.invalidWagerTransactionMessage reason)) ∧
      (exec (step oneDecimalPlatform) initial (runCall 0 (.consume "message-1") 1 4)).any
        (fun c => decide (c.procs 0 = .consume "message-1"
          (.done (.error (.domain (.invalidMoneyAmount "30.0"))) none))) = true := by
  have hparse : parseWagerTransactionMessage oneDecimalPlatform oneDecimalText =
      .error (.domain (.invalidMoneyAmount "30.0")) := by
    decide +kernel
  refine ⟨fun cmd h => ?_, fun reason h => ?_, by decide +kernel⟩
  · rw [hparse] at h
    cases h
  · rw [hparse] at h
    cases h

/-- The fields of the body of `message-1`. -/
def localFields : MessageFields where
  providerId := "acme"
  externalTransactionId := "bet-1"
  idempotencyKey := "key-bet-1"
  playerId := "0195a3c0-0000-7000-8000-0000000000ff"
  walletId := uuidText 10
  roundId := "round-1"
  gameId := "game-1"
  kind := .bet
  money := ⟨"30.00", "BRL"⟩
  referenceExternalTransactionId := none

def oneDecimalFields : MessageFields :=
  { localFields with
    idempotencyKey := "key-1"
    walletId := "0195a3c0-0000-7000-8000-000000000010"
    money := ⟨"30.0", "BRL"⟩ }

theorem localBody_shaped :
    Shaped localPlatform (localPlatform.messageBody "message-1") localFields := by
  have hparse : localPlatform.jsonParse (localPlatform.messageBody "message-1") =
      some (bodyJson "bet-1" (uuidText 10)) := by
    simp [localPlatform, localMessage]
  have hwallet : uuidText 10 ≠ "" := by decide +kernel
  refine ⟨bodyJson "bet-1" (uuidText 10), hparse, ⟨_, rfl⟩, ?_, ?_, ?_, ?_, ?_, ?_, ?_, ?_, ?_, ?_⟩
  all_goals simp [bodyJson, localFields, HasString, HasOptionalString, Library.JsonText.Json.get?,
    WagerTransactionKind.text, hwallet]

theorem oneDecimalText_shaped : Shaped oneDecimalPlatform oneDecimalText oneDecimalFields := by
  have hparse : oneDecimalPlatform.jsonParse oneDecimalText = some oneDecimalJson := by
    simp [oneDecimalPlatform]
  refine ⟨oneDecimalJson, hparse, ⟨_, rfl⟩, ?_, ?_, ?_, ?_, ?_, ?_, ?_, ?_, ?_, ?_⟩
  all_goals simp [oneDecimalJson, oneDecimalFields, localFields, HasString, HasOptionalString,
    Library.JsonText.Json.get?, WagerTransactionKind.text]

/-- One body is parsed, one has the right shape and an amount of one decimal, and one is no JSON. -/
theorem message_classified :
    parseWagerTransactionMessage localPlatform (localPlatform.messageBody "message-1") =
        .ok (localFields.command ⟨3000, brl⟩) ∧
      parseWagerTransactionMessage oneDecimalPlatform oneDecimalText =
        .error (.domain (.invalidMoneyAmount "30.0")) ∧
      (∃ reason, parseWagerTransactionMessage oneDecimalPlatform "" =
        .error (.invalidWagerTransactionMessage reason)) ∧
      ∃ c', Reachable (step oneDecimalPlatform) initial c' ∧ c'.procs 0 =
        .consume "message-1" (.done (.error (.domain (.invalidMoneyAmount "30.0"))) none) := by
  let input : Nat → Input := fun k => ⟨1000 * k, fun n => uuidText (10 * k + n), [], true⟩
  have hrefused : Money.ofProps oneDecimalFields.money = .error (.invalidMoneyAmount "30.0") := by
    decide +kernel
  have haccepted : Money.ofProps localFields.money = .ok ⟨3000, brl⟩ := by decide +kernel
  obtain ⟨hok, -, -, -, -⟩ := parse_classifies localPlatform
  obtain ⟨-, hinvalid, hdomain, -, hhandle⟩ := parse_classifies oneDecimalPlatform
  have hempty : "" ≠ oneDecimalText := by decide +kernel
  have hnone : ¬∃ f, Shaped oneDecimalPlatform "" f := by
    rintro ⟨f, raw, hparse, -⟩
    simp only [oneDecimalPlatform, if_neg hempty] at hparse
    cases hparse
  have hidle : (initial.procs 0 : Proc) = .idle := rfl
  have hnew : initial.shared.db.findByConsumerAndMessageId CONSUMER_NAME "message-1" = none := rfl
  have hfree : initial.shared.locks (.inbox "message-1") = none := rfl
  obtain ⟨c', hexec, -, -, herror, -⟩ := hhandle initial 0 "message-1" input hidle hnew hfree
  have hdone := herror _ _ oneDecimalText_shaped hrefused
  exact ⟨(hok _ _).mpr ⟨localFields, _, localBody_shaped, haccepted, rfl⟩,
    (hdomain _ _).mpr ⟨_, oneDecimalText_shaped, hrefused⟩, (hinvalid _).mpr hnone,
    c', reachable_of_exec hexec, hdone⟩

end WageringProcessor
