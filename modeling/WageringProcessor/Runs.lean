import WageringProcessor.System

/-!
# A platform to run the system on

`localPlatform` knows the uuids in canonical text, the digests of the texts that the runs below
hash and the bodies of two messages.  Its digest is injective, as the one it stands for is assumed
to be.
-/

namespace WageringProcessor

open Library.Interleaving Library.JsonText

/-! ## The platform -/

/-- The text that the database returns for a uuid. -/
def isUuidText (s : String) : Bool :=
  s.toList.length = 36 && s.toList.zipIdx.all fun (c, k) =>
    if k = 8 || k = 13 || k = 18 || k = 23 then c = '-' else c.isDigit || ('a' ≤ c && c ≤ 'f')

/-- The canonical JSON of the payload of a transaction of the wallet `walletId`. -/
def payloadText (externalTransactionId kind reference walletId : String) : String :=
  "\x7b\"externalTransactionId\":\"" ++ externalTransactionId ++
    "\",\"gameId\":\"game-1\",\"kind\":\"" ++ kind ++
    "\",\"money\":\x7b\"amount\":\"30.00\",\"currency\":\"BRL\"\x7d," ++
    "\"playerId\":\"0195a3c0-0000-7000-8000-0000000000ff\",\"providerId\":\"acme\"," ++ reference ++
    "\"roundId\":\"round-1\",\"walletId\":\"" ++ walletId ++ "\"\x7d"

def referenceText : String := "\"referenceExternalTransactionId\":\"bet-1\","

/-- The body of the message that submits the BET `bet` of the wallet `walletId`. -/
def bodyText (bet walletId : String) : String :=
  "\x7b\"providerId\":\"acme\",\"externalTransactionId\":\"" ++ bet ++
    "\",\"playerId\":\"0195a3c0-0000-7000-8000-0000000000ff\",\"walletId\":\"" ++ walletId ++
    "\",\"roundId\":\"round-1\",\"gameId\":\"game-1\",\"kind\":\"BET\"," ++
    "\"money\":\x7b\"amount\":\"30.00\",\"currency\":\"BRL\"\x7d,\"idempotencyKey\":\"key-" ++
    bet ++ "\"\x7d"

def bodyJson (bet walletId : String) : Json :=
  .object
    [("providerId", .string "acme"),
      ("externalTransactionId", .string bet),
      ("playerId", .string "0195a3c0-0000-7000-8000-0000000000ff"),
      ("walletId", .string walletId),
      ("roundId", .string "round-1"),
      ("gameId", .string "game-1"),
      ("kind", .string "BET"),
      ("money", .object [("amount", .string "30.00"), ("currency", .string "BRL")]),
      ("idempotencyKey", .string ("key-" ++ bet))]

/-- The `n`-th id that `newId()` returns. -/
def uuidText (n : Nat) : Id :=
  "0195a3c0-0000-7000-8000-" ++ String.ofList (padStart 12 '0' (Nat.toDigits 10 n))

def digests : List (String × String) :=
  [(payloadText "bet-1" "BET" "" (uuidText 10),
      "46759e59aff935276264e39424471b660a4760aa6ab5049618d3c299d0aae417"),
    (payloadText "bet-1" "BET" "" (uuidText 99),
      "273df3008bfa10bdc860557df708b54e3293233d01edb5f3fd85099a00f4bf61"),
    (payloadText "refund-1" "REFUND" referenceText (uuidText 10),
      "c776dedaadd98278cd65f7751813057b95f8662bc2e28a7dcb832f99c27ad6ac"),
    (payloadText "refund-2" "REFUND" referenceText (uuidText 10),
      "eda34b8d479b2df4b1683a8d521cf4e7fdd188c2dc53570a1805f3a5af47fffc"),
    (payloadText "rollback-1" "ROLLBACK" referenceText (uuidText 10),
      "cf1b054d5757ec2c7c00809d60154ba11b359a44975b13f65935053fea86c9ca"),
    (bodyText "bet-1" (uuidText 10),
      "712b39e58a39a52f8dfc94b92cf710aa172c29de3dbfc50d076b6c5e5f4fbdc1"),
    (bodyText "bet-9" (uuidText 99),
      "445b4a5410b4a8cbb22eca3aa378981aca0c6fe41e78eeec69c743d95f726edf")]

def localSha256 (s : String) : String :=
  match digests.find? fun entry => entry.1 = s with
  | some entry => entry.2
  | none => "~" ++ s

theorem digest_head {entry : String × String} (h : entry ∈ digests) (s : String) :
    entry.2 ≠ "~" ++ s ∧ entry.2 ≠ "internal" := by
  have htilde : ∀ e ∈ digests, e.2.toList.head? ≠ some '~' ∧ e.2 ≠ "internal" := by
    simp [digests]
  refine ⟨fun heq => (htilde entry h).1 ?_, (htilde entry h).2⟩
  rw [heq, String.toList_append]
  rfl

theorem localSha256_ne_internal (s : String) : localSha256 s ≠ "internal" := by
  unfold localSha256
  split
  · rename_i entry hfound
    exact (digest_head (List.mem_of_find?_eq_some hfound) s).2
  · intro heq
    have hhead := congrArg (fun t => t.toList.head?) heq
    simp [String.toList_append] at hhead

theorem digests_nodup : (digests.map Prod.snd).Nodup := by
  simp [digests]

theorem localSha256_injective : Function.Injective localSha256 := by
  intro a b h
  unfold localSha256 at h
  split at h
  · rename_i entry hfound
    have hmem := List.mem_of_find?_eq_some hfound
    have hkey : entry.1 = a := by simpa using List.find?_some hfound
    split at h
    · rename_i entry' hfound'
      have hkey' : entry'.1 = b := by simpa using List.find?_some hfound'
      -- two digests of the table
      rw [← hkey, ← hkey',
        List.inj_on_of_nodup_map digests_nodup hmem (List.mem_of_find?_eq_some hfound') h]
    · -- a digest of the table never starts with a tilde
      exact absurd h (digest_head hmem b).1
  · split at h
    · rename_i entry' hfound'
      exact absurd h.symm (digest_head (List.mem_of_find?_eq_some hfound') a).1
    · simpa using h

def localMessage (messageId : String) : String × Json :=
  if messageId = "message-1" then (bodyText "bet-1" (uuidText 10), bodyJson "bet-1" (uuidText 10))
  else (bodyText "bet-9" (uuidText 99), bodyJson "bet-9" (uuidText 99))

def localPlatform : Platform where
  sha256 := localSha256
  sha256_ne_internal := localSha256_ne_internal
  uuid s := if isUuidText s then some s else none
  uuid_canonical h := by
    obtain ⟨hcanonical, hsame⟩ := Option.ite_none_right_eq_some.mp h
    obtain rfl := Option.some.inj hsame
    simp [hcanonical]
  jsonParse body :=
    ([localMessage "message-1", localMessage "message-2"].find? fun m => m.1 = body).map Prod.snd
  messageBody messageId := (localMessage messageId).1

/-! ## Calls and schedules -/

def brl : Currency := ⟨"BRL", by decide⟩

def usd : Currency := ⟨"USD", by decide⟩

def openCommand : OpenWalletCommand := ⟨"0195a3c0-0000-7000-8000-0000000000ff", ⟨10000, brl⟩⟩

def submitCommand (kind : WagerTransactionKind) (externalTransactionId : String)
    (reference : Option String) (walletId : String) : SubmitWagerTransactionCommand where
  providerId := "acme"
  externalTransactionId := externalTransactionId
  idempotencyKey := "key-" ++ externalTransactionId
  playerId := "0195a3c0-0000-7000-8000-0000000000ff"
  walletId := walletId
  roundId := "round-1"
  gameId := "game-1"
  kind := kind
  money := ⟨3000, brl⟩
  referenceExternalTransactionId := reference
  correlationId := none
  causationId := none

/-- The step number `n` of a run, a second after the one before. -/
def tick (n : Nat) (batch : List Id) (delivered : Bool) : Action :=
  .step ⟨1000 * n, fun k => uuidText (10 * n + k), batch, delivered⟩

/-- `count` steps of `i`, numbered from `first`. -/
def steps (i : Pid) (first count : Nat) : List (Pid × Action) :=
  (List.range count).map fun k => (i, tick (first + k) [] true)

/-- `i` makes a call and takes `count` steps. -/
def runCall (i : Pid) (call : Call) (first count : Nat) : List (Pid × Action) :=
  (i, .start call) :: steps i first count

/-- What `count` steps are given, numbered from `first`. -/
def inputs (first count : Nat) : List Input :=
  (List.range count).map fun k =>
    ⟨1000 * (first + k), fun n => uuidText (10 * (first + k) + n), [], true⟩

/-- A wallet is opened with 100.00 under the id `uuidText 10`, and 30.00 are bet. -/
def openAndBet : List (Pid × Action) :=
  runCall 0 (.openWallet openCommand) 1 6 ++
    runCall 1 (.submit (submitCommand .bet "bet-1" none (uuidText 10))) 7 6

/-- The bet is refunded, and then rolled back as well. -/
def refundAndRollback : List (Pid × Action) :=
  openAndBet ++
    runCall 2 (.submit (submitCommand .refund "refund-1" (some "bet-1") (uuidText 10))) 13 8 ++
      runCall 3 (.submit (submitCommand .rollback "rollback-1" (some "bet-1") (uuidText 10))) 21 8

theorem refundAndRollback_reaches : ∃ c, Reachable (step localPlatform) initial c ∧
    c.shared.db.wallets.map (fun w => (w.balanceAmount, w.version)) = [(13000, 4)] ∧
      c.shared.db.wagerTransactions.map (fun t => (t.kind, t.status)) =
        [(.opening, .processed), (.bet, .processed), (.refund, .processed),
          (.rollback, .processed)] := by
  have hrun : (exec (step localPlatform) initial refundAndRollback).any (fun c =>
      decide (c.shared.db.wallets.map (fun w => (w.balanceAmount, w.version)) = [(13000, 4)]) &&
        decide (c.shared.db.wagerTransactions.map (fun t => (t.kind, t.status)) =
          [(.opening, .processed), (.bet, .processed), (.refund, .processed),
            (.rollback, .processed)])) = true := by
    decide +kernel
  obtain ⟨c, hreach, hp⟩ := reachable_of_any hrun
  simp only [Bool.and_eq_true, decide_eq_true_eq] at hp
  exact ⟨c, hreach, hp⟩

/-- Of the two events of an opening, which are of one aggregate, the first send fails and the
second succeeds. -/
def failedSend : List (Pid × Action) :=
  runCall 0 (.openWallet openCommand) 1 6 ++
    [(1, .start (.publishOutbox 20)), (1, tick 7 [uuidText 52, uuidText 53] true),
      (1, tick 8 [] false), (1, tick 9 [] true), (1, tick 10 [] true)]

theorem failedSend_reaches : ∃ c, Reachable (step localPlatform) initial c ∧
    c.shared.sent.map (fun x => (x.messageDeduplicationId, x.messageGroupId)) =
        [(uuidText 53, uuidText 10)] ∧
      c.shared.db.outboxMessages.map (fun m => (m.id, m.aggregateId, m.attempts, m.publishedAt)) =
        [(uuidText 52, uuidText 10, 1, none), (uuidText 53, uuidText 10, 0, some 7000)] := by
  have hrun : (exec (step localPlatform) initial failedSend).any (fun c =>
      decide (c.shared.sent.map (fun x => (x.messageDeduplicationId, x.messageGroupId)) =
          [(uuidText 53, uuidText 10)]) &&
        decide (c.shared.db.outboxMessages.map (fun m =>
            (m.id, m.aggregateId, m.attempts, m.publishedAt)) =
          [(uuidText 52, uuidText 10, 1, none), (uuidText 53, uuidText 10, 0, some 7000)])) =
      true := by
    decide +kernel
  obtain ⟨c, hreach, hp⟩ := reachable_of_any hrun
  simp only [Bool.and_eq_true, decide_eq_true_eq] at hp
  exact ⟨c, hreach, hp⟩

end WageringProcessor
