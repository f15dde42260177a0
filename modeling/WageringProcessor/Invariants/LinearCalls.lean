import WageringProcessor.Invariants.Linear

/-!
# The commits of consumers and openings

What a consumer or an opening commits is what the serial system would have done on the database
that it commits to.
-/

namespace WageringProcessor

open Library.Interleaving (Pid)
open Library.Table WagerTransactionFinalizer Relation

variable {P : Platform} {i : Pid} {s s' : Shared} {d d' : Database} {own own' : Resource → Prop}
  {inp : Input} {ws writes claimed : List Writes} {now : Date} {wallet : Wallet}
  {tx : WagerTransaction} {looked looked' : Query → Database → Prop}

/-! ## Consumers -/

theorem effect_inbox (P : Platform) (tx : WagerTransaction) (wallet : Wallet)
    (reference : Option WagerTransaction) (credited : Bool) (ctx : EventContext)
    (newId : Nat → Id) :
    (effect P tx wallet reference credited ctx newId).2.2.inboxMessages = [] := by
  cases hrefusal : refusal tx wallet credited with
  | some code =>
    rw [effect_refused hrefusal]
    rfl
  | none =>
    rw [effect_accepted hrefusal]
    unfold acceptance
    dsimp only
    split <;> rfl

theorem Submit.decision_inbox (P : Platform) (wallet : Wallet) (tx : WagerTransaction)
    (ctx : EventContext) (newId : Nat → Id) (resolution : Option ReferenceResolution) :
    (Submit.decision P wallet tx ctx newId resolution).2.2.inboxMessages = [] := by
  match resolution with
  | some .pending | some (.rejected _) => rfl
  | some (.resolved _) | none => exact effect_inbox P tx wallet _ _ ctx newId

namespace Consume

variable {messageId : String} {cmd : SubmitWagerTransactionCommand}
  {result : SubmitWagerTransactionResult} {stage stage' : ConsumeStage} {row : InboxMessage}

/-- What the nested call wrote. -/
inductive Submitted (P : Platform) (looked : Query → Database → Prop) (own : Resource → Prop)
    (d : Database) (cmd : SubmitWagerTransactionCommand) :
    List Writes → SubmitWagerTransactionResult → Prop
  | committing {ws : List Writes} {result : SubmitWagerTransactionResult}
      (h : Submit.Committing P looked own d cmd ws result) : Submitted P looked own d cmd ws result
  | replayed {result : SubmitWagerTransactionResult} (h : Submit.Returned P own d cmd result) :
      Submitted P looked own d cmd [] result

/-- What the call is about to commit. -/
inductive Committing (P : Platform) (looked : Query → Database → Prop) (own : Resource → Prop)
    (d : Database) (messageId : String) : List Writes → Prop
  | duplicate : Committing P looked own d messageId []
  | processed {now : Date} {claimed ws : List Writes} {cmd : SubmitWagerTransactionCommand}
      {result : SubmitWagerTransactionResult} {row : InboxMessage}
      (inbox : InboxClaimed P own d messageId now claimed) (commands : Commands P messageId cmd)
      (submitted : Submitted P looked own d cmd ws result)
      (marked : (receive P messageId now).markProcessed now = .ok row) :
      Committing P looked own d messageId (claimed ++ ws ++ [{ inboxMessages := [row] }])

def Linear (P : Platform) (looked : Query → Database → Prop) (own : Resource → Prop) (d : Database)
    (messageId : String) : ConsumeStage → Prop
  | .submit _ _ cmd stage => Submit.Linear P looked own d cmd stage
  | .markProcessed now writes nested => ∃ claimed ws, writes = claimed ++ ws ∧
      InboxClaimed P own d messageId now claimed ∧ Commands P messageId nested.cmd ∧
        Submitted P looked own d nested.cmd ws nested.result
  | .commit writes _ _ => Committing P looked own d messageId writes
  | _ => True

section

variable (hc : Consistent P d) (hc' : Consistent P d') (hown : ∀ k, own k → own' k)
  (f : Frame own d d') (hlooked : ∀ q v, looked q v → looked' q v)
include hc hc' hown f hlooked

theorem Submitted.stable (h : Submitted P looked own d cmd ws result) :
    Submitted P looked' own' d' cmd ws result := by
  cases h with
  | committing h => exact .committing (h.stable hc hc' hown f hlooked)
  | replayed h => exact .replayed (h.stable hown f)

theorem Linear.stable (h : Linear P looked own d messageId stage)
    (hok : Ok P own d messageId stage) : Linear P looked' own' d' messageId stage := by
  cases stage with
  | submit now claimed cmd stage => exact Submit.Linear.stable h hok.2.2 hc hc' hown f hlooked
  | markProcessed now writes nested =>
    obtain ⟨claimed, ws, hwrites, hinbox, hcommands, hsubmitted⟩ := h
    exact ⟨claimed, ws, hwrites, hinbox.stable hown f, hcommands,
      hsubmitted.stable hc hc' hown f hlooked⟩
  | commit writes outcome nested =>
    cases h with
    | duplicate => exact .duplicate
    | processed inbox commands submitted marked =>
      exact .processed (inbox.stable hown f) commands (submitted.stable hc hc' hown f hlooked)
        marked
  | begin | findInbox | claimInbox | parse | delete | done => trivial

end

theorem Submitted.inbox (h : Submitted P looked own d cmd ws result) :
    ∀ w ∈ ws, w.inboxMessages = [] := by
  intro w hw
  cases h with
  | committing h =>
    obtain ⟨correlationId, newId, -⟩ := h
    rcases List.mem_pair.mp hw with rfl | rfl
    · rfl
    · exact Submit.decision_inbox P _ _ _ _ _
  | replayed => cases hw

/-- The row that the call inserted is the one it marks. -/
theorem InboxClaimed.found (h : InboxClaimed P own d messageId now claimed)
    (hsubmitted : ∀ w ∈ ws, w.inboxMessages = []) :
    (d.applyAll (claimed ++ ws)).findByConsumerAndMessageId CONSUMER_NAME messageId =
      some (receive P messageId now) := by
  have hview : d.applyAll (claimed ++ ws) =
      (d.applyAll ws).apply { inboxMessages := [receive P messageId now] } := by
    rw [h.writes, ← applyAll_inbox hsubmitted]
    simp only [Database.applyAll, List.foldl_append, List.foldl_cons, List.foldl_nil]
  rw [hview]
  show lookup InboxMessage.key (CONSUMER_NAME, messageId)
    (upsert InboxMessage.key _ (receive P messageId now)) = _
  rw [lookup_upsert]
  exact if_pos rfl

theorem step_linear (hc : Consistent P s.db) (hd : Drawn s.drawn s.db)
    (hok : Ok P (owns s i) s.db messageId stage)
    (h : Linear P looked (owns s i) s.db messageId stage)
    (hlooked : ∀ q, query stage = some q → looked q s.db)
    (hstep : step P messageId i inp s stage = some (s', stage')) :
    Linear P looked (owns s' i) s'.db messageId stage' := by
  cases step_way hstep with
  | duplicate => exact .duplicate
  | executes executes => exact Submit.step_linear hc hd hok.2.2 h hlooked executes
  | submitted => exact ⟨_, _, rfl, hok.1, hok.2.1, .committing h⟩
  | replayed => exact ⟨_, [], (List.append_nil _).symm, hok.1, hok.2.1, .replayed hok.2.2⟩
  | marked found marks =>
    obtain ⟨claimed, ws, rfl, hinbox, hcommands, hsubmitted⟩ := h
    obtain rfl := Option.some.inj (found.symm.trans (hinbox.found hsubmitted.inbox))
    exact .processed hinbox hcommands hsubmitted marks
  | _ => trivial

theorem marked_key (h : (receive P messageId now).markProcessed now = .ok row) :
    row.key = (CONSUMER_NAME, messageId) := by
  unfold InboxMessage.markProcessed at h
  split at h
  · cases h
  · obtain rfl := Except.ok.inj h
    rfl

theorem Committing.serial (h : Committing P looked own d messageId ws) (hc : Consistent P d) :
    ReflTransGen (SerialStep P looked) d (d.applyAll ws) := by
  cases h with
  | duplicate => exact .refl
  | processed inbox commands submitted marked =>
    rw [applyAll_received inbox submitted.inbox (marked_key marked)]
    have hfirst : d.findByConsumerAndMessageId CONSUMER_NAME messageId = none :=
      lookup_eq_none.mpr inbox.fresh
    cases submitted with
    | committing h =>
      obtain ⟨g, hserial⟩ := h.serial hc
      exact .single (.consumes hfirst commands hserial marked)
    | replayed h =>
      obtain ⟨byKey, hrow, -, hkey, hhash⟩ := h.answers
      have hfound := lookup_of_mem hc.idempotencyKeys hrow
      rw [hkey] at hfound
      exact .single (.replays hfirst commands hfound (decide_eq_true hhash) marked)

end Consume

/-! ## Openings -/

/-- There is always an id that is none of `ids`. -/
theorem exists_new_id (ids : List Id) : ∃ id : Id, id ∉ ids := by
  refine ⟨String.ofList (List.replicate ((ids.map String.length).sum + 1) 'x'), fun hmem => ?_⟩
  have hlength := List.le_sum_of_mem (List.mem_map_of_mem (f := String.length) hmem)
  rw [String.length_ofList, List.length_replicate] at hlength
  omega

theorem exists_newMessageIds (d : Database) : ∃ id id', d.NewMessageIds [id, id'] := by
  obtain ⟨id, hid⟩ := exists_new_id (d.outboxMessages.map OutboxMessage.id)
  obtain ⟨id', hid'⟩ := exists_new_id (id :: d.outboxMessages.map OutboxMessage.id)
  rw [List.mem_cons, not_or] at hid'
  refine ⟨id, id', by simpa using Ne.symm hid'.1, fun m hm hmem => ?_⟩
  have hold := List.mem_map_of_mem (f := OutboxMessage.id) hm
  rcases List.mem_pair.mp hmem with heq | heq
  · exact hid (heq ▸ hold)
  · exact hid'.2 (heq ▸ hold)

namespace OpenWallet

variable {cmd : OpenWalletCommand} {stage stage' : OpenWalletStage}

/-- What the call is about to commit. -/
inductive Committing (P : Platform) (own : Resource → Prop) (d : Database)
    (cmd : OpenWalletCommand) : List Writes → Wallet → Prop
  | empty {now : Date} {wallet : Wallet} (accepted : Accepted P wallet)
      (opened : Opened P own d cmd now wallet)
      (inserted : NewWallet P own d (toWalletEntity P wallet))
      (zero : ¬cmd.initialBalance.isPositive = true) :
      Committing P own d cmd [walletWrites P wallet] wallet
  | opening {now : Date} {wallet : Wallet} {tx : WagerTransaction} {entry : WalletLedgerEntry}
      (newId : Nat → Id) (accepted : Accepted P wallet)
      (drafted : Drafted P own d cmd now wallet tx) (key : KeyClaimed own d tx)
      (external : ExternalClaimed own d tx)
      (made : openingEntry cmd (newId 0) wallet tx now = .ok entry)
      (first : NewId own d (newId 2)) (second : NewId own d (newId 3))
      (distinct : newId 2 ≠ newId 3) :
      Committing P own d cmd [walletWrites P wallet,
        openingWrites P cmd wallet tx entry ⟨newId 1, none, now⟩ newId] wallet

def Linear (P : Platform) (own : Resource → Prop) (d : Database) (cmd : OpenWalletCommand) :
    OpenWalletStage → Prop
  | .claimKey _ wallet _ | .claimExternal _ wallet _ | .insertEntry _ wallet _ => Accepted P wallet
  | .commit writes wallet => Committing P own d cmd writes wallet
  | _ => True

theorem Prepared.inserted (h : Prepared P own d ws wallet) :
    NewWallet P own d (toWalletEntity P wallet) := by
  cases h with
  | empty inserted _ => exact inserted
  | opening _ opens => exact opens.wallet

theorem Linear.stable (hown : ∀ k, own k → own' k) (f : Frame own d d')
    (h : Linear P own d cmd stage) : Linear P own' d' cmd stage := by
  cases stage with
  | commit writes wallet =>
    cases h with
    | empty accepted opened inserted zero =>
      exact .empty accepted (opened.stable hown f) (inserted.stable hown f) zero
    | opening newId accepted drafted key external made first second distinct =>
      exact .opening newId accepted (drafted.stable hown f) (key.stable hown f)
        (external.stable hown f) made (first.stable hown f) (second.stable hown f) distinct
  | claimKey | claimExternal | insertEntry => exact h
  | begin | insertWallet | returned | threw => trivial

theorem step_linear (hd : Drawn s.drawn s.db) (hok : Ok P (owns s i) s.db cmd stage)
    (h : Linear P (owns s i) s.db cmd stage)
    (hstep : step P cmd i inp s stage = some (s', stage')) :
    Linear P (owns s' i) s'.db cmd stage' := by
  have hok' := (step_ok hd hok hstep).2
  cases step_way hstep with
  | opening accepted => exact accepted
  | empty accepted takes _ zero =>
    have hacq := take_acquires takes
    exact .empty accepted (Opened.stable hacq.keeps hacq.frame hok) (Prepared.inserted hok') zero
  | keyClaimed | externalClaimed => exact h
  | entered draws enters =>
    have hdraws := draw_draws draws
    have hd₁ : Drawn s.drawn s'.db := hdraws.db ▸ hd
    obtain ⟨hdrafted, hkey, hexternal⟩ := Ok.stable hdraws.keeps hdraws.frame hok
    have hne : inp.newId 2 ≠ inp.newId 3 := by
      have hnodup := hdraws.nodup
      simp only [List.nodup_cons, List.mem_cons, List.not_mem_nil, or_false] at hnodup
      exact hnodup.2.2.1
    exact .opening inp.newId h hdrafted hkey hexternal enters (hdraws.newId hd₁ (by simp))
      (hdraws.newId hd₁ (by simp)) hne
  | _ => trivial

theorem not_playerHasWallet (h : NewWallet P own d (toWalletEntity P wallet)) :
    ¬playerHasWallet P d wallet = true := by
  intro hany
  obtain ⟨r, hr, hsame⟩ := List.any_eq_true.mp hany
  simp only [Bool.and_eq_true, decide_eq_true_eq] at hsame
  exact h.newPlayer r hr (Prod.ext hsame.1 hsame.2)

theorem Committing.serial (h : Committing P own d cmd ws wallet) :
    ∃ g, Generated.Fresh P d g ∧ execute P d cmd g = .ok (wallet, ws) := by
  cases h with
  | @empty now _ accepted opened inserted zero =>
    obtain ⟨new, hnew⟩ := exists_new d
    obtain ⟨id, id', hids⟩ := exists_newMessageIds d
    refine ⟨⟨now, wallet.id, new, fun n => if n = 2 then id else id'⟩,
      ⟨opened.id, opened.newId, hnew, hids⟩, ?_⟩
    unfold execute
    dsimp only
    rw [← opened.created, if_neg accepted, if_neg (not_playerHasWallet inserted), if_neg zero]
  | @opening now _ tx entry newId accepted drafted key external made first second distinct =>
    have hkey : d.findByIdempotencyKey tx.idempotencyKey = none := lookup_eq_none.mpr key.2
    have hexternal : d.findByProviderAndExternalId tx.providerId tx.externalTransactionId = none :=
      lookup_eq_none.mpr external.2
    have hpositive : cmd.initialBalance.isPositive = true := by
      simpa [Money.isPositive] using drafted.positive
    refine ⟨⟨now, wallet.id, tx.id, newId⟩, ⟨drafted.inserted.id, drafted.inserted.newId,
      drafted.newId, newMessageIds_pair first second distinct⟩, ?_⟩
    unfold execute
    dsimp only
    rw [← drafted.opened, if_neg accepted, if_neg (not_playerHasWallet drafted.inserted),
      if_pos hpositive, ← drafted.created]
    unfold openWith
    rw [hkey, hexternal, if_neg (by decide)]
    dsimp only
    rw [made]

end OpenWallet

end WageringProcessor
