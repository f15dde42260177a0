import WageringProcessor.Invariants.ConsumeSteps
import WageringProcessor.Invariants.Submit

/-!
# What a consumer knows at each stage
-/

namespace WageringProcessor

open Library.Interleaving (Pid)
open Library.Table

namespace Consume

variable {P : Platform} {messageId : String} {i : Pid} {s s' : Shared}
  {own own' : Resource → Prop} {d d' : Database} {cmd : SubmitWagerTransactionCommand}
  {now : Date} {inp : Input} {stage stage' : ConsumeStage} {claimed writes : List Writes}
  {result : SubmitWagerTransactionResult} {outcome : ConsumeOutcome}
  {nested : Option NestedSubmit}

/-! ## The assertions -/

/-- The inbox row of the message was inserted. -/
structure InboxClaimed (P : Platform) (own : Resource → Prop) (d : Database) (messageId : String)
    (now : Date) (claimed : List Writes) : Prop where
  writes : claimed = [{ inboxMessages := [receive P messageId now] }]
  owns : own (.inbox messageId)
  fresh : ∀ m ∈ d.inboxMessages, m.key ≠ (CONSUMER_NAME, messageId)

def Commands (P : Platform) (messageId : String) (cmd : SubmitWagerTransactionCommand) : Prop :=
  parseWagerTransactionMessage P (P.messageBody messageId) = .ok cmd

/-- What the nested call wrote: the settlement it prepared, or nothing where it is a replay. -/
inductive Nested (P : Platform) (own : Resource → Prop) (d : Database)
    (cmd : SubmitWagerTransactionCommand) : List Writes → SubmitWagerTransactionResult → Prop
  | prepared {writes : List Writes} {result : SubmitWagerTransactionResult}
      (h : Submit.Prepared P own d cmd writes result) : Nested P own d cmd writes result
  | replayed {result : SubmitWagerTransactionResult}
      (h : Submit.Returned P own d cmd result) : Nested P own d cmd [] result

/-- The message has a processed row. -/
def Received (d : Database) (messageId : String) : Prop :=
  ∃ row ∈ d.inboxMessages, row.key = (CONSUMER_NAME, messageId) ∧ row.isProcessed = true

/-- What the call has written and is about to commit. -/
inductive Prepared (P : Platform) (own : Resource → Prop) (d : Database) (messageId : String) :
    List Writes → ConsumeOutcome → Option NestedSubmit → Prop
  | duplicate (received : Received d messageId) : Prepared P own d messageId [] .duplicate none
  | processed {now : Date} {claimed writes : List Writes} {nested : NestedSubmit}
      {row : InboxMessage} (inbox : InboxClaimed P own d messageId now claimed)
      (commands : Commands P messageId nested.cmd)
      (submitted : Nested P own d nested.cmd writes nested.result)
      (key : row.key = (CONSUMER_NAME, messageId)) (marked : row.isProcessed = true) :
      Prepared P own d messageId (claimed ++ writes ++ [{ inboxMessages := [row] }]) .processed
        (some nested)

/-- How a call that committed ends. -/
structure Finished (P : Platform) (own : Resource → Prop) (d : Database) (messageId : String)
    (outcome : ConsumeOutcome) (nested : Option NestedSubmit) : Prop where
  ack : outcome.ack = true
  received : Received d messageId
  returned : ∀ n, nested = some n →
    Commands P messageId n.cmd ∧ Submit.Returned P own d n.cmd n.result

def Ok (P : Platform) (own : Resource → Prop) (d : Database) (messageId : String) :
    ConsumeStage → Prop
  | .parse now claimed => InboxClaimed P own d messageId now claimed
  | .submit now claimed cmd stage => InboxClaimed P own d messageId now claimed ∧
      Commands P messageId cmd ∧ Submit.Ok P own d cmd stage
  | .markProcessed now writes nested => ∃ claimed submitted, writes = claimed ++ submitted ∧
      InboxClaimed P own d messageId now claimed ∧ Commands P messageId nested.cmd ∧
        Nested P own d nested.cmd submitted nested.result
  | .commit writes outcome nested => Prepared P own d messageId writes outcome nested
  | .delete outcome nested => Finished P own d messageId outcome nested
  | .done outcome nested => (outcome.ack = false ∧ nested = none) ∨
      Finished P own d messageId outcome nested
  | _ => True

/-! ## They survive the steps of others -/

section

variable (hown : ∀ k, own k → own' k) (f : Frame own d d')
include hown f

theorem InboxClaimed.stable (h : InboxClaimed P own d messageId now claimed) :
    InboxClaimed P own' d' messageId now claimed := by
  refine ⟨h.writes, hown _ h.owns, fun m hm hkey => ?_⟩
  have hid : m.messageId = messageId := (Prod.mk.inj hkey).2
  exact h.fresh m (f.inboxKey m hm (hid ▸ h.owns)) hkey

theorem Nested.stable (h : Nested P own d cmd writes result) :
    Nested P own' d' cmd writes result := by
  cases h with
  | prepared h => exact .prepared (h.stable hown f)
  | replayed h => exact .replayed (h.stable hown f)

omit hown in
theorem Received.stable (h : Received d messageId) : Received d' messageId := by
  obtain ⟨row, hrow, hkey, hprocessed⟩ := h
  exact ⟨row, f.inbox row hrow, hkey, hprocessed⟩

theorem Prepared.stable (h : Prepared P own d messageId writes outcome nested) :
    Prepared P own' d' messageId writes outcome nested := by
  cases h with
  | duplicate received => exact .duplicate (received.stable f)
  | processed inbox commands submitted key marked =>
    exact .processed (inbox.stable hown f) commands (submitted.stable hown f) key marked

theorem Finished.stable (h : Finished P own d messageId outcome nested) :
    Finished P own' d' messageId outcome nested := by
  refine ⟨h.ack, h.received.stable f, fun n hn => ?_⟩
  obtain ⟨hcommands, hreturned⟩ := h.returned n hn
  exact ⟨hcommands, hreturned.stable hown f⟩

theorem Ok.stable (h : Ok P own d messageId stage) : Ok P own' d' messageId stage := by
  cases stage with
  | begin | findInbox | claimInbox => trivial
  | parse => exact InboxClaimed.stable hown f h
  | submit => exact ⟨h.1.stable hown f, h.2.1, h.2.2.stable hown f⟩
  | markProcessed =>
    obtain ⟨claimed, submitted, hwrites, hinbox, hcommands, hnested⟩ := h
    exact ⟨claimed, submitted, hwrites, hinbox.stable hown f, hcommands, hnested.stable hown f⟩
  | commit => exact Prepared.stable hown f h
  | delete => exact Finished.stable hown f h
  | done =>
    rcases h with h | h
    · exact Or.inl h
    · exact Or.inr (h.stable hown f)

end

/-! ## The commit -/

/-- Inbox rows and the other tables are written independently. -/
theorem applyAll_inbox {ms : List InboxMessage} (h : ∀ w ∈ writes, w.inboxMessages = []) :
    (d.apply { inboxMessages := ms }).applyAll writes =
      (d.applyAll writes).apply { inboxMessages := ms } := by
  induction writes generalizing d with
  | nil => rfl
  | cons w rest ih =>
    have hw := h w List.mem_cons_self
    have hcomm : (d.apply { inboxMessages := ms }).apply w =
        (d.apply w).apply { inboxMessages := ms } := by
      simp [Database.apply, hw]
    change ((d.apply { inboxMessages := ms }).apply w).applyAll rest = _
    rw [hcomm, ih fun w' hw' => h w' (List.mem_cons_of_mem _ hw')]
    rfl

theorem apply_inbox_twice {row row' : InboxMessage} (h : row.key = row'.key) :
    (d.apply { inboxMessages := [row] }).apply { inboxMessages := [row'] } =
      d.apply { inboxMessages := [row'] } := by
  simp [Database.apply, upsert_upsert h]

/-- The row inserted first and marked at the end is one change after what the nested call wrote. -/
theorem applyAll_received {row : InboxMessage} (hinbox : InboxClaimed P own d messageId now claimed)
    (hwrites : ∀ w ∈ writes, w.inboxMessages = []) (hkey : row.key = (CONSUMER_NAME, messageId)) :
    d.applyAll (claimed ++ writes ++ [{ inboxMessages := [row] }]) =
      (d.applyAll writes).apply { inboxMessages := [row] } := by
  rw [hinbox.writes]
  simp only [Database.applyAll, List.foldl_append, List.foldl_cons, List.foldl_nil]
  have hcomm : (d.apply { inboxMessages := [receive P messageId now] }).applyAll writes =
      (d.applyAll writes).apply { inboxMessages := [receive P messageId now] } :=
    applyAll_inbox hwrites
  unfold Database.applyAll at hcomm
  rw [hcomm]
  exact apply_inbox_twice hkey.symm

/-- What the nested call wrote, as changes that are permitted one by one. -/
theorem Nested.permitted (h : Nested P own d cmd writes result) :
    (∀ w ∈ writes, w.inboxMessages = []) ∧ ∃ ws, d.applyAll writes = d.applyAll ws ∧
      PermittedSeq P own d ws ∧ Queues ws ∧
        (d.applyAll ws).inboxMessages = d.inboxMessages := by
  cases h with
  | prepared h =>
    refine ⟨?_, ?_⟩
    · obtain ⟨claimed, key, hash, settled⟩ := h
      intro w hw
      rcases List.mem_pair.mp hw with rfl | rfl
      · rfl
      · exact settled.settles.inbox
    · obtain ⟨w, hw, hsettled⟩ := h.permitted
      refine ⟨[w], hw, .single (.settled hsettled), hsettled.queues, ?_⟩
      obtain ⟨settles, -⟩ := hsettled
      simp [Database.applyAll, Database.apply, settles.inbox]
  | replayed h => exact ⟨by simp, [], rfl, .nil d, by simp [Queues], rfl⟩

theorem Nested.returned (h : Nested P own d cmd writes result)
    (hown : ∀ id, own (.uuid id) → own' (.uuid id)) :
    Submit.Returned P own' (d.applyAll writes) cmd result := by
  cases h with
  | prepared h => exact h.returned hown
  | replayed h => exact ⟨h.answers, fun hnew => hown _ (h.drew hnew)⟩

/-- The two changes of a commit, and how the call ends after it. -/
theorem Prepared.commits (h : Prepared P own d messageId writes outcome nested)
    (hown : ∀ id, own (.uuid id) → own' (.uuid id)) :
    (∃ ws, d.applyAll writes = d.applyAll ws ∧ PermittedSeq P own d ws ∧ Queues ws) ∧
      Finished P own' (d.applyAll writes) messageId outcome nested := by
  cases h with
  | duplicate received => exact ⟨⟨[], rfl, .nil d, by simp [Queues]⟩, rfl, received, by simp⟩
  | @processed now claimed writes nested row inbox commands submitted key marked =>
    obtain ⟨hnoInbox, ws, hws, hpermitted, hqueues, hsame⟩ := submitted.permitted
    have hreturned := submitted.returned hown
    have hid : row.messageId = messageId := (Prod.mk.inj key).2
    rw [applyAll_received inbox hnoInbox key]
    have hrow : row ∈ ((d.applyAll writes).apply { inboxMessages := [row] }).inboxMessages :=
      upsert_self_mem
    obtain ⟨t, ht, -, htkey, hthash⟩ := hreturned.answers
    refine ⟨⟨ws ++ [{ inboxMessages := [row] }], ?_, hpermitted.concat ?_,
      hqueues.append (by simp [Queues])⟩, rfl, ⟨row, hrow, key, marked⟩, ?_⟩
    · rw [hws]
      simp [Database.applyAll]
    · refine .received rfl (hid ▸ inbox.owns) ?_ ⟨(Prod.mk.inj key).1, marked, nested.cmd,
        hid ▸ commands, t, hws ▸ ht, htkey, hthash⟩
      rw [hsame, key]
      exact inbox.fresh
    · rintro n hn
      obtain rfl := Option.some.inj hn
      exact ⟨commands, hreturned.answers, hreturned.drew⟩

/-! ## A step of a consumer -/

theorem abort_ok (err : Exception) : Advances P i s (s.rollback i) ∧
    Ok P (owns (s.rollback i) i) (s.rollback i).db messageId (abort i s' err).2 := by
  refine ⟨rollback_advances, Or.inl ⟨?_, rfl⟩⟩
  cases err <;> rfl

/-- A step before the deletion. -/
theorem step_ok (hc : Consistent P s.db) (hd : Drawn s.drawn s.db)
    (h : Ok P (owns s i) s.db messageId stage) (hdelete : ∀ outcome nested,
      stage ≠ .delete outcome nested)
    (hstep : step P messageId i inp s stage = some (s', stage')) :
    Advances P i s s' ∧ Ok P (owns s' i) s'.db messageId stage' := by
  cases step_way hstep with
  | begin | missing => exact ⟨.refl P i s, trivial⟩
  | duplicate found processed =>
    obtain ⟨hrow, hkey⟩ := lookup_mem found
    exact ⟨.refl P i s, .duplicate ⟨_, hrow, hkey, processed⟩⟩
  | unprocessed found processed =>
    -- a committed row is always processed, so this branch is never taken
    cases processed.symm.trans (hc.inbox _ (lookup_mem found).1).processed
  | taken takes =>
    have hacq := take_acquires takes
    exact ⟨hacq.trans_advances rollback_advances hacq.db, (abort_ok _).2⟩
  | claimed takes free =>
    have hacq := take_acquires takes
    refine ⟨hacq.advances, rfl, hacq.holds _ List.mem_cons_self, ?_⟩
    rw [hacq.db]
    exact lookup_eq_none.mp free
  | unparsed | threw | unfound | unmarked => exact abort_ok _
  | parsed parses => exact ⟨.refl P i s, h, parses, trivial⟩
  | executes executes =>
    obtain ⟨hinbox, hcommands, hsubmit⟩ := h
    obtain ⟨hquiet, hok⟩ := Submit.step_ok hc hd hsubmit executes
    refine ⟨hquiet.advances, ⟨hinbox.writes, hquiet.keeps _ rfl hinbox.owns, ?_⟩, hcommands, hok⟩
    rw [hquiet.db]
    exact hinbox.fresh
  | submitted =>
    obtain ⟨hinbox, hcommands, hsubmit⟩ := h
    exact ⟨.refl P i s, _, _, rfl, hinbox, hcommands, .prepared hsubmit⟩
  | replayed =>
    obtain ⟨hinbox, hcommands, hsubmit⟩ := h
    exact ⟨.refl P i s, _, [], (List.append_nil _).symm, hinbox, hcommands, .replayed hsubmit⟩
  | marked found marks =>
    obtain ⟨claimed, submitted, rfl, hinbox, hcommands, hnested⟩ := h
    unfold InboxMessage.markProcessed at marks
    split at marks
    · cases marks
    · obtain rfl := Except.ok.inj marks
      exact ⟨.refl P i s, .processed hinbox hcommands hnested (lookup_mem found).2 rfl⟩
  | @commits writes =>
    have huuid : ∀ id, owns s i (.uuid id) → owns (s.commit i writes) i (.uuid id) :=
      fun id hid => giveBack_keeps hid rfl
    obtain ⟨⟨ws, hws, hpermitted, hqueues⟩, hfinished⟩ := Prepared.commits h huuid
    exact ⟨hqueues.advances hws hpermitted, hfinished⟩
  | deletes => exact absurd rfl (hdelete _ _)

end Consume

end WageringProcessor
