import WageringProcessor.Invariants.Alone
import WageringProcessor.Invariants.LinearCalls
import WageringProcessor.UseCases.ConsumeAlone

/-!
# A consumer that runs alone

The nested `execute` is followed by what `Submit.Knows` says of it, and the steps around it by what
`handle` comes to at each of them.
-/

namespace WageringProcessor

open Library.Interleaving Library.Table

variable {P : Platform} {i : Pid} {s₀ s s' : Shared} {messageId : String}
  {cmd : SubmitWagerTransactionCommand} {inp : Input} {now : Date} {claimed writes : List Writes}
  {stage stage' : ConsumeStage} {outcome : ConsumeOutcome} {nested : Option NestedSubmit}

namespace Consume

theorem caught_ack (err : Exception) : (caught err).ack = false := by
  cases err <;> rfl

/-! ## What `handle` comes to -/

theorem handle_new {d : Database}
    (hnew : d.findByConsumerAndMessageId CONSUMER_NAME messageId = none)
    (now : Date) (g : Generated) :
    handle P d messageId now g = process P d messageId now g
      [{ inboxMessages := [receive P messageId now] }] (receive P messageId now) := by
  unfold handle
  rw [hnew]

theorem process_malformed {d : Database} {err : Exception} {row : InboxMessage}
    (hparse : parseWagerTransactionMessage P (P.messageBody messageId) = .error err) (now : Date)
    (g : Generated) : process P d messageId now g claimed row = (caught err, []) := by
  unfold process
  rw [hparse]

theorem process_threw {d : Database} {err : Exception} {row : InboxMessage} {g : Generated}
    (hparse : Commands P messageId cmd) (hexecute : Submit.execute P d cmd g = .error err)
    (now : Date) : process P d messageId now g claimed row = (caught err, []) := by
  unfold process
  rw [show parseWagerTransactionMessage P (P.messageBody messageId) = .ok cmd from hparse]
  dsimp only
  rw [hexecute]

theorem process_returned {d : Database} {result : SubmitWagerTransactionResult}
    {row row' : InboxMessage} {g : Generated} (hparse : Commands P messageId cmd)
    (hexecute : Submit.execute P d cmd g = .ok (result, writes))
    (hmark : row.markProcessed now = .ok row') :
    process P d messageId now g claimed row =
      (.processed, claimed ++ writes ++ [{ inboxMessages := [row'] }]) := by
  unfold process
  rw [show parseWagerTransactionMessage P (P.messageBody messageId) = .ok cmd from hparse]
  dsimp only
  rw [hexecute]
  dsimp only
  rw [hmark]

/-! ## What the call knows at each stage -/

/-- The message was not there, and its row is inserted. -/
structure Inserted (P : Platform) (d : Database) (messageId : String) (now : Date)
    (claimed : List Writes) : Prop where
  new : d.findByConsumerAndMessageId CONSUMER_NAME messageId = none
  claimed : claimed = [{ inboxMessages := [receive P messageId now] }]

/-- The call has come to the outcome and has these rows to commit, or has committed them. -/
def Handled (P : Platform) (d : Database) (messageId : String) (outcome : ConsumeOutcome)
    (writes : List Writes) : Prop :=
  ∃ now g, g.New d ∧ handle P d messageId now g = (outcome, writes)

def Knows (P : Platform) (s₀ : Shared) (messageId : String) (s : Shared) : ConsumeStage → Prop
  | .begin | .findInbox _ => s.db = s₀.db
  | .claimInbox _ => s.db = s₀.db ∧
      s₀.db.findByConsumerAndMessageId CONSUMER_NAME messageId = none
  | .parse now claimed => s.db = s₀.db ∧ Inserted P s₀.db messageId now claimed
  | .submit now claimed cmd stage => s.db = s₀.db ∧ Inserted P s₀.db messageId now claimed ∧
      Commands P messageId cmd ∧ Submit.Knows P s₀ cmd s stage
  | .markProcessed now writes nested => s.db = s₀.db ∧ ∃ claimed submitted g,
      writes = claimed ++ submitted ∧ Inserted P s₀.db messageId now claimed ∧ g.New s₀.db ∧
        (∀ w ∈ submitted, w.inboxMessages = []) ∧ Commands P messageId nested.cmd ∧
          Submit.execute P s₀.db nested.cmd g = .ok (nested.result, submitted)
  | .commit writes outcome _ => s.db = s₀.db ∧ outcome.ack = true ∧
      Handled P s₀.db messageId outcome writes
  | .delete outcome _ => outcome.ack = true ∧ ∃ writes,
      Handled P s₀.db messageId outcome writes ∧ s.db = s₀.db.applyAll writes
  | .done outcome _ => s.deleted = acknowledge outcome messageId s₀.deleted ∧ ∃ writes,
      Handled P s₀.db messageId outcome writes ∧ s.db = s₀.db.applyAll writes

/-! ## Steps -/

theorem abort_knows {err : Exception} (hdb : s.db = s₀.db) (hdeleted : s.deleted = s₀.deleted)
    (hhandled : Handled P s₀.db messageId (caught err) []) :
    Knows P s₀ messageId (s.rollback i) (abort i s err).2 := by
  refine ⟨?_, [], hhandled, hdb⟩
  show s.deleted = acknowledge (caught err) messageId s₀.deleted
  rw [acknowledge, caught_ack, hdeleted]
  rfl

theorem handled_duplicate {row : InboxMessage} {d : Database}
    (hfound : d.findByConsumerAndMessageId CONSUMER_NAME messageId = some row)
    (hprocessed : row.isProcessed = true) : Handled P d messageId .duplicate [] := by
  obtain ⟨new, hnew⟩ := exists_new d
  refine ⟨0, ⟨0, new, new, fun _ => new⟩, hnew, ?_⟩
  unfold handle
  rw [hfound]
  exact if_pos hprocessed

variable (hinserted : Inserted P s₀.db messageId now claimed)
include hinserted

theorem handled_unparsed {err : Exception}
    (hparse : parseWagerTransactionMessage P (P.messageBody messageId) = .error err) :
    Handled P s₀.db messageId (caught err) [] := by
  obtain ⟨new, hnew⟩ := exists_new s₀.db
  refine ⟨now, ⟨now, new, new, fun _ => new⟩, hnew, ?_⟩
  rw [handle_new hinserted.new, process_malformed hparse]

theorem handled_threw {err : Exception} {g : Generated} (hparse : Commands P messageId cmd)
    (hnew : g.New s₀.db) (hexecute : Submit.execute P s₀.db cmd g = .error err) :
    Handled P s₀.db messageId (caught err) [] := by
  refine ⟨now, g, hnew, ?_⟩
  rw [handle_new hinserted.new, process_threw hparse hexecute]

theorem handled_marked {g : Generated} {result : SubmitWagerTransactionResult}
    {row : InboxMessage} (hparse : Commands P messageId cmd) (hnew : g.New s₀.db)
    (hexecute : Submit.execute P s₀.db cmd g = .ok (result, writes))
    (hmark : (receive P messageId now).markProcessed now = .ok row) :
    Handled P s₀.db messageId .processed
      (claimed ++ writes ++ [{ inboxMessages := [row] }]) := by
  refine ⟨now, g, hnew, ?_⟩
  rw [handle_new hinserted.new, process_returned hparse hexecute hmark, hinserted.claimed]

/-- The row that the call has inserted is found, and marked without an error. -/
theorem found_inserted (hdb : s.db = s₀.db)
    (hinbox : ∀ w ∈ writes, w.inboxMessages = []) :
    (s.db.applyAll (claimed ++ writes)).findByConsumerAndMessageId CONSUMER_NAME messageId =
      some (receive P messageId now) := by
  have hclaimed : InboxClaimed P (fun _ => True) s.db messageId now claimed :=
    ⟨hinserted.claimed, trivial, lookup_eq_none.mp (hdb ▸ hinserted.new)⟩
  exact hclaimed.found hinbox

omit hinserted

theorem step_knows (hc : Consistent P s.db) (hd : Drawn s.drawn s.db)
    (hmono : ∀ id, s₀.drawn id → s.drawn id)
    (hdeleted : (∀ outcome nested, stage ≠ .done outcome nested) → s.deleted = s₀.deleted)
    (hok : Ok P (owns s i) s.db messageId stage) (hknows : Knows P s₀ messageId s stage)
    (hstep : step P messageId i inp s stage = some (s', stage')) :
    Knows P s₀ messageId s' stage' := by
  cases step_way hstep with
  | begin => exact hknows
  | missing missing =>
    have hdb : s.db = s₀.db := hknows
    exact ⟨hdb, hdb ▸ missing⟩
  | duplicate found processed =>
    have hdb : s.db = s₀.db := hknows
    rw [hdb] at found
    exact ⟨hdb, rfl, handled_duplicate found processed⟩
  | unprocessed found processed =>
    cases processed.symm.trans (hc.inbox _ (lookup_mem found).1).processed
  | taken _ taken =>
    rw [hknows.1, hknows.2] at taken
    cases taken
  | claimed takes => exact ⟨(take_db takes).trans hknows.1, hknows.2, rfl⟩
  | unparsed parses =>
    exact abort_knows hknows.1 (hdeleted fun _ _ h => by cases h)
      (handled_unparsed hknows.2 parses)
  | parsed parses => exact ⟨hknows.1, hknows.2, parses, trivial⟩
  | executes executes =>
    obtain ⟨hdb, hinserted, hparse, hsubmit⟩ := hknows
    exact ⟨(Submit.step_way executes).db.trans hdb, hinserted, hparse,
      Submit.step_knows hc hd hdb hmono hok.2.2 hsubmit executes⟩
  | submitted =>
    obtain ⟨hdb, hinserted, hparse, g, hnew, hexecute, -⟩ := hknows
    exact ⟨hdb, _, _, g, rfl, hinserted, hnew, (Nested.prepared hok.2.2).permitted.1, hparse,
      hexecute⟩
  | replayed =>
    obtain ⟨hdb, hinserted, hparse, g, hnew, hexecute⟩ := hknows
    exact ⟨hdb, _, [], g, (List.append_nil _).symm, hinserted, hnew, by simp, hparse, hexecute⟩
  | threw =>
    obtain ⟨hdb, hinserted, hparse, g, hnew, hexecute⟩ := hknows
    exact abort_knows hdb (hdeleted fun _ _ h => by cases h)
      (handled_threw hinserted hparse hnew hexecute)
  | unfound missing =>
    obtain ⟨hdb, claimed, submitted, g, rfl, hinserted, -, hinbox, -⟩ := hknows
    cases missing.symm.trans (found_inserted hinserted hdb hinbox)
  | unmarked found marks =>
    obtain ⟨hdb, claimed, submitted, g, rfl, hinserted, -, hinbox, -⟩ := hknows
    obtain rfl := Option.some.inj (found.symm.trans (found_inserted hinserted hdb hinbox))
    cases marks
  | marked found marks =>
    obtain ⟨hdb, claimed, submitted, g, rfl, hinserted, hnew, hinbox, hparse, hexecute⟩ := hknows
    obtain rfl := Option.some.inj (found.symm.trans (found_inserted hinserted hdb hinbox))
    exact ⟨hdb, rfl, handled_marked hinserted hparse hnew hexecute marks⟩
  | @commits writes =>
    obtain ⟨hdb, hack, hhandled⟩ := hknows
    exact ⟨hack, writes, hhandled, congrArg (·.applyAll writes) hdb⟩
  | deletes =>
    obtain ⟨hack, hhandled⟩ := hknows
    refine ⟨?_, hhandled⟩
    rw [acknowledge, hack, if_pos rfl, hdeleted fun _ _ h => by cases h]

end Consume

end WageringProcessor
