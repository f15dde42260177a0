import WageringProcessor.Invariants.SubmitSteps
import WageringProcessor.UseCases.Consume

/-!
# What a step of a consumer can do

The same as for a submit.  A step inside `execute` is `executes`, whatever the nested call does.
-/

namespace WageringProcessor

open Library.Interleaving (Pid)

namespace Consume

variable (P : Platform) (messageId : String) (i : Pid) (inp : Input) (s : Shared)

inductive Way : ConsumeStage → Shared → ConsumeStage → Prop
  | begin : Way .begin s (.findInbox inp.now)
  -- the inbox
  | missing {now : Date}
      (missing : s.db.findByConsumerAndMessageId CONSUMER_NAME messageId = none) :
      Way (.findInbox now) s (.claimInbox now)
  | duplicate {now : Date} {row : InboxMessage}
      (found : s.db.findByConsumerAndMessageId CONSUMER_NAME messageId = some row)
      (processed : row.isProcessed = true) :
      Way (.findInbox now) s (.commit [] .duplicate none)
  | unprocessed {now : Date} {row : InboxMessage}
      (found : s.db.findByConsumerAndMessageId CONSUMER_NAME messageId = some row)
      (processed : row.isProcessed = false) :
      Way (.findInbox now) s (.parse now [])
  | taken {now : Date} {s₁ : Shared} (takes : s.take i [.inbox messageId] = some s₁)
      (taken : (s.db.findByConsumerAndMessageId CONSUMER_NAME messageId).isSome = true) :
      Way (.claimInbox now) (s₁.rollback i) (abort i s₁ .uniqueConstraintViolation).2
  | claimed {now : Date} {s₁ : Shared} (takes : s.take i [.inbox messageId] = some s₁)
      (free : s.db.findByConsumerAndMessageId CONSUMER_NAME messageId = none) :
      Way (.claimInbox now) s₁ (.parse now [{ inboxMessages := [receive P messageId now] }])
  -- the command
  | unparsed {now : Date} {claimed : List Writes} {err : Exception}
      (parses : parseWagerTransactionMessage P (P.messageBody messageId) = .error err) :
      Way (.parse now claimed) (s.rollback i) (abort i s err).2
  | parsed {now : Date} {claimed : List Writes} {cmd : SubmitWagerTransactionCommand}
      (parses : parseWagerTransactionMessage P (P.messageBody messageId) = .ok cmd) :
      Way (.parse now claimed) s (.submit now claimed cmd .begin)
  | executes {now : Date} {claimed : List Writes} {cmd : SubmitWagerTransactionCommand}
      {stage stage' : SubmitStage} {s₁ : Shared}
      (executes : Submit.step P cmd i inp s stage = some (s₁, stage')) :
      Way (.submit now claimed cmd stage) s₁ (.submit now claimed cmd stage')
  | submitted {now : Date} {claimed writes : List Writes} {cmd : SubmitWagerTransactionCommand}
      {result : SubmitWagerTransactionResult} :
      Way (.submit now claimed cmd (.commit writes result)) s
        (.markProcessed now (claimed ++ writes) ⟨cmd, result⟩)
  | replayed {now : Date} {claimed : List Writes} {cmd : SubmitWagerTransactionCommand}
      {result : SubmitWagerTransactionResult} :
      Way (.submit now claimed cmd (.returned result)) s (.markProcessed now claimed ⟨cmd, result⟩)
  | threw {now : Date} {claimed : List Writes} {cmd : SubmitWagerTransactionCommand}
      {err : Exception} :
      Way (.submit now claimed cmd (.threw err)) (s.rollback i) (abort i s err).2
  -- the mark
  | unfound {now : Date} {writes : List Writes} {nested : NestedSubmit}
      (missing : (s.db.applyAll writes).findByConsumerAndMessageId CONSUMER_NAME messageId =
        none) :
      Way (.markProcessed now writes nested) (s.rollback i) (abort i s .database).2
  | unmarked {now : Date} {writes : List Writes} {nested : NestedSubmit} {row : InboxMessage}
      {err : DomainError}
      (found : (s.db.applyAll writes).findByConsumerAndMessageId CONSUMER_NAME messageId =
        some row) (marks : row.markProcessed now = .error err) :
      Way (.markProcessed now writes nested) (s.rollback i) (abort i s (.domain err)).2
  | marked {now : Date} {writes : List Writes} {nested : NestedSubmit} {row row' : InboxMessage}
      (found : (s.db.applyAll writes).findByConsumerAndMessageId CONSUMER_NAME messageId =
        some row) (marks : row.markProcessed now = .ok row') :
      Way (.markProcessed now writes nested) s
        (.commit (writes ++ [{ inboxMessages := [row'] }]) .processed (some nested))
  | commits {writes : List Writes} {outcome : ConsumeOutcome} {nested : Option NestedSubmit} :
      Way (.commit writes outcome nested) (s.commit i writes) (.delete outcome nested)
  | deletes {outcome : ConsumeOutcome} {nested : Option NestedSubmit} :
      Way (.delete outcome nested) { s with deleted := messageId :: s.deleted }
        (.done outcome nested)

variable {P messageId i inp s} {s' : Shared} {stage stage' : ConsumeStage} {now : Date}

theorem findInbox_way (h : step P messageId i inp s (.findInbox now) = some (s', stage')) :
    Way P messageId i inp s (.findInbox now) s' stage' := by
  dsimp only [step] at h
  split at h
  · rename_i hmissing
    obtain ⟨rfl, rfl⟩ := Prod.mk.inj (Option.some.inj h)
    exact .missing hmissing
  · rename_i hfound
    split at h
    · rename_i hprocessed
      obtain ⟨rfl, rfl⟩ := Prod.mk.inj (Option.some.inj h)
      exact .duplicate hfound hprocessed
    · rename_i hprocessed
      obtain ⟨rfl, rfl⟩ := Prod.mk.inj (Option.some.inj h)
      exact .unprocessed hfound (Bool.not_eq_true _ ▸ hprocessed)

theorem claimInbox_way (h : step P messageId i inp s (.claimInbox now) = some (s', stage')) :
    Way P messageId i inp s (.claimInbox now) s' stage' := by
  obtain ⟨s₁, htake, hrest⟩ := Option.bind_eq_some_iff.mp h
  rw [take_db htake] at hrest
  split at hrest
  · rename_i htaken
    obtain ⟨rfl, rfl⟩ := Prod.mk.inj (Option.some.inj hrest)
    exact .taken htake htaken
  · rename_i hfree
    obtain ⟨rfl, rfl⟩ := Prod.mk.inj (Option.some.inj hrest)
    exact .claimed htake (Option.not_isSome_iff_eq_none.mp hfree)

theorem parse_way {claimed : List Writes}
    (h : step P messageId i inp s (.parse now claimed) = some (s', stage')) :
    Way P messageId i inp s (.parse now claimed) s' stage' := by
  dsimp only [step] at h
  split at h
  · rename_i hparse
    obtain ⟨rfl, rfl⟩ := Prod.mk.inj (Option.some.inj h)
    exact .unparsed hparse
  · rename_i hparse
    obtain ⟨rfl, rfl⟩ := Prod.mk.inj (Option.some.inj h)
    exact .parsed hparse

theorem submit_way {claimed : List Writes} {cmd : SubmitWagerTransactionCommand}
    {stage : SubmitStage}
    (h : step P messageId i inp s (.submit now claimed cmd stage) = some (s', stage')) :
    Way P messageId i inp s (.submit now claimed cmd stage) s' stage' := by
  cases stage with
  | commit writes result =>
    obtain ⟨rfl, rfl⟩ := Prod.mk.inj (Option.some.inj h)
    exact .submitted
  | returned result =>
    obtain ⟨rfl, rfl⟩ := Prod.mk.inj (Option.some.inj h)
    exact .replayed
  | threw err =>
    obtain ⟨rfl, rfl⟩ := Prod.mk.inj (Option.some.inj h)
    exact .threw
  | _ =>
    simp only [step] at h
    obtain ⟨⟨s₁, stage₁⟩, hinner, hout⟩ := Option.map_eq_some_iff.mp h
    obtain ⟨rfl, rfl⟩ := Prod.mk.inj hout
    exact .executes hinner

theorem markProcessed_way {writes : List Writes} {nested : NestedSubmit}
    (h : step P messageId i inp s (.markProcessed now writes nested) = some (s', stage')) :
    Way P messageId i inp s (.markProcessed now writes nested) s' stage' := by
  dsimp only [step] at h
  split at h
  · rename_i hmissing
    obtain ⟨rfl, rfl⟩ := Prod.mk.inj (Option.some.inj h)
    exact .unfound hmissing
  · rename_i hfound
    split at h
    · rename_i hmark
      obtain ⟨rfl, rfl⟩ := Prod.mk.inj (Option.some.inj h)
      exact .unmarked hfound hmark
    · rename_i hmark
      obtain ⟨rfl, rfl⟩ := Prod.mk.inj (Option.some.inj h)
      exact .marked hfound hmark

/-- What a step of a consumer can do. -/
theorem step_way (h : step P messageId i inp s stage = some (s', stage')) :
    Way P messageId i inp s stage s' stage' := by
  cases stage with
  | begin =>
    obtain ⟨rfl, rfl⟩ := Prod.mk.inj (Option.some.inj h)
    exact .begin
  | findInbox now => exact findInbox_way h
  | claimInbox now => exact claimInbox_way h
  | parse now claimed => exact parse_way h
  | submit now claimed cmd stage => exact submit_way h
  | markProcessed now writes nested => exact markProcessed_way h
  | commit writes outcome nested =>
    obtain ⟨rfl, rfl⟩ := Prod.mk.inj (Option.some.inj h)
    exact .commits
  | delete outcome nested =>
    obtain ⟨rfl, rfl⟩ := Prod.mk.inj (Option.some.inj h)
    exact .deletes
  | done => cases h

/-- Only the commit changes the database. -/
theorem Way.db (h : Way P messageId i inp s stage s' stage') : s'.db = s.db ∨
    ∃ writes outcome nested, stage = .commit writes outcome nested ∧ s' = s.commit i writes ∧
      stage' = .delete outcome nested := by
  cases h with
  | commits => exact Or.inr ⟨_, _, _, rfl, rfl, rfl⟩
  | taken takes | claimed takes => exact Or.inl (take_db takes :)
  | executes executes => exact Or.inl (Submit.step_way executes).db
  | _ => exact Or.inl rfl

end Consume

end WageringProcessor
