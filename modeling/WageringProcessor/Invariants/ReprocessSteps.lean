import WageringProcessor.Invariants.SubmitSteps
import WageringProcessor.UseCases.Reprocess

/-!
# What a step of a reprocess run can do

The same as for a submit.  The three decisions on an item end alike, in `settle`, and differ in
what they draw and write: that is `Decision`.
-/

namespace WageringProcessor

open Library.Interleaving (Pid)
open WagerTransactionFinalizer

namespace Reprocess

variable (P : Platform) (i : Pid) (batchSize : Nat) (inp : Input) (s : Shared)

/-- At `stage` the run decides on `tx`, with `rest` after it: it draws `ids` and comes to
`outcome`. -/
inductive Decision : ReprocessStage → ReprocessRun → WagerTransaction → List WagerTransaction →
    List Id → Except DomainError Writes → Prop
  | rejects {run : ReprocessRun} {tx : WagerTransaction} {ctx : EventContext}
      {failureCode : FailureCode} {rest : List WagerTransaction} :
      Decision (.resolved run tx ctx (.rejected failureCode) rest) run tx rest [inp.newId 1]
        (decide P tx ctx (some failureCode) (inp.newId 1))
  | waits {run : ReprocessRun} {tx : WagerTransaction} {ctx : EventContext}
      {rest : List WagerTransaction} :
      Decision (.resolved run tx ctx .pending rest) run tx rest [inp.newId 1]
        (decide P tx ctx none (inp.newId 1))
  | applies {run : ReprocessRun} {tx reference : WagerTransaction} {ctx : EventContext}
      {wallet : Wallet} {rest : List WagerTransaction} :
      Decision (.applyEffect run tx ctx wallet reference rest) run tx rest
        [inp.newId 0, inp.newId 1, inp.newId 2]
        ((applyEffect P tx wallet (some reference) ctx inp.newId).map fun out => out.2.2)

inductive Way : ReprocessStage → Shared → ReprocessStage → Prop
  | begin {s₁ : Shared} (batch : isBatch s inp.now batchSize inp.batch = true)
      (takes : s.take i (inp.batch.map .transaction) = some s₁) :
      Way .begin s₁ (.item ⟨inp.now, inp.batch.filterMap s.db.findWagerTransaction, []⟩
        (inp.batch.filterMap s.db.findWagerTransaction))
  | commits {run : ReprocessRun} :
      Way (.item run []) (s.commit i run.writes) (.returned run.batch.length)
  -- the reference
  | unnamed {run : ReprocessRun} {tx : WagerTransaction} {rest : List WagerTransaction}
      {s₁ : Shared} {err : DomainError} (draws : s.draw i P [inp.newId 0] = some s₁)
      (finds : findReference (view s run) tx = .error err) :
      Way (.item run (tx :: rest)) (s₁.rollback i) (.threw (.domain err))
  | found {run : ReprocessRun} {tx reference : WagerTransaction} {rest : List WagerTransaction}
      {s₁ : Shared} (draws : s.draw i P [inp.newId 0] = some s₁)
      (finds : findReference (view s run) tx = .ok (.resolved reference)) :
      Way (.item run (tx :: rest)) s₁
        (.findReversal run tx ⟨inp.newId 0, none, run.now⟩ reference rest)
  | unresolved {run : ReprocessRun} {tx : WagerTransaction} {rest : List WagerTransaction}
      {s₁ : Shared} {resolution : ReferenceResolution}
      (draws : s.draw i P [inp.newId 0] = some s₁)
      (finds : findReference (view s run) tx = .ok resolution)
      (unresolved : ∀ reference, resolution ≠ .resolved reference) :
      Way (.item run (tx :: rest)) s₁
        (.resolved run tx ⟨inp.newId 0, none, run.now⟩ resolution rest)
  | resolved {run : ReprocessRun} {tx reference : WagerTransaction} {ctx : EventContext}
      {rest : List WagerTransaction} :
      Way (.findReversal run tx ctx reference rest) s
        (.resolved run tx ctx (findReversal (view s run) tx reference) rest)
  -- the wallet
  | noUuid {run : ReprocessRun} {tx reference : WagerTransaction} {ctx : EventContext}
      {rest : List WagerTransaction} (uuid : P.uuid tx.walletId = none) :
      Way (.resolved run tx ctx (.resolved reference) rest) (s.rollback i) (.threw .database)
  | noWallet {run : ReprocessRun} {tx reference : WagerTransaction} {ctx : EventContext}
      {rest : List WagerTransaction} {id : Id} (uuid : P.uuid tx.walletId = some id)
      (missing : (view s run).findWallet id = none) :
      Way (.resolved run tx ctx (.resolved reference) rest) (s.rollback i)
        (.threw (.domain (.walletNotFound tx.walletId)))
  | locked {run : ReprocessRun} {tx reference : WagerTransaction} {ctx : EventContext}
      {rest : List WagerTransaction} {s₁ : Shared} {r : WalletRow}
      (row : r ∈ (view s run).wallets) (uuid : P.uuid tx.walletId = some r.id)
      (takes : s.take i [.wallet r.id] = some s₁) :
      Way (.resolved run tx ctx (.resolved reference) rest) s₁
        (.applyEffect run tx ctx (toWalletDomain r) reference rest)
  -- the decision
  | undecided {stage : ReprocessStage} {run : ReprocessRun} {tx : WagerTransaction}
      {rest : List WagerTransaction} {ids : List Id} {outcome : Except DomainError Writes}
      {s₁ : Shared} {err : DomainError}
      (decision : Decision P inp stage run tx rest ids outcome) (throws : outcome = .error err)
      (draws : s.draw i P ids = some s₁) :
      Way stage (s₁.rollback i) (.threw (.domain err))
  | unflushed {stage : ReprocessStage} {run : ReprocessRun} {tx : WagerTransaction}
      {rest : List WagerTransaction} {ids : List Id} {outcome : Except DomainError Writes}
      {s₁ : Shared} {w : Writes} {err : Exception}
      (decision : Decision P inp stage run tx rest ids outcome) (writes : outcome = .ok w)
      (draws : s.draw i P ids = some s₁) (flush : (view s run).flush w = .error err) :
      Way stage (s₁.rollback i) (.threw err)
  | decided {stage : ReprocessStage} {run : ReprocessRun} {tx : WagerTransaction}
      {rest : List WagerTransaction} {ids : List Id} {outcome : Except DomainError Writes}
      {s₁ : Shared} {w : Writes}
      (decision : Decision P inp stage run tx rest ids outcome) (writes : outcome = .ok w)
      (draws : s.draw i P ids = some s₁) (flush : (view s run).flush w = .ok ()) :
      Way stage s₁ (.item { run with writes := run.writes ++ [w] } rest)

variable {P i batchSize inp s} {s' s₁ : Shared} {stage stage' : ReprocessStage}
  {run : ReprocessRun} {tx : WagerTransaction} {rest : List WagerTransaction} {ids : List Id}
  {outcome : Except DomainError Writes}

theorem view_of_db (hdb : s₁.db = s.db) : view s₁ run = view s run := by
  unfold view
  rw [hdb]

theorem begin_way (h : step P i batchSize inp s .begin = some (s', stage')) :
    Way P i batchSize inp s .begin s' stage' := by
  dsimp only [step] at h
  split at h
  · rename_i hbatch
    obtain ⟨s₁, htake, hrest⟩ := Option.bind_eq_some_iff.mp h
    obtain ⟨rfl, rfl⟩ := Prod.mk.inj (Option.some.inj hrest)
    exact .begin hbatch htake
  · cases h

theorem item_way (h : step P i batchSize inp s (.item run (tx :: rest)) = some (s', stage')) :
    Way P i batchSize inp s (.item run (tx :: rest)) s' stage' := by
  obtain ⟨s₁, hdraw, hrest⟩ := Option.bind_eq_some_iff.mp h
  dsimp only at hrest
  rw [view_of_db (draw_db hdraw)] at hrest
  split at hrest
  · rename_i hfind
    obtain ⟨rfl, rfl⟩ := Prod.mk.inj (Option.some.inj hrest)
    exact .unnamed hdraw hfind
  · rename_i hfind
    obtain ⟨rfl, rfl⟩ := Prod.mk.inj (Option.some.inj hrest)
    exact .found hdraw hfind
  · rename_i hunresolved hfind
    obtain ⟨rfl, rfl⟩ := Prod.mk.inj (Option.some.inj hrest)
    exact .unresolved hdraw hfind fun reference heq => hunresolved reference heq

theorem lockWallet_way {ctx : EventContext} {reference : WagerTransaction}
    (h : step P i batchSize inp s (.resolved run tx ctx (.resolved reference) rest) =
      some (s', stage')) :
    Way P i batchSize inp s (.resolved run tx ctx (.resolved reference) rest) s' stage' := by
  obtain ⟨⟨s₁, out⟩, hlock, hrest⟩ := Option.bind_eq_some_iff.mp h
  rcases Submit.lockWallet_cases hlock with
    ⟨rfl, rfl, huuid⟩ | ⟨id, rfl, rfl, huuid, hmissing⟩ | ⟨r, hr, huuid, rfl, htake⟩
  · obtain ⟨rfl, rfl⟩ := Prod.mk.inj (Option.some.inj hrest)
    exact .noUuid huuid
  · obtain ⟨rfl, rfl⟩ := Prod.mk.inj (Option.some.inj hrest)
    exact .noWallet huuid hmissing
  · obtain ⟨rfl, rfl⟩ := Prod.mk.inj (Option.some.inj hrest)
    exact .locked hr huuid htake

theorem Decision.way (h : Decision P inp stage run tx rest ids outcome)
    (hstep : ((s.draw i P ids).bind fun s => some (settle i s run rest outcome)) =
      some (s', stage')) : Way P i batchSize inp s stage s' stage' := by
  obtain ⟨s₁, hdraw, hsettle⟩ := Option.bind_eq_some_iff.mp hstep
  have hsettle := Option.some.inj hsettle
  unfold settle at hsettle
  split at hsettle
  · rename_i houtcome
    obtain ⟨rfl, rfl⟩ := Prod.mk.inj hsettle
    exact .undecided h rfl hdraw
  · rename_i w
    rw [view_of_db (draw_db hdraw)] at hsettle
    split at hsettle
    · rename_i hflush
      obtain ⟨rfl, rfl⟩ := Prod.mk.inj hsettle
      exact .unflushed h rfl hdraw hflush
    · rename_i hflush
      obtain ⟨rfl, rfl⟩ := Prod.mk.inj hsettle
      exact .decided h rfl hdraw hflush

/-- What a step of a run can do. -/
theorem step_way (h : step P i batchSize inp s stage = some (s', stage')) :
    Way P i batchSize inp s stage s' stage' := by
  match stage, h with
  | .begin, h => exact begin_way h
  | .item run [], h =>
    obtain ⟨rfl, rfl⟩ := Prod.mk.inj (Option.some.inj h)
    exact .commits
  | .item run (tx :: rest), h => exact item_way h
  | .findReversal run tx ctx reference rest, h =>
    obtain ⟨rfl, rfl⟩ := Prod.mk.inj (Option.some.inj h)
    exact .resolved
  | .resolved run tx ctx (.resolved reference) rest, h => exact lockWallet_way h
  | .resolved run tx ctx (.rejected failureCode) rest, h => exact Decision.rejects.way h
  | .resolved run tx ctx .pending rest, h => exact Decision.waits.way h
  | .applyEffect run tx ctx wallet reference rest, h => exact Decision.applies.way h
  | .returned _, h => cases h
  | .threw _, h => cases h

/-- Only the commit changes the database. -/
theorem Way.db (h : Way P i batchSize inp s stage s' stage') :
    s'.db = s.db ∨ ∃ run, stage = .item run [] ∧ s' = s.commit i run.writes := by
  cases h with
  | commits => exact Or.inr ⟨_, rfl, rfl⟩
  | begin _ takes | locked _ _ takes => exact Or.inl (take_db takes)
  | unnamed draws | found draws | unresolved draws => exact Or.inl (draw_db draws :)
  | undecided _ _ draws | unflushed _ _ draws | decided _ _ draws =>
    exact Or.inl (draw_db draws :)
  | resolved | noUuid | noWallet => exact Or.inl rfl

end Reprocess

end WageringProcessor
