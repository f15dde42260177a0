import WageringProcessor.Invariants.Executing

/-!
# What a call has written

`Proc.writes` are the writes that a call has sent to its database transaction and not committed
yet.  The database changes only where a call commits them, and `Emits` are the stages at which a
write is added to them.
-/

namespace WageringProcessor

open Library.Interleaving WagerTransactionFinalizer

/-! ## The writes of a call -/

def OpenWalletStage.writes : OpenWalletStage → List Writes
  | .commit writes _ => writes
  | _ => []

def SubmitStage.writes : SubmitStage → List Writes
  | .commit writes _ => writes
  | _ => []

def ConsumeStage.writes : ConsumeStage → List Writes
  | .parse _ claimed => claimed
  | .submit _ claimed _ stage => claimed ++ stage.writes
  | .markProcessed _ writes _ | .commit writes _ _ => writes
  | _ => []

def ReprocessStage.writes : ReprocessStage → List Writes
  | .item run _ | .findReversal run _ _ _ _ | .resolved run _ _ _ _ | .applyEffect run _ _ _ _ _ =>
    run.writes
  | _ => []

def PublishStage.writes : PublishStage → List Writes
  | .publishing run _ => PublishOutbox.writes run
  | _ => []

namespace Proc

def writes : Proc → List Writes
  | openWallet _ stage => stage.writes
  | submit _ stage => stage.writes
  | consume _ stage => stage.writes
  | reprocess _ stage => stage.writes
  | publishOutbox _ stage => stage.writes
  | idle | crashed => []

/-- The next step of the call is its `COMMIT`. -/
def commits : Proc → Bool
  | openWallet _ (.commit _ _) | submit _ (.commit _ _) | consume _ (.commit _ _ _)
  | reprocess _ (.item _ []) | publishOutbox _ (.publishing _ []) => true
  | _ => false

end Proc

variable {P : Platform} {i : Pid} {s s' : Shared} {p p' : Proc} {a : Action} {inp : Input}
  {cmd : SubmitWagerTransactionCommand} {w : Writes}

/-- A write that the call adds to what it has written. -/
inductive Emits (P : Platform) (inp : Input) (p : Proc) (w : Writes) : Prop
  | claim {cmd : SubmitWagerTransactionCommand} {wallet : Wallet} {tx : WagerTransaction}
      {ctx : EventContext} {resolution : Option ReferenceResolution}
      (stage : Executes cmd (.finalize wallet tx ctx resolution) p)
      (writes : w = Submit.claimWrites P tx)
  | decision {cmd : SubmitWagerTransactionCommand} {wallet : Wallet} {tx : WagerTransaction}
      {ctx : EventContext} {resolution : Option ReferenceResolution}
      {out : WagerTransaction × Wallet × Writes}
      (stage : Executes cmd (.finalize wallet tx ctx resolution) p)
      (decided : Submit.decide P wallet tx ctx resolution inp.newId = .ok out)
      (writes : w = out.2.2)
  | retry {batchSize : Nat} {run : ReprocessRun} {tx : WagerTransaction} {ctx : EventContext}
      {resolution : ReferenceResolution} {rest : List WagerTransaction}
      {failureCode : Option FailureCode}
      (stage : p = .reprocess batchSize (.resolved run tx ctx resolution rest))
      (code : resolution = (failureCode.map .rejected).getD .pending)
      (decided : Reprocess.decide P tx ctx failureCode (inp.newId 1) = .ok w)
  | reversal {batchSize : Nat} {run : ReprocessRun} {tx reference : WagerTransaction}
      {ctx : EventContext} {wallet : Wallet} {rest : List WagerTransaction}
      {out : WagerTransaction × Wallet × Writes}
      (stage : p = .reprocess batchSize (.applyEffect run tx ctx wallet reference rest))
      (applied : applyEffect P tx wallet (some reference) ctx inp.newId = .ok out)
      (writes : w = out.2.2)
  | opens {cmd : OpenWalletCommand} {now : Date} {wallet : Wallet}
      (stage : p = .openWallet cmd (.insertWallet now wallet))
      (writes : w = OpenWallet.walletWrites P wallet)
  | opensWith {cmd : OpenWalletCommand} {now : Date} {wallet : Wallet} {tx : WagerTransaction}
      {entry : WalletLedgerEntry}
      (stage : p = .openWallet cmd (.insertEntry now wallet tx))
      (moved : OpenWallet.openingEntry cmd (inp.newId 0) wallet tx now = .ok entry)
      (writes : w = OpenWallet.walletWrites P wallet ∨
        w = OpenWallet.openingWrites P cmd wallet tx entry ⟨inp.newId 1, none, now⟩ inp.newId)
  | queues (wallets : w.wallets = []) (rows : w.wagerTransactions = [])
      (entries : w.ledgerEntries = [])

def entriesOfWrites (ws : List Writes) : List WalletLedgerEntry := ws.flatMap (·.ledgerEntries)

/-- The entries of the writes: none, the same, or with those of a write that the call adds. -/
inductive Enters (P : Platform) (inp : Input) (p : Proc) (es : List WalletLedgerEntry) :
    List WalletLedgerEntry → Prop
  | none : Enters P inp p es []
  | same : Enters P inp p es es
  | more {w : Writes} (emits : Emits P inp p w) : Enters P inp p es (es ++ w.ledgerEntries)

/-- The database is as it was, and `ws'` are writes of `ws` and such as the call adds. -/
structure Writing (P : Platform) (inp : Input) (p : Proc) (ws ws' : List Writes)
    (s s' : Shared) : Prop where
  db : s'.db = s.db
  emits : ∀ w ∈ ws', w ∈ ws ∨ Emits P inp p w
  entries : Enters P inp p (entriesOfWrites ws) (entriesOfWrites ws')

variable {ws ws' : List Writes}

@[simp] theorem entriesOfWrites_append : entriesOfWrites (ws ++ ws') =
    entriesOfWrites ws ++ entriesOfWrites ws' := List.flatMap_append

@[simp] theorem entriesOfWrites_singleton : entriesOfWrites [w] = w.ledgerEntries :=
  List.append_nil _

theorem Writing.same (hdb : s'.db = s.db) : Writing P inp p ws ws s s' :=
  ⟨hdb, fun _ hw => Or.inl hw, .same⟩

theorem Writing.none (hdb : s'.db = s.db) : Writing P inp p ws [] s s' :=
  ⟨hdb, fun _ hw => absurd hw List.not_mem_nil, .none⟩

/-- One more write. -/
theorem Writing.one (hdb : s'.db = s.db) (hemits : Emits P inp p w) :
    Writing P inp p ws (ws ++ [w]) s s' := by
  refine ⟨hdb, fun w' hw => ?_, ?_⟩
  · rcases List.mem_append.mp hw with hw | hw
    · exact Or.inl hw
    · exact Or.inr (List.mem_singleton.mp hw ▸ hemits)
  · rw [entriesOfWrites_append, entriesOfWrites_singleton]
    exact .more hemits

/-- What a nested call writes comes after what was written before it. -/
theorem Writing.nested (h : Writing P inp p [] ws' s s') :
    Writing P inp p (ws ++ []) (ws ++ ws') s s' := by
  refine ⟨h.db, fun w hw => ?_, ?_⟩
  · rcases List.mem_append.mp hw with hw | hw
    · exact Or.inl (List.mem_append_left _ hw)
    · exact Or.inr ((h.emits w hw).resolve_left List.not_mem_nil)
  · have hentries := h.entries
    rw [List.append_nil, entriesOfWrites_append]
    generalize entriesOfWrites ws' = es' at hentries
    cases hentries with
    | none | same => exact (List.append_nil (entriesOfWrites ws)).symm ▸ .same
    | more hemits => exact .more hemits

/-- A write that replaces the ones before, where there are no entries. -/
theorem Writing.queued (hdb : s'.db = s.db) (hwallets : w.wallets = [])
    (hrows : w.wagerTransactions = []) (hentries : w.ledgerEntries = []) :
    Writing P inp p ws [w] s s' := by
  refine ⟨hdb, fun w' hw => Or.inr ?_, ?_⟩
  · rw [List.mem_singleton.mp hw]
    exact .queues hwallets hrows hentries
  · rw [entriesOfWrites_singleton, hentries]
    exact .none

/-! ## What a step writes -/

theorem OpenWallet.step_writes {cmd : OpenWalletCommand} {stage stage' : OpenWalletStage}
    (h : OpenWallet.step P cmd i inp s stage = some (s', stage')) :
    (∃ ws wallet, stage = .commit ws wallet ∧ s' = s.commit i ws ∧ stage'.writes = []) ∨
      Writing P inp (.openWallet cmd stage) stage.writes stage'.writes s s' := by
  cases OpenWallet.step_way h with
  | commits => exact Or.inl ⟨_, _, rfl, rfl, rfl⟩
  | refused => exact Or.inr (.none rfl)
  | begin draws | unentered draws | unflushed draws => exact Or.inr (.none (draw_db draws :))
  | playerTaken takes | keyTaken takes | keyClaimed takes | externalTaken takes
  | externalClaimed takes => exact Or.inr (.none (take_db takes :))
  | opening _ takes _ _ draws => exact Or.inr (.none ((draw_db draws).trans (take_db takes)))
  | empty _ takes => exact Or.inr (Writing.one (take_db takes) (.opens rfl rfl))
  | entered draws enters =>
    refine Or.inr ⟨draw_db draws, fun w hw => Or.inr (.opensWith rfl enters ?_), ?_⟩
    · rcases List.mem_cons.mp hw with hw | hw
      · exact Or.inl hw
      · exact Or.inr (List.mem_singleton.mp hw)
    · exact .more (.opensWith rfl enters (Or.inr rfl))

theorem Submit.step_writes {stage stage' : SubmitStage} (hp : Executes cmd stage p)
    (h : Submit.step P cmd i inp s stage = some (s', stage')) :
    Writing P inp p [] stage'.writes s s' := by
  have hdb := (Submit.step_way h).db
  cases Submit.step_way h with
  | decided _ decides =>
    refine ⟨hdb, fun w hw => Or.inr ?_, ?_⟩
    · rcases List.mem_cons.mp hw with hw | hw
      · exact .claim hp hw
      · exact .decision hp decides (List.mem_singleton.mp hw)
    · -- the claim has no entries
      show Enters P inp p [] ([] ++ (_ ++ []))
      rw [List.append_nil]
      exact .more (.decision hp decides rfl)
  | _ => exact .none hdb

theorem Consume.step_writes {messageId : String} {stage stage' : ConsumeStage}
    (h : Consume.step P messageId i inp s stage = some (s', stage')) :
    (∃ ws outcome nested, stage = .commit ws outcome nested ∧ s' = s.commit i ws ∧
        stage'.writes = []) ∨
      Writing P inp (.consume messageId stage) stage.writes stage'.writes s s' := by
  cases Consume.step_way h with
  | commits => exact Or.inl ⟨_, _, _, rfl, rfl, rfl⟩
  | begin | missing | duplicate | unprocessed | unparsed | threw | unfound | unmarked | deletes =>
    exact Or.inr (.none rfl)
  | taken takes => exact Or.inr (.none (take_db takes :))
  | claimed takes => exact Or.inr (.queued (take_db takes) rfl rfl rfl)
  | @parsed _ claimed =>
    right
    show Writing P inp _ claimed (claimed ++ []) s s
    rw [List.append_nil]
    exact .same rfl
  | @executes now claimed _ stage _ _ executes =>
    right
    have hwriting := Submit.step_writes (.nested messageId now claimed) executes
    have hnone : stage.writes = [] := by
      cases stage with
      | commit => cases executes
      | _ => rfl
    show Writing P inp _ (claimed ++ stage.writes) _ s s'
    rw [hnone]
    exact hwriting.nested
  | submitted => exact Or.inr (.same rfl)
  | @replayed _ claimed =>
    right
    show Writing P inp _ (claimed ++ []) claimed s s
    rw [List.append_nil]
    exact .same rfl
  | marked => exact Or.inr (.one rfl (.queues rfl rfl rfl))

theorem Reprocess.Decision.emits {batchSize : Nat} {stage : ReprocessStage} {run : ReprocessRun}
    {tx : WagerTransaction} {rest : List WagerTransaction} {ids : List Id}
    {outcome : Except DomainError Writes}
    (decision : Reprocess.Decision P inp stage run tx rest ids outcome) (hw : outcome = .ok w) :
    stage.writes = run.writes ∧ Emits P inp (.reprocess batchSize stage) w := by
  cases decision with
  | rejects | waits => exact ⟨rfl, .retry rfl rfl hw⟩
  | applies =>
    obtain ⟨out, hout, rfl⟩ := ok_of_map hw
    exact ⟨rfl, .reversal rfl hout rfl⟩

theorem Reprocess.step_writes {batchSize : Nat} {stage stage' : ReprocessStage}
    (h : Reprocess.step P i batchSize inp s stage = some (s', stage')) :
    (∃ run, stage = .item run [] ∧ s' = s.commit i run.writes ∧ stage'.writes = []) ∨
      Writing P inp (.reprocess batchSize stage) stage.writes stage'.writes s s' := by
  cases Reprocess.step_way h with
  | commits => exact Or.inl ⟨_, rfl, rfl, rfl⟩
  | begin _ takes => exact Or.inr (.none (take_db takes))
  | unnamed draws | undecided _ _ draws | unflushed _ _ draws =>
    exact Or.inr (.none (draw_db draws :))
  | found draws | unresolved draws => exact Or.inr (.same (draw_db draws))
  | resolved => exact Or.inr (.same rfl)
  | noUuid | noWallet => exact Or.inr (.none rfl)
  | locked _ _ takes => exact Or.inr (.same (take_db takes))
  | decided decision writes draws =>
    right
    obtain ⟨hwrites, hemits⟩ := decision.emits writes
    rw [hwrites]
    exact .one (draw_db draws) hemits

theorem PublishOutbox.step_writes {batchSize : Nat} {stage stage' : PublishStage}
    (h : PublishOutbox.step i batchSize inp s stage = some (s', stage')) :
    (∃ run, stage = .publishing run [] ∧ s' = s.commit i (PublishOutbox.writes run) ∧
        stage'.writes = []) ∨
      Writing P inp (.publishOutbox batchSize stage) stage.writes stage'.writes s s' := by
  match stage, h with
  | .begin, h =>
    right
    dsimp only [PublishOutbox.step] at h
    split at h
    · obtain ⟨s₁, htake, hrest⟩ := Option.bind_eq_some_iff.mp h
      have hdb := take_db htake
      obtain ⟨rfl, rfl⟩ := Prod.mk.inj (Option.some.inj hrest)
      exact .queued hdb rfl rfl rfl
    · cases h
  | .publishing run [], h =>
    obtain ⟨rfl, rfl⟩ := Prod.mk.inj (Option.some.inj h)
    exact Or.inl ⟨run, rfl, rfl, rfl⟩
  | .publishing run (m :: rest), h =>
    right
    have hdb : (PublishOutbox.send i s m inp.delivered).db = s.db :=
      PublishOutbox.send_db inp.delivered
    dsimp only [PublishOutbox.step] at h
    split at h
    · obtain ⟨rfl, rfl⟩ := Prod.mk.inj (Option.some.inj h)
      exact .none hdb
    · split at h
      · obtain ⟨rfl, rfl⟩ := Prod.mk.inj (Option.some.inj h)
        exact .none hdb
      · obtain ⟨rfl, rfl⟩ := Prod.mk.inj (Option.some.inj h)
        exact .queued hdb rfl rfl rfl
  | .returned _, h => cases h
  | .threw _, h => cases h

/-- A step commits what the call has written, or leaves the database as it is. -/
theorem step_writes (h : step P i a s p = some (s', p')) :
    (p.commits = true ∧ (∃ inp, a = .step inp) ∧ s' = s.commit i p.writes ∧ p'.writes = []) ∨
      (s'.db = s.db ∧ (p'.writes = [] ∨
        ∃ inp, a = .step inp ∧ Writing P inp p p.writes p'.writes s s')) := by
  have hwriting : ∀ {inp : Input} {ws : List Writes}, a = .step inp →
      Writing P inp p p.writes ws s s' → s'.db = s.db ∧
        (ws = [] ∨ ∃ inp, a = .step inp ∧ Writing P inp p p.writes ws s s') :=
    fun ha hwriting => ⟨hwriting.db, Or.inr ⟨_, ha, hwriting⟩⟩
  have hnone : p'.writes = [] → s'.db = s.db → s'.db = s.db ∧ (p'.writes = [] ∨
      ∃ inp, a = .step inp ∧ Writing P inp p p.writes p'.writes s s') :=
    fun hnil hdb => ⟨hdb, Or.inl hnil⟩
  cases step_way h with
  | @start call => exact Or.inr (hnone (by cases call <;> rfl) rfl)
  | fail running =>
    refine Or.inr (hnone ?_ rfl)
    cases p with
    | consume messageId stage => cases stage <;> rfl
    | idle | crashed => cases running
    | _ => rfl
  | crash => exact Or.inr (hnone rfl rfl)
  | openWallet steps =>
    rcases OpenWallet.step_writes steps with ⟨ws, wallet, rfl, rfl, hnil⟩ | hwrites
    · exact Or.inl ⟨rfl, ⟨_, rfl⟩, rfl, hnil⟩
    · exact Or.inr (hwriting rfl hwrites)
  | @submit _ _ stage _ _ steps =>
    cases stage with
    | commit => cases steps
    | _ => exact Or.inr (hwriting rfl (Submit.step_writes .direct steps))
  | submitted => exact Or.inl ⟨rfl, ⟨_, rfl⟩, rfl, rfl⟩
  | consume steps =>
    rcases Consume.step_writes steps with ⟨ws, outcome, nested, rfl, rfl, hnil⟩ | hwrites
    · exact Or.inl ⟨rfl, ⟨_, rfl⟩, rfl, hnil⟩
    · exact Or.inr (hwriting rfl hwrites)
  | reprocess steps =>
    rcases Reprocess.step_writes steps with ⟨run, rfl, rfl, hnil⟩ | hwrites
    · exact Or.inl ⟨rfl, ⟨_, rfl⟩, rfl, hnil⟩
    · exact Or.inr (hwriting rfl hwrites)
  | publishOutbox steps =>
    rcases PublishOutbox.step_writes steps with ⟨run, rfl, rfl, hnil⟩ | hwrites
    · exact Or.inl ⟨rfl, ⟨_, rfl⟩, rfl, hnil⟩
    · exact Or.inr (hwriting rfl hwrites)

/-! ## The rows of a commit -/

theorem Database.mem_transactions_applyAll {d : Database} {t : WagerTransaction}
    (h : t ∈ (d.applyAll ws).wagerTransactions) :
    t ∈ d.wagerTransactions ∨ ∃ w ∈ ws, t ∈ w.wagerTransactions := by
  induction ws generalizing d with
  | nil => exact Or.inl h
  | cons w ws ih =>
    rcases ih h with ht | ⟨w', hw', ht⟩
    · rcases Library.Table.mem_or_mem_of_upsertAll ht with ht | ht
      · exact Or.inr ⟨w, List.mem_cons_self, ht⟩
      · exact Or.inl ht
    · exact Or.inr ⟨w', List.mem_cons_of_mem _ hw', ht⟩

/-! ## Runs -/

/-- Run rule for a property `D` of the database that commits keep as long as every write has `Q`
when it is added, and which `Q` has for good. -/
theorem reach_written {ok : Config Shared Proc → Pid → Action → Prop} {c : Config Shared Proc}
    {D : Database → Prop} {Q : Database → Writes → Prop} (hinit : D .empty)
    (hstable : ∀ d d' w, Frame (fun _ => False) d d' → Q d w → Q d' w)
    (hcommit : ∀ d ws, Frame (fun _ => False) d (d.applyAll ws) → D d → (∀ w ∈ ws, Q d w) →
      D (d.applyAll ws))
    (hemits : ∀ c i inp w, Reach (step P) ok initial c → ok c i (.step inp) →
      D c.shared.db → (∀ w ∈ (c.procs i).writes, Q c.shared.db w) →
        Emits P inp (c.procs i) w → Q c.shared.db w)
    (h : Reach (step P) ok initial c) :
    D c.shared.db ∧ ∀ i, ∀ w ∈ (c.procs i).writes, Q c.shared.db w := by
  refine h.invariant
    (P := fun c => D c.shared.db ∧ ∀ i, ∀ w ∈ (c.procs i).writes, Q c.shared.db w)
    ⟨hinit, fun _ _ hw => absurd hw List.not_mem_nil⟩ ?_
  rintro c i a c' run ⟨hD, hQ⟩ hok hmoved
  have hreach := run.reachable
  have hframe := (reachable_effect hreach hmoved).history (reachable_consistent hreach)
  rcases step_writes (next_self hmoved) with ⟨-, -, hshared, hnil⟩ | ⟨hdb, hwrites⟩
  · have hD' : D c'.shared.db := by
      rw [hshared] at hframe ⊢
      exact hcommit _ _ hframe hD (hQ i)
    refine ⟨hD', fun j w hw => ?_⟩
    by_cases hij : j = i
    · rw [hij, hnil] at hw
      exact absurd hw List.not_mem_nil
    · rw [next_other hmoved hij] at hw
      exact hstable _ _ w hframe (hQ j w hw)
  · rw [hdb]
    refine ⟨hD, fun j w hw => ?_⟩
    by_cases hij : j = i
    · subst hij
      rcases hwrites with hnil | ⟨inp, rfl, hwriting⟩
      · rw [hnil] at hw
        exact absurd hw List.not_mem_nil
      · rcases hwriting.emits w hw with hw | hemit
        · exact hQ j w hw
        · exact hemits c j inp w run hok hD (hQ j) hemit
    · rw [next_other hmoved hij] at hw
      exact hQ j w hw

end WageringProcessor
