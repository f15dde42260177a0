import WageringProcessor.Invariants.Commits
import WageringProcessor.Invariants.Effect
import WageringProcessor.UseCases.GetWalletLedger

/-!
# How the entries of a wallet are dated

An entry has the reading of the clock that its call took before it had the lock of the wallet, and
an id that the call draws under the lock.  While the lock is held no other call adds an entry to the
wallet, so what holds of the reading where the lock is taken, and of the id where it is drawn, still
holds at the commit.
-/

namespace WageringProcessor

open Library.Interleaving Library.Table WagerTransactionFinalizer

variable {P : Platform} {i j : Pid} {s s' : Shared} {p p' : Proc} {c c' : Config Shared Proc}
  {own own' : Resource → Prop} {d d' : Database} {ws : List Writes} {w : Writes} {inp : Input}
  {a : Action} {walletId : Id} {now : Date}

/-! ## The condition -/

/-- No entry of the wallet has a date after `now`. -/
def Database.datedBy (d : Database) (walletId : Id) (now : Date) : Bool :=
  (d.entriesOfWallet walletId).all fun e => e.createdAt ≤ now

/-- The entries of the wallet with the date `now` have ids before `id`. -/
def Database.idAfter (d : Database) (walletId : Id) (now : Date) (id : Id) : Bool :=
  (d.entriesOfWallet walletId).all fun e => e.createdAt ≠ now || e.id < id

/-- Where `execute` takes the lock of its wallet, what its reading of the clock has to be for the
entries of the wallet; where it draws the id of its own entry, what the id has to be. -/
def Submit.timely (P : Platform) (d : Database) (cmd : SubmitWagerTransactionCommand)
    (inp : Input) : SubmitStage → Bool
  | .lockWallet now => cmd.kind = .loss || d.datedBy (P.canonical cmd.walletId) now
  | .finalize wallet tx _ none | .finalize wallet tx _ (some (.resolved _)) =>
    cmd.kind = .loss || d.idAfter wallet.id tx.createdAt (inp.newId 0)
  | _ => true

/-- The same in a reprocess run, whose own entries have the one reading of the run. -/
def Reprocess.timely (P : Platform) (d : Database) (inp : Input) : ReprocessStage → Bool
  | .resolved run tx _ (.resolved _) _ => d.datedBy (P.canonical tx.walletId) run.now
  | .applyEffect run _ _ wallet _ _ =>
    (d.applyAll run.writes).idAfter wallet.id run.now (inp.newId 0)
  | _ => true

def timely (P : Platform) (s : Shared) : Proc → Action → Bool
  | .submit cmd stage, .step inp | .consume _ (.submit _ _ cmd stage), .step inp =>
    Submit.timely P s.db cmd inp stage
  | .reprocess _ stage, .step inp => Reprocess.timely P s.db inp stage
  | _, _ => true

/-- The condition on the steps of a run. -/
abbrev Timely (P : Platform) (c : Config Shared Proc) (i : Pid) (a : Action) : Prop :=
  timely P c.shared (c.procs i) a = true

/-! ## The order of the entries -/

/-- Where both are of one wallet, the first is before the second in the order of the statement. -/
abbrev WalletLedgerEntry.Before (e e' : WalletLedgerEntry) : Prop :=
  e.walletId = e'.walletId → e.sortKey < e'.sortKey

/-- The entries that the writes add are dated, with their ids, after all that their wallets have and
one after another. -/
structure DatedLater (d : Database) (ws : List Writes) : Prop where
  committed : ∀ e ∈ d.ledgerEntries, ∀ e' ∈ entriesOfWrites ws, e.Before e'
  added : (entriesOfWrites ws).Pairwise WalletLedgerEntry.Before

theorem DatedLater.none (h : entriesOfWrites ws = []) : DatedLater d ws := by
  constructor
  · intro e _ e' he'
    rw [h] at he'
    exact absurd he' List.not_mem_nil
  · rw [h]
    exact .nil

theorem applyAll_ledgerEntries :
    (d.applyAll ws).ledgerEntries = d.ledgerEntries ++ entriesOfWrites ws := by
  induction ws generalizing d with
  | nil => simp [Database.applyAll, entriesOfWrites]
  | cons w ws ih =>
    have happly : (d.applyAll (w :: ws)).ledgerEntries =
        (d.apply w).ledgerEntries ++ entriesOfWrites ws := ih
    rw [happly]
    simp [Database.apply, entriesOfWrites]

/-- A commit keeps the order exactly when its entries are dated later. -/
theorem applyAll_before_iff (hd : d.ledgerEntries.Pairwise WalletLedgerEntry.Before) :
    (d.applyAll ws).ledgerEntries.Pairwise WalletLedgerEntry.Before ↔ DatedLater d ws := by
  rw [applyAll_ledgerEntries, List.pairwise_append]
  constructor
  · rintro ⟨-, hadded, hcommitted⟩
    exact ⟨hcommitted, hadded⟩
  · intro hlater
    exact ⟨hd, hlater.added, hlater.committed⟩

/-- An entry with the reading `now` and the id `id` is after those that its wallet has. -/
theorem before_of_timely {e e' : WalletLedgerEntry}
    (hnow : d.datedBy e'.walletId e'.createdAt = true)
    (hid : d.idAfter e'.walletId e'.createdAt e'.id = true) (he : e ∈ d.ledgerEntries) :
    e.Before e' := by
  intro hwallet
  have hmem : e ∈ d.entriesOfWallet e'.walletId := List.mem_filter.mpr ⟨he, decide_eq_true hwallet⟩
  have hle := of_decide_eq_true (List.all_eq_true.mp hnow e hmem)
  have hafter := List.all_eq_true.mp hid e hmem
  simp only [Bool.or_eq_true, decide_eq_true_eq] at hafter
  refine Prod.Lex.toLex_lt_toLex.mpr ?_
  rcases hafter with hne | hlt
  · exact Or.inl (lt_of_le_of_ne hle hne)
  · exact (lt_or_eq_of_le hle).imp_right fun heq => ⟨heq, hlt⟩

/-! ## The lock of the wallet -/

/-- The wallet is locked, or it is one that only this call can insert. -/
def Reserves (own : Resource → Prop) (d : Database) (walletId : Id) : Prop :=
  (own (.wallet walletId) ∧ ∃ r ∈ d.wallets, r.id = walletId) ∨
    (own (.uuid walletId) ∧ ∀ r ∈ d.wallets, r.id ≠ walletId)

/-- No other call adds an entry to it. -/
theorem Reserves.entry (h : Reserves own d walletId) (hc' : Consistent P d') (f : Frame own d d')
    {e : WalletLedgerEntry} (he : e ∈ d'.ledgerEntries) (hid : e.walletId = walletId) :
    e ∈ d.ledgerEntries := by
  rcases h with ⟨howns, r, hr, hrow⟩ | ⟨howns, hnew⟩
  · exact f.entry r hr (hrow ▸ howns) e he (hid.trans hrow.symm)
  · -- an entry has a wallet
    obtain ⟨r', hr', hid'⟩ := hc'.entry_wallet he
    have hrow' : r'.id = walletId := hid'.trans hid
    obtain ⟨r, hr, hrow⟩ := f.walletId r' hr' (hrow' ▸ howns)
    exact absurd (hrow.trans hrow') (hnew r hr)

theorem DatedLater.stable (h : DatedLater d ws)
    (hreserves : ∀ e ∈ entriesOfWrites ws, Reserves own d e.walletId) (hc' : Consistent P d')
    (f : Frame own d d') : DatedLater d' ws := by
  refine ⟨fun e he e' he' hwallet => ?_, h.added⟩
  exact h.committed e ((hreserves e' he').entry hc' f he hwallet) e' he' hwallet

theorem Database.datedBy.stable (h : d.datedBy walletId now = true)
    (hreserves : Reserves own d walletId) (hc' : Consistent P d') (f : Frame own d d') :
    d'.datedBy walletId now = true := by
  refine List.all_eq_true.mpr fun e he => ?_
  obtain ⟨hmem, hid⟩ := List.mem_filter.mp he
  have hbefore := hreserves.entry hc' f hmem (of_decide_eq_true hid)
  exact List.all_eq_true.mp h e (List.mem_filter.mpr ⟨hbefore, hid⟩)

/-! ### The wallets of what a call has written -/

theorem Settled.reserves (h : Settled P own d w) {e : WalletLedgerEntry}
    (he : e ∈ w.ledgerEntries) : Reserves own d e.walletId := by
  obtain ⟨-, o⟩ := h
  refine Or.inl ⟨o.ownsEntry he, ?_⟩
  rcases o.effect with ⟨-, hnil⟩ | ⟨w₀, w₁, e₁, -, hone, hw₀, hm, -, -⟩
  · rw [hnil] at he
    exact absurd he List.not_mem_nil
  · rw [hone] at he
    exact ⟨w₀, hw₀, by rw [List.mem_singleton.mp he, hm.walletId]⟩

theorem SettledSeq.wallet_before (h : SettledSeq P own d ws) {r : WalletRow}
    (hr : r ∈ (d.applyAll ws).wallets) : ∃ r₀ ∈ d.wallets, r₀.id = r.id := by
  induction h with
  | nil d => exact ⟨r, hr, rfl⟩
  | cons head _ ih =>
    obtain ⟨r₁, hr₁, hid₁⟩ := ih hr
    obtain ⟨r₀, hr₀, hid₀⟩ := head.wallet_before hr₁
    exact ⟨r₀, hr₀, hid₀.trans hid₁⟩

theorem SettledSeq.reserves (h : SettledSeq P own d ws) :
    ∀ e ∈ entriesOfWrites ws, Reserves own d e.walletId := by
  induction h with
  | nil => exact fun _ he => absurd he List.not_mem_nil
  | cons head _ ih =>
    intro e he
    rcases List.mem_append.mp he with he | he
    · exact head.reserves he
    · rcases ih e he with ⟨howns, r, hr, hid⟩ | ⟨howns, hnew⟩
      · obtain ⟨r₀, hr₀, hid₀⟩ := head.wallet_before hr
        exact Or.inl ⟨howns, r₀, hr₀, hid₀.trans hid⟩
      · -- a settlement keeps the wallets that there are
        refine Or.inr ⟨howns, fun r hr hid => ?_⟩
        obtain ⟨r', hr', hid'⟩ := head.wallet_after hr
        exact hnew r' hr' (hid'.trans hid)

theorem Submit.Prepared.reserves {cmd : SubmitWagerTransactionCommand}
    {result : SubmitWagerTransactionResult} (h : Submit.Prepared P own d cmd ws result) :
    ∀ e ∈ entriesOfWrites ws, Reserves own d e.walletId := by
  obtain ⟨claimed, key, hash, settled⟩ := h
  intro e he
  have hmem : e ∈ [] ++ (_ ++ []) := he
  rw [List.nil_append, List.append_nil] at hmem
  exact settled.settled.reserves hmem

theorem Consume.Nested.reserves {cmd : SubmitWagerTransactionCommand}
    {result : SubmitWagerTransactionResult} (h : Consume.Nested P own d cmd ws result) :
    ∀ e ∈ entriesOfWrites ws, Reserves own d e.walletId := by
  cases h with
  | prepared h => exact h.reserves
  | replayed h => exact fun _ he => absurd he List.not_mem_nil

theorem Consume.InboxClaimed.noEntries {messageId : String} {claimed : List Writes}
    (h : Consume.InboxClaimed P own d messageId now claimed) : entriesOfWrites claimed = [] := by
  rw [h.writes]
  rfl

theorem OpenWallet.Prepared.reserves {wallet : Wallet} (h : OpenWallet.Prepared P own d ws wallet) :
    ∀ e ∈ entriesOfWrites ws, Reserves own d e.walletId := by
  cases h with
  | empty => exact fun _ he => absurd he List.not_mem_nil
  | @opening _ t e₀ data w noWallets opens =>
    intro e he
    have hmem : e ∈ [] ++ (w.ledgerEntries ++ []) := he
    have hentries : w.ledgerEntries = [e₀] := opens.entries
    rw [List.nil_append, List.append_nil, hentries] at hmem
    rw [List.mem_singleton.mp hmem, opens.walletId]
    exact Or.inr ⟨opens.wallet.ownsId, opens.wallet.newId⟩

/-- Every entry that a call has written is of a wallet that it reserves. -/
theorem ProcOk.reserves (h : ProcOk P i s p) :
    ∀ e ∈ entriesOfWrites p.writes, Reserves (owns s i) s.db e.walletId := by
  have hnone : entriesOfWrites p.writes = [] →
      ∀ e ∈ entriesOfWrites p.writes, Reserves (owns s i) s.db e.walletId := by
    intro hnil e he
    rw [hnil] at he
    exact absurd he List.not_mem_nil
  cases p with
  | idle | crashed => exact hnone rfl
  | publishOutbox batchSize stage => cases stage <;> exact hnone rfl
  | openWallet cmd stage =>
    cases stage with
    | commit ws wallet => exact OpenWallet.Prepared.reserves h
    | _ => exact hnone rfl
  | submit cmd stage =>
    cases stage with
    | commit ws result => exact Submit.Prepared.reserves h
    | _ => exact hnone rfl
  | reprocess batchSize stage =>
    cases stage with
    | item run todo => exact SettledSeq.reserves h.settled
    | findReversal | resolved | applyEffect => exact SettledSeq.reserves h.1.settled
    | begin | returned | threw => exact hnone rfl
  | consume messageId stage =>
    cases stage with
    | parse now claimed => exact hnone (Consume.InboxClaimed.noEntries h)
    | submit now claimed cmd stage =>
      obtain ⟨hinbox, -, hsubmit⟩ := h
      intro e he
      rw [show (Proc.consume messageId (.submit now claimed cmd stage)).writes =
        claimed ++ stage.writes from rfl, entriesOfWrites_append, hinbox.noEntries] at he
      cases stage with
      | commit ws result => exact Submit.Prepared.reserves hsubmit e he
      | _ => exact absurd he List.not_mem_nil
    | markProcessed now writes nested =>
      obtain ⟨claimed, submitted, rfl, hinbox, -, hnested⟩ := h
      intro e he
      rw [show (Proc.consume messageId (.markProcessed now (claimed ++ submitted) nested)).writes =
        claimed ++ submitted from rfl, entriesOfWrites_append, hinbox.noEntries] at he
      exact hnested.reserves e he
    | commit writes outcome nested =>
      cases h with
      | duplicate => exact hnone rfl
      | processed inbox commands submitted =>
        intro e he
        rw [show entriesOfWrites (Proc.consume messageId (.commit _ _ _)).writes =
          entriesOfWrites (_ ++ _ ++ _) from rfl, entriesOfWrites_append, entriesOfWrites_append,
          inbox.noEntries, entriesOfWrites_singleton, List.append_nil] at he
        exact submitted.reserves e he
    | _ => exact hnone rfl

/-! ## The reading of the clock -/

/-- While a submit may still move its wallet, the wallet has no entry after its reading. -/
def SubmitStage.Clocked (d : Database) : SubmitStage → Prop
  | .claimKey wallet tx | .claimExternal wallet tx | .findReference wallet tx _
  | .findReversal wallet tx _ _ | .finalize wallet tx _ _ =>
    tx.kind ≠ .loss → d.datedBy wallet.id tx.createdAt = true
  | _ => True

/-- All entries of a run have its one reading. -/
def ReprocessRun.OneDate (run : ReprocessRun) : Prop :=
  ∀ e ∈ entriesOfWrites run.writes, e.createdAt = run.now

def ReprocessStage.Clocked (d : Database) : ReprocessStage → Prop
  | .item run _ => run.OneDate
  | .findReversal run _ ctx _ _ | .resolved run _ ctx _ _ => run.OneDate ∧ ctx.now = run.now
  | .applyEffect run _ ctx wallet _ _ =>
    run.OneDate ∧ ctx.now = run.now ∧ d.datedBy wallet.id run.now = true
  | _ => True

def Proc.Clocked (d : Database) : Proc → Prop
  | .submit _ stage | .consume _ (.submit _ _ _ stage) => stage.Clocked d
  | .reprocess _ stage => stage.Clocked d
  | _ => True

section

variable {cmd : SubmitWagerTransactionCommand} {wallet : Wallet} {tx : WagerTransaction}

theorem Submit.Drafted.reserves (h : Submit.Drafted P own d cmd wallet tx) :
    Reserves own d wallet.id := by
  obtain ⟨r, hheld⟩ := h.held
  have hid : wallet.id = r.id := congrArg Wallet.id hheld.read
  exact Or.inl ⟨hid ▸ hheld.owns, r, hheld.row, hid.symm⟩

theorem SubmitStage.Clocked.stable {stage : SubmitStage} (h : stage.Clocked d)
    (hok : Submit.Ok P own d cmd stage) (hc' : Consistent P d') (f : Frame own d d') :
    stage.Clocked d' := by
  have hkeeps : ∀ {wallet : Wallet} {tx : WagerTransaction}, Submit.Drafted P own d cmd wallet tx →
      (tx.kind ≠ .loss → d.datedBy wallet.id tx.createdAt = true) →
        tx.kind ≠ .loss → d'.datedBy wallet.id tx.createdAt = true :=
    fun hdrafted hdated hloss => Database.datedBy.stable (hdated hloss) hdrafted.reserves hc' f
  cases stage with
  | claimKey => exact hkeeps hok h
  | claimExternal => exact hkeeps hok.1 h
  | findReference | findReversal | finalize => exact hkeeps hok.1.toDrafted h
  | _ => trivial

theorem ReprocessStage.Clocked.stable {stage : ReprocessStage} (h : stage.Clocked d)
    (hok : Reprocess.Ok P own d stage) (hc' : Consistent P d') (f : Frame own d d') :
    stage.Clocked d' := by
  cases stage with
  | applyEffect run tx ctx wallet reference rest =>
    obtain ⟨hdate, htime, hdated⟩ := h
    obtain ⟨hrun, -, r, hheld⟩ := hok
    have hid : wallet.id = r.id := congrArg Wallet.id hheld.read
    obtain ⟨r₀, hr₀, hid₀⟩ := hrun.settled.wallet_before hheld.row
    refine ⟨hdate, htime, Database.datedBy.stable hdated (Or.inl ⟨?_, r₀, hr₀, ?_⟩) hc' f⟩
    · exact hid ▸ hheld.owns
    · exact hid₀.trans hid.symm
  | _ => exact h

theorem Proc.Clocked.stable (h : p.Clocked s.db) (hok : ProcOk P i s p) (hc' : Consistent P s'.db)
    (f : Frame (owns s i) s.db s'.db) : p.Clocked s'.db := by
  cases p with
  | submit cmd stage => exact SubmitStage.Clocked.stable h hok hc' f
  | consume messageId stage =>
    cases stage with
    | submit now claimed cmd stage => exact SubmitStage.Clocked.stable h hok.2.2 hc' f
    | _ => trivial
  | reprocess batchSize stage => exact ReprocessStage.Clocked.stable h hok hc' f
  | _ => trivial

/-! ### Its steps -/

theorem Submit.step_clocked {stage stage' : SubmitStage} (h : stage.Clocked s.db)
    (htimely : Submit.timely P s.db cmd inp stage = true)
    (hstep : Submit.step P cmd i inp s stage = some (s', stage')) : stage'.Clocked s.db := by
  cases Submit.step_way hstep with
  | drafted locks _ _ create =>
    -- the reading was taken before the lock
    obtain ⟨rfl, -, -⟩ := Submit.create_ok create
    intro hloss
    unfold Submit.timely at htimely
    rw [Platform.canonical_of_uuid locks.uuid] at htimely
    exact (Bool.or_eq_true_iff.mp htimely).resolve_left fun hkind => hloss (of_decide_eq_true hkind)
  | keyClaimed | referring | unreferring | found | unresolved | resolved => exact h
  | _ => trivial

/-- The entry of a movement has the id and the reading that `applyEffect` is given. -/
theorem applyEffect_entry {reference : Option WagerTransaction} {ctx : EventContext}
    {newId : Nat → Id} {out : WagerTransaction × Wallet × Writes} {r : WalletRow}
    (hc : Consistent P d) (hopen : tx.isTerminal = false) (hheld : HeldWallet P own d tx wallet r)
    (hout : applyEffect P tx wallet reference ctx newId = .ok out) :
    out.2.2.ledgerEntries = [] ∨ ∃ e, out.2.2.ledgerEntries = [e] ∧ tx.kind ≠ .loss ∧
      e.id = newId 0 ∧ e.walletId = wallet.id ∧ e.createdAt = ctx.now := by
  cases applyEffect_cases hopen hout with
  | lost => exact Or.inl rfl
  | rejected _ _ _ _ hreject =>
    rw [reject_eq hopen] at hreject
    obtain rfl := Except.ok.inj hreject
    exact Or.inl rfl
  | moved kind _ hmove =>
    have haccount := hc.accounts r hheld.row
    rw [hheld.read] at hmove
    have hspec := move_ok haccount.player haccount.nonneg hmove
    refine Or.inr ⟨_, rfl, kind, hspec.entryId, ?_, hspec.createdAt⟩
    rw [hspec.moved.walletId, hheld.read]
    rfl

/-- A decision without a movement has no entry. -/
theorem Reprocess.decide_noEntry {ctx : EventContext} {code : Option FailureCode} {id : Id}
    (hopen : tx.isTerminal = false) (hdecide : Reprocess.decide P tx ctx code id = .ok w)
    {e : WalletLedgerEntry} : e ∉ w.ledgerEntries := by
  rw [(Reprocess.decide_row hopen hdecide).2.2]
  exact List.not_mem_nil

/-- The entries of a decision have the reading of the run. -/
theorem Reprocess.Decision.dated {stage : ReprocessStage} {run : ReprocessRun}
    {tx : WagerTransaction} {rest : List WagerTransaction} {ids : List Id}
    {outcome : Except DomainError Writes}
    (decision : Reprocess.Decision P inp stage run tx rest ids outcome) (hc : Consistent P d)
    (hok : Reprocess.Ok P own d stage) (h : stage.Clocked d) (hw : outcome = .ok w) :
    run.OneDate ∧ ∀ e ∈ w.ledgerEntries, e.createdAt = run.now := by
  have hopen := not_terminal_of_pendingReference (decision.runOk hok).head.status
  cases decision with
  | rejects | waits => exact ⟨h.1, fun e he => absurd he (Reprocess.decide_noEntry hopen hw)⟩
  | applies =>
    obtain ⟨hrun, -, r, hheld⟩ := hok
    refine ⟨h.1, fun e he => ?_⟩
    obtain ⟨out, hout, rfl⟩ := ok_of_map hw
    rcases applyEffect_entry (hrun.consistent hc) hopen hheld hout with
      hnil | ⟨e₁, hone, -, -, -, hdate⟩
    · rw [hnil] at he
      exact absurd he List.not_mem_nil
    · rw [hone] at he
      rw [List.mem_singleton.mp he, hdate, h.2.1]

theorem Reprocess.step_clocked {batchSize : Nat} {stage stage' : ReprocessStage}
    (hc : Consistent P s.db) (hok : Reprocess.Ok P (owns s i) s.db stage)
    (h : stage.Clocked s.db) (htimely : Reprocess.timely P s.db inp stage = true)
    (hstep : Reprocess.step P i batchSize inp s stage = some (s', stage')) :
    stage'.Clocked s.db := by
  cases Reprocess.step_way hstep with
  | begin => exact fun _ he => absurd he List.not_mem_nil
  | found | unresolved => exact ⟨h, rfl⟩
  | resolved => exact h
  | @locked run tx _ _ _ _ _ _ uuid =>
    have hdated : s.db.datedBy (P.canonical tx.walletId) run.now = true := htimely
    rw [Platform.canonical_of_uuid uuid] at hdated
    exact ⟨h.1, h.2, hdated⟩
  | decided decision writes =>
    obtain ⟨hrun, hentries⟩ := decision.dated hc hok h writes
    intro e he
    rw [entriesOfWrites_append, entriesOfWrites_singleton] at he
    exact (List.mem_append.mp he).elim (hrun e) (hentries e)
  | commits | unnamed | noUuid | noWallet | undecided | unflushed => trivial

theorem Executes.clocked {stage : SubmitStage} (hexecutes : Executes cmd stage p)
    (h : p.Clocked d) : stage.Clocked d := by
  cases hexecutes <;> exact h

theorem Executes.submitTimely {stage : SubmitStage} (hexecutes : Executes cmd stage p)
    (h : timely P s p (.step inp) = true) : Submit.timely P s.db cmd inp stage = true := by
  cases hexecutes <;> exact h

theorem Executes.stage_clocked {stage' : SubmitStage} (hexecutes : Executes cmd stage' p')
    (h : p.Clocked s.db) (htimely : timely P s p a = true)
    (hstep : step P i a s p = some (s', p')) : stage'.Clocked s'.db := by
  rcases step_toExecutes hexecutes hstep with rfl | ⟨-, rfl⟩ | ⟨result, rfl⟩ |
    ⟨inp, stage, rfl, hbefore, hsubmit⟩
  · trivial
  · trivial
  · trivial
  · rw [(Submit.step_way hsubmit).db]
    exact Submit.step_clocked (hbefore.clocked h) (hbefore.submitTimely htimely) hsubmit

theorem step_clocked (hc : Consistent P s.db) (hok : ProcOk P i s p) (h : p.Clocked s.db)
    (htimely : timely P s p a = true) (hstep : step P i a s p = some (s', p')) :
    p'.Clocked s'.db := by
  cases p' with
  | submit cmd stage' => exact Executes.stage_clocked .direct h htimely hstep
  | consume messageId cstage =>
    cases cstage with
    | submit now claimed cmd stage' =>
      exact Executes.stage_clocked (.nested messageId now claimed) h htimely hstep
    | _ => trivial
  | reprocess batchSize stage' =>
    rcases step_reprocess hstep with rfl | rfl | ⟨inp, stage, rfl, rfl, hreprocess⟩
    · trivial
    · trivial
    · rcases Reprocess.step_writes hreprocess with ⟨run, rfl, -, -⟩ | hwriting
      · obtain ⟨-, rfl⟩ := Prod.mk.inj (Option.some.inj hreprocess)
        trivial
      · rw [hwriting.db]
        exact Reprocess.step_clocked hc hok h htimely hreprocess
  | _ => trivial

/-! ## The entries that a call adds -/

/-- Before its commit `execute` has written no entry. -/
theorem Executes.noEntries {wallet : Wallet} {tx : WagerTransaction} {ctx : EventContext}
    {resolution : Option ReferenceResolution}
    (hexecutes : Executes cmd (.finalize wallet tx ctx resolution) p) (hok : ProcOk P i s p) :
    entriesOfWrites p.writes = [] := by
  cases hexecutes with
  | direct => rfl
  | nested messageId now claimed =>
    have hclaimed := Consume.InboxClaimed.noEntries hok.1
    show entriesOfWrites (claimed ++ []) = []
    rw [List.append_nil, hclaimed]

theorem datedBy_applyAll (h : d.datedBy walletId now = true)
    (hdate : ∀ e ∈ entriesOfWrites ws, e.createdAt = now) :
    (d.applyAll ws).datedBy walletId now = true := by
  refine List.all_eq_true.mpr fun e he => ?_
  obtain ⟨hmem, hid⟩ := List.mem_filter.mp he
  rw [applyAll_ledgerEntries] at hmem
  rcases List.mem_append.mp hmem with hmem | hmem
  · exact List.all_eq_true.mp h e (List.mem_filter.mpr ⟨hmem, hid⟩)
  · exact decide_eq_true (hdate e hmem).le

/-- The entry of a decision has the reading that was taken before the lock. -/
theorem decide_dated {ctx : EventContext} {resolution : Option ReferenceResolution}
    {out : WagerTransaction × Wallet × Writes} (hc : Consistent P d)
    (hready : Submit.Ready P own d cmd wallet tx) (htimed : ctx.now = tx.createdAt)
    (hclocked : tx.kind ≠ .loss → d.datedBy wallet.id tx.createdAt = true)
    (htimely : Submit.timely P d cmd inp (.finalize wallet tx ctx resolution) = true)
    (hdecide : Submit.decide P wallet tx ctx resolution inp.newId = .ok out) :
    out.2.2.ledgerEntries = [] ∨ ∃ e', out.2.2.ledgerEntries = [e'] ∧
      ∀ e ∈ d.ledgerEntries, e.Before e' := by
  obtain ⟨r, hheld⟩ := hready.held
  have hopen : tx.isTerminal = false := by
    obtain ⟨now, hcreated⟩ := hready.created
    rw [hcreated]
    rfl
  have heffect : ∀ {reference : Option WagerTransaction},
      (cmd.kind = .loss || d.idAfter wallet.id tx.createdAt (inp.newId 0)) = true →
        applyEffect P tx wallet reference ctx inp.newId = .ok out →
          out.2.2.ledgerEntries = [] ∨ ∃ e', out.2.2.ledgerEntries = [e'] ∧
            ∀ e ∈ d.ledgerEntries, e.Before e' := by
    intro reference hid hout
    rcases applyEffect_entry hc hopen hheld hout with
      hnil | ⟨e', hone, hloss, hentryId, hwallet, hdate⟩
    · exact Or.inl hnil
    · have hafter := (Bool.or_eq_true_iff.mp hid).resolve_left fun hlost =>
        hloss (hready.sameKind.trans (of_decide_eq_true hlost))
      rw [← hentryId, ← htimed, ← hdate, ← hwallet] at hafter
      have hdated := hclocked hloss
      rw [← htimed, ← hdate, ← hwallet] at hdated
      exact Or.inr ⟨e', hone, fun e he => before_of_timely hdated hafter he⟩
  match resolution, htimely, hdecide with
  | none, htimely, hout | some (.resolved _), htimely, hout => exact heffect htimely hout
  | some .pending, _, hout =>
    obtain ⟨⟨tx', written⟩, hmark, hpair⟩ := ok_of_map hout
    rw [markPendingReference_eq hopen] at hmark
    obtain ⟨-, rfl⟩ := Prod.mk.inj (Except.ok.inj hmark)
    obtain rfl := hpair
    exact Or.inl rfl
  | some (.rejected code), _, hout =>
    obtain ⟨⟨tx', written⟩, hreject, hpair⟩ := ok_of_map hout
    rw [reject_eq hopen] at hreject
    obtain ⟨-, rfl⟩ := Prod.mk.inj (Except.ok.inj hreject)
    obtain rfl := hpair
    exact Or.inl rfl

/-- The entry that a call adds is after all that there are and all that the call has added. -/
theorem Emits.dated (h : Emits P inp (c.procs i) w) (hreach : Reachable (step P) initial c)
    (hclocked : (c.procs i).Clocked c.shared.db) (htimely : Timely P c i (.step inp)) :
    w.ledgerEntries = [] ∨ ∃ e', w.ledgerEntries = [e'] ∧
      ∀ e ∈ c.shared.db.ledgerEntries ++ entriesOfWrites (c.procs i).writes, e.Before e' := by
  obtain ⟨hs, hprocs⟩ := reachable_ok hreach
  have hok := hprocs i
  have hc := hs.consistent
  have htimely' : timely P c.shared (c.procs i) (.step inp) = true := htimely
  cases h with
  | claim _ hw => exact Or.inl (hw ▸ rfl)
  | decision hexecutes decided hw =>
    subst hw
    rw [hexecutes.noEntries hok, List.append_nil]
    exact decide_dated hc (hexecutes.ok hok).1 (reachable_timed hreach hexecutes)
      (hexecutes.clocked hclocked) (hexecutes.submitTimely htimely') decided
  | retry hp code decided =>
    rw [hp] at hok
    have hopen := not_terminal_of_pendingReference hok.1.head.status
    exact Or.inl (Reprocess.decide_row hopen decided).2.2
  | @reversal _ run tx _ ctx wallet _ out hp applied hw =>
    subst hw
    rw [hp] at hok hclocked htimely' ⊢
    obtain ⟨hrun, -, r, hheld⟩ := hok
    obtain ⟨honeDate, htime, hdated⟩ := hclocked
    have hopen := not_terminal_of_pendingReference hrun.head.status
    rcases applyEffect_entry (hrun.consistent hc) hopen hheld applied with
      hnil | ⟨e', hone, -, hentryId, hwallet, hdate⟩
    · exact Or.inl hnil
    · have hafter :
          (c.shared.db.applyAll run.writes).idAfter wallet.id run.now (inp.newId 0) = true :=
        htimely'
      have hdated' := datedBy_applyAll hdated honeDate
      rw [← htime, ← hdate, ← hwallet] at hdated'
      rw [← htime, ← hdate, ← hwallet, ← hentryId] at hafter
      refine Or.inr ⟨e', hone, fun e he => before_of_timely hdated' hafter ?_⟩
      rw [applyAll_ledgerEntries]
      exact he
  | opens _ hw => exact Or.inl (hw ▸ rfl)
  | @opensWith cmd now wallet tx entry hp moved hw =>
    rw [hp] at hok ⊢
    obtain ⟨hdrafted, -, -⟩ := hok
    rcases hw with rfl | rfl
    · exact Or.inl rfl
    · -- no entry of a wallet that is not there
      refine Or.inr ⟨entry, rfl, fun e he hwallet => ?_⟩
      have hmem : e ∈ c.shared.db.ledgerEntries ++ [] := he
      rw [List.append_nil] at hmem
      obtain ⟨r, hr, hid⟩ := hc.entry_wallet hmem
      rw [OpenWallet.openingEntry_ok moved] at hwallet
      exact absurd (hid.trans hwallet) (hdrafted.inserted.newId r hr)
  | queues _ _ hentries => exact Or.inl hentries

theorem DatedLater.enters {ws' : List Writes} (h : DatedLater d ws)
    (henters : Enters P inp p (entriesOfWrites ws) (entriesOfWrites ws'))
    (hdated : ∀ w, Emits P inp p w → w.ledgerEntries = [] ∨ ∃ e', w.ledgerEntries = [e'] ∧
      ∀ e ∈ d.ledgerEntries ++ entriesOfWrites ws, e.Before e') : DatedLater d ws' := by
  obtain ⟨hcommitted, hadded⟩ := h
  suffices hentries : (∀ e ∈ d.ledgerEntries, ∀ e' ∈ entriesOfWrites ws', e.Before e') ∧
      (entriesOfWrites ws').Pairwise WalletLedgerEntry.Before from ⟨hentries.1, hentries.2⟩
  generalize entriesOfWrites ws' = es' at henters
  cases henters with
  | none => exact ⟨fun _ _ _ he' => absurd he' List.not_mem_nil, .nil⟩
  | same => exact ⟨hcommitted, hadded⟩
  | more emits =>
    rcases hdated _ emits with hnil | ⟨e₁, hone, hbefore⟩
    · rw [hnil, List.append_nil]
      exact ⟨hcommitted, hadded⟩
    · rw [hone]
      constructor
      · intro e he e' he'
        rcases List.mem_append.mp he' with he' | he'
        · exact hcommitted e he e' he'
        · rw [List.mem_singleton.mp he']
          exact hbefore e (List.mem_append_left _ he)
      · refine List.pairwise_append.mpr ⟨hadded, List.pairwise_singleton _ _, fun e he e' he' => ?_⟩
        rw [List.mem_singleton.mp he']
        exact hbefore e (List.mem_append_right _ he)

/-! ## Runs -/

/-- In a run whose steps meet the condition what a call has written is dated later. -/
theorem reach_dated (h : Reach (step P) (Timely P) initial c) :
    c.shared.db.ledgerEntries.Pairwise WalletLedgerEntry.Before ∧
      ∀ i, (c.procs i).Clocked c.shared.db ∧ DatedLater c.shared.db (c.procs i).writes := by
  refine h.invariant (P := fun c => c.shared.db.ledgerEntries.Pairwise WalletLedgerEntry.Before ∧
    ∀ i, (c.procs i).Clocked c.shared.db ∧ DatedLater c.shared.db (c.procs i).writes)
    ⟨.nil, fun _ => ⟨trivial, .none rfl⟩⟩ ?_
  rintro c i a c' run ⟨hbefore, hprocs⟩ htimely hmoved
  have hreach := run.reachable
  obtain ⟨hs, hoks⟩ := reachable_ok hreach
  have heffect := reachable_effect hreach hmoved
  have hc' := (heffect.sharedOk hs).consistent
  obtain ⟨hclocked, hlater⟩ := hprocs i
  have hself := next_self hmoved
  have hothers : ∀ j, j ≠ i →
      (c'.procs j).Clocked c'.shared.db ∧ DatedLater c'.shared.db (c'.procs j).writes := by
    intro j hij
    have hframe := heffect.frame hs.consistent hij
    rw [next_other hmoved hij]
    exact ⟨(hprocs j).1.stable (hoks j) hc' hframe,
      (hprocs j).2.stable (hoks j).reserves hc' hframe⟩
  have hclocked' := step_clocked hs.consistent (hoks i) hclocked htimely hself
  rcases step_writes hself with ⟨-, -, hshared, hnil⟩ | ⟨hdb, hwrites⟩
  · refine ⟨?_, fun j => ?_⟩
    · rw [hshared]
      exact (applyAll_before_iff hbefore).mpr hlater
    · by_cases hij : j = i
      · subst hij
        exact ⟨hclocked', .none (hnil ▸ rfl)⟩
      · exact hothers j hij
  · refine ⟨hdb ▸ hbefore, fun j => ?_⟩
    by_cases hij : j = i
    · subst hij
      refine ⟨hclocked', ?_⟩
      rcases hwrites with hnil | ⟨inp, rfl, hwriting⟩
      · exact .none (hnil ▸ rfl)
      · rw [hdb]
        exact hlater.enters hwriting.entries fun w hemits =>
          hemits.dated hreach hclocked htimely
    · exact hothers j hij

end

end WageringProcessor
