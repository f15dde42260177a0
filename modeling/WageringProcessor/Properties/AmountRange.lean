import WageringProcessor.Invariants.Finalizing
import WageringProcessor.Persistence.Columns
import WageringProcessor.Runs

/-!
# The amounts that are written

The amounts are columns of 64 bits, and `Money` is unbounded.  No step compares the two: what is
written fits its column exactly when the amount that the caller sent fits and, where a wallet is
credited, its balance and the credit together.
-/

namespace WageringProcessor

open Library.Interleaving Library.Table WagerTransactionFinalizer

variable {P : Platform} {i : Pid} {c : Config Shared Proc} {d : Database} {p : Proc} {w : Writes}
  {inp : Input} {cmd : SubmitWagerTransactionCommand} {tx tx' : WagerTransaction} {wallet : Wallet}
  {reference : Option WagerTransaction} {ctx : EventContext} {newId : Nat → Id} {credited : Bool}
  {resolution : Option ReferenceResolution}

/-! ## The columns -/

/-- `balance_amount`, `money_amount`, `balance_before_amount` and `balance_after_amount`. -/
def rowAmounts (wallets : List WalletRow) (transactions : List WagerTransaction)
    (entries : List WalletLedgerEntry) : List Int :=
  wallets.map (·.balanceAmount) ++ transactions.map (·.money.minorUnits) ++
    entries.flatMap fun e =>
      [e.money.minorUnits, e.balanceBefore.minorUnits, e.balanceAfter.minorUnits]

def Writes.amounts (w : Writes) : List Int :=
  rowAmounts w.wallets w.wagerTransactions w.ledgerEntries

def Database.amounts (d : Database) : List Int :=
  rowAmounts d.wallets d.wagerTransactions d.ledgerEntries

def AllFit (amounts : List Int) : Prop := ∀ n ∈ amounts, fitsBigint n = true

theorem mem_rowAmounts {n : Int} {wallets : List WalletRow} {transactions : List WagerTransaction}
    {entries : List WalletLedgerEntry} : n ∈ rowAmounts wallets transactions entries ↔
      (∃ r ∈ wallets, r.balanceAmount = n) ∨ (∃ t ∈ transactions, t.money.minorUnits = n) ∨
        ∃ e ∈ entries, n ∈ [e.money.minorUnits, e.balanceBefore.minorUnits,
          e.balanceAfter.minorUnits] := by
  rw [rowAmounts, List.mem_append, List.mem_append, List.mem_map, List.mem_map, List.mem_flatMap,
    or_assoc]

theorem Database.amounts_apply {n : Int} (h : n ∈ (d.apply w).amounts) :
    n ∈ d.amounts ∨ n ∈ w.amounts := by
  rcases mem_rowAmounts.mp h with ⟨r, hr, hn⟩ | ⟨t, ht, hn⟩ | ⟨e, he, hn⟩
  · rcases mem_or_mem_of_upsertAll hr with hr | hr
    · exact Or.inr (mem_rowAmounts.mpr (Or.inl ⟨r, hr, hn⟩))
    · exact Or.inl (mem_rowAmounts.mpr (Or.inl ⟨r, hr, hn⟩))
  · rcases mem_or_mem_of_upsertAll ht with ht | ht
    · exact Or.inr (mem_rowAmounts.mpr (Or.inr (Or.inl ⟨t, ht, hn⟩)))
    · exact Or.inl (mem_rowAmounts.mpr (Or.inr (Or.inl ⟨t, ht, hn⟩)))
  · rcases List.mem_append.mp he with he | he
    · exact Or.inl (mem_rowAmounts.mpr (Or.inr (Or.inr ⟨e, he, hn⟩)))
    · exact Or.inr (mem_rowAmounts.mpr (Or.inr (Or.inr ⟨e, he, hn⟩)))

theorem AllFit.applyAll {ws : List Writes} (h : AllFit d.amounts)
    (hws : ∀ w ∈ ws, AllFit w.amounts) : AllFit (d.applyAll ws).amounts := by
  induction ws generalizing d with
  | nil => exact h
  | cons w ws ih =>
    refine ih (fun n hn => ?_) fun w' hw' => hws w' (List.mem_cons_of_mem _ hw')
    rcases Database.amounts_apply hn with hn | hn
    · exact h n hn
    · exact hws w List.mem_cons_self n hn

theorem AllFit.ofWallet {r : WalletRow} (h : AllFit d.amounts) (hr : r ∈ d.wallets) :
    fitsBigint r.balanceAmount = true := h _ (mem_rowAmounts.mpr (Or.inl ⟨r, hr, rfl⟩))

theorem AllFit.ofRow {t : WagerTransaction} (h : AllFit d.amounts)
    (ht : t ∈ d.wagerTransactions) : fitsBigint t.money.minorUnits = true :=
  h _ (mem_rowAmounts.mpr (Or.inr (Or.inl ⟨t, ht, rfl⟩)))

/-- A write of one transaction and of nothing else that has an amount. -/
theorem WritesRow.amounts (h : WritesRow P tx tx' w) (hwallets : w.wallets = [])
    (hentries : w.ledgerEntries = []) : w.amounts = [tx.money.minorUnits] := by
  have hmoney : tx'.money = tx.money := congrArg (·.money) h.props
  rw [Writes.amounts, hwallets, hentries, h.row]
  show [tx'.money.minorUnits] = _
  rw [hmoney]

theorem allFit_single {n : Int} : AllFit [n] ↔ fitsBigint n = true :=
  ⟨fun h => h n List.mem_cons_self, fun h _ hmem => List.mem_singleton.mp hmem ▸ h⟩

/-! ## The effect of a transaction -/

/-- A credit that the wallet does not refuse leaves a balance that fits. -/
def creditFits (tx : WagerTransaction) (wallet : Wallet) (credited : Bool) : Bool :=
  (refusal tx wallet credited).isSome || tx.kind = .loss ||
    effectDirection tx.kind credited = .debit ||
      fitsBigint (wallet.balance.minorUnits + tx.money.minorUnits)

theorem movedBalance_fits (hmoney : fitsBigint tx.money.minorUnits = true)
    (hbalance : fitsBigint wallet.balance.minorUnits = true)
    (h : refusal tx wallet credited = none) (hloss : tx.kind ≠ .loss) :
    fitsBigint (movedBalance wallet (effectDirection tx.kind credited) tx.money).minorUnits = true ↔
      creditFits tx wallet credited = true := by
  rw [fitsBigint_iff] at hmoney hbalance
  unfold creditFits
  rw [h, decide_eq_false hloss]
  cases hdirection : effectDirection tx.kind credited with
  | debit =>
    have hcovered := refusal_covered h hdirection
    rw [movedBalance, fitsBigint_iff]
    show _ ↔ true = true
    constructor
    · exact fun _ => rfl
    · intro _
      show 0 ≤ wallet.balance.minorUnits - tx.money.minorUnits ∧
        wallet.balance.minorUnits - tx.money.minorUnits ≤ 2 ^ 63 - 1
      omega
  | credit => exact Iff.rfl

theorem effect_amounts (hmoney : fitsBigint tx.money.minorUnits = true)
    (hbalance : fitsBigint wallet.balance.minorUnits = true) :
    AllFit (effect P tx wallet reference credited ctx newId).2.2.amounts ↔
      creditFits tx wallet credited = true := by
  cases hrefusal : refusal tx wallet credited with
  | some code =>
    have hfits : creditFits tx wallet credited = true := by
      rw [creditFits, hrefusal]
      rfl
    have hrow : WritesRow P tx (rejectedTransaction tx code ctx.now)
        (rejectionWrites P (rejectedTransaction tx code ctx.now) ctx (newId 1)) := ⟨rfl, rfl⟩
    rw [effect_refused hrefusal, hrow.amounts rfl rfl, allFit_single, hmoney, hfits]
  | none =>
    rw [effect_accepted hrefusal]
    by_cases hloss : tx.kind = .loss
    · have hfits : creditFits tx wallet credited = true := by simp [creditFits, hloss]
      have hrow : WritesRow P tx (processedTransaction tx (reference.map (·.id)) ctx.now)
          (lossWrites P (processedTransaction tx (reference.map (·.id)) ctx.now) wallet ctx
            (newId 1)) := ⟨rfl, rfl⟩
      rw [acceptance, if_pos hloss, hrow.amounts rfl rfl, allFit_single, hmoney, hfits]
    · rw [← movedBalance_fits hmoney hbalance hrefusal hloss, acceptance, if_neg hloss]
      constructor
      · exact fun h => h _ (mem_rowAmounts.mpr (Or.inl ⟨_, List.mem_cons_self, rfl⟩))
      · intro hafter n hn
        rcases mem_rowAmounts.mp hn with ⟨r, hr, rfl⟩ | ⟨t, ht, rfl⟩ | ⟨e, he, hn⟩
        · obtain rfl := List.mem_singleton.mp hr
          exact hafter
        · obtain rfl := List.mem_singleton.mp ht
          exact hmoney
        · obtain rfl := List.mem_singleton.mp he
          rcases List.mem_cons.mp hn with rfl | hn
          · exact hmoney
          · rcases List.mem_cons.mp hn with rfl | hn
            · exact hbalance
            · obtain rfl := List.mem_singleton.mp hn
              exact hafter

/-! ## The stages that write amounts -/

namespace Submit

/-- The amounts of the claim of `tx` and of the decision on it fit. -/
def amountsFit (wallet : Wallet) (tx : WagerTransaction) :
    Option ReferenceResolution → Bool
  | none => fitsBigint tx.money.minorUnits && creditFits tx wallet false
  | some (.resolved b) => fitsBigint tx.money.minorUnits && creditFits tx wallet (b.kind ≠ .bet)
  | some .pending | some (.rejected _) => fitsBigint tx.money.minorUnits

theorem claim_amounts : (claimWrites P tx).amounts = [tx.money.minorUnits] := rfl

theorem decision_amounts (hmoney : fitsBigint tx.money.minorUnits = true)
    (hbalance : fitsBigint wallet.balance.minorUnits = true) :
    AllFit (decision P wallet tx ctx newId resolution).2.2.amounts ↔
      amountsFit wallet tx resolution = true := by
  match resolution with
  | none =>
    rw [amountsFit, hmoney, Bool.true_and]
    exact effect_amounts hmoney hbalance
  | some (.resolved b) =>
    rw [amountsFit, hmoney, Bool.true_and]
    exact effect_amounts hmoney hbalance
  | some .pending =>
    have hrow : WritesRow P tx (parkedTransaction tx ctx.now)
        (parkingWrites P (parkedTransaction tx ctx.now) ctx (newId 1)) := ⟨rfl, rfl⟩
    rw [amountsFit, decision, hrow.amounts rfl rfl, allFit_single]
  | some (.rejected code) =>
    have hrow : WritesRow P tx (rejectedTransaction tx code ctx.now)
        (rejectionWrites P (rejectedTransaction tx code ctx.now) ctx (newId 1)) := ⟨rfl, rfl⟩
    rw [amountsFit, decision, hrow.amounts rfl rfl, allFit_single]

theorem amountsFit_money (h : amountsFit wallet tx resolution = true) :
    fitsBigint tx.money.minorUnits = true := by
  match resolution with
  | none | some (.resolved _) => exact (Bool.and_eq_true_iff.mp h).1
  | some .pending | some (.rejected _) => exact h

/-- What is decided was found to have a positive amount, where the wallet checks it. -/
theorem amountOk_of_decided {own : Resource → Prop} {out : WagerTransaction × Wallet × Writes}
    (hc : Consistent P d) (h : Ready P own d cmd wallet tx) (hr : ResolutionOk P d tx resolution)
    (hdecided : decide P wallet tx ctx resolution newId = .ok out) :
    AmountOk wallet tx resolution := by
  intro hnone hloss hcurrency
  by_contra hnot
  have hnonneg : 0 ≤ tx.money.minorUnits := h.claimed.identity.money
  obtain ⟨r, -, -, hbalance, hread⟩ := h.account hc
  rw [hnone] at hr hdecided
  have hzero := @applyEffect_zero P tx wallet ctx newId hread hbalance hloss hr hcurrency (by omega)
  rw [decide, hzero] at hdecided
  cases hdecided

end Submit

/-- The amounts that the next step of a process writes fit. -/
def Proc.amountsFit : Proc → Bool
  | .openWallet cmd (.insertWallet _ _) | .openWallet cmd (.insertEntry _ _ _) =>
    fitsBigint cmd.initialBalance.minorUnits
  | .submit _ (.finalize wallet tx _ resolution)
  | .consume _ (.submit _ _ _ (.finalize wallet tx _ resolution)) =>
    Submit.amountsFit wallet tx resolution
  | .reprocess _ (.applyEffect _ tx _ wallet reference _) =>
    creditFits tx wallet (reference.kind ≠ .bet)
  | _ => true

theorem Executes.amountsFit (h : Executes cmd (.finalize wallet tx ctx resolution) p) :
    p.amountsFit = Submit.amountsFit wallet tx resolution := by
  cases h <;> rfl

/-- The process finalizes `cmd` without a reference, where the wallet and the amount are these. -/
def Proc.finalizes (cmd : SubmitWagerTransactionCommand) (balance amount : Int) : Proc → Bool
  | .submit cmd₀ (.finalize wallet tx _ none) => cmd₀ = cmd &&
    (wallet.balance.minorUnits, tx.money.minorUnits) = (balance, amount)
  | _ => false

theorem Proc.finalizes_iff {balance amount : Int} : p.finalizes cmd balance amount = true ↔
    ∃ wallet tx ctx, p = .submit cmd (.finalize wallet tx ctx none) ∧
      (wallet.balance.minorUnits, tx.money.minorUnits) = (balance, amount) := by
  constructor
  · intro h
    unfold Proc.finalizes at h
    split at h
    · simp only [Bool.and_eq_true, decide_eq_true_eq] at h
      exact ⟨_, _, _, by rw [h.1], h.2⟩
    · cases h
  · rintro ⟨wallet, tx, ctx, rfl, h⟩
    rw [Proc.finalizes, decide_eq_true h, decide_eq_true rfl, Bool.and_self]

theorem OpenWallet.wallet_amounts {now : Date} {cmd : OpenWalletCommand}
    (h : wallet = Wallet.open wallet.id cmd.playerId cmd.initialBalance now) :
    (walletWrites P wallet).amounts = [cmd.initialBalance.minorUnits] := by
  rw [h]
  rfl

theorem reversal_fits {own : Resource → Prop} {run : ReprocessRun} {r : WalletRow}
    {rest : List WagerTransaction} (hstored : AllFit d.amounts)
    (hwritten : ∀ w ∈ run.writes, AllFit w.amounts)
    (hrun : Reprocess.RunOk P own d run (tx :: rest))
    (hheld : HeldWallet P own (d.applyAll run.writes) tx wallet r) :
    fitsBigint tx.money.minorUnits = true ∧ fitsBigint wallet.balance.minorUnits = true := by
  have hfit := hstored.applyAll hwritten
  refine ⟨hfit.ofRow hrun.head.row, ?_⟩
  rw [hheld.read]
  exact hfit.ofWallet hheld.row

section

variable (h : Reachable (step P) initial c) (hstored : AllFit c.shared.db.amounts)
include h hstored

/-- The claim and the decision of a submit. -/
theorem submit_amounts (hexecutes : Executes cmd (.finalize wallet tx ctx resolution) (c.procs i)) :
    (∀ inp w, Emits P inp (c.procs i) w → AllFit w.amounts) →
      Submit.amountsFit wallet tx resolution = true := by
  intro hall
  obtain ⟨hs, hprocs⟩ := reachable_ok h
  obtain ⟨hready, hresolution⟩ := hexecutes.ok (hprocs i)
  obtain ⟨r, hheld, -, -, -⟩ := hready.account hs.consistent
  have hbalance : fitsBigint wallet.balance.minorUnits = true := by
    rw [hheld.read]
    exact hstored.ofWallet hheld.row
  have hmoney : fitsBigint tx.money.minorUnits = true :=
    allFit_single.mp (hall ⟨0, fun _ => "", [], true⟩ _ (.claim hexecutes rfl))
  by_cases hamount : Submit.AmountOk wallet tx resolution
  · have hdecided : Submit.decide P wallet tx ctx resolution (fun _ => "") = _ :=
      Submit.decide_eq hs.consistent hready hresolution hamount
    exact (Submit.decision_amounts hmoney hbalance).mp
      (hall ⟨0, fun _ => "", [], true⟩ _ (.decision hexecutes hdecided rfl))
  · -- the amount is 0.00, which leaves the balance as it is
    obtain ⟨rfl, hzero⟩ : resolution = none ∧ tx.money.minorUnits = 0 := by
      have hnonneg : 0 ≤ tx.money.minorUnits := hready.claimed.identity.money
      unfold Submit.AmountOk at hamount
      push Not at hamount
      obtain ⟨hnone, -, -, hle⟩ := hamount
      exact ⟨hnone, by omega⟩
    rw [Submit.amountsFit, hmoney, Bool.true_and, creditFits, hzero, add_zero, hbalance,
      Bool.or_true]

theorem emits_amounts (hwritten : ∀ w ∈ (c.procs i).writes, AllFit w.amounts)
    (hfits : (c.procs i).amountsFit = true) (hemits : Emits P inp (c.procs i) w) :
    AllFit w.amounts := by
  obtain ⟨hs, hprocs⟩ := reachable_ok h
  have hok := hprocs i
  cases hemits with
  | claim stage writes =>
    rw [stage.amountsFit] at hfits
    rw [writes, Submit.claim_amounts, allFit_single]
    exact Submit.amountsFit_money hfits
  | decision stage decided writes =>
    obtain ⟨hready, hresolution⟩ := stage.ok hok
    obtain ⟨r, hheld, -, -, -⟩ := hready.account hs.consistent
    rename_i cmd wallet tx ctx resolution out
    have hbalance : fitsBigint wallet.balance.minorUnits = true := by
      rw [hheld.read]
      exact hstored.ofWallet hheld.row
    have hamount := Submit.amountOk_of_decided hs.consistent hready hresolution decided
    rw [Submit.decide_eq hs.consistent hready hresolution hamount] at decided
    rw [stage.amountsFit] at hfits
    rw [writes, ← Except.ok.inj decided]
    exact (Submit.decision_amounts (Submit.amountsFit_money hfits) hbalance).mpr hfits
  | @retry batchSize run tx ctx resolution rest failureCode stage code decided =>
    rw [stage] at hok hwritten
    have hlocked := hok.1.head
    obtain ⟨hrow, hwallets, hentries⟩ :=
      Reprocess.decide_row (not_terminal_of_pendingReference hlocked.status) decided
    rw [hrow.amounts hwallets hentries, allFit_single]
    exact (hstored.applyAll hwritten).ofRow hlocked.row
  | @reversal batchSize run tx reference ctx wallet rest out stage applied writes =>
    rw [stage] at hok hwritten hfits
    obtain ⟨hrun, href, r, hheld⟩ := hok
    obtain ⟨hmoney, hbalance⟩ := reversal_fits hstored hwritten hrun hheld
    rw [applyEffect_eq (hrun.effective hs.consistent href hheld)] at applied
    rw [writes, ← Except.ok.inj applied]
    exact (effect_amounts hmoney hbalance).mpr hfits
  | opens stage writes =>
    rw [stage] at hok hfits
    rw [writes, OpenWallet.wallet_amounts hok.created, allFit_single]
    exact hfits
  | opensWith stage moved writes =>
    rename_i cmd now wallet tx entry
    rw [stage] at hok hfits
    obtain ⟨hdrafted, -, -⟩ := hok
    have hinitial : fitsBigint cmd.initialBalance.minorUnits = true := hfits
    rcases writes with rfl | rfl
    · rw [OpenWallet.wallet_amounts hdrafted.opened, allFit_single]
      exact hinitial
    · obtain rfl := OpenWallet.openingEntry_ok moved
      have hrow : (toWagerTransactionEntity P tx).money = cmd.initialBalance := by
        show tx.money = cmd.initialBalance
        rw [hdrafted.created]
        rfl
      intro n hn
      rcases mem_rowAmounts.mp hn with ⟨r, hr, -⟩ | ⟨t, ht, hn⟩ | ⟨e, he, hn⟩
      · exact absurd hr List.not_mem_nil
      · rw [List.mem_singleton.mp ht, hrow] at hn
        exact hn ▸ hinitial
      · rw [List.mem_singleton.mp he] at hn
        rcases List.mem_cons.mp hn with hn | hn
        · exact hn ▸ hinitial
        · rcases List.mem_cons.mp hn with hn | hn
          · rw [hn]
            rfl
          · rw [List.mem_singleton.mp hn]
            exact hinitial
  | queues wallets rows entries =>
    rw [Writes.amounts, wallets, rows, entries]
    exact fun _ hn => absurd hn List.not_mem_nil

/-- What the next step of a process writes fits exactly when `Proc.amountsFit` says so. -/
theorem reachable_amounts (hwritten : ∀ w ∈ (c.procs i).writes, AllFit w.amounts) :
    (∀ inp w, Emits P inp (c.procs i) w → AllFit w.amounts) ↔
      (c.procs i).amountsFit = true := by
  constructor
  · intro hall
    obtain ⟨hs, hprocs⟩ := reachable_ok h
    have hok := hprocs i
    have hsubmit := @submit_amounts P i c
    generalize hp : c.procs i = p at hall hok hwritten hsubmit
    unfold Proc.amountsFit
    split
    · rename_i cmd now wallet
      have hfit := hall ⟨0, fun _ => "", [], true⟩ _ (.opens rfl rfl)
      rw [OpenWallet.wallet_amounts hok.created, allFit_single] at hfit
      exact hfit
    · rename_i cmd now wallet tx
      obtain ⟨hdrafted, -, -⟩ := hok
      obtain ⟨entry, hentry⟩ : ∃ entry, OpenWallet.openingEntry cmd "" wallet tx now = .ok entry :=
        OpenWallet.openingEntry_exists hdrafted.positive ""
      have hfit := hall ⟨0, fun _ => "", [], true⟩ _ (.opensWith rfl hentry (Or.inl rfl))
      rw [OpenWallet.wallet_amounts hdrafted.opened, allFit_single] at hfit
      exact hfit
    · exact hsubmit h hstored .direct hall
    · exact hsubmit h hstored (.nested _ _ _) hall
    · obtain ⟨hrun, href, r, hheld⟩ := hok
      obtain ⟨hmoney, hbalance⟩ := reversal_fits hstored hwritten hrun hheld
      exact (effect_amounts hmoney hbalance).mp
        (hall ⟨0, fun _ => "", [], true⟩ _
          (.reversal rfl (applyEffect_eq (hrun.effective hs.consistent href hheld)) rfl))
    · rfl
  · exact fun hfits inp w hemits => emits_amounts h hstored hwritten hfits hemits

end

/-! ## Runs -/

/-- The condition on the steps of a run. -/
abbrev AmountsFit (c : Config Shared Proc) (i : Pid) (_ : Action) : Prop :=
  (c.procs i).amountsFit = true

/-- As long as the amounts of every step fit, so do all that are stored. -/
theorem reach_amounts (h : Reach (step P) AmountsFit initial c) :
    AllFit c.shared.db.amounts ∧ ∀ i, ∀ w ∈ (c.procs i).writes, AllFit w.amounts := by
  refine reach_written (D := fun d => AllFit d.amounts) (Q := fun _ w => AllFit w.amounts) ?_ ?_ ?_
    ?_ h
  · exact fun n hn => absurd hn List.not_mem_nil
  · exact fun _ _ _ _ hw => hw
  · exact fun d ws _ hd hws => hd.applyAll hws
  · intro c i inp w run hfits hstored hwritten hemits
    exact emits_amounts run.reachable hstored hwritten hfits hemits

/-- A BET of 30.00 about to be finalized on a wallet that holds 100.00. -/
theorem bet_amounts : ∃ c wallet tx ctx, Reachable (step localPlatform) initial c ∧
    c.procs 1 = .submit (submitCommand .bet "bet-1" none (uuidText 10))
      (.finalize wallet tx ctx none) ∧
      (wallet.balance.minorUnits, tx.money.minorUnits) = (10000, 3000) ∧
        ∀ inp w, Emits localPlatform inp (c.procs 1) w → AllFit w.amounts := by
  have hrun : (exec (step localPlatform) initial (runCall 0 (.openWallet openCommand) 1 6 ++
      runCall 1 (.submit (submitCommand .bet "bet-1" none (uuidText 10))) 7 4)).any (fun c =>
        c.shared.db.amounts.all fitsBigint && (c.procs 1).amountsFit &&
          decide ((c.procs 1).writes = []) &&
            (c.procs 1).finalizes (submitCommand .bet "bet-1" none (uuidText 10)) 10000 3000) =
      true := by
    decide +kernel
  obtain ⟨c, hreach, hp⟩ := reachable_of_any hrun
  simp only [Bool.and_eq_true, decide_eq_true_eq] at hp
  obtain ⟨⟨⟨hstored, hfits⟩, hwrites⟩, hfinalizes⟩ := hp
  obtain ⟨wallet, tx, ctx, hproc, hamounts⟩ := Proc.finalizes_iff.mp hfinalizes
  have hwritten : ∀ w ∈ (c.procs 1).writes, AllFit w.amounts := by
    rw [hwrites]
    exact fun _ hw => absurd hw List.not_mem_nil
  exact ⟨c, wallet, tx, ctx, hreach, hproc, hamounts,
    (reachable_amounts hreach (List.all_eq_true.mp hstored) hwritten).mpr hfits⟩

/-- An opening with 10^18 reais, which `Money.from` accepts. -/
def bigOpening : OpenWalletCommand := { openCommand with initialBalance := ⟨10 ^ 20, brl⟩ }

theorem bigOpening_exceeds : ∃ c w, Reachable (step localPlatform) initial c ∧
    Money.ofProps ⟨"1000000000000000000.00", "BRL"⟩ = .ok bigOpening.initialBalance ∧
      AllFit c.shared.db.amounts ∧ (c.procs 0).writes = [] ∧
        (∀ inp, Emits localPlatform inp (c.procs 0) w) ∧ w.amounts = [10 ^ 20] ∧
          ¬AllFit w.amounts := by
  have hrun : (exec (step localPlatform) initial (runCall 0 (.openWallet bigOpening) 1 1)).any
      (fun c => c.shared.db.amounts.all fitsBigint &&
        decide (c.procs 0 = .openWallet bigOpening (.insertWallet 1000
          (Wallet.open (uuidText 10) bigOpening.playerId bigOpening.initialBalance 1000)))) =
      true := by
    decide +kernel
  obtain ⟨c, hreach, hp⟩ := reachable_of_any hrun
  simp only [Bool.and_eq_true, decide_eq_true_eq] at hp
  obtain ⟨hstored, hproc⟩ := hp
  let wallet := Wallet.open (uuidText 10) bigOpening.playerId bigOpening.initialBalance 1000
  refine ⟨c, OpenWallet.walletWrites localPlatform wallet, hreach, by decide,
    List.all_eq_true.mp hstored, ?_, fun inp => ?_, rfl, ?_⟩
  · rw [hproc]
    rfl
  · exact .opens hproc rfl
  · exact fun hfit => absurd (hfit (10 ^ 20) List.mem_cons_self) (by decide)

end WageringProcessor
