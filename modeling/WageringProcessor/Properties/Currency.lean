import WageringProcessor.Invariants.Commits
import WageringProcessor.Invariants.Effect
import WageringProcessor.Runs

/-!
# A wallet processes its own currency

BET and WIN are checked by the wallet, a reversal has the currency of its reference, and a LOSS is
checked by nothing: it is processed in the wallet's currency when it is submitted in it.
-/

namespace WageringProcessor

open Library.Interleaving Library.Table WagerTransactionFinalizer

variable {P : Platform} {i : Pid} {c : Config Shared Proc} {a : Action} {d d' : Database}
  {p : Proc} {w : Writes} {t : WagerTransaction}

/-! ## The condition on a LOSS -/

/-- A LOSS that is about to be finalized is in the currency of the wallet that is locked for it. -/
def Proc.lossInCurrency : Proc → Bool
  | .submit _ (.finalize wallet tx _ _) | .consume _ (.submit _ _ _ (.finalize wallet tx _ _)) =>
    tx.kind ≠ .loss || tx.money.currency = wallet.currency
  | _ => true

/-- The condition on the steps of a run. -/
abbrev LossesInCurrency (c : Config Shared Proc) (i : Pid) (_ : Action) : Prop :=
  (c.procs i).lossInCurrency = true

/-! ## The rows -/

/-- A PROCESSED row has the currency of its wallet. -/
def RowCurrency (d : Database) (t : WagerTransaction) : Prop :=
  t.status = .processed → ∃ r ∈ d.wallets, r.id = t.walletId ∧ t.money.currency = r.currency

theorem RowCurrency.keep (h : RowCurrency d t) (k : Keeps d d') : RowCurrency d' t := by
  intro hp
  obtain ⟨r, hr, hid, hcurrency⟩ := h hp
  obtain ⟨r', hr', hsame⟩ := k.wallets r hr
  exact ⟨r', hr', hsame.1.trans hid, hcurrency.trans hsame.2.2.symm⟩

/-- A transaction that was applied to its wallet has the wallet's currency. -/
theorem Consistent.rowCurrency (hc : Consistent P d) (ht : t ∈ d.wagerTransactions)
    (hloss : t.kind ≠ .loss) : RowCurrency d t := by
  intro hp
  obtain ⟨r, hr, hid, -⟩ := (hc.rows t ht).identity.owner
  exact ⟨r, hr, hid, (hc.currency ht ⟨hp, hloss⟩ hr hid).1⟩

/-- The LOSS rows that a write contains. -/
def LossCurrency (d : Database) (ts : List WagerTransaction) : Prop :=
  ∀ t ∈ ts, t.kind = .loss → RowCurrency d t

theorem LossCurrency.ofKind {tx tx' : WagerTransaction} (h : WritesRow P tx tx' w)
    (hkind : tx.kind ≠ .loss) : LossCurrency d w.wagerTransactions := by
  intro t ht hloss
  rw [h.mem ht] at hloss
  have hsame : tx'.kind = tx.kind := congrArg (·.kind) h.props
  exact absurd (hsame.symm.trans hloss) hkind

theorem lockedRow_ne_loss {own : Resource → Prop} {tx : WagerTransaction}
    (hc : Consistent P d) (h : LockedRow own d tx) : tx.kind ≠ .loss := by
  have hrequires := (Reprocess.LockedRow.waiting h hc).kind
  rcases WagerTransaction.requiresReference_iff.mp hrequires with hkind | hkind <;> simp [hkind]

/-- What a call writes of a LOSS that is in the wallet's currency. -/
theorem emits_lossCurrency {inp : Input} (hreach : Reachable (step P) initial c)
    (hfits : LossesInCurrency c i (.step inp)) (hemits : Emits P inp (c.procs i) w) :
    LossCurrency c.shared.db w.wagerTransactions := by
  obtain ⟨hs, hprocs⟩ := reachable_ok hreach
  have hok := hprocs i
  cases hemits with
  | claim stage writes =>
    obtain ⟨hready, -⟩ := stage.ok hok
    intro t ht _ hp
    rw [writes] at ht
    obtain rfl := List.mem_singleton.mp ht
    rw [hready.claimed.created] at hp
    cases hp
  | @decision cmd wallet tx ctx resolution out stage decided writes =>
    obtain ⟨hready, -⟩ := stage.ok hok
    have hopen := (Subject.settling hs.consistent (.claimed hready.claimed)).unsettled
    have hrow := Submit.decide_row hopen decided
    rw [writes]
    intro t ht hloss hp
    obtain rfl := hrow.mem ht
    obtain ⟨r, hheld⟩ := hready.held
    have hkind : out.1.kind = tx.kind := congrArg (·.kind) hrow.props
    have hmoney : out.1.money = tx.money := congrArg (·.money) hrow.props
    have hwallet : out.1.walletId = tx.walletId := congrArg (·.walletId) hrow.props
    have hcurrency : tx.money.currency = wallet.currency := by
      have hcondition : (tx.kind ≠ .loss || tx.money.currency = wallet.currency) = true := by
        have hproc : (c.procs i).lossInCurrency = true := hfits
        generalize c.procs i = p at stage hproc
        cases stage <;> exact hproc
      simpa [hkind.symm.trans hloss] using hcondition
    refine ⟨r, hheld.row, ?_, ?_⟩
    · show r.id = P.canonical out.1.walletId
      rw [hheld.named, hwallet]
    · show out.1.money.currency = r.currency
      rw [hmoney, hcurrency, hheld.read]
      rfl
  | retry stage code decided =>
    rw [stage] at hok
    have hlocked := hok.1.head
    have hview := hok.1.consistent hs.consistent
    have hopen := not_terminal_of_pendingReference hlocked.status
    exact .ofKind (Reprocess.decide_row hopen decided).1 (lockedRow_ne_loss hview hlocked)
  | reversal stage applied writes =>
    rw [stage] at hok
    have hlocked := hok.1.head
    have hview := hok.1.consistent hs.consistent
    have hopen := not_terminal_of_pendingReference hlocked.status
    rw [writes]
    exact .ofKind (applyEffect_row hopen applied) (lockedRow_ne_loss hview hlocked)
  | opens stage writes =>
    rw [writes]
    exact fun _ ht => absurd ht List.not_mem_nil
  | @opensWith cmd now wallet tx entry stage moved writes =>
    rw [stage] at hok
    obtain ⟨hdrafted, -, -⟩ := hok
    rcases writes with rfl | rfl
    · exact fun _ ht => absurd ht List.not_mem_nil
    · intro t ht hloss
      obtain rfl := List.mem_singleton.mp ht
      rw [hdrafted.created] at hloss
      cases hloss
  | queues _ rows _ =>
    rw [rows]
    exact fun _ ht => absurd ht List.not_mem_nil

/-! ## The events -/

/-- The texts of the balances of a wallet are in its currency. -/
theorem lastBalance_currency {row : WalletRow} (h : AccountOk P d row)
    {pre post : List EventData} (hdata : d.eventData = pre ++ post) :
    (lastBalance row.id row.currency pre).currency = row.currency.code := by
  unfold lastBalance
  cases hlast : (pre.filterMap (·.balanceAfterOf row.id)).getLast? with
  | none => rfl
  | some balance =>
    have hmem : balance ∈ d.eventData.filterMap (·.balanceAfterOf row.id) := by
      rw [hdata, List.filterMap_append]
      exact List.mem_append_left _ (List.mem_of_getLast? hlast)
    rw [h.balancesAfter] at hmem
    obtain ⟨e, he, rfl⟩ := List.mem_map.mp hmem
    exact congrArg Currency.code (h.balanced e he).afterCurrency

/-- Money and balance of a PROCESSED event are in one currency, where the rows are. -/
theorem Consistent.processedCurrency (hc : Consistent P d)
    (hrows : ∀ t ∈ d.wagerTransactions, RowCurrency d t) {data : WagerTransactionData}
    {balance : MoneyProps} (he : .wagerTransactionProcessed data balance ∈ d.eventData) :
    data.money.currency = balance.currency := by
  obtain ⟨t, ht, hid⟩ := hc.eventRows _ he
  have hrow := hc.rows t ht
  obtain ⟨parked, final, hevents, -, hparked, hconcluded⟩ := hrow.history
  have hmem : .wagerTransactionProcessed data balance ∈ parked ++ final := by
    rw [← hevents]
    exact List.mem_filter.mpr ⟨he, by simp [hid]⟩
  have hfinal : .wagerTransactionProcessed data balance ∈ final := by
    refine (List.mem_append.mp hmem).resolve_left fun hin => ?_
    obtain ⟨_, -, heq⟩ := hparked _ hin
    cases heq
  cases hconcluded with
  | waiting status => exact absurd hfinal List.not_mem_nil
  | rejected status describes =>
    cases List.mem_singleton.mp hfinal
  | @lost data' balance' status kind describes =>
    obtain ⟨rfl, rfl⟩ := EventData.wagerTransactionProcessed.inj (List.mem_singleton.mp hfinal)
    obtain ⟨pre, post, hsplit⟩ := List.append_of_mem he
    obtain ⟨r, hr, hrid, rfl⟩ := hc.losses pre post data balance hsplit (describes.kind.trans kind)
    obtain ⟨r', hr', hrid', hcurrency⟩ := hrows t ht status
    have hsame : r.id = r'.id := by rw [hrid, describes.walletId, hrid']
    obtain rfl := List.inj_on_of_nodup_map hc.walletIds hr hr' hsame
    rw [lastBalance_currency (hc.accounts r hr) hsplit, describes.money]
    exact congrArg Currency.code hcurrency
  | @moved data' e walletVersion status kind describes entry =>
    have hdata : data = data' ∧ balance = e.balanceAfter.toJSON := by
      rcases List.mem_cons.mp hfinal with heq | hin
      · exact EventData.wagerTransactionProcessed.inj heq
      · cases List.mem_singleton.mp hin
    obtain ⟨rfl, rfl⟩ := hdata
    obtain ⟨e', hentry, hfor⟩ := hrow.moved ⟨status, kind⟩
    obtain rfl := (List.singleton_inj.mp (entry.symm.trans hentry))
    obtain ⟨r, hr, hrid, hcurrency⟩ := hrows t ht status
    have hmem : e ∈ d.entriesOf t.id := by simp [entry]
    have hbalanced := (hc.accounts r hr).balanced e
      (List.mem_filter.mpr ⟨(List.mem_filter.mp hmem).1, by simp [hfor.walletId, hrid]⟩)
    rw [describes.money]
    exact congrArg Currency.code (hcurrency.trans hbalanced.afterCurrency.symm)

/-! ## Runs whose losses are in currency -/

/-- What every wallet processes is in its currency. -/
structure OwnCurrency (d : Database) : Prop where
  processed : ∀ t ∈ d.wagerTransactions, t.status = .processed →
    ∃ r ∈ d.wallets, r.id = t.walletId ∧ t.money.currency = r.currency
  events : ∀ data balance, .wagerTransactionProcessed data balance ∈ d.eventData →
    data.money.currency = balance.currency

theorem reach_lossCurrency (h : Reach (step P) LossesInCurrency initial c) :
    LossCurrency c.shared.db c.shared.db.wagerTransactions := by
  refine (reach_written (D := fun d => LossCurrency d d.wagerTransactions)
    (Q := fun d w => LossCurrency d w.wagerTransactions) ?_ ?_ ?_ ?_ h).1
  · exact fun _ ht => absurd ht List.not_mem_nil
  · exact fun d d' w f hw t ht hloss => (hw t ht hloss).keep f.toKeeps
  · intro d ws f hd hws t ht hloss
    rcases Database.mem_transactions_applyAll ht with ht | ⟨w, hw, ht⟩
    · exact (hd t ht hloss).keep f.toKeeps
    · exact (hws w hw t ht hloss).keep f.toKeeps
  · intro c i inp w run hfits _ _ hemits
    exact emits_lossCurrency run.reachable hfits hemits

/-- In a run that finalizes every LOSS in the currency of its wallet, so is all that is
processed. -/
theorem reach_ownCurrency (h : Reach (step P) LossesInCurrency initial c) :
    OwnCurrency c.shared.db := by
  have hc := reachable_consistent h.reachable
  have hlosses := reach_lossCurrency h
  have hrows : ∀ t ∈ c.shared.db.wagerTransactions, RowCurrency c.shared.db t := by
    intro t ht
    by_cases hloss : t.kind = .loss
    · exact hlosses t ht hloss
    · exact hc.rowCurrency ht hloss
  exact ⟨hrows, fun _ _ he => hc.processedCurrency hrows he⟩

/-- A LOSS of 30.00 on the wallet `uuidText 10`, which is in BRL. -/
def lossCommand (currency : Currency) : SubmitWagerTransactionCommand :=
  { submitCommand .loss "loss-1" none (uuidText 10) with money := ⟨3000, currency⟩ }

/-- The currencies of the transactions and of their events, with those of the balances. -/
def currencies (d : Database) : List (WagerTransactionKind × WagerTransactionStatus × Currency) ×
    List (String × String) :=
  (d.wagerTransactions.map fun t => (t.kind, t.status, t.money.currency),
    d.eventData.filterMap fun
      | .wagerTransactionProcessed data balance => some (data.money.currency, balance.currency)
      | _ => none)

theorem brlLoss_ownCurrency : ∃ c, Reach (step localPlatform) LossesInCurrency initial c ∧
    OwnCurrency c.shared.db ∧
      currencies c.shared.db = ([(.opening, .processed, brl), (.loss, .processed, brl)],
        [("BRL", "BRL"), ("BRL", "BRL")]) := by
  have hrun : (execIf (step localPlatform) LossesInCurrency initial
      (runCall 0 (.openWallet openCommand) 1 6 ++
        runCall 1 (.submit (lossCommand brl)) 7 6)).any (fun c =>
      decide (currencies c.shared.db = ([(.opening, .processed, brl), (.loss, .processed, brl)],
        [("BRL", "BRL"), ("BRL", "BRL")]))) = true := by
    decide +kernel
  obtain ⟨c, hreach, hp⟩ := reach_of_any hrun
  exact ⟨c, hreach, reach_ownCurrency hreach, of_decide_eq_true hp⟩

/-- A LOSS in USD is PROCESSED on the wallet in BRL, and its event names both. -/
theorem usdLoss_processed : ∃ c, Reachable (step localPlatform) initial c ∧
    c.shared.db.wallets.map (·.currency) = [brl] ∧
      currencies c.shared.db = ([(.opening, .processed, brl), (.loss, .processed, usd)],
        [("BRL", "BRL"), ("USD", "BRL")]) := by
  have hrun : (exec (step localPlatform) initial (runCall 0 (.openWallet openCommand) 1 6 ++
      runCall 1 (.submit (lossCommand usd)) 7 6)).any (fun c =>
        decide (c.shared.db.wallets.map (·.currency) = [brl]) &&
          decide (currencies c.shared.db = ([(.opening, .processed, brl), (.loss, .processed, usd)],
            [("BRL", "BRL"), ("USD", "BRL")]))) = true := by
    decide +kernel
  obtain ⟨c, hreach, hp⟩ := reachable_of_any hrun
  simp only [Bool.and_eq_true, decide_eq_true_eq] at hp
  exact ⟨c, hreach, hp⟩

end WageringProcessor
