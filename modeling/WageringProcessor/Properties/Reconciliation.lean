import WageringProcessor.Properties.Consumption
import WageringProcessor.Properties.LedgerIntegrity
import WageringProcessor.UseCases.ReconcileWallet

/-!
# What a reconciliation reports

Every committed state is consistent, yet a reconciliation reads the wallet in one state and its
ledger in a later one.  It finds them consistent when what was committed in between sums to
zero. -/

namespace WageringProcessor

open Library.Interleaving Library.Table

variable {P : Platform} {c c' : Config Shared Proc} {walletId : String} {wallet : Wallet}

/-- The entries of the wallet that were committed from `d` to `d'`. -/
def Database.committedSince (d d' : Database) (walletId : Id) : List WalletLedgerEntry :=
  (d'.entriesOfWallet walletId).drop (d.entriesOfWallet walletId).length

/-- The result names no divergence, and none was counted. -/
structure NoDivergence (result : ReconciliationResult) (counted : Bool) : Prop where
  consistent : result.consistent = true
  difference : result.difference = Money.zero result.storedBalance.currency
  uncounted : counted = false

theorem reachable_committedSince (h : Reachable (step P) initial c)
    (h' : Reachable (step P) c c') (id : Id) : c'.shared.db.entriesOfWallet id =
      c.shared.db.entriesOfWallet id ++ c.shared.db.committedSince c'.shared.db id := by
  obtain ⟨added, hadded⟩ := (reachable_ledger h h').filter fun e => decide (e.walletId = id)
  have hentries : c.shared.db.entriesOfWallet id ++ added = c'.shared.db.entriesOfWallet id :=
    hadded
  unfold Database.committedSince
  rw [← hentries, List.drop_left]

/-- The wallet that the first query reads. -/
theorem ReconcileWallet.step_recalculate {d : Database}
    (hread : ReconcileWallet.step P walletId d .begin = some (.recalculate wallet)) :
    ∃ r ∈ d.wallets, P.uuid walletId = some r.id ∧ wallet = toWalletDomain r := by
  dsimp only [ReconcileWallet.step] at hread
  split at hread
  · cases hread
  · rename_i id huuid
    split at hread
    · cases hread
    · rename_i found hfound
      obtain ⟨r, hlookup, rfl⟩ := Option.map_eq_some_iff.mp hfound
      obtain ⟨hr, rfl⟩ := lookup_mem hlookup
      exact ⟨r, hr, huuid, (ReconcileStage.recalculate.inj (Option.some.inj hread)).symm⟩

/-- The result of reading the wallet `r` and then a ledger that adds up to `moved` more. -/
def driftedResult (walletId : String) (r : WalletRow) (moved : Int) (checkedEntries : Nat) :
    ReconciliationResult where
  walletId := walletId
  storedBalance := ⟨r.balanceAmount, r.currency⟩
  calculatedBalance := ⟨r.balanceAmount + moved, r.currency⟩
  difference := ⟨r.balanceAmount - (r.balanceAmount + moved), r.currency⟩
  consistent := (Money.mk r.balanceAmount r.currency).equals ⟨r.balanceAmount + moved, r.currency⟩
  checkedEntries := checkedEntries

theorem ReconcileWallet.step_drifted {d : Database} {r : WalletRow} {moved : Int}
    (hcanonical : P.canonical walletId = r.id)
    (hcalculated : (d.recalculateBalance r.id r.currency).balance =
      ⟨r.balanceAmount + moved, r.currency⟩) :
    let result := driftedResult walletId r moved
      (d.recalculateBalance r.id r.currency).checkedEntries
    ReconcileWallet.step P walletId d (.recalculate (toWalletDomain r)) =
      some (.returned result (!result.consistent)) := by
  have hsubtract : (Money.mk r.balanceAmount r.currency).subtract
      ⟨r.balanceAmount + moved, r.currency⟩ = .ok _ := Money.subtract_eq rfl
  simp only [ReconcileWallet.step, hcanonical, toWalletDomain_currency, toWalletDomain_balance,
    hcalculated, hsubtract]
  rfl

theorem driftedResult_noDivergence {r : WalletRow} {moved : Int} {checkedEntries : Nat} :
    NoDivergence (driftedResult walletId r moved checkedEntries)
      (!(driftedResult walletId r moved checkedEntries).consistent) ↔ moved = 0 := by
  have hconsistent : (driftedResult walletId r moved checkedEntries).consistent = true ↔
      moved = 0 := by
    simp [driftedResult]
  constructor
  · intro hnone
    exact hconsistent.mp hnone.consistent
  · intro hmoved
    refine ⟨hconsistent.mpr hmoved, ?_, by rw [hconsistent.mpr hmoved]; rfl⟩
    simp [driftedResult, hmoved, Money.zero]

/-- A reconciliation whose queries read in the states of `c` and then of `c'` always returns; it
names no divergence exactly when the movements of the wallet in between sum to zero. -/
theorem reachable_reconciles (h : Reachable (step P) initial c) (h' : Reachable (step P) c c')
    (hread : ReconcileWallet.step P walletId c.shared.db .begin = some (.recalculate wallet)) :
    ∃ result counted, ReconcileWallet.step P walletId c'.shared.db (.recalculate wallet) =
        some (.returned result counted) ∧
      (NoDivergence result counted ↔
        ((c.shared.db.committedSince c'.shared.db wallet.id).map (·.signedAmount)).sum = 0) := by
  obtain ⟨r, hr, huuid, rfl⟩ := ReconcileWallet.step_recalculate hread
  have hcanonical := Platform.canonical_of_uuid huuid
  have hstored := AccountOk.sum ((reachable_consistent h).accounts r hr)
  have hcalculated := recalculateBalance_sum (d := c'.shared.db) r.id r.currency
  rw [reachable_committedSince h h' r.id, List.map_append, List.sum_append, hstored] at hcalculated
  exact ⟨_, _, ReconcileWallet.step_drifted hcanonical hcalculated, driftedResult_noDivergence⟩

def ReconcileStage.recalculating? : ReconcileStage → Option Wallet
  | .recalculate wallet => some wallet
  | .begin => none
  | .returned _ _ => none
  | .threw _ => none

def ReconcileStage.returned? : ReconcileStage → Option (ReconciliationResult × Bool)
  | .returned result counted => some (result, counted)
  | .begin => none
  | .recalculate _ => none
  | .threw _ => none

/-- The wallet that the first query of a reconciliation reads. -/
def firstRead (walletId : String) (d : Database) : Option Wallet :=
  (ReconcileWallet.step localPlatform walletId d .begin).bind ReconcileStage.recalculating?

/-- What a reconciliation returns with the second query. -/
def secondRead (walletId : String) (d : Database) (wallet : Wallet) :
    Option (ReconciliationResult × Bool) :=
  (ReconcileWallet.step localPlatform walletId d (.recalculate wallet)).bind
    ReconcileStage.returned?

theorem firstRead_eq {walletId : String} {d : Database} {wallet : Wallet}
    (h : firstRead walletId d = some wallet) :
    ReconcileWallet.step localPlatform walletId d .begin = some (.recalculate wallet) := by
  obtain ⟨stage, hstep, hread⟩ := Option.bind_eq_some_iff.mp h
  rw [hstep]
  cases stage with
  | recalculate wallet' => rw [Option.some.inj hread]
  | begin | returned | threw => cases hread

theorem secondRead_eq {walletId : String} {d : Database} {wallet : Wallet}
    {result : ReconciliationResult} {counted : Bool}
    (h : secondRead walletId d wallet = some (result, counted)) :
    ReconcileWallet.step localPlatform walletId d (.recalculate wallet) =
      some (.returned result counted) := by
  obtain ⟨stage, hstep, hread⟩ := Option.bind_eq_some_iff.mp h
  rw [hstep]
  cases stage with
  | returned result' counted' =>
    obtain ⟨rfl, rfl⟩ := Prod.mk.inj (Option.some.inj hread)
    rfl
  | begin | recalculate | threw => cases hread

/-- The bet of 30.00 commits between the two queries, so a consistent wallet is reported as
diverging by 30.00. -/
theorem tornReconciliation_diverges : ∃ c c' wallet result,
    Reachable (step localPlatform) initial c ∧ Reachable (step localPlatform) c c' ∧
      ReconcileWallet.step localPlatform (uuidText 10) c.shared.db .begin =
          some (.recalculate wallet) ∧
        ReconcileWallet.step localPlatform (uuidText 10) c'.shared.db (.recalculate wallet) =
            some (.returned result true) ∧
          result.consistent = false ∧ result.difference = ⟨3000, brl⟩ := by
  have hrun : (exec (step localPlatform) initial (runCall 0 (.openWallet openCommand) 1 6)).any
      (fun c => (exec (step localPlatform) c (runCall 1
        (.submit (submitCommand .bet "bet-1" none (uuidText 10))) 7 6)).any fun c' =>
          (firstRead (uuidText 10) c.shared.db).any fun wallet =>
            (secondRead (uuidText 10) c'.shared.db wallet).any fun out =>
              out.2 && !out.1.consistent && decide (out.1.difference = ⟨3000, brl⟩)) = true := by
    decide +kernel
  obtain ⟨c, hreach, hp⟩ := reachable_of_any hrun
  obtain ⟨c', hreach', hp'⟩ := reachable_of_any hp
  obtain ⟨wallet, hread, hp'⟩ := (Option.any_eq_true _ _).mp hp'
  obtain ⟨⟨result, counted⟩, hreturned, hp'⟩ := (Option.any_eq_true _ _).mp hp'
  simp only [Bool.and_eq_true, Bool.not_eq_true', decide_eq_true_eq] at hp'
  obtain ⟨⟨rfl, hconsistent⟩, hdifference⟩ := hp'
  exact ⟨c, c', wallet, result, hreach, hreach', firstRead_eq hread, secondRead_eq hreturned,
    hconsistent, hdifference⟩

/-- The bet of 30.00 and its refund commit between the two queries, so the wallet is found
consistent. -/
theorem straddledReconciliation_consistent : ∃ c c' wallet result counted,
    Reachable (step localPlatform) initial c ∧ Reachable (step localPlatform) c c' ∧
      ReconcileWallet.step localPlatform (uuidText 10) c.shared.db .begin =
          some (.recalculate wallet) ∧
        (c.shared.db.committedSince c'.shared.db wallet.id).map (·.signedAmount) = [-3000, 3000] ∧
          ReconcileWallet.step localPlatform (uuidText 10) c'.shared.db (.recalculate wallet) =
              some (.returned result counted) ∧ NoDivergence result counted := by
  have hrun : (exec (step localPlatform) initial (runCall 0 (.openWallet openCommand) 1 6)).any
      (fun c => (exec (step localPlatform) c
        (runCall 1 (.submit (submitCommand .bet "bet-1" none (uuidText 10))) 7 6 ++
          runCall 2 (.submit (submitCommand .refund "refund-1" (some "bet-1") (uuidText 10))) 13
            8)).any fun c' =>
          (firstRead (uuidText 10) c.shared.db).any fun wallet =>
            decide ((c.shared.db.committedSince c'.shared.db wallet.id).map (·.signedAmount) =
              [-3000, 3000])) = true := by
    decide +kernel
  obtain ⟨c, hreach, hp⟩ := reachable_of_any hrun
  obtain ⟨c', hreach', hp'⟩ := reachable_of_any hp
  obtain ⟨wallet, hread, hp'⟩ := (Option.any_eq_true _ _).mp hp'
  have hmoved := of_decide_eq_true hp'
  obtain ⟨result, counted, hreturned, hiff⟩ :=
    reachable_reconciles hreach hreach' (firstRead_eq hread)
  refine ⟨c, c', wallet, result, counted, hreach, hreach', firstRead_eq hread, hmoved, hreturned,
    hiff.mpr ?_⟩
  rw [hmoved]
  rfl

end WageringProcessor
