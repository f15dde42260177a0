import WageringProcessor.UseCases.Shared

/-!
# ReconcileWalletUseCase

`reconcile-wallet.use-case.ts`: two queries outside any database transaction, so each sees what is
committed when it runs.
-/

namespace WageringProcessor

structure ReconciliationResult where
  walletId : String
  storedBalance : Money
  calculatedBalance : Money
  difference : Money
  consistent : Bool
  checkedEntries : Nat
deriving DecidableEq, Repr

/-- `counted`: the call incremented `reconciliation_mismatches_total`. -/
inductive ReconcileStage
  | begin
  | recalculate (wallet : Wallet)
  | returned (result : ReconciliationResult) (counted : Bool)
  | threw (err : Exception)
deriving DecidableEq, Repr

namespace ReconcileWallet

variable (P : Platform) (walletId : String) (d : Database)

def step : ReconcileStage → Option ReconcileStage
  | .begin =>
    match P.uuid walletId with
    | none => some (.threw .database)
    | some id =>
      match d.findWallet id with
      | none => some (.threw (.domain (.walletNotFound walletId)))
      | some wallet => some (.recalculate wallet)
  | .recalculate wallet =>
    -- a movement may have been committed since the wallet was read
    let recalculated := d.recalculateBalance (P.canonical walletId) wallet.currency
    let consistent := wallet.balance.equals recalculated.balance
    match wallet.balance.subtract recalculated.balance with
    | .error err => some (.threw (.domain err))
    | .ok difference =>
      some (.returned ⟨walletId, wallet.balance, recalculated.balance, difference, consistent,
        recalculated.checkedEntries⟩ (!consistent))
  | .returned _ _ => none
  | .threw _ => none

end ReconcileWallet

end WageringProcessor
