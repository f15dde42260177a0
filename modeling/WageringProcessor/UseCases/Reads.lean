import WageringProcessor.Shared.Cursor
import WageringProcessor.UseCases.Shared

/-!
# GetWalletUseCase, GetWagerTransactionUseCase and the views

`get-wallet.use-case.ts` and `get-wager-transaction.use-case.ts`: one query each, outside any
database transaction.  The controllers answer with the views of what they find.
-/

namespace WageringProcessor

open Pagination (toISOString)

variable (P : Platform) (d : Database)

def GetWallet.execute (walletId : String) : Except Exception (Option Wallet) :=
  match P.uuid walletId with
  | none => .error .database
  | some id => .ok (d.findWallet id)

namespace GetWagerTransaction

end GetWagerTransaction

/-! ## The views -/

structure WalletView where
  id : String
  playerId : String
  currency : String
  balance : MoneyProps
  version : Nat
  createdAt : String
  updatedAt : String
deriving DecidableEq, Repr

structure WagerTransactionView where
  id : String
  providerId : String
  externalTransactionId : String
  walletId : String
  playerId : String
  roundId : String
  gameId : String
  kind : String
  money : MoneyProps
  status : String
  referenceTransactionId : Option String
  failureCode : Option String
  processedAt : Option String
  createdAt : String
deriving DecidableEq, Repr

end WageringProcessor
