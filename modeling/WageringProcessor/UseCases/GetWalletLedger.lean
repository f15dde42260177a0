import WageringProcessor.Library.Keyset
import WageringProcessor.UseCases.Shared
import Mathlib.Data.Prod.Lex
import Mathlib.Data.String.Basic

/-!
# GetWalletLedgerUseCase

`get-wallet-ledger.use-case.ts` and `findPage` of the ledger's repository: one query outside any
database transaction.  A cursor stands for its encoded text, and canonical ids are in the order of
the `uuid` type.
-/

namespace WageringProcessor

open Library.Keyset

structure LedgerCursor where
  createdAt : Date
  id : Id
deriving DecidableEq, Repr

/-- The columns that the statement is ordered by. -/
def WalletLedgerEntry.sortKey (e : WalletLedgerEntry) : Date ×ₗ Id := toLex (e.createdAt, e.id)

def LedgerCursor.sortKey (cursor : LedgerCursor) : Date ×ₗ Id := toLex (cursor.createdAt, cursor.id)

@[simp] theorem LedgerCursor.sortKey_ofLex (k : Date ×ₗ Id) :
    LedgerCursor.sortKey ⟨(ofLex k).1, (ofLex k).2⟩ = k := rfl

structure LedgerPage where
  entries : List WalletLedgerEntry
  nextCursor : Option LedgerCursor
deriving DecidableEq, Repr

def Database.findPage (d : Database) (walletId : Id) (cursor : Option LedgerCursor) (limit : Nat) :
    LedgerPage :=
  let rows := page (·.sortKey) (cursor.map LedgerCursor.sortKey) limit (d.entriesOfWallet walletId)
  ⟨rows, (nextCursor (·.sortKey) limit rows).map fun k => ⟨(ofLex k).1, (ofLex k).2⟩⟩

structure GetWalletLedgerQuery where
  walletId : String
  cursor : Option LedgerCursor
  limit : Option Nat
deriving DecidableEq, Repr

namespace GetWalletLedger

def DEFAULT_LIMIT : Nat := 50

def execute (P : Platform) (d : Database) (query : GetWalletLedgerQuery) :
    Except Exception LedgerPage :=
  match P.uuid query.walletId with
  | none => .error .database
  | some id => .ok (d.findPage id query.cursor (query.limit.getD DEFAULT_LIMIT))

end GetWalletLedger

end WageringProcessor
