import WageringProcessor.UseCases.Shared

/-!
# OpenWalletUseCase

`open-wallet.use-case.ts`, one stage for each statement sent to the database.
-/

namespace WageringProcessor

open Library.Interleaving (Pid)
open Library.Table

structure OpenWalletCommand where
  playerId : String
  initialBalance : Money
deriving DecidableEq, Repr

inductive OpenWalletStage
  | begin
  | insertWallet (now : Date) (wallet : Wallet)
  | claimKey (now : Date) (wallet : Wallet) (tx : WagerTransaction)
  | claimExternal (now : Date) (wallet : Wallet) (tx : WagerTransaction)
  | insertEntry (now : Date) (wallet : Wallet) (tx : WagerTransaction)
  | commit (writes : List Writes) (wallet : Wallet)
  | returned (wallet : Wallet)
  | threw (err : Exception)
deriving DecidableEq, Repr

namespace OpenWallet

variable (P : Platform) (cmd : OpenWalletCommand) (i : Pid)

def walletWrites (wallet : Wallet) : Writes := { wallets := [toWalletEntity P wallet] }

/-- The CREDIT of the initial balance, from a balance that is the initial one less itself. -/
def openingEntry (id : Id) (wallet : Wallet) (tx : WagerTransaction) (now : Date) :
    Except DomainError WalletLedgerEntry := do
  let balanceBefore ← cmd.initialBalance.subtract cmd.initialBalance
  WalletLedgerEntry.create
    ⟨id, wallet.id, tx.id, .credit, cmd.initialBalance, balanceBefore, cmd.initialBalance, now⟩

def openingWrites (wallet : Wallet) (tx : WagerTransaction) (entry : WalletLedgerEntry)
    (ctx : EventContext) (newId : Nat → Id) : Writes where
  wagerTransactions := [toWagerTransactionEntity P tx]
  ledgerEntries := [entry]
  outboxMessages :=
    [.enqueue (WagerTransactionProcessed.from tx cmd.initialBalance ctx (newId 2)),
      .enqueue (WalletBalanceChanged.from wallet entry ctx (newId 3))]

/-- A `UniqueConstraintViolationException` leaves as `DuplicateWalletError`. -/
def toThrown : Exception → Exception
  | .uniqueConstraintViolation =>
    .domain (.duplicateWallet cmd.playerId cmd.initialBalance.currency.code)
  | err => err

def abort (s : Shared) (err : Exception) : Shared × OpenWalletStage :=
  (s.rollback i, .threw (toThrown cmd err))

def playerHasWallet (d : Database) (wallet : Wallet) : Bool :=
  d.wallets.any fun row => row.playerId = P.canonical wallet.playerId &&
    row.currency = wallet.currency

def step (inp : Input) (s : Shared) : OpenWalletStage → Option (Shared × OpenWalletStage)
  | .begin => do
    let s ← s.draw i P [inp.newId 0]
    return (s, .insertWallet inp.now
      (Wallet.open (inp.newId 0) cmd.playerId cmd.initialBalance inp.now))
  -- the first `flush`, which waits for an opening of the same player and currency
  | .insertWallet now wallet =>
    if P.uuid wallet.playerId = none || Database.violatesCheck (walletWrites P wallet) then
      some (abort cmd i s .database)
    else do
      let s ← s.take i [.playerCurrency (P.canonical wallet.playerId) wallet.currency]
      if playerHasWallet P s.db wallet then
        return abort cmd i s .uniqueConstraintViolation
      -- a wallet that is opened empty has no opening transaction
      else if cmd.initialBalance.isPositive then
        let s ← s.draw i P [inp.newId 0]
        return (s, .claimKey now wallet
          (.createOpening (inp.newId 0) wallet.id cmd.playerId cmd.initialBalance now))
      else
        return (s, .commit [walletWrites P wallet] wallet)
  -- the second `flush`, one index at a time
  | .claimKey now wallet tx => do
    let s ← s.take i [.idempotencyKey tx.idempotencyKey]
    if (s.db.findByIdempotencyKey tx.idempotencyKey).isSome then
      return abort cmd i s .uniqueConstraintViolation
    else
      return (s, .claimExternal now wallet tx)
  | .claimExternal now wallet tx => do
    let s ← s.take i [.external tx.providerId tx.externalTransactionId]
    if (s.db.findByProviderAndExternalId tx.providerId tx.externalTransactionId).isSome then
      return abort cmd i s .uniqueConstraintViolation
    else
      return (s, .insertEntry now wallet tx)
  -- the flush of the commit
  | .insertEntry now wallet tx => do
    let s ← s.draw i P [inp.newId 0, inp.newId 1, inp.newId 2, inp.newId 3]
    match openingEntry cmd (inp.newId 0) wallet tx now with
    | .error err => return abort cmd i s (.domain err)
    | .ok entry =>
      let writes := openingWrites P cmd wallet tx entry ⟨inp.newId 1, none, now⟩ inp.newId
      match (s.db.apply (walletWrites P wallet)).flush writes with
      | .error err => return abort cmd i s err
      | .ok () => return (s, .commit [walletWrites P wallet, writes] wallet)
  | .commit writes wallet => some (s.commit i writes, .returned wallet)
  | .returned _ => none
  | .threw _ => none

end OpenWallet

end WageringProcessor
