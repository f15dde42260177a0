import WageringProcessor.Persistence.Database

/-!
# What the columns hold

The limits of the column types of the migrations on texts and numbers.  What the code forms itself
fits its column: uuids, dates, digests, currencies, the names of kinds, statuses, codes and events,
and the number of attempts of a reference.  The tables of `Database` have no limits, so a statement
whose rows do not fit is one that fails before it comes to them.
-/

namespace WageringProcessor

/-- The database refuses the character NUL in a text, and its escape in the text of a value. -/
def isText (s : String) : Bool := s.toList.all fun c => c.toNat ≠ 0

/-- `varchar(n)`.  From a longer text the database cuts off blanks at its end, and nothing else; the
tables keep such a text whole. -/
def fitsVarchar (n : Nat) (s : String) : Bool :=
  isText s && (s.toList.drop n).all fun c => c = ' '

/-- `bigint` with a check for negative amounts. -/
def fitsBigint (n : Int) : Bool := 0 ≤ n && n ≤ 2 ^ 63 - 1

/-- `integer`, for a number that is not negative. -/
def fitsInteger (n : Nat) : Bool := n ≤ 2 ^ 31 - 1

@[simp] theorem fitsBigint_iff {n : Int} : fitsBigint n = true ↔ 0 ≤ n ∧ n ≤ 2 ^ 63 - 1 := by
  rw [fitsBigint, Bool.and_eq_true, decide_eq_true_eq, decide_eq_true_eq]

theorem isText_of_fitsVarchar {n : Nat} {s : String} (h : fitsVarchar n s = true) :
    isText s = true := (Bool.and_eq_true_iff.mp h).1

/-! ## The rows -/

def WalletRow.fits (row : WalletRow) : Bool :=
  fitsBigint row.balanceAmount && fitsInteger row.version

def WagerTransaction.fits (t : WagerTransaction) : Bool :=
  fitsVarchar 128 t.providerId && fitsVarchar 256 t.externalTransactionId &&
    fitsVarchar 512 t.idempotencyKey && fitsVarchar 256 t.roundId && fitsVarchar 256 t.gameId &&
      fitsBigint t.money.minorUnits && t.referenceExternalTransactionId.all (fitsVarchar 256)

def WalletLedgerEntry.fits (e : WalletLedgerEntry) : Bool :=
  fitsBigint e.money.minorUnits && fitsBigint e.balanceBefore.minorUnits &&
    fitsBigint e.balanceAfter.minorUnits

def WagerTransactionData.texts (tx : WagerTransactionData) : List String :=
  [tx.providerId, tx.externalTransactionId, tx.playerId, tx.walletId, tx.roundId, tx.gameId]

def EventData.texts : EventData → List String
  | wagerTransactionProcessed tx _ | wagerTransactionRejected tx _ => tx.texts
  | wagerTransactionPendingReference tx reference => tx.texts ++ reference.toList
  | walletBalanceChanged _ _ _ _ _ _ _ => []

/-- The texts of an event that the code has not formed itself. -/
def IntegrationEvent.texts (e : IntegrationEvent) : List String :=
  e.aggregateId :: e.correlationId :: (e.causationId.toList ++ e.data.texts)

def OutboxMessage.fits (m : OutboxMessage) : Bool :=
  fitsVarchar 256 m.aggregateId && m.payload.texts.all isText && fitsInteger m.attempts

def InboxMessage.fits (m : InboxMessage) : Bool := fitsVarchar 256 m.messageId

def Writes.fits (w : Writes) : Bool :=
  w.wallets.all WalletRow.fits && w.wagerTransactions.all WagerTransaction.fits &&
    w.ledgerEntries.all WalletLedgerEntry.fits && w.outboxMessages.all OutboxMessage.fits &&
      w.inboxMessages.all InboxMessage.fits

end WageringProcessor
