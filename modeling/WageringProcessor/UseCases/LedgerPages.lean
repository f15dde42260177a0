import WageringProcessor.Shared.Cursor
import WageringProcessor.UseCases.GetWalletLedger

/-!
# The pages of the ledger as clients see them

`findPage` of the ledger's repository and the use case over it, with cursors as the texts that
clients hold.  `Database.findPage` is the query that they send.
-/

namespace WageringProcessor.Pagination

structure LedgerPage where
  entries : List WalletLedgerEntry
  nextCursor : Option String
deriving DecidableEq, Repr

structure GetWalletLedgerQuery where
  walletId : String
  cursor : Option String
  limit : Option Nat
deriving DecidableEq, Repr

variable (P : CursorPlatform) (d : Database)

/-- The parameters of `(e.created_at, e.id) > (?, ?)`.  The empty text is no cursor. -/
def rowAfter (cursor : Option String) : Except Exception (Option WageringProcessor.LedgerCursor) :=
  match cursor with
  | none => .ok none
  | some value =>
    if value = "" then
      .ok none
    else
      match decodeCursor P value with
      | .error err => .error (.domain err)
      | .ok decoded =>
        match P.timestamptz decoded.createdAt, P.uuid decoded.id with
        | some createdAt, some id => .ok (some ⟨createdAt, id⟩)
        | _, _ => .error .database

/-- The text that the last row of a full page is encoded to. -/
def cursorText (last : WageringProcessor.LedgerCursor) : String :=
  encodeCursor ⟨toISOString last.createdAt, last.id⟩

def findPage (walletId : String) (cursor : Option String) (limit : Nat) :
    Except Exception LedgerPage :=
  match rowAfter P cursor with
  | .error e => .error e
  | .ok after =>
    match P.uuid walletId with
    | none => .error .database
    | some id =>
      let page := d.findPage id after limit
      .ok ⟨page.entries, page.nextCursor.map cursorText⟩

def execute (query : GetWalletLedgerQuery) : Except Exception LedgerPage :=
  findPage P d query.walletId query.cursor (query.limit.getD GetWalletLedger.DEFAULT_LIMIT)

/-- A client that asks for a page, and for the next one until a page comes without a cursor.  It
gives up, with `none`, after `fuel` pages. -/
def readAll (walletId : String) (limit : Option Nat) :
    Nat → Option String → Option (Except Exception (List WalletLedgerEntry))
  | 0, _ => none
  | fuel + 1, cursor =>
    match execute P d ⟨walletId, cursor, limit⟩ with
    | .error e => some (.error e)
    | .ok page =>
      match page.nextCursor with
      | none => some (.ok page.entries)
      | some next => (readAll walletId limit fuel (some next)).map (·.map (page.entries ++ ·))

end WageringProcessor.Pagination
