import WageringProcessor.Runs
import WageringProcessor.UseCases.LedgerPages

/-!
# Reading a ledger to its end

A client that follows the cursor has read the entries of the wallet, each once, in the order of
their time and id.
-/

namespace WageringProcessor.Pagination

open Library.JsonText Library.Keyset

variable {P : CursorPlatform} {d : Database} {walletId : String} {id : Id} {limit : Option Nat}
  {fuel : Nat} {k : Date ×ₗ Id} {e : WalletLedgerEntry}

/-- The cursor of the row with the given columns. -/
def cursorOf (k : Date ×ₗ Id) : WageringProcessor.LedgerCursor := ⟨(ofLex k).1, (ofLex k).2⟩

/-- The database reads the columns of the row from the texts that the cursor has of them, and
`JSON.parse` reads what `JSON.stringify` printed. -/
structure ReadBack (P : CursorPlatform) (k : Date ×ₗ Id) : Prop where
  createdAt : P.timestamptz (toISOString (ofLex k).1) = some (ofLex k).1
  id : P.uuid (ofLex k).2 = some (ofLex k).2
  cursor : P.jsonParse (stringify (LedgerCursor.toJson ⟨toISOString (ofLex k).1, (ofLex k).2⟩)) =
    some (LedgerCursor.toJson ⟨toISOString (ofLex k).1, (ofLex k).2⟩)

theorem rowAfter_cursorText (h : ReadBack P k) :
    rowAfter P (some (cursorText (cursorOf k))) = .ok (some (cursorOf k)) := by
  have hdecoded : decodeCursor P (cursorText (cursorOf k)) =
      .ok ⟨toISOString (ofLex k).1, (ofLex k).2⟩ := decodeCursor_encodeCursor h.cursor
  unfold rowAfter
  simp only [if_neg (show cursorText (cursorOf k) ≠ "" from encodeCursor_ne_empty _), hdecoded,
    h.createdAt, h.id]
  rfl

/-- A page is asked for by the text of a row's columns. -/
theorem execute_eq {cursor : Option (Date ×ₗ Id)} (hwallet : P.uuid walletId = some id)
    (hcursor : ∀ k ∈ cursor, ReadBack P k) :
    execute P d ⟨walletId, cursor.map fun k => cursorText (cursorOf k), limit⟩ =
      .ok ⟨page (·.sortKey) cursor (limit.getD GetWalletLedger.DEFAULT_LIMIT)
          (d.entriesOfWallet id),
        (nextCursor (·.sortKey) (limit.getD GetWalletLedger.DEFAULT_LIMIT)
          (page (·.sortKey) cursor (limit.getD GetWalletLedger.DEFAULT_LIMIT)
            (d.entriesOfWallet id))).map fun k => cursorText (cursorOf k)⟩ := by
  have hafter : rowAfter P (cursor.map fun k => cursorText (cursorOf k)) =
      .ok (cursor.map cursorOf) := by
    cases cursor with
    | none => rfl
    | some k => exact rowAfter_cursorText (hcursor k rfl)
  have hkeys : (cursor.map cursorOf).map WageringProcessor.LedgerCursor.sortKey = cursor := by
    rw [Option.map_map]
    exact Option.map_id_apply
  unfold execute findPage Database.findPage
  simp only [hafter, hwallet, hkeys, Option.map_map]
  rfl

/-- The client reads the pages of the rows, whatever its cursor. -/
theorem readAll_eq {cursor : Option (Date ×ₗ Id)} (hwallet : P.uuid walletId = some id)
    (hrows : ∀ e ∈ d.entriesOfWallet id, ReadBack P e.sortKey)
    (hcursor : ∀ k ∈ cursor, ReadBack P k) :
    readAll P d walletId limit fuel (cursor.map fun k => cursorText (cursorOf k)) =
      (pages (·.sortKey) (limit.getD GetWalletLedger.DEFAULT_LIMIT) (d.entriesOfWallet id) fuel
        cursor).map .ok := by
  induction fuel generalizing cursor with
  | zero => rfl
  | succ fuel ih =>
    unfold readAll pages
    rw [execute_eq hwallet hcursor]
    cases hnext : nextCursor (·.sortKey) (limit.getD GetWalletLedger.DEFAULT_LIMIT)
        (page (·.sortKey) cursor (limit.getD GetWalletLedger.DEFAULT_LIMIT)
          (d.entriesOfWallet id)) with
    | none => simp only [Option.map_none, Option.map_some]
    | some next =>
      -- the next cursor is made of a row of this page
      obtain ⟨init, last, hpage, rfl⟩ := nextCursor_eq_some hnext
      have hlast : last ∈ d.entriesOfWallet id := mem_of_mem_page (hpage ▸ List.mem_append_right
        init List.mem_cons_self)
      have hrest := @ih (some last.sortKey) fun k hk => Option.some.inj hk ▸ hrows last hlast
      simp only [Option.map_some] at hrest ⊢
      rw [hrest, Option.map_map, Option.map_map]
      rfl

/-- Reading a ledger ends, and what has been read are the entries of the wallet in the order of
their time and id. -/
theorem readAll_complete (hwallet : P.uuid walletId = some id)
    (hdistinct : (d.ledgerEntries.map (·.id)).Nodup)
    (hrows : ∀ e ∈ d.entriesOfWallet id, ReadBack P e.sortKey)
    (hlimit : 1 ≤ limit.getD GetWalletLedger.DEFAULT_LIMIT)
    (hfuel : (d.entriesOfWallet id).length < fuel) :
    ∃ listed, readAll P d walletId limit fuel none = some (.ok listed) ∧
      listed.Perm (d.entriesOfWallet id) ∧
        listed.Pairwise (fun e e' => e.createdAt < e'.createdAt ∨
          e.createdAt = e'.createdAt ∧ e.id < e'.id) ∧
          ∀ e ∈ listed, e.walletId = id := by
  have hids : ((d.entriesOfWallet id).map (·.id)).Nodup :=
    hdistinct.sublist (List.filter_sublist.map _)
  have hkeys : ((d.entriesOfWallet id).map (·.sortKey)).Nodup :=
    List.Nodup.of_map (fun k => (ofLex k).2) (by rw [List.map_map]; exact hids)
  have hperm := List.perm_insertionSort (fun e e' => WalletLedgerEntry.sortKey e ≤ e'.sortKey)
    (d.entriesOfWallet id)
  refine ⟨(d.entriesOfWallet id).insertionSort fun e e' => e.sortKey ≤ e'.sortKey, ?_, hperm, ?_,
    fun e he => ?_⟩
  · have hread : readAll P d walletId limit fuel none = _ :=
      @readAll_eq _ _ _ _ _ _ none hwallet hrows fun k hk => by cases hk
    rw [pages_eq hkeys hlimit hfuel] at hread
    exact hread
  · exact (ordered_sort hkeys).imp fun hlt => Prod.Lex.lt_iff.mp hlt
  · exact of_decide_eq_true (List.mem_filter.mp (hperm.mem_iff.mp he)).2

/-! ## Entries of one time on two pages -/

def tiedEntry (n : Nat) (walletId : Id) (createdAt : Date) : WalletLedgerEntry where
  id := uuidText n
  walletId := walletId
  transactionId := uuidText (n + 40)
  direction := .credit
  money := ⟨100, brl⟩
  balanceBefore := ⟨0, brl⟩
  balanceAfter := ⟨100, brl⟩
  createdAt := createdAt

def tiedEntries : List WalletLedgerEntry :=
  [tiedEntry 21 (uuidText 10) 3000, tiedEntry 22 (uuidText 10) 2000,
    tiedEntry 25 (uuidText 11) 2000, tiedEntry 23 (uuidText 10) 2000,
    tiedEntry 24 (uuidText 10) 1000]

def tiedDatabase : Database := { Database.empty with ledgerEntries := tiedEntries }

def tiedCursors : List LedgerCursor :=
  tiedEntries.map fun e => ⟨toISOString e.createdAt, e.id⟩

def tiedPlatform : CursorPlatform where
  toPlatform := { localPlatform with
    jsonParse := fun text =>
      (tiedCursors.find? fun cursor => stringify cursor.toJson = text).map LedgerCursor.toJson }
  replacedText := fun bytes => String.ofList (bytes.map fun _ => Char.ofNat 65533)
  timestamptz := fun text =>
    (tiedEntries.find? fun e => toISOString e.createdAt = text).map (·.createdAt)

theorem tiedPlatform_jsonParse (text : String) : tiedPlatform.jsonParse text =
    (tiedCursors.find? fun cursor => stringify cursor.toJson = text).map LedgerCursor.toJson := rfl

theorem tied_readBack : ∀ e ∈ tiedEntries, ReadBack tiedPlatform e.sortKey := by
  have htimes : ∀ e ∈ tiedEntries,
      tiedPlatform.timestamptz (toISOString e.createdAt) = some e.createdAt := by decide +kernel
  have hids : ∀ e ∈ tiedEntries, tiedPlatform.uuid e.id = some e.id := by decide +kernel
  have hcursors : ∀ cursor ∈ tiedCursors,
      tiedCursors.find? (fun c => stringify c.toJson = stringify cursor.toJson) = some cursor := by
    decide +kernel
  intro e he
  have hcursor := hcursors ⟨toISOString e.createdAt, e.id⟩ (List.mem_map_of_mem he)
  have hparsed : tiedPlatform.jsonParse
      (stringify (LedgerCursor.toJson ⟨toISOString e.createdAt, e.id⟩)) =
        some (LedgerCursor.toJson ⟨toISOString e.createdAt, e.id⟩) := by
    rw [tiedPlatform_jsonParse, hcursor, Option.map_some]
  exact ⟨htimes e he, hids e he, hparsed⟩

/-- Four entries on pages of two: the entries of one time are on both pages, and the last page is
empty. -/
theorem tied_readAll_complete :
    ∃ listed, readAll tiedPlatform tiedDatabase (uuidText 10) (some 2) 5 none = some (.ok listed) ∧
      listed.Perm (tiedDatabase.entriesOfWallet (uuidText 10)) ∧
        listed.Pairwise (fun e e' => e.createdAt < e'.createdAt ∨
          e.createdAt = e'.createdAt ∧ e.id < e'.id) ∧
          ∀ e ∈ listed, e.walletId = uuidText 10 :=
  readAll_complete (by decide +kernel) (by decide +kernel)
    (fun e he => tied_readBack e (List.mem_of_mem_filter he)) (by decide) (by decide +kernel)

end WageringProcessor.Pagination
