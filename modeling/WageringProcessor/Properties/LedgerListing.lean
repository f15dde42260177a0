import WageringProcessor.Invariants.Dating
import WageringProcessor.Properties.Consumption
import WageringProcessor.Runs

/-!
# The order of the ledger statement

The chain of a wallet is built under the lock of the wallet, while an entry is dated by the clock
that its call read before it had the lock, once for a whole batch of reprocessing.  The statement
is the chain in every run in which a reading is not before the entries that the wallet has when its
lock is taken, and an id drawn under the lock is after those with the same reading.
-/

namespace WageringProcessor

open Library.Chain Library.Interleaving Library.Keyset Library.Table

variable {P : Platform} {c : Config Shared Proc} {d : Database} {walletId : Id} {limit : Option Nat}
  {listed : List WalletLedgerEntry}
  {cursor : Option LedgerCursor}

/-! ## The order of the entries -/

theorem reach_before (h : Reach (step P) (Timely P) initial c) :
    c.shared.db.ledgerEntries.Pairwise WalletLedgerEntry.Before := (reach_dated h).1

theorem ordered_entriesOfWallet (h : d.ledgerEntries.Pairwise WalletLedgerEntry.Before) :
    Ordered (·.sortKey) (d.entriesOfWallet walletId) := by
  have hbefore : (d.entriesOfWallet walletId).Pairwise WalletLedgerEntry.Before := h.filter _
  refine hbefore.imp_of_mem fun {e e'} he he' hlt => hlt ?_
  have hwallet : e.walletId = walletId := of_decide_eq_true (List.mem_filter.mp he).2
  have hwallet' : e'.walletId = walletId := of_decide_eq_true (List.mem_filter.mp he').2
  rw [hwallet, hwallet']

/-! ## The statement -/

/-- All entries of the wallet on one page. -/
def Database.statement (d : Database) (walletId : Id) : List WalletLedgerEntry :=
  (d.findPage walletId none (d.entriesOfWallet walletId).length).entries

/-- The statement lists the movements of the wallet as they were applied, each from the balance that
the one before it left. -/
structure ListedInOrder (d : Database) (walletId : Id) : Prop where
  applied : d.statement walletId = d.entriesOfWallet walletId
  chained : (d.statement walletId).IsChain fun e e' => e.balanceAfter = e'.balanceBefore

instance : Decidable (ListedInOrder d walletId) :=
  decidable_of_iff (_ ∧ _) ⟨fun h => ⟨h.1, h.2⟩, fun h => ⟨h.applied, h.chained⟩⟩

/-- A client that has read `listed`, a page at a time, and has `cursor` to go on from.  The pages
are read in states of one run, the last one in the state of `c`. -/
inductive Reads (P : Platform) (walletId : Id) (limit : Option Nat) :
    Config Shared Proc → List WalletLedgerEntry → Option LedgerCursor → Prop
  | first {c : Config Shared Proc} {page : LedgerPage} (run : Reach (step P) (Timely P) initial c)
      (read : GetWalletLedger.execute P c.shared.db ⟨walletId, none, limit⟩ = .ok page) :
      Reads P walletId limit c page.entries page.nextCursor
  | next {c c' : Config Shared Proc} {listed : List WalletLedgerEntry} {cursor : LedgerCursor}
      {page : LedgerPage} (reads : Reads P walletId limit c listed (some cursor))
      (run : Reach (step P) (Timely P) c c')
      (read : GetWalletLedger.execute P c'.shared.db ⟨walletId, some cursor, limit⟩ = .ok page) :
      Reads P walletId limit c' (listed ++ page.entries) page.nextCursor

theorem ListedInOrder.of_ordered (hc : Consistent P d)
    (h : Ordered (·.sortKey) (d.entriesOfWallet walletId)) : ListedInOrder d walletId := by
  have happlied : d.statement walletId = d.entriesOfWallet walletId := by
    show page _ none _ _ = _
    rw [page_first h, List.take_length]
  refine ⟨happlied, happlied ▸ ?_⟩
  cases hentries : d.entriesOfWallet walletId with
  | nil => exact .nil
  | cons e rest =>
    have hmem : e ∈ d.entriesOfWallet walletId := hentries ▸ List.mem_cons_self
    obtain ⟨hrow, hwallet⟩ := List.mem_filter.mp hmem
    obtain ⟨w, hw, hid⟩ := hc.entry_wallet hrow
    have hchain := (hc.accounts w hw).chain
    rw [hid, of_decide_eq_true hwallet, hentries] at hchain
    exact hchain.isChain

/-! ## A client that follows the cursor -/

/-- The client has read the movements of the wallet from the first one on, and goes on after the
last one that it has read; without a cursor it has read all. -/
structure Reading (d : Database) (walletId : Id) (limit : Nat) (listed : List WalletLedgerEntry)
    (cursor : Option LedgerCursor) : Prop where
  read : listed <+: d.entriesOfWallet walletId
  last : ∀ k ∈ cursor, ∃ pre e, listed = pre ++ [e] ∧ k.sortKey = e.sortKey
  complete : 0 < limit → cursor = none → listed = d.entriesOfWallet walletId

theorem Reading.first {n : Nat} (h : Ordered (·.sortKey) (d.entriesOfWallet walletId)) :
    Reading d walletId n (d.findPage walletId none n).entries
      (d.findPage walletId none n).nextCursor := by
  have hpage : (d.findPage walletId none n).entries = (d.entriesOfWallet walletId).take n :=
    page_first h
  refine ⟨hpage ▸ List.take_prefix n _, fun k hk => ?_, fun hn hnone => ?_⟩
  · obtain ⟨_, hnext, rfl⟩ := Option.map_eq_some_iff.mp hk
    exact nextCursor_eq_some hnext
  · have hshort := nextCursor_eq_none hn (page_length none) (Option.map_eq_none_iff.mp hnone)
    rw [page_first h, List.length_take] at hshort
    rw [hpage, List.take_of_length_le (by omega)]

/-- A later page goes on where the one before it ended. -/
theorem Reading.next {d' : Database} {n : Nat} {k : LedgerCursor}
    (h : Reading d walletId n listed (some k))
    (hle : d.entriesOfWallet walletId <+: d'.entriesOfWallet walletId)
    (hd' : Ordered (·.sortKey) (d'.entriesOfWallet walletId)) :
    Reading d' walletId n (listed ++ (d'.findPage walletId (some k) n).entries)
      (d'.findPage walletId (some k) n).nextCursor := by
  obtain ⟨pre, e, rfl, hk⟩ := h.last k rfl
  have hread : pre ++ [e] <+: d'.entriesOfWallet walletId := h.read.trans hle
  have hpage : (d'.findPage walletId (some k) n).entries =
      page (·.sortKey) (some e.sortKey) n (d'.entriesOfWallet walletId) := hk ▸ rfl
  refine ⟨hpage ▸ append_page_prefix hd' hread, fun k' hk' => ?_, fun hn hnone => ?_⟩
  · obtain ⟨_, hnext, rfl⟩ := Option.map_eq_some_iff.mp hk'
    obtain ⟨init, last, hrows, hlast⟩ := nextCursor_eq_some hnext
    have hentries : (d'.findPage walletId (some k) n).entries = init ++ [last] := hrows
    refine ⟨pre ++ [e] ++ init, last, ?_, hlast⟩
    rw [hentries, ← List.append_assoc]
  · have hshort := nextCursor_eq_none hn (page_length _) (Option.map_eq_none_iff.mp hnone)
    rw [hpage]
    refine append_page_eq hd' hread ?_
    rw [← hpage]
    exact hshort

theorem execute_ok {walletId : String} {page : LedgerPage}
    (h : GetWalletLedger.execute P d ⟨walletId, cursor, limit⟩ = .ok page) :
    page = d.findPage (P.canonical walletId) cursor (limit.getD GetWalletLedger.DEFAULT_LIMIT) := by
  unfold GetWalletLedger.execute at h
  split at h
  · cases h
  · rename_i id huuid
    rw [Platform.canonical_of_uuid huuid]
    exact (Except.ok.inj h).symm

/-- All pages of the client are of one run, and each shows a state later than the one before it. -/
theorem Reads.reading {walletId : String} (h : Reads P walletId limit c listed cursor) :
    Reach (step P) (Timely P) initial c ∧ Reading c.shared.db (P.canonical walletId)
      (limit.getD GetWalletLedger.DEFAULT_LIMIT) listed cursor := by
  induction h with
  | first run read =>
    obtain rfl := execute_ok read
    exact ⟨run, .first (ordered_entriesOfWallet (reach_before run))⟩
  | next _ run read ih =>
    obtain rfl := execute_ok read
    have hrun := ih.1.trans run
    exact ⟨hrun, ih.2.next ((reachable_ledger ih.1.reachable run.reachable).filter _)
      (ordered_entriesOfWallet (reach_before hrun))⟩

/-- In a run whose readings of the clock and ids come later under each lock, every statement lists
the movements of its wallet in the order in which they were applied, and a client that follows the
cursor has read whatever is not behind it. -/
theorem reach_listedInOrder (h : Reach (step P) (Timely P) initial c) :
    (∀ walletId, ListedInOrder c.shared.db walletId) ∧
      ∀ walletId limit listed cursor c₁, Reads P walletId limit c₁ listed cursor →
        Reach (step P) (Timely P) c₁ c →
          (0 < limit.getD GetWalletLedger.DEFAULT_LIMIT → cursor = none →
            listed = c₁.shared.db.entriesOfWallet (P.canonical walletId)) ∧
          listed <+: c.shared.db.entriesOfWallet (P.canonical walletId) ∧
            ∀ k ∈ cursor, ∀ e ∈ c.shared.db.entriesOfWallet (P.canonical walletId),
              e.sortKey ≤ k.sortKey → e ∈ listed := by
  have hordered : ∀ walletId, Ordered (·.sortKey) (c.shared.db.entriesOfWallet walletId) :=
    fun _ => ordered_entriesOfWallet (reach_before h)
  refine ⟨fun walletId => .of_ordered (reachable_consistent h.reachable) (hordered walletId), ?_⟩
  intro walletId limit listed cursor c₁ hreads hrun
  obtain ⟨hrun₁, hreading⟩ := hreads.reading
  have hprefix : listed <+: c.shared.db.entriesOfWallet (P.canonical walletId) :=
    hreading.read.trans ((reachable_ledger hrun₁.reachable hrun.reachable).filter _)
  refine ⟨hreading.complete, hprefix, fun k hk e he hle => ?_⟩
  obtain ⟨pre, last, rfl, hlast⟩ := hreading.last k hk
  obtain ⟨post, hpost⟩ := hprefix
  have hrows := hordered (P.canonical walletId)
  rw [← hpost] at hrows he
  rcases List.mem_append.mp he with he | he
  · exact he
  · have hafter := (List.pairwise_append.mp hrows).2.2 last (List.mem_append_right pre
      List.mem_cons_self) e he
    rw [hlast] at hle
    exact absurd hle (not_le.mpr hafter)

/-- A client reads the opening on a page of one entry, and goes on after the bet. -/
theorem openAndBet_listedInOrder : ∃ c₁ c listed cursor,
    Reads localPlatform (uuidText 10) (some 1) c₁ listed (some cursor) ∧
      Reach (step localPlatform) (Timely localPlatform) c₁ c ∧
        (c.shared.db.statement (uuidText 10)).map (·.createdAt) = [1000, 7000] ∧
          ListedInOrder c.shared.db (uuidText 10) ∧
            listed <+: c.shared.db.entriesOfWallet (localPlatform.canonical (uuidText 10)) := by
  have hrun : (execIf (step localPlatform) (Timely localPlatform) initial
      (runCall 0 (.openWallet openCommand) 1 6)).any (fun c₁ =>
        (c₁.shared.db.findPage (uuidText 10) none 1).nextCursor.isSome &&
          (execIf (step localPlatform) (Timely localPlatform) c₁ (runCall 1
            (.submit (submitCommand .bet "bet-1" none (uuidText 10))) 7 6)).any fun c =>
              decide ((c.shared.db.statement (uuidText 10)).map (·.createdAt) = [1000, 7000])) =
      true := by
    decide +kernel
  have huuid : localPlatform.uuid (uuidText 10) = some (uuidText 10) := by decide +kernel
  obtain ⟨c₁, hreach₁, hp⟩ := reach_of_any hrun
  obtain ⟨hcursor, hp⟩ := Bool.and_eq_true_iff.mp hp
  obtain ⟨cursor, hsome⟩ := Option.isSome_iff_exists.mp hcursor
  obtain ⟨c, hreach, hdates⟩ := reach_of_any hp
  have hread : GetWalletLedger.execute localPlatform c₁.shared.db ⟨uuidText 10, none, some 1⟩ =
      .ok (c₁.shared.db.findPage (uuidText 10) none 1) := by
    unfold GetWalletLedger.execute
    rw [huuid]
    rfl
  have hreads := hsome ▸ Reads.first hreach₁ hread
  obtain ⟨hlisted, hfollowed⟩ := reach_listedInOrder (hreach₁.trans hreach)
  exact ⟨c₁, c, _, cursor, hreads, hreach, of_decide_eq_true hdates, hlisted _,
    (hfollowed _ _ _ _ _ hreads hreach).2.1⟩

/-- A bet that read the clock at 7000 has the wallet after one that read it at 8000: the statement
breaks the chain, and a client that had reached the later bet never sees the earlier one. -/
theorem laterBet_listedFirst : ∃ c c' cursor e,
    Reachable (step localPlatform) initial c ∧ Reachable (step localPlatform) c c' ∧
      (c.shared.db.findPage (uuidText 10) none 2).nextCursor = some cursor ∧
        c'.shared.db.findPage (uuidText 10) (some cursor) 2 = ⟨[], none⟩ ∧
          e ∈ c'.shared.db.entriesOfWallet (uuidText 10) ∧
            e ∉ (c.shared.db.findPage (uuidText 10) none 2).entries ∧
              ¬ListedInOrder c'.shared.db (uuidText 10) ∧
                (c'.shared.db.statement (uuidText 10)).map (fun e =>
                  (e.createdAt, e.balanceBefore.minorUnits, e.balanceAfter.minorUnits)) =
                    [(1000, 0, 10000), (7000, 7000, 4000), (8000, 10000, 7000)] := by
  have hrun : (exec (step localPlatform) initial (runCall 0 (.openWallet openCommand) 1 6 ++
      runCall 1 (.submit (submitCommand .bet "bet-1" none (uuidText 10))) 7 1 ++
        runCall 2 (.submit (submitCommand .bet "bet-2" none (uuidText 10))) 8 6)).any (fun c =>
          (exec (step localPlatform) c (steps 1 14 5)).any fun c' =>
            let page := c.shared.db.findPage (uuidText 10) none 2
            page.nextCursor.any (fun cursor =>
              decide (c'.shared.db.findPage (uuidText 10) (some cursor) 2 = ⟨[], none⟩)) &&
            (c'.shared.db.entriesOfWallet (uuidText 10)).any (fun e => decide (e ∉ page.entries)) &&
            decide (¬ListedInOrder c'.shared.db (uuidText 10) ∧
              (c'.shared.db.statement (uuidText 10)).map (fun e =>
                (e.createdAt, e.balanceBefore.minorUnits, e.balanceAfter.minorUnits)) =
                  [(1000, 0, 10000), (7000, 7000, 4000), (8000, 10000, 7000)])) = true := by
    decide +kernel
  obtain ⟨c, hreach, hp⟩ := reachable_of_any hrun
  obtain ⟨c', hreach', hp'⟩ := reachable_of_any hp
  simp only [Bool.and_eq_true, List.any_eq_true, Option.any_eq_true, decide_eq_true_eq] at hp'
  obtain ⟨⟨⟨cursor, hcursor, hlast⟩, e, he, hskipped⟩, hlisted, hstatement⟩ := hp'
  exact ⟨c, c', cursor, e, hreach, hreach', hcursor, hlast, he, hskipped, hlisted, hstatement⟩

end WageringProcessor
