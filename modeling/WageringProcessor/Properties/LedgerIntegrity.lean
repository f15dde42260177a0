import WageringProcessor.Invariants.Reachable
import WageringProcessor.Runs
import Mathlib.Tactic.Ring

/-!
# The ledger is the balance

In every reachable state a wallet's balance is what its ledger entries add up to.  The entries of a
wallet are listed in the order in which they were committed, which is the order in which they were
applied, since a movement holds the wallet's lock until it commits.
-/

namespace WageringProcessor

open Library.Interleaving Library.Chain

variable {P : Platform} {c : Config Shared Proc} {d : Database} {w : WalletRow}

/-! ## The sum that `recalculateBalance` computes -/

theorem foldl_add_eq_sum {α : Type*} (f : α → Int) (l : List α) (a : Int) :
    l.foldl (fun total e => total + f e) a = a + (l.map f).sum := by
  induction l generalizing a with
  | nil => simp
  | cons e l ih => rw [List.foldl_cons, ih, List.map_cons, List.sum_cons, add_assoc]

theorem recalculateBalance_sum (walletId : Id) (currency : Currency) :
    (d.recalculateBalance walletId currency).balance =
      ⟨((d.entriesOfWallet walletId).map (·.signedAmount)).sum, currency⟩ := by
  have hsum := foldl_add_eq_sum (·.signedAmount) (d.entriesOfWallet walletId) 0
  rw [zero_add] at hsum
  rw [← hsum]
  rfl

theorem AccountOk.sum (h : AccountOk P d w) :
    ((d.entriesOfWallet w.id).map (·.signedAmount)).sum = w.balanceAmount := by
  have hchain := h.chain.map Money.minorUnits
  have hsum := hchain.sum fun e he => (h.balanced e he).moves
  simpa using hsum

/-! ## The wallets of a reachable state -/

structure LedgerIntegrity (d : Database) (w : WalletRow) : Prop where
  recalculated : (d.recalculateBalance w.id w.currency).balance = ⟨w.balanceAmount, w.currency⟩
  nonneg : 0 ≤ w.balanceAmount
  chain : Linked WalletLedgerEntry.balanceBefore WalletLedgerEntry.balanceAfter
    (Money.zero w.currency) (d.entriesOfWallet w.id) ⟨w.balanceAmount, w.currency⟩
  balanced : ∀ e ∈ d.entriesOfWallet w.id, e.isBalanced = .ok true ∧ 0 < e.money.minorUnits ∧
    e.money.currency = w.currency
  version : w.version =
    1 + (d.entriesOfWallet w.id).countP fun e => !d.isOpening e.transactionId

theorem AccountOk.ledgerIntegrity (h : AccountOk P d w) : LedgerIntegrity d w := by
  refine ⟨?_, h.nonneg, h.chain, fun e he => ?_, h.version⟩
  · rw [recalculateBalance_sum, h.sum]
  · have hbalanced := h.balanced e he
    exact ⟨hbalanced.isBalanced, hbalanced.positive, hbalanced.moneyCurrency⟩

/-- No interleaving of openings, submits, consumers and reprocess runs loses an update. -/
theorem reachable_ledgerIntegrity (h : Reachable (step P) initial c)
    (hw : w ∈ c.shared.db.wallets) : LedgerIntegrity c.shared.db w :=
  ((reachable_consistent h).accounts w hw).ledgerIntegrity

/-- 100.00 less a BET of 30.00, which is refunded and rolled back. -/
theorem refundAndRollback_ledgerIntegrity : ∃ c, Reachable (step localPlatform) initial c ∧
    ∃ w ∈ c.shared.db.wallets, w.balanceAmount = 13000 ∧ w.version = 4 ∧
      LedgerIntegrity c.shared.db w := by
  obtain ⟨c, hreach, hwallets, -⟩ := refundAndRollback_reaches
  obtain ⟨w, hw, hfacts⟩ : ∃ w ∈ c.shared.db.wallets, (w.balanceAmount, w.version) = (13000, 4) :=
    List.mem_map.mp (hwallets ▸ List.mem_cons_self)
  obtain ⟨hbalance, hversion⟩ := Prod.mk.inj hfacts
  exact ⟨c, hreach, w, hw, hbalance, hversion, reachable_ledgerIntegrity hreach hw⟩

end WageringProcessor
