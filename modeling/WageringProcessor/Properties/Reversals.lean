import WageringProcessor.Invariants.Reachable
import WageringProcessor.Runs
import Mathlib.Logic.Relation
import Mathlib.Tactic.Ring

/-!
# Reversals

What a PROCESSED REFUND or ROLLBACK undoes, that chains of references are short, and what all the
reversals of one BET add up to.
-/

namespace WageringProcessor

open Library.Interleaving Library.Table Relation

variable {P : Platform} {c : Config Shared Proc} {d : Database} {t t' b q : WagerTransaction}

/-! ## What a reversal undoes -/

/-- The movement of `r` cancels the movement of `b`, in the same wallet. -/
structure Cancels (d : Database) (r b : WagerTransaction) : Prop where
  entries : ∃ e e', d.entriesOf r.id = [e] ∧ d.entriesOf b.id = [e'] ∧
    e.walletId = r.walletId ∧ e'.walletId = r.walletId ∧ e.money = e'.money ∧
      e.direction = e'.direction.flip

structure UndoneBy (d : Database) (r b : WagerTransaction) : Prop where
  row : b ∈ d.wagerTransactions
  referenceId : r.referenceTransactionId = some b.id
  processed : b.status = .processed
  reference : r.referenceExternalTransactionId = some b.externalTransactionId
  providerId : b.providerId = r.providerId
  playerId : b.playerId = r.playerId
  walletId : b.walletId = r.walletId
  roundId : b.roundId = r.roundId
  money : b.money = r.money
  refund : r.kind = .refund → b.kind = .bet
  rollback : r.kind = .rollback → b.kind = .bet ∨ b.kind = .win ∨ b.kind = .refund
  cancels : Cancels d r b

theorem Consistent.moved (h : Consistent P d) (ht : t ∈ d.wagerTransactions)
    (hp : t.status = .processed) (hk : t.requiresReference = true) :
    ∃ e, d.entriesOf t.id = [e] ∧ EntryFor t e := by
  refine (h.rows t ht).moved ⟨hp, ?_⟩
  rcases WagerTransaction.requiresReference_iff.mp hk with hk | hk <;> simp [hk]

/-- The movement that the kind of a reference makes is the one that its reversal undoes. -/
theorem EntryFor.undo {e : WalletLedgerEntry} (h : EntryFor b e)
    (hk : b.kind = .bet ∨ b.kind = .win ∨ b.kind = .refund) :
    undoDirection b.kind = e.direction.flip := by
  rcases hk with hk | hk | hk
  · rw [h.debit hk, hk]
    rfl
  · rw [h.credit (Or.inr (Or.inl hk)), hk]
    rfl
  · rw [h.credit (Or.inr (Or.inr hk)), hk]
    rfl

theorem Reversal.kinds (h : Reversal d t b) (hk : t.requiresReference = true) :
    b.kind = .bet ∨ b.kind = .win ∨ b.kind = .refund := by
  rcases WagerTransaction.requiresReference_iff.mp hk with hk | hk
  · exact Or.inl (h.refund hk)
  · exact h.rollback hk

theorem Consistent.undoneBy (h : Consistent P d) (ht : t ∈ d.wagerTransactions)
    (hp : t.status = .processed) (hk : t.requiresReference = true) : ∃ b, UndoneBy d t b := by
  obtain ⟨b, hb⟩ := (h.rows t ht).reversal hp hk
  obtain ⟨e, he, hfor⟩ := h.moved ht hp hk
  obtain ⟨e', he', hfor'⟩ := (h.rows b hb.row).moved (hb.toReverses.moves hk)
  have hdirection : e.direction = undoDirection b.kind := hb.direction e (by simp [he])
  refine ⟨b, hb.row, hb.referenceId, hb.processed, hb.reference, hb.providerId, hb.playerId,
    hb.walletId, hb.roundId, hb.money, hb.refund, hb.rollback, e, e', he, he', hfor.walletId,
    hfor'.walletId.trans hb.walletId, ?_, ?_⟩
  · rw [hfor.money, hfor'.money, hb.money]
  · rw [hdirection, hfor'.undo (hb.kinds hk)]

/-! ## Chains of references -/

/-- `t'` is the row that `t.referenceTransactionId` names. -/
def RefersTo (d : Database) (t t' : WagerTransaction) : Prop :=
  t ∈ d.wagerTransactions ∧ t' ∈ d.wagerTransactions ∧ t.referenceTransactionId = some t'.id

/-- A reference is always of a kind with a smaller rank. -/
def chainRank : WagerTransactionKind → Nat
  | .rollback => 2
  | .refund => 1
  | _ => 0

theorem Consistent.reference_iff (h : Consistent P d) (ht : t ∈ d.wagerTransactions) :
    t.referenceTransactionId.isSome = true ↔
      t.status = .processed ∧ t.requiresReference = true := by
  rcases (h.rows t ht).lifecycle with hl | hl | hl
  · simp [hl.reference, hl.status]
  · simp [hl.reference, hl.status]
  · simp [hl.reference, hl.status]

/-- Every row that refers to another is a reversal of it. -/
theorem Consistent.refersTo (h : Consistent P d) (hr : RefersTo d t t') :
    t.status = .processed ∧ t.requiresReference = true ∧ Reversal d t t' := by
  obtain ⟨ht, ht', hid⟩ := hr
  obtain ⟨hp, hk⟩ := (h.reference_iff ht).mp (by rw [hid]; rfl)
  obtain ⟨b, hb⟩ := (h.rows t ht).reversal hp hk
  have hsame : b = t' := h.transaction_inj hb.row ht'
    (Option.some.inj (hb.referenceId.symm.trans hid))
  exact ⟨hp, hk, hsame ▸ hb⟩

theorem Consistent.chainRank_lt (h : Consistent P d) (hr : RefersTo d t t') :
    chainRank t'.kind < chainRank t.kind := by
  obtain ⟨-, hk, hrev⟩ := h.refersTo hr
  rcases WagerTransaction.requiresReference_iff.mp hk with hk | hk
  · rw [hrev.refund hk, hk]
    decide
  · rw [hk]
    rcases hrev.rollback hk with hk' | hk' | hk' <;> rw [hk'] <;> decide

theorem Consistent.acyclic (h : Consistent P d) : ¬TransGen (RefersTo d) t t := by
  intro hcycle
  have hlt : ∀ u, TransGen (RefersTo d) t u → chainRank u.kind < chainRank t.kind := by
    intro u hu
    induction hu with
    | single hr => exact h.chainRank_lt hr
    | tail _ hr ih => exact (h.chainRank_lt hr).trans ih
  exact lt_irrefl _ (hlt t hcycle)

theorem Consistent.two_hops (h : Consistent P d) {t₀ t₁ t₂ : WagerTransaction}
    (h₁ : RefersTo d t₀ t₁) (h₂ : RefersTo d t₁ t₂) : t₂.referenceTransactionId = none := by
  have hr₁ := h.chainRank_lt h₁
  have hr₂ := h.chainRank_lt h₂
  have hrank : chainRank t₀.kind ≤ 2 := by cases t₀.kind <;> decide
  by_contra hsome
  obtain ⟨-, hk⟩ := (h.reference_iff h₂.2.1).mp (Option.isSome_iff_ne_none.mpr hsome)
  have hpos : 0 < chainRank t₂.kind := by
    rcases WagerTransaction.requiresReference_iff.mp hk with hk | hk <;> rw [hk] <;> decide
  omega

structure ReversalIntegrity (d : Database) : Prop where
  undone : ∀ r ∈ d.wagerTransactions, r.status = .processed →
    r.kind = .refund ∨ r.kind = .rollback → ∃ b, UndoneBy d r b
  once : ∀ r ∈ d.wagerTransactions, ∀ r' ∈ d.wagerTransactions, r.status = .processed →
    r'.status = .processed → r.kind = .refund ∨ r.kind = .rollback → r.kind = r'.kind →
      r.referenceTransactionId = r'.referenceTransactionId → r = r'
  named : ∀ t ∈ d.wagerTransactions, ∀ id, t.referenceTransactionId = some id →
    ∃ t' ∈ d.wagerTransactions, t'.id = id
  twoHops : ∀ t₀ t₁ t₂, RefersTo d t₀ t₁ → RefersTo d t₁ t₂ → t₂.referenceTransactionId = none
  acyclic : ∀ t, ¬TransGen (RefersTo d) t t

/-- Every applied reversal cancels a genuine movement of the same owner, once per kind. -/
theorem reachable_reversalIntegrity (h : Reachable (step P) initial c) :
    ReversalIntegrity c.shared.db := by
  have hc := reachable_consistent h
  refine ⟨?_, ?_, ?_, fun _ _ _ => hc.two_hops, fun _ => hc.acyclic⟩
  · intro r hr hp hk
    exact hc.undoneBy hr hp (WagerTransaction.requiresReference_iff.mpr hk)
  · intro r hr r' hr' hp hp' hk hkind hreference
    exact hc.once r hr r' hr' hp hp' (WagerTransaction.requiresReference_iff.mpr hk) hkind
      hreference
  · intro t ht id hid
    obtain ⟨hp, hk⟩ := (hc.reference_iff ht).mp (by rw [hid]; rfl)
    obtain ⟨b, hb⟩ := (hc.rows t ht).reversal hp hk
    exact ⟨b, hb.row, Option.some.inj (hb.referenceId.symm.trans hid)⟩

theorem refundAndRollback_reversalIntegrity : ∃ c, Reachable (step localPlatform) initial c ∧
    (∃ r ∈ c.shared.db.wagerTransactions, r.kind = .refund ∧ r.status = .processed) ∧
      (∃ r ∈ c.shared.db.wagerTransactions, r.kind = .rollback ∧ r.status = .processed) ∧
        ReversalIntegrity c.shared.db := by
  obtain ⟨c, hreach, -, hrows⟩ := refundAndRollback_reaches
  have hrow : ∀ kind, (kind, WagerTransactionStatus.processed) ∈
      c.shared.db.wagerTransactions.map (fun t => (t.kind, t.status)) →
        ∃ r ∈ c.shared.db.wagerTransactions, r.kind = kind ∧ r.status = .processed := by
    intro kind hmem
    obtain ⟨r, hr, hfacts⟩ := List.mem_map.mp hmem
    exact ⟨r, hr, Prod.mk.inj hfacts⟩
  refine ⟨c, hreach, hrow _ ?_, hrow _ ?_, reachable_reversalIntegrity hreach⟩ <;> rw [hrows] <;>
    simp

end WageringProcessor
