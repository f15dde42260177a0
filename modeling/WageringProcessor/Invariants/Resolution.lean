import WageringProcessor.Invariants.Alone

/-!
# What becomes of a resolution

A reference that was resolved or refused when a call looked for it still is when the call decides,
because what the checks read of it no longer changes.  Only a reference that was not there, or not
settled, may be found otherwise later on.  While the wallet of the reversal is locked it is never
found to be one that can be reversed.
-/

namespace WageringProcessor

open Library.Table WagerTransactionFinalizer

variable {P : Platform} {d d' v v' : Database} {own own' : Resource → Prop}
  {tx x x' b : WagerTransaction} {code : FailureCode} {resolution : ReferenceResolution}

/-! ## The two queries -/

/-- The row that `tx` names as its reference. -/
def Database.named (d : Database) (tx : WagerTransaction) : Option WagerTransaction :=
  d.findByProviderAndExternalId tx.providerId (tx.referenceExternalTransactionId.getD "")

theorem named_mem (h : d.named tx = some x) : x ∈ d.wagerTransactions ∧
    x.providerId = tx.providerId ∧
      x.externalTransactionId = tx.referenceExternalTransactionId.getD "" := by
  obtain ⟨hx, hkey⟩ := lookup_mem h
  obtain ⟨hprovider, hexternal⟩ := Prod.mk.inj hkey
  exact ⟨hx, hprovider, hexternal⟩

/-- `resolveReference` once the reference is read. -/
def resolveNamed (d : Database) (tx : WagerTransaction) :
    Option WagerTransaction → ReferenceResolution
  | none => .pending
  | some reference =>
    match checkReference tx reference with
    | .resolved reference => findReversal d tx reference
    | resolution => resolution

theorem resolveReference_eq
    (hnamed : WagerTransaction.missingReference tx.referenceExternalTransactionId = false) :
    resolveReference d tx = .ok (resolveNamed d tx (d.named tx)) := by
  unfold resolveReference findReference
  rw [if_neg (Bool.not_eq_true _ ▸ hnamed)]
  show Except.ok _ = _
  unfold Database.named
  cases d.findByProviderAndExternalId tx.providerId
      (tx.referenceExternalTransactionId.getD "") with
  | none => rfl
  | some reference => rfl

theorem findReversal_eq (d : Database) (tx b : WagerTransaction) :
    (NotReversed d tx b ∧ findReversal d tx b = .resolved b) ∨
      (¬NotReversed d tx b ∧ findReversal d tx b = .rejected .referenceAlreadyReversed) := by
  unfold findReversal
  by_cases hopen : NotReversed d tx b
  · have hnone := notReversed_iff.mp hopen
    rw [Option.isNone_iff_eq_none] at hnone
    rw [hnone]
    exact Or.inl ⟨hopen, rfl⟩
  · have hsome : (d.findProcessedReversal b.id tx.kind).isSome = true := by
      rw [notReversed_iff, Option.isNone_iff_eq_none] at hopen
      exact Option.isSome_iff_ne_none.mpr hopen
    rw [if_pos hsome]
    exact Or.inr ⟨hopen, rfl⟩

/-- A resolved reference is the named row, PROCESSED, in the wallet of the reversal. -/
theorem resolveNamed_resolved (h : resolveNamed d tx (d.named tx) = .resolved b) :
    d.named tx = some b ∧ b.status = .processed ∧ b.walletId = tx.walletId ∧
      checkReference tx b = .resolved b ∧ NotReversed d tx b := by
  cases hnamed : d.named tx with
  | none =>
    rw [hnamed] at h
    cases h
  | some x =>
    rw [hnamed] at h
    unfold resolveNamed at h
    dsimp only at h
    cases hcheck : checkReference tx x with
    | pending | rejected =>
      rw [hcheck] at h
      cases h
    | resolved y =>
      obtain ⟨rfl, howner, -, hprocessed, -⟩ := checkReference_resolved hcheck
      rw [hcheck] at h
      dsimp only at h
      rcases findReversal_eq d tx y with ⟨hopen, hfound⟩ | ⟨-, hfound⟩
      · obtain rfl := ReferenceResolution.resolved.inj (hfound.symm.trans h)
        simp only [sameOwner, Bool.and_eq_true, decide_eq_true_eq] at howner
        exact ⟨rfl, hprocessed, howner.1.1.2, hcheck, hopen⟩
      · cases hfound.symm.trans h

theorem resolveNamed_of_open (hnamed : d.named tx = some b)
    (hcheck : checkReference tx b = .resolved b) (hopen : NotReversed d tx b) :
    resolveNamed d tx (d.named tx) = .resolved b := by
  rw [hnamed]
  unfold resolveNamed
  dsimp only
  rw [hcheck]
  rcases findReversal_eq d tx b with ⟨-, hfound⟩ | ⟨hreversed, -⟩
  · exact hfound
  · exact absurd hopen hreversed

theorem rejected_fits (hrequires : tx.requiresReference = true)
    (h : resolveReference d tx = .ok (.rejected code)) : CodeFits tx code := by
  obtain ⟨found, hfind, hfound⟩ := ok_of_map h
  match found, hfind, hfound with
  | .rejected code', hfind, hfound =>
    obtain rfl := ReferenceResolution.rejected.inj hfound
    exact findReference_rejected hrequires hfind
  | .resolved b, _, hfound =>
    rcases findReversal_eq d tx b with ⟨-, hfind⟩ | ⟨-, hfind⟩
    · cases hfind.symm.trans hfound
    · obtain rfl := ReferenceResolution.rejected.inj (hfind.symm.trans hfound)
      exact hrequires

/-! ## A later view -/

/-- What a later view of the rows keeps: the row that `tx` names stays named, and as it is once it
is settled, and no reversal is undone. -/
structure Later (v v' : Database) (tx : WagerTransaction) : Prop where
  named : ∀ x, v.named tx = some x → ∃ x', v'.named tx = some x' ∧
    x'.toCreateWagerTransactionProps = x.toCreateWagerTransactionProps ∧
      (x.isTerminal = true → x' = x)
  processed : ∀ t ∈ v.wagerTransactions, t.status = .processed → t ∈ v'.wagerTransactions

theorem checkReference_later
    (hprops : x'.toCreateWagerTransactionProps = x.toCreateWagerTransactionProps)
    (hsettled : x.isTerminal = true → x' = x) (h : checkReference tx x ≠ .pending) :
    checkReference tx x' = checkReference tx x := by
  have howner : sameOwner tx x' = sameOwner tx x := by
    unfold sameOwner
    rw [hprops]
  have hkind : x'.kind = x.kind := congrArg (·.kind) hprops
  unfold checkReference at h ⊢
  rw [howner, hkind]
  split
  · rfl
  · rename_i hsame
    rw [if_neg hsame] at h
    split
    · rfl
    · rename_i hvalid
      rw [if_neg hvalid] at h
      -- the reference is past waiting, so it is settled
      have hstatus : ¬(x.status = .pending || x.status = .pendingReference) = true :=
        fun hwaits => h (if_pos hwaits)
      have hterminal : x.isTerminal = true := by
        unfold WagerTransaction.isTerminal
        revert hstatus
        cases x.status <;> decide
      rw [hsettled hterminal]

namespace Later

variable (h : Later v v' tx)
  (hnamed : WagerTransaction.missingReference tx.referenceExternalTransactionId = false)
include h

theorem reversed (hreversed : ¬NotReversed v tx b) : ¬NotReversed v' tx b := by
  intro hopen
  exact hreversed fun t ht hp => hopen t (h.processed t ht hp) hp

include hnamed

theorem rejected (hresolve : resolveReference v tx = .ok (.rejected code)) :
    resolveReference v' tx = .ok (.rejected code) := by
  rw [resolveReference_eq hnamed] at hresolve ⊢
  have hresolve := Except.ok.inj hresolve
  cases hfound : v.named tx with
  | none =>
    rw [hfound] at hresolve
    cases hresolve
  | some x =>
    obtain ⟨x', hfound', hprops, hsettled⟩ := h.named x hfound
    rw [hfound] at hresolve
    rw [hfound']
    unfold resolveNamed at hresolve ⊢
    dsimp only at hresolve ⊢
    have hchecked : checkReference tx x ≠ .pending := by
      intro hpending
      rw [hpending] at hresolve
      cases hresolve
    rw [checkReference_later hprops hsettled hchecked]
    cases hcheck : checkReference tx x with
    | pending => exact absurd hcheck hchecked
    | rejected =>
      rw [hcheck] at hresolve
      exact congrArg Except.ok hresolve
    | resolved y =>
      rw [hcheck] at hresolve
      dsimp only at hresolve ⊢
      rcases findReversal_eq v tx y with ⟨-, hfind⟩ | ⟨hreversed, hfind⟩
      · cases hfind.symm.trans hresolve
      · rcases findReversal_eq v' tx y with ⟨hopen, -⟩ | ⟨-, hfind'⟩
        · exact absurd hopen (h.reversed hreversed)
        · rw [hfind', ← hfind, hresolve]

/-- A resolved reference stays resolved until it is reversed. -/
theorem resolved (hresolve : resolveReference v tx = .ok (.resolved b)) :
    (NotReversed v' tx b ∧ resolveReference v' tx = .ok (.resolved b)) ∨
      (¬NotReversed v' tx b ∧
        resolveReference v' tx = .ok (.rejected .referenceAlreadyReversed)) := by
  rw [resolveReference_eq hnamed] at hresolve ⊢
  obtain ⟨hfound, hprocessed, -, hcheck, -⟩ := resolveNamed_resolved (Except.ok.inj hresolve)
  obtain ⟨x', hfound', -, hsettled⟩ := h.named b hfound
  obtain rfl := hsettled (isTerminal_of_processed hprocessed)
  rw [hfound']
  unfold resolveNamed
  dsimp only
  rw [hcheck]
  dsimp only
  rcases findReversal_eq v' tx x' with ⟨hopen, hfind⟩ | ⟨hreversed, hfind⟩
  · exact Or.inl ⟨hopen, congrArg Except.ok hfind⟩
  · exact Or.inr ⟨hreversed, congrArg Except.ok hfind⟩

/-- Where no settled row of its wallet is new, a reversal that could not be applied still cannot. -/
theorem unresolved (hresolve : resolveReference v tx ≠ .ok (.resolved b))
    (hback : b.status = .processed → b.walletId = tx.walletId → v'.named tx = some b →
      v.named tx = some b) :
    resolveReference v' tx ≠ .ok (.resolved b) := by
  intro hlater
  rw [resolveReference_eq hnamed] at hresolve hlater
  obtain ⟨hfound', hprocessed, hwallet, hcheck, hopen'⟩ :=
    resolveNamed_resolved (Except.ok.inj hlater)
  refine hresolve (congrArg Except.ok ?_)
  refine resolveNamed_of_open (hback hprocessed hwallet hfound') hcheck ?_
  by_contra hreversed
  exact h.reversed hreversed hopen'

end Later

/-! ## A reference that was read -/

/-- `tx` names `b` as its reference, which passes the checks. -/
def Eligible (v : Database) (tx b : WagerTransaction) : Prop :=
  v.named tx = some b ∧ checkReference tx b = .resolved b

theorem Eligible.processed (h : Eligible v tx b) : b.status = .processed :=
  (checkReference_resolved h.2).2.2.2.1

theorem Eligible.later (h : Eligible v tx b) (hlater : Later v v' tx) : Eligible v' tx b := by
  obtain ⟨b', hnamed, -, hsettled⟩ := hlater.named b h.1
  obtain rfl := hsettled (isTerminal_of_processed h.processed)
  exact ⟨hnamed, h.2⟩

theorem eligible_of_findReference (h : findReference v tx = .ok (.resolved b)) :
    Eligible v tx b := by
  unfold findReference at h
  split at h
  · cases h
  · have hfound := Except.ok.inj h
    split at hfound
    · cases hfound
    · rename_i x hnamed
      obtain ⟨rfl, -⟩ := checkReference_resolved hfound
      exact ⟨hnamed, hfound⟩

theorem resolveReference_of_eligible (h : Eligible v tx b)
    (hnamed : WagerTransaction.missingReference tx.referenceExternalTransactionId = false) :
    resolveReference v tx = .ok (findReversal v tx b) := by
  rw [resolveReference_eq hnamed, h.1]
  unfold resolveNamed
  dsimp only
  rw [h.2]

end WageringProcessor
