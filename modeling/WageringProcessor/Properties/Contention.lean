import WageringProcessor.Invariants.FirstSubmit
import WageringProcessor.Library.Budget
import WageringProcessor.Properties.LedgerIntegrity
import WageringProcessor.Runs
import Mathlib.Algebra.Order.BigOperators.Group.Finset

/-!
# Bets that compete for a balance

Any number of bets on one wallet, submitted in any order and any interleaving while nothing else
moves the wallet.  They are paid from its balance one at a time, under its lock, so that the
balance covers all that are processed and none that is rejected.
-/

namespace WageringProcessor

open Library.Budget Library.Interleaving Library.Table

/-- The bets of the processes `pids` on `wallet`, which the balance of `wallet` is to pay. -/
structure Contention where
  wallet : WalletRow
  pids : Finset Pid
  bet : Pid → SubmitWagerTransactionCommand

variable {P : Platform} {i j : Pid} {c c' : Config Shared Proc} {d d' : Database} {K : Contention}
  {a : Action} {t : WagerTransaction}

namespace Contention

variable (K)

def amount (i : Pid) : Int := (K.bet i).money.minorUnits

def row (d : Database) (i : Pid) : Option WagerTransaction :=
  d.findByIdempotencyKey (K.bet i).idempotencyKey

/-- The bets whose rows `p` selects. -/
def select (p : WagerTransaction → Bool) (d : Database) : Finset Pid :=
  K.pids.filter fun i => (K.row d i).any p

def processed (d : Database) : Finset Pid := K.select (fun t => t.status = .processed) d

def rejected (d : Database) : Finset Pid :=
  K.select (fun t => t.status = .rejected && t.failureCode = some .insufficientBalance) d

/-- What the ledger of the wallet adds up to. -/
def balance (d : Database) : Int := ((d.entriesOfWallet K.wallet.id).map (·.signedAmount)).sum

/-- Positive amounts in the wallet's currency, each under a key and an external id of its own, none
of them submitted yet. -/
structure Fresh (P : Platform) (c : Config Shared Proc) : Prop where
  wallet : K.wallet ∈ c.shared.db.wallets
  idle : ∀ i ∈ K.pids, c.procs i = .idle
  kind : ∀ i ∈ K.pids, (K.bet i).kind = .bet
  walletId : ∀ i ∈ K.pids, P.uuid (K.bet i).walletId = some K.wallet.id
  playerId : ∀ i ∈ K.pids, (K.bet i).playerId = K.wallet.playerId
  currency : ∀ i ∈ K.pids, (K.bet i).money.currency = K.wallet.currency
  positive : ∀ i ∈ K.pids, 0 < K.amount i
  unclaimed : ∀ i ∈ K.pids, Submit.Unclaimed c.shared.db (K.bet i)
  keys : ∀ i ∈ K.pids, ∀ j ∈ K.pids, (K.bet i).idempotencyKey = (K.bet j).idempotencyKey → i = j
  externals : ∀ i ∈ K.pids, ∀ j ∈ K.pids, ((K.bet i).providerId, (K.bet i).externalTransactionId) =
    ((K.bet j).providerId, (K.bet j).externalTransactionId) → i = j

/-- A bet is submitted once, and its steps do not fail. -/
def submits (i : Pid) : Action → Bool
  | .start call => call = .submit (K.bet i)
  | .step _ => true
  | .fail | .crash => false

/-- No other process moves the wallet or takes the key or the external id of a bet. -/
abbrev Undisturbed (d d' : Database) : Prop :=
  d'.entriesOfWallet K.wallet.id = d.entriesOfWallet K.wallet.id ∧
    ∀ i ∈ K.pids, Submit.Unclaimed d (K.bet i) → Submit.Unclaimed d' (K.bet i)

variable {K}

/-! ## The rows of the bets -/

theorem row_of_unclaimed (h : Submit.Unclaimed d (K.bet i)) : K.row d i = none :=
  lookup_eq_none.mpr h.key

theorem row_of_mem (hc : Consistent P d) (ht : t ∈ d.wagerTransactions)
    (hkey : t.idempotencyKey = (K.bet i).idempotencyKey) : K.row d i = some t := by
  unfold row Database.findByIdempotencyKey
  rw [← hkey]
  exact lookup_of_mem hc.idempotencyKeys ht

theorem mem_select {p : WagerTransaction → Bool} :
    i ∈ K.select p d ↔ i ∈ K.pids ∧ ∃ t, K.row d i = some t ∧ p t = true := by
  unfold select
  rw [Finset.mem_filter, Option.any_eq_true]

theorem select_congr (p : WagerTransaction → Bool)
    (h : ∀ i ∈ K.pids, K.row d' i = K.row d i) : K.select p d' = K.select p d :=
  Finset.filter_congr fun i hi => by rw [h i hi]

/-- One more row is selected or not. -/
theorem select_insert (p : WagerTransaction → Bool) (hi : i ∈ K.pids)
    (hothers : ∀ j ∈ K.pids, j ≠ i → K.row d' j = K.row d j) (hnone : K.row d i = none)
    (hrow : K.row d' i = some t) :
    K.select p d' = if p t then insert i (K.select p d) else K.select p d := by
  have hold : i ∉ K.select p d := by
    rw [mem_select, hnone]
    rintro ⟨-, t, ht, -⟩
    cases ht
  ext j
  by_cases hj : j = i
  · subst hj
    rw [mem_select, hrow]
    by_cases hp : p t = true
    · simp [hp, hi]
    · simp [hp, hold]
  · have hsame : j ∈ K.select p d' ↔ j ∈ K.select p d := by
      rw [mem_select, mem_select]
      refine and_congr_right fun hmem => ?_
      rw [hothers j hmem hj]
    rw [hsame]
    split <;> simp [hj]

/-- A bet with its decision. -/
def Settled (K : Contention) (d : Database) (i : Pid) : Prop :=
  i ∈ K.processed d ∪ K.rejected d

theorem Settled.row (h : K.Settled d i) : ∃ t ∈ d.wagerTransactions, K.row d i = some t ∧
    t.idempotencyKey = (K.bet i).idempotencyKey ∧ t.isTerminal = true := by
  have hterminal : ∃ t, K.row d i = some t ∧ t.isTerminal = true := by
    rcases Finset.mem_union.mp h with hmem | hmem
    · obtain ⟨-, t, ht, hp⟩ := mem_select.mp hmem
      exact ⟨t, ht, isTerminal_of_processed (of_decide_eq_true hp)⟩
    · obtain ⟨-, t, ht, hp⟩ := mem_select.mp hmem
      have hstatus : t.status = .rejected := of_decide_eq_true (Bool.and_eq_true_iff.mp hp).1
      exact ⟨t, ht, by simp [WagerTransaction.isTerminal, hstatus]⟩
  obtain ⟨t, ht, hterminal⟩ := hterminal
  obtain ⟨hmem, hkey⟩ := lookup_mem ht
  exact ⟨t, hmem, ht, hkey, hterminal⟩

/-- The row `t` of the bet of `i` is committed, paid from the balance if that covers it. -/
inductive Pays (K : Contention) (i : Pid) (d d' : Database) (t : WagerTransaction) : Prop
  | processed (status : t.status = .processed) (covered : K.amount i ≤ K.balance d)
      (balance : K.balance d' = K.balance d - K.amount i)
  | rejected (status : t.status = .rejected) (code : t.failureCode = some .insufficientBalance)
      (short : K.balance d < K.amount i) (balance : K.balance d' = K.balance d)

theorem balance_append {entries : List WalletLedgerEntry}
    (h : d'.ledgerEntries = d.ledgerEntries ++ entries) : K.balance d' = K.balance d +
      ((entries.filter fun e => e.walletId = K.wallet.id).map (·.signedAmount)).sum := by
  unfold balance Database.entriesOfWallet
  rw [h, List.filter_append, List.map_append, List.sum_append]

theorem pays {own : Resource → Prop} {wallet : Wallet} {tx : WagerTransaction}
    {r : WalletRow} (hc : Consistent P d) (ctx : EventContext) (newId : Nat → Id)
    (hready : Submit.Ready P own d (K.bet i) wallet tx) (hkind : tx.kind = .bet)
    (hr : r ∈ d.wallets) (hread : wallet = toWalletDomain r) (hid : r.id = K.wallet.id)
    (hcurrency : (K.bet i).money.currency = r.currency)
    (hledger : d'.ledgerEntries =
      d.ledgerEntries ++ (effect P tx wallet none false ctx newId).2.2.ledgerEntries) :
    K.Pays i d d' (toWagerTransactionEntity P (effect P tx wallet none false ctx newId).1) := by
  have hmoney := hready.money
  have hbalance : K.balance d = r.balanceAmount := by
    have hsum := AccountOk.sum (hc.accounts r hr)
    rw [hid] at hsum
    exact hsum
  have hsame : ¬tx.money.currency ≠ wallet.currency := by
    rw [hmoney, hread]
    exact not_not.mpr hcurrency
  have hrefusal : refusal tx wallet false =
      if K.amount i ≤ K.balance d then none else some .insufficientBalance := by
    unfold refusal
    rw [hkind, hmoney, hbalance, hread]
    dsimp only
    rw [if_neg (by rwa [hmoney, hread] at hsame)]
    rfl
  have hentries := effect_entries P tx wallet none false ctx newId
  by_cases hcovered : K.amount i ≤ K.balance d
  · rw [if_pos hcovered] at hrefusal
    rw [if_pos ⟨hrefusal, by simp [hkind]⟩] at hentries
    refine .processed ?_ hcovered ?_
    · rw [effect_accepted hrefusal]
      unfold acceptance
      dsimp only
      rw [if_neg (by simp [hkind])]
      rfl
    · have hwallet : wallet.id = K.wallet.id := by
        rw [hread]
        exact hid
      rw [balance_append hledger, hentries, hkind]
      simp [Wallet.movementEntry, WalletLedgerEntry.signedAmount, effectDirection, hwallet, hmoney,
        amount]
      omega
  · rw [if_neg hcovered] at hrefusal
    rw [if_neg (by simp [hrefusal])] at hentries
    refine .rejected ?_ ?_ (by omega) ?_
    · rw [effect_refused hrefusal]
      rfl
    · rw [effect_refused hrefusal]
      rfl
    · rw [balance_append hledger, hentries]
      simp

/-! ## The invariant -/

/-- Where the bet of `i` stands. -/
inductive Stands (P : Platform) (K : Contention) (c : Config Shared Proc) (i : Pid) : Prop
  | waiting (proc : c.procs i = .idle) (unclaimed : Submit.Unclaimed c.shared.db (K.bet i))
  | running {stage : SubmitStage} (proc : c.procs i = .submit (K.bet i) stage)
      (unclaimed : Submit.Unclaimed c.shared.db (K.bet i))
      (first : Submit.First True P (owns c.shared i) c.shared.db (K.bet i) stage)
  | ended {result : SubmitWagerTransactionResult}
      (proc : c.procs i = .submit (K.bet i) (.returned result)) (settled : K.Settled c.shared.db i)

structure Contested (P : Platform) (K : Contention) (c : Config Shared Proc) : Prop where
  stands : ∀ i ∈ K.pids, Stands P K c i
  spent : Spent K.amount K.wallet.balanceAmount (K.processed c.shared.db) (K.rejected c.shared.db)
    (K.balance c.shared.db)

theorem Contested.start (hc : Consistent P c.shared.db) (h : K.Fresh P c) : Contested P K c := by
  have hrow : ∀ i ∈ K.pids, K.row c.shared.db i = none :=
    fun i hi => row_of_unclaimed (h.unclaimed i hi)
  have hnone : ∀ p, K.select p c.shared.db = ∅ := by
    intro p
    refine Finset.filter_eq_empty_iff.mpr fun i hi => ?_
    rw [hrow i hi]
    exact Bool.false_ne_true
  have hbalance : K.balance c.shared.db = K.wallet.balanceAmount :=
    AccountOk.sum (hc.accounts K.wallet h.wallet)
  refine ⟨fun i hi => .waiting (h.idle i hi) (h.unclaimed i hi), ?_⟩
  rw [hbalance, processed, rejected, hnone, hnone]
  exact .start (hc.accounts K.wallet h.wallet).nonneg

/-- The rows of all bets are as they were. -/
theorem Contested.same {c' : Config Shared Proc} (h : Contested P K c)
    (hstands : ∀ i ∈ K.pids, Stands P K c' i)
    (hrows : ∀ i ∈ K.pids, K.row c'.shared.db i = K.row c.shared.db i)
    (hbalance : K.balance c'.shared.db = K.balance c.shared.db) : Contested P K c' := by
  refine ⟨hstands, ?_⟩
  rw [hbalance, processed, rejected, select_congr _ hrows, select_congr _ hrows]
  exact h.spent

theorem Settled.congr (h : K.Settled d i) (hrow : K.row d' i = K.row d i) : K.Settled d' i := by
  unfold Settled processed rejected at h ⊢
  rw [Finset.mem_union, mem_select, mem_select] at h ⊢
  rw [hrow]
  exact h

/-- The row of a settled bet stays. -/
theorem Settled.row_stays (h : K.Settled d i) (hk : Keeps d d') (hc' : Consistent P d') :
    K.row d' i = K.row d i := by
  obtain ⟨t, ht, hrow, hkey, hterminal⟩ := h.row
  rw [hrow]
  exact row_of_mem hc' (hk.terminal t ht hterminal) hkey

section

variable (h : Reachable (step P) initial c) (hmoved : next (step P) c i a = some c')
include h hmoved

/-- A step of another process leaves a bet where it stands. -/
theorem Stands.other (hstands : Stands P K c j) (hplain : (K.bet j).kind = .bet) (hij : j ≠ i)
    (hunclaimed : Submit.Unclaimed c.shared.db (K.bet j) →
      Submit.Unclaimed c'.shared.db (K.bet j)) :
    Stands P K c' j ∧ K.row c'.shared.db j = K.row c.shared.db j := by
  obtain ⟨hs, hprocs⟩ := reachable_ok h
  have heffect := reachable_effect h hmoved
  have hc' := (heffect.sharedOk hs).consistent
  have hproc := next_other hmoved hij
  cases hstands with
  | waiting proc unclaimed =>
    refine ⟨.waiting (hproc.trans proc) (hunclaimed unclaimed), ?_⟩
    rw [row_of_unclaimed unclaimed, row_of_unclaimed (hunclaimed unclaimed)]
  | running proc unclaimed first =>
    have hok : ProcOk P j c.shared (.submit (K.bet j) _) := proc ▸ hprocs j
    refine ⟨.running (hproc.trans proc) (hunclaimed unclaimed) ?_, ?_⟩
    · exact first.stable (fun k => (heffect.owns_iff hij k).mpr) (heffect.frame hs.consistent hij)
        hok (by rw [hplain]; rfl)
    · rw [row_of_unclaimed unclaimed, row_of_unclaimed (hunclaimed unclaimed)]
  | ended proc settled =>
    have hrow := settled.row_stays (heffect.history hs.consistent).toKeeps hc'
    exact ⟨.ended (hproc.trans proc) (settled.congr hrow), hrow⟩

theorem Contested.outside (hcontested : Contested P K c)
    (hkind : ∀ j ∈ K.pids, (K.bet j).kind = .bet)
    (hi : i ∉ K.pids) (hundisturbed : K.Undisturbed c.shared.db c'.shared.db) :
    Contested P K c' := by
  have hothers : ∀ j ∈ K.pids, Stands P K c' j ∧ K.row c'.shared.db j = K.row c.shared.db j := by
    intro j hj
    have hij : j ≠ i := fun heq => hi (heq ▸ hj)
    exact Stands.other h hmoved (hcontested.stands j hj) (hkind j hj) hij (hundisturbed.2 j hj)
  refine hcontested.same (fun j hj => (hothers j hj).1) (fun j hj => (hothers j hj).2) ?_
  unfold balance
  rw [hundisturbed.1]

end

/-- What stays true of the bets while they are submitted. -/
structure Sound (P : Platform) (K : Contention) (d : Database) : Prop where
  kind : ∀ i ∈ K.pids, (K.bet i).kind = .bet
  movement : ∀ i ∈ K.pids, Submit.Movement P d (K.bet i)
  walletId : ∀ i ∈ K.pids, P.uuid (K.bet i).walletId = some K.wallet.id
  currency : ∀ i ∈ K.pids, ∀ r ∈ d.wallets, r.id = K.wallet.id →
    (K.bet i).money.currency = r.currency
  keys : ∀ i ∈ K.pids, ∀ j ∈ K.pids, (K.bet i).idempotencyKey = (K.bet j).idempotencyKey → i = j
  externals : ∀ i ∈ K.pids, ∀ j ∈ K.pids, ((K.bet i).providerId, (K.bet i).externalTransactionId) =
    ((K.bet j).providerId, (K.bet j).externalTransactionId) → i = j

/-- The row that a decided bet commits. -/
theorem Decided.commits {own : Resource → Prop} {ws : List Writes}
    {result : SubmitWagerTransactionResult} (hc : Consistent P d) (hsound : Sound P K d)
    (hi : i ∈ K.pids) (h : Submit.Decided P own d (K.bet i) ws result) :
    ∃ t, (∀ x, x ∈ (d.applyAll ws).wagerTransactions ↔ x = t ∨ x ∈ d.wagerTransactions) ∧
      t.idempotencyKey = (K.bet i).idempotencyKey ∧
      (t.providerId, t.externalTransactionId) =
        ((K.bet i).providerId, (K.bet i).externalTransactionId) ∧
      K.Pays i d (d.applyAll ws) t := by
  obtain ⟨ctx, newId, hready, hresolves⟩ := h
  rename_i wallet tx resolution
  have hrequires : tx.requiresReference = false := by
    rw [hready.requiresReference]
    exact (hsound.movement i hi).unreferenced
  have hnone : resolution = none := by
    cases resolution with
    | none => rfl
    | some resolution => exact absurd hresolves.1 (by simp [hrequires])
  subst hnone
  have hrow := Submit.decision_row P wallet tx ctx newId none
  obtain ⟨now, hprops⟩ := hready.props_eq
  obtain ⟨r, hheld⟩ := hready.held
  have hid : r.id = K.wallet.id := by
    have hwallet := Option.some.inj (hready.walletId.symm.trans (hsound.walletId i hi))
    rw [hheld.read] at hwallet
    exact hwallet
  refine ⟨toWagerTransactionEntity P (Submit.decision P wallet tx ctx newId none).1,
    fun x => hready.mem_committed hrow, ?_, ?_, ?_⟩
  · exact (congrArg (·.idempotencyKey) hrow.props).trans hready.key
  · exact (congrArg (fun t => (t.providerId, t.externalTransactionId)) hrow.props).trans
      hready.external
  · refine pays hc ctx newId hready ?_ hheld.row hheld.read hid
      (hsound.currency i hi r hheld.row hid) Submit.committed_ledgerEntries
    rw [hprops]
    exact hsound.kind i hi

theorem Contested.commit {ws : List Writes} {result : SubmitWagerTransactionResult}
    (h : Reachable (step P) initial c) (hmoved : next (step P) c i a = some c')
    (hcontested : Contested P K c) (hsound : Sound P K c.shared.db) (hi : i ∈ K.pids)
    (hunclaimed : Submit.Unclaimed c.shared.db (K.bet i))
    (hdecided : Submit.Decided P (owns c.shared i) c.shared.db (K.bet i) ws result)
    (hdb : c'.shared.db = c.shared.db.applyAll ws)
    (hproc : c'.procs i = .submit (K.bet i) (.returned result)) : Contested P K c' := by
  have hc := reachable_consistent h
  have hc' : Consistent P c'.shared.db := reachable_consistent (.step h trivial hmoved)
  obtain ⟨t, hrows, hkey, hexternal, hpays⟩ := Decided.commits hc hsound hi hdecided
  rw [← hdb] at hrows hpays
  have hothers : ∀ j ∈ K.pids, j ≠ i →
      Stands P K c' j ∧ K.row c'.shared.db j = K.row c.shared.db j := by
    intro j hj hij
    refine Stands.other h hmoved (hcontested.stands j hj) (hsound.kind j hj) hij fun hfree => ?_
    refine ⟨fun x hx heq => ?_, fun x hx heq => ?_⟩
    · rcases (hrows x).mp hx with rfl | hx
      · exact hij (hsound.keys j hj i hi (heq.symm.trans hkey))
      · exact hfree.key x hx heq
    · rcases (hrows x).mp hx with rfl | hx
      · exact hij (hsound.externals j hj i hi (heq.symm.trans hexternal))
      · exact hfree.external x hx heq
  have hnone := row_of_unclaimed hunclaimed
  have hrow : K.row c'.shared.db i = some t := row_of_mem hc' ((hrows t).mpr (Or.inl rfl)) hkey
  have hselect := fun p => select_insert p hi (fun j hj hij => (hothers j hj hij).2) hnone hrow
  have hnew : i ∉ K.processed c.shared.db := by
    unfold processed
    rw [mem_select, hnone]
    rintro ⟨-, x, hx, -⟩
    cases hx
  have hspent : Spent K.amount K.wallet.balanceAmount (K.processed c'.shared.db)
      (K.rejected c'.shared.db) (K.balance c'.shared.db) ∧ K.Settled c'.shared.db i := by
    unfold Settled processed rejected
    rw [hselect, hselect]
    cases hpays with
    | processed status covered balance =>
      rw [balance, if_pos (by simp [status]), if_neg (by simp [status])]
      exact ⟨hcontested.spent.grant hnew (hsound.movement i hi).positive.le covered,
        Finset.mem_union_left _ (Finset.mem_insert_self i _)⟩
    | rejected status code short balance =>
      rw [balance, if_neg (by simp [status]), if_pos (by simp [status, code])]
      exact ⟨hcontested.spent.refuse short,
        Finset.mem_union_right _ (Finset.mem_insert_self i _)⟩
  refine ⟨fun j hj => ?_, hspent.1⟩
  by_cases hij : j = i
  · subst hij
    exact .ended hproc hspent.2
  · exact (hothers j hj hij).1

theorem Contested.own (h : Reachable (step P) initial c) (hmoved : next (step P) c i a = some c')
    (hcontested : Contested P K c) (hsound : Sound P K c.shared.db) (hi : i ∈ K.pids)
    (hsubmits : K.submits i a = true) : Contested P K c' := by
  -- a step that leaves the database as it is
  have hquiet : c'.shared.db = c.shared.db → Stands P K c' i → Contested P K c' := by
    intro hdb hstands
    refine hcontested.same (fun j hj => ?_) (fun j _ => by rw [hdb]) (by rw [hdb])
    by_cases hij : j = i
    · exact hij ▸ hstands
    · exact (Stands.other h hmoved (hcontested.stands j hj) (hsound.kind j hj) hij
        fun hfree => hdb ▸ hfree).1
  have hself := next_self hmoved
  cases a with
  | start call =>
    obtain rfl : call = .submit (K.bet i) := of_decide_eq_true hsubmits
    dsimp only [step] at hself
    split at hself
    · rename_i hidle
      obtain ⟨hshared, hproc⟩ := Prod.mk.inj (Option.some.inj hself)
      have hdb : c'.shared.db = c.shared.db := hshared ▸ rfl
      cases hcontested.stands i hi with
      | waiting _ unclaimed =>
        exact hquiet hdb (.running hproc.symm (hdb ▸ unclaimed) trivial)
      | running proc => cases hidle.symm.trans proc
      | ended proc => cases hidle.symm.trans proc
    · cases hself
  | step inp =>
    cases hcontested.stands i hi with
    | waiting proc =>
      rw [proc] at hself
      cases hself
    | running proc unclaimed first =>
      rcases submit_first h proc unclaimed (fun _ => hsound.movement i hi) first hmoved with
        ⟨stage', hproc', hdb, -, hfirst⟩ | ⟨ws, result, rfl, hcommit, hproc', hdecided⟩
      · exact hquiet hdb (.running hproc' (hdb ▸ unclaimed) hfirst)
      · exact hcontested.commit h hmoved hsound hi unclaimed hdecided (hcommit ▸ rfl) hproc'
    | ended proc =>
      rw [proc] at hself
      cases hself
  | fail | crash => cases hsubmits

variable (K)

variable {K}

/-- The steps that are at most left to a bet. -/
def left : Proc → Nat
  | .idle => 9
  | .submit _ stage => Submit.stagesLeft stage
  | _ => 0

/-- A bet that holds any lock holds that of the wallet. -/
theorem Stands.holdsWallet {k : Resource} (h : Reachable (step P) initial c)
    (hwallet : P.uuid (K.bet i).walletId = some K.wallet.id) (hstands : Stands P K c i)
    (hlock : k.isLock = true) (howns : owns c.shared i k) :
    0 < left (c.procs i) ∧ owns c.shared i (.wallet K.wallet.id) := by
  have hmay := reachable_holds h i k hlock howns
  cases hstands with
  | waiting proc =>
    rw [proc] at hmay
    cases hmay
  | @running stage proc _ first =>
    have hok : ProcOk P i c.shared (.submit (K.bet i) stage) := proc ▸ (reachable_ok h).2 i
    rw [proc] at hmay ⊢
    obtain ⟨hleft, id, hid, hheld⟩ := first.holdsWallet hok hmay
    exact ⟨hleft, Option.some.inj (hid.symm.trans hwallet) ▸ hheld⟩
  | ended proc =>
    rw [proc] at hmay
    cases hmay

variable (K)

variable {K}

variable (K)

/-- The call of the bet has returned. -/
def Returned (c : Config Shared Proc) (i : Pid) : Prop :=
  ∃ result, c.procs i = .submit (K.bet i) (.returned result)

variable {K}

end Contention

instance : Decidable (K.Fresh P c) :=
  decidable_of_iff (_ ∧ _ ∧ _ ∧ _ ∧ _ ∧ _ ∧ _ ∧ _ ∧ _ ∧ _)
    ⟨fun ⟨h₁, h₂, h₃, h₄, h₅, h₆, h₇, h₈, h₉, h₁₀⟩ => ⟨h₁, h₂, h₃, h₄, h₅, h₆, h₇, h₈, h₉, h₁₀⟩,
      fun ⟨h₁, h₂, h₃, h₄, h₅, h₆, h₇, h₈, h₉, h₁₀⟩ => ⟨h₁, h₂, h₃, h₄, h₅, h₆, h₇, h₈, h₉, h₁₀⟩⟩

end WageringProcessor
