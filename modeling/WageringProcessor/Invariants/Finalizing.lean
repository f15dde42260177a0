import WageringProcessor.Invariants.Commits
import WageringProcessor.Invariants.Effect

/-!
# What a submit decides

`Submit.decision` is what `decide` returns, which therefore never throws.  The database can refuse
what it writes in one way: as a second reversal of its reference.
-/

namespace WageringProcessor

open Library.Interleaving (Pid)
open Library.Table WagerTransactionFinalizer

variable {P : Platform} {own : Resource → Prop} {d : Database} {w : Writes}
  {cmd : SubmitWagerTransactionCommand} {tx tx' : WagerTransaction} {wallet : Wallet}
  {reference : Option WagerTransaction} {ctx : EventContext} {newId : Nat → Id} {credited : Bool}
  {resolution : Option ReferenceResolution}

/-! ## The constraints on the rows of a decision -/

/-- What the database relies on when the row of `tx` is written. -/
structure Storing (d : Database) (tx : WagerTransaction) : Prop where
  money : 0 ≤ tx.money.minorUnits
  old : ∀ x ∈ d.wagerTransactions, x.id = tx.id → x.isTerminal = false
  entries : d.entriesOf tx.id = []

/-- No constraint and no trigger refuses the write, except for the index on reversals. -/
structure Storable (d : Database) (w : Writes) : Prop where
  check : Database.violatesCheck w = false
  trigger : d.violatesTrigger w = false
  entries : ∀ e ∈ w.ledgerEntries, d.violatesEntryOnce e = false

theorem Storable.flush (h : Storable d w)
    (honce : ∀ t ∈ w.wagerTransactions, d.violatesReferenceOnce t = false) : d.flush w = .ok () :=
  flush_eq_ok h.check h.trigger honce h.entries

theorem Storable.flush_cases (h : Storable d w) :
    d.flush w = .ok () ∨ d.flush w = .error .uniqueConstraintViolation ∧
      ∃ t ∈ w.wagerTransactions, d.violatesReferenceOnce t = true := by
  by_cases honce : w.wagerTransactions.any d.violatesReferenceOnce = true
  · right
    refine ⟨?_, List.any_eq_true.mp honce⟩
    unfold Database.flush
    rw [h.check, h.trigger, honce, Bool.true_or, Bool.or_self, if_neg Bool.false_ne_true,
      if_pos rfl]
  · left
    refine h.flush fun t ht => Bool.eq_false_iff.mpr fun hviolates => honce ?_
    exact List.any_eq_true.mpr ⟨t, ht, hviolates⟩

theorem Storing.check (h : Storing d tx) (hrow : WritesRow P tx tx' w)
    (hwallets : ∀ r ∈ w.wallets, 0 ≤ r.balanceAmount)
    (hentries : ∀ e ∈ w.ledgerEntries, 0 < e.money.minorUnits ∧ 0 ≤ e.balanceBefore.minorUnits ∧
      0 ≤ e.balanceAfter.minorUnits) : Database.violatesCheck w = false := by
  unfold Database.violatesCheck
  rw [Bool.or_eq_false_iff, Bool.or_eq_false_iff, List.any_eq_false, List.any_eq_false,
    List.any_eq_false]
  refine ⟨⟨fun r hr => ?_, fun t ht => ?_⟩, fun e he => ?_⟩
  · have hbalance := hwallets r hr
    simp only [decide_eq_true_eq]
    omega
  · have hmoney := h.money
    have hsame : tx'.money = tx.money := congrArg (·.money) hrow.props
    rw [hrow.mem ht]
    show ¬decide (tx'.money.minorUnits < 0) = true
    rw [hsame, decide_eq_true_eq]
    omega
  · have hbounds := hentries e he
    simp only [Bool.or_eq_true, decide_eq_true_eq]
    omega

theorem Storing.trigger (h : Storing d tx) (hrow : WritesRow P tx tx' w)
    (hfresh : ∀ m ∈ w.outboxMessages, ∀ m' ∈ d.outboxMessages, m'.id ≠ m.id) :
    d.violatesTrigger w = false := by
  unfold Database.violatesTrigger
  rw [Bool.or_eq_false_iff, List.any_eq_false, List.any_eq_false]
  constructor
  · intro t ht
    cases hfound : d.findWagerTransaction t.id with
    | none => simp
    | some old =>
      obtain ⟨hold, hid⟩ := lookup_mem hfound
      have hsame : t.id = tx.id := by
        rw [hrow.mem ht]
        exact congrArg (·.id) hrow.props
      simp [h.old old hold (hid.trans hsame)]
  · intro m hm
    have hnone : d.findOutboxMessage m.id = none := lookup_eq_none.mpr (hfresh m hm)
    simp [hnone]

/-- A write of the row and of messages alone. -/
theorem Storing.row (h : Storing d tx) (hrow : WritesRow P tx tx' w) (hwallets : w.wallets = [])
    (hentries : w.ledgerEntries = [])
    (hfresh : ∀ m ∈ w.outboxMessages, ∀ m' ∈ d.outboxMessages, m'.id ≠ m.id) : Storable d w := by
  refine ⟨h.check hrow ?_ ?_, h.trigger hrow hfresh, ?_⟩
  · rw [hwallets]
    exact fun _ hr => absurd hr List.not_mem_nil
  · rw [hentries]
    exact fun _ he => absurd he List.not_mem_nil
  · rw [hentries]
    exact fun _ he => absurd he List.not_mem_nil

/-- The balance after a movement that the wallet does not refuse. -/
theorem movedBalance_nonneg (hread : 0 ≤ wallet.balance.minorUnits)
    (hmoney : 0 ≤ tx.money.minorUnits)
    (h : refusal tx wallet credited = none) :
    0 ≤ (movedBalance wallet (effectDirection tx.kind credited) tx.money).minorUnits := by
  cases hdirection : effectDirection tx.kind credited with
  | debit =>
    have hcovered := refusal_covered h hdirection
    show 0 ≤ wallet.balance.minorUnits - tx.money.minorUnits
    omega
  | credit =>
    show 0 ≤ wallet.balance.minorUnits + tx.money.minorUnits
    omega

theorem effect_storable (h : Storing d tx) (heffective : Effective tx wallet reference credited)
    (hread : 0 ≤ wallet.balance.minorUnits)
    (hfresh : ∀ m ∈ d.outboxMessages, m.id ≠ newId 1 ∧ m.id ≠ newId 2) :
    Storable d (effect P tx wallet reference credited ctx newId).2.2 := by
  cases hrefusal : refusal tx wallet credited with
  | some code =>
    rw [effect_refused hrefusal]
    refine h.row (⟨rfl, rfl⟩ : WritesRow P tx (rejectedTransaction tx code ctx.now) _) rfl rfl ?_
    intro m hm m' hm'
    obtain rfl := List.mem_singleton.mp hm
    exact (hfresh m' hm').1
  | none =>
    rw [effect_accepted hrefusal]
    unfold acceptance
    dsimp only
    split
    · refine h.row (⟨rfl, rfl⟩ : WritesRow P tx
        (processedTransaction tx (reference.map (·.id)) ctx.now) _) rfl rfl ?_
      intro m hm m' hm'
      obtain rfl := List.mem_singleton.mp hm
      exact (hfresh m' hm').1
    · rename_i hloss
      have hcurrency : tx.money.currency = wallet.currency := by
        by_cases hrequires : tx.requiresReference = true
        · exact heffective.currency hrequires
        · exact refusal_currency hrefusal hloss (Bool.not_eq_true _ ▸ hrequires)
      have hafter := movedBalance_nonneg hread h.money hrefusal
      have hrow : WritesRow P tx (processedTransaction tx (reference.map (·.id)) ctx.now)
          (movementWrites P (processedTransaction tx (reference.map (·.id)) ctx.now)
            (wallet.applyMovement (movedBalance wallet (effectDirection tx.kind credited) tx.money)
              ctx.now)
            (wallet.movementEntry (effectDirection tx.kind credited) tx.money
              (movedBalance wallet (effectDirection tx.kind credited) tx.money)
              ⟨tx.id, newId 0, ctx.now⟩) ctx newId) := ⟨rfl, rfl⟩
      refine ⟨h.check hrow ?_ ?_, h.trigger hrow ?_, ?_⟩
      · intro r hr
        obtain rfl := List.mem_singleton.mp hr
        exact hafter
      · intro e he
        obtain rfl := List.mem_singleton.mp he
        exact ⟨heffective.positive hloss hcurrency, hread, hafter⟩
      · intro m hm m' hm'
        rcases List.mem_cons.mp hm with rfl | hm
        · exact (hfresh m' hm').1
        · obtain rfl := List.mem_singleton.mp hm
          exact (hfresh m' hm').2
      · intro e he
        obtain rfl := List.mem_singleton.mp he
        have hnone := h.entries
        rw [Database.entriesOf, List.filter_eq_nil_iff] at hnone
        rw [Database.violatesEntryOnce, List.any_eq_false]
        exact hnone

/-! ## The decision of a submit -/

namespace Submit

def decision (P : Platform) (wallet : Wallet) (tx : WagerTransaction) (ctx : EventContext)
    (newId : Nat → Id) : Option ReferenceResolution → WagerTransaction × Wallet × Writes
  | some .pending =>
    let tx' := parkedTransaction tx ctx.now
    (tx', wallet, parkingWrites P tx' ctx (newId 1))
  | some (.rejected code) =>
    let tx' := rejectedTransaction tx code ctx.now
    (tx', wallet, rejectionWrites P tx' ctx (newId 1))
  | some (.resolved b) => effect P tx wallet (some b) (b.kind ≠ .bet) ctx newId
  | none => effect P tx wallet none false ctx newId

/-- A transaction without a reference in its wallet's currency has a positive amount, if it moves
the wallet at all. -/
def AmountOk (wallet : Wallet) (tx : WagerTransaction) (resolution : Option ReferenceResolution) :
    Prop :=
  resolution = none → tx.kind ≠ .loss → tx.money.currency = wallet.currency →
    0 < tx.money.minorUnits

theorem Ready.unsettled (h : Ready P own d cmd wallet tx) : tx.isTerminal = false := by
  rw [h.claimed.created]
  rfl

/-- The wallet that a ready call holds is an account of the database. -/
theorem Ready.account (h : Ready P own d cmd wallet tx) (hc : Consistent P d) :
    ∃ r, HeldWallet P own d tx wallet r ∧ AccountOk P d r ∧ 0 ≤ wallet.balance.minorUnits ∧
      wallet.balance.currency = wallet.currency := by
  obtain ⟨r, hheld⟩ := h.held
  have haccount := hc.accounts r hheld.row
  refine ⟨r, hheld, haccount, ?_, ?_⟩
  · rw [hheld.read]
    exact haccount.nonneg
  · rw [hheld.read]
    rfl

theorem Ready.effective_none (h : Ready P own d cmd wallet tx) (hc : Consistent P d)
    (hr : ResolutionOk P d tx none) (hamount : AmountOk wallet tx none) :
    Effective tx wallet none false := by
  obtain ⟨r, -, -, -, hread⟩ := h.account hc
  exact .unreferenced h.unsettled (hamount rfl) hread hr

theorem ReferenceOk.requires {b : WagerTransaction} (h : ReferenceOk P d tx (some b)) :
    tx.requiresReference = true := by
  by_contra hnot
  cases h.unreferenced (Bool.not_eq_true _ ▸ hnot)

theorem Ready.effective_resolved {b : WagerTransaction} (h : Ready P own d cmd wallet tx)
    (hc : Consistent P d) (hr : ResolutionOk P d tx (some (.resolved b))) :
    Effective tx wallet (some b) (b.kind ≠ .bet) := by
  have hrequires := ReferenceOk.requires hr
  obtain ⟨b', hb, hrow, hreverses⟩ := hr.referenced hrequires
  obtain rfl := Option.some.inj hb
  obtain ⟨r, hheld, -⟩ := h.account hc
  rw [hheld.read]
  exact .referenced hc h.unsettled hrequires hrow hreverses hheld.row
    (hheld.named.trans hreverses.walletId.symm) rfl

theorem decide_eq (hc : Consistent P d) (h : Ready P own d cmd wallet tx)
    (hr : ResolutionOk P d tx resolution) (hamount : AmountOk wallet tx resolution) :
    decide P wallet tx ctx resolution newId = .ok (decision P wallet tx ctx newId resolution) := by
  match resolution with
  | some .pending =>
    simp only [decide, markPendingReference_eq h.unsettled, bind, Except.bind, pure, Except.pure]
    rfl
  | some (.rejected code) =>
    simp only [decide, reject_eq h.unsettled, bind, Except.bind, pure, Except.pure]
    rfl
  | some (.resolved b) => exact applyEffect_eq (h.effective_resolved hc hr)
  | none => exact applyEffect_eq (h.effective_none hc hr hamount)

/-- The call sees its own claim, which is PENDING. -/
theorem Ready.storing (h : Ready P own d cmd wallet tx) (hc : Consistent P d) :
    Storing (d.apply (claimWrites P tx)) tx := by
  have hsettling := Subject.settling hc (.claimed h.claimed)
  refine ⟨h.claimed.identity.money, fun x hx hid => ?_, ?_⟩
  · rcases mem_claimView.mp hx with rfl | ⟨-, hne⟩
    · exact h.unsettled
    · exact absurd hid hne
  · rw [Database.entriesOf_apply, hsettling.noEntries]
    rfl

theorem decision_storable (ctx : EventContext) (newId : Nat → Id) (hc : Consistent P d)
    (h : Ready P own d cmd wallet tx) (hr : ResolutionOk P d tx resolution)
    (hamount : AmountOk wallet tx resolution)
    (hid₁ : NewId own d (newId 1)) (hid₂ : NewId own d (newId 2)) :
    Storable (d.apply (claimWrites P tx)) (decision P wallet tx ctx newId resolution).2.2 := by
  have hstoring := h.storing hc
  obtain ⟨r, -, -, hread, -⟩ := h.account hc
  have hfresh : ∀ m ∈ (d.apply (claimWrites P tx)).outboxMessages,
      m.id ≠ newId 1 ∧ m.id ≠ newId 2 := fun m hm => ⟨hid₁.fresh m hm, hid₂.fresh m hm⟩
  match resolution with
  | some .pending =>
    refine hstoring.row (⟨rfl, rfl⟩ : WritesRow P tx (parkedTransaction tx ctx.now) _) rfl rfl ?_
    intro m hm m' hm'
    obtain rfl := List.mem_singleton.mp hm
    exact (hfresh m' hm').1
  | some (.rejected code) =>
    refine hstoring.row (⟨rfl, rfl⟩ : WritesRow P tx (rejectedTransaction tx code ctx.now) _) rfl
      rfl
      ?_
    intro m hm m' hm'
    obtain rfl := List.mem_singleton.mp hm
    exact (hfresh m' hm').1
  | some (.resolved b) => exact effect_storable hstoring (h.effective_resolved hc hr) hread hfresh
  | none => exact effect_storable hstoring (h.effective_none hc hr hamount) hread hfresh

/-- A call that finalizes prepares its decision, or finds a second reversal. -/
theorem step_finalize_decides {i : Pid} {inp : Input} {s s' : Shared} {stage' : SubmitStage}
    (hc : Consistent P s.db) (hd : Drawn s.drawn s.db)
    (h : Ok P (owns s i) s.db cmd (.finalize wallet tx ctx resolution))
    (hamount : AmountOk wallet tx resolution)
    (hstep : step P cmd i inp s (.finalize wallet tx ctx resolution) = some (s', stage')) :
    (∃ out, out = decision P wallet tx ctx inp.newId resolution ∧
        (s.db.apply (claimWrites P tx)).flush out.2.2 = .ok () ∧
          stage' = .commit [claimWrites P tx, out.2.2] ⟨out.1, false, out.2.1.balance⟩ ∧
            Ready P (owns s' i) s'.db cmd wallet tx) ∨
      (∃ t ∈ (decision P wallet tx ctx inp.newId resolution).2.2.wagerTransactions,
          (s.db.apply (claimWrites P tx)).violatesReferenceOnce t = true) ∧
        stage' = .findByKey := by
  obtain ⟨s₁, hdraw, hrest⟩ := Option.bind_eq_some_iff.mp hstep
  have hdraws := draw_draws hdraw
  obtain ⟨hready, hresolution⟩ : Ready P (owns s₁ i) s₁.db cmd wallet tx ∧
      ResolutionOk P s₁.db tx resolution :=
    ⟨h.1.stable hdraws.keeps hdraws.frame, ResolutionOk.stable hdraws.frame h.2⟩
  have hc₁ : Consistent P s₁.db := hdraws.db ▸ hc
  have hd₁ : Drawn s.drawn s₁.db := hdraws.db ▸ hd
  have hstorable := decision_storable ctx inp.newId hc₁ hready hresolution hamount
    (hdraws.newId hd₁ (by simp)) (hdraws.newId hd₁ (by simp))
  rw [decide_eq hc₁ hready hresolution hamount] at hrest
  dsimp only at hrest
  rw [hdraws.db] at hrest hstorable
  rcases hstorable.flush_cases with hflush | ⟨hflush, hviolates⟩
  · rw [hflush] at hrest
    obtain ⟨rfl, rfl⟩ := Prod.mk.inj (Option.some.inj hrest)
    exact Or.inl ⟨_, rfl, hflush, rfl, hready⟩
  · rw [hflush] at hrest
    obtain ⟨-, rfl⟩ := Prod.mk.inj (Option.some.inj hrest)
    exact Or.inr ⟨hviolates, rfl⟩

end Submit

/-! ## The effect of a reversal that waited -/

theorem Reprocess.RunOk.effective {run : ReprocessRun} {b : WagerTransaction} {r : WalletRow}
    {rest : List WagerTransaction} (hrun : Reprocess.RunOk P own d run (tx :: rest))
    (hc : Consistent P d) (href : ReferenceOk P (d.applyAll run.writes) tx (some b))
    (hheld : HeldWallet P own (d.applyAll run.writes) tx wallet r) :
    Effective tx wallet (some b) (b.kind ≠ .bet) := by
  have hrequires := Submit.ReferenceOk.requires href
  obtain ⟨b', hb, hrow, hreverses⟩ := href.referenced hrequires
  obtain rfl := Option.some.inj hb
  have hopen := not_terminal_of_pendingReference hrun.head.status
  rw [hheld.read]
  exact .referenced (hrun.consistent hc) hopen hrequires hrow hreverses hheld.row
    (hheld.named.trans hreverses.walletId.symm) rfl

end WageringProcessor
