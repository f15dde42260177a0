import WageringProcessor.Invariants.Finalizing
import WageringProcessor.Invariants.Locking
import WageringProcessor.Invariants.Resubmit

/-!
# A call whose claim is new

What `execute` does for a key and a `(providerId, externalTransactionId)` that no row has: it goes
through the whole of `processNew`, and what it commits is its decision.
-/

namespace WageringProcessor

open Library.Interleaving Library.Table WagerTransactionFinalizer

variable {P : Platform} {i : Pid} {s s' : Shared} {d d' : Database} {own own' : Resource → Prop}
  {cmd : SubmitWagerTransactionCommand} {inp : Input} {stage stage' : SubmitStage}
  {wallet : Wallet} {tx : WagerTransaction} {ctx : EventContext} {admitted : Prop}

/-! ## What a decision writes -/

theorem effect_row (P : Platform) (tx : WagerTransaction) (wallet : Wallet)
    (reference : Option WagerTransaction) (credited : Bool) (ctx : EventContext)
    (newId : Nat → Id) : WritesRow P tx (effect P tx wallet reference credited ctx newId).1
      (effect P tx wallet reference credited ctx newId).2.2 := by
  cases hrefusal : refusal tx wallet credited with
  | some code =>
    rw [effect_refused hrefusal]
    exact ⟨rfl, rfl⟩
  | none =>
    rw [effect_accepted hrefusal]
    unfold acceptance
    dsimp only
    split <;> exact ⟨rfl, rfl⟩

/-- A transaction that its wallet does not refuse moves it, unless it is a LOSS. -/
theorem effect_entries (P : Platform) (tx : WagerTransaction) (wallet : Wallet)
    (reference : Option WagerTransaction) (credited : Bool) (ctx : EventContext)
    (newId : Nat → Id) : (effect P tx wallet reference credited ctx newId).2.2.ledgerEntries =
      if refusal tx wallet credited = none ∧ tx.kind ≠ .loss then
        [wallet.movementEntry (effectDirection tx.kind credited) tx.money
          (movedBalance wallet (effectDirection tx.kind credited) tx.money)
          ⟨tx.id, newId 0, ctx.now⟩]
      else [] := by
  cases hrefusal : refusal tx wallet credited with
  | some code =>
    rw [effect_refused hrefusal]
    rfl
  | none =>
    rw [effect_accepted hrefusal]
    unfold acceptance
    dsimp only
    by_cases hloss : tx.kind = .loss
    · rw [if_pos hloss, if_neg fun h => h.2 hloss]
      rfl
    · rw [if_neg hloss, if_pos ⟨rfl, hloss⟩]
      rfl

namespace Submit

theorem decision_row (P : Platform) (wallet : Wallet) (tx : WagerTransaction) (ctx : EventContext)
    (newId : Nat → Id) (resolution : Option ReferenceResolution) :
    WritesRow P tx (decision P wallet tx ctx newId resolution).1
      (decision P wallet tx ctx newId resolution).2.2 := by
  match resolution with
  | some .pending | some (.rejected _) => exact ⟨rfl, rfl⟩
  | some (.resolved _) | none => exact effect_row P tx wallet _ _ ctx newId

/-! ## The stages of the call -/

/-- No row has the key of the call or what it submits. -/
structure Unclaimed (d : Database) (cmd : SubmitWagerTransactionCommand) : Prop where
  key : ∀ t ∈ d.wagerTransactions, t.idempotencyKey ≠ cmd.idempotencyKey
  external : ∀ t ∈ d.wagerTransactions, (t.providerId, t.externalTransactionId) ≠
    (cmd.providerId, cmd.externalTransactionId)

instance (d : Database) (cmd : SubmitWagerTransactionCommand) : Decidable (Unclaimed d cmd) :=
  decidable_of_iff (_ ∧ _) ⟨fun h => ⟨h.1, h.2⟩, fun h => ⟨h.key, h.external⟩⟩

/-- What is found for the reference of `tx`, if its kind needs one. -/
def Resolves (d : Database) (tx : WagerTransaction) : Option ReferenceResolution → Prop
  | none => tx.requiresReference = false
  | some resolution => tx.requiresReference = true ∧ resolveReference d tx = .ok resolution

/-- The call is about to commit its decision. -/
inductive Decided (P : Platform) (own : Resource → Prop) (d : Database)
    (cmd : SubmitWagerTransactionCommand) : List Writes → SubmitWagerTransactionResult → Prop
  | intro {wallet : Wallet} {tx : WagerTransaction} {resolution : Option ReferenceResolution}
      (ctx : EventContext) (newId : Nat → Id) (ready : Ready P own d cmd wallet tx)
      (resolves : Resolves (d.apply (claimWrites P tx)) tx resolution) :
      Decided P own d cmd [claimWrites P tx, (decision P wallet tx ctx newId resolution).2.2]
        ⟨(decision P wallet tx ctx newId resolution).1, false,
          (decision P wallet tx ctx newId resolution).2.1.balance⟩

/-- The stages of a call whose claim is new; where `admitted` holds, it does not throw. -/
def First (admitted : Prop) (P : Platform) (own : Resource → Prop) (d : Database)
    (cmd : SubmitWagerTransactionCommand) : SubmitStage → Prop
  | .findReversal _ tx _ reference =>
    findReference (d.apply (claimWrites P tx)) tx = .ok (.resolved reference)
  | .finalize _ tx _ resolution => Resolves (d.apply (claimWrites P tx)) tx resolution
  | .commit writes result => Decided P own d cmd writes result
  | .findByKey | .findByExternal | .threw _ => ¬admitted
  | .findWallet _ | .returned _ => False
  | _ => True

/-- A call without a reference that moves its wallet by some amount passes every check. -/
structure Movement (P : Platform) (d : Database) (cmd : SubmitWagerTransactionCommand) : Prop
    extends Admissible P d cmd where
  unreferenced : requiresReferenceFor cmd.kind = false
  positive : 0 < cmd.money.minorUnits

theorem Movement.stable (h : Movement P d cmd) (hk : Keeps d d') : Movement P d' cmd :=
  { h with toAdmissible := h.toAdmissible.stable hk }

theorem Drafted.requiresReference (h : Drafted P own d cmd wallet tx) :
    tx.requiresReference = requiresReferenceFor cmd.kind := by
  obtain ⟨now, hprops⟩ := h.props_eq
  show requiresReferenceFor tx.kind = _
  rw [hprops]
  rfl

theorem Ready.missing (h : Ready P own d cmd wallet tx) (hrequires : tx.requiresReference = true) :
    WagerTransaction.missingReference tx.referenceExternalTransactionId = false := by
  obtain ⟨now, hprops⟩ := h.props_eq
  have hrequires' : requiresReferenceFor cmd.kind = true := by
    rw [← hrequires]
    exact (h.requiresReference).symm
  rw [hprops]
  exact h.reference hrequires'

/-- Without a reference, nothing that the call has found depends on the rows of others. -/
theorem First.stable (hown : ∀ k, own k → own' k) (f : Frame own d d')
    (hok : Ok P own d cmd stage) (hplain : requiresReferenceFor cmd.kind = false)
    (h : First admitted P own d cmd stage) : First admitted P own' d' cmd stage := by
  have hresolves : ∀ {wallet tx resolution}, Ready P own d cmd wallet tx →
      Resolves (d.apply (claimWrites P tx)) tx resolution →
        Resolves (d'.apply (claimWrites P tx)) tx resolution := by
    intro wallet tx resolution hready hres
    have hfalse := hready.requiresReference.trans hplain
    cases resolution with
    | none => exact hres
    | some resolution => exact absurd hres.1 (by simp [hfalse])
  cases stage with
  | findReversal wallet tx ctx reference =>
    have htrue : tx.requiresReference = true := hok.2.1
    rw [hok.1.requiresReference, hplain] at htrue
    cases htrue
  | finalize wallet tx ctx resolution => exact hresolves hok.1 h
  | commit writes result =>
    obtain ⟨ctx, newId, ready, resolves⟩ := h
    exact .intro ctx newId (ready.stable hown f) (hresolves ready resolves)
  | _ => exact h

/-! ## The database after its commit -/

theorem Ready.mem_committed {tx' x : WagerTransaction} {w : Writes}
    (h : Ready P own d cmd wallet tx) (hrow : WritesRow P tx tx' w) :
    x ∈ (d.applyAll [claimWrites P tx, w]).wagerTransactions ↔
      x = toWagerTransactionEntity P tx' ∨ x ∈ d.wagerTransactions := by
  have hid : tx'.id = tx.id := congrArg (·.id) hrow.props
  rw [applyAll_claim hrow.row hid, Database.mem_transactions_apply hrow.row]
  constructor
  · exact fun hx => hx.imp_right And.left
  · refine fun hx => hx.imp_right fun hold => ⟨hold, ?_⟩
    show x.id ≠ tx'.id
    rw [hid]
    exact h.newId x hold

theorem committed_ledgerEntries {w : Writes} :
    (d.applyAll [claimWrites P tx, w]).ledgerEntries = d.ledgerEntries ++ w.ledgerEntries := by
  simp [Database.applyAll, Database.apply, claimWrites]

/-! ## A step of the call -/

/-- Only a reversal can be found to be the second one of its reference. -/
theorem decision_reversal {resolution : Option ReferenceResolution} {newId : Nat → Id}
    {t : WagerTransaction}
    (ht : t ∈ (decision P wallet tx ctx newId resolution).2.2.wagerTransactions)
    (hviolates : d.violatesReferenceOnce t = true) : tx.requiresReference = true := by
  have hrow := decision_row P wallet tx ctx newId resolution
  have hkind : t.kind = tx.kind := by
    rw [hrow.mem ht]
    exact congrArg (·.kind) hrow.props
  unfold Database.violatesReferenceOnce at hviolates
  simp only [Bool.and_eq_true] at hviolates
  have hrequires := hviolates.1.1.2
  rw [hkind] at hrequires
  exact hrequires

/-- A movement of 0.00 is all that `processNew` throws on once the claim is inserted. -/
theorem step_finalize_first {resolution : Option ReferenceResolution}
    (hc : Consistent P s.db) (hd : Drawn s.drawn s.db)
    (hadmitted : admitted → Movement P s.db cmd)
    (hok : Ok P (owns s i) s.db cmd (.finalize wallet tx ctx resolution))
    (hresolves : Resolves (s.db.apply (claimWrites P tx)) tx resolution)
    (hstep : step P cmd i inp s (.finalize wallet tx ctx resolution) = some (s', stage')) :
    First admitted P (owns s' i) s'.db cmd stage' := by
  have hdb : s'.db = s.db := (step_ok hc hd hok hstep).1.db
  obtain ⟨hready, hresolution⟩ := hok
  by_cases hamount : AmountOk wallet tx resolution
  · rcases step_finalize_decides hc hd ⟨hready, hresolution⟩ hamount hstep with
      ⟨out, rfl, -, rfl, hready'⟩ | ⟨⟨t, ht, hviolates⟩, rfl⟩
    · exact .intro ctx inp.newId hready' (hdb ▸ hresolves)
    · intro h
      have hrequires := decision_reversal ht hviolates
      rw [hready.requiresReference, (hadmitted h).unreferenced] at hrequires
      cases hrequires
  · -- the amount is zero, so the wallet throws
    have hzero : resolution = none ∧ tx.kind ≠ .loss ∧ tx.money.currency = wallet.currency ∧
        tx.money.minorUnits ≤ 0 := by
      unfold AmountOk at hamount
      push Not at hamount
      exact hamount
    obtain ⟨rfl, hloss, hcurrency, hle⟩ := hzero
    obtain ⟨r, -, -, hread, hreadCurrency⟩ := hready.account hc
    have hnonneg : 0 ≤ tx.money.minorUnits := hready.claimed.identity.money
    have hthrows : ∀ newId, decide P wallet tx ctx none newId = .error .unbalancedLedgerEntry :=
      fun newId => applyEffect_zero hreadCurrency hread hloss hresolves hcurrency (by omega)
    obtain ⟨s₁, -, hrest⟩ := Option.bind_eq_some_iff.mp hstep
    rw [hthrows] at hrest
    obtain ⟨-, rfl⟩ := Prod.mk.inj (Option.some.inj hrest)
    intro h
    have hpositive := (hadmitted h).positive
    rw [← hready.money] at hpositive
    omega

theorem step_first (hc : Consistent P s.db) (hd : Drawn s.drawn s.db)
    (hunclaimed : Unclaimed s.db cmd) (hadmitted : admitted → Movement P s.db cmd)
    (hok : Ok P (owns s i) s.db cmd stage) (hstage : First admitted P (owns s i) s.db cmd stage)
    (hstep : step P cmd i inp s stage = some (s', stage')) :
    First admitted P (owns s' i) s'.db cmd stage' := by
  cases step_way hstep with
  | begin | drafted | keyClaimed | referring => trivial
  | opening kind => exact fun h => (hadmitted h).kind kind
  | noUuid | noWallet | otherPlayer | invalid =>
    intro h
    obtain ⟨wallet, tx, heq⟩ := step_lockWallet_admissible hc (hadmitted h).toAdmissible hstep
    cases heq
  | unclaimable check =>
    intro h
    exact absurd ((Drafted.violatesCheck_iff hok).mp check) (not_lt.mpr (hadmitted h).money)
  | keyTaken _ _ taken =>
    obtain ⟨t, hfound⟩ := Option.isSome_iff_exists.mp taken
    obtain ⟨ht, hkey⟩ := lookup_mem hfound
    exact absurd (hkey.trans (Drafted.key hok)) (hunclaimed.key t ht)
  | externalTaken _ taken =>
    obtain ⟨t, hfound⟩ := Option.isSome_iff_exists.mp taken
    obtain ⟨ht, hkey⟩ := lookup_mem hfound
    exact absurd (hkey.trans hok.1.external) (hunclaimed.external t ht)
  | unreferring _ _ _ requires => exact requires
  | unnamed =>
    intro h
    have hrequires := hok.2
    rw [hok.1.requiresReference, (hadmitted h).unreferenced] at hrequires
    cases hrequires
  | found finds => exact finds
  | unresolved finds unresolved => exact ⟨hok.2, resolveReference_of_find finds unresolved⟩
  | @resolved wallet tx ctx reference =>
    have hfind : findReference (s.db.apply (claimWrites P tx)) tx = .ok (.resolved reference) :=
      hstage
    refine ⟨hok.2.1, ?_⟩
    unfold resolveReference
    rw [hfind]
    rfl
  | undecided | duplicated | unflushed | decided =>
    exact step_finalize_first hc hd hadmitted hok hstage hstep
  | noKey | otherKey | unexplained => exact hstage
  | sameKey found | otherPayload found =>
    obtain ⟨ht, hkey⟩ := lookup_mem found
    exact absurd hkey (hunclaimed.key _ ht)
  | replayed => exact hstage.elim

/-! ## Its end -/

/-- The steps that are at most left to a call whose claim is new. -/
def stagesLeft : SubmitStage → Nat
  | .begin => 8
  | .lockWallet _ => 7
  | .claimKey _ _ => 6
  | .claimExternal _ _ => 5
  | .findReference _ _ _ => 4
  | .findReversal _ _ _ _ => 3
  | .finalize _ _ _ _ => 2
  | .commit _ _ => 1
  | _ => 0

theorem Drafted.holdsWallet (h : Drafted P own d cmd wallet tx) :
    ∃ id, P.uuid cmd.walletId = some id ∧ own (.wallet id) := by
  obtain ⟨r, hheld⟩ := h.held
  refine ⟨r.id, ?_, hheld.owns⟩
  rw [h.walletId, hheld.read]
  rfl

/-- A call that holds any lock holds that of its wallet, and is not at its end. -/
theorem First.holdsWallet {k : Resource} (hok : Ok P own d cmd stage)
    (hstage : First True P own d cmd stage) (hmay : stage.mayHold k = true) :
    0 < stagesLeft stage ∧ ∃ id, P.uuid cmd.walletId = some id ∧ own (.wallet id) := by
  cases stage with
  | claimKey wallet tx => exact ⟨Nat.succ_pos 5, Drafted.holdsWallet hok⟩
  | claimExternal wallet tx => exact ⟨Nat.succ_pos 4, hok.1.holdsWallet⟩
  | findReference wallet tx ctx => exact ⟨Nat.succ_pos 3, hok.1.holdsWallet⟩
  | findReversal wallet tx ctx reference => exact ⟨Nat.succ_pos 2, hok.1.holdsWallet⟩
  | finalize wallet tx ctx resolution => exact ⟨Nat.succ_pos 1, hok.1.holdsWallet⟩
  | commit writes result =>
    obtain ⟨ctx, newId, hready, -⟩ := hstage
    exact ⟨Nat.succ_pos 0, hready.holdsWallet⟩
  | _ => cases hmay

theorem LocksWallet.drawn {s₁ : Shared} {r : WalletRow} {id : Id}
    (h : LocksWallet P cmd i s s₁ r) (hdrawn : s₁.drawn id) : s.drawn id :=
  (take_drawn h.takes (by simp)).mp hdrawn

theorem draw_drawn_input {s₁ : Shared} {id : Id} (ids : List Nat)
    (hdraw : s.draw i P (ids.map inp.newId) = some s₁) (hdrawn : s₁.drawn id) :
    s.drawn id ∨ ∃ k, id = inp.newId k := by
  refine (draw_drawn hdraw hdrawn).imp_right fun hid => ?_
  obtain ⟨k, -, rfl⟩ := List.mem_map.mp hid
  exact ⟨k, rfl⟩

/-- A step draws ids that it is given. -/
theorem step_drawn (hstep : step P cmd i inp s stage = some (s', stage')) {id : Id}
    (h : s'.drawn id) : s.drawn id ∨ ∃ k, id = inp.newId k := by
  cases step_way hstep with
  | noUuid | noWallet | unclaimable | unnamed => exact Or.inl (drawn_of_giveBack h)
  | otherPlayer locks => exact Or.inl (locks.drawn (drawn_of_giveBack h))
  | invalid locks _ draws =>
    exact (draw_drawn_input [0] draws (drawn_of_giveBack h)).imp_left locks.drawn
  | drafted locks _ draws => exact (draw_drawn_input [0] draws h).imp_left locks.drawn
  | keyTaken _ takes | externalTaken takes =>
    exact Or.inl ((take_drawn takes (by simp)).mp (drawn_of_giveBack h))
  | keyClaimed _ takes => exact Or.inl ((take_drawn takes (by simp)).mp h)
  | referring takes _ draws | unreferring takes _ draws =>
    exact (draw_drawn_input [0] draws h).imp_left (take_drawn takes (by simp)).mp
  | undecided draws | duplicated draws | unflushed draws =>
    exact draw_drawn_input [0, 1, 2] draws (drawn_of_giveBack h)
  | decided draws => exact draw_drawn_input [0, 1, 2] draws h
  | _ => exact Or.inl h

end Submit

/-! ## In the system -/

variable {c c' : Config Shared Proc}

/-- A step of the call is one of `execute`, or it commits what was decided. -/
theorem submit_first (h : Reachable (step P) initial c) (hproc : c.procs i = .submit cmd stage)
    (hunclaimed : Submit.Unclaimed c.shared.db cmd)
    (hadmitted : admitted → Submit.Movement P c.shared.db cmd)
    (hstage : Submit.First admitted P (owns c.shared i) c.shared.db cmd stage)
    (hmoved : next (step P) c i (.step inp) = some c') :
    (∃ stage', c'.procs i = .submit cmd stage' ∧ c'.shared.db = c.shared.db ∧
        Submit.step P cmd i inp c.shared stage = some (c'.shared, stage') ∧
          Submit.First admitted P (owns c'.shared i) c'.shared.db cmd stage') ∨
      ∃ ws result, stage = .commit ws result ∧ c'.shared = c.shared.commit i ws ∧
        c'.procs i = .submit cmd (.returned result) ∧
          Submit.Decided P (owns c.shared i) c.shared.db cmd ws result := by
  obtain ⟨hs, hprocs⟩ := reachable_ok h
  have hok : ProcOk P i c.shared (.submit cmd stage) := hproc ▸ hprocs i
  have hstep := next_self hmoved
  rw [hproc] at hstep
  generalize hto : c'.procs i = p' at hstep
  generalize c'.shared = s' at hstep
  cases step_way hstep with
  | submit steps =>
    have hquiet := (Submit.step_ok hs.consistent hs.drawn hok steps).1
    exact Or.inl ⟨_, rfl, hquiet.db, steps,
      Submit.step_first hs.consistent hs.drawn hunclaimed hadmitted hok hstage steps⟩
  | submitted => exact Or.inr ⟨_, _, rfl, rfl, rfl, hstage⟩

end WageringProcessor
