import WageringProcessor.Invariants.Retrying
import WageringProcessor.Runs
import Mathlib.Data.Prod.Lex

/-!
# Waiting for locks

A call waits for the row or the key that its next statement locks while another call holds it.
Calls take their locks in one order of kinds; only a reprocess run holds wallets while it waits for
one, and its batch may name them in any order.
-/

namespace WageringProcessor

open Library.Interleaving Library.Locks Library.Table WagerTransactionFinalizer

variable {P : Platform} {i j : Pid} {s s' : Shared} {p p' : Proc} {c c' : Config Shared Proc}
  {a : Action} {inp : Input} {k : Resource} {rank : Id → Nat}

/-! ## What a call waits for -/

/-- The row that `lockWallet` locks. -/
def Shared.wantedWallet (s : Shared) (P : Platform) (writes : List Writes) (text : String) :
    Option Resource :=
  (P.uuid text).bind fun id =>
    ((s.db.applyAll writes).findWallet id).map fun _ => .wallet id

def OpenWalletStage.wants (P : Platform) : OpenWalletStage → Option Resource
  | .insertWallet _ wallet =>
    if P.uuid wallet.playerId = none ||
        Database.violatesCheck (OpenWallet.walletWrites P wallet) then none
    else some (.playerCurrency (P.canonical wallet.playerId) wallet.currency)
  | .claimKey _ _ tx => some (.idempotencyKey tx.idempotencyKey)
  | .claimExternal _ _ tx => some (.external tx.providerId tx.externalTransactionId)
  | _ => none

def SubmitStage.wants (P : Platform) (s : Shared) (cmd : SubmitWagerTransactionCommand) :
    SubmitStage → Option Resource
  | .lockWallet _ => s.wantedWallet P [] cmd.walletId
  | .claimKey _ tx =>
    if Database.violatesCheck (Submit.claimWrites P tx) then none
    else some (.idempotencyKey tx.idempotencyKey)
  | .claimExternal _ tx => some (.external tx.providerId tx.externalTransactionId)
  | _ => none

def ConsumeStage.wants (P : Platform) (s : Shared) (messageId : String) :
    ConsumeStage → Option Resource
  | .claimInbox _ => some (.inbox messageId)
  | .submit _ _ cmd stage => stage.wants P s cmd
  | _ => none

/-- The rows of the batch are locked with SKIP LOCKED, so the run does not wait for them. -/
def ReprocessStage.wants (P : Platform) (s : Shared) : ReprocessStage → Option Resource
  | .resolved run tx _ (.resolved _) _ => s.wantedWallet P run.writes tx.walletId
  | _ => none

/-- The lock that the next statement of the call needs. -/
def Proc.wants (P : Platform) (s : Shared) : Proc → Option Resource
  | .openWallet _ stage => stage.wants P
  | .submit cmd stage => stage.wants P s cmd
  | .consume messageId stage => stage.wants P s messageId
  | .reprocess _ stage => stage.wants P s
  | .publishOutbox _ _ | .idle | .crashed => none

/-- The call `i` waits for the call `j`. -/
abbrev Waits (P : Platform) (c : Config Shared Proc) : Pid → Pid → Prop :=
  WaitsFor c.shared.locks fun i => (c.procs i).wants P c.shared

theorem take_blocked (hk : s.locks k = some j) (hij : j ≠ i) : s.take i [k] = none := by
  unfold Shared.take acquire
  rw [if_neg, Option.map_none]
  intro hfree
  rcases hfree k List.mem_cons_self with hnone | hown
  · rw [hk] at hnone
    cases hnone
  · exact hij (Option.some.inj (hk.symm.trans hown))

theorem lockWallet_blocked {writes : List Writes} {text : String}
    (hwants : s.wantedWallet P writes text = some k) (hk : s.locks k = some j) (hij : j ≠ i) :
    s.lockWallet i P writes text = none := by
  obtain ⟨id, huuid, hrest⟩ := Option.bind_eq_some_iff.mp hwants
  obtain ⟨wallet, hfound, rfl⟩ := Option.map_eq_some_iff.mp hrest
  unfold Shared.lockWallet
  rw [huuid]
  dsimp only
  rw [hfound]
  dsimp only
  rw [take_blocked hk hij]
  rfl

theorem Submit.step_blocked {cmd : SubmitWagerTransactionCommand} {stage : SubmitStage}
    (inp : Input) (hwants : stage.wants P s cmd = some k) (hk : s.locks k = some j)
    (hij : j ≠ i) :
    Submit.step P cmd i inp s stage = none := by
  cases stage with
  | lockWallet now =>
    dsimp only [Submit.step]
    rw [lockWallet_blocked hwants hk hij]
    rfl
  | claimKey wallet tx =>
    obtain ⟨hcheck, hkey⟩ := Option.ite_none_left_eq_some.mp hwants
    obtain rfl := Option.some.inj hkey
    dsimp only [Submit.step]
    rw [if_neg hcheck, take_blocked hk hij]
    rfl
  | claimExternal wallet tx =>
    obtain rfl := Option.some.inj hwants
    dsimp only [Submit.step]
    rw [take_blocked hk hij]
    rfl
  | _ => cases hwants

/-- A call that waits cannot take its next step. -/
theorem waits_blocked (h : Waits P c i j) (inp : Input) : next (step P) c i (.step inp) = none := by
  obtain ⟨k, hwants, hk, hij⟩ := h
  have hnone : procStep P i inp c.shared (c.procs i) = none := by
    dsimp only at hwants
    cases hp : c.procs i with
    | idle | crashed => rfl
    | publishOutbox batchSize stage =>
      rw [hp] at hwants
      cases hwants
    | openWallet cmd stage =>
      rw [hp] at hwants
      cases stage with
      | insertWallet now wallet =>
        obtain ⟨hcheck, hkey⟩ := Option.ite_none_left_eq_some.mp hwants
        obtain rfl := Option.some.inj hkey
        dsimp only [procStep, OpenWallet.step]
        rw [if_neg hcheck, take_blocked hk hij]
        rfl
      | claimKey now wallet tx | claimExternal now wallet tx =>
        obtain rfl := Option.some.inj hwants
        dsimp only [procStep, OpenWallet.step]
        rw [take_blocked hk hij]
        rfl
      | _ => cases hwants
    | submit cmd stage =>
      rw [hp] at hwants
      have hblocked := Submit.step_blocked inp hwants hk hij
      cases stage with
      | commit ws result => cases hwants
      | _ =>
        simp only [procStep, submitStep]
        rw [hblocked]
        rfl
    | consume messageId stage =>
      rw [hp] at hwants
      cases stage with
      | claimInbox now =>
        obtain rfl := Option.some.inj hwants
        dsimp only [procStep, Consume.step]
        rw [take_blocked hk hij]
        rfl
      | submit now claimed cmd stage =>
        have hblocked := Submit.step_blocked inp hwants hk hij
        cases stage with
        | commit ws result | returned result | threw err => cases hwants
        | _ =>
          simp only [procStep, Consume.step]
          rw [hblocked]
          rfl
      | _ => cases hwants
    | reprocess batchSize stage =>
      rw [hp] at hwants
      cases stage with
      | resolved run tx ctx resolution rest =>
        cases resolution with
        | resolved reference =>
          dsimp only [procStep, Reprocess.step]
          rw [lockWallet_blocked hwants hk hij]
          rfl
        | _ => cases hwants
      | _ => cases hwants
  unfold next
  show Option.map _ (procStep P i inp c.shared (c.procs i)) = none
  rw [hnone]
  rfl

/-! ## The order of kinds -/

/-- The kinds of locks that a call waits for, in the order in which calls take them. -/
def Resource.level : Resource → Nat
  | .inbox _ => 0
  | .playerCurrency _ _ => 1
  | .wallet _ => 2
  | .idempotencyKey _ => 3
  | .external _ _ => 4
  | .transaction _ | .outbox _ | .uuid _ => 5

/-- The wallets that a run may lock after those it holds. -/
def resourceRank (rank : Id → Nat) (k : Resource) : Nat ×ₗ Nat :=
  toLex (k.level, match k with
    | .wallet id => rank id
    | _ => 0)

theorem rank_lt_of_level {l : Resource} (h : k.level < l.level) :
    resourceRank rank k < resourceRank rank l :=
  Prod.Lex.toLex_lt_toLex.mpr (Or.inl h)

theorem rank_lt_of_wallet {id id' : Id} (h : rank id < rank id') :
    resourceRank rank (.wallet id) < resourceRank rank (.wallet id') :=
  Prod.Lex.toLex_lt_toLex.mpr (Or.inr ⟨rfl, h⟩)

theorem wantedWallet_level {writes : List Writes} {text : String}
    (h : s.wantedWallet P writes text = some k) : ∃ id, P.uuid text = some id ∧ k = .wallet id := by
  obtain ⟨id, huuid, hrest⟩ := Option.bind_eq_some_iff.mp h
  obtain ⟨wallet, -, rfl⟩ := Option.map_eq_some_iff.mp hrest
  exact ⟨id, huuid, rfl⟩

theorem SubmitStage.wants_level {cmd : SubmitWagerTransactionCommand} {stage : SubmitStage}
    {l : Resource} (hwants : stage.wants P s cmd = some l) (hmay : stage.mayHold k = true) :
    k.level < l.level := by
  cases stage with
  | lockWallet now => cases hmay
  | claimKey wallet tx =>
    obtain ⟨-, hkey⟩ := Option.ite_none_left_eq_some.mp hwants
    obtain rfl := Option.some.inj hkey
    cases k <;> first
      | exact absurd hmay Bool.false_ne_true
      | exact Nat.le_of_ble_eq_true rfl
  | claimExternal wallet tx =>
    obtain rfl := Option.some.inj hwants
    cases k <;> first
      | exact absurd hmay Bool.false_ne_true
      | exact Nat.le_of_ble_eq_true rfl
  | _ => cases hwants

theorem SubmitStage.wants_submit {cmd : SubmitWagerTransactionCommand} {stage : SubmitStage}
    {l : Resource} (hwants : stage.wants P s cmd = some l) : 2 ≤ l.level := by
  cases stage with
  | lockWallet now =>
    obtain ⟨id, -, rfl⟩ := wantedWallet_level hwants
    exact Nat.le_of_ble_eq_true rfl
  | claimKey wallet tx =>
    obtain ⟨-, hkey⟩ := Option.ite_none_left_eq_some.mp hwants
    obtain rfl := Option.some.inj hkey
    exact Nat.le_of_ble_eq_true rfl
  | claimExternal wallet tx =>
    obtain rfl := Option.some.inj hwants
    exact Nat.le_of_ble_eq_true rfl
  | _ => cases hwants

theorem ReprocessStage.wants_resolved {stage : ReprocessStage} {l : Resource}
    (hwants : stage.wants P s = some l) : ∃ run tx ctx reference rest,
      stage = .resolved run tx ctx (.resolved reference) rest ∧
        s.wantedWallet P run.writes tx.walletId = some l := by
  cases stage with
  | resolved run tx ctx resolution rest =>
    cases resolution with
    | resolved reference => exact ⟨run, tx, ctx, reference, rest, rfl, hwants⟩
    | _ => cases hwants
  | _ => cases hwants

/-- A call waits for a lock of a later kind than those it holds, except that a run waits for a
wallet while it holds others. -/
theorem Proc.wants_level {l : Resource} (hwants : p.wants P s = some l)
    (hmay : p.mayHold k = true) :
    k.level < l.level ∨ ∃ batchSize stage, p = .reprocess batchSize stage := by
  cases p with
  | idle | crashed | publishOutbox => cases hwants
  | reprocess batchSize stage => exact Or.inr ⟨batchSize, stage, rfl⟩
  | submit cmd stage => exact Or.inl (@SubmitStage.wants_level _ _ _ cmd stage l hwants hmay)
  | openWallet cmd stage =>
    left
    cases stage with
    | insertWallet now wallet => cases hmay
    | claimKey now wallet tx | claimExternal now wallet tx =>
      obtain rfl := Option.some.inj hwants
      cases k <;> first
      | exact absurd hmay Bool.false_ne_true
      | exact Nat.le_of_ble_eq_true rfl
    | _ => cases hwants
  | consume messageId stage =>
    left
    cases stage with
    | claimInbox now => cases hmay
    | submit now claimed cmd stage =>
      have hmay' : (ConsumeStage.submit now claimed cmd stage).mayHold k = true := hmay
      have hwants' : stage.wants P s cmd = some l := hwants
      rcases ConsumeStage.mayHold_submit.mp hmay' with ⟨messageId', rfl⟩ | hmay'
      · exact Nat.lt_of_lt_of_le Nat.zero_lt_two (SubmitStage.wants_submit hwants')
      · exact SubmitStage.wants_level hwants' hmay'
    | _ => cases hwants

/-- Nobody waits for a row of a batch. -/
theorem Proc.wants_waitable {l : Resource} (hwants : p.wants P s = some l) : l.level ≤ 4 := by
  have hsubmit : ∀ cmd (stage : SubmitStage), stage.wants P s cmd = some l → l.level ≤ 4 := by
    intro cmd stage hwants
    cases stage with
    | lockWallet now =>
      obtain ⟨id, -, rfl⟩ := wantedWallet_level hwants
      exact Nat.le_of_ble_eq_true rfl
    | claimKey wallet tx =>
      obtain ⟨-, hkey⟩ := Option.ite_none_left_eq_some.mp hwants
      obtain rfl := Option.some.inj hkey
      exact Nat.le_of_ble_eq_true rfl
    | claimExternal wallet tx =>
      obtain rfl := Option.some.inj hwants
      exact Nat.le_of_ble_eq_true rfl
    | _ => cases hwants
  cases p with
  | idle | crashed | publishOutbox => cases hwants
  | submit cmd stage => exact hsubmit cmd stage hwants
  | openWallet cmd stage =>
    cases stage with
    | insertWallet now wallet =>
      obtain ⟨-, hkey⟩ := Option.ite_none_left_eq_some.mp hwants
      obtain rfl := Option.some.inj hkey
      exact Nat.le_of_ble_eq_true rfl
    | claimKey now wallet tx | claimExternal now wallet tx =>
      obtain rfl := Option.some.inj hwants
      exact Nat.le_of_ble_eq_true rfl
    | _ => cases hwants
  | consume messageId stage =>
    cases stage with
    | claimInbox now =>
      obtain rfl := Option.some.inj hwants
      exact Nat.le_of_ble_eq_true rfl
    | submit now claimed cmd stage => exact hsubmit cmd stage hwants
    | _ => cases hwants
  | reprocess batchSize stage =>
    obtain ⟨run, tx, ctx, reference, rest, rfl, hwallet⟩ := ReprocessStage.wants_resolved hwants
    obtain ⟨id, -, rfl⟩ := wantedWallet_level hwallet
    exact Nat.le_of_ble_eq_true rfl

/-! ## The order of the wallets -/

/-- A run that resolves the reference of an item has locked its wallet already, or no wallet of its
batch that ranks as high. -/
def inOrder (rank : Id → Nat) (i : Pid) (s : Shared) : Proc → Action → Bool
  | .reprocess _ (.findReversal run tx _ reference _), .step _ =>
    findReversal (Reprocess.view s run) tx reference ≠ .resolved reference ||
      run.batch.all fun x => s.locks (.wallet x.walletId) ≠ some i ||
        x.walletId = tx.walletId || rank x.walletId < rank tx.walletId
  | _, _ => true

/-- The condition on the steps of a run. -/
abbrev InOrder (rank : Id → Nat) (c : Config Shared Proc) (i : Pid) (a : Action) : Prop :=
  inOrder rank i c.shared (c.procs i) a = true

theorem inOrder_below {batchSize : Nat} {run : ReprocessRun} {tx reference x : WagerTransaction}
    {ctx : EventContext} {rest : List WagerTransaction}
    (h : inOrder rank i s (.reprocess batchSize (.findReversal run tx ctx reference rest))
      (.step inp) = true)
    (hresolved : findReversal (Reprocess.view s run) tx reference = .resolved reference)
    (hx : x ∈ run.batch) (howns : owns s i (.wallet x.walletId)) :
    x.walletId = tx.walletId ∨ rank x.walletId < rank tx.walletId := by
  unfold owns at howns
  simp only [inOrder, hresolved, ne_eq, not_true_eq_false, decide_false, Bool.false_or,
    List.all_eq_true, Bool.or_eq_true, decide_eq_true_eq] at h
  rcases h x hx with (hfree | hsame) | hless
  · exact absurd howns hfree
  · exact Or.inl hsame
  · exact Or.inr hless

/-- The wallets that a run holds are those of its items, and none of them ranks as high as the one
that it goes to lock. -/
structure HeldInOrder (rank : Id → Nat) (s : Shared) (i : Pid) (stage : ReprocessStage) :
    Prop where
  ofBatch : ∀ run, stage.run? = some run → ∀ id, owns s i (.wallet id) →
    ∃ x ∈ run.batch, x.walletId = id
  below : ∀ run tx ctx reference rest, stage = .resolved run tx ctx (.resolved reference) rest →
    ∀ id, owns s i (.wallet id) → id = tx.walletId ∨ rank id < rank tx.walletId

theorem HeldInOrder.outside {stage : ReprocessStage} (hrun : stage.run? = none) :
    HeldInOrder rank s i stage := by
  constructor
  · intro run hsome
    rw [hrun] at hsome
    cases hsome
  · intro run tx ctx reference rest hstage
    rw [hstage] at hrun
    cases hrun

namespace Reprocess

variable {stage stage' : ReprocessStage} {run : ReprocessRun} {batchSize : Nat}

/-- A run locks the wallets of its items. -/
theorem step_wallets (hs : SharedOk P s) (hok : Ok P (owns s i) s.db stage)
    (hholds : HoldsOnly s i stage.mayHold)
    (h : ∀ run, stage.run? = some run → ∀ id, owns s i (.wallet id) →
      ∃ x ∈ run.batch, x.walletId = id)
    (hstep : step P i batchSize inp s stage = some (s', stage')) :
    ∀ run, stage'.run? = some run → ∀ id, owns s' i (.wallet id) →
      ∃ x ∈ run.batch, x.walletId = id := by
  have hdrew : ∀ (run : ReprocessRun) (ids : List Id) (s₁ : Shared), stage.run? = some run →
      s.draw i P ids = some s₁ → ∀ id, owns s₁ i (.wallet id) → ∃ x ∈ run.batch, x.walletId = id :=
    fun _ _ _ hrun hdraw id hid => h _ hrun id (draw_owns hdraw rfl hid)
  cases step_way hstep with
  | begin _ takes =>
    intro run _ id hid
    rcases take_owns takes hid with hid | hid
    · exact absurd (hholds _ rfl hid) Bool.false_ne_true
    · obtain ⟨id', -, hkey⟩ := List.mem_map.mp hid
      cases hkey
  | found draws | unresolved draws =>
    intro run' hrun'
    obtain rfl := Option.some.inj hrun'
    exact hdrew _ _ _ rfl draws
  | resolved => exact h
  | @locked run tx _ _ _ _ r row uuid takes =>
    intro run' hrun' id hid
    obtain rfl := Option.some.inj hrun'
    rcases take_owns takes hid with hid | hid
    · exact h run rfl id hid
    · -- the wallet that the run has just locked is the one of its item
      obtain ⟨done, hbatch, -⟩ := hok.1.decided
      have hcanonical := (Consistent.canonical (hok.1.consistent hs.consistent)
        hok.1.head.row).1
      refine ⟨tx, ?_, ?_⟩
      · rw [hbatch]
        exact List.mem_append_right _ List.mem_cons_self
      · rw [Resource.wallet.inj (List.mem_singleton.mp hid)]
        exact Option.some.inj (hcanonical.symm.trans uuid)
  | @decided _ run _ _ _ _ _ _ decision _ draws =>
    intro run' hrun'
    obtain rfl := Option.some.inj hrun'
    exact hdrew run _ _ decision.run? draws
  | commits | unnamed | noUuid | noWallet | undecided | unflushed => exact nofun

end Reprocess

def WalletsInOrder (rank : Id → Nat) (s : Shared) (i : Pid) : Proc → Prop
  | .reprocess _ stage => HeldInOrder rank s i stage
  | _ => True

theorem step_walletsInOrder (hs : SharedOk P s) (hp : ProcOk P i s p)
    (hholds : HoldsOnly s i p.mayHold) (hguard : inOrder rank i s p a = true)
    (h : WalletsInOrder rank s i p) (hstep : step P i a s p = some (s', p')) :
    WalletsInOrder rank s' i p' := by
  cases p' with
  | reprocess batchSize stage' =>
    rcases step_reprocess hstep with rfl | rfl | ⟨inp, stage, rfl, rfl, hinner⟩
    · exact .outside rfl
    · exact .outside rfl
    · refine ⟨Reprocess.step_wallets hs hp hholds h.ofBatch hinner, ?_⟩
      rintro run tx ctx reference rest rfl id hid
      obtain ⟨rfl, rfl, hresolved⟩ := Reprocess.step_to_resolved hinner
      obtain ⟨x, hx, rfl⟩ := h.ofBatch run rfl id hid
      exact inOrder_below hguard hresolved hx hid
  | _ => trivial

theorem reach_walletsInOrder (h : Reach (step P) (InOrder rank) initial c) (i : Pid) :
    WalletsInOrder rank c.shared i (c.procs i) := by
  refine h.invariant (P := fun c => ∀ i, WalletsInOrder rank c.shared i (c.procs i)) ?_ ?_ i
  · intro i
    trivial
  · intro c j a c' hreach hordered hguard hmoved k
    have hreachable := hreach.reachable
    obtain ⟨hs, hprocs⟩ := reachable_ok hreachable
    by_cases hkj : k = j
    · subst hkj
      exact step_walletsInOrder hs (hprocs k) (reachable_holds hreachable k) hguard (hordered k)
        (next_self hmoved)
    · rw [next_other hmoved hkj]
      have howns := (reachable_effect hreachable hmoved).owns_iff hkj
      have hk := hordered k
      cases hp : c.procs k with
      | reprocess batchSize stage =>
        rw [hp] at hk
        exact ⟨fun run hrun id hid => hk.ofBatch run hrun id ((howns _).mp hid),
          fun run tx ctx reference rest hstage id hid =>
            hk.below run tx ctx reference rest hstage id ((howns _).mp hid)⟩
      | _ => trivial

/-- In runs that lock the wallets of their batches in one order, no waits form a cycle. -/
theorem reach_acyclic (h : Reach (step P) (InOrder rank) initial c) (i : Pid) :
    ¬Relation.TransGen (Waits P c) i i := by
  have hreachable := h.reachable
  have hrank : ∀ i j l k m, (c.procs i).wants P c.shared = some k → c.shared.locks k = some j →
      (c.procs j).wants P c.shared = some m → c.shared.locks m = some l → l ≠ j →
        resourceRank rank k < resourceRank rank m := by
    intro i j l k m hi hk hj hm hne
    have hlevel := Proc.wants_waitable hi
    have hlock : k.isLock = true := by
      cases k with
      | uuid id => exact absurd hlevel (Nat.not_succ_le_self 4)
      | _ => rfl
    have hmay := reachable_holds hreachable j k hlock hk
    rcases Proc.wants_level hj hmay with hless | ⟨batchSize, stage, hp⟩
    · exact rank_lt_of_level hless
    · have hordered := reach_walletsInOrder h j
      have hok := (reachable_ok hreachable).2 j
      rw [hp] at hj hmay hordered hok
      obtain ⟨run, tx, ctx, reference, rest, rfl, hwallet⟩ := ReprocessStage.wants_resolved hj
      obtain ⟨id, huuid, rfl⟩ := wantedWallet_level hwallet
      have hcanonical := (Reprocess.Consistent.canonical
        (hok.1.consistent (reachable_consistent hreachable)) hok.1.head.row).1
      obtain rfl : tx.walletId = id := Option.some.inj (hcanonical.symm.trans huuid)
      cases k with
      | wallet held =>
        rcases hordered.below run tx ctx reference rest rfl held hk with rfl | hless
        · exact absurd (Option.some.inj (hm.symm.trans hk)) hne
        · exact rank_lt_of_wallet hless
      | transaction id => exact absurd hlevel (Nat.not_succ_le_self 4)
      | _ => exact absurd hmay Bool.false_ne_true
  exact acyclic_of_rank hrank i

/-! ## Two batches -/

/-- A refund and a rollback of one bet come before the bet; the run 8 picks the refund and locks its
wallet, and the run 9 picks the rollback. -/
def sharedWallet : List (Pid × Action) :=
  runCall 0 (.openWallet openCommand) 1 6 ++
    runCall 2 (.submit (submitCommand .refund "refund-1" (some "bet-1") (uuidText 10))) 7 7 ++
    [(8, .start (.reprocess 20)), (8, tick 14 [uuidText 80] true)] ++
    runCall 3 (.submit (submitCommand .rollback "rollback-1" (some "bet-1") (uuidText 10))) 15 7 ++
    runCall 4 (.submit (submitCommand .bet "bet-1" none (uuidText 10))) 22 6 ++
    [(9, .start (.reprocess 20)), (9, tick 28 [uuidText 160] true)] ++
    steps 8 29 3 ++ steps 9 32 2

theorem sharedWallet_waits : ∃ c,
    Reach (step localPlatform) (InOrder fun _ => 0) initial c ∧ Waits localPlatform c 9 8 ∧
      ∀ i, ¬Relation.TransGen (Waits localPlatform c) i i := by
  have hrun : (execIf (step localPlatform) (InOrder fun _ => 0) initial sharedWallet).any (fun c =>
      decide ((c.procs 9).wants localPlatform c.shared = some (.wallet (uuidText 10))) &&
        decide (c.shared.locks (.wallet (uuidText 10)) = some 8)) = true := by
    decide +kernel
  obtain ⟨c, hreach, hp⟩ := reach_of_any hrun
  simp only [Bool.and_eq_true, decide_eq_true_eq] at hp
  exact ⟨c, hreach, ⟨_, hp.1, hp.2, by decide⟩, reach_acyclic hreach⟩

/-- The command of the owner of a second wallet. -/
def ofSecondOwner (cmd : SubmitWagerTransactionCommand) : SubmitWagerTransactionCommand :=
  { cmd with playerId := "0195a3c0-0000-7000-8000-0000000000fe" }

/-- Reversals of two bets on two wallets come before the bets.  The run 8 picks the refunds, and the
run 9 the rollbacks in the opposite order of wallets. -/
def crossingBatches : List (Pid × Action) :=
  runCall 0 (.openWallet openCommand) 1 6 ++
    runCall 1 (.openWallet ⟨"0195a3c0-0000-7000-8000-0000000000fe", ⟨10000, brl⟩⟩) 7 6 ++
    runCall 2 (.submit (submitCommand .refund "refund-1" (some "bet-1") (uuidText 10))) 13 7 ++
    runCall 3 (.submit (ofSecondOwner
      (submitCommand .refund "refund-2" (some "bet-2") (uuidText 70)))) 20 7 ++
    [(8, .start (.reprocess 20)), (8, tick 27 [uuidText 140, uuidText 210] true)] ++
    runCall 4 (.submit (ofSecondOwner
      (submitCommand .rollback "rollback-2" (some "bet-2") (uuidText 70)))) 28 7 ++
    runCall 5 (.submit (submitCommand .rollback "rollback-1" (some "bet-1") (uuidText 10))) 35 7 ++
    runCall 6 (.submit (submitCommand .bet "bet-1" none (uuidText 10))) 42 6 ++
    runCall 7 (.submit (ofSecondOwner (submitCommand .bet "bet-2" none (uuidText 70)))) 48 6 ++
    [(9, .start (.reprocess 20)), (9, tick 54 [uuidText 290, uuidText 360] true)] ++
    steps 8 55 6 ++ steps 9 61 6

/-- Each run has locked one wallet and waits for the one that the other has locked. -/
theorem crossingBatches_deadlock : ∃ c, Reachable (step localPlatform) initial c ∧
    Relation.TransGen (Waits localPlatform c) 8 8 := by
  have hrun : (exec (step localPlatform) initial crossingBatches).any (fun c =>
      decide ((c.procs 8).wants localPlatform c.shared = some (.wallet (uuidText 70))) &&
        decide (c.shared.locks (.wallet (uuidText 70)) = some 9) &&
          (decide ((c.procs 9).wants localPlatform c.shared = some (.wallet (uuidText 10))) &&
            decide (c.shared.locks (.wallet (uuidText 10)) = some 8))) = true := by
    decide +kernel
  obtain ⟨c, hreach, hp⟩ := reachable_of_any hrun
  simp only [Bool.and_eq_true, decide_eq_true_eq] at hp
  obtain ⟨⟨hwants, hheld⟩, hwants', hheld'⟩ := hp
  exact ⟨c, hreach, .tail (.single ⟨_, hwants, hheld, by decide⟩)
    ⟨_, hwants', hheld', by decide⟩⟩

end WageringProcessor
