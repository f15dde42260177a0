import WageringProcessor.Invariants.Reachable

/-!
# The locks of a call

Every lock that a call holds is one of those that its stage says it may hold.
-/

namespace WageringProcessor

open Library.Interleaving Library.Locks Library.Table

variable {P : Platform} {i j : Pid} {s s' : Shared} {p p' : Proc} {c : Config Shared Proc}
  {a : Action} {inp : Input} {k : Resource}

/-! ## What the operations on the locks leave -/

theorem take_owns {keys : List Resource} (h : s.take i keys = some s') (hk : owns s' i k) :
    owns s i k ∨ k ∈ keys := by
  obtain ⟨locks, hlocks, rfl⟩ := Option.map_eq_some_iff.mp h
  obtain ⟨-, rfl⟩ := acquire_eq_some.mp hlocks
  by_cases hmem : k ∈ keys
  · exact Or.inr hmem
  · left
    unfold owns at hk
    dsimp only at hk
    rwa [if_neg hmem] at hk

theorem draw_owns {ids : List Id} (h : s.draw i P ids = some s') (hlock : k.isLock = true)
    (hk : owns s' i k) : owns s i k := by
  unfold Shared.draw at h
  split at h
  · obtain ⟨locks, hlocks, rfl⟩ := Option.map_eq_some_iff.mp h
    obtain ⟨-, rfl⟩ := acquireNew_eq_some.mp hlocks
    have hmem : k ∉ ids.map .uuid := by
      intro hmem
      obtain ⟨id, -, rfl⟩ := List.mem_map.mp hmem
      cases hlock
    unfold owns at hk
    dsimp only at hk
    rwa [if_neg hmem] at hk
  · cases h

theorem giveBack_owns_which {which : Resource → Bool} (hk : owns (s.giveBack i which) i k) :
    which k = false := by
  unfold owns Shared.giveBack release at hk
  dsimp only at hk
  by_contra hwhich
  rw [Bool.not_eq_false] at hwhich
  by_cases hheld : s.locks k = some i
  · rw [if_pos ⟨hheld, hwhich⟩] at hk
    cases hk
  · rw [if_neg fun h => hheld h.1] at hk
    exact hheld hk

theorem commit_owns_which {ws : List Writes} (hk : owns (s.commit i ws) i k) : k.isLock = false :=
  giveBack_owns_which hk

/-! ## What a stage may hold -/

def OpenWalletStage.mayHold : OpenWalletStage → Resource → Bool
  | .claimKey _ _ _, .playerCurrency _ _ => true
  | .claimExternal _ _ _, .playerCurrency _ _ | .claimExternal _ _ _, .idempotencyKey _ => true
  | .insertEntry _ _ _, .playerCurrency _ _ | .insertEntry _ _ _, .idempotencyKey _
  | .insertEntry _ _ _, .external _ _ => true
  | .commit _ _, .playerCurrency _ _ | .commit _ _, .idempotencyKey _
  | .commit _ _, .external _ _ => true
  | _, _ => false

def SubmitStage.mayHold : SubmitStage → Resource → Bool
  | .claimKey _ _, .wallet _ => true
  | .claimExternal _ _, .wallet _ | .claimExternal _ _, .idempotencyKey _ => true
  | .findReference _ _ _, k | .findReversal _ _ _ _, k | .finalize _ _ _ _, k | .commit _ _, k =>
    k.ofSubmit
  | _, _ => false

def ConsumeStage.mayHold : ConsumeStage → Resource → Bool
  | .parse _ _, .inbox _ => true
  | .submit _ _ _ _, .inbox _ => true
  | .submit _ _ _ stage, k => stage.mayHold k
  | .markProcessed _ _ _, .inbox _ | .commit _ _ _, .inbox _ => true
  | .markProcessed _ _ _, k | .commit _ _ _, k => k.ofSubmit
  | _, _ => false

def ReprocessRun.mayHold (run : ReprocessRun) : Resource → Bool
  | .wallet _ => true
  | .transaction id => run.batch.any (·.id = id)
  | _ => false

def ReprocessStage.mayHold : ReprocessStage → Resource → Bool
  | .item run _, k | .findReversal run _ _ _ _, k | .resolved run _ _ _ _, k
  | .applyEffect run _ _ _ _ _, k => run.mayHold k
  | _, _ => false

def PublishStage.mayHold : PublishStage → Resource → Bool
  | .publishing _ _, .outbox _ => true
  | _, _ => false

def Proc.mayHold : Proc → Resource → Bool
  | .openWallet _ stage, k => stage.mayHold k
  | .submit _ stage, k => stage.mayHold k
  | .consume _ stage, k => stage.mayHold k
  | .reprocess _ stage, k => stage.mayHold k
  | .publishOutbox _ stage, k => stage.mayHold k
  | _, _ => false

theorem Proc.running_of_mayHold (h : p.mayHold k = true) : p.running = true := by
  cases p with
  | idle | crashed => cases h
  | openWallet cmd stage => cases stage <;> first | rfl | cases h
  | submit cmd stage => cases stage <;> first | rfl | cases h
  | consume messageId stage => cases stage <;> first | rfl | cases h
  | reprocess batchSize stage => cases stage <;> first | rfl | cases h
  | publishOutbox batchSize stage => cases stage <;> first | rfl | cases h

/-- `i` holds no lock but those that `may` allows it. -/
def HoldsOnly (s : Shared) (i : Pid) (may : Resource → Bool) : Prop :=
  ∀ k, k.isLock = true → owns s i k → may k = true

theorem HoldsOnly.none {may : Resource → Bool} (h : ∀ k, owns s i k → k.isLock = false) :
    HoldsOnly s i may := fun k hlock hk => absurd (hlock.symm.trans (h k hk)) (by decide)

theorem HoldsOnly.mono {may may' : Resource → Bool} (h : HoldsOnly s i may)
    (hmore : ∀ k, may k = true → may' k = true) : HoldsOnly s i may' :=
  fun k hlock hk => hmore k (h k hlock hk)

theorem HoldsOnly.draw {may : Resource → Bool} {ids : List Id} (h : HoldsOnly s i may)
    (hdraw : s.draw i P ids = some s') : HoldsOnly s' i may :=
  fun k hlock hk => h k hlock (draw_owns hdraw hlock hk)

theorem HoldsOnly.take {may may' : Resource → Bool} {keys : List Resource} (h : HoldsOnly s i may)
    (htake : s.take i keys = some s') (hmore : ∀ k, may k = true → may' k = true)
    (hkeys : ∀ k ∈ keys, may' k = true) : HoldsOnly s' i may' := by
  intro k hlock hk
  rcases take_owns htake hk with hk | hk
  · exact hmore k (h k hlock hk)
  · exact hkeys k hk

theorem HoldsOnly.rolledBack {may : Resource → Bool} : HoldsOnly (s.rollback i) i may :=
  .none fun _ => giveBack_owns_which

theorem HoldsOnly.committed {may : Resource → Bool} {ws : List Writes} :
    HoldsOnly (s.commit i ws) i may := .none fun _ => commit_owns_which

/-! ## What a step leaves -/

theorem OpenWallet.step_holds {cmd : OpenWalletCommand} {stage stage' : OpenWalletStage}
    (h : HoldsOnly s i stage.mayHold)
    (hstep : OpenWallet.step P cmd i inp s stage = some (s', stage')) :
    HoldsOnly s' i stage'.mayHold := by
  cases OpenWallet.step_way hstep with
  | begin draws => exact h.draw draws
  | refused | playerTaken | keyTaken | externalTaken | unentered | unflushed => exact .rolledBack
  | opening _ takes _ _ draws =>
    refine (h.take takes (fun k hk => by cases k <;> cases hk) fun k hk => ?_).draw draws
    rw [List.mem_singleton.mp hk]
    rfl
  | empty _ takes =>
    refine h.take takes (fun k hk => by cases k <;> cases hk) fun k hk => ?_
    rw [List.mem_singleton.mp hk]
    rfl
  | keyClaimed takes | externalClaimed takes =>
    refine h.take takes (fun k hk => by cases k <;> first | rfl | cases hk) fun k hk => ?_
    rw [List.mem_singleton.mp hk]
    rfl
  | entered draws =>
    exact (h.draw draws).mono fun k hk => by cases k <;> first | rfl | cases hk
  | commits => exact .committed

/-- What a submit holds of its own locks, and that it takes no others. -/
structure SubmitHolds (s s' : Shared) (i : Pid) (stage' : SubmitStage) : Prop where
  own : ∀ k, k.ofSubmit = true → owns s' i k → stage'.mayHold k = true
  others : ∀ k, k.ofSubmit = false → k.isLock = true → owns s' i k → owns s i k

section

variable {cmd : SubmitWagerTransactionCommand} {stage stage' : SubmitStage}

theorem SubmitHolds.aborted {s₁ : Shared} (hothers : ∀ k, k.ofSubmit = false → k.isLock = true →
    owns s₁ i k → owns s i k) :
    SubmitHolds s (s₁.giveBack i Resource.ofSubmit) i stage' :=
  ⟨fun _ hown hk => absurd (hown.symm.trans (giveBack_owns_which hk)) (by decide),
    fun k hnot hlock hk => hothers k hnot hlock (giveBack_owns hk)⟩

/-- A submit takes no lock but its own. -/
theorem take_others {key : Resource} {s₁ : Shared} (htake : s.take i [key] = some s₁)
    (hkey : key.ofSubmit = true) (k : Resource) (hnot : k.ofSubmit = false)
    (_ : k.isLock = true) (hk : owns s₁ i k) : owns s i k := by
  rcases take_owns htake hk with hk | hk
  · exact hk
  · rw [List.mem_singleton.mp hk, hkey] at hnot
    cases hnot

theorem draw_others {ids : List Id} {s₁ s₂ : Shared} (hdraw : s₁.draw i P ids = some s₂)
    (h : ∀ k, k.ofSubmit = false → k.isLock = true → owns s₁ i k → owns s i k) (k : Resource)
    (hnot : k.ofSubmit = false) (hlock : k.isLock = true) (hk : owns s₂ i k) : owns s i k :=
  h k hnot hlock (draw_owns hdraw hlock hk)

theorem SubmitHolds.take {key : Resource} {s₁ : Shared} (htake : s.take i [key] = some s₁)
    (h : ∀ k, k.ofSubmit = true → owns s i k → stage.mayHold k = true)
    (hkey : key.ofSubmit = true) (hmay : stage'.mayHold key = true)
    (hmore : ∀ k, stage.mayHold k = true → stage'.mayHold k = true) :
    SubmitHolds s s₁ i stage' := by
  refine ⟨fun k hown hk => ?_, take_others htake hkey⟩
  rcases take_owns htake hk with hk | hk
  · exact hmore k (h k hown hk)
  · rw [List.mem_singleton.mp hk]
    exact hmay

theorem isLock_of_ofSubmit (h : k.ofSubmit = true) : k.isLock = true := by
  cases k <;> first | rfl | cases h

theorem SubmitHolds.drew {ids : List Id} {s₁ s₂ : Shared} (h : SubmitHolds s s₁ i stage')
    (hdraw : s₁.draw i P ids = some s₂) : SubmitHolds s s₂ i stage' :=
  ⟨fun k hown hk => h.own k hown (draw_owns hdraw (isLock_of_ofSubmit hown) hk),
    fun k hnot hlock hk => h.others k hnot hlock (draw_owns hdraw hlock hk)⟩

theorem SubmitHolds.same (h : ∀ k, k.ofSubmit = true → owns s i k → stage'.mayHold k = true) :
    SubmitHolds s s i stage' := ⟨h, fun _ _ _ hk => hk⟩

theorem Submit.step_holds (h : ∀ k, k.ofSubmit = true → owns s i k → stage.mayHold k = true)
    (hstep : Submit.step P cmd i inp s stage = some (s', stage')) : SubmitHolds s s' i stage' := by
  -- where nothing is held before the step
  have hnone : (∀ k, stage.mayHold k = false) → SubmitHolds s s i stage' := fun hno =>
    .same fun k hown hk => absurd ((hno k).symm.trans (h k hown hk)) (by decide)
  cases Submit.step_way hstep with
  | opening | begin | noKey | sameKey | otherPayload | replayed | otherKey | unexplained =>
    exact hnone fun _ => rfl
  | noUuid | noWallet | unclaimable | unnamed => exact .aborted fun _ _ _ hk => hk
  | otherPlayer locks => exact .aborted (take_others locks.takes rfl)
  | invalid locks _ draws => exact .aborted (draw_others draws (take_others locks.takes rfl))
  | drafted locks _ draws =>
    exact (SubmitHolds.take locks.takes h rfl rfl fun k hk => absurd hk Bool.false_ne_true).drew
      draws
  | keyTaken _ takes => exact .aborted (take_others takes rfl)
  | keyClaimed _ takes =>
    exact .take takes h rfl rfl fun k hk => by cases k <;> first | rfl | cases hk
  | externalTaken takes => exact .aborted (take_others takes rfl)
  | referring takes _ draws | unreferring takes _ draws =>
    exact (SubmitHolds.take takes h rfl rfl
      fun k hk => by cases k <;> first | rfl | cases hk).drew draws
  | found | unresolved | resolved => exact .same fun k hown _ => hown
  | undecided draws | duplicated draws | unflushed draws =>
    exact .aborted (draw_others draws fun _ _ _ hk => hk)
  | decided draws => exact SubmitHolds.drew (.same fun k hown _ => hown) draws

end

theorem SubmitStage.ofSubmit_of_mayHold {stage : SubmitStage} (h : stage.mayHold k = true) :
    k.ofSubmit = true := by
  cases stage <;> cases k <;> first | rfl | cases h

theorem ConsumeStage.mayHold_submit {now : Date} {claimed : List Writes}
    {cmd : SubmitWagerTransactionCommand} {stage : SubmitStage} :
    (ConsumeStage.submit now claimed cmd stage).mayHold k = true ↔
      (∃ messageId, k = .inbox messageId) ∨ stage.mayHold k = true := by
  cases k with
  | inbox messageId => exact iff_of_true rfl (Or.inl ⟨messageId, rfl⟩)
  | _ =>
    constructor
    · exact Or.inr
    · rintro (⟨messageId, hk⟩ | hk)
      · cases hk
      · exact hk

/-- The nested call keeps what `markProcessed` may hold. -/
theorem ConsumeStage.mayHold_submitted {now : Date} {claimed writes : List Writes}
    {cmd : SubmitWagerTransactionCommand} {stage : SubmitStage} {nested : NestedSubmit}
    (hk : (ConsumeStage.submit now claimed cmd stage).mayHold k = true) :
    (ConsumeStage.markProcessed now writes nested).mayHold k = true := by
  rcases ConsumeStage.mayHold_submit.mp hk with ⟨messageId, rfl⟩ | hk
  · rfl
  · have hown := SubmitStage.ofSubmit_of_mayHold hk
    cases k <;> first | rfl | cases hown

theorem Consume.step_holds {messageId : String} {stage stage' : ConsumeStage}
    (h : HoldsOnly s i stage.mayHold)
    (hstep : Consume.step P messageId i inp s stage = some (s', stage')) :
    HoldsOnly s' i stage'.mayHold := by
  cases Consume.step_way hstep with
  | begin | deletes => exact h
  | missing | duplicate | unprocessed => exact h.mono fun k hk => absurd hk Bool.false_ne_true
  | taken | unparsed | threw | unfound | unmarked => exact .rolledBack
  | claimed takes =>
    refine h.take takes (fun k hk => absurd hk Bool.false_ne_true) fun k hk => ?_
    rw [List.mem_singleton.mp hk]
    rfl
  | parsed => exact h.mono fun k hk => by cases k <;> first | rfl | cases hk
  | submitted | replayed => exact h.mono fun k hk => ConsumeStage.mayHold_submitted hk
  | executes executes =>
    have hown := Submit.step_holds (fun k hofSubmit hk => by
      rcases ConsumeStage.mayHold_submit.mp (h k (isLock_of_ofSubmit hofSubmit) hk) with
        ⟨messageId, rfl⟩ | hmay
      · cases hofSubmit
      · exact hmay) executes
    intro k hlock hk
    cases hofSubmit : k.ofSubmit with
    | true => exact ConsumeStage.mayHold_submit.mpr (Or.inr (hown.own k hofSubmit hk))
    | false =>
      -- the only other lock of the consumer is the one on its inbox row
      have hmay := h k hlock (hown.others k hofSubmit hlock hk)
      rcases ConsumeStage.mayHold_submit.mp hmay with hinbox | hmay
      · exact ConsumeStage.mayHold_submit.mpr (Or.inl hinbox)
      · exact absurd ((SubmitStage.ofSubmit_of_mayHold hmay).symm.trans hofSubmit) (by decide)
  | marked => exact h.mono fun k hk => by cases k <;> first | rfl | cases hk
  | commits => exact .committed

theorem Submit.step_holdsOnly {cmd : SubmitWagerTransactionCommand} {stage stage' : SubmitStage}
    (h : HoldsOnly s i stage.mayHold)
    (hstep : Submit.step P cmd i inp s stage = some (s', stage')) :
    HoldsOnly s' i stage'.mayHold := by
  have hown := Submit.step_holds
    (fun k hofSubmit hk => h k (isLock_of_ofSubmit hofSubmit) hk) hstep
  intro k hlock hk
  cases hofSubmit : k.ofSubmit with
  | true => exact hown.own k hofSubmit hk
  | false =>
    have hmay := h k hlock (hown.others k hofSubmit hlock hk)
    exact absurd ((SubmitStage.ofSubmit_of_mayHold hmay).symm.trans hofSubmit) (by decide)

theorem Reprocess.Decision.holds {run : ReprocessRun} {tx : WagerTransaction}
    {rest : List WagerTransaction} {ids : List Id} {outcome : Except DomainError Writes}
    {stage : ReprocessStage} (decision : Reprocess.Decision P inp stage run tx rest ids outcome)
    (h : HoldsOnly s i stage.mayHold) : HoldsOnly s i run.mayHold := by
  cases decision <;> exact h

theorem Reprocess.step_holds {batchSize : Nat} {stage stage' : ReprocessStage}
    (h : HoldsOnly s i stage.mayHold)
    (hstep : Reprocess.step P i batchSize inp s stage = some (s', stage')) :
    HoldsOnly s' i stage'.mayHold := by
  cases Reprocess.step_way hstep with
  | begin batch takes =>
    simp only [Reprocess.isBatch, Bool.and_eq_true, List.all_eq_true] at batch
    obtain ⟨⟨-, hdue⟩, -⟩ := batch
    refine h.take takes (fun k hk => absurd hk Bool.false_ne_true) fun k hk => ?_
    obtain ⟨id, hid, rfl⟩ := List.mem_map.mp hk
    cases hfind : s.db.findWagerTransaction id with
    | none =>
      have hfound := hdue id hid
      rw [hfind] at hfound
      cases hfound
    | some t =>
      have hmem : t ∈ inp.batch.filterMap s.db.findWagerTransaction :=
        List.mem_filterMap.mpr ⟨id, hid, hfind⟩
      exact List.any_eq_true.mpr ⟨t, hmem, decide_eq_true (lookup_mem hfind).2⟩
  | commits => exact .committed
  | unnamed | noUuid | noWallet | undecided | unflushed => exact .rolledBack
  | found draws | unresolved draws => exact h.draw draws
  | resolved => exact h
  | locked _ _ takes =>
    refine h.take takes (fun _ hk => hk) fun k hk => ?_
    rw [List.mem_singleton.mp hk]
    rfl
  | decided decision _ draws => exact (decision.holds h).draw draws

theorem PublishOutbox.step_holds {batchSize : Nat} {stage stage' : PublishStage}
    (h : HoldsOnly s i stage.mayHold)
    (hstep : PublishOutbox.step i batchSize inp s stage = some (s', stage')) :
    HoldsOnly s' i stage'.mayHold := by
  match stage, h, hstep with
  | .begin, h, hstep =>
    dsimp only [PublishOutbox.step] at hstep
    split at hstep
    · obtain ⟨s₁, htake, hrest⟩ := Option.bind_eq_some_iff.mp hstep
      obtain ⟨rfl, rfl⟩ := Prod.mk.inj (Option.some.inj hrest)
      refine h.take htake (fun k hk => absurd hk Bool.false_ne_true) fun k hk => ?_
      obtain ⟨id, -, rfl⟩ := List.mem_map.mp hk
      rfl
    · cases hstep
  | .publishing run [], h, hstep =>
    obtain ⟨rfl, rfl⟩ := Prod.mk.inj (Option.some.inj hstep)
    exact .committed
  | .publishing run (m :: rest), h, hstep =>
    have hsend : HoldsOnly (PublishOutbox.send i s m inp.delivered) i
        (PublishStage.publishing run (m :: rest)).mayHold := by
      unfold PublishOutbox.send
      split <;> exact h
    dsimp only [PublishOutbox.step] at hstep
    split at hstep
    · obtain ⟨rfl, rfl⟩ := Prod.mk.inj (Option.some.inj hstep)
      exact .rolledBack
    · split at hstep
      · obtain ⟨rfl, rfl⟩ := Prod.mk.inj (Option.some.inj hstep)
        exact .rolledBack
      · obtain ⟨rfl, rfl⟩ := Prod.mk.inj (Option.some.inj hstep)
        exact hsend.mono fun k hk => by cases k <;> first | rfl | cases hk
  | .returned _, _, hstep => cases hstep
  | .threw _, _, hstep => cases hstep

theorem step_holds (h : HoldsOnly s i p.mayHold) (hstep : step P i a s p = some (s', p')) :
    HoldsOnly s' i p'.mayHold := by
  cases step_way hstep with
  | start => exact h.mono fun k hk => absurd hk Bool.false_ne_true
  | fail | crash => exact .rolledBack
  | openWallet steps => exact OpenWallet.step_holds h steps
  | submit steps => exact Submit.step_holdsOnly h steps
  | submitted => exact .committed
  | consume steps => exact Consume.step_holds h steps
  | reprocess steps => exact Reprocess.step_holds h steps
  | publishOutbox steps => exact PublishOutbox.step_holds h steps

theorem reachable_holds (h : Reachable (step P) initial c) (i : Pid) :
    HoldsOnly c.shared i (c.procs i).mayHold := by
  refine h.invariant (P := fun c => HoldsOnly c.shared i (c.procs i).mayHold) ?_ ?_
  · intro k _ hk
    cases hk
  · intro c j a c' run hholds _ hmoved
    by_cases hij : i = j
    · subst hij
      exact step_holds hholds (next_self hmoved)
    · rw [next_other hmoved hij]
      intro k hlock hk
      exact hholds k hlock (((reachable_effect run hmoved).owns_iff hij k).mp hk)

end WageringProcessor
