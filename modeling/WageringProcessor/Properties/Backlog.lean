import WageringProcessor.Invariants.Retrying
import WageringProcessor.Library.Rounds
import WageringProcessor.Properties.Draining
import WageringProcessor.Properties.Reprocessing
import WageringProcessor.Properties.Serial

/-!
# The backlog of waiting reversals

Reprocess runs that follow one another while nothing else runs.  Each picks as many of the waiting
rows as its batch holds, whichever they are, and a pick settles its row or uses up one of its
attempts.  So a bounded number of runs leaves no row waiting.
-/

namespace WageringProcessor

open Library.Interleaving Library.Table Library.Locks Library.Rounds WagerTransactionFinalizer

variable {P : Platform} {i j : Pid} {n k m : Nat} {d d' d'' : Database} {s s' : Shared}
  {c c' c₀ c₁ : Config Shared Proc} {t tx : WagerTransaction} {batch : List WagerTransaction}
  {stage stage' : ReprocessStage} {inp : Input} {now : Date} {ids : List Id} {run : ReprocessRun}
  {own : Resource → Prop} {looked : Query → Database → Prop} {w : Writes} {ws : List Writes}

/-! ## What waits -/

def Database.backlog (d : Database) : List WagerTransaction :=
  d.wagerTransactions.filter (·.status = .pendingReference)

/-- The picks that a row may still take. -/
def WagerTransaction.picksLeft (t : WagerTransaction) : Nat :=
  if t.status = .pendingReference then
    MAX_REFERENCE_RETRY_ATTEMPTS + 1 - t.referenceRetryAttempts
  else
    0

def Database.picksLeft (d : Database) (id : Id) : Nat :=
  ((d.findWagerTransaction id).map WagerTransaction.picksLeft).getD 0

def Database.rowIds (d : Database) : Finset Id :=
  (d.wagerTransactions.map (·.id)).toFinset

theorem mem_backlog : t ∈ d.backlog ↔ t ∈ d.wagerTransactions ∧ t.status = .pendingReference := by
  rw [Database.backlog, List.mem_filter, decide_eq_true_eq]

theorem mem_rowIds {id : Id} : id ∈ d.rowIds ↔ ∃ t ∈ d.wagerTransactions, t.id = id := by
  rw [Database.rowIds, List.mem_toFinset, List.mem_map]

section

variable (hc : Consistent P d)
include hc

theorem picksLeft_of_mem (ht : t ∈ d.wagerTransactions) : d.picksLeft t.id = t.picksLeft := by
  have hfound : d.findWagerTransaction t.id = some t := lookup_of_mem hc.transactionIds ht
  rw [Database.picksLeft, hfound]
  rfl

theorem picksLeft_pos (ht : t ∈ d.wagerTransactions) :
    0 < t.picksLeft ↔ t.status = .pendingReference := by
  have hattempts := (hc.rows t ht).attempts
  unfold WagerTransaction.picksLeft
  split
  · exact ⟨fun _ => ‹_›, fun _ => by omega⟩
  · exact ⟨fun hpos => absurd hpos (Nat.lt_irrefl 0), fun hwaits => absurd hwaits ‹_›⟩

/-- A row has had its first attempt when it begins to wait. -/
theorem picksLeft_le {id : Id} (hid : id ∈ d.rowIds) :
    d.picksLeft id ≤ MAX_REFERENCE_RETRY_ATTEMPTS := by
  obtain ⟨t, ht, rfl⟩ := mem_rowIds.mp hid
  rw [picksLeft_of_mem hc ht]
  unfold WagerTransaction.picksLeft
  split
  · rename_i hwaits
    have hattempted := (Waiting.unsettled hwaits (hc.rows t ht).lifecycle).attempted
    omega
  · exact Nat.zero_le _

theorem waiting_eq :
    waiting d.rowIds d.picksLeft = (d.backlog.map (·.id)).toFinset := by
  ext id
  rw [waiting, Finset.mem_filter, mem_rowIds, List.mem_toFinset, List.mem_map]
  constructor
  · rintro ⟨⟨t, ht, rfl⟩, hpos⟩
    rw [picksLeft_of_mem hc ht, picksLeft_pos hc ht] at hpos
    exact ⟨t, mem_backlog.mpr ⟨ht, hpos⟩, rfl⟩
  · rintro ⟨t, ht, rfl⟩
    obtain ⟨hrow, hwaits⟩ := mem_backlog.mp ht
    exact ⟨⟨t, hrow, rfl⟩, by rwa [picksLeft_of_mem hc hrow, picksLeft_pos hc hrow]⟩

theorem card_waiting : (waiting d.rowIds d.picksLeft).card = d.backlog.length := by
  have hnodup : (d.backlog.map (·.id)).Nodup :=
    hc.transactionIds.sublist (List.filter_sublist.map _)
  rw [waiting_eq hc, List.toFinset_card_of_nodup hnodup, List.length_map]

end

/-! ## What a run leaves -/

/-- A pick uses up one of the picks that the row may take. -/
theorem Tried.picksLeft_lt {D : Prop} (h : Tried D now tx t)
    (hwaits : tx.status = .pendingReference)
    (hattempts : tx.referenceRetryAttempts ≤ MAX_REFERENCE_RETRY_ATTEMPTS) :
    t.picksLeft < tx.picksLeft := by
  have hleft : tx.picksLeft = MAX_REFERENCE_RETRY_ATTEMPTS + 1 - tx.referenceRetryAttempts :=
    if_pos hwaits
  cases h with
  | waits again =>
    have hparked : (parkedTransaction tx now).picksLeft =
        MAX_REFERENCE_RETRY_ATTEMPTS + 1 - (tx.referenceRetryAttempts + 1) := rfl
    omega
  | timesOut spent =>
    have hrejected :
        (rejectedTransaction tx .referenceResolutionTimeout now).picksLeft = 0 := rfl
    omega
  | decides _ terminal =>
    have hdone : t.picksLeft = 0 := if_neg fun hopen => by
      rw [not_terminal_of_pendingReference hopen] at terminal
      cases terminal
    omega

/-- A run has picked `batch` and committed. -/
structure Retries (n : Nat) (d d' : Database) (batch : List WagerTransaction) : Prop where
  picked : ∀ tx ∈ batch, tx ∈ d.backlog
  nodup : batch.Nodup
  length : batch.length = min n d.backlog.length
  tried : ∀ tx ∈ batch, ∃ now, ∃ t ∈ d'.wagerTransactions, t.id = tx.id ∧ Tried True now tx t
  kept : ∀ t ∈ d.wagerTransactions, t ∉ batch → t ∈ d'.wagerTransactions
  ids : d'.wagerTransactions.map (·.id) = d.wagerTransactions.map (·.id)

theorem Retries.rowIds (h : Retries n d d' batch) : d'.rowIds = d.rowIds := by
  rw [Database.rowIds, h.ids, Database.rowIds]

theorem Retries.round (h : Retries n d d' batch) (hc : Consistent P d) (hc' : Consistent P d') :
    Round d.rowIds n d.picksLeft d'.picksLeft (batch.map (·.id)).toFinset := by
  have hinj : ∀ a ∈ d.wagerTransactions, ∀ b ∈ d.wagerTransactions, a.id = b.id → a = b :=
    fun a ha b hb => List.inj_on_of_nodup_map hc.transactionIds ha hb
  have hrow : ∀ tx ∈ batch, tx ∈ d.wagerTransactions ∧ tx.status = .pendingReference :=
    fun tx htx => mem_backlog.mp (h.picked tx htx)
  refine ⟨fun id hid => ?_, ?_, fun id hid => ?_, fun id hid hnot => ?_⟩
  · obtain ⟨tx, htx, rfl⟩ := List.mem_map.mp (List.mem_toFinset.mp hid)
    rw [waiting_eq hc, List.mem_toFinset]
    exact List.mem_map_of_mem (h.picked tx htx)
  · have hnodup : (batch.map (·.id)).Nodup :=
      h.nodup.map_on fun a ha b hb => hinj a (hrow a ha).1 b (hrow b hb).1
    rw [List.toFinset_card_of_nodup hnodup, List.length_map, card_waiting hc, h.length]
  · obtain ⟨tx, htx, rfl⟩ := List.mem_map.mp (List.mem_toFinset.mp hid)
    obtain ⟨now, t, ht, hid, htried⟩ := h.tried tx htx
    have hlower := htried.picksLeft_lt (hrow tx htx).2 (hc.rows tx (hrow tx htx).1).attempts
    rw [picksLeft_of_mem hc (hrow tx htx).1, ← hid, picksLeft_of_mem hc' ht]
    exact hlower
  · obtain ⟨t, ht, rfl⟩ := mem_rowIds.mp hid
    have hout : t ∉ batch := fun hin => hnot (List.mem_toFinset.mpr (List.mem_map_of_mem hin))
    rw [picksLeft_of_mem hc ht, picksLeft_of_mem hc' (h.kept t ht hout)]

/-! ## The commit of a run -/

namespace Reprocess

/-- A retry writes one row, which is there already. -/
theorem Retry.row (h : Retry P looked own now d w) :
    ∃ tx ∈ d.wagerTransactions, ∃ t, w.wagerTransactions = [t] ∧ t.id = tx.id := by
  have hsame : ∀ {tx tx' : WagerTransaction}, LockedRow own d tx → WritesRow P tx tx' w →
      ∃ tx ∈ d.wagerTransactions, ∃ t, w.wagerTransactions = [t] ∧ t.id = tx.id :=
    fun {tx tx'} hlocked hrow =>
      have hid : tx'.id = tx.id := congrArg CreateWagerTransactionProps.id hrow.props
      ⟨tx, hlocked.row, _, hrow.row, hid⟩
  cases h with
  | rejected locked _ _ _ _ decided =>
    exact hsame locked (decide_row (not_terminal_of_pendingReference locked.status) decided).1
  | waits locked _ _ _ _ decided =>
    exact hsame locked (decide_row (not_terminal_of_pendingReference locked.status) decided).1
  | applied locked _ _ _ _ _ _ _ _ _ applies =>
    exact hsame locked (applyEffect_row (not_terminal_of_pendingReference locked.status) applies)

theorem RetrySeq.rowIds (h : RetrySeq P looked own now d ws) :
    (d.applyAll ws).wagerTransactions.map (·.id) = d.wagerTransactions.map (·.id) := by
  induction h with
  | nil d => rfl
  | @cons d w ws head _ ih =>
    obtain ⟨tx, htx, t, hrow, hid⟩ := head.row
    refine ih.trans ?_
    show (upsertAll _ d.wagerTransactions w.wagerTransactions).map _ = _
    rw [hrow]
    refine map_upsertAll_of_same (fun x hx => ?_) (fun x _ r _ hkey => hkey)
    obtain rfl := List.mem_singleton.mp hx
    exact ⟨tx, htx, hid.symm⟩

/-- A run returns by its commit. -/
theorem step_to_returned {count : Nat}
    (hstep : step P i n inp s stage = some (s', .returned count)) :
    ∃ run, stage = .item run [] := by
  cases step_way hstep with
  | commits => exact ⟨_, rfl⟩

end Reprocess

theorem commit_retries (h : Reachable (step P) initial c)
    (hproc : c.procs i = .reprocess n (.item run []))
    (hpicked : ∀ tx ∈ run.batch, tx ∈ c.shared.db.backlog)
    (hlength : run.batch.length = min m c.shared.db.backlog.length)
    (hmoved : next (step P) c i (.step inp) = some c') :
    Retries m c.shared.db c'.shared.db run.batch := by
  obtain ⟨hs, hprocs⟩ := reachable_ok h
  have hinj := hs.consistent.transactionIds
  have hrun : Reprocess.RunOk P (owns c.shared i) c.shared.db run [] := by
    have hok := hprocs i
    rw [hproc] at hok
    exact hok
  have hrow : ∀ tx ∈ run.batch, tx ∈ c.shared.db.wagerTransactions :=
    fun tx htx => (mem_backlog.mp (hpicked tx htx)).1
  refine ⟨hpicked, hrun.nodup.of_map _, hlength, fun tx htx => ?_, fun t ht hout => ?_, ?_⟩
  · rcases picks_cases h (reachable_retrying h tx.id i) hmoved with ⟨hnone, -⟩ | ⟨p, t, -, hp⟩
    · unfold picks at hnone
      rw [hproc] at hnone
      dsimp only [committedRun] at hnone
      rw [filter_of_mem hrun.nodup htx] at hnone
      cases hnone
    · have hseen : p.seen = tx := List.inj_on_of_nodup_map hinj hp.seen (hrow tx htx) hp.seenId
      exact ⟨p.now, t, hp.row, hp.rowId, hseen ▸ hp.tried⟩
  · refine row_stays h hmoved ht fun run' hcommitted tx htx hid => hout ?_
    rw [hproc] at hcommitted
    obtain rfl := Option.some.inj hcommitted
    exact List.inj_on_of_nodup_map hinj (hrow tx htx) ht hid ▸ htx
  · obtain ⟨looked, hlinear⟩ := reachable_linear h i
    have hstep := next_self hmoved
    rw [hproc] at hlinear hstep
    have hdb : c'.shared.db = c.shared.db.applyAll run.writes :=
      congrArg (fun out => out.1.db) (Option.some.inj hstep).symm
    rw [hdb]
    exact hlinear.retries.rowIds

/-! ## A run alone -/

namespace Reprocess

/-- The reference that the run has found is still not reversed. -/
def Current (s : Shared) : ReprocessStage → Prop
  | .resolved run tx _ (.resolved reference) _ | .applyEffect run tx _ _ reference _ =>
    NotReversed (view s run) tx reference
  | _ => True

theorem Current.stillOpen (h : Current s stage) : StillOpen s stage := by
  cases stage with
  | applyEffect => exact h
  | _ => trivial

theorem step_current (h : Current s stage) (hstep : step P i n inp s stage = some (s', stage')) :
    Current s' stage' := by
  cases stage' with
  | resolved run tx ctx resolution rest =>
    cases resolution with
    | resolved reference =>
      obtain ⟨rfl, -, hfind⟩ := step_to_resolved hstep
      exact notReversed_iff.mpr (notReversed_of_findReversal hfind)
    | pending | rejected => trivial
  | applyEffect run tx ctx wallet reference rest =>
    obtain ⟨rfl, hdb⟩ := step_to_applyEffect hstep
    show NotReversed (s'.db.applyAll run.writes) tx reference
    rw [hdb]
    exact h
  | _ => trivial

end Reprocess

/-- Where the run of `i`, which began on `d`, has come to. -/
inductive Working (n : Nat) (d : Database) (i : Pid) (c : Config Shared Proc) : Prop
  | deciding {stage : ReprocessStage} {batch : List WagerTransaction}
      (proc : c.procs i = .reprocess n stage) (decides : Reprocess.batch? stage = some batch)
      (picked : ∀ tx ∈ batch, tx ∈ d.backlog) (length : batch.length = min n d.backlog.length)
      (db : c.shared.db = d) (current : Reprocess.Current c.shared stage)
  | returned {batch : List WagerTransaction}
      (proc : c.procs i = .reprocess n (.returned batch.length))
      (retries : Retries n d c.shared.db batch)

/-- A step brings the run nearer to its commit. -/
theorem working_step (h : Reachable (step P) initial c)
    (hproc : c.procs i = .reprocess n stage) (hbatch : Reprocess.batch? stage = some batch)
    (hpicked : ∀ tx ∈ batch, tx ∈ d.backlog) (hlength : batch.length = min n d.backlog.length)
    (hdb : c.shared.db = d) (hcurrent : Reprocess.Current c.shared stage)
    (hmoved : next (step P) c i (.step inp) = some c') :
    ∃ stage', c'.procs i = .reprocess n stage' ∧
      Working n d i c' ∧ Reprocess.stepsLeft stage' < Reprocess.stepsLeft stage ∧
        Reprocess.step P i n inp c.shared stage = some (c'.shared, stage') := by
  obtain ⟨hs, hprocs⟩ := reachable_ok h
  have hok := hprocs i
  have hstep := next_self hmoved
  rw [hproc] at hok hstep
  obtain ⟨⟨s₁, stage'⟩, hinner, hout⟩ := Option.map_eq_some_iff.mp hstep
  obtain ⟨rfl, hproc'⟩ := Prod.mk.inj hout
  obtain ⟨hdeciding, hlt⟩ := Reprocess.step_deciding hs hok hcurrent.stillOpen hbatch hinner
  refine ⟨stage', hproc'.symm, ?_, hlt, hinner⟩
  rcases hdeciding with hbatch' | ⟨rfl, -⟩
  · rcases Reprocess.step_writes hinner with ⟨run, rfl, -, -⟩ | hwriting
    · obtain ⟨-, rfl⟩ := Prod.mk.inj (Option.some.inj hinner)
      cases hbatch'
    · exact .deciding hproc'.symm hbatch' hpicked hlength (hwriting.db.trans hdb)
        (Reprocess.step_current hcurrent hinner)
  · obtain ⟨run, rfl⟩ := Reprocess.step_to_returned hinner
    obtain rfl := Option.some.inj hbatch
    subst hdb
    exact .returned hproc'.symm (commit_retries h hproc hpicked hlength hmoved)

/-! ## In the system -/

/-- No call is under way. -/
def AtRest (c : Config Shared Proc) : Prop := ∀ j, (c.procs j).running = false

theorem not_owns_of_rest (h : Reachable (step P) initial c) (hrest : (c.procs j).running = false)
    {k : Resource} (hlock : k.isLock = true) : ¬owns c.shared j k := by
  intro howns
  have hrunning := Proc.running_of_mayHold (reachable_holds h j k hlock howns)
  rw [hrest] at hrunning
  cases hrunning

theorem AtRest.unlocked (hrest : AtRest c) (h : Reachable (step P) initial c) {k : Resource}
    (hlock : k.isLock = true) : c.shared.locks k = none := by
  by_contra hheld
  obtain ⟨j, hj⟩ := Option.ne_none_iff_exists'.mp hheld
  exact not_owns_of_rest h (hrest j) hlock hj

/-- Every row that waits may be tried at `now`. -/
def Database.RetryDue (d : Database) (now : Date) : Prop :=
  ∀ t ∈ d.backlog, Database.duePendingReference now t = true

/-- `i` begins a run when all that waits is due, and nobody else moves. -/
def RetryBegun (P : Platform) (n : Nat) (i : Pid) (c c' : Config Shared Proc) : Prop :=
  ∃ c₀ c₁ inp, next (step P) c i (.start (.reprocess n)) = some c₀ ∧
    c.shared.db.RetryDue inp.now ∧ next (step P) c₀ i (.step inp) = some c₁ ∧
      Reach (step P) (OnlySteps i) c₁ c'

/-- `i` makes a run alone, which returns. -/
def RetriesAlone (P : Platform) (n : Nat) (i : Pid) (c c' : Config Shared Proc) : Prop :=
  RetryBegun P n i c c' ∧ ∃ count, c'.procs i = .reprocess n (.returned count)

theorem RetryBegun.reachable (hbegun : RetryBegun P n i c c')
    (h : Reachable (step P) initial c) : Reachable (step P) initial c' := by
  obtain ⟨c₀, c₁, inp, hstart, -, hbegin, hsteps⟩ := hbegun
  exact Reach.trans (.step (.step h trivial hstart) trivial hbegin) hsteps.reachable

theorem onlySteps_other (hsteps : Reach (step P) (OnlySteps i) c c') (hj : j ≠ i) :
    c'.procs j = c.procs j := by
  refine hsteps.invariant (P := fun c' => c'.procs j = c.procs j) rfl ?_
  rintro c₁ i' a c₂ - hsame ⟨rfl, -⟩ hmoved
  exact (next_other hmoved hj).trans hsame

theorem RetriesAlone.atRest (hrun : RetriesAlone P n i c c') (hrest : AtRest c) : AtRest c' := by
  obtain ⟨⟨c₀, c₁, inp, hstart, -, hbegin, hsteps⟩, count, hreturned⟩ := hrun
  intro j
  by_cases hj : j = i
  · rw [hj, hreturned]
    rfl
  · rw [onlySteps_other hsteps hj, next_other hbegin hj, next_other hstart hj]
    exact hrest j

namespace Reprocess

section

variable (hfree : ∀ id, s.locks (.transaction id) = none) (hdue : s.db.RetryDue now)
include hfree hdue

theorem candidates_eq : s.db.wagerTransactions.filter (available s now) = s.db.backlog := by
  refine List.filter_congr fun t ht => ?_
  rw [available, hfree, decide_eq_true rfl, Bool.and_true, Bool.eq_iff_iff]
  constructor
  · intro hdue
    exact (Bool.and_eq_true_iff.mp hdue).1
  · intro hwaits
    exact hdue t (List.mem_filter.mpr ⟨ht, hwaits⟩)

theorem isBatch_picks (hbatch : isBatch s now n ids = true) :
    (∀ tx ∈ ids.filterMap s.db.findWagerTransaction, tx ∈ s.db.backlog) ∧
      (ids.filterMap s.db.findWagerTransaction).length = min n s.db.backlog.length := by
  simp only [isBatch, Bool.and_eq_true, decide_eq_true_eq, List.all_eq_true] at hbatch
  obtain ⟨⟨-, havailable⟩, hlength⟩ := hbatch
  have hfound : ∀ id ∈ ids, (s.db.findWagerTransaction id).isSome = true := by
    intro id hid
    obtain ⟨t, ht, -⟩ := (Option.any_eq_true _ _).mp (havailable id hid)
    rw [ht]
    rfl
  constructor
  · intro tx htx
    obtain ⟨id, hid, hrow⟩ := List.mem_filterMap.mp htx
    have hcandidate := havailable id hid
    rw [hrow] at hcandidate
    rw [← candidates_eq hfree hdue]
    exact List.mem_filter.mpr ⟨(lookup_mem hrow).1, hcandidate⟩
  · have hids : (ids.filterMap s.db.findWagerTransaction).map (·.id) = ids :=
      map_filterMap_lookup hfound
    calc (ids.filterMap s.db.findWagerTransaction).length
      _ = ids.length := (List.length_map _).symm.trans (congrArg List.length hids)
      _ = min n s.db.backlog.length := by
        rw [hlength, List.countP_eq_length_filter, candidates_eq hfree hdue]

/-- There is always a batch to pick. -/
theorem exists_isBatch (hids : (s.db.wagerTransactions.map (·.id)).Nodup) (n : Nat) :
    ∃ ids, isBatch s now n ids = true ∧ ids.length ≤ n := by
  have hrow : ∀ t ∈ s.db.backlog.take n, t ∈ s.db.wagerTransactions.filter (available s now) :=
    fun t ht => candidates_eq hfree hdue ▸ List.mem_of_mem_take ht
  refine ⟨(s.db.backlog.take n).map (·.id), ?_, ?_⟩
  · simp only [isBatch, Bool.and_eq_true, decide_eq_true_eq, List.all_eq_true]
    refine ⟨⟨?_, fun id hid => ?_⟩, ?_⟩
    · exact hids.sublist (((List.take_sublist n _).trans List.filter_sublist).map _)
    · obtain ⟨t, ht, rfl⟩ := List.mem_map.mp hid
      obtain ⟨hmem, havailable⟩ := List.mem_filter.mp (hrow t ht)
      have hfound : s.db.findWagerTransaction t.id = some t := lookup_of_mem hids hmem
      rw [hfound]
      exact havailable
    · rw [List.length_map, List.length_take, List.countP_eq_length_filter,
        candidates_eq hfree hdue]
  · rw [List.length_map, List.length_take]
    exact Nat.min_le_left n _

end

theorem step_begin_batch (hbatch : isBatch s inp.now n inp.batch = true)
    (htake : s.take i (inp.batch.map .transaction) = some s') :
    step P i n inp s .begin = some (s', .item
      ⟨inp.now, inp.batch.filterMap s.db.findWagerTransaction, []⟩
      (inp.batch.filterMap s.db.findWagerTransaction)) := by
  dsimp only [step]
  rw [if_pos hbatch]
  show (s.take i (inp.batch.map .transaction)).bind _ = _
  rw [htake]
  rfl

end Reprocess

theorem begin_working (h : Reachable (step P) initial c) (hrest : AtRest c)
    (hstart : next (step P) c i (.start (.reprocess n)) = some c₀)
    (hdue : c.shared.db.RetryDue inp.now) (hbegin : next (step P) c₀ i (.step inp) = some c₁) :
    Working n c.shared.db i c₁ := by
  obtain ⟨hshared, hproc⟩ := start_reprocess hstart
  have hstep := next_self hbegin
  rw [hproc, hshared] at hstep
  obtain ⟨⟨s₁, stage₁⟩, hinner, hout⟩ := Option.map_eq_some_iff.mp hstep
  obtain ⟨rfl, hproc₁⟩ := Prod.mk.inj hout
  dsimp only [Reprocess.step] at hinner
  split at hinner
  · rename_i hbatch
    obtain ⟨s₂, htake, hrest'⟩ := Option.bind_eq_some_iff.mp hinner
    obtain ⟨rfl, rfl⟩ := Prod.mk.inj (Option.some.inj hrest')
    obtain ⟨hpicked, hlength⟩ :=
      Reprocess.isBatch_picks (fun id => hrest.unlocked h rfl) hdue hbatch
    exact .deciding hproc₁.symm rfl hpicked hlength (take_db htake) trivial
  · cases hinner

theorem begun_working (h : Reachable (step P) initial c) (hrest : AtRest c)
    (hbegun : RetryBegun P n i c c') : Working n c.shared.db i c' := by
  obtain ⟨c₀, c₁, inp, hstart, hdue, hbegin, hsteps⟩ := hbegun
  have hreach₁ : Reachable (step P) initial c₁ := .step (.step h trivial hstart) trivial hbegin
  refine hsteps.invariant (P := Working n c.shared.db i)
    (begin_working h hrest hstart hdue hbegin) ?_
  rintro c₂ i' a c₃ hrun hworking ⟨rfl, inp', rfl⟩ hmoved
  cases hworking with
  | deciding proc decides picked length db current =>
    obtain ⟨-, -, hworking, -, -⟩ := working_step (hreach₁.trans hrun.reachable) proc decides
      picked length db current hmoved
    exact hworking
  | returned proc retries =>
    have hstep := next_self hmoved
    rw [proc] at hstep
    cases hstep

theorem retriesAlone_retries (h : Reachable (step P) initial c) (hrest : AtRest c)
    (hrun : RetriesAlone P n i c c') : ∃ batch, Retries n c.shared.db c'.shared.db batch := by
  obtain ⟨hbegun, count, hreturned⟩ := hrun
  cases begun_working h hrest hbegun with
  | deciding proc decides =>
    rw [hreturned] at proc
    obtain rfl := (Proc.reprocess.inj proc).2
    cases decides
  | returned _ retries => exact ⟨_, retries⟩

/-! ### A run can always be made -/

/-- `k` runs, each alone and each when all that waits is due. -/
inductive RetriesInTurn (P : Platform) (n : Nat) :
    Nat → Config Shared Proc → Config Shared Proc → Prop
  | none (c : Config Shared Proc) : RetriesInTurn P n 0 c c
  | next {i : Pid} {k : Nat} {c c₁ c' : Config Shared Proc} (first : RetriesAlone P n i c c₁)
      (rest : RetriesInTurn P n k c₁ c') : RetriesInTurn P n (k + 1) c c'

theorem RetriesInTurn.reachable (hruns : RetriesInTurn P n k c c')
    (h : Reachable (step P) initial c) : Reachable (step P) initial c' := by
  induction hruns with
  | none => exact h
  | next first _ ih => exact ih (first.1.reachable h)

theorem RetriesInTurn.atRest (hruns : RetriesInTurn P n k c c') (hrest : AtRest c) :
    AtRest c' := by
  induction hruns with
  | none => exact hrest
  | next first _ ih => exact ih (first.atRest hrest)

/-- Runs in turn are rounds in which the rows spend the picks that they have left. -/
theorem RetriesInTurn.rounds (hruns : RetriesInTurn P n k c c') (h : Reachable (step P) initial c)
    (hrest : AtRest c) :
    RoundSeq c.shared.db.rowIds n k c.shared.db.picksLeft c'.shared.db.picksLeft ∧
      c'.shared.db.wagerTransactions.map (·.id) = c.shared.db.wagerTransactions.map (·.id) := by
  induction hruns with
  | none => exact ⟨.none _, rfl⟩
  | @next i k c c₁ c' first rest ih =>
    obtain ⟨batch, hretries⟩ := retriesAlone_retries h hrest first
    have hreach₁ := first.1.reachable h
    obtain ⟨hrounds, hids⟩ := ih hreach₁ (first.atRest hrest)
    rw [hretries.rowIds] at hrounds
    exact ⟨.next (hretries.round (reachable_consistent h) (reachable_consistent hreach₁)) hrounds,
      hids.trans hretries.ids⟩

/-- A row that does not wait is not changed. -/
theorem RetriesInTurn.kept (hruns : RetriesInTurn P n k c c') (h : Reachable (step P) initial c)
    (hrest : AtRest c) (ht : t ∈ c.shared.db.wagerTransactions)
    (hdone : t.status ≠ .pendingReference) : t ∈ c'.shared.db.wagerTransactions := by
  induction hruns with
  | none => exact ht
  | next first _ ih =>
    obtain ⟨batch, hretries⟩ := retriesAlone_retries h hrest first
    refine ih (first.1.reachable h) (first.atRest hrest) (hretries.kept t ht fun hin => ?_)
    exact hdone (mem_backlog.mp (hretries.picked t hin)).2

theorem RetriesInTurn.settled (hruns : RetriesInTurn P n k c c')
    (h : Reachable (step P) initial c) (hrest : AtRest c)
    (hmany : MAX_REFERENCE_RETRY_ATTEMPTS * (c.shared.db.backlog.length + (n - 1)) ≤ k * n) :
    c'.shared.db.backlog = [] := by
  have hc := reachable_consistent h
  obtain ⟨hrounds, hids⟩ := hruns.rounds h hrest
  have hnone : waiting c'.shared.db.rowIds c'.shared.db.picksLeft = ∅ := by
    have hrows : c'.shared.db.rowIds = c.shared.db.rowIds := by
      rw [Database.rowIds, hids, Database.rowIds]
    rw [hrows]
    refine hrounds.done ((bound_le fun id hid => picksLeft_le hc hid).trans ?_)
    rw [card_waiting hc]
    exact hmany
  rw [waiting_eq (reachable_consistent (hruns.reachable h)), List.toFinset_eq_empty_iff,
    List.map_eq_nil_iff] at hnone
  exact hnone

end WageringProcessor
