import WageringProcessor.Invariants.LinearCalls
import WageringProcessor.Invariants.ReprocessAlone

/-!
# The commits of the two batches

A retry looks for its reference before it locks the wallet, so between the two the reference may
come or be reversed.  Whatever it wrote is still one of the retries of the serial system when the
batch commits.
-/

namespace WageringProcessor

open Library.Interleaving (Pid)
open Library.Table WagerTransactionFinalizer Relation

variable {P : Platform} {i : Pid} {s s' : Shared} {d d' : Database} {own own' : Resource → Prop}
  {inp : Input} {w : Writes} {ws : List Writes} {now : Date} {wallet : Wallet}
  {tx b : WagerTransaction} {ctx : EventContext} {newId : Nat → Id}
  {looked looked' : Query → Database → Prop}

theorem newMessageIds_single {id : Id} (h : NewId own d id) : d.NewMessageIds [id] :=
  ⟨List.nodup_singleton id, fun m hm hmem => h.fresh m hm (List.mem_singleton.mp hmem)⟩

/-- One id that is new can be given a second one. -/
theorem exists_second_id {id : Id} (h : NewId own d id) : ∃ id', d.NewMessageIds [id, id'] := by
  obtain ⟨id', hid'⟩ := exists_new_id (id :: d.outboxMessages.map OutboxMessage.id)
  rw [List.mem_cons, not_or] at hid'
  refine ⟨id', by simpa using Ne.symm hid'.1, fun m hm hmem => ?_⟩
  rcases List.mem_pair.mp hmem with heq | heq
  · exact h.fresh m hm heq
  · exact hid'.2 (heq ▸ List.mem_map_of_mem hm)

namespace Reprocess

variable {run : ReprocessRun} {todo rest : List WagerTransaction} {reference : WagerTransaction}
  {stage stage' : ReprocessStage} {batchSize : Nat}

/-! ## A retry -/

/-- The reference of `tx` was not there, or not settled, when the call looked for it. -/
def Unresolved (looked : Query → Database → Prop) (tx : WagerTransaction) : Prop :=
  ∃ v, looked (.reference tx) v ∧ resolveReference v tx = .ok .pending

/-- The reference of `tx` was not reversed when the call looked for its reversal. -/
def Unreversed (looked : Query → Database → Prop) (tx : WagerTransaction) : Prop :=
  ∃ v, looked (.reversal tx) v ∧
    resolveReference v tx ≠ .ok (.rejected .referenceAlreadyReversed)

theorem Unresolved.mono (hlooked : ∀ q v, looked q v → looked' q v) (h : Unresolved looked tx) :
    Unresolved looked' tx :=
  h.imp fun _ hv => hv.imp_left (hlooked _ _)

theorem Unreversed.mono (hlooked : ∀ q v, looked q v → looked' q v) (h : Unreversed looked tx) :
    Unreversed looked' tx :=
  h.imp fun _ hv => hv.imp_left (hlooked _ _)

/-- What the run has written about one of its items, and why. -/
inductive Retry (P : Platform) (looked : Query → Database → Prop) (own : Resource → Prop)
    (now : Date) (d : Database) : Writes → Prop
  | rejected {tx : WagerTransaction} {ctx : EventContext} {code : FailureCode} {eventId : Id}
      {w : Writes} (locked : LockedRow own d tx) (due : Database.duePendingReference now tx = true)
      (time : ctx.now = now) (resolves : resolveReference d tx = .ok (.rejected code))
      (new : NewId own d eventId) (decided : decide P tx ctx (some code) eventId = .ok w) :
      Retry P looked own now d w
  | waits {tx : WagerTransaction} {ctx : EventContext} {eventId : Id} {w : Writes}
      (locked : LockedRow own d tx) (due : Database.duePendingReference now tx = true)
      (time : ctx.now = now) (missed : Unresolved looked tx) (new : NewId own d eventId)
      (decided : decide P tx ctx none eventId = .ok w) : Retry P looked own now d w
  | applied {tx b : WagerTransaction} {ctx : EventContext} {wallet : Wallet} {r : WalletRow}
      {newId : Nat → Id} {out : WagerTransaction × Wallet × Writes}
      (locked : LockedRow own d tx) (due : Database.duePendingReference now tx = true)
      (time : ctx.now = now) (held : HeldWallet P own d tx wallet r)
      (reverses : ReferenceOk P d tx (some b)) (eligible : Eligible d tx b)
      (unreversed : Unreversed looked tx)
      (first : NewId own d (newId 1)) (second : NewId own d (newId 2))
      (distinct : newId 1 ≠ newId 2)
      (applies : applyEffect P tx wallet (some b) ctx newId = .ok out)
      (once : NotReversed d tx b ∨ tx.kind = .rollback ∧
        decide P tx ctx (some .rollbackInsufficientBalance) (newId 1) = .ok out.2.2) :
      Retry P looked own now d out.2.2

theorem LockedRow.missing (h : LockedRow own d tx) (hc : Consistent P d) :
    WagerTransaction.missingReference tx.referenceExternalTransactionId = false :=
  (hc.rows tx h.row).identity.reference (LockedRow.waiting h hc).kind

theorem Retry.stable (h : Retry P looked own now d w) (hc : Consistent P d) (hc' : Consistent P d')
    (hown : ∀ k, own k → own' k) (f : Frame own d d')
    (hlooked : ∀ q v, looked q v → looked' q v) : Retry P looked' own' now d' w := by
  cases h with
  | rejected locked due time resolves new decided =>
    exact .rejected (locked.stable hown f) due time
      ((f.later hc').rejected (LockedRow.missing locked hc) resolves) (new.stable hown f) decided
  | waits locked due time missed new decided =>
    exact .waits (locked.stable hown f) due time (missed.mono hlooked) (new.stable hown f) decided
  | applied locked due time held reverses eligible unreversed first second distinct applies once =>
    refine .applied (locked.stable hown f) due time (held.stable hown f) (reverses.stable f)
      (eligible.later (f.later hc')) (unreversed.mono hlooked) (first.stable hown f)
        (second.stable hown f) distinct applies ?_
    -- the wallet is locked by now, so nobody else reverses the reference
    rcases once with hopen | hrefused
    · exact Or.inl (hopen.stable hc' f held reverses (LockedRow.waiting locked hc).kind)
    · exact Or.inr hrefused

theorem mapError_ok {ε ε' α : Type} {x : Except ε α} {a : α} (f : ε → ε') (h : x = .ok a) :
    x.mapError f = .ok a := by
  rw [h]
  rfl

theorem LockedRow.findWallet {r : WalletRow} (h : LockedRow own d tx) (hc : Consistent P d)
    (hheld : HeldWallet P own d tx wallet r) :
    P.uuid tx.walletId = some tx.walletId ∧ d.findWallet tx.walletId = some wallet := by
  have hcanonical := (hc.rows tx h.row).identity.wallet
  have hid : r.id = tx.walletId := by
    rw [hheld.named, Platform.canonical_of_uuid hcanonical]
  refine ⟨hcanonical, ?_⟩
  rw [← hid, hc.findWallet hheld.row, hheld.read]

/-- It is a retry of the serial system. -/
theorem Retry.serial (h : Retry P looked own now d w) (hc : Consistent P d) :
    SerialStep P looked d (d.apply w) := by
  cases h with
  | @rejected tx ctx code eventId _ locked due time resolves new decided =>
    obtain ⟨id', hids⟩ := exists_second_id new
    have hprocessed : processOne P d tx ctx (fun n => if n = 1 then eventId else id') = .ok w := by
      unfold processOne
      rw [resolves]
      exact mapError_ok _ decided
    exact .retries locked.row (time ▸ due) (.decides hids hprocessed)
  | @waits tx ctx eventId _ locked due time missed new decided =>
    refine .retries locked.row (time ▸ due) ?_
    by_cases hpending : resolveReference d tx = .ok .pending
    · obtain ⟨id', hids⟩ := exists_second_id new
      have hprocessed :
          processOne P d tx ctx (fun n => if n = 1 then eventId else id') = .ok w := by
        unfold processOne
        rw [hpending]
        exact mapError_ok _ decided
      exact .decides hids hprocessed
    · obtain ⟨v, hasked, hunresolved⟩ := missed
      exact .misses (newMessageIds_single new) hasked hunresolved hpending decided
  | @applied tx b ctx wallet r newId out locked due time held reverses eligible unreversed first
      second distinct applies once =>
    have hresolve := resolveReference_of_eligible eligible (LockedRow.missing locked hc)
    have hids := newMessageIds_pair first second distinct
    refine @SerialStep.retries P looked d tx ctx _ locked.row (time ▸ due) ?_
    rcases findReversal_eq d tx b with ⟨-, hfind⟩ | ⟨hreversed, hfind⟩
    · obtain ⟨huuid, hfound⟩ := LockedRow.findWallet locked hc held
      refine .decides hids ?_
      unfold processOne
      rw [hresolve, hfind]
      dsimp only
      rw [huuid]
      dsimp only
      rw [hfound]
      dsimp only
      rw [applies]
      rfl
    · rcases once with hopen | ⟨hkind, hdecided⟩
      · exact absurd hopen hreversed
      · obtain ⟨v, hasked, hunreversed⟩ := unreversed
        exact .overlooks (newMessageIds_single first) hasked hunreversed
          (hresolve.trans (congrArg _ hfind)) hkind hdecided

/-! ## The retries of a batch -/

/-- Each in the database that the ones before it leave. -/
inductive RetrySeq (P : Platform) (looked : Query → Database → Prop) (own : Resource → Prop)
    (now : Date) : Database → List Writes → Prop
  | nil (d : Database) : RetrySeq P looked own now d []
  | cons {d : Database} {w : Writes} {ws : List Writes} (head : Retry P looked own now d w)
      (tail : RetrySeq P looked own now (d.apply w) ws) : RetrySeq P looked own now d (w :: ws)

theorem RetrySeq.concat (h : RetrySeq P looked own now d ws)
    (hw : Retry P looked own now (d.applyAll ws) w) :
    RetrySeq P looked own now d (ws ++ [w]) := by
  induction h with
  | nil d => exact .cons hw (.nil _)
  | cons head _ ih => exact .cons head (ih hw)

theorem RetrySeq.stable (h : RetrySeq P looked own now d ws) (hs : SettledSeq P own d ws)
    (hc : Consistent P d) (hc' : Consistent P d') (hown : ∀ k, own k → own' k)
    (f : Frame own d d') (hlooked : ∀ q v, looked q v → looked' q v) :
    RetrySeq P looked' own' now d' ws := by
  induction h generalizing d' with
  | nil d => exact .nil d'
  | cons head _ ih =>
    cases hs with
    | cons hhead htail =>
      exact .cons (head.stable hc hc' hown f hlooked)
        (ih htail ((Permitted.settled hhead).consistent hc)
        ((Permitted.settled (hhead.stable hown f)).consistent hc') (hhead.frame_apply f hc))

theorem RetrySeq.serial (h : RetrySeq P looked own now d ws) (hs : SettledSeq P own d ws)
    (hc : Consistent P d) : ReflTransGen (SerialStep P looked) d (d.applyAll ws) := by
  induction h with
  | nil d => exact .refl
  | cons head _ ih =>
    cases hs with
    | cons hhead htail =>
      exact .head (head.serial hc) (ih htail ((Permitted.settled hhead).consistent hc))

/-! ## The stages -/

/-- What the run has found for the reference of `tx` and not yet acted on. -/
def Read (looked : Query → Database → Prop) (v : Database) (tx : WagerTransaction) :
    ReferenceResolution → Prop
  | .pending => Unresolved looked tx
  | .rejected code => resolveReference v tx = .ok (.rejected code)
  | .resolved b => Eligible v tx b ∧ Unreversed looked tx

structure RunLinear (P : Platform) (looked : Query → Database → Prop) (own : Resource → Prop)
    (d : Database) (run : ReprocessRun) (todo : List WagerTransaction) : Prop where
  retries : RetrySeq P looked own run.now d run.writes
  due : ∀ tx ∈ todo, Database.duePendingReference run.now tx = true

def Linear (P : Platform) (looked : Query → Database → Prop) (own : Resource → Prop)
    (d : Database) : ReprocessStage → Prop
  | .item run todo => RunLinear P looked own d run todo
  | .findReversal run tx ctx reference rest => RunLinear P looked own d run (tx :: rest) ∧
      ctx.now = run.now ∧ Eligible (d.applyAll run.writes) tx reference
  | .resolved run tx ctx resolution rest => RunLinear P looked own d run (tx :: rest) ∧
      ctx.now = run.now ∧ Read looked (d.applyAll run.writes) tx resolution
  | .applyEffect run tx ctx _ reference rest => RunLinear P looked own d run (tx :: rest) ∧
      ctx.now = run.now ∧ Eligible (d.applyAll run.writes) tx reference ∧ Unreversed looked tx
  | _ => True

theorem Read.later {v v' : Database} {resolution : ReferenceResolution}
    (h : Read looked v tx resolution) (hlater : Later v v' tx)
    (hnamed : WagerTransaction.missingReference tx.referenceExternalTransactionId = false)
    (hlooked : ∀ q v, looked q v → looked' q v) : Read looked' v' tx resolution := by
  cases resolution with
  | pending => exact Unresolved.mono hlooked h
  | rejected code => exact hlater.rejected hnamed h
  | resolved b => exact ⟨h.1.later hlater, h.2.mono hlooked⟩

section

variable (hc : Consistent P d) (hc' : Consistent P d') (hown : ∀ k, own k → own' k)
  (f : Frame own d d')
include hc hc' hown f

theorem RunOk.later (hok : RunOk P own d run todo) :
    Later (d.applyAll run.writes) (d'.applyAll run.writes) tx :=
  (hok.settled.frame_applyAll hc f).later ((hok.stable hc hown f).consistent hc')

variable (hlooked : ∀ q v, looked q v → looked' q v)
include hlooked

theorem RunLinear.stable (h : RunLinear P looked own d run todo) (hok : RunOk P own d run rest) :
    RunLinear P looked' own' d' run todo :=
  ⟨h.retries.stable hok.settled hc hc' hown f hlooked, h.due⟩

theorem Linear.stable (h : Linear P looked own d stage) (hok : Ok P own d stage) :
    Linear P looked' own' d' stage := by
  cases stage with
  | item => exact RunLinear.stable hc hc' hown f hlooked h hok
  | findReversal =>
    exact ⟨h.1.stable hc hc' hown f hlooked hok.1, h.2.1,
      h.2.2.later (RunOk.later hc hc' hown f hok.1)⟩
  | resolved =>
    exact ⟨h.1.stable hc hc' hown f hlooked hok.1, h.2.1, Read.later h.2.2
      (RunOk.later hc hc' hown f hok.1) (LockedRow.missing hok.1.head (hok.1.consistent hc))
        hlooked⟩
  | applyEffect =>
    exact ⟨h.1.stable hc hc' hown f hlooked hok.1, h.2.1,
      h.2.2.1.later (RunOk.later hc hc' hown f hok.1), h.2.2.2.mono hlooked⟩
  | begin | returned | threw => trivial

end

/-! ## What the writes of the run hide -/

/-- The committed rows are an earlier view of what the run reads. -/
theorem RunOk.committed (hok : RunOk P own d run todo) (hc : Consistent P d) :
    Later d (d.applyAll run.writes) tx :=
  (hok.settled.keeps hc).later (hok.consistent hc)

theorem RunOk.unresolved (hok : RunOk P own d run todo) (hc : Consistent P d)
    (hnamed : WagerTransaction.missingReference tx.referenceExternalTransactionId = false)
    (h : resolveReference (d.applyAll run.writes) tx = .ok .pending) :
    resolveReference d tx = .ok .pending := by
  have hlater : Later d (d.applyAll run.writes) tx := hok.committed hc
  cases hresolve : resolveNamed d tx (d.named tx) with
  | pending => rw [resolveReference_eq hnamed, hresolve]
  | rejected code =>
    have hrejected := hlater.rejected hnamed
      ((resolveReference_eq hnamed).trans (congrArg Except.ok hresolve))
    cases hrejected.symm.trans h
  | resolved reference =>
    rcases hlater.resolved hnamed
      ((resolveReference_eq hnamed).trans (congrArg Except.ok hresolve)) with ⟨-, hr⟩ | ⟨-, hr⟩
    · cases hr.symm.trans h
    · cases hr.symm.trans h

/-! ## A step -/

theorem begin_linear (hbatch : isBatch s inp.now batchSize inp.batch = true) {d : Database} :
    RunLinear P looked own d ⟨inp.now, inp.batch.filterMap s.db.findWagerTransaction, []⟩
      (inp.batch.filterMap s.db.findWagerTransaction) := by
  simp only [isBatch, Bool.and_eq_true, decide_eq_true_eq, List.all_eq_true] at hbatch
  obtain ⟨⟨-, hdue⟩, -⟩ := hbatch
  refine ⟨.nil _, fun tx htx => ?_⟩
  obtain ⟨id, hid, hrow⟩ := List.mem_filterMap.mp htx
  have havailable := hdue id hid
  rw [hrow] at havailable
  simp only [Option.any_some, available, Bool.and_eq_true] at havailable
  exact havailable.1

/-- What the first query alone finds. -/
theorem Read.of_find {resolution : ReferenceResolution} (hc : Consistent P d)
    (hok : RunOk P own d run (tx :: rest)) (hlooked : looked (.reference tx) d)
    (hfind : findReference (d.applyAll run.writes) tx = .ok resolution)
    (hunresolved : ∀ reference, resolution ≠ .resolved reference) :
    Read looked (d.applyAll run.writes) tx resolution := by
  have hresolve := resolveReference_of_find hfind hunresolved
  cases resolution with
  | pending =>
    have hnamed := LockedRow.missing hok.head (hok.consistent hc)
    exact ⟨d, hlooked, hok.unresolved hc hnamed hresolve⟩
  | rejected code => exact hresolve
  | resolved reference => exact absurd rfl (hunresolved reference)

/-- What the second query makes of an eligible reference. -/
theorem Read.of_reversal (hc : Consistent P d) (hok : RunOk P own d run (tx :: rest))
    (hlooked : looked (.reversal tx) d)
    (heligible : Eligible (d.applyAll run.writes) tx reference) :
    Read looked (d.applyAll run.writes) tx
      (findReversal (d.applyAll run.writes) tx reference) := by
  have hnamed := LockedRow.missing hok.head (hok.consistent hc)
  have hresolve := resolveReference_of_eligible heligible hnamed
  rcases findReversal_eq (d.applyAll run.writes) tx reference with ⟨-, hfind⟩ | ⟨-, hfind⟩
  · rw [hfind] at hresolve ⊢
    refine ⟨heligible, d, hlooked, fun hreversed => ?_⟩
    -- a reversal that is committed is seen by the run
    cases ((hok.committed hc).rejected hnamed hreversed).symm.trans hresolve
  · rw [hfind] at hresolve ⊢
    exact hresolve

/-- Why the effect of a reversal passes the index: its reference is not reversed, or the balance
does not cover the reversal. -/
theorem applied_once {r : WalletRow} {out : WagerTransaction × Wallet × Writes}
    (hc : Consistent P d) (hlocked : LockedRow own d tx) (hheld : HeldWallet P own d tx wallet r)
    (href : ReferenceOk P d tx (some b))
    (happly : applyEffect P tx wallet (some b) ctx newId = .ok out)
    (hflush : d.flush out.2.2 = .ok ()) : NotReversed d tx b ∨ tx.kind = .rollback ∧
      decide P tx ctx (some .rollbackInsufficientBalance) (newId 1) = .ok out.2.2 := by
  have hrequires := Submit.ReferenceOk.requires href
  have hopen := not_terminal_of_pendingReference hlocked.status
  obtain ⟨b', hb, hrow, hreverses⟩ := href.referenced hrequires
  obtain rfl := Option.some.inj hb
  have heffective : Effective tx wallet (some b) (b.kind ≠ .bet) := by
    rw [hheld.read]
    exact .referenced hc hopen hrequires hrow hreverses hheld.row
      (hheld.named.trans hreverses.walletId.symm) rfl
  rw [applyEffect_eq heffective] at happly
  obtain rfl := Except.ok.inj happly
  cases hrefusal : refusal tx wallet (b.kind ≠ .bet) with
  | some code =>
    right
    rw [effect_refused hrefusal]
    -- only a ROLLBACK that is a debit is refused by its wallet
    unfold refusal at hrefusal
    rcases WagerTransaction.requiresReference_iff.mp hrequires with hk | hk
    · rw [hk] at hrefusal
      cases hrefusal
    · rw [hk] at hrefusal
      dsimp only at hrefusal
      split at hrefusal
      · obtain rfl := Option.some.inj hrefusal
        refine ⟨hk, ?_⟩
        show (reject P tx .rollbackInsufficientBalance ctx (newId 1)).map Prod.snd = _
        rw [reject_eq hopen]
        rfl
      · cases hrefusal
  | none =>
    left
    have hloss : tx.kind ≠ .loss := by
      rcases WagerTransaction.requiresReference_iff.mp hrequires with hk | hk <;> simp [hk]
    rw [effect_accepted hrefusal] at hflush
    unfold acceptance at hflush
    dsimp only at hflush
    rw [if_neg hloss] at hflush
    have honce := (flush_ok hflush).1 _ (List.mem_singleton.mpr rfl)
    intro t ht hp hkind
    by_cases hid : t.id = tx.id
    · obtain rfl := hc.transaction_inj ht hlocked.row hid
      cases hp.symm.trans hlocked.status
    · exact referenceOnce_ok honce rfl hrequires rfl t ht hid hp hkind

theorem Decision.linear {ids : List Id} {outcome : Except DomainError Writes}
    (decision : Decision P inp stage run tx rest ids outcome) (h : Linear P looked own d stage) :
    RunLinear P looked own d run (tx :: rest) := by
  cases decision <;> exact h.1

/-- What a decision writes is a retry. -/
theorem Decision.retry {ids : List Id} {outcome : Except DomainError Writes}
    (decision : Decision P inp stage run tx rest ids outcome) (hc : Consistent P s.db)
    (hd : Drawn s.drawn s.db) (hok : Ok P (owns s i) s.db stage)
    (h : Linear P looked (owns s i) s.db stage) (hw : outcome = .ok w)
    (hdraw : s.draw i P ids = some s') (hflush : (view s run).flush w = .ok ()) :
    Retry P looked (owns s' i) run.now (s'.db.applyAll run.writes) w := by
  have hdraws := draw_draws hdraw
  have hc' : Consistent P s'.db := hdraws.db.symm ▸ hc
  have hnew : ∀ id ∈ ids, NewId (owns s' i) (s'.db.applyAll run.writes) id :=
    fun _ => decision.newId hd hok hdraw
  have hok' := hok.stable hc hdraws.keeps hdraws.frame
  have h' := h.stable hc hc' hdraws.keeps hdraws.frame (fun _ _ hq => hq) hok
  have hrun := decision.runOk hok'
  have hdue := (decision.linear h').due tx List.mem_cons_self
  cases decision with
  | rejects =>
    exact .rejected hrun.head hdue h'.2.1 h'.2.2 (hnew _ List.mem_cons_self) hw
  | waits => exact .waits hrun.head hdue h'.2.1 h'.2.2 (hnew _ List.mem_cons_self) hw
  | applies =>
    obtain ⟨-, htime, heligible, hunreversed⟩ := h'
    obtain ⟨-, href, r, hheld⟩ := hok'
    obtain ⟨out, happly, rfl⟩ := ok_of_map hw
    have hne : inp.newId 1 ≠ inp.newId 2 := by
      have hnodup := hdraws.nodup
      simp only [List.nodup_cons, List.mem_cons, List.not_mem_nil, or_false] at hnodup
      exact hnodup.2.1
    rw [view, ← hdraws.db] at hflush
    exact .applied hrun.head hdue htime hheld href heligible hunreversed (hnew _ (by simp))
      (hnew _ (by simp)) hne happly
      (applied_once (hrun.consistent hc') hrun.head hheld href happly hflush)

theorem step_linear (hc : Consistent P s.db) (hd : Drawn s.drawn s.db)
    (hok : Ok P (owns s i) s.db stage) (h : Linear P looked (owns s i) s.db stage)
    (hlooked : ∀ q, query stage = some q → looked q s.db)
    (hstep : step P i batchSize inp s stage = some (s', stage')) :
    Linear P looked (owns s' i) s'.db stage' := by
  cases step_way hstep with
  | begin batch => exact begin_linear batch
  | found draws finds =>
    have hdraws := draw_draws draws
    rw [view, ← hdraws.db] at finds
    exact ⟨RunLinear.stable hc (hdraws.db.symm ▸ hc) hdraws.keeps hdraws.frame (fun _ _ hq => hq)
      h hok, rfl, eligible_of_findReference finds⟩
  | unresolved draws finds hunresolved =>
    have hdraws := draw_draws draws
    refine ⟨RunLinear.stable hc (hdraws.db.symm ▸ hc) hdraws.keeps hdraws.frame
      (fun _ _ hq => hq) h hok, rfl, ?_⟩
    rw [hdraws.db]
    exact Read.of_find hc hok (hlooked _ rfl) finds hunresolved
  | resolved => exact ⟨h.1, h.2.1, Read.of_reversal hc hok.1 (hlooked _ rfl) h.2.2⟩
  | locked _ _ takes =>
    have hacq := take_acquires takes
    refine ⟨h.1.stable hc (hacq.db.symm ▸ hc) hacq.keeps hacq.frame (fun _ _ hq => hq) hok.1,
      h.2.1, ?_⟩
    rw [hacq.db]
    exact h.2.2
  | decided decision writes draws flush =>
    have hdraws := draw_draws draws
    have hretry := decision.retry hc hd hok h writes draws flush
    have hrun := (decision.linear h).stable hc (hdraws.db.symm ▸ hc) hdraws.keeps hdraws.frame
      (fun _ _ hq => hq) (decision.runOk hok)
    exact ⟨hrun.retries.concat hretry, fun x hx => hrun.due x (List.mem_cons_of_mem _ hx)⟩
  | commits | unnamed | noUuid | noWallet | undecided | unflushed => trivial

end Reprocess

/-! ## Publishing -/

namespace PublishOutbox

variable {run : PublishRun} {stage stage' : PublishStage} {batchSize : Nat}

def Linear : PublishStage → Prop
  | .publishing run _ => ∀ m ∈ run.batch, m.isDue run.now = true
  | _ => True

theorem step_linear (hc : Consistent P s.db) (hok : Ok i (owns s i) s stage) (h : Linear stage)
    (hstep : step i batchSize inp s stage = some (s', stage')) : Linear stage' := by
  match stage, hok, h, hstep with
  | .begin, _, _, hstep =>
    obtain ⟨rows, hbatch, -, rfl⟩ := step_begin_eq hstep
    intro m hm
    have havailable := hbatch.due m hm
    simp only [available, Bool.and_eq_true] at havailable
    exact havailable.1
  | .publishing run [], _, _, hstep =>
    obtain ⟨rfl, rfl⟩ := Prod.mk.inj (Option.some.inj hstep)
    trivial
  | .publishing run (m :: rest), hok, h, hstep =>
    rw [step_publishing hc hok.1] at hstep
    obtain ⟨rfl, rfl⟩ := Prod.mk.inj (Option.some.inj hstep)
    exact h
  | .returned _, _, _, hstep => cases hstep
  | .threw _, _, _, hstep => cases hstep

theorem attempted_of_saved {done saved : List OutboxMessage}
    (h : List.Forall₂ (Saved now) done saved) (hpending : ∀ m ∈ done, m.publishedAt = none) :
    List.Forall₂ (Attempted now) done saved := by
  induction h with
  | nil => exact .nil
  | cons head _ ih =>
    refine .cons ?_ (ih fun m hm => hpending m (List.mem_cons_of_mem _ hm))
    have heq := publishOne_eq (hpending _ List.mem_cons_self) now
    rcases head with rfl | rfl
    · exact ⟨true, heq true⟩
    · exact ⟨false, heq false⟩

/-- The commit of the run. -/
theorem RunOk.serial (h : RunOk own d run []) (hdue : ∀ m ∈ run.batch, m.isDue run.now = true) :
    SerialStep P looked d (d.applyAll (writes run)) := by
  obtain ⟨done, hbatch, hsaved⟩ := h.saved
  rw [List.append_nil] at hbatch
  refine .publishes h.rows hdue h.nodup ?_
  rw [hbatch]
  exact attempted_of_saved hsaved fun m hm => h.pending m (hbatch ▸ hm)

end PublishOutbox

end WageringProcessor
