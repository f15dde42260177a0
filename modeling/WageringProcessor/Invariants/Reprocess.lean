import WageringProcessor.Invariants.Submit
import WageringProcessor.Invariants.ReprocessSteps

/-!
# What a reprocess run knows at each stage

`view` is the database as the run sees it: the committed rows with its own writes on top.
-/

namespace WageringProcessor

open Library.Interleaving (Pid)
open Library.Table WagerTransactionFinalizer

namespace Reprocess

variable {P : Platform} {i : Pid} {s s' : Shared} {own own' : Resource → Prop} {d d' : Database}
  {run : ReprocessRun} {todo rest : List WagerTransaction} {tx : WagerTransaction}
  {ctx : EventContext} {wallet : Wallet} {reference : WagerTransaction}
  {resolution : ReferenceResolution} {batchSize : Nat} {inp : Input}
  {stage stage' : ReprocessStage} {ids : List Id} {outcome : Except DomainError Writes}

/-! ## The assertions -/

/-- The item `tx` has its decision: it is PROCESSED, REJECTED, or waits after one more attempt. -/
def Decided (d : Database) (tx : WagerTransaction) : Prop :=
  ∃ t ∈ d.wagerTransactions, t.id = tx.id ∧ (t.status = .processed ∨ t.status = .rejected ∨
    (t.status = .pendingReference ∧ t.referenceRetryAttempts = tx.referenceRetryAttempts + 1))

/-- The run has decided the items before `todo` and holds all of them. -/
structure RunOk (P : Platform) (own : Resource → Prop) (d : Database) (run : ReprocessRun)
    (todo : List WagerTransaction) : Prop where
  settled : SettledSeq P own d run.writes
  locked : ∀ tx ∈ todo, LockedRow own (d.applyAll run.writes) tx
  owns : ∀ tx ∈ run.batch, own (.transaction tx.id)
  decided : ∃ done, run.batch = done ++ todo ∧ ∀ tx ∈ done, Decided (d.applyAll run.writes) tx
  nodup : (run.batch.map (·.id)).Nodup

def Ok (P : Platform) (own : Resource → Prop) (d : Database) : ReprocessStage → Prop
  | .item run todo => RunOk P own d run todo
  | .findReversal run tx _ reference rest => RunOk P own d run (tx :: rest) ∧
      ReferenceOk P (d.applyAll run.writes) tx (some reference)
  | .resolved run tx _ resolution rest => RunOk P own d run (tx :: rest) ∧
      Submit.ResolutionOk P (d.applyAll run.writes) tx (some resolution)
  | .applyEffect run tx _ wallet reference rest => RunOk P own d run (tx :: rest) ∧
      ReferenceOk P (d.applyAll run.writes) tx (some reference) ∧
        ∃ r, HeldWallet P own (d.applyAll run.writes) tx wallet r
  | _ => True

/-! ## They survive the steps of others -/

theorem Decided.stable (h : Decided d tx) (f : Frame own d d') (howns : own (.transaction tx.id)) :
    Decided d' tx := by
  obtain ⟨t, ht, hid, hstatus⟩ := h
  exact ⟨t, f.ownRow t ht (hid ▸ howns), hid, hstatus⟩

section

variable (hc : Consistent P d) (hown : ∀ k, own k → own' k) (f : Frame own d d')
include hc hown f

theorem RunOk.stable (h : RunOk P own d run todo) : RunOk P own' d' run todo := by
  have hview := h.settled.frame_applyAll hc f
  refine ⟨h.settled.stable hc hown f, fun tx htx => (h.locked tx htx).stable hown hview,
    fun tx htx => hown _ (h.owns tx htx), ?_, h.nodup⟩
  obtain ⟨done, hbatch, hdecided⟩ := h.decided
  refine ⟨done, hbatch, fun tx htx => (hdecided tx htx).stable hview (h.owns tx ?_)⟩
  rw [hbatch]
  exact List.mem_append_left _ htx

theorem Ok.stable (h : Ok P own d stage) : Ok P own' d' stage := by
  cases stage with
  | begin | returned | threw => trivial
  | item => exact RunOk.stable hc hown f h
  | findReversal =>
    exact ⟨h.1.stable hc hown f, h.2.stable (h.1.settled.frame_applyAll hc f)⟩
  | resolved =>
    exact ⟨h.1.stable hc hown f,
      Submit.ResolutionOk.stable (h.1.settled.frame_applyAll hc f) h.2⟩
  | applyEffect =>
    obtain ⟨hrun, href, r, hheld⟩ := h
    have hview := hrun.settled.frame_applyAll hc f
    exact ⟨hrun.stable hc hown f, href.stable hview, r, hheld.stable hown hview⟩

end

/-! ## One more decision -/

theorem RunOk.consistent (h : RunOk P own d run todo) (hc : Consistent P d) :
    Consistent P (d.applyAll run.writes) := h.settled.permitted.consistent hc

theorem RunOk.head (h : RunOk P own d run (tx :: rest)) :
    LockedRow own (d.applyAll run.writes) tx := h.locked tx List.mem_cons_self

theorem LockedRow.waiting (h : LockedRow own d tx) (hc : Consistent P d) : Waiting tx :=
  Waiting.unsettled h.status (hc.rows tx h.row).lifecycle

/-- The rows that a settlement leaves as they are. -/
theorem Settles.row_stays {t x : WagerTransaction} {w : Writes} (h : Settles P own d tx t w)
    (hx : x ∈ d.wagerTransactions) (hne : x.id ≠ tx.id) : x ∈ (d.apply w).wagerTransactions :=
  (Database.mem_transactions_apply h.row).mpr (Or.inr ⟨hx, by rwa [h.id]⟩)

theorem SettledAs.decided {tx' : WagerTransaction} {w : Writes} (h : SettledAs P own d tx tx' w)
    (hkind : tx.kind ≠ .loss) : Decided (d.apply w) tx := by
  refine ⟨toWagerTransactionEntity P tx',
    (Database.mem_transactions_apply h.settles.row).mpr (Or.inl rfl), h.settles.id, ?_⟩
  cases h.outcome with
  | parked _ _ _ _ row => exact Or.inr (Or.inr ⟨by rw [row], by rw [row]⟩)
  | rejected _ _ _ row => exact Or.inr (Or.inl (by rw [row]))
  | lost _ _ _ _ _ kind => exact absurd kind hkind
  | moved _ _ _ _ _ _ _ _ row => exact Or.inl (by rw [row])

theorem RunOk.settle {tx' : WagerTransaction} {w : Writes} (h : RunOk P own d run (tx :: rest))
    (hc : Consistent P d) (hw : SettledAs P own (d.applyAll run.writes) tx tx' w) :
    RunOk P own d { run with writes := run.writes ++ [w] } rest := by
  have hview : d.applyAll (run.writes ++ [w]) = (d.applyAll run.writes).apply w := by
    simp [Database.applyAll]
  obtain ⟨done, hbatch, hdecided⟩ := h.decided
  have hnodup := h.nodup
  rw [hbatch, List.map_append, List.map_cons] at hnodup
  obtain ⟨-, hnodupTail, hdisjoint⟩ := List.nodup_append.mp hnodup
  have hkind : tx.kind ≠ .loss := by
    have hwaiting := LockedRow.waiting h.head (h.consistent hc)
    rcases WagerTransaction.requiresReference_iff.mp hwaiting.kind with hk | hk <;> simp [hk]
  refine ⟨h.settled.concat hw.settled, fun x hx => ?_, h.owns, ⟨done ++ [tx], by simpa using hbatch,
    fun x hx => ?_⟩, h.nodup⟩
  · have hlocked := h.locked x (List.mem_cons_of_mem _ hx)
    refine ⟨hlocked.owns, ?_, hlocked.status⟩
    rw [hview]
    refine Settles.row_stays hw.settles hlocked.row fun hid => ?_
    exact (List.nodup_cons.mp hnodupTail).1 (hid ▸ List.mem_map_of_mem hx)
  · rw [hview]
    rcases List.mem_append.mp hx with hx | hx
    · obtain ⟨t, ht, hid, hstatus⟩ := hdecided x hx
      refine ⟨t, Settles.row_stays hw.settles ht fun hne => ?_, hid, hstatus⟩
      exact hdisjoint _ (List.mem_map_of_mem hx) _ List.mem_cons_self (hid ▸ hne)
    · obtain rfl := List.mem_singleton.mp hx
      exact SettledAs.decided hw hkind

/-! ## A step of a run -/

/-- The decision on an item whose reference is not resolved. -/
theorem decide_settles (hc : Consistent P d) (hlocked : LockedRow own d tx)
    {failureCode : Option FailureCode} (hfits : ∀ code, failureCode = some code → CodeFits tx code)
    {eventId : Id} (hid : NewId own d eventId) {w : Writes}
    (hw : decide P tx ctx failureCode eventId = .ok w) : ∃ tx', SettledAs P own d tx tx' w := by
  have hsubject : Subject P own d tx := .locked hlocked
  have hopen := not_terminal_of_pendingReference hlocked.status
  have hrequires := (LockedRow.waiting hlocked hc).kind
  have hbound := (hc.rows tx hlocked.row).attempts
  have hrejected : ∀ code, CodeFits tx code →
      (reject P tx code ctx eventId).map Prod.snd = .ok w → ∃ tx', SettledAs P own d tx tx' w := by
    intro code hfit hmap
    cases hreject : reject P tx code ctx eventId with
    | error err => simp [hreject, Except.map] at hmap
    | ok out =>
      obtain rfl : out.2 = w := by simpa [hreject, Except.map] using hmap
      exact ⟨out.1, reject_settles hsubject hopen hfit hid hreject⟩
  unfold decide at hw
  split at hw
  · rename_i code
    exact hrejected code (hfits code rfl) hw
  · split at hw
    · rename_i hmax
      exact hrejected .referenceResolutionTimeout ⟨hrequires, by omega⟩ hw
    · rename_i hmax
      cases hmark : markPendingReference P tx ctx eventId with
      | error err => simp [hmark, Except.map] at hw
      | ok out =>
        obtain rfl : out.2 = w := by simpa [hmark, Except.map] using hw
        exact ⟨out.1, markPendingReference_settles hsubject hopen hrequires (by omega) hid hmark⟩

theorem Consistent.canonical (hc : Consistent P d) {x : WagerTransaction}
    (hx : x ∈ d.wagerTransactions) :
    P.uuid x.walletId = some x.walletId ∧ P.uuid x.playerId = some x.playerId :=
  ⟨(hc.rows x hx).identity.wallet, (hc.rows x hx).identity.player⟩

theorem findReference_ok (hc : Consistent P d) (hlocked : LockedRow own d tx)
    (hfind : findReference d tx = .ok resolution) :
    Submit.ResolutionOk P d tx (some resolution) := by
  have hrequires := (LockedRow.waiting hlocked hc).kind
  match resolution with
  | .pending => exact hrequires
  | .rejected code => exact findReference_rejected hrequires hfind
  | .resolved b =>
    obtain ⟨hmem, hrev, -⟩ := findReference_resolved (fun x hx => Consistent.canonical hc hx) hfind
    exact ⟨fun hno => by simp [hrequires] at hno, fun _ => ⟨b, rfl, hmem, hrev⟩⟩

theorem begin_ok (hbatch : isBatch s inp.now batchSize inp.batch = true)
    (htake : s.take i (inp.batch.map .transaction) = some s') :
    RunOk P (owns s' i) s'.db ⟨inp.now, inp.batch.filterMap s.db.findWagerTransaction, []⟩
      (inp.batch.filterMap s.db.findWagerTransaction) := by
  have hacq := take_acquires htake
  simp only [isBatch, Bool.and_eq_true, decide_eq_true_eq, List.all_eq_true] at hbatch
  obtain ⟨⟨hnodup, hdue⟩, -⟩ := hbatch
  have hfound : ∀ id ∈ inp.batch, (lookup (·.id) id s.db.wagerTransactions).isSome = true := by
    intro id hid
    cases hfind : s.db.findWagerTransaction id with
    | none => simpa [hfind] using hdue id hid
    | some t => exact Option.isSome_iff_exists.mpr ⟨t, hfind⟩
  have hids : (inp.batch.filterMap s.db.findWagerTransaction).map (·.id) = inp.batch :=
    map_filterMap_lookup hfound
  refine ⟨.nil _, fun tx htx => ?_, fun tx htx => ?_, ⟨[], rfl, by simp⟩, ?_⟩
  · obtain ⟨id, hid, hrow⟩ := List.mem_filterMap.mp htx
    obtain ⟨hmem, rfl⟩ := lookup_mem hrow
    refine ⟨hacq.holds _ (List.mem_map_of_mem hid), ?_, ?_⟩
    · change tx ∈ s'.db.wagerTransactions
      rw [hacq.db]
      exact hmem
    · have havailable := hdue tx.id hid
      rw [hrow] at havailable
      simp only [Option.any_some, available, Database.duePendingReference, Bool.and_eq_true,
        decide_eq_true_eq] at havailable
      exact havailable.1.1
  · exact hacq.holds _ (List.mem_map_of_mem (mem_filterMap_lookup htx).2)
  · rw [hids]
    exact hnodup

/-- Every id that the run sees, in its own writes as well, was drawn. -/
theorem drawn_view (h : RunOk P (owns s i) s.db run todo)
    (hd : Drawn s.drawn s.db) :
    Drawn s.drawn (s.db.applyAll run.writes) :=
  hd.applyAll h.settled.permitted fun _ => drawn_of_owns

theorem Decision.runOk (decision : Decision P inp stage run tx rest ids outcome)
    (h : Ok P own d stage) : RunOk P own d run (tx :: rest) := by
  cases decision <;> exact h.1

/-- What is drawn for a decision is new to all that the run sees. -/
theorem Decision.newId (decision : Decision P inp stage run tx rest ids outcome)
    (hd : Drawn s.drawn s.db) (h : Ok P (owns s i) s.db stage)
    (hdraw : s.draw i P ids = some s') {id : Id} (hid : id ∈ ids) :
    NewId (owns s' i) (s'.db.applyAll run.writes) id := by
  have hdraws := draw_draws hdraw
  have hdrawn : Drawn s.drawn (s'.db.applyAll run.writes) :=
    hdraws.db ▸ drawn_view (decision.runOk h) hd
  exact hdraws.newId hdrawn hid

theorem Decision.settles (decision : Decision P inp stage run tx rest ids outcome)
    (hc : Consistent P s.db) (hd : Drawn s.drawn s.db) (h : Ok P (owns s i) s.db stage)
    {w : Writes} (hw : outcome = .ok w) (hdraw : s.draw i P ids = some s')
    (hflush : (view s run).flush w = .ok ()) :
    ∃ tx', SettledAs P (owns s' i) (s'.db.applyAll run.writes) tx tx' w := by
  have hdraws := draw_draws hdraw
  have h' := h.stable hc hdraws.keeps hdraws.frame
  have hc' : Consistent P s'.db := hdraws.db ▸ hc
  have hnew : ∀ id ∈ ids, NewId (owns s' i) (s'.db.applyAll run.writes) id :=
    fun _ => decision.newId hd h hdraw
  cases decision with
  | rejects =>
    refine decide_settles (h'.1.consistent hc') h'.1.head (fun code hcode => ?_)
      (hnew _ List.mem_cons_self) hw
    obtain rfl := Option.some.inj hcode
    exact h'.2
  | waits =>
    exact decide_settles (h'.1.consistent hc') h'.1.head (fun _ hcode => by cases hcode)
      (hnew _ List.mem_cons_self) hw
  | applies =>
    obtain ⟨hrun, href, r, hheld⟩ := h'
    obtain ⟨out, hout, rfl⟩ := ok_of_map hw
    have hne : inp.newId 1 ≠ inp.newId 2 := by
      have hnodup := hdraws.nodup
      simp only [List.nodup_cons, List.mem_cons, List.not_mem_nil, or_false] at hnodup
      exact hnodup.2.1
    rw [view, ← hdraws.db] at hflush
    exact ⟨out.1, applyEffect_settles (hrun.consistent hc') (.locked hrun.head) hheld href
      (hnew _ (by simp)) (hnew _ (by simp)) hne (fun _ hx _ => hx) hout (flush_ok hflush).1⟩

theorem step_ok (hc : Consistent P s.db) (hd : Drawn s.drawn s.db)
    (h : Ok P (owns s i) s.db stage)
    (hstep : step P i batchSize inp s stage = some (s', stage')) :
    Advances P i s s' ∧ Ok P (owns s' i) s'.db stage' := by
  cases step_way hstep with
  | begin batch takes => exact ⟨(take_acquires takes).advances, begin_ok batch takes⟩
  | commits => exact ⟨h.settled.queues.advances rfl h.settled.permitted, trivial⟩
  | unnamed draws | undecided _ _ draws | unflushed _ _ draws =>
    exact ⟨(draw_draws draws).trans_advances rollback_advances (draw_draws draws).db, trivial⟩
  | found draws finds | unresolved draws finds =>
    have hdraws := draw_draws draws
    have hrun := RunOk.stable hc hdraws.keeps hdraws.frame h
    rw [view, ← hdraws.db] at finds
    exact ⟨hdraws.advances, hrun, findReference_ok (hrun.consistent (hdraws.db ▸ hc)) hrun.head
      finds⟩
  | resolved =>
    refine ⟨.refl P i s, h.1, ?_⟩
    unfold findReversal
    split
    · exact (LockedRow.waiting h.1.head (h.1.consistent hc)).kind
    · exact h.2
  | noUuid | noWallet => exact ⟨rollback_advances, trivial⟩
  | locked row uuid takes =>
    have hacq := take_acquires takes
    have hnamed := (Platform.canonical_of_uuid uuid).symm
    refine ⟨hacq.advances, h.1.stable hc hacq.keeps hacq.frame, ?_, _,
      hacq.holds _ List.mem_cons_self, ?_, rfl, hnamed⟩
    · rw [hacq.db]
      exact h.2
    · rw [hacq.db]
      exact row
  | decided decision writes draws flush =>
    have hdraws := draw_draws draws
    obtain ⟨tx', hsettled⟩ := decision.settles hc hd h writes draws flush
    have hrun := (decision.runOk h).stable hc hdraws.keeps hdraws.frame
    exact ⟨hdraws.advances, hrun.settle (hdraws.db ▸ hc) hsettled⟩

end Reprocess

end WageringProcessor
