import WageringProcessor.Worker.RepeatingTask
import Mathlib.Data.List.Chain

/-!
# The loops of the worker

In every run of the event loop the executions of a repeating task are one after the other, with
its pause between the end of one and the start of the next, and none starts once the loop is
stopped.  A task that fails does not end its loop.
-/

namespace WageringProcessor

open Library.Interleaving Library.Timers

variable {i j : Pid} {l l' : EventLoop Pid} {t t' : RepeatingTask} {a : LoopAction} {ms : Nat}
  {q q' : Option RepeatingTask}

/-! ## What is seen of a loop -/

inductive TaskEvent
  | began (at_ : Nat)
  | ended (at_ : Nat)
  | stopped (at_ : Nat)
deriving DecidableEq, Repr

namespace TaskEvent

def time : TaskEvent → Nat
  | began at_ | ended at_ | stopped at_ => at_

def isBegan : TaskEvent → Bool
  | began _ => true
  | _ => false

def isStopped : TaskEvent → Bool
  | stopped _ => true
  | _ => false

end TaskEvent

/-- The second of two events of a loop may follow on the first. -/
def Follows (intervalMs : Nat) : TaskEvent → TaskEvent → Prop
  | .began t, .ended t' => t ≤ t'
  | .ended t, .began t' => t + intervalMs ≤ t'
  | .stopped t, .ended t' => t ≤ t'
  | e, .stopped t' => e.time ≤ t'
  | _, _ => False

/-- One execution at a time, the pause between two, and none after a stop. -/
structure Paced (intervalMs : Nat) (events : List TaskEvent) : Prop where
  chain : events.IsChain (Follows intervalMs)
  stopped : events.Pairwise fun e e' => e.isStopped = true → e'.isBegan = false

/-- What a step of a loop shows: its task is started, has settled, or the loop is stopped. -/
def shown (l : EventLoop Pid) (t : RepeatingTask) : LoopAction → List TaskEvent
  | .fire _ => if t.stopped then [] else [.began l.now]
  | .settle _ => [.ended l.now]
  | .stop => [.stopped l.now]
  | .start _ | .wait _ => []

def taskEvents (c : Config (EventLoop Pid) (Option RepeatingTask)) (i : Pid) (a : LoopAction)
    (_ : Config (EventLoop Pid) (Option RepeatingTask)) : List (Pid × TaskEvent) :=
  ((c.procs i).elim [] fun t => shown c.shared t a).map fun e => (i, e)

def eventsOf (i : Pid) (seen : List (Pid × TaskEvent)) : List TaskEvent :=
  (seen.filter fun e => e.1 = i).map Prod.snd

theorem eventsOf_append (seen seen' : List (Pid × TaskEvent)) :
    eventsOf i (seen ++ seen') = eventsOf i seen ++ eventsOf i seen' := by
  unfold eventsOf
  rw [List.filter_append, List.map_append]

theorem eventsOf_tagged (es : List TaskEvent) :
    eventsOf i (es.map fun e => (j, e)) = if j = i then es else [] := by
  unfold eventsOf
  by_cases h : j = i
  · simp [List.filter_map, h, Function.comp_def]
  · simp [List.filter_map, h, Function.comp_def]

theorem Paced.concat {es : List TaskEvent} {e : TaskEvent} (h : Paced ms es)
    (hlast : ∀ e' ∈ es.getLast?, Follows ms e' e)
    (hquiet : e.isBegan = true → ∀ e' ∈ es, e'.isStopped = false) : Paced ms (es ++ [e]) where
  chain := by
    refine List.isChain_append.mpr ⟨h.chain, List.isChain_singleton e, fun e' he' x hx => ?_⟩
    obtain rfl := Option.some.inj hx
    exact hlast e' he'
  stopped := by
    refine List.pairwise_append.mpr ⟨h.stopped, List.pairwise_singleton _ e, ?_⟩
    intro e' he' x hx hstopped
    obtain rfl := List.mem_singleton.mp hx
    by_contra hbegan
    rw [hquiet (Bool.not_eq_false _ ▸ hbegan) e' he'] at hstopped
    cases hstopped

/-- The loops are those of the scheduler service. -/
abbrev Scheduled (_ : Config (EventLoop Pid) (Option RepeatingTask)) (i : Pid) (a : LoopAction) :
    Prop := ∀ ms ∈ a.interval?, WorkerSchedulerService.intervals[i]? = some ms

/-! ## The invariant of a loop -/

/-- Where a loop is, by its one timer, by its one execution or by neither. -/
inductive LoopStage (i : Pid) (l : EventLoop Pid) (t : RepeatingTask) (es : List TaskEvent) : Prop
  | waiting {timer : Timer Pid} (timers : l.timersOf i = [timer]) (held : t.timer = some timer.id)
      (awaiting : t.awaiting = 0) (stopped : t.stopped = false)
      (pause : ∀ e ∈ es.getLast?, ∃ at_, e = .ended at_ ∧ at_ + t.intervalMs ≤ timer.due)
  | running (timers : l.timersOf i = []) (awaiting : t.awaiting = 1) (stopped : t.stopped = false)
      {at_ : Nat} (last : es.getLast? = some (.began at_))
  | ending (timers : l.timersOf i = []) (awaiting : t.awaiting = 1) (stopped : t.stopped = true)
      {at_ : Nat} (last : es.getLast? = some (.stopped at_))
  | finished (timers : l.timersOf i = []) (awaiting : t.awaiting = 0)

structure LoopOk (i : Pid) (l : EventLoop Pid) (t : RepeatingTask) (es : List TaskEvent) :
    Prop where
  interval : WorkerSchedulerService.intervals[i]? = some t.intervalMs
  paced : Paced t.intervalMs es
  past : ∀ e ∈ es, e.time ≤ l.now
  quiet : t.stopped = false → ∀ e ∈ es, e.isStopped = false
  timer : ∀ id ∈ t.timer, id < l.nextId ∧ ∀ x ∈ l.timers, x.id = id → x.payload = i
  stage : LoopStage i l t es

def LoopSeen (i : Pid) (l : EventLoop Pid) : Option RepeatingTask → List TaskEvent → Prop
  | none, es => es = [] ∧ l.timersOf i = []
  | some t, es => LoopOk i l t es

theorem LoopSeen.spared {es : List TaskEvent} (h : LoopSeen i l q es)
    (hspares : EventLoop.Spares i l l') : LoopSeen i l' q es := by
  cases q with
  | none => exact ⟨h.1, hspares.timers.trans h.2⟩
  | some t =>
    have hok : LoopOk i l t es := h
    refine { hok with past := ?_, timer := ?_, stage := ?_ }
    · intro e he
      exact (hok.past e he).trans hspares.now
    · intro id hid
      obtain ⟨hlt, hmine⟩ := hok.timer id hid
      refine ⟨Nat.lt_of_lt_of_le hlt hspares.nextId, fun x hx hx' => hmine x ?_ hx'⟩
      exact hspares.old x hx (hx' ▸ hlt)
    · cases hok.stage with
      | waiting timers held awaiting stopped pause =>
        exact .waiting (hspares.timers.trans timers) held awaiting stopped pause
      | running timers awaiting stopped last =>
        exact .running (hspares.timers.trans timers) awaiting stopped last
      | ending timers awaiting stopped last =>
        exact .ending (hspares.timers.trans timers) awaiting stopped last
      | finished timers awaiting => exact .finished (hspares.timers.trans timers) awaiting

/-! ## A step -/

section

variable {es : List TaskEvent} (h : LoopOk i l t es)
include h

/-- What every event after `es` keeps. -/
theorem LoopOk.concat {e : TaskEvent} (hstage : LoopStage i l' t' (es ++ [e]))
    (hinterval : t'.intervalMs = t.intervalMs) (htime : e.time = l.now) (hnow : l.now ≤ l'.now)
    (hlast : ∀ e' ∈ es.getLast?, Follows t.intervalMs e' e)
    (hbegan : e.isBegan = true → t.stopped = false)
    (hstopped : t'.stopped = false → t.stopped = false ∧ e.isStopped = false)
    (htimer : ∀ id ∈ t'.timer, id < l'.nextId ∧ ∀ x ∈ l'.timers, x.id = id → x.payload = i) :
    LoopOk i l' t' (es ++ [e]) where
  interval := hinterval ▸ h.interval
  paced := hinterval ▸ h.paced.concat hlast fun hb => h.quiet (hbegan hb)
  past e' he' := by
    rcases List.mem_append.mp he' with he' | he'
    · exact (h.past e' he').trans hnow
    · obtain rfl := List.mem_singleton.mp he'
      exact htime.le.trans hnow
  quiet hq e' he' := by
    obtain ⟨hbefore, he⟩ := hstopped hq
    rcases List.mem_append.mp he' with he' | he'
    · exact h.quiet hbefore e' he'
    · obtain rfl := List.mem_singleton.mp he'
      exact he
  timer := htimer
  stage := hstage

theorem LoopOk.fire {id : Nat} {timer : Timer Pid} (hdue : l.due id = some timer)
    (hmine : timer.payload = i) :
    LoopOk i (l.clearTimeout id) t.tick (es ++ shown l t (.fire id)) := by
  obtain ⟨hmem, rfl, hpast⟩ := EventLoop.due_eq_some hdue
  have htimers : timer ∈ l.timersOf i := EventLoop.mem_timersOf.mpr ⟨hmem, hmine⟩
  -- only a loop that waits has a timer
  cases h.stage with
  | waiting timers held awaiting stopped pause =>
    rw [timers, List.mem_singleton] at htimers
    subst htimers
    have htick : t.tick = { t with awaiting := 1 } := by
      unfold RepeatingTask.tick
      rw [stopped, awaiting]
      rfl
    have hshown : shown l t (.fire timer.id) = [.began l.now] := by
      unfold shown
      rw [stopped]
      rfl
    rw [htick, hshown]
    refine h.concat ?_ rfl rfl (Nat.le_refl _) ?_ (fun _ => stopped) (fun _ => ⟨stopped, rfl⟩) ?_
    · refine .running ?_ rfl stopped List.getLast?_concat
      rw [EventLoop.timersOf_clearTimeout, timers]
      simp
    · intro e he
      obtain ⟨at_, rfl, hpause⟩ := pause e he
      exact hpause.trans hpast
    · intro id hid
      obtain ⟨hlt, hpayload⟩ := h.timer id hid
      exact ⟨hlt, fun x hx => hpayload x (EventLoop.mem_clearTimeout.mp hx).1⟩
  | running timers | ending timers | finished timers =>
    rw [timers] at htimers
    cases htimers

/-- Only a loop whose task is running awaits it. -/
theorem LoopOk.awaits (hawaiting : 0 < t.awaiting) : l.timersOf i = [] ∧ t.awaiting = 1 ∧
    ∀ e ∈ es.getLast?, Follows t.intervalMs e (.ended l.now) := by
  cases h.stage with
  | waiting timers held awaiting stopped pause => omega
  | finished timers awaiting => omega
  | running timers awaiting stopped last | ending timers awaiting stopped last =>
    refine ⟨timers, awaiting, fun e he => ?_⟩
    have hmem := List.mem_of_mem_getLast? he
    obtain rfl := Option.some.inj (last.symm.trans he)
    exact h.past _ hmem

theorem LoopOk.settle (hwf : l.WellFormed) (hawaiting : 0 < t.awaiting) (outcome : TaskOutcome) :
    LoopOk i (RepeatingTask.settle i t l outcome).1 (RepeatingTask.settle i t l outcome).2
      (es ++ shown l t (.settle outcome)) := by
  obtain ⟨htimers, hone, hlast⟩ := h.awaits hawaiting
  have htimer := h.timer
  rw [RepeatingTask.settle_eq]
  split
  · refine h.concat (.finished htimers ?_) rfl rfl (Nat.le_refl _) hlast
      (by simp [TaskEvent.isBegan])
      (fun hq => ⟨hq, rfl⟩) htimer
    show t.awaiting - 1 = 0
    omega
  · rename_i hgoes
    obtain ⟨-, hstopped⟩ := not_or.mp hgoes
    have hstopped := Bool.not_eq_true _ ▸ hstopped
    have hset : (l.setTimeout i t.intervalMs).timersOf i =
        [⟨l.nextId, l.now + t.intervalMs, i⟩] := by
      rw [EventLoop.timersOf_setTimeout, htimers, if_pos rfl]
      rfl
    refine h.concat ?_ rfl rfl (Nat.le_refl _) hlast (by simp [TaskEvent.isBegan])
      (fun _ => ⟨hstopped, rfl⟩) ?_
    · refine .waiting hset rfl ?_ hstopped ?_
      · show t.awaiting - 1 = 0
        omega
      · intro e he
        rw [List.getLast?_concat] at he
        obtain rfl := Option.some.inj he
        exact ⟨l.now, rfl, Nat.le_refl _⟩
    · intro id hid
      obtain rfl := Option.some.inj hid
      refine ⟨Nat.lt_succ_self _, fun x hx hid => ?_⟩
      rcases EventLoop.mem_setTimeout.mp hx with hx | rfl
      · have hlt := hwf.fresh x hx
        omega
      · rfl

theorem LoopOk.stop :
    LoopOk i (t.stop l).1 (t.stop l).2 (es ++ shown l t .stop) := by
  have hfollows : ∀ e ∈ es.getLast?, Follows t.intervalMs e (.stopped l.now) := by
    intro e he
    have hpast := h.past e (List.mem_of_mem_getLast? he)
    cases e <;> exact hpast
  -- its timer, if it has one, is the one that is cleared
  have hcleared : (t.stop l).1.timersOf i = [] := by
    unfold RepeatingTask.stop
    cases h.stage with
    | waiting timers held awaiting stopped pause =>
      rw [held]
      show (l.clearTimeout _).timersOf i = []
      rw [EventLoop.timersOf_clearTimeout, timers]
      simp
    | running timers | ending timers | finished timers =>
      cases t.timer with
      | none => exact timers
      | some id =>
        show (l.clearTimeout _).timersOf i = []
        rw [EventLoop.timersOf_clearTimeout, timers]
        rfl
  have hnow : l.now ≤ (t.stop l).1.now := by
    unfold RepeatingTask.stop
    cases t.timer <;> exact Nat.le_refl _
  refine h.concat ?_ rfl rfl hnow hfollows (by simp [TaskEvent.isBegan])
    (by simp [RepeatingTask.stop]) ?_
  · by_cases hawaiting : 0 < t.awaiting
    · exact .ending hcleared (h.awaits hawaiting).2.1 rfl List.getLast?_concat
    · refine .finished hcleared ?_
      show t.awaiting = 0
      omega
  · intro id hid
    obtain ⟨hlt, hmine⟩ := h.timer id hid
    have hid' : t.timer = some id := hid
    unfold RepeatingTask.stop
    rw [hid']
    exact ⟨hlt, fun x hx => hmine x (EventLoop.mem_clearTimeout.mp hx).1⟩

end

theorem LoopOk.start (hinterval : WorkerSchedulerService.intervals[i]? = some ms)
    (hwf : l.WellFormed) (htimers : l.timersOf i = []) :
    LoopOk i (RepeatingTask.start i ms l).1 (RepeatingTask.start i ms l).2 [] where
  interval := hinterval
  paced := ⟨List.isChain_nil, .nil⟩
  past _ he := absurd he List.not_mem_nil
  quiet _ _ he := absurd he List.not_mem_nil
  timer id hid := by
    obtain rfl := Option.some.inj hid
    refine ⟨Nat.lt_succ_self _, fun x hx hid => ?_⟩
    rcases EventLoop.mem_setTimeout.mp hx with hx | rfl
    · have hlt := hwf.fresh x hx
      omega
    · rfl
  stage := by
    have hset : (l.setTimeout i 0).timersOf i = [⟨l.nextId, l.now, i⟩] := by
      rw [EventLoop.timersOf_setTimeout, htimers, if_pos rfl]
      rfl
    exact .waiting hset rfl rfl rfl (by simp)

/-- A step of a loop keeps what is known of it. -/
theorem loopStep_seen {es : List TaskEvent} (hwf : l.WellFormed)
    (hsched : ∀ ms ∈ a.interval?, WorkerSchedulerService.intervals[i]? = some ms)
    (h : LoopSeen i l q es) (hstep : loopStep i a l q = some (l', q')) :
    LoopSeen i l' q' (es ++ q.elim [] fun t => shown l t a) := by
  cases q with
  | none =>
    obtain ⟨rfl, htimers⟩ := h
    cases a with
    | start ms =>
      obtain ⟨rfl, rfl⟩ := Prod.mk.inj (Option.some.inj hstep)
      exact .start (hsched ms rfl) hwf htimers
    | wait ms =>
      obtain ⟨rfl, rfl⟩ := Prod.mk.inj (Option.some.inj hstep)
      exact ⟨rfl, htimers⟩
    | fire | settle | stop => cases hstep
  | some t =>
    have hok : LoopOk i l t es := h
    cases a with
    | start ms => cases hstep
    | fire id =>
      obtain ⟨timer, hdue, hrest⟩ := Option.bind_eq_some_iff.mp hstep
      obtain ⟨hmine, hrest⟩ := Option.ite_none_right_eq_some.mp hrest
      obtain ⟨rfl, rfl⟩ := Prod.mk.inj (Option.some.inj hrest)
      exact hok.fire hdue hmine
    | settle outcome =>
      obtain ⟨hawaiting, hrest⟩ := Option.ite_none_right_eq_some.mp hstep
      obtain ⟨rfl, rfl⟩ := Prod.mk.inj (Option.some.inj hrest)
      exact hok.settle hwf hawaiting outcome
    | stop =>
      obtain ⟨rfl, rfl⟩ := Prod.mk.inj (Option.some.inj hstep)
      exact hok.stop
    | wait ms =>
      obtain ⟨rfl, rfl⟩ := Prod.mk.inj (Option.some.inj hstep)
      show LoopSeen i (l.wait ms) (some t) (es ++ [])
      rw [List.append_nil]
      exact h.spared .wait

/-- It leaves the timers of the other loops alone. -/
theorem loopStep_spares {es : List TaskEvent} (hwf : l.WellFormed) (h : LoopSeen i l q es)
    (hstep : loopStep i a l q = some (l', q')) (hij : i ≠ j) :
    l'.WellFormed ∧ EventLoop.Spares j l l' := by
  cases q with
  | none =>
    cases a with
    | start ms =>
      obtain ⟨rfl, rfl⟩ := Prod.mk.inj (Option.some.inj hstep)
      exact ⟨hwf.setTimeout i 0, .setTimeout hij 0⟩
    | wait ms =>
      obtain ⟨rfl, rfl⟩ := Prod.mk.inj (Option.some.inj hstep)
      exact ⟨hwf.wait ms, .wait⟩
    | fire | settle | stop => cases hstep
  | some t =>
    have hok : LoopOk i l t es := h
    cases a with
    | start ms => cases hstep
    | fire id =>
      obtain ⟨timer, hdue, hrest⟩ := Option.bind_eq_some_iff.mp hstep
      obtain ⟨hmine, hrest⟩ := Option.ite_none_right_eq_some.mp hrest
      obtain ⟨rfl, rfl⟩ := Prod.mk.inj (Option.some.inj hrest)
      obtain ⟨hmem, hid, -⟩ := EventLoop.due_eq_some hdue
      refine ⟨hwf.clearTimeout id, .clearTimeout fun x hx hx' => ?_⟩
      rw [List.inj_on_of_nodup_map hwf.nodup hx hmem (hx'.trans hid.symm), hmine]
      exact hij
    | settle outcome =>
      obtain ⟨-, hrest⟩ := Option.ite_none_right_eq_some.mp hstep
      obtain ⟨rfl, rfl⟩ := Prod.mk.inj (Option.some.inj hrest)
      show (RepeatingTask.settle i t l outcome).1.WellFormed ∧
        EventLoop.Spares j l (RepeatingTask.settle i t l outcome).1
      rw [RepeatingTask.settle_eq]
      split
      · exact ⟨hwf, rfl, Nat.le_refl _, Nat.le_refl _, fun _ ht _ => ht⟩
      · exact ⟨hwf.setTimeout i t.intervalMs, .setTimeout hij t.intervalMs⟩
    | stop =>
      obtain ⟨rfl, rfl⟩ := Prod.mk.inj (Option.some.inj hstep)
      show ((t.timer.map l.clearTimeout).getD l).WellFormed ∧ EventLoop.Spares j l _
      cases htimer : t.timer with
      | none => exact ⟨hwf, rfl, Nat.le_refl _, Nat.le_refl _, fun _ ht _ => ht⟩
      | some id =>
        refine ⟨hwf.clearTimeout id, .clearTimeout fun x hx hx' => ?_⟩
        rw [(hok.timer id htimer).2 x hx hx']
        exact hij
    | wait ms =>
      obtain ⟨rfl, rfl⟩ := Prod.mk.inj (Option.some.inj hstep)
      exact ⟨hwf.wait ms, .wait⟩

/-! ## Runs -/

variable {c c' : Config (EventLoop Pid) (Option RepeatingTask)} {seen : List (Pid × TaskEvent)}
  {ok : Config (EventLoop Pid) (Option RepeatingTask) → Pid → LoopAction → Prop}

/-- What holds of the worker after a run that showed `seen`. -/
structure WorkerOk (c : Config (EventLoop Pid) (Option RepeatingTask))
    (seen : List (Pid × TaskEvent)) : Prop where
  wellFormed : c.shared.WellFormed
  loops : ∀ i, LoopSeen i c.shared (c.procs i) (eventsOf i seen)

theorem WorkerOk.next (h : WorkerOk c seen) (hsched : Scheduled c i a)
    (hmoved : next loopStep c i a = some c') :
    WorkerOk c' (seen ++ taskEvents c i a c') := by
  have hstep := next_self hmoved
  refine ⟨(loopStep_spares h.wellFormed (h.loops i) hstep (Nat.succ_ne_self i).symm).1, fun j => ?_⟩
  rw [eventsOf_append]
  unfold taskEvents
  rw [eventsOf_tagged]
  by_cases hij : i = j
  · subst hij
    rw [if_pos rfl]
    exact loopStep_seen h.wellFormed hsched (h.loops i) hstep
  · rw [if_neg hij, List.append_nil, next_other hmoved (Ne.symm hij)]
    exact (h.loops j).spared (loopStep_spares h.wellFormed (h.loops i) hstep hij).2

theorem idleWorker_ok : WorkerOk idleWorker [] :=
  ⟨.start, fun i => show LoopSeen i (.start Pid) none [] from ⟨rfl, rfl⟩⟩

theorem watched_ok (hsched : ∀ c i a, ok c i a → Scheduled c i a)
    (h : Watched loopStep ok taskEvents idleWorker c seen) : WorkerOk c seen :=
  h.invariant (P := WorkerOk) idleWorker_ok
    fun c i a _ _ _ hok hguard hmoved => hok.next (hsched c i a hguard) hmoved

/-- Of every loop that was started: its executions do not overlap, pause, and end with the stop. -/
structure LoopsPaced (c : Config (EventLoop Pid) (Option RepeatingTask))
    (seen : List (Pid × TaskEvent)) : Prop where
  paced : ∀ i t, c.procs i = some t → WorkerSchedulerService.intervals[i]? = some t.intervalMs ∧
    Paced t.intervalMs (eventsOf i seen)
  single : ∀ i t, c.procs i = some t → t.awaiting ≤ 1
  drained : (∀ i t, c.procs i = some t → t.stopped = true) → c.shared.timers = []

theorem WorkerOk.loopsPaced (hok : WorkerOk c seen) : LoopsPaced c seen := by
  have hloop : ∀ {i t}, c.procs i = some t → LoopOk i c.shared t (eventsOf i seen) := by
    intro i t ht
    have hseen := hok.loops i
    rw [ht] at hseen
    exact hseen
  refine ⟨fun i t ht => ⟨(hloop ht).interval, (hloop ht).paced⟩, fun i t ht => ?_,
    fun hstopped => ?_⟩
  · cases (hloop ht).stage with
    | waiting _ _ awaiting | finished _ awaiting => omega
    | running _ awaiting | ending _ awaiting => omega
  · rw [List.eq_nil_iff_forall_not_mem]
    intro timer htimer
    have hmem := EventLoop.mem_timersOf.mpr ⟨htimer, rfl⟩
    cases hproc : c.procs timer.payload with
    | none =>
      have hseen := hok.loops timer.payload
      rw [hproc] at hseen
      rw [hseen.2] at hmem
      cases hmem
    | some t =>
      cases (hloop hproc).stage with
      | waiting _ _ _ stopped =>
        rw [hstopped _ t hproc] at stopped
        cases stopped
      | running timers | ending timers | finished timers =>
        rw [timers] at hmem
        cases hmem

theorem watched_paced (h : Watched loopStep Scheduled taskEvents idleWorker c seen) :
    LoopsPaced c seen := (watched_ok (fun _ _ _ h => h) h).loopsPaced

/-- The worker starts.  A publishing run fails after 100 ms, the next is under way when the worker
shuts down. -/
def publishTwice : List (Pid × LoopAction) :=
  WorkerSchedulerService.onApplicationBootstrap ++
    [(1, .fire 1), (1, .wait 100), (1, .settle (.rejected false)), (1, .wait 2000), (1, .fire 3)] ++
    WorkerSchedulerService.onApplicationShutdown ++ [(1, .wait 50), (1, .settle .resolved)]

theorem publishTwice_paced : ∃ c seen, Watched loopStep Scheduled taskEvents idleWorker c seen ∧
    eventsOf 1 seen = [.began 0, .ended 100, .began 2100, .stopped 2100, .ended 2150] ∧
      LoopsPaced c seen := by
  have hrun : (watchIf loopStep Scheduled taskEvents idleWorker [] publishTwice).any (fun out =>
      decide (eventsOf 1 out.2 =
        [.began 0, .ended 100, .began 2100, .stopped 2100, .ended 2150])) = true := by
    decide +kernel
  obtain ⟨c, seen, hwatched, hevents⟩ := watched_of_any hrun
  exact ⟨c, seen, hwatched, of_decide_eq_true hevents, watched_paced hwatched⟩

/-! ## A task that fails -/

/-- `onError` does not throw. -/
abbrev Handled (c : Config (EventLoop Pid) (Option RepeatingTask)) (i : Pid) (a : LoopAction) :
    Prop := Scheduled c i a ∧ a ≠ .settle (.rejected true)

/-- A loop that is not stopped has its timer or its execution. -/
def Alive (i : Pid) (l : EventLoop Pid) (q : Option RepeatingTask) : Prop :=
  ∀ t, q = some t → t.stopped = false → 0 < t.awaiting ∨ l.timersOf i ≠ []

theorem loopStep_alive (h : Alive i l q) (hhandled : a ≠ .settle (.rejected true))
    (hstep : loopStep i a l q = some (l', q')) : Alive i l' q' := by
  have hset : ∀ {payload : Pid} {ms : Nat}, payload = i →
      (l.setTimeout payload ms).timersOf i ≠ [] := by
    intro payload ms hp
    rw [EventLoop.timersOf_setTimeout, if_pos hp]
    simp
  intro t' ht' hrunning
  cases q with
  | none =>
    cases a with
    | start ms =>
      obtain ⟨rfl, -⟩ := Prod.mk.inj (Option.some.inj hstep)
      exact Or.inr (hset rfl)
    | wait ms =>
      obtain ⟨-, rfl⟩ := Prod.mk.inj (Option.some.inj hstep)
      cases ht'
    | fire | settle | stop => cases hstep
  | some t =>
    cases a with
    | start ms => cases hstep
    | fire id =>
      obtain ⟨timer, -, hrest⟩ := Option.bind_eq_some_iff.mp hstep
      obtain ⟨-, hrest⟩ := Option.ite_none_right_eq_some.mp hrest
      obtain ⟨-, rfl⟩ := Prod.mk.inj (Option.some.inj hrest)
      obtain rfl := Option.some.inj ht'
      left
      unfold RepeatingTask.tick at hrunning ⊢
      split at hrunning
      · rename_i hstopped
        rw [hstopped] at hrunning
        cases hrunning
      · rename_i hgoes
        rw [if_neg hgoes]
        exact Nat.succ_pos t.awaiting
    | settle outcome =>
      obtain ⟨-, hrest⟩ := Option.ite_none_right_eq_some.mp hstep
      have hrest : some ((RepeatingTask.settle i t l outcome).1,
          some (RepeatingTask.settle i t l outcome).2) = some (l', q') := hrest
      rw [RepeatingTask.settle_eq] at hrest
      obtain ⟨rfl, rfl⟩ := Prod.mk.inj (Option.some.inj hrest)
      obtain rfl := Option.some.inj ht'
      right
      split at hrunning
      · rename_i hends
        rcases hends with rfl | hstopped
        · exact absurd rfl hhandled
        · cases hstopped.symm.trans hrunning
      · rename_i hgoes
        rw [if_neg hgoes]
        exact hset rfl
    | stop =>
      obtain ⟨-, rfl⟩ := Prod.mk.inj (Option.some.inj hstep)
      obtain rfl := Option.some.inj ht'
      cases hrunning
    | wait ms =>
      obtain ⟨rfl, rfl⟩ := Prod.mk.inj (Option.some.inj hstep)
      exact h t' ht' hrunning

theorem watched_alive (h : Watched loopStep Handled taskEvents idleWorker c seen) (i : Pid) :
    Alive i c.shared (c.procs i) := by
  have hall := h.invariant (P := fun c seen => WorkerOk c seen ∧ ∀ i, Alive i c.shared (c.procs i))
    ⟨idleWorker_ok, fun _ _ ht => by cases ht⟩ ?_
  · exact hall.2 i
  · intro c j a c' seen _ ⟨hok, halive⟩ hhandled hmoved
    refine ⟨hok.next hhandled.1 hmoved, fun i => ?_⟩
    have hstep := next_self hmoved
    by_cases hij : j = i
    · subst hij
      exact loopStep_alive (halive j) hhandled.2 hstep
    · rw [next_other hmoved (Ne.symm hij)]
      unfold Alive
      rw [(loopStep_spares hok.wellFormed (hok.loops j) hstep hij).2.timers]
      exact halive i

/-- A loop that waits starts its task once more. -/
theorem watched_begins (h : Watched loopStep Handled taskEvents idleWorker c seen)
    (ht : c.procs i = some t) (hrunning : t.stopped = false) (hwaits : t.awaiting = 0) :
    ∃ c' at_, Watched loopStep Handled taskEvents idleWorker c' (seen ++ [(i, .began at_)]) := by
  have hok := watched_ok (fun _ _ _ h => h.1) h
  obtain ⟨timer, htimer⟩ := List.exists_mem_of_ne_nil _
    ((watched_alive h i t ht hrunning).resolve_left (by omega))
  obtain ⟨hmem, hmine⟩ := EventLoop.mem_timersOf.mp htimer
  -- the delay passes
  obtain ⟨c₁, hwait, hshared, hproc⟩ := next_of_step (c := c) loopStep (i := i)
    (a := .wait (timer.due - c.shared.now)) (s := c.shared.wait (timer.due - c.shared.now))
    (p := some t) (by rw [ht]; rfl)
  have hwatched₁ := Watched.step h ⟨fun _ h => (by cases h), fun h => (by cases h)⟩ hwait
  have hsilent : taskEvents c i (.wait (timer.due - c.shared.now)) c₁ = [] := by
    unfold taskEvents
    rw [ht]
    rfl
  rw [hsilent, List.append_nil] at hwatched₁
  -- and its timer fires
  have hdue : c₁.shared.due timer.id = some timer := by
    rw [hshared]
    refine (hok.wellFormed.wait _).due_of_mem hmem ?_
    show timer.due ≤ c.shared.now + (timer.due - c.shared.now)
    omega
  obtain ⟨c₂, hfire, -, -⟩ := next_of_step (c := c₁) loopStep (i := i) (a := .fire timer.id)
    (s := c₁.shared.clearTimeout timer.id) (p := some t.tick) (by
      rw [hproc]
      show (c₁.shared.due timer.id).bind _ = _
      rw [hdue, Option.bind_some, if_pos hmine]
      rfl)
  have hwatched₂ := Watched.step hwatched₁ ⟨fun _ h => (by cases h), fun h => (by cases h)⟩ hfire
  have hshown : taskEvents c₁ i (.fire timer.id) c₂ = [(i, .began c₁.shared.now)] := by
    unfold taskEvents
    rw [hproc]
    show List.map _ (if t.stopped then [] else [TaskEvent.began c₁.shared.now]) = _
    rw [hrunning]
    rfl
  rw [hshown] at hwatched₂
  exact ⟨c₂, c₁.shared.now, hwatched₂⟩

/-- Whatever its executions have thrown, a loop that was not stopped starts its task once more. -/
theorem watched_continues (h : Watched loopStep Handled taskEvents idleWorker c seen)
    (ht : c.procs i = some t) (hrunning : t.stopped = false) : ∃ c' more at_,
      Watched loopStep Handled taskEvents idleWorker c' (seen ++ more) ∧
        (i, TaskEvent.began at_) ∈ more := by
  by_cases hwaits : t.awaiting = 0
  · obtain ⟨c', at_, hwatched⟩ := watched_begins h ht hrunning hwaits
    exact ⟨c', _, at_, hwatched, List.mem_singleton.mpr rfl⟩
  · have hone := (watched_ok (fun _ _ _ h => h.1) h).loopsPaced.single i t ht
    have hnext : loopStep i (.settle .resolved) c.shared (c.procs i) =
        some (c.shared.setTimeout i t.intervalMs,
          some { t with awaiting := t.awaiting - 1, timer := some c.shared.nextId }) := by
      rw [ht]
      show (if 0 < t.awaiting then some ((RepeatingTask.settle i t c.shared .resolved).1,
        some (RepeatingTask.settle i t c.shared .resolved).2) else none) = _
      rw [if_pos (by omega), RepeatingTask.settle_eq, if_neg (by simp [hrunning])]
    obtain ⟨c₁, hsettle, -, hproc⟩ := next_of_step loopStep hnext
    have hwatched := Watched.step h ⟨fun _ h => (by cases h), fun h => (by cases h)⟩ hsettle
    obtain ⟨c', at_, hwatched'⟩ := watched_begins hwatched hproc hrunning
      (show t.awaiting - 1 = 0 by omega)
    rw [List.append_assoc] at hwatched'
    exact ⟨c', _, at_, hwatched', List.mem_append_right _ (List.mem_singleton.mpr rfl)⟩

/-- The publishing run that failed is followed by another. -/
theorem publishTwice_continues : ∃ c seen c' more at_,
    Watched loopStep Handled taskEvents idleWorker c seen ∧
      eventsOf 1 seen = [.began 0, .ended 100] ∧
        Watched loopStep Handled taskEvents idleWorker c' (seen ++ more) ∧
          (1, TaskEvent.began at_) ∈ more := by
  have hrun : (watchIf loopStep Handled taskEvents idleWorker [] (publishTwice.take 6)).any
      (fun out => decide (eventsOf 1 out.2 = [.began 0, .ended 100]) &&
        decide (out.1.procs 1 = some ⟨2000, false, some 3, 0⟩)) = true := by
    decide +kernel
  obtain ⟨c, seen, hwatched, hp⟩ := watched_of_any hrun
  simp only [Bool.and_eq_true, decide_eq_true_eq] at hp
  obtain ⟨c', more, at_, hcontinues⟩ := watched_continues hwatched hp.2 rfl
  exact ⟨c, seen, c', more, at_, hwatched, hp.1, hcontinues⟩

end WageringProcessor
