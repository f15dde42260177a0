import WageringProcessor.Library.Interleaving
import WageringProcessor.Library.Timers

/-!
# The repeating tasks of the worker

`startRepeatingTask` as the closure that it leaves behind, over an event loop that fires its
timers.  An execution of `tick` that awaits its task is counted, so two at a time are not excluded
here.
-/

namespace WageringProcessor

open Library.Interleaving Library.Timers

/-- The variables that `tick` and the returned function share, and the executions of `tick` that
await `task()`. -/
structure RepeatingTask where
  intervalMs : Nat
  stopped : Bool
  timer : Option Nat
  awaiting : Nat
deriving DecidableEq, Repr

/-- How `await task()` ends; where it rejects, `onError` is called, and may throw. -/
inductive TaskOutcome
  | resolved
  | rejected (onErrorThrows : Bool)
deriving DecidableEq, Repr

inductive LoopAction
  | start (intervalMs : Nat)
  /-- The event loop calls back the timer `id`. -/
  | fire (id : Nat)
  | settle (outcome : TaskOutcome)
  /-- The function that `startRepeatingTask` returned. -/
  | stop
  | wait (ms : Nat)
deriving DecidableEq, Repr

/-- The pause of the loop that is started. -/
def LoopAction.interval? : LoopAction → Option Nat
  | .start intervalMs => some intervalMs
  | _ => none

namespace RepeatingTask

variable (i : Pid)

def start (intervalMs : Nat) (l : EventLoop Pid) : EventLoop Pid × RepeatingTask :=
  (l.setTimeout i 0, ⟨intervalMs, false, some l.nextId, 0⟩)

/-- `tick` up to its `await`. -/
def tick (t : RepeatingTask) : RepeatingTask :=
  if t.stopped then t else { t with awaiting := t.awaiting + 1 }

/-- `tick` after its task has settled. -/
def settle (t : RepeatingTask) (l : EventLoop Pid) : TaskOutcome → EventLoop Pid × RepeatingTask
  | .rejected true => (l, { t with awaiting := t.awaiting - 1 })
  | _ =>
    if t.stopped then (l, { t with awaiting := t.awaiting - 1 })
    else (l.setTimeout i t.intervalMs,
      { t with awaiting := t.awaiting - 1, timer := some l.nextId })

theorem settle_eq (t : RepeatingTask) (l : EventLoop Pid) (outcome : TaskOutcome) :
    settle i t l outcome =
      if outcome = .rejected true ∨ t.stopped = true then (l, { t with awaiting := t.awaiting - 1 })
      else (l.setTimeout i t.intervalMs,
        { t with awaiting := t.awaiting - 1, timer := some l.nextId }) := by
  rcases outcome with _ | ⟨_ | _⟩ <;> simp [settle]

def stop (t : RepeatingTask) (l : EventLoop Pid) : EventLoop Pid × RepeatingTask :=
  ((t.timer.map l.clearTimeout).getD l, { t with stopped := true })

end RepeatingTask

/-- A step of the loop `i`; `none` is a loop that was not started. -/
def loopStep : LocalStep (EventLoop Pid) (Option RepeatingTask) LoopAction
  | i, .start intervalMs, l, none =>
    let (l, t) := RepeatingTask.start i intervalMs l
    some (l, some t)
  | i, .fire id, l, some t => do
    let timer ← l.due id
    if timer.payload = i then return (l.clearTimeout id, some t.tick) else none
  | i, .settle outcome, l, some t =>
    if 0 < t.awaiting then
      let (l, t) := RepeatingTask.settle i t l outcome
      some (l, some t)
    else none
  | _, .stop, l, some t =>
    let (l, t) := t.stop l
    some (l, some t)
  | _, .wait ms, l, t => some (l.wait ms, t)
  | _, _, _, _ => none

/-- The event loop before any of its tasks is started. -/
def idleWorker : Config (EventLoop Pid) (Option RepeatingTask) := ⟨.start Pid, fun _ => none⟩

/-! ## WorkerSchedulerService -/

namespace WorkerSchedulerService

def PUBLISH_OUTBOX_INTERVAL_MS : Nat := 2000

def REPROCESS_PENDING_REFERENCE_INTERVAL_MS : Nat := 5000

/-- The loops that consume `wager-transactions.fifo`, publish the outbox and reprocess. -/
def intervals : List Nat :=
  [0, PUBLISH_OUTBOX_INTERVAL_MS, REPROCESS_PENDING_REFERENCE_INTERVAL_MS]

def onApplicationBootstrap : List (Pid × LoopAction) :=
  intervals.zipIdx.map fun (ms, i) => (i, .start ms)

def onApplicationShutdown : List (Pid × LoopAction) :=
  intervals.zipIdx.map fun (_, i) => (i, .stop)

end WorkerSchedulerService

end WageringProcessor
