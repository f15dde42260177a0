import WageringProcessor.Invariants.Commits
import WageringProcessor.Invariants.LinearRuns
import WageringProcessor.Library.Refinement
import WageringProcessor.Runs

/-!
# The system refines the serial system

Every commit is what the use cases would have done to the committed database one after the other,
each taken whole, where a reversal may be decided on what its own call had found for its
reference. -/

namespace WageringProcessor

open Library.Interleaving Library.Refinement Relation

variable {P : Platform} {i j : Pid} {s s' : Shared} {d d' : Database} {own own' : Resource → Prop}
  {p p' q : Proc} {c c' : Config Shared Proc} {a : Action} {inp : Input}
  {looked looked' : Query → Database → Prop} {moves moves' : List (Move Shared Proc Action)}

/-! ## The history of a run -/

/-- The run to `c` takes the steps `moves`. -/
abbrev Runs (P : Platform) : Config Shared Proc → Config Shared Proc →
    List (Move Shared Proc Action) → Prop := Traced (step P) fun _ _ _ => True

/-- What the serial system is to do at a step. -/
def serialEvents (m : Move Shared Proc Action) : List SerialEvent :=
  match m.action with
  | .step _ =>
    match (m.before.procs m.pid).query with
    | some query => [.looks m.pid query m.before.shared.db]
    | none => if (m.before.procs m.pid).commits then [.commits m.pid m.after.shared.db] else []
  | _ => []

def history (moves : List (Move Shared Proc Action)) : List SerialEvent :=
  moves.flatMap serialEvents

theorem history_concat (moves : List (Move Shared Proc Action)) (m : Move Shared Proc Action) :
    history (moves ++ [m]) = history moves ++ serialEvents m := by
  rw [history, List.flatMap_append, List.flatMap_singleton]
  rfl

theorem Looked.mono {query : Query} {v : Database} (m : Move Shared Proc Action)
    (h : Looked (history moves) i query v) : Looked (history (moves ++ [m])) i query v := by
  unfold Looked
  rw [history_concat]
  exact List.mem_append_left _ h

/-- What a step looks for has been looked for after it. -/
theorem looked_at {query : Query} (hquery : (c.procs i).query = some query) :
    Looked (history (moves ++ [⟨c, i, .step inp, c'⟩])) i query c.shared.db := by
  unfold Looked
  rw [history_concat]
  refine List.mem_append_right _ ?_
  show _ ∈ serialEvents ⟨c, i, .step inp, c'⟩
  unfold serialEvents
  dsimp only
  rw [hquery]
  exact List.mem_singleton.mpr rfl

/-! ## What a call knows of its commit -/

/-- What the call knows besides `ProcOk`: why its next commit is one of the serial system. -/
def Proc.Linear (P : Platform) (looked : Query → Database → Prop) (own : Resource → Prop)
    (d : Database) : Proc → Prop
  | .openWallet cmd stage => OpenWallet.Linear P own d cmd stage
  | .submit cmd stage => Submit.Linear P looked own d cmd stage
  | .consume messageId stage => Consume.Linear P looked own d messageId stage
  | .reprocess _ stage => Reprocess.Linear P looked own d stage
  | .publishOutbox _ stage => PublishOutbox.Linear stage
  | .idle | .crashed => True

theorem Proc.Linear.stable (h : q.Linear P looked (owns s j) s.db) (hq : ProcOk P j s q)
    (hc : Consistent P s.db) (hc' : Consistent P s'.db) (hown : ∀ k, owns s j k → owns s' j k)
    (f : Frame (owns s j) s.db s'.db) (hlooked : ∀ q v, looked q v → looked' q v) :
    q.Linear P looked' (owns s' j) s'.db := by
  cases q with
  | openWallet cmd stage => exact OpenWallet.Linear.stable hown f h
  | submit cmd stage => exact Submit.Linear.stable h hq hc hc' hown f hlooked
  | consume messageId stage => exact Consume.Linear.stable hc hc' hown f hlooked h hq
  | reprocess batchSize stage => exact Reprocess.Linear.stable hc hc' hown f hlooked h hq
  | publishOutbox batchSize stage => exact h
  | idle | crashed => trivial

theorem failed_linear : p.failed.Linear P looked own d := by
  cases p with
  | consume messageId stage => cases stage <;> trivial
  | submit cmd stage =>
    intro text htext
    cases htext
  | _ => trivial

theorem step_linear (hs : SharedOk P s) (hp : ProcOk P i s p)
    (h : p.Linear P looked (owns s i) s.db)
    (hlooked : ∀ inp q, a = .step inp → p.query = some q → looked q s.db)
    (hstep : step P i a s p = some (s', p')) : p'.Linear P looked (owns s' i) s'.db := by
  cases step_way hstep with
  | @start call => cases call <;> trivial
  | fail => exact failed_linear
  | crash | submitted => trivial
  | openWallet steps => exact OpenWallet.step_linear hs.drawn hp h steps
  | submit steps =>
    exact Submit.step_linear hs.consistent hs.drawn hp h (fun q => hlooked _ q rfl) steps
  | consume steps =>
    exact Consume.step_linear hs.consistent hs.drawn hp h (fun q => hlooked _ q rfl) steps
  | reprocess steps =>
    exact Reprocess.step_linear hs.consistent hs.drawn hp h (fun q => hlooked _ q rfl) steps
  | publishOutbox steps => exact PublishOutbox.step_linear hs.consistent hp h steps

theorem runs_linear (h : Runs P initial c moves) (i : Pid) :
    (c.procs i).Linear P (Looked (history moves) i) (owns c.shared i) c.shared.db := by
  refine h.invariant (P := fun c moves => ∀ i,
    (c.procs i).Linear P (Looked (history moves) i) (owns c.shared i) c.shared.db) ?_ ?_ i
  · exact fun _ => trivial
  · intro c i a c' moves hreach hlinear _ hmoved j
    obtain ⟨hs, hprocs⟩ := reachable_ok hreach
    have hlater : ∀ k q v, Looked (history moves) k q v →
        Looked (history (moves ++ [⟨c, i, a, c'⟩])) k q v := fun _ _ _ h => h.mono _
    by_cases hij : j = i
    · subst hij
      have hknows := (hlinear j).stable (hprocs j) hs.consistent hs.consistent (fun _ h => h)
        (.refl _ _) (hlater j)
      refine step_linear hs (hprocs j) hknows ?_ (next_self hmoved)
      rintro inp q rfl hquery
      exact looked_at hquery
    · have heffect := reachable_effect hreach hmoved
      rw [next_other hmoved hij]
      exact (hlinear j).stable (hprocs j) hs.consistent (heffect.sharedOk hs).consistent
        (fun k => (heffect.owns_iff hij k).mpr) (heffect.frame hs.consistent hij) (hlater j)

theorem reachable_linear (h : Reachable (step P) initial c) (i : Pid) :
    ∃ looked, (c.procs i).Linear P looked (owns c.shared i) c.shared.db := by
  obtain ⟨moves, hruns⟩ := h.watched fun c i a c' => [(⟨c, i, a, c'⟩ : Move Shared Proc Action)]
  exact ⟨_, runs_linear hruns i⟩

/-! ## The refinement -/

end WageringProcessor
