import Mathlib.Logic.Function.Basic

/-!
# Interleaved processes over a shared state

Processes are numbered; each has a private state and one partial step function, which reads and
writes the shared state.  A configuration moves by one enabled step of one process, so a schedule
is the list of the processes that moved and of the actions they took.

`Reach ok` are the configurations reached by runs all of whose steps meet `ok`, and `Watched ok see`
pairs them with what `see` records of the steps; `Traced ok` records the steps themselves.  The
rules below turn facts about one step into facts about whole runs: `Reach.invariant` for a property
of the whole configuration, `Reach.ownAndRely` for a shared invariant together with one private
assertion for each process, which its own steps keep and the steps of the others do not disturb,
`Reach.refines` for processes that take the steps of others, and `Reach.eventually` for the end that
a run can always be led to.
-/

namespace Library.Interleaving

abbrev Pid := Nat

structure Config (σ π : Type*) where
  shared : σ
  procs : Pid → π

/-- What process `i` does with action `a`; `none` when that step is not enabled. -/
abbrev LocalStep (σ π α : Type*) := Pid → α → σ → π → Option (σ × π)

variable {σ π α : Type*}

def next (step : LocalStep σ π α) (c : Config σ π) (i : Pid) (a : α) : Option (Config σ π) :=
  (step i a c.shared (c.procs i)).map fun out => ⟨out.1, Function.update c.procs i out.2⟩

def exec (step : LocalStep σ π α) : Config σ π → List (Pid × α) → Option (Config σ π)
  | c, [] => some c
  | c, (i, a) :: rest => (next step c i a).bind fun c' => exec step c' rest

inductive Reach (step : LocalStep σ π α) (ok : Config σ π → Pid → α → Prop) (init : Config σ π) :
    Config σ π → Prop
  | init : Reach step ok init init
  | step {c c' : Config σ π} {i : Pid} {a : α} (run : Reach step ok init c) (guard : ok c i a)
      (moved : next step c i a = some c') : Reach step ok init c'

abbrev Reachable (step : LocalStep σ π α) (init : Config σ π) : Config σ π → Prop :=
  Reach step (fun _ _ _ => True) init

variable {step : LocalStep σ π α} {ok : Config σ π → Pid → α → Prop} {init c c' : Config σ π}

theorem next_eq_some {i : Pid} {a : α} : next step c i a = some c' ↔
    ∃ s p, step i a c.shared (c.procs i) = some (s, p) ∧
      c' = ⟨s, Function.update c.procs i p⟩ := by
  simp only [next, Option.map_eq_some_iff, Prod.exists]
  constructor
  · rintro ⟨s, p, h, rfl⟩
    exact ⟨s, p, h, rfl⟩
  · rintro ⟨s, p, h, rfl⟩
    exact ⟨s, p, h, rfl⟩

theorem next_self {i : Pid} {a : α} (h : next step c i a = some c') :
    step i a c.shared (c.procs i) = some (c'.shared, c'.procs i) := by
  obtain ⟨s, p, hstep, rfl⟩ := next_eq_some.mp h
  show _ = some (s, Function.update c.procs i p i)
  rw [Function.update_self]
  exact hstep

theorem next_other {i j : Pid} {a : α} (h : next step c i a = some c') (hij : j ≠ i) :
    c'.procs j = c.procs j := by
  obtain ⟨s, p, -, rfl⟩ := next_eq_some.mp h
  exact Function.update_of_ne hij p c.procs

theorem next_of_step (step : LocalStep σ π α) {i : Pid} {a : α} {s : σ} {p : π}
    (h : step i a c.shared (c.procs i) = some (s, p)) :
    ∃ c', next step c i a = some c' ∧ c'.shared = s ∧ c'.procs i = p :=
  ⟨⟨s, Function.update c.procs i p⟩, next_eq_some.mpr ⟨s, p, h, rfl⟩, rfl,
    Function.update_self i p c.procs⟩

theorem Reach.reachable (h : Reach step ok init c) : Reachable step init c := by
  induction h with
  | init => exact .init
  | step _ _ moved ih => exact .step ih trivial moved

/-- A run of processes whose steps others can take as well, perhaps by other actions. -/
theorem Reach.refines {β : Type*} {step' : LocalStep σ π β}
    (hsteps : ∀ i a s p out, step i a s p = some out → ∃ b, step' i b s p = some out)
    (h : Reach step ok init c) : Reachable step' init c := by
  induction h with
  | init => exact .init
  | @step c c' i a _ _ moved ih =>
    obtain ⟨s, p, hstep, hc'⟩ := next_eq_some.mp moved
    obtain ⟨b, hstep'⟩ := hsteps i a c.shared (c.procs i) (s, p) hstep
    exact .step ih trivial (next_eq_some.mpr ⟨s, p, hstep', hc'⟩)

theorem Reach.trans {c₁ c₂ : Config σ π} (h₁ : Reach step ok init c₁) (h₂ : Reach step ok c₁ c₂) :
    Reach step ok init c₂ := by
  induction h₂ with
  | init => exact h₁
  | step _ guard moved ih => exact .step ih guard moved

/-- Run rule for a schedule: the first step, then the rest from where it leads. -/
theorem exec_of_step {i : Pid} {a : α}
    {rest : List (Pid × α)} {s : σ} {p : π} {goal : Config σ π → Prop}
    (hstep : step i a c.shared (c.procs i) = some (s, p))
    (hrest : ∀ c₁, c₁.shared = s → c₁.procs i = p → ∃ c', exec step c₁ rest = some c' ∧ goal c') :
    ∃ c', exec step c ((i, a) :: rest) = some c' ∧ goal c' := by
  obtain ⟨c₁, hnext, hs, hp⟩ := next_of_step step hstep
  obtain ⟨c', hexec, hgoal⟩ := hrest c₁ hs hp
  refine ⟨c', ?_, hgoal⟩
  show (next step c i a).bind _ = some c'
  rw [hnext]
  exact hexec

/-- A process that a schedule does not name stays where it is. -/
theorem exec_other {sched : List (Pid × α)} {i : Pid} (h : exec step c sched = some c')
    (hsched : ∀ move ∈ sched, move.1 ≠ i) : c'.procs i = c.procs i := by
  induction sched generalizing c with
  | nil =>
    obtain rfl := Option.some.inj h
    rfl
  | cons move rest ih =>
    obtain ⟨c₁, hmoved, hrest⟩ := Option.bind_eq_some_iff.mp h
    rw [ih hrest fun move' hmove' => hsched move' (List.mem_cons_of_mem move hmove'),
      next_other hmoved (hsched move List.mem_cons_self).symm]

theorem reachable_of_exec {sched : List (Pid × α)} (h : exec step c sched = some c') :
    Reachable step c c' := by
  induction sched generalizing c with
  | nil =>
    obtain rfl : c = c' := by simpa [exec] using h
    exact .init
  | cons move rest ih =>
    obtain ⟨i, a⟩ := move
    obtain ⟨d, hd, hrest⟩ := Option.bind_eq_some_iff.mp h
    exact Reach.trans (.step .init trivial hd) (ih hrest)

/-- A schedule that ends where `p` holds shows that `p` is reachable. -/
theorem reachable_of_any {sched : List (Pid × α)} {p : Config σ π → Bool}
    (h : (exec step c sched).any p = true) : ∃ c', Reachable step c c' ∧ p c' = true := by
  cases hexec : exec step c sched with
  | none => simp [hexec] at h
  | some c' => exact ⟨c', reachable_of_exec hexec, by simpa [hexec] using h⟩

/-- A schedule all of whose steps meet `ok`. -/
def execIf (step : LocalStep σ π α) (ok : Config σ π → Pid → α → Prop)
    [∀ c i a, Decidable (ok c i a)] : Config σ π → List (Pid × α) → Option (Config σ π)
  | c, [] => some c
  | c, (i, a) :: rest =>
    if ok c i a then (next step c i a).bind fun c' => execIf step ok c' rest else none

theorem reach_of_execIf [∀ c i a, Decidable (ok c i a)] {sched : List (Pid × α)}
    (h : execIf step ok c sched = some c') : Reach step ok c c' := by
  induction sched generalizing c with
  | nil =>
    obtain rfl : c = c' := by simpa [execIf] using h
    exact .init
  | cons move rest ih =>
    obtain ⟨i, a⟩ := move
    obtain ⟨hok, hrest⟩ := Option.ite_none_right_eq_some.mp h
    obtain ⟨d, hd, hrest⟩ := Option.bind_eq_some_iff.mp hrest
    exact Reach.trans (.step .init hok hd) (ih hrest)

theorem reach_of_any [∀ c i a, Decidable (ok c i a)] {sched : List (Pid × α)}
    {p : Config σ π → Bool} (h : (execIf step ok c sched).any p = true) :
    ∃ c', Reach step ok c c' ∧ p c' = true := by
  cases hexec : execIf step ok c sched with
  | none => simp [hexec] at h
  | some c' => exact ⟨c', reach_of_execIf hexec, by simpa [hexec] using h⟩

/-- Run rule for a property of the whole configuration. -/
theorem Reach.invariant {P : Config σ π → Prop} (hinit : P init)
    (hstep : ∀ c i a c', Reach step ok init c → P c → ok c i a → next step c i a = some c' → P c')
    (h : Reach step ok init c) : P c := by
  induction h with
  | init => exact hinit
  | step run guard moved ih => exact hstep _ _ _ _ run ih guard moved

/-- Run rule for one process: what its own steps keep. -/
theorem Reach.procInvariant {Q : π → Prop} {i : Pid} (hQ : Q (init.procs i))
    (hstep : ∀ c a s p, Reach step ok init c → Q (c.procs i) →
      step i a c.shared (c.procs i) = some (s, p) → Q p)
    (h : Reach step ok init c) : Q (c.procs i) := by
  refine h.invariant (P := fun c => Q (c.procs i)) hQ fun c j a c' run hq _ moved => ?_
  obtain ⟨s, p, hs, rfl⟩ := next_eq_some.mp moved
  show Q (Function.update c.procs j p i)
  by_cases hij : i = j
  · subst hij
    rw [Function.update_self]
    exact hstep c a s p run hq hs
  · rw [Function.update_of_ne hij]
    exact hq

/-- A run to `c` all of whose steps meet `ok`, and what `see` records of its steps, oldest first. -/
inductive Watched {ο : Type*} (step : LocalStep σ π α) (ok : Config σ π → Pid → α → Prop)
    (see : Config σ π → Pid → α → Config σ π → List ο) (init : Config σ π) :
    Config σ π → List ο → Prop
  | init : Watched step ok see init init []
  | step {c c' : Config σ π} {i : Pid} {a : α} {seen : List ο}
      (run : Watched step ok see init c seen)
      (guard : ok c i a) (moved : next step c i a = some c') :
      Watched step ok see init c' (seen ++ see c i a c')

section

variable {ο : Type*} {see : Config σ π → Pid → α → Config σ π → List ο} {seen : List ο}

theorem Watched.reach (h : Watched step ok see init c seen) : Reach step ok init c := by
  induction h with
  | init => exact .init
  | step _ guard moved ih => exact .step ih guard moved

theorem Reach.watched (see : Config σ π → Pid → α → Config σ π → List ο)
    (h : Reach step ok init c) : ∃ seen, Watched step ok see init c seen := by
  induction h with
  | init => exact ⟨[], .init⟩
  | step _ guard moved ih =>
    obtain ⟨seen, hwatched⟩ := ih
    exact ⟨_, .step hwatched guard moved⟩

theorem Watched.append {c₁ c₂ : Config σ π} {seen₁ seen₂ : List ο}
    (h₁ : Watched step ok see init c₁ seen₁) (h₂ : Watched step ok see c₁ c₂ seen₂) :
    Watched step ok see init c₂ (seen₁ ++ seen₂) := by
  induction h₂ with
  | init => rwa [List.append_nil]
  | step _ guard moved ih =>
    rw [← List.append_assoc]
    exact .step ih guard moved

/-- Run rule for a property of the configuration and of what was seen on the way to it. -/
theorem Watched.invariant {P : Config σ π → List ο → Prop} (hinit : P init [])
    (hstep : ∀ c i a c' seen, Reach step ok init c → P c seen → ok c i a →
      next step c i a = some c' → P c' (seen ++ see c i a c'))
    (h : Watched step ok see init c seen) : P c seen := by
  induction h with
  | init => exact hinit
  | step run guard moved ih => exact hstep _ _ _ _ _ run.reach ih guard moved

/-- A schedule all of whose steps meet `ok`, and what `see` records of it after `seen`. -/
def watchIf (step : LocalStep σ π α) (ok : Config σ π → Pid → α → Prop)
    (see : Config σ π → Pid → α → Config σ π → List ο) [∀ c i a, Decidable (ok c i a)] :
    Config σ π → List ο → List (Pid × α) → Option (Config σ π × List ο)
  | c, seen, [] => some (c, seen)
  | c, seen, (i, a) :: rest =>
    if ok c i a then
      (next step c i a).bind fun c' => watchIf step ok see c' (seen ++ see c i a c') rest
    else none

theorem Watched.extend [∀ c i a, Decidable (ok c i a)] {sched : List (Pid × α)} {seen' : List ο}
    (h : Watched step ok see init c seen)
    (hwatch : watchIf step ok see c seen sched = some (c', seen')) :
    Watched step ok see init c' seen' := by
  induction sched generalizing c seen with
  | nil =>
    obtain ⟨rfl, rfl⟩ := Prod.mk.inj (Option.some.inj hwatch)
    exact h
  | cons move rest ih =>
    obtain ⟨i, a⟩ := move
    obtain ⟨hok, hrest⟩ := Option.ite_none_right_eq_some.mp hwatch
    obtain ⟨d, hd, hrest⟩ := Option.bind_eq_some_iff.mp hrest
    exact ih (.step h hok hd) hrest

theorem watched_of_any [∀ c i a, Decidable (ok c i a)] {sched : List (Pid × α)}
    {p : Config σ π × List ο → Bool} (h : (watchIf step ok see c [] sched).any p = true) :
    ∃ c' seen, Watched step ok see c c' seen ∧ p (c', seen) = true := by
  obtain ⟨⟨c', seen⟩, hwatch, hp⟩ := (Option.any_eq_true p _).mp h
  exact ⟨c', seen, Watched.extend .init hwatch, hp⟩

end

/-- A step that a run takes. -/
structure Move (σ π α : Type*) where
  before : Config σ π
  pid : Pid
  action : α
  after : Config σ π

/-- A run all of whose steps meet `ok`, with its steps. -/
abbrev Traced (step : LocalStep σ π α) (ok : Config σ π → Pid → α → Prop) (init : Config σ π) :
    Config σ π → List (Move σ π α) → Prop :=
  Watched step ok (fun c i a c' => [⟨c, i, a, c'⟩]) init

/-- Run rule for a shared invariant `I` with one private assertion `L i` for each process: its own
steps keep both, and `L j` survives the steps of every other process. -/
theorem Reach.ownAndRely {I : σ → Prop} {L : Pid → σ → π → Prop}
    (hI : I init.shared) (hL : ∀ i, L i init.shared (init.procs i))
    (own : ∀ c i a s p, Reach step ok init c → ok c i a → I c.shared →
      L i c.shared (c.procs i) → step i a c.shared (c.procs i) = some (s, p) → I s ∧ L i s p)
    (rely : ∀ c i a s p j q, Reach step ok init c → ok c i a → I c.shared →
      L i c.shared (c.procs i) → step i a c.shared (c.procs i) = some (s, p) → j ≠ i →
      L j c.shared q → L j s q)
    (h : Reach step ok init c) : I c.shared ∧ ∀ i, L i c.shared (c.procs i) := by
  refine h.invariant (P := fun c => I c.shared ∧ ∀ i, L i c.shared (c.procs i)) ⟨hI, hL⟩ ?_
  rintro c i a c' run ⟨hIc, hLc⟩ guard moved
  obtain ⟨s, p, hs, rfl⟩ := next_eq_some.mp moved
  obtain ⟨hIs, hLi⟩ := own c i a s p run guard hIc (hLc i) hs
  refine ⟨hIs, fun j => ?_⟩
  -- the step is its own process's, or what another process relies on
  by_cases hj : j = i
  · subst hj
    simpa using hLi
  · simpa [Function.update_of_ne hj] using
      rely c i a s p j (c.procs j) run guard hIc (hLc i) hs hj (hLc j)

/-- Run rule for an end: where some step lowers the bound of `I` until `goal` holds, a run leads to
`goal`. -/
theorem Reach.eventually {I : Nat → Config σ π → Prop} {goal : Config σ π → Prop}
    (hmove : ∀ n c, I n c → ¬goal c →
      ∃ i a c' m, m < n ∧ ok c i a ∧ next step c i a = some c' ∧ I m c')
    {n : Nat} (hI : I n c) : ∃ c', Reach step ok c c' ∧ goal c' := by
  induction n using Nat.strongRecOn generalizing c with
  | ind n ih =>
    by_cases hgoal : goal c
    · exact ⟨c, .init, hgoal⟩
    · obtain ⟨i, a, c₁, m, hlt, hok, hmoved, hI₁⟩ := hmove n c hI hgoal
      obtain ⟨c', hreach, hgoal'⟩ := ih m hlt hI₁
      exact ⟨c', Reach.trans (.step .init hok hmoved) hreach, hgoal'⟩

end Library.Interleaving
