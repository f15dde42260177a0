import WageringProcessor.Library.Table

/-!
# The timers of an event loop

A timer is set with a delay and carries a payload.  It is due once its delay has passed; the loop
may hand it over at any time from then on, and hands each over at most once.  A timer that is
cleared is never handed over.
-/

namespace Library.Timers

open Library.Table

structure Timer (β : Type*) where
  id : Nat
  due : Nat
  payload : β
deriving DecidableEq, Repr

structure EventLoop (β : Type*) where
  now : Nat
  nextId : Nat
  timers : List (Timer β)

namespace EventLoop

variable {β : Type*} (l : EventLoop β) {id : Nat} {t : Timer β}

def start (β : Type*) : EventLoop β := ⟨0, 0, []⟩

def setTimeout (payload : β) (delay : Nat) : EventLoop β :=
  { l with
    nextId := l.nextId + 1
    timers := l.timers ++ [⟨l.nextId, l.now + delay, payload⟩] }

def clearTimeout (id : Nat) : EventLoop β :=
  { l with timers := l.timers.filter fun t => t.id ≠ id }

/-- Time passes. -/
def wait (ms : Nat) : EventLoop β := { l with now := l.now + ms }

/-- The timer `id`, if it is set and due. -/
def due (id : Nat) : Option (Timer β) :=
  (lookup Timer.id id l.timers).filter fun t => t.due ≤ l.now

/-- The ids of the timers tell them apart. -/
structure WellFormed : Prop where
  nodup : (l.timers.map Timer.id).Nodup
  fresh : ∀ t ∈ l.timers, t.id < l.nextId

variable {l}

theorem due_eq_some (h : l.due id = some t) : t ∈ l.timers ∧ t.id = id ∧ t.due ≤ l.now := by
  obtain ⟨hfound, hdue⟩ := Option.filter_eq_some_iff.mp h
  obtain ⟨ht, hid⟩ := lookup_mem hfound
  exact ⟨ht, hid, of_decide_eq_true hdue⟩

theorem WellFormed.due_of_mem (h : l.WellFormed) (ht : t ∈ l.timers) (hdue : t.due ≤ l.now) :
    l.due t.id = some t := by
  unfold due
  rw [lookup_of_mem h.nodup ht]
  exact Option.filter_eq_some_iff.mpr ⟨rfl, decide_eq_true hdue⟩

theorem WellFormed.start : (EventLoop.start β).WellFormed :=
  ⟨List.nodup_nil, fun _ ht => absurd ht List.not_mem_nil⟩

theorem WellFormed.setTimeout (h : l.WellFormed) (payload : β) (delay : Nat) :
    (l.setTimeout payload delay).WellFormed := by
  constructor
  · show ((l.timers ++ [_]).map Timer.id).Nodup
    rw [List.map_append, List.nodup_append]
    refine ⟨h.nodup, List.nodup_singleton _, ?_⟩
    intro id hid id' hid' heq
    obtain ⟨t, ht, rfl⟩ := List.mem_map.mp hid
    obtain rfl := List.mem_singleton.mp hid'
    have hlt : t.id < l.nextId := h.fresh t ht
    have heq : t.id = l.nextId := heq
    omega
  · intro t ht
    show t.id < l.nextId + 1
    rcases List.mem_append.mp ht with ht | ht
    · have hlt := h.fresh t ht
      omega
    · obtain rfl := List.mem_singleton.mp ht
      show l.nextId < l.nextId + 1
      omega

theorem WellFormed.clearTimeout (h : l.WellFormed) (id : Nat) : (l.clearTimeout id).WellFormed :=
  ⟨h.nodup.sublist (List.filter_sublist.map Timer.id),
    fun t ht => h.fresh t (List.mem_of_mem_filter ht)⟩

theorem WellFormed.wait (h : l.WellFormed) (ms : Nat) : (l.wait ms).WellFormed := ⟨h.nodup, h.fresh⟩

theorem mem_setTimeout {payload : β} {delay : Nat} :
    t ∈ (l.setTimeout payload delay).timers ↔
      t ∈ l.timers ∨ t = ⟨l.nextId, l.now + delay, payload⟩ := by
  show t ∈ l.timers ++ [_] ↔ _
  rw [List.mem_append, List.mem_singleton]

theorem mem_clearTimeout : t ∈ (l.clearTimeout id).timers ↔ t ∈ l.timers ∧ t.id ≠ id := by
  show t ∈ l.timers.filter _ ↔ _
  rw [List.mem_filter, decide_eq_true_iff]

/-! ## The timers with one payload -/

section

variable [DecidableEq β] {p q : β} {ms : Nat}

def timersOf (l : EventLoop β) (p : β) : List (Timer β) := l.timers.filter fun t => t.payload = p

theorem mem_timersOf : t ∈ l.timersOf p ↔ t ∈ l.timers ∧ t.payload = p := by
  show t ∈ l.timers.filter _ ↔ _
  rw [List.mem_filter, decide_eq_true_iff]

theorem timersOf_setTimeout (l : EventLoop β) (p q : β) (delay : Nat) :
    (l.setTimeout q delay).timersOf p =
      l.timersOf p ++ if q = p then [⟨l.nextId, l.now + delay, q⟩] else [] := by
  show (l.timers ++ [_]).filter _ = _
  rw [List.filter_append]
  congr 1
  by_cases h : q = p <;> simp [h]

theorem timersOf_clearTimeout (l : EventLoop β) (p : β) (id : Nat) :
    (l.clearTimeout id).timersOf p = (l.timersOf p).filter fun t => t.id ≠ id := by
  show (l.timers.filter _).filter _ = (l.timers.filter _).filter _
  rw [List.filter_filter, List.filter_filter]
  exact List.filter_congr fun t _ => Bool.and_comm _ _

/-- What the loop may do without touching the timers of `p`. -/
structure Spares (p : β) (l l' : EventLoop β) : Prop where
  timers : l'.timersOf p = l.timersOf p
  now : l.now ≤ l'.now
  nextId : l.nextId ≤ l'.nextId
  old : ∀ t ∈ l'.timers, t.id < l.nextId → t ∈ l.timers

theorem Spares.setTimeout (h : q ≠ p) (delay : Nat) : Spares p l (l.setTimeout q delay) where
  timers := by rw [timersOf_setTimeout, if_neg h, List.append_nil]
  now := Nat.le_refl l.now
  nextId := Nat.le_succ l.nextId
  old t ht hlt := by
    rcases mem_setTimeout.mp ht with ht | rfl
    · exact ht
    · exact absurd hlt (Nat.lt_irrefl l.nextId)

theorem Spares.clearTimeout (h : ∀ t ∈ l.timers, t.id = id → t.payload ≠ p) :
    Spares p l (l.clearTimeout id) where
  timers := by
    rw [timersOf_clearTimeout]
    refine List.filter_eq_self.mpr fun t ht => ?_
    obtain ⟨ht, hp⟩ := mem_timersOf.mp ht
    exact decide_eq_true fun hid => h t ht hid hp
  now := Nat.le_refl l.now
  nextId := Nat.le_refl l.nextId
  old _ ht _ := (mem_clearTimeout.mp ht).1

theorem Spares.wait : Spares p l (l.wait ms) where
  timers := rfl
  now := Nat.le_add_right l.now ms
  nextId := Nat.le_refl l.nextId
  old _ ht _ := ht

end

end EventLoop

end Library.Timers
