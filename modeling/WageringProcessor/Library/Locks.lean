import WageringProcessor.Library.Interleaving
import Mathlib.Data.List.Basic
import Mathlib.Logic.Relation
import Mathlib.Order.Basic

/-!
# Exclusive locks held by processes

A lock table gives the holder of each resource.  A resource has at most one holder because the
table is a function; what the lemmas below add is that taking and giving back resources never
changes what another process holds.  Where every process waits only for resources that rank above
those it holds, no waits form a cycle.
-/

namespace Library.Locks

open Library.Interleaving (Pid)

abbrev Locks (κ : Type*) := κ → Option Pid

variable {κ : Type*}

/-- Gives back what `i` holds among the resources that `which` selects. -/
def release (t : Locks κ) (i : Pid) (which : κ → Bool) : Locks κ :=
  fun k => if t k = some i ∧ which k then none else t k

/-- `t'` differs from `t` only in what `i` holds. -/
def OnlyMoves (i : Pid) (t t' : Locks κ) : Prop :=
  ∀ j, j ≠ i → ∀ k, t' k = some j ↔ t k = some j

theorem OnlyMoves.refl (i : Pid) (t : Locks κ) : OnlyMoves i t t := fun _ _ _ => Iff.rfl

theorem OnlyMoves.trans {i : Pid} {t t' t'' : Locks κ} (h : OnlyMoves i t t')
    (h' : OnlyMoves i t' t'') : OnlyMoves i t t'' :=
  fun j hj k => (h' j hj k).trans (h j hj k)

variable {t t' : Locks κ} {i : Pid} {keys : List κ}

theorem release_onlyMoves (which : κ → Bool) : OnlyMoves i t (release t i which) := by
  intro j hj k
  unfold release
  split
  · rename_i hk
    simp [hk.1, Ne.symm hj]
  · rfl

variable [DecidableEq κ]

/-- Takes `keys` for `i`; `none` while another process holds one of them. -/
def acquire (t : Locks κ) (i : Pid) (keys : List κ) : Option (Locks κ) :=
  if ∀ k ∈ keys, t k = none ∨ t k = some i then
    some fun k => if k ∈ keys then some i else t k
  else
    none

/-- Takes `keys` for `i` where no process, `i` included, may hold them. -/
def acquireNew (t : Locks κ) (i : Pid) (keys : List κ) : Option (Locks κ) :=
  if keys.Nodup ∧ ∀ k ∈ keys, t k = none then
    some fun k => if k ∈ keys then some i else t k
  else
    none

theorem acquire_eq_some : acquire t i keys = some t' ↔
    (∀ k ∈ keys, t k = none ∨ t k = some i) ∧ t' = fun k => if k ∈ keys then some i else t k := by
  unfold acquire
  split
  · rename_i h
    simp only [Option.some.injEq]
    exact ⟨fun e => ⟨h, e.symm⟩, fun e => e.2.symm⟩
  · rename_i h
    simp [h]

theorem acquireNew_eq_some : acquireNew t i keys = some t' ↔
    (keys.Nodup ∧ ∀ k ∈ keys, t k = none) ∧ t' = fun k => if k ∈ keys then some i else t k := by
  unfold acquireNew
  split
  · rename_i h
    simp only [Option.some.injEq]
    exact ⟨fun e => ⟨h, e.symm⟩, fun e => e.2.symm⟩
  · rename_i h
    simp [h]

theorem acquire_onlyMoves (h : acquire t i keys = some t') : OnlyMoves i t t' := by
  obtain ⟨hfree, rfl⟩ := acquire_eq_some.mp h
  intro j hj k
  dsimp only
  split
  · rename_i hk
    rcases hfree k hk with hk' | hk' <;> simp [hk', Ne.symm hj]
  · rfl

theorem acquireNew_onlyMoves (h : acquireNew t i keys = some t') : OnlyMoves i t t' := by
  obtain ⟨⟨-, hfree⟩, rfl⟩ := acquireNew_eq_some.mp h
  intro j hj k
  dsimp only
  split
  · rename_i hk
    simp [hfree k hk, Ne.symm hj]
  · rfl

theorem acquire_holds (h : acquire t i keys = some t') {k : κ} (hk : k ∈ keys) :
    t' k = some i := by
  obtain ⟨-, rfl⟩ := acquire_eq_some.mp h
  simp [hk]

theorem acquire_keeps (h : acquire t i keys = some t') {k : κ} (hk : t k = some i) :
    t' k = some i := by
  obtain ⟨-, rfl⟩ := acquire_eq_some.mp h
  simp [hk]

theorem acquireNew_holds (h : acquireNew t i keys = some t') {k : κ} (hk : k ∈ keys) :
    t' k = some i := by
  obtain ⟨-, rfl⟩ := acquireNew_eq_some.mp h
  simp [hk]

theorem acquireNew_keeps (h : acquireNew t i keys = some t') {k : κ} (hk : t k = some i) :
    t' k = some i := by
  obtain ⟨-, rfl⟩ := acquireNew_eq_some.mp h
  simp [hk]

/-! ## Waiting -/

omit [DecidableEq κ] in
/-- `i` waits for a resource that `j` holds. -/
def WaitsFor (t : Locks κ) (wants : Pid → Option κ) (i j : Pid) : Prop :=
  ∃ k, wants i = some k ∧ t k = some j ∧ j ≠ i

section

variable {ρ : Type*} [Preorder ρ] {wants : Pid → Option κ} {rank : κ → ρ}

omit [DecidableEq κ] in
/-- Along waits the rank of what is waited for goes up. -/
theorem rank_lt_of_waits (hrank : ∀ i j l k m, wants i = some k → t k = some j →
      wants j = some m → t m = some l → l ≠ j → rank k < rank m)
    {i j l : Pid} {k m : κ} (h : Relation.TransGen (WaitsFor t wants) i j) (hi : wants i = some k)
    (hj : wants j = some m) (hm : t m = some l) (hne : l ≠ j) : rank k < rank m := by
  induction h generalizing m l with
  | single hstep =>
    obtain ⟨k', hi', hk, -⟩ := hstep
    obtain rfl : k = k' := Option.some.inj (hi.symm.trans hi')
    exact hrank _ _ _ _ _ hi hk hj hm hne
  | tail _ hstep ih =>
    obtain ⟨k', hb, hk', hnb⟩ := hstep
    exact (ih hb hk' hnb).trans (hrank _ _ _ _ _ hb hk' hj hm hne)

omit [DecidableEq κ] in
theorem acyclic_of_rank (hrank : ∀ i j l k m, wants i = some k → t k = some j →
      wants j = some m → t m = some l → l ≠ j → rank k < rank m)
    (i : Pid) : ¬Relation.TransGen (WaitsFor t wants) i i := by
  intro hcycle
  obtain ⟨j, ⟨k, hi, hk, hne⟩, -⟩ := Relation.TransGen.head'_iff.mp hcycle
  exact lt_irrefl _ (rank_lt_of_waits hrank hcycle hi hi hk hne)

end

end Library.Locks
