import Mathlib.Algebra.BigOperators.Group.Finset.Piecewise
import Mathlib.Algebra.Order.BigOperators.Group.Finset
import Mathlib.Data.Finset.Lattice.Fold
import Mathlib.Order.Lattice.Nat

/-!
# Jobs that are worked on in rounds

Each job has some work left.  A round takes `n` of the jobs that have work left, whichever they are
and all of them where there are fewer, and lowers the work of each job that it takes.  While `n`
jobs or more are left a round lowers the sum of the work, and afterwards the longest of the jobs:
that bounds the number of rounds after which no work is left.
-/

namespace Library.Rounds

open Finset

variable {ι : Type*} {jobs taken : Finset ι} {n k m : Nat}
  {left left' left'' : ι → Nat}

/-- The jobs that have work left. -/
def waiting (jobs : Finset ι) (left : ι → Nat) : Finset ι := jobs.filter (0 < left ·)

structure Round (jobs : Finset ι) (n : Nat) (left left' : ι → Nat) (taken : Finset ι) : Prop where
  waits : taken ⊆ waiting jobs left
  card : taken.card = min n (waiting jobs left).card
  worked : ∀ j ∈ taken, left' j < left j
  kept : ∀ j ∈ jobs, j ∉ taken → left' j = left j

/-- `k` rounds, one after the other. -/
inductive RoundSeq (jobs : Finset ι) (n : Nat) : Nat → (ι → Nat) → (ι → Nat) → Prop
  | none (left : ι → Nat) : RoundSeq jobs n 0 left left
  | next {k : Nat} {left left' left'' : ι → Nat} {taken : Finset ι}
      (first : Round jobs n left left' taken) (rest : RoundSeq jobs n k left' left'') :
      RoundSeq jobs n (k + 1) left left''

/-- The sum of the work, and the longest job once for every job but one that a round can take. -/
def bound (jobs : Finset ι) (n : Nat) (left : ι → Nat) : Nat :=
  ∑ j ∈ jobs, left j + (n - 1) * jobs.sup left

theorem bound_of_done (h : waiting jobs left = ∅) : bound jobs n left = 0 := by
  have hnone : ∀ j ∈ jobs, left j = 0 := fun j hj =>
    Nat.eq_zero_of_not_pos fun hpos => notMem_empty j (h ▸ mem_filter.mpr ⟨hj, hpos⟩)
  have hsup : jobs.sup left = 0 := Nat.le_zero.mp (Finset.sup_le fun j hj => (hnone j hj).le)
  rw [bound, sum_eq_zero hnone, hsup, Nat.mul_zero]

/-- Where no job is longer than `m`, this many rounds are enough. -/
theorem bound_le (hmax : ∀ j ∈ jobs, left j ≤ m) :
    bound jobs n left ≤ m * ((waiting jobs left).card + (n - 1)) := by
  have hsum : ∑ j ∈ jobs, left j ≤ (waiting jobs left).card * m := by
    have hwaiting : ∑ j ∈ waiting jobs left, left j = ∑ j ∈ jobs, left j := by
      refine sum_subset (filter_subset _ jobs) fun j hj hdone => ?_
      exact Nat.eq_zero_of_not_pos fun hpos => hdone (mem_filter.mpr ⟨hj, hpos⟩)
    rw [← hwaiting]
    exact sum_le_card_nsmul _ _ _ fun j hj => hmax j (mem_filter.mp hj).1
  have hsup : (n - 1) * jobs.sup left ≤ (n - 1) * m :=
    Nat.mul_le_mul_left (n - 1) (Finset.sup_le hmax)
  calc bound jobs n left
    _ ≤ (waiting jobs left).card * m + (n - 1) * m := Nat.add_le_add hsum hsup
    _ = m * ((waiting jobs left).card + (n - 1)) := by rw [← Nat.add_mul, Nat.mul_comm]

variable [DecidableEq ι]

theorem Round.le (h : Round jobs n left left' taken) : ∀ j ∈ jobs, left' j ≤ left j := by
  intro j hj
  by_cases htaken : j ∈ taken
  · exact Nat.le_of_lt (h.worked j htaken)
  · exact Nat.le_of_eq (h.kept j hj htaken)

/-- A round lowers the sum by the number of jobs that it takes. -/
theorem Round.sum (h : Round jobs n left left' taken) :
    ∑ j ∈ jobs, left' j + taken.card ≤ ∑ j ∈ jobs, left j := by
  have htaken : taken ⊆ jobs := h.waits.trans (filter_subset _ jobs)
  calc ∑ j ∈ jobs, left' j + taken.card
    _ = ∑ j ∈ jobs, left' j + ∑ j ∈ jobs, if j ∈ taken then 1 else 0 := by
      rw [sum_ite_mem, inter_eq_right.mpr htaken, card_eq_sum_ones]
    _ = ∑ j ∈ jobs, (left' j + if j ∈ taken then 1 else 0) := sum_add_distrib.symm
    _ ≤ ∑ j ∈ jobs, left j := by
      refine sum_le_sum fun j hj => ?_
      split
      · exact h.worked j ‹_›
      · exact h.le j hj

/-- A round that takes every job shortens the longest one. -/
theorem Round.sup (h : Round jobs n left left' taken) (hall : taken = waiting jobs left)
    (hsome : taken.Nonempty) : jobs.sup left' + 1 ≤ jobs.sup left := by
  obtain ⟨j₀, hj₀⟩ := hsome
  have hlongest : ∀ j ∈ jobs, left j ≤ jobs.sup left := fun j hj => le_sup hj
  have hpos : 0 < jobs.sup left := by
    obtain ⟨hjob, hleft⟩ := mem_filter.mp (hall ▸ hj₀)
    exact Nat.lt_of_lt_of_le hleft (hlongest j₀ hjob)
  have hshorter : jobs.sup left' ≤ jobs.sup left - 1 := by
    refine Finset.sup_le fun j hj => ?_
    have hle := hlongest j hj
    by_cases htaken : j ∈ taken
    · have hworked := h.worked j htaken
      omega
    · have hdone : ¬0 < left j := fun hwaits => htaken (hall ▸ mem_filter.mpr ⟨hj, hwaits⟩)
      have hkept := h.kept j hj htaken
      omega
  omega

theorem Round.bound_le (h : Round jobs n left left' taken) (hwaits : (waiting jobs left).Nonempty) :
    bound jobs n left' + n ≤ bound jobs n left := by
  have hsum := h.sum
  have hcard := h.card
  unfold bound
  by_cases hfull : n ≤ (waiting jobs left).card
  · have hsup : jobs.sup left' ≤ jobs.sup left :=
      Finset.sup_le fun j hj => (h.le j hj).trans (le_sup hj)
    have hmul := Nat.mul_le_mul_left (n - 1) hsup
    omega
  · have hall : taken = waiting jobs left := eq_of_subset_of_card_le h.waits (by omega)
    have hsome : taken.Nonempty := hall ▸ hwaits
    have hpos := hsome.card_pos
    have hmul := Nat.mul_le_mul_left (n - 1) (h.sup hall hsome)
    rw [Nat.mul_add, Nat.mul_one] at hmul
    omega

/-- So many rounds leave no work. -/
theorem RoundSeq.done (h : RoundSeq jobs n k left left') (hbound : bound jobs n left ≤ k * n) :
    waiting jobs left' = ∅ := by
  induction h with
  | none left =>
    rw [Nat.zero_mul, Nat.le_zero, bound, Nat.add_eq_zero_iff, sum_eq_zero_iff] at hbound
    exact filter_eq_empty_iff.mpr fun j hj hpos => Nat.ne_of_gt hpos (hbound.1 j hj)
  | @next k left left' left'' taken first rest ih =>
    refine ih ?_
    rw [Nat.succ_mul] at hbound
    rcases (waiting jobs left).eq_empty_or_nonempty with hnone | hsome
    · -- nothing is left to take, so nothing is changed
      have hsame : waiting jobs left' = ∅ := by
        refine filter_eq_empty_iff.mpr fun j hj hpos => ?_
        have hle := first.le j hj
        exact notMem_empty j (hnone ▸ mem_filter.mpr ⟨hj, Nat.lt_of_lt_of_le hpos hle⟩)
      rw [bound_of_done hsame]
      exact Nat.zero_le _
    · have hlower := first.bound_le hsome
      omega

end Library.Rounds
