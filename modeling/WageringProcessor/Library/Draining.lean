import Mathlib.Data.List.Perm.Basic
import Mathlib.Order.Lattice

/-!
# Draining a pool in batches

`Takes le n pool taken rest`: of what is in the pool, `taken` are the `n` least in their order, and
`rest` is what is left.  Batches that are taken one after the other are one batch.
-/

namespace Library.Draining

variable {α β : Type*} {le : α → α → Prop} {n k : Nat} {pool pool' taken taken' rest rest' : List α}

structure Takes (le : α → α → Prop) (n : Nat) (pool taken rest : List α) : Prop where
  perm : (taken ++ rest).Perm pool
  length : taken.length = min n pool.length
  sorted : taken.Pairwise le
  least : ∀ a ∈ taken, ∀ b ∈ rest, le a b

theorem Takes.taken_mem (h : Takes le n pool taken rest) {a : α} (ha : a ∈ taken) : a ∈ pool :=
  h.perm.subset (List.mem_append_left rest ha)

theorem Takes.rest_mem (h : Takes le n pool taken rest) {a : α} (ha : a ∈ rest) : a ∈ pool :=
  h.perm.subset (List.mem_append_right taken ha)

theorem Takes.length_rest (h : Takes le n pool taken rest) : rest.length = pool.length - n := by
  have hlength := h.perm.length_eq
  rw [List.length_append, h.length] at hlength
  omega

theorem takes_none (pool : List α) : Takes le 0 pool [] pool :=
  ⟨.refl pool, by simp, .nil, by simp⟩

theorem Takes.append (h : Takes le n pool taken rest) (h' : Takes le k rest taken' rest') :
    Takes le (n + k) pool (taken ++ taken') rest' := by
  refine ⟨?_, ?_, ?_, ?_⟩
  · rw [List.append_assoc]
    exact (h'.perm.append_left taken).trans h.perm
  · rw [List.length_append, h.length, h'.length, h.length_rest]
    omega
  · rw [List.pairwise_append]
    exact ⟨h.sorted, h'.sorted, fun a ha b hb => h.least a ha b (h'.taken_mem hb)⟩
  · intro a ha b hb
    rcases List.mem_append.mp ha with ha | ha
    · exact h.least a ha b (h'.rest_mem hb)
    · exact h'.least a ha b hb

/-- Once as many were taken as there are, nothing is left. -/
theorem Takes.drained (h : Takes le n pool taken rest) (hn : pool.length ≤ n) :
    rest = [] ∧ taken.Perm pool := by
  have hrest : rest = [] := List.length_eq_zero_iff.mp (by rw [h.length_rest]; omega)
  refine ⟨hrest, ?_⟩
  have hperm := h.perm
  rwa [hrest, List.append_nil] at hperm

/-- The `n` least by a measure can always be taken. -/
theorem exists_takes [LinearOrder β] (f : α → β) (n : Nat) (pool : List α) :
    ∃ taken rest, Takes (fun a b => f a ≤ f b) n pool taken rest := by
  let sorted := pool.mergeSort fun a b => f a ≤ f b
  have hperm : sorted.Perm pool := List.mergeSort_perm pool _
  have hsorted : sorted.Pairwise fun a b => f a ≤ f b := by
    refine (List.pairwise_mergeSort ?_ ?_ pool).imp fun hle => by simpa using hle
    · intro a b c hab hbc
      simpa using le_trans (by simpa using hab) (by simpa using hbc)
    · intro a b
      simpa using le_total (f a) (f b)
  refine ⟨sorted.take n, sorted.drop n, ?_, ?_, hsorted.sublist (List.take_sublist n sorted), ?_⟩
  · rw [List.take_append_drop]
    exact hperm
  · rw [List.length_take, hperm.length_eq]
  · have hsplit := hsorted
    rw [← List.take_append_drop n sorted, List.pairwise_append] at hsplit
    exact hsplit.2.2

end Library.Draining
