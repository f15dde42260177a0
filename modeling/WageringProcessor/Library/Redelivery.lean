import Mathlib.Data.List.Dedup
import Mathlib.Data.List.Perm.Basic
import Mathlib.Data.List.Sort
import Mathlib.Order.Defs.LinearOrder
import Mathlib.Order.Basic

/-!
# A log that is delivered in any order and any number of times

The items of a log bear ascending stamps.  Whoever has received some of them, each as often as he
likes, puts them in order again by their stamps.
-/

namespace Library.Redelivery

variable {α β : Type*} [DecidableEq α] [LinearOrder β] {stamp : α → β} {log received : List α}

/-- The stamps ascend. -/
def Stamped (stamp : α → β) (log : List α) : Prop := log.Pairwise fun a b => stamp a < stamp b

/-- What was received, each item once and in the order of the stamps. -/
def reorder (stamp : α → β) (received : List α) : List α :=
  received.dedup.insertionSort fun a b => stamp a ≤ stamp b

omit [DecidableEq α] in
theorem Stamped.inj (h : Stamped stamp log) {a b : α} (ha : a ∈ log) (hb : b ∈ log)
    (hstamp : stamp a = stamp b) : a = b := by
  have hnodup : (log.map stamp).Nodup := List.pairwise_map.mpr (h.imp fun hlt => ne_of_lt hlt)
  exact List.inj_on_of_nodup_map hnodup ha hb hstamp

theorem reorder_perm : (reorder stamp received).Perm received.dedup := List.perm_insertionSort _ _

theorem mem_reorder {a : α} : a ∈ reorder stamp received ↔ a ∈ received := by
  rw [reorder_perm.mem_iff, List.mem_dedup]

theorem reorder_sorted : (reorder stamp received).Pairwise fun a b => stamp a ≤ stamp b := by
  have : Std.Total fun a b : α => stamp a ≤ stamp b := ⟨fun a b => le_total (stamp a) (stamp b)⟩
  have : IsTrans α fun a b => stamp a ≤ stamp b := ⟨fun _ _ _ => le_trans⟩
  exact List.pairwise_insertionSort _ received.dedup

/-- What was received of a log stands in the order of the log. -/
theorem reorder_eq_filter (h : Stamped stamp log) (hreceived : ∀ a ∈ received, a ∈ log) :
    reorder stamp received = log.filter (· ∈ received) := by
  have hfilter : Stamped stamp (log.filter (· ∈ received)) := h.sublist List.filter_sublist
  have hnodup : (log.filter (· ∈ received)).Nodup := hfilter.imp fun hlt heq => by
    rw [heq] at hlt
    exact lt_irrefl _ hlt
  have hreorder : (reorder stamp received).Nodup :=
    reorder_perm.nodup_iff.mpr (List.nodup_dedup received)
  have hperm : (reorder stamp received).Perm (log.filter (· ∈ received)) := by
    refine (List.perm_ext_iff_of_nodup hreorder hnodup).mpr fun a => ?_
    rw [mem_reorder, List.mem_filter, decide_eq_true_eq]
    exact ⟨fun ha => ⟨hreceived a ha, ha⟩, fun ha => ha.2⟩
  have hsorted : (log.filter (· ∈ received)).Pairwise fun a b => stamp a ≤ stamp b :=
    hfilter.imp fun hlt => le_of_lt hlt
  refine hperm.eq_of_pairwise ?_ reorder_sorted hsorted
  intro a b ha hb hab hba
  exact h.inj (hreceived a (mem_reorder.mp ha)) (List.mem_filter.mp hb).1 (le_antisymm hab hba)

/-- Once every item was received, the log is recovered. -/
theorem reorder_eq (h : Stamped stamp log) (hreceived : ∀ a, a ∈ received ↔ a ∈ log) :
    reorder stamp received = log := by
  rw [reorder_eq_filter h fun a ha => (hreceived a).mp ha, List.filter_eq_self]
  intro a ha
  exact decide_eq_true ((hreceived a).mpr ha)

end Library.Redelivery
