import Mathlib.Data.List.Sort
import Mathlib.Order.Basic

/-!
# Keyset pagination

A page is the first rows, in the order of their keys, after the key of a cursor.  In a table that
already stands in that order the pages, one after another, are its rows from the first one on.
-/

namespace Library.Keyset

variable {α κ : Type*} [LinearOrder κ] {key : α → κ} {rows pre : List α} {limit : Nat} {a : α}

/-- `SELECT ... WHERE key > cursor ORDER BY key LIMIT limit`. -/
def page (key : α → κ) (cursor : Option κ) (limit : Nat) (rows : List α) : List α :=
  ((rows.filter fun a => cursor.all (· < key a)).insertionSort fun a b => key a ≤ key b).take limit

/-- The cursor after a page, which a short page does not have. -/
def nextCursor (key : α → κ) (limit : Nat) (rows : List α) : Option κ :=
  if rows.length = limit then rows.getLast?.map key else none

/-- The rows stand in the order of their keys. -/
abbrev Ordered (key : α → κ) (rows : List α) : Prop := rows.Pairwise fun a b => key a < key b

theorem Ordered.sort_eq (h : Ordered key rows) :
    (rows.insertionSort fun a b => key a ≤ key b) = rows :=
  List.Pairwise.insertionSort_eq (h.imp fun hlt => hlt.le)

theorem page_first (h : Ordered key rows) : page key none limit rows = rows.take limit := by
  have hall : rows.filter (fun x => (none : Option κ).all (· < key x)) = rows :=
    List.filter_eq_self.mpr fun _ _ => rfl
  unfold page
  rw [hall, h.sort_eq]

theorem page_after (h : Ordered key rows) (hpre : pre ++ [a] <+: rows) :
    page key (some (key a)) limit rows = (rows.drop (pre ++ [a]).length).take limit := by
  obtain ⟨post, rfl⟩ := hpre
  obtain ⟨hbefore, hpost, hcross⟩ := List.pairwise_append.mp h
  -- up to the cursor no key is greater, and from there on each is
  have hnone : (pre ++ [a]).filter (fun x => (some (key a)).all (· < key x)) = [] := by
    refine List.filter_eq_nil_iff.mpr fun x hx => ?_
    rw [Option.all_some, decide_eq_true_eq, not_lt]
    rcases List.mem_append.mp hx with hx | hx
    · exact ((List.pairwise_append.mp hbefore).2.2 x hx a List.mem_cons_self).le
    · rw [List.mem_singleton.mp hx]
  have hall : post.filter (fun x => (some (key a)).all (· < key x)) = post := by
    refine List.filter_eq_self.mpr fun x hx => ?_
    rw [Option.all_some, decide_eq_true_eq]
    exact hcross a (List.mem_append_right pre List.mem_cons_self) x hx
  unfold page
  rw [List.filter_append, hnone, hall, List.nil_append, Ordered.sort_eq hpost,
    List.drop_left]

/-- What has been read and the page after it are the rows from the first one on. -/
theorem append_page_prefix (h : Ordered key rows) (hpre : pre ++ [a] <+: rows) :
    (pre ++ [a]) ++ page key (some (key a)) limit rows <+: rows := by
  rw [page_after h hpre]
  obtain ⟨post, rfl⟩ := hpre
  rw [List.drop_left, List.prefix_append_right_inj]
  exact List.take_prefix limit post

/-- A page without a next cursor is the last one. -/
theorem append_page_eq (h : Ordered key rows) (hpre : pre ++ [a] <+: rows)
    (hshort : (page key (some (key a)) limit rows).length < limit) :
    (pre ++ [a]) ++ page key (some (key a)) limit rows = rows := by
  rw [page_after h hpre] at hshort ⊢
  obtain ⟨post, rfl⟩ := hpre
  rw [List.drop_left] at hshort ⊢
  rw [List.length_take] at hshort
  rw [List.take_of_length_le (by omega)]

omit [LinearOrder κ] in
theorem nextCursor_eq_some {k : κ} (h : nextCursor key limit rows = some k) :
    ∃ init a, rows = init ++ [a] ∧ k = key a := by
  unfold nextCursor at h
  split at h
  · obtain ⟨a, hlast, rfl⟩ := Option.map_eq_some_iff.mp h
    obtain ⟨init, rfl⟩ := List.getLast?_eq_some_iff.mp hlast
    exact ⟨init, a, rfl, rfl⟩
  · cases h

omit [LinearOrder κ] in
theorem nextCursor_eq_none (hlimit : 0 < limit) (hlength : rows.length ≤ limit)
    (h : nextCursor key limit rows = none) : rows.length < limit := by
  unfold nextCursor at h
  split at h
  · rename_i hfull
    have hnil := List.getLast?_eq_none_iff.mp (Option.map_eq_none_iff.mp h)
    rw [hnil] at hfull
    exact absurd hfull.symm hlimit.ne'
  · omega

theorem mem_of_mem_page {cursor : Option κ} (h : a ∈ page key cursor limit rows) : a ∈ rows := by
  have hsorted := List.mem_of_mem_take h
  rw [List.mem_insertionSort] at hsorted
  exact List.mem_of_mem_filter hsorted

theorem page_length (cursor : Option κ) : (page key cursor limit rows).length ≤ limit :=
  List.length_take_le limit _

/-! ## All pages of a table in any order -/

theorem ordered_sort (h : (rows.map key).Nodup) :
    Ordered key (rows.insertionSort fun a b => key a ≤ key b) := by
  have hperm := List.perm_insertionSort (fun a b => key a ≤ key b) rows
  have hsorted : (rows.insertionSort fun a b => key a ≤ key b).Pairwise fun a b => key a ≤ key b :=
    List.pairwise_insertionSort _ rows
  have hdistinct : (rows.insertionSort fun a b => key a ≤ key b).Pairwise
      fun a b => key a ≠ key b :=
    List.pairwise_map.mp ((hperm.map key).nodup_iff.mpr h)
  exact (hsorted.and hdistinct).imp fun hab => lt_of_le_of_ne hab.1 hab.2

/-- Where the keys are distinct, a page does not depend on the order of the rows. -/
theorem page_sort (cursor : Option κ) (h : (rows.map key).Nodup) :
    page key cursor limit (rows.insertionSort fun a b => key a ≤ key b) =
      page key cursor limit rows := by
  have hkey : (rows.filter fun a => cursor.all (· < key a)).map key |>.Nodup :=
    h.sublist (List.filter_sublist.map key)
  have hperm := (List.perm_insertionSort (fun a b => key a ≤ key b) rows).filter
    fun a => cursor.all (· < key a)
  have hsort : Ordered key ((rows.insertionSort fun a b => key a ≤ key b).filter
      fun a => cursor.all (· < key a)) := (ordered_sort h).filter _
  unfold page
  rw [hsort.sort_eq]
  -- both are the sorted rows of one filter, and the order of distinct keys is strict
  have hasymm : ∀ a b : α, key a < key b → key b < key a → a = b :=
    fun a b hab hba => absurd hab hba.asymm
  refine congrArg (List.take limit) (List.Perm.eq_of_pairwise (fun a b _ _ => hasymm a b) hsort
    (ordered_sort hkey) ?_)
  exact hperm.trans (List.perm_insertionSort _ _).symm

/-- The pages from `cursor` on, following the cursor after each; `none` where the fuel is out. -/
def pages (key : α → κ) (limit : Nat) (rows : List α) : Nat → Option κ → Option (List α)
  | 0, _ => none
  | fuel + 1, cursor =>
    match nextCursor key limit (page key cursor limit rows) with
    | none => some (page key cursor limit rows)
    | some next => (pages key limit rows fuel (some next)).map (page key cursor limit rows ++ ·)

theorem pages_sort (fuel : Nat) (cursor : Option κ) (h : (rows.map key).Nodup) :
    pages key limit (rows.insertionSort fun a b => key a ≤ key b) fuel cursor =
      pages key limit rows fuel cursor := by
  induction fuel generalizing cursor with
  | zero => rfl
  | succ fuel ih =>
    unfold pages
    rw [page_sort cursor h]
    cases nextCursor key limit (page key cursor limit rows) with
    | none => rfl
    | some next =>
      exact congrArg (Option.map (page key cursor limit rows ++ ·)) (ih (some next))

/-- `read` are the first rows, up to the one that the cursor is made of. -/
def ReadUpTo (key : α → κ) (rows read : List α) : Option κ → Prop
  | none => read = []
  | some k => ∃ pre a, read = pre ++ [a] ∧ k = key a ∧ read <+: rows

theorem page_eq_drop {read : List α} {cursor : Option κ} (h : Ordered key rows)
    (hread : ReadUpTo key rows read cursor) :
    page key cursor limit rows = (rows.drop read.length).take limit := by
  cases cursor with
  | none =>
    rw [page_first h, show read = [] from hread, List.length_nil, List.drop_zero]
  | some k =>
    obtain ⟨pre, a, rfl, rfl, hprefix⟩ := hread
    exact page_after h hprefix

theorem pages_from {fuel : Nat} (h : Ordered key rows) (hlimit : 0 < limit) :
    ∀ read cursor, ReadUpTo key rows read cursor → rows.length < read.length + fuel →
      pages key limit rows fuel cursor = some (rows.drop read.length) := by
  induction fuel with
  | zero =>
    intro read cursor hread hfuel
    cases cursor with
    | none =>
      rw [show read = [] from hread] at hfuel
      exact absurd hfuel (Nat.not_lt_zero _)
    | some k =>
      obtain ⟨_, _, _, _, hprefix⟩ := hread
      exact absurd hprefix.length_le (Nat.not_le.mpr hfuel)
  | succ fuel ih =>
    intro read cursor hread hfuel
    have hpage : page key cursor limit rows = _ := page_eq_drop h hread
    unfold pages
    split
    · rename_i hnext
      have hshort := nextCursor_eq_none hlimit (page_length cursor) hnext
      rw [hpage, List.length_take] at hshort
      rw [hpage, List.take_of_length_le (by omega)]
    · rename_i next hnext
      -- the page ends with the row that the next cursor is made of
      obtain ⟨init, a, hrows, rfl⟩ := nextCursor_eq_some hnext
      have hprefix : read ++ (init ++ [a]) <+: rows := by
        have hread' : read <+: rows := by
          cases cursor with
          | none => exact (show read = [] from hread) ▸ List.nil_prefix
          | some k => exact hread.choose_spec.choose_spec.2.2
        obtain ⟨post, rfl⟩ := hread'
        rw [← hrows, hpage, List.drop_left, List.prefix_append_right_inj]
        exact List.take_prefix limit post
      have hrest := ih (read ++ (init ++ [a])) (some (key a))
        ⟨read ++ init, a, (List.append_assoc _ _ _).symm, rfl, hprefix⟩ (by
          simp only [List.length_append, List.length_singleton] at hfuel ⊢
          omega)
      rw [hrest, hrows]
      obtain ⟨post, rfl⟩ := hprefix
      rw [List.drop_left, Option.map_some]
      simp only [List.append_assoc, List.drop_left]

/-- The pages are the rows in the order of their keys. -/
theorem pages_eq {fuel : Nat} (h : (rows.map key).Nodup) (hlimit : 0 < limit)
    (hfuel : rows.length < fuel) :
    pages key limit rows fuel none = some (rows.insertionSort fun a b => key a ≤ key b) := by
  have hsorted := @pages_from _ _ _ _ _ _ fuel (ordered_sort h) hlimit [] none rfl (by
    rw [List.length_insertionSort, List.length_nil]
    omega)
  rw [List.length_nil, List.drop_zero] at hsorted
  rw [← pages_sort fuel none h, hsorted]

end Library.Keyset
