import Mathlib.Data.List.Nodup

/-!
# The order of occurrence in a list

`Precedes l a b`: some occurrence of `a` in `l` stands before some occurrence of `b`.  In a list
without repetitions this is the order of the list, and a list that grows at its end keeps it.
-/

namespace Library.ListOrder

variable {α β : Type*} {l l' pre post : List α} {a b c : α}

def Precedes (l : List α) (a b : α) : Prop := [a, b].Sublist l

instance [DecidableEq α] : Decidable (Precedes l a b) :=
  inferInstanceAs (Decidable ([a, b].Sublist l))

theorem precedes_iff : Precedes l a b ↔ ∃ pre post, l = pre ++ b :: post ∧ a ∈ pre := by
  unfold Precedes
  rw [List.cons_sublist_iff]
  constructor
  · rintro ⟨r₁, r₂, rfl, ha, hb⟩
    obtain ⟨s, t, rfl⟩ := List.append_of_mem (List.singleton_sublist.mp hb)
    exact ⟨r₁ ++ s, t, by rw [List.append_assoc], List.mem_append_left s ha⟩
  · rintro ⟨pre, post, rfl, ha⟩
    exact ⟨pre, b :: post, rfl, ha, List.singleton_sublist.mpr List.mem_cons_self⟩

theorem Precedes.mem_left (h : Precedes l a b) : a ∈ l := h.subset List.mem_cons_self

theorem Precedes.mem_right (h : Precedes l a b) : b ∈ l :=
  h.subset (List.mem_cons_of_mem a List.mem_cons_self)

theorem Precedes.append (h : Precedes l a b) : Precedes (l ++ l') a b :=
  h.trans (List.sublist_append_left l l')

theorem Precedes.map (h : Precedes l a b) (f : α → β) : Precedes (l.map f) (f a) (f b) :=
  List.Sublist.map f h

theorem precedes_concat : Precedes (l ++ [c]) a b ↔ Precedes l a b ∨ (a ∈ l ∧ b = c) := by
  constructor
  · intro h
    obtain ⟨pre, post, heq, ha⟩ := precedes_iff.mp h
    rcases List.eq_nil_or_concat post with rfl | ⟨post', d, rfl⟩
    · obtain ⟨rfl, hlast⟩ := List.append_inj' heq rfl
      exact Or.inr ⟨ha, (List.cons.inj hlast).1.symm⟩
    · have heq' : l ++ [c] = (pre ++ b :: post') ++ [d] := by simpa using heq
      obtain ⟨rfl, -⟩ := List.append_inj' heq' rfl
      exact Or.inl (precedes_iff.mpr ⟨pre, post', rfl, ha⟩)
  · rintro (h | ⟨ha, rfl⟩)
    · exact h.append
    · exact precedes_iff.mpr ⟨l, [], rfl, ha⟩

/-- What stands before the place of `b`. -/
theorem Precedes.mem_of_split (h : Precedes (pre ++ b :: post) a b)
    (hnd : (pre ++ b :: post).Nodup) : a ∈ pre := by
  obtain ⟨pre', post', heq, ha⟩ := precedes_iff.mp h
  have hb' : b ∉ pre' := by
    rw [heq] at hnd
    exact fun hb => (List.nodup_append.mp hnd).2.2 b hb b List.mem_cons_self rfl
  have hb : b ∉ pre := fun hb => (List.nodup_append.mp hnd).2.2 b hb b List.mem_cons_self rfl
  rcases List.append_eq_append_iff.mp heq with ⟨r, rfl, hr⟩ | ⟨r, rfl, hr⟩
  · cases r with
    | nil => simpa using ha
    | cons x xs =>
      obtain rfl := (List.cons.inj hr).1
      exact absurd (List.mem_append_right pre List.mem_cons_self) hb'
  · exact List.mem_append_left r ha

/-- Among the elements that a list had before it grew, the order is as it was. -/
theorem Precedes.of_append (h : Precedes (l ++ l') a b) (hnd : (l ++ l').Nodup) (hb : b ∈ l) :
    Precedes l a b := by
  obtain ⟨pre, post, rfl⟩ := List.append_of_mem hb
  rw [List.append_assoc, List.cons_append] at h hnd
  exact precedes_iff.mpr ⟨pre, post, rfl, h.mem_of_split hnd⟩

theorem precedes_total (ha : a ∈ l) (hb : b ∈ l) (hne : a ≠ b) :
    Precedes l a b ∨ Precedes l b a := by
  obtain ⟨pre, post, rfl⟩ := List.append_of_mem hb
  rcases List.mem_append.mp ha with ha | ha
  · exact Or.inl (precedes_iff.mpr ⟨pre, post, rfl, ha⟩)
  · obtain ⟨s, t, rfl⟩ := List.append_of_mem ((List.mem_cons.mp ha).resolve_left hne)
    refine Or.inr (precedes_iff.mpr ⟨pre ++ b :: s, t, by simp, ?_⟩)
    exact List.mem_append_right pre List.mem_cons_self

/-- In a sorted list, what is not greater stands before. -/
theorem precedes_of_pairwise {r : α → α → Prop} (h : l.Pairwise r) (ha : a ∈ l) (hb : b ∈ l)
    (hne : a ≠ b) (hba : ¬r b a) : Precedes l a b :=
  (precedes_total ha hb hne).resolve_right fun h' =>
    hba (List.pairwise_iff_forall_sublist.mp h h')

end Library.ListOrder
