import Mathlib.Data.List.Nodup
import Mathlib.Data.Multiset.AddSub
import Mathlib.Logic.Relator

/-!
# The same up to corresponding values

Two runs generate values one after another, and the values at the same place correspond.  Tables are
the same up to such a correspondence if their rows can be paired so that two rows of a pair are
equal or correspond, whatever the order in which the runs wrote them.
-/

namespace Library.Correspondence

variable {α β : Type*} {xs xs' : List α} {ys ys' : List β} {R S : α → β → Prop}

/-- The values at the same place of two lists. -/
def Paired (xs : List α) (ys : List β) (a : α) (b : β) : Prop :=
  ∃ k : Nat, xs[k]? = some a ∧ ys[k]? = some b

theorem paired_biUnique (hx : xs.Nodup) (hy : ys.Nodup) : Relator.BiUnique (Paired xs ys) := by
  constructor
  · rintro a b c ⟨j, haj, hcj⟩ ⟨k, hbk, hck⟩
    obtain rfl : j = k := (List.getElem?_inj (List.getElem?_eq_some_iff.mp hcj).1 hy).mp
      (hcj.trans hck.symm)
    exact Option.some.inj (haj.symm.trans hbk)
  · rintro a b c ⟨j, haj, hbj⟩ ⟨k, hak, hck⟩
    obtain rfl : j = k := (List.getElem?_inj (List.getElem?_eq_some_iff.mp haj).1 hx).mp
      (haj.trans hak.symm)
    exact Option.some.inj (hbj.symm.trans hck)

theorem Paired.left {a : α} {b : β} (h : Paired xs ys a b) : a ∈ xs :=
  List.mem_of_getElem? h.choose_spec.1

theorem Paired.right {a : α} {b : β} (h : Paired xs ys a b) : b ∈ ys :=
  List.mem_of_getElem? h.choose_spec.2

/-- Two correspondences between disjoint values are one. -/
theorem biUnique_or (hR : Relator.BiUnique R) (hS : Relator.BiUnique S)
    (hleft : ∀ a b c, R a b → ¬S a c) (hright : ∀ a b c, R a c → ¬S b c) :
    Relator.BiUnique fun a b => R a b ∨ S a b := by
  constructor
  · rintro a b c (hac | hac) (hbc | hbc)
    · exact hR.1 hac hbc
    · exact absurd hbc (hright a b c hac)
    · exact absurd hac (hright b a c hbc)
    · exact hS.1 hac hbc
  · rintro a b c (hab | hab) (hac | hac)
    · exact hR.2 hab hac
    · exact absurd hac (hleft a b c hab)
    · exact absurd hab (hleft a c b hac)
    · exact hS.2 hab hac

/-! ## Rows -/

variable {ρ : Type*} {rows as bs as' bs' : List ρ} {Same : ρ → ρ → Prop}

/-- One row, or two rows that correspond. -/
def Alike (Same : ρ → ρ → Prop) (a b : ρ) : Prop := a = b ∨ Same a b

/-- Corresponding rows have what does not change between them in common. -/
theorem map_eq_of_forall₂ {γ : Type*} {f : ρ → γ} (hsame : ∀ a b, Same a b → f a = f b)
    (h : List.Forall₂ Same as bs) : as.map f = bs.map f := by
  induction h with
  | nil => rfl
  | cons hab _ ih => rw [List.map_cons, List.map_cons, hsame _ _ hab, ih]

theorem rel_of_forall₂ (h : List.Forall₂ Same as bs) :
    Multiset.Rel (Alike Same) (as : Multiset ρ) (bs : Multiset ρ) := by
  induction h with
  | nil => exact .zero
  | cons hab _ ih =>
    have hpair : Alike Same _ _ := Or.inr hab
    exact .cons hpair ih

/-- Two additions to one table in either order. -/
theorem rel_swapped (ha : List.Forall₂ Same as as') (hb : List.Forall₂ Same bs bs') :
    Multiset.Rel (Alike Same) (↑(rows ++ as ++ bs) : Multiset ρ) ↑(rows ++ bs' ++ as') := by
  have hrows : Multiset.Rel (Alike Same) (rows : Multiset ρ) rows :=
    Multiset.rel_refl_of_refl_on fun r _ => Or.inl rfl
  have hswap : (↑(rows ++ bs' ++ as') : Multiset ρ) = ↑(rows ++ as' ++ bs') := by
    rw [List.append_assoc, List.append_assoc]
    exact Multiset.coe_eq_coe.mpr (List.perm_append_comm.append_left rows)
  rw [hswap, ← Multiset.coe_add, ← Multiset.coe_add, ← Multiset.coe_add, ← Multiset.coe_add]
  exact (hrows.add (rel_of_forall₂ ha)).add (rel_of_forall₂ hb)

end Library.Correspondence
