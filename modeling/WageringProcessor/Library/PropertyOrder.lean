import Mathlib.Algebra.Group.Nat.Defs
import Mathlib.Data.List.Lex
import Mathlib.Data.List.Sort

/-!
# The order of property names

ECMAScript sorts strings by their UTF-16 code units, and lists the properties of an object with the
array indices first, in the order of their numbers, and the other names as they were added.
-/

namespace Library.PropertyOrder

def charUnits (c : Char) : List Nat :=
  if c.toNat < 0x10000 then [c.toNat]
  else [0xD800 + (c.toNat - 0x10000) / 0x400, 0xDC00 + (c.toNat - 0x10000) % 0x400]

/-- The UTF-16 code units by which ECMAScript orders strings. -/
def codeUnits (s : String) : List Nat := s.toList.flatMap charUnits

theorem toNat_valid (c : Char) :
    c.toNat < 0xD800 ∨ 0xDFFF < c.toNat ∧ c.toNat < 0x110000 := c.valid

/-- A character is read back from the front of the units of a text. -/
theorem charUnits_append_inj {c d : Char} {r r' : List Nat}
    (h : charUnits c ++ r = charUnits d ++ r') : c = d ∧ r = r' := by
  have hc := toNat_valid c
  have hd := toNat_valid d
  rw [← Char.toNat_inj]
  unfold charUnits at h
  by_cases hcs : c.toNat < 0x10000 <;> by_cases hds : d.toNat < 0x10000
  · rw [if_pos hcs, if_pos hds] at h
    exact List.cons.inj h
  · -- one unit against a surrogate
    rw [if_pos hcs, if_neg hds] at h
    have hhead := (List.cons.inj h).1
    omega
  · rw [if_neg hcs, if_pos hds] at h
    have hhead := (List.cons.inj h).1
    omega
  · rw [if_neg hcs, if_neg hds] at h
    -- two surrogate pairs: both halves agree
    have hhigh := (List.cons.inj h).1
    have hlow := (List.cons.inj (List.cons.inj h).2).1
    exact ⟨by omega, (List.cons.inj (List.cons.inj h).2).2⟩

theorem charUnits_ne_nil (c : Char) : charUnits c ≠ [] := by
  unfold charUnits
  split <;> simp

/-- Strings with the same code units are the same. -/
theorem codeUnits_inj {s t : String} (h : codeUnits s = codeUnits t) : s = t := by
  -- one character at a time, and each has at least one unit
  have key : ∀ as bs : List Char, as.flatMap charUnits = bs.flatMap charUnits → as = bs := by
    intro as
    induction as with
    | nil =>
      intro bs hbs
      cases bs with
      | nil => rfl
      | cons b bs =>
        rw [List.flatMap_nil, List.flatMap_cons] at hbs
        exact absurd (List.append_eq_nil_iff.mp hbs.symm).1 (charUnits_ne_nil b)
    | cons a as ih =>
      intro bs hbs
      cases bs with
      | nil =>
        rw [List.flatMap_nil, List.flatMap_cons] at hbs
        exact absurd (List.append_eq_nil_iff.mp hbs).1 (charUnits_ne_nil a)
      | cons b bs =>
        rw [List.flatMap_cons, List.flatMap_cons] at hbs
        obtain ⟨rfl, hrest⟩ := charUnits_append_inj hbs
        rw [ih bs hrest]
  exact String.toList_inj.mp (key _ _ h)

section

variable {α : Type*} {members others : List (String × α)}

def sortMembers (members : List (String × α)) : List (String × α) :=
  members.insertionSort fun a b => codeUnits a.1 ≤ codeUnits b.1

theorem sortMembers_perm : (sortMembers members).Perm members := List.perm_insertionSort _ _

theorem sortMembers_pairwise :
    (sortMembers members).Pairwise fun a b => codeUnits a.1 ≤ codeUnits b.1 := by
  have : Std.Total fun a b : String × α => codeUnits a.1 ≤ codeUnits b.1 :=
    ⟨fun a b => le_total (codeUnits a.1) (codeUnits b.1)⟩
  have : IsTrans (String × α) fun a b => codeUnits a.1 ≤ codeUnits b.1 :=
    ⟨fun _ _ _ => le_trans⟩
  exact List.pairwise_insertionSort _ members

theorem eq_of_key_eq (hnodup : (members.map Prod.fst).Nodup) {a b : String × α} (ha : a ∈ members)
    (hb : b ∈ members) (h : a.1 = b.1) : a = b :=
  List.inj_on_of_nodup_map hnodup ha hb h

/-- Sorting forgets the order in which members with distinct names came. -/
theorem sortMembers_eq (h : members.Perm others) (hnodup : (members.map Prod.fst).Nodup) :
    sortMembers members = sortMembers others := by
  have hperm : (sortMembers members).Perm (sortMembers others) :=
    sortMembers_perm.trans (h.trans sortMembers_perm.symm)
  refine hperm.eq_of_pairwise (fun a b ha hb hab hba => ?_) sortMembers_pairwise
    sortMembers_pairwise
  have ha' := sortMembers_perm.mem_iff.mp ha
  have hb' := h.mem_iff.mpr (sortMembers_perm.mem_iff.mp hb)
  exact eq_of_key_eq hnodup ha' hb' (codeUnits_inj (le_antisymm hab hba))

/-- The number that an array index stands for. -/
def arrayIndex? (key : String) : Option Nat :=
  let n := Nat.ofDigitChars 10 key.toList 0
  if key.toList = Nat.toDigits 10 n ∧ n < 2 ^ 32 - 1 then some n else none

/-- The order in which an object lists its own properties. -/
def ownOrder (members : List (String × α)) : List (String × α) :=
  (members.filter fun m => (arrayIndex? m.1).isSome).insertionSort
      (fun a b => (arrayIndex? a.1).getD 0 ≤ (arrayIndex? b.1).getD 0) ++
    members.filter fun m => !(arrayIndex? m.1).isSome

theorem ownOrder_perm : (ownOrder members).Perm members :=
  ((List.perm_insertionSort _ _).append_right _).trans (List.filter_append_perm _ _)

end

example : ownOrder [("b", 0), ("10", 1), ("9", 2), ("a", 3)] =
    [("9", 2), ("10", 1), ("b", 0), ("a", 3)] := by decide

end Library.PropertyOrder
