import Mathlib.Algebra.BigOperators.Group.List.Basic

/-!
# Chains of entries

A chain leads from a first value to a last one through entries that each start where the previous
entry ended.  When every entry adds its own amount, the chain adds up to the sum of the
amounts. -/

namespace Library.Chain

variable {ε β : Type*} {before after : ε → β} {b c : β} {e : ε} {es : List ε}

def Linked (before after : ε → β) : β → List ε → β → Prop
  | b, [], c => b = c
  | b, e :: es, c => before e = b ∧ Linked before after (after e) es c

theorem Linked.concat (h : Linked before after b es c) (he : before e = c) :
    Linked before after b (es ++ [e]) (after e) := by
  induction es generalizing b with
  | nil =>
    obtain rfl : b = c := h
    exact ⟨he, rfl⟩
  | cons a as ih => exact ⟨h.1, ih h.2⟩

theorem Linked.getLast (h : Linked before after b es c) (hlast : es.getLast? = some e) :
    after e = c := by
  induction es generalizing b with
  | nil => simp at hlast
  | cons a as ih =>
    cases as with
    | nil =>
      obtain rfl : a = e := by simpa using hlast
      exact h.2
    | cons a' as' => exact ih h.2 (by simpa [List.getLast?_cons_cons] using hlast)

theorem Linked.isChain (h : Linked before after b es c) :
    es.IsChain fun e₁ e₂ => after e₁ = before e₂ := by
  induction es generalizing b with
  | nil => exact .nil
  | cons a as ih =>
    cases as with
    | nil => exact .singleton a
    | cons a' as' => exact .cons_cons h.2.1.symm (ih h.2)

theorem Linked.sum [AddMonoid β] {amount : ε → β} (h : Linked before after b es c)
    (hstep : ∀ e ∈ es, after e = before e + amount e) : b + (es.map amount).sum = c := by
  induction es generalizing b with
  | nil => simpa [Linked] using h
  | cons a as ih =>
    have hrest := ih h.2 fun e he => hstep e (List.mem_cons_of_mem a he)
    rw [List.map_cons, List.sum_cons, ← add_assoc, ← h.1, ← hstep a List.mem_cons_self]
    exact hrest

/-- A chain read through a map of its values is a chain. -/
theorem Linked.map {γ : Type*} (f : β → γ) (h : Linked before after b es c) :
    Linked (f ∘ before) (f ∘ after) (f b) es (f c) := by
  induction es generalizing b with
  | nil => exact congrArg f h
  | cons a as ih => exact ⟨congrArg f h.1, ih h.2⟩

end Library.Chain
