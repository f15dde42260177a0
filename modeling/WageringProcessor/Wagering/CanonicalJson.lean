import WageringProcessor.Library.JsonText
import WageringProcessor.Library.PropertyOrder

/-!
# Canonical JSON

`canonical-json.ts`.  A member that is `undefined` is not part of a JSON value: `JSON.stringify`
leaves it out.
-/

namespace WageringProcessor

open Library.JsonText Library.PropertyOrder

mutual

/-- Assigning to `__proto__` sets the prototype of the new object and adds no property to it. -/
def sortKeysDeep : Json → Json
  | .array items => .array (sortKeysItems items)
  | .object members => .object <| ownOrder <|
      (sortMembers (sortKeysMembers members)).filter fun m => m.1 ≠ "__proto__"
  | v => v

def sortKeysItems : List Json → List Json
  | [] => []
  | v :: rest => sortKeysDeep v :: sortKeysItems rest

def sortKeysMembers : List (String × Json) → List (String × Json)
  | [] => []
  | (k, v) :: rest => (k, sortKeysDeep v) :: sortKeysMembers rest

end

def canonicalJson (value : Json) : String := stringify (sortKeysDeep value)

/-! ## Values up to the order of their keys -/

mutual

/-- A JSON value: the names in an object are distinct, and none is `__proto__`. -/
def WellFormed : Json → Prop
  | .number text => Numeral text
  | .array items => WellFormedItems items
  | .object members => (members.map Prod.fst).Nodup ∧ "__proto__" ∉ members.map Prod.fst ∧
      WellFormedMembers members
  | _ => True

def WellFormedItems : List Json → Prop
  | [] => True
  | v :: rest => WellFormed v ∧ WellFormedItems rest

def WellFormedMembers : List (String × Json) → Prop
  | [] => True
  | (_, v) :: rest => WellFormed v ∧ WellFormedMembers rest

end

mutual

/-- The values are the same up to key order at every level: as many members, and for each one of the
first the second has a member of its name with the same value. -/
def SameUpToKeyOrder : Json → Json → Prop
  | .array vs, .array ws => SameItems vs ws
  | .object ms, .object ns => ms.length = ns.length ∧ SameMembers ms ns
  | .null, .null => True
  | .bool b, .bool b' => b = b'
  | .number text, .number text' => text = text'
  | .string s, .string s' => s = s'
  | _, _ => False

def SameItems : List Json → List Json → Prop
  | [], [] => True
  | v :: vs, w :: ws => SameUpToKeyOrder v w ∧ SameItems vs ws
  | _, _ => False

def SameMembers : List (String × Json) → List (String × Json) → Prop
  | [], _ => True
  | (k, v) :: ms, ns => (∃ w, (k, w) ∈ ns ∧ SameUpToKeyOrder v w) ∧ SameMembers ms ns

end

variable {members others : List (String × Json)}

@[simp] theorem same_string {s : String} {w : Json} :
    SameUpToKeyOrder (.string s) w ↔ w = .string s := by
  cases w <;> simp [SameUpToKeyOrder, eq_comm]

@[simp] theorem same_object : SameUpToKeyOrder (.object members) (.object others) ↔
    members.length = others.length ∧ SameMembers members others := Iff.rfl

theorem wellFormedMembers_iff :
    WellFormedMembers members ↔ ∀ m ∈ members, WellFormed m.2 := by
  induction members with
  | nil => simp [WellFormedMembers]
  | cons m rest ih =>
    rw [WellFormedMembers, ih, List.forall_mem_cons]

theorem sortKeysMembers_eq :
    sortKeysMembers members = members.map fun m => (m.1, sortKeysDeep m.2) := by
  induction members with
  | nil => rfl
  | cons m rest ih => rw [sortKeysMembers, ih, List.map_cons]

theorem sortKeysMembers_names : (sortKeysMembers members).map Prod.fst = members.map Prod.fst := by
  rw [sortKeysMembers_eq, List.map_map]
  rfl

/-- Without `__proto__` every member is copied. -/
theorem filter_proto (h : "__proto__" ∉ members.map Prod.fst) :
    (sortMembers (sortKeysMembers members)).filter (fun m => m.1 ≠ "__proto__") =
      sortMembers (sortKeysMembers members) := by
  refine List.filter_eq_self.mpr fun m hm => ?_
  have hmem := sortMembers_perm.mem_iff.mp hm
  rw [decide_eq_true_eq]
  intro heq
  rw [← sortKeysMembers_names, ← heq] at h
  exact h (List.mem_map_of_mem hmem)

theorem sortKeysDeep_object (h : "__proto__" ∉ members.map Prod.fst) :
    sortKeysDeep (.object members) =
      .object (ownOrder (sortMembers (sortKeysMembers members))) := by
  rw [sortKeysDeep, filter_proto h]

theorem sorted_perm :
    (ownOrder (sortMembers (sortKeysMembers members))).Perm (sortKeysMembers members) :=
  ownOrder_perm.trans sortMembers_perm

/-! ## The canonical text depends only on the value -/

mutual

theorem sortKeysDeep_eq : ∀ {v w : Json}, WellFormed v → WellFormed w → SameUpToKeyOrder v w →
    sortKeysDeep v = sortKeysDeep w
  | .null, w, _, _, h => by
    cases w <;> simp only [SameUpToKeyOrder] at h
    rfl
  | .bool b, w, _, _, h => by
    cases w <;> simp only [SameUpToKeyOrder] at h
    rw [h]
  | .number text, w, _, _, h => by
    cases w <;> simp only [SameUpToKeyOrder] at h
    rw [h]
  | .string s, w, _, _, h => by
    cases w <;> simp only [SameUpToKeyOrder] at h
    rw [h]
  | .array vs, w, hv, hw, h => by
    cases w <;> simp only [SameUpToKeyOrder] at h
    rw [sortKeysDeep, sortKeysDeep, sortKeysItems_eq hv hw h]
  | .object ms, w, hv, hw, h => by
    cases w with
    | object ns =>
      have hlength : ms.length = ns.length := h.1
      have hnodup : ((sortKeysMembers ms).map Prod.fst).Nodup := by
        rw [sortKeysMembers_names]
        exact hv.1
      -- as many members with distinct names, so one is a rearrangement of the other
      have hsubset : sortKeysMembers ms ⊆ sortKeysMembers ns :=
        sortKeysMembers_subset hv.2.2 (wellFormedMembers_iff.mp hw.2.2) h.2
      have hperm : (sortKeysMembers ms).Perm (sortKeysMembers ns) := by
        refine (List.subperm_of_subset (List.Nodup.of_map _ hnodup) hsubset).perm_of_length_le ?_
        rw [sortKeysMembers_eq, sortKeysMembers_eq, List.length_map, List.length_map]
        omega
      rw [sortKeysDeep_object hv.2.1, sortKeysDeep_object hw.2.1, sortMembers_eq hperm hnodup]
    | _ => simp only [SameUpToKeyOrder] at h

theorem sortKeysItems_eq : ∀ {vs ws : List Json}, WellFormedItems vs → WellFormedItems ws →
    SameItems vs ws → sortKeysItems vs = sortKeysItems ws
  | [], [], _, _, _ => rfl
  | v :: vs, w :: ws, hv, hw, h => by
    rw [sortKeysItems, sortKeysItems, sortKeysDeep_eq hv.1 hw.1 h.1,
      sortKeysItems_eq hv.2 hw.2 h.2]
  | [], _ :: _, _, _, h => by simp only [SameItems] at h
  | _ :: _, [], _, _, h => by simp only [SameItems] at h

theorem sortKeysMembers_subset : ∀ {ms ns : List (String × Json)}, WellFormedMembers ms →
    (∀ n ∈ ns, WellFormed n.2) → SameMembers ms ns → sortKeysMembers ms ⊆ sortKeysMembers ns
  | [], _, _, _, _ => List.nil_subset _
  | (k, v) :: ms, ns, hv, hw, h => by
    obtain ⟨w, hmem, hsame⟩ := h.1
    have hvalue : sortKeysDeep v = sortKeysDeep w := sortKeysDeep_eq hv.1 (hw _ hmem) hsame
    have hhead : (k, sortKeysDeep v) ∈ sortKeysMembers ns := by
      rw [hvalue, sortKeysMembers_eq]
      exact List.mem_map.mpr ⟨(k, w), hmem, rfl⟩
    exact List.cons_subset.mpr ⟨hhead, sortKeysMembers_subset hv.2 hw h.2⟩

end

/-! ## The canonical text determines the value -/

mutual

theorem numerals_sortKeysDeep : ∀ {v : Json}, WellFormed v → Numerals (sortKeysDeep v)
  | .null, _ => trivial
  | .bool _, _ => trivial
  | .number _, h => h
  | .string _, _ => trivial
  | .array items, h => by
    rw [sortKeysDeep, Numerals]
    exact numerals_sortKeysItems h
  | .object members, h => by
    rw [sortKeysDeep_object h.2.1, Numerals, numeralsMembers_iff]
    intro m hm
    exact numerals_sortKeysMembers h.2.2 m (sorted_perm.mem_iff.mp hm)

theorem numerals_sortKeysItems : ∀ {items : List Json}, WellFormedItems items →
    NumeralsItems (sortKeysItems items)
  | [], _ => trivial
  | _ :: _, h => ⟨numerals_sortKeysDeep h.1, numerals_sortKeysItems h.2⟩

theorem numerals_sortKeysMembers : ∀ {members : List (String × Json)}, WellFormedMembers members →
    ∀ m ∈ sortKeysMembers members, Numerals m.2
  | [], _ => fun _ hm => by cases hm
  | (_, _) :: _, h =>
    List.forall_mem_cons.mpr ⟨numerals_sortKeysDeep h.1, numerals_sortKeysMembers h.2⟩

end

mutual

theorem same_of_sortKeysDeep : ∀ {v w : Json}, WellFormed v → WellFormed w →
    sortKeysDeep v = sortKeysDeep w → SameUpToKeyOrder v w
  | .null, w, _, _, h => by
    cases w <;> simp_all [sortKeysDeep, SameUpToKeyOrder]
  | .bool b, w, _, _, h => by
    cases w <;> simp_all [sortKeysDeep, SameUpToKeyOrder]
  | .number text, w, _, _, h => by
    cases w <;> simp_all [sortKeysDeep, SameUpToKeyOrder]
  | .string s, w, _, _, h => by
    cases w <;> simp_all [sortKeysDeep, SameUpToKeyOrder]
  | .array vs, w, hv, hw, h => by
    cases w with
    | array ws =>
      rw [sortKeysDeep, sortKeysDeep] at h
      exact same_of_sortKeysItems hv hw (Json.array.inj h)
    | _ => simp [sortKeysDeep] at h
  | .object ms, w, hv, hw, h => by
    cases w with
    | object ns =>
      rw [sortKeysDeep_object hv.2.1, sortKeysDeep_object hw.2.1] at h
      -- sorting permutes the members, so both objects have the same ones
      have hperm : (sortKeysMembers ms).Perm (sortKeysMembers ns) := by
        rw [Json.object.injEq] at h
        exact (sorted_perm.symm.trans (h ▸ List.Perm.refl _)).trans sorted_perm
      have hlength := hperm.length_eq
      rw [sortKeysMembers_eq, sortKeysMembers_eq, List.length_map, List.length_map] at hlength
      exact ⟨hlength, same_of_subset hv.2.2 (wellFormedMembers_iff.mp hw.2.2) hperm.subset⟩
    | _ => simp [sortKeysDeep] at h

theorem same_of_sortKeysItems : ∀ {vs ws : List Json}, WellFormedItems vs → WellFormedItems ws →
    sortKeysItems vs = sortKeysItems ws → SameItems vs ws
  | [], [], _, _, _ => trivial
  | v :: vs, w :: ws, hv, hw, h => by
    rw [sortKeysItems, sortKeysItems, List.cons.injEq] at h
    exact ⟨same_of_sortKeysDeep hv.1 hw.1 h.1, same_of_sortKeysItems hv.2 hw.2 h.2⟩
  | [], _ :: _, _, _, h => by simp [sortKeysItems] at h
  | _ :: _, [], _, _, h => by simp [sortKeysItems] at h

theorem same_of_subset : ∀ {ms ns : List (String × Json)}, WellFormedMembers ms →
    (∀ n ∈ ns, WellFormed n.2) → sortKeysMembers ms ⊆ sortKeysMembers ns → SameMembers ms ns
  | [], _, _, _, _ => trivial
  | (k, v) :: ms, ns, hv, hw, h => by
    rw [sortKeysMembers, List.cons_subset, @sortKeysMembers_eq ns] at h
    obtain ⟨⟨l, w⟩, hmem, heq⟩ := List.mem_map.mp h.1
    obtain ⟨rfl, hvalue⟩ := Prod.mk.inj heq
    have hrest := h.2
    rw [← sortKeysMembers_eq] at hrest
    exact ⟨⟨w, hmem, same_of_sortKeysDeep hv.1 (hw _ hmem) hvalue.symm⟩,
      same_of_subset hv.2 hw hrest⟩

end

theorem canonicalJson_eq_iff {v w : Json} (hv : WellFormed v) (hw : WellFormed w) :
    canonicalJson v = canonicalJson w ↔ SameUpToKeyOrder v w := by
  constructor
  · intro h
    exact same_of_sortKeysDeep hv hw
      (stringify_inj (numerals_sortKeysDeep hv) (numerals_sortKeysDeep hw) h)
  · intro h
    rw [canonicalJson, canonicalJson, sortKeysDeep_eq hv hw h]

end WageringProcessor
