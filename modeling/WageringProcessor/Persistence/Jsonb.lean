import Mathlib.Data.List.Sort
import WageringProcessor.Messaging.Wire

/-!
# Values of a jsonb column

The database keeps the members of an object in an order of its own: shorter names first, names of
one length by their bytes.
-/

namespace WageringProcessor

open Library.JsonText

def keyLe (a b : String × Json) : Prop :=
  a.1.utf8ByteSize < b.1.utf8ByteSize ∨ a.1.utf8ByteSize = b.1.utf8ByteSize ∧ a.1 ≤ b.1

instance : DecidableRel keyLe := fun _ _ => inferInstanceAs (Decidable (_ ∨ _))

mutual

/-- What is read back for a stored value. -/
def jsonb : Json → Json
  | .array items => .array (jsonbItems items)
  | .object members => .object ((jsonbMembers members).insertionSort keyLe)
  | v => v

def jsonbItems : List Json → List Json
  | [] => []
  | v :: rest => jsonb v :: jsonbItems rest

def jsonbMembers : List (String × Json) → List (String × Json)
  | [] => []
  | (k, v) :: rest => (k, jsonb v) :: jsonbMembers rest

end

variable {members others : List (String × Json)}

theorem jsonbMembers_eq : jsonbMembers members = members.map fun m => (m.1, jsonb m.2) := by
  induction members with
  | nil => rfl
  | cons m rest ih => rw [jsonbMembers, ih, List.map_cons]

theorem jsonbMembers_names : (jsonbMembers members).map Prod.fst = members.map Prod.fst := by
  rw [jsonbMembers_eq, List.map_map]
  rfl

theorem jsonbMembers_perm :
    ((jsonbMembers members).insertionSort keyLe).Perm (jsonbMembers members) :=
  List.perm_insertionSort keyLe _

mutual

theorem wellFormed_jsonb : ∀ {v : Json}, WellFormed v → WellFormed (jsonb v)
  | .null, _ | .bool _, _ | .string _, _ => trivial
  | .number _, h => h
  | .array _, h => wellFormed_jsonbItems h
  | .object members, h => by
    have hperm : ((jsonbMembers members).insertionSort keyLe).Perm (jsonbMembers members) :=
      jsonbMembers_perm
    have hnames := hperm.map Prod.fst
    rw [jsonbMembers_names] at hnames
    refine ⟨hnames.nodup_iff.mpr h.1, fun hproto => h.2.1 (hnames.subset hproto), ?_⟩
    rw [wellFormedMembers_iff]
    intro m hm
    exact wellFormed_jsonbMembers h.2.2 m (jsonbMembers_perm.subset hm)

theorem wellFormed_jsonbItems : ∀ {items : List Json}, WellFormedItems items →
    WellFormedItems (jsonbItems items)
  | [], _ => trivial
  | _ :: _, h => ⟨wellFormed_jsonb h.1, wellFormed_jsonbItems h.2⟩

theorem wellFormed_jsonbMembers : ∀ {members : List (String × Json)}, WellFormedMembers members →
    ∀ m ∈ jsonbMembers members, WellFormed m.2
  | [], _ => fun _ hm => by cases hm
  | (_, _) :: _, h =>
    List.forall_mem_cons.mpr ⟨wellFormed_jsonb h.1, wellFormed_jsonbMembers h.2⟩

end

theorem sameMembers_of (h : ∀ m ∈ members, ∃ w, (m.1, w) ∈ others ∧ SameUpToKeyOrder m.2 w) :
    SameMembers members others := by
  induction members with
  | nil => trivial
  | cons m rest ih =>
    exact ⟨h m List.mem_cons_self, ih fun m' hm' => h m' (List.mem_cons_of_mem m hm')⟩

mutual

theorem same_jsonb : ∀ v : Json, SameUpToKeyOrder v (jsonb v)
  | .null => trivial
  | .bool _ | .string _ | .number _ => rfl
  | .array items => same_jsonbItems items
  | .object members => by
    refine same_object.mpr ⟨?_, sameMembers_of fun m hm => ?_⟩
    · rw [jsonbMembers_perm.length_eq, jsonbMembers_eq, List.length_map]
    · refine ⟨jsonb m.2, jsonbMembers_perm.mem_iff.mpr ?_, same_jsonbMembers members m hm⟩
      rw [jsonbMembers_eq]
      exact List.mem_map_of_mem hm

theorem same_jsonbItems : ∀ items : List Json, SameItems items (jsonbItems items)
  | [] => trivial
  | v :: rest => ⟨same_jsonb v, same_jsonbItems rest⟩

theorem same_jsonbMembers : ∀ members : List (String × Json), ∀ m ∈ members,
    SameUpToKeyOrder m.2 (jsonb m.2)
  | [] => fun _ hm => by cases hm
  | (_, v) :: rest => List.forall_mem_cons.mpr ⟨same_jsonb v, same_jsonbMembers rest⟩

end

theorem jsonb_readsBack {v : Json} (h : WellFormed v) : ReadsBack jsonb v :=
  ⟨wellFormed_jsonb h, same_jsonb v⟩

example : stringify (jsonb (.object [("occurredAt", .null), ("data", .object [("b", .null),
    ("a", .null)]), ("version", .number "1")])) =
    "\x7b\"data\":\x7b\"a\":null,\"b\":null\x7d,\"version\":1,\"occurredAt\":null\x7d" := by
  decide +kernel

end WageringProcessor
