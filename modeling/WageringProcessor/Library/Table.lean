import Mathlib.Data.List.Forall2
import Mathlib.Data.List.Nodup

/-!
# Keyed tables

A table is the list of its rows, `key` names the primary key of a row, and `upsert` is the effect
of an `INSERT` or of an `UPDATE ... WHERE key = ...` on it: the row with the same key is replaced
in place, a row with a new key is added at the end.
-/

namespace Library.Table

variable {ρ κ β : Type*} [DecidableEq κ]

def lookup (key : ρ → κ) (k : κ) (rows : List ρ) : Option ρ :=
  rows.find? fun r => key r = k

def upsert (key : ρ → κ) (rows : List ρ) (row : ρ) : List ρ :=
  if rows.any fun r => key r = key row then
    rows.map fun r => if key r = key row then row else r
  else
    rows ++ [row]

def upsertAll (key : ρ → κ) (rows news : List ρ) : List ρ :=
  news.foldl (upsert key) rows

variable {key : ρ → κ} {rows : List ρ} {row : ρ}

theorem lookup_mem {k : κ} {r : ρ} (h : lookup key k rows = some r) : r ∈ rows ∧ key r = k :=
  ⟨List.mem_of_find?_eq_some h, by simpa using List.find?_some h⟩

theorem lookup_eq_none {k : κ} : lookup key k rows = none ↔ ∀ r ∈ rows, key r ≠ k := by
  simp [lookup]

/-- With distinct keys a row is found under its own key. -/
theorem lookup_of_mem (hnd : (rows.map key).Nodup) {r : ρ} (h : r ∈ rows) :
    lookup key (key r) rows = some r := by
  cases hl : lookup key (key r) rows with
  | none => exact absurd rfl (lookup_eq_none.mp hl r h)
  | some r' =>
    obtain ⟨hmem, hkey⟩ := lookup_mem hl
    rw [List.inj_on_of_nodup_map hnd hmem h hkey]

theorem filter_of_mem (hnd : (rows.map key).Nodup) {r : ρ} (h : r ∈ rows) :
    rows.filter (fun x => key x = key r) = [r] := by
  induction rows with
  | nil => cases h
  | cons x xs ih =>
    rw [List.map_cons, List.nodup_cons] at hnd
    rcases List.mem_cons.mp h with rfl | h
    · rw [List.filter_cons_of_pos (by simp), List.filter_eq_nil_iff.mpr]
      intro y hy
      rw [decide_eq_true_eq]
      exact fun heq => hnd.1 (heq ▸ List.mem_map_of_mem hy)
    · have hne : key x ≠ key r := fun heq => hnd.1 (heq ▸ List.mem_map_of_mem h)
      rw [List.filter_cons_of_neg (by simpa using hne)]
      exact ih hnd.2 h

theorem mem_filterMap_lookup {ks : List κ} {r : ρ}
    (h : r ∈ ks.filterMap fun k => lookup key k rows) :
    r ∈ rows ∧ key r ∈ ks := by
  obtain ⟨k, hk, hr⟩ := List.mem_filterMap.mp h
  obtain ⟨hmem, rfl⟩ := lookup_mem hr
  exact ⟨hmem, hk⟩

/-- The rows under `ks`, when there is one under each, have these keys. -/
theorem map_filterMap_lookup {ks : List κ} (h : ∀ k ∈ ks, (lookup key k rows).isSome = true) :
    (ks.filterMap fun k => lookup key k rows).map key = ks := by
  induction ks with
  | nil => rfl
  | cons k ks ih =>
    obtain ⟨r, hr⟩ := Option.isSome_iff_exists.mp (h k List.mem_cons_self)
    rw [List.filterMap_cons_some (f := fun k => lookup key k rows) hr, List.map_cons,
      (lookup_mem hr).2,
      ih fun k' hk' => h k' (List.mem_cons_of_mem k hk')]

theorem mem_upsert {r : ρ} :
    r ∈ upsert key rows row ↔ r = row ∨ (r ∈ rows ∧ key r ≠ key row) := by
  unfold upsert
  split
  · rename_i hany
    obtain ⟨old, hold, hkey⟩ : ∃ old ∈ rows, key old = key row := by simpa using hany
    -- the row replaces another
    rw [List.mem_map]
    constructor
    · rintro ⟨a, ha, rfl⟩
      split
      · exact Or.inl rfl
      · exact Or.inr ⟨ha, ‹_›⟩
    · rintro (rfl | ⟨hr, hne⟩)
      · exact ⟨old, hold, if_pos hkey⟩
      · exact ⟨r, hr, if_neg hne⟩
  · rename_i hany
    have hnew : ∀ a ∈ rows, key a ≠ key row := by simpa using hany
    rw [List.mem_append, List.mem_singleton]
    constructor
    · rintro (hr | rfl)
      · exact Or.inr ⟨hr, hnew r hr⟩
      · exact Or.inl rfl
    · rintro (rfl | ⟨hr, -⟩)
      · exact Or.inr rfl
      · exact Or.inl hr

theorem upsert_self_mem : row ∈ upsert key rows row := mem_upsert.mpr (Or.inl rfl)

/-- An upsert keeps a column distinct when no other row carries the new row's value. -/
theorem nodup_map_upsert {f : ρ → β} (hkeys : (rows.map key).Nodup) (hf : (rows.map f).Nodup)
    (hnew : ∀ r ∈ rows, key r ≠ key row → f r ≠ f row) :
    ((upsert key rows row).map f).Nodup := by
  unfold upsert
  split
  · -- of two rows at most one has the key that is replaced
    rw [List.Nodup, List.pairwise_map, List.pairwise_map]
    rw [List.Nodup, List.pairwise_map] at hkeys hf
    refine (hkeys.and hf).imp_of_mem ?_
    rintro a b ha hb ⟨hk, hfab⟩
    by_cases hak : key a = key row
    · have hbk : key b ≠ key row := fun h => hk (hak.trans h.symm)
      rw [if_pos hak, if_neg hbk]
      exact fun h => hnew b hb hbk h.symm
    · by_cases hbk : key b = key row
      · rw [if_neg hak, if_pos hbk]
        exact hnew a ha hak
      · rwa [if_neg hak, if_neg hbk]
  · rename_i hany
    have hfresh : ∀ a ∈ rows, key a ≠ key row := by simpa using hany
    rw [List.map_append, List.nodup_append]
    refine ⟨hf, List.nodup_singleton _, ?_⟩
    intro x hx y hy
    obtain ⟨a, ha, rfl⟩ := List.mem_map.mp hx
    obtain rfl : y = f row := by simpa using hy
    exact hnew a ha (hfresh a ha)

theorem nodup_upsert (hkeys : (rows.map key).Nodup) : ((upsert key rows row).map key).Nodup :=
  nodup_map_upsert hkeys hkeys fun _ _ h => h

theorem lookup_upsert (k : κ) :
    lookup key k (upsert key rows row) = if key row = k then some row else lookup key k rows := by
  unfold upsert
  split
  · rename_i hany
    have hex : ∃ old ∈ rows, key old = key row := by simpa using hany
    -- the row replaces another, and is the first with its key
    clear hany
    by_cases hk : key row = k
    · subst hk
      rw [if_pos rfl]
      induction rows with
      | nil => simp at hex
      | cons a as ih =>
        simp only [lookup, List.map_cons, List.find?_cons]
        by_cases ha : key a = key row
        · simp [ha]
        · have hex' : ∃ old ∈ as, key old = key row := by simpa [ha] using hex
          simpa [ha, lookup] using ih hex'
    · rw [if_neg hk]
      clear hex
      induction rows with
      | nil => rfl
      | cons a as ih =>
        simp only [lookup, List.map_cons, List.find?_cons] at ih ⊢
        by_cases ha : key a = key row
        · have hak : key a ≠ k := fun h => hk (ha ▸ h)
          simp [ha, hk, ih]
        · by_cases hak : key a = k
          · subst hak
            simp [ha]
          · simp [ha, hak, ih]
  · rename_i hany
    -- the row stands at the end, behind rows with other keys
    have hfresh : ∀ a ∈ rows, key a ≠ key row := by simpa using hany
    simp only [lookup, List.find?_append, List.find?_singleton, decide_eq_true_eq]
    by_cases hk : key row = k
    · subst hk
      have : rows.find? (fun r => key r = key row) = none := by simpa using hfresh
      simp [this]
    · simp [hk]

/-- Writing a row again under the same key leaves only the second version. -/
theorem upsert_upsert {row' : ρ} (h : key row = key row') :
    upsert key (upsert key rows row) row' = upsert key rows row' := by
  have hany : (upsert key rows row).any (fun r => key r = key row') = true :=
    List.any_eq_true.mpr ⟨row, upsert_self_mem, by simpa using h⟩
  conv_lhs => rw [upsert, if_pos hany]
  unfold upsert
  rw [← h]
  split
  · -- the first version has replaced an old row
    rw [List.map_map]
    apply List.map_congr_left
    intro a _
    by_cases ha : key a = key row <;> simp [ha]
  · rename_i hnone
    have hfresh : ∀ a ∈ rows, key a ≠ key row := by simpa using hnone
    rw [List.map_append]
    congr 1
    · conv_rhs => rw [← List.map_id rows]
      apply List.map_congr_left
      intro a ha
      simp [hfresh a ha]
    · simp

@[simp] theorem upsertAll_nil : upsertAll key rows [] = rows := rfl

@[simp] theorem upsertAll_cons (news : List ρ) :
    upsertAll key rows (row :: news) = upsertAll key (upsert key rows row) news := rfl

theorem upsert_of_fresh (h : ∀ r ∈ rows, key r ≠ key row) : upsert key rows row = rows ++ [row] :=
  if_neg (by simpa using h)

theorem upsertAll_of_fresh {news : List ρ} (hnd : (news.map key).Nodup)
    (h : ∀ n ∈ news, ∀ r ∈ rows, key r ≠ key n) : upsertAll key rows news = rows ++ news := by
  induction news generalizing rows with
  | nil => simp
  | cons n ns ih =>
    rw [List.map_cons, List.nodup_cons] at hnd
    rw [upsertAll_cons, upsert_of_fresh (h n List.mem_cons_self), ih hnd.2]
    · simp
    · intro m hm r hr
      rcases List.mem_append.mp hr with hr | hr
      · exact h m (List.mem_cons_of_mem n hm) r hr
      · obtain rfl : r = n := by simpa using hr
        exact fun heq => hnd.1 (heq ▸ List.mem_map_of_mem hm)

theorem nodup_upsertAll {news : List ρ} (hkeys : (rows.map key).Nodup) :
    ((upsertAll key rows news).map key).Nodup := by
  induction news generalizing rows with
  | nil => exact hkeys
  | cons n ns ih => exact ih (nodup_upsert hkeys)

theorem mem_or_mem_of_upsertAll {news : List ρ} {r : ρ} (h : r ∈ upsertAll key rows news) :
    r ∈ news ∨ r ∈ rows := by
  induction news generalizing rows with
  | nil => exact Or.inr h
  | cons n ns ih =>
    rcases ih h with hr | hr
    · exact Or.inl (List.mem_cons_of_mem n hr)
    · rcases mem_upsert.mp hr with rfl | ⟨hr, -⟩
      · exact Or.inl List.mem_cons_self
      · exact Or.inr hr

theorem mem_upsertAll {news : List ρ} (hnd : (news.map key).Nodup) {r : ρ} :
    r ∈ upsertAll key rows news ↔ r ∈ news ∨ (r ∈ rows ∧ ∀ n ∈ news, key r ≠ key n) := by
  induction news generalizing rows with
  | nil => simp
  | cons n ns ih =>
    rw [List.map_cons, List.nodup_cons] at hnd
    rw [upsertAll_cons, ih hnd.2, mem_upsert]
    have hn : ∀ m ∈ ns, key n ≠ key m := fun m hm heq => hnd.1 (heq ▸ List.mem_map_of_mem hm)
    -- the first of the rows is replaced by none of the others
    constructor
    · rintro (hr | ⟨rfl | ⟨hr, hne⟩, hns⟩)
      · exact Or.inl (List.mem_cons_of_mem n hr)
      · exact Or.inl List.mem_cons_self
      · refine Or.inr ⟨hr, fun m hm => ?_⟩
        rcases List.mem_cons.mp hm with rfl | hm
        · exact hne
        · exact hns m hm
    · rintro (hr | ⟨hr, hne⟩)
      · rcases List.mem_cons.mp hr with rfl | hr
        · exact Or.inr ⟨Or.inl rfl, hn⟩
        · exact Or.inl hr
      · exact Or.inr ⟨Or.inr ⟨hr, hne n List.mem_cons_self⟩,
          fun m hm => hne m (List.mem_cons_of_mem n hm)⟩

/-- Updates that leave a column as it was leave the whole column as it was. -/
theorem map_upsertAll_of_same {f : ρ → β} {news : List ρ}
    (hold : ∀ n ∈ news, ∃ r ∈ rows, key r = key n)
    (hsame : ∀ n ∈ news, ∀ r ∈ rows, key r = key n → f r = f n) :
    (upsertAll key rows news).map f = rows.map f := by
  induction news generalizing rows with
  | nil => rfl
  | cons n ns ih =>
    obtain ⟨old, holdmem, holdkey⟩ := hold n List.mem_cons_self
    have hone : (upsert key rows n).map f = rows.map f := by
      rw [upsert, if_pos (List.any_eq_true.mpr ⟨old, holdmem, by simpa using holdkey⟩),
        List.map_map]
      apply List.map_congr_left
      intro r hr
      by_cases hrn : key r = key n
      · simp [hrn, hsame n List.mem_cons_self r hr hrn]
      · simp [hrn]
    -- the rows that are still to come find the column unchanged
    have hmem : ∀ m ∈ ns, ∀ r, r ∈ upsert key rows n → key r = key m → f r = f m := by
      intro m hm r hr hrm
      rcases mem_upsert.mp hr with rfl | ⟨hr, -⟩
      · rw [← hsame r List.mem_cons_self old holdmem holdkey,
          hsame m (List.mem_cons_of_mem _ hm) old holdmem (holdkey.trans hrm)]
      · exact hsame m (List.mem_cons_of_mem _ hm) r hr hrm
    rw [upsertAll_cons, ih ?_ hmem, hone]
    intro m hm
    obtain ⟨r, hr, hrm⟩ := hold m (List.mem_cons_of_mem _ hm)
    by_cases hrn : key r = key n
    · exact ⟨n, upsert_self_mem, hrn.symm.trans hrm⟩
    · exact ⟨r, mem_upsert.mpr (Or.inr ⟨hr, hrn⟩), hrm⟩

theorem lookup_append_of_ne {news : List ρ} {k : κ} (h : ∀ r ∈ news, key r ≠ k) :
    lookup key k (rows ++ news) = lookup key k rows := by
  have hnone : news.find? (fun r => key r = k) = none := by simpa using h
  unfold lookup
  rw [List.find?_append, hnone, Option.or_none]

theorem lookup_upsertAll_of_ne {news : List ρ} {k : κ} (h : ∀ r ∈ news, key r ≠ k) :
    lookup key k (upsertAll key rows news) = lookup key k rows := by
  induction news generalizing rows with
  | nil => rfl
  | cons r rs ih =>
    rw [upsertAll_cons, ih fun r' hr' => h r' (List.mem_cons_of_mem r hr'), lookup_upsert,
      if_neg (h r List.mem_cons_self)]

/-! ## Updates of different rows -/

theorem upsert_of_mem (h : ∃ r ∈ rows, key r = key row) :
    upsert key rows row = rows.map fun r => if key r = key row then row else r := by
  obtain ⟨r, hr, hkey⟩ := h
  exact if_pos (List.any_eq_true.mpr ⟨r, hr, decide_eq_true hkey⟩)

/-- A row is still there after an update, as it was or as it is now. -/
theorem exists_key_upsert {k : κ} (h : ∃ r ∈ rows, key r = k) :
    ∃ r ∈ upsert key rows row, key r = k := by
  obtain ⟨r, hr, hkey⟩ := h
  by_cases hrow : key r = key row
  · exact ⟨row, upsert_self_mem, hrow.symm.trans hkey⟩
  · exact ⟨r, mem_upsert.mpr (Or.inr ⟨hr, hrow⟩), hkey⟩

theorem upsert_comm {row' : ρ} (hne : key row ≠ key row') (h : ∃ r ∈ rows, key r = key row)
    (h' : ∃ r ∈ rows, key r = key row') :
    upsert key (upsert key rows row) row' = upsert key (upsert key rows row') row := by
  rw [upsert_of_mem (exists_key_upsert h'), upsert_of_mem (exists_key_upsert h), upsert_of_mem h,
    upsert_of_mem h', List.map_map, List.map_map]
  apply List.map_congr_left
  intro r _
  by_cases hr : key r = key row
  · simp [hr, hne]
  · by_cases hr' : key r = key row'
    · simp [hr', hne.symm]
    · simp [hr, hr']

theorem upsertAll_upsert {news : List ρ} (hne : ∀ n ∈ news, key row ≠ key n)
    (h : ∃ r ∈ rows, key r = key row) (hold : ∀ n ∈ news, ∃ r ∈ rows, key r = key n) :
    upsertAll key (upsert key rows row) news = upsert key (upsertAll key rows news) row := by
  induction news generalizing rows with
  | nil => rfl
  | cons n ns ih =>
    rw [upsertAll_cons, upsertAll_cons, upsert_comm (hne n List.mem_cons_self) h
      (hold n List.mem_cons_self)]
    exact ih (fun m hm => hne m (List.mem_cons_of_mem n hm)) (exists_key_upsert h)
      fun m hm => exists_key_upsert (hold m (List.mem_cons_of_mem n hm))

/-- Updates of different rows can be made in either order. -/
theorem upsertAll_comm {as bs : List ρ} (hne : ∀ a ∈ as, ∀ b ∈ bs, key a ≠ key b)
    (has : ∀ a ∈ as, ∃ r ∈ rows, key r = key a) (hbs : ∀ b ∈ bs, ∃ r ∈ rows, key r = key b) :
    upsertAll key (upsertAll key rows as) bs = upsertAll key (upsertAll key rows bs) as := by
  induction as generalizing rows with
  | nil => rfl
  | cons a as ih =>
    rw [upsertAll_cons, upsertAll_cons, ih (fun a' ha' => hne a' (List.mem_cons_of_mem a ha'))
      (fun a' ha' => exists_key_upsert (has a' (List.mem_cons_of_mem a ha')))
      fun b hb => exists_key_upsert (hbs b hb)]
    rw [upsertAll_upsert (hne a List.mem_cons_self) (has a List.mem_cons_self) hbs]

theorem forall₂_upsert {R : ρ → ρ → Prop} {rows' : List ρ} {row' : ρ}
    (hkey : ∀ a b, R a b → key a = key b) (hrows : List.Forall₂ R rows rows') (hrow : R row row') :
    List.Forall₂ R (upsert key rows row) (upsert key rows' row') := by
  have hany : (rows.any fun r => key r = key row) = rows'.any fun r => key r = key row' := by
    rw [hkey row row' hrow]
    induction hrows with
    | nil => rfl
    | cons hab _ ih => rw [List.any_cons, List.any_cons, ih, hkey _ _ hab]
  unfold upsert
  -- either both tables have the key or neither has it
  rw [hany]
  split
  · rw [List.forall₂_map_left_iff, List.forall₂_map_right_iff]
    refine hrows.imp fun a b hab => ?_
    rw [hkey a b hab, hkey row row' hrow]
    split
    · exact hrow
    · exact hab
  · exact List.rel_append hrows (.cons hrow .nil)

/-- Corresponding updates of corresponding tables. -/
theorem forall₂_upsertAll {R : ρ → ρ → Prop} {rows' news news' : List ρ}
    (hkey : ∀ a b, R a b → key a = key b) (hrows : List.Forall₂ R rows rows')
    (hnews : List.Forall₂ R news news') :
    List.Forall₂ R (upsertAll key rows news) (upsertAll key rows' news') := by
  induction hnews generalizing rows rows' with
  | nil => exact hrows
  | cons hrow _ ih => exact ih (forall₂_upsert hkey hrows hrow)

theorem lookup_cons (k : κ) (row : ρ) (rows : List ρ) :
    lookup key k (row :: rows) = if key row = k then some row else lookup key k rows := by
  unfold lookup
  by_cases hk : key row = k
  · simp [hk]
  · simp [hk]

/-- The first row with a key is found under it. -/
theorem lookup_append_cons {k : κ} {pre post : List ρ} (hpre : ∀ r ∈ pre, key r ≠ k)
    (hrow : key row = k) : lookup key k (pre ++ row :: post) = some row := by
  induction pre with
  | nil => rw [List.nil_append, lookup_cons, if_pos hrow]
  | cons r pre ih =>
    rw [List.cons_append, lookup_cons, if_neg (hpre r List.mem_cons_self)]
    exact ih fun r' hr' => hpre r' (List.mem_cons_of_mem r hr')

/-- Corresponding tables have corresponding rows under a key. -/
theorem rel_lookup {R : ρ → ρ → Prop} {rows' : List ρ} (hkey : ∀ a b, R a b → key a = key b)
    (h : List.Forall₂ R rows rows') (k : κ) :
    Option.Rel R (lookup key k rows) (lookup key k rows') := by
  induction h with
  | nil => exact .none
  | @cons a b as bs hab _ ih =>
    rw [lookup_cons, lookup_cons, hkey a b hab]
    split
    · exact .some hab
    · exact ih

/-- The one row with its key is replaced where it stands. -/
theorem upsert_append_cons {pre post : List ρ} {old : ρ} (hpre : ∀ r ∈ pre, key r ≠ key row)
    (hold : key old = key row) (hpost : ∀ r ∈ post, key r ≠ key row) :
    upsert key (pre ++ old :: post) row = pre ++ row :: post := by
  have hstay : ∀ rs : List ρ, (∀ r ∈ rs, key r ≠ key row) →
      (rs.map fun r => if key r = key row then row else r) = rs := by
    intro rs hrs
    conv_rhs => rw [← List.map_id rs]
    exact List.map_congr_left fun r hr => if_neg (hrs r hr)
  rw [upsert_of_mem ⟨old, by simp, hold⟩, List.map_append, List.map_cons, if_pos hold,
    hstay pre hpre,
    hstay post hpost]

end Library.Table
