import WageringProcessor.Invariants.Rely

/-!
# What a call holds

How the operations on the locks change what a call holds, and that every id in the database was
drawn by some call.
-/

namespace WageringProcessor

open Library.Interleaving (Pid)
open Library.Locks Library.Table

def owns (s : Shared) (i : Pid) (k : Resource) : Prop := s.locks k = some i

/-- Every id in the database was drawn. -/
structure Drawn (drawn : Id → Prop) (d : Database) : Prop where
  wallets : ∀ r ∈ d.wallets, drawn r.id
  rows : ∀ t ∈ d.wagerTransactions, drawn t.id
  messages : ∀ m ∈ d.outboxMessages, drawn m.id

def Shared.drawn (s : Shared) (id : Id) : Prop := s.locks (.uuid id) ≠ none

/-- `i` takes some of `keys` and gives nothing back. -/
structure Acquires (i : Pid) (keys : List Resource) (s s' : Shared) : Prop where
  db : s'.db = s.db
  sent : s'.sent = s.sent
  deleted : s'.deleted = s.deleted
  others : OnlyMoves i s.locks s'.locks
  keeps : ∀ k, owns s i k → owns s' i k
  holds : ∀ k ∈ keys, owns s' i k
  taken : ∀ k, s.locks k ≠ none → s'.locks k ≠ none

variable {P : Platform} {s s' s'' : Shared} {i j : Pid} {keys : List Resource} {ids : List Id}

theorem Database.mem_outbox_applyAll {d : Database} {ws : List Writes} {m : OutboxMessage}
    (h : m ∈ (d.applyAll ws).outboxMessages) :
    m ∈ d.outboxMessages ∨ ∃ w ∈ ws, m ∈ w.outboxMessages := by
  induction ws generalizing d with
  | nil => exact Or.inl h
  | cons w ws ih =>
    rcases ih h with hm | ⟨w', hw', hm⟩
    · rcases mem_or_mem_of_upsertAll hm with hm | hm
      · exact Or.inr ⟨w, List.mem_cons_self, hm⟩
      · exact Or.inl hm
    · exact Or.inr ⟨w', List.mem_cons_of_mem w hw', hm⟩

theorem owns_disjoint (hij : j ≠ i) (k : Resource) (h : owns s j k) : ¬owns s i k := by
  intro h'
  exact hij (Option.some.inj (h.symm.trans h'))

theorem taken_of_eq {t t' : Locks Resource} (h : t' = fun k => if k ∈ keys then some i else t k)
    (k : Resource) (hk : t k ≠ none) : t' k ≠ none := by
  subst h
  by_cases hmem : k ∈ keys <;> simp [hmem, hk]

theorem take_acquires (h : s.take i keys = some s') : Acquires i keys s s' := by
  obtain ⟨locks, hlocks, rfl⟩ := Option.map_eq_some_iff.mp h
  exact ⟨rfl, rfl, rfl, acquire_onlyMoves hlocks, fun _ => acquire_keeps hlocks,
    fun _ => acquire_holds hlocks, taken_of_eq (acquire_eq_some.mp hlocks).2⟩

/-- The ids that a step draws: the call holds them, and nobody held them before. -/
structure Draws (P : Platform) (i : Pid) (ids : List Id) (s s' : Shared) : Prop
    extends Acquires i (ids.map .uuid) s s' where
  canonical : ∀ id ∈ ids, P.uuid id = some id
  nodup : ids.Nodup
  fresh : ∀ id ∈ ids, ¬s.drawn id

theorem draw_draws (h : s.draw i P ids = some s') : Draws P i ids s s' := by
  unfold Shared.draw at h
  split at h
  · rename_i hcanonical
    obtain ⟨locks, hlocks, rfl⟩ := Option.map_eq_some_iff.mp h
    obtain ⟨⟨hnodup, hfree⟩, hnew⟩ := acquireNew_eq_some.mp hlocks
    refine ⟨⟨rfl, rfl, rfl, acquireNew_onlyMoves hlocks, fun _ => acquireNew_keeps hlocks,
      fun _ => acquireNew_holds hlocks, taken_of_eq hnew⟩, ?_, hnodup.of_map _, ?_⟩
    · intro id hid
      exact Platform.isCanonical_iff.mp (List.all_eq_true.mp hcanonical id hid)
    · intro id hid hdrawn
      exact hdrawn (hfree _ (List.mem_map_of_mem hid))
  · simp at h

theorem Draws.holdsId (h : Draws P i ids s s') {id : Id} (hid : id ∈ ids) : owns s' i (.uuid id) :=
  h.holds _ (List.mem_map_of_mem hid)

theorem exists_take (h : ∀ k ∈ keys, s.locks k = none ∨ owns s i k) :
    ∃ s', s.take i keys = some s' :=
  ⟨_, Option.map_eq_some_iff.mpr ⟨_, acquire_eq_some.mpr ⟨h, rfl⟩, rfl⟩⟩

/-- Taking locks draws no id. -/
theorem take_drawn (h : s.take i keys = some s') {id : Id} (hkeys : .uuid id ∉ keys) :
    s'.drawn id ↔ s.drawn id := by
  obtain ⟨locks, hlocks, rfl⟩ := Option.map_eq_some_iff.mp h
  obtain ⟨-, rfl⟩ := acquire_eq_some.mp hlocks
  unfold Shared.drawn
  dsimp only
  rw [if_neg hkeys]

theorem exists_draw (hcanonical : ∀ id ∈ ids, P.isCanonical id = true) (hnodup : ids.Nodup)
    (hfresh : ∀ id ∈ ids, ¬s.drawn id) : ∃ s', s.draw i P ids = some s' := by
  unfold Shared.draw
  rw [if_pos (List.all_eq_true.mpr hcanonical)]
  refine ⟨_, Option.map_eq_some_iff.mpr ⟨_, acquireNew_eq_some.mpr ⟨⟨?_, ?_⟩, rfl⟩, rfl⟩⟩
  · exact hnodup.map fun _ _ heq => Resource.uuid.inj heq
  · intro k hk
    obtain ⟨id, hid, rfl⟩ := List.mem_map.mp hk
    exact not_not.mp (hfresh id hid)

theorem draw_drawn (h : s.draw i P ids = some s') {id : Id} (hdrawn : s'.drawn id) :
    s.drawn id ∨ id ∈ ids := by
  unfold Shared.draw at h
  split at h
  · obtain ⟨locks, hlocks, rfl⟩ := Option.map_eq_some_iff.mp h
    obtain ⟨-, rfl⟩ := acquireNew_eq_some.mp hlocks
    by_cases hid : id ∈ ids
    · exact Or.inr hid
    · left
      have hkey : Resource.uuid id ∉ ids.map .uuid := by simpa using hid
      unfold Shared.drawn at hdrawn
      dsimp only at hdrawn
      rwa [if_neg hkey] at hdrawn
  · cases h

/-- The generator still has `n` ids that nobody drew. -/
def FreshIds (P : Platform) (s : Shared) (n : Nat) : Prop :=
  ∃ ids : List Id, n ≤ ids.length ∧ ids.Nodup ∧
    ∀ id ∈ ids, P.isCanonical id = true ∧ ¬s.drawn id

theorem FreshIds.mono {m n : Nat} (h : FreshIds P s n) (hle : m ≤ n)
    (hdrawn : ∀ id, s'.drawn id → s.drawn id) : FreshIds P s' m := by
  obtain ⟨ids, hlength, hnodup, hids⟩ := h
  exact ⟨ids, hle.trans hlength, hnodup,
    fun id hid => ⟨(hids id hid).1, fun hd => (hids id hid).2 (hdrawn id hd)⟩⟩

/-- A step is given three of them, and the others are left. -/
theorem FreshIds.next {n : Nat} (h : FreshIds P s (n + 3)) : ∃ newId : Nat → Id,
    (∀ k, P.isCanonical (newId k) = true ∧ ¬s.drawn (newId k)) ∧
      (newId 0 ≠ newId 1 ∧ newId 0 ≠ newId 2 ∧ newId 1 ≠ newId 2) ∧
        ∀ s' : Shared, (∀ id, s'.drawn id → s.drawn id ∨ ∃ k, id = newId k) →
          FreshIds P s' n := by
  obtain ⟨ids, hlength, hnodup, hids⟩ := h
  match ids, hlength, hnodup, hids with
  | [], hlength, _, _ | [_], hlength, _, _ | [_, _], hlength, _, _ =>
    simp only [List.length_cons, List.length_nil] at hlength
    omega
  | id₀ :: id₁ :: id₂ :: later, hlength, hnodup, hids =>
    -- all inputs from 2 on are the third id
    let newId : Nat → Id := fun k => if k = 0 then id₀ else if k = 1 then id₁ else id₂
    have hgiven : ∀ k, newId k = id₀ ∨ newId k = id₁ ∨ newId k = id₂ := by
      intro k
      simp only [newId]
      split
      · exact Or.inl rfl
      · split
        · exact Or.inr (Or.inl rfl)
        · exact Or.inr (Or.inr rfl)
    simp only [List.nodup_cons, List.mem_cons, not_or] at hnodup
    obtain ⟨⟨h₀₁, h₀₂, h₀⟩, ⟨h₁₂, h₁⟩, h₂, hlater⟩ := hnodup
    refine ⟨newId, fun k => hids _ ?_, ⟨h₀₁, h₀₂, h₁₂⟩, fun s' hdrawn => ⟨later, ?_, hlater, ?_⟩⟩
    · rcases hgiven k with h | h | h <;> simp [h]
    · simp only [List.length_cons] at hlength
      omega
    · intro id hid
      have hbefore := hids id (by simp [hid])
      refine ⟨hbefore.1, fun hd => ?_⟩
      rcases hdrawn id hd with hd | ⟨k, rfl⟩
      · exact hbefore.2 hd
      · rcases hgiven k with h | h | h
        · exact h₀ (h ▸ hid)
        · exact h₁ (h ▸ hid)
        · exact h₂ (h ▸ hid)

/-! ## Giving back -/

theorem drawn_of_giveBack {which : Resource → Bool} {id : Id}
    (h : (s.giveBack i which).drawn id) : s.drawn id := by
  unfold Shared.drawn Shared.giveBack release at h
  dsimp only at h
  split at h
  · exact absurd rfl h
  · exact h

theorem giveBack_others (which : Resource → Bool) :
    OnlyMoves i s.locks (s.giveBack i which).locks := release_onlyMoves which

theorem giveBack_owns {which : Resource → Bool} {k : Resource}
    (h : owns (s.giveBack i which) i k) : owns s i k := by
  unfold owns Shared.giveBack release at h
  dsimp only at h
  split at h
  · simp at h
  · exact h

theorem giveBack_keeps {which : Resource → Bool} {k : Resource} (h : owns s i k)
    (hwhich : which k = false) : owns (s.giveBack i which) i k := by
  unfold owns Shared.giveBack release
  simp [hwhich]
  exact h

theorem giveBack_drawn {which : Resource → Bool} (hwhich : ∀ id, which (.uuid id) = false) {id : Id}
    (h : s.drawn id) : (s.giveBack i which).drawn id := by
  unfold Shared.drawn Shared.giveBack release
  simp [hwhich]
  exact h

/-! ## What a step does to the rest of the system -/

/-- The successful send of `m` by `i`. -/
def sentBy (i : Pid) (m : OutboxMessage) : Sent := ⟨i, m.payload, m.aggregateId, m.id⟩

/-- `s'` is `s` after a step of `i` on the database: only what `i` holds has changed hands, no id
has been given back, the database has changed as `i` is permitted to change it, and what has become
published was sent by `i`. -/
structure Advances (P : Platform) (i : Pid) (s s' : Shared) : Prop where
  others : OnlyMoves i s.locks s'.locks
  drawn : ∀ id, s.drawn id → s'.drawn id
  sent : s'.sent = s.sent
  deleted : s'.deleted = s.deleted
  changes : ∃ ws, s'.db = s.db.applyAll ws ∧ PermittedSeq P (owns s i) s.db ws
  published : ∀ m ∈ s'.db.outboxMessages, m.publishedAt.isSome = true →
    m ∈ s.db.outboxMessages ∨ sentBy i m ∈ s.sent

theorem Advances.refl (P : Platform) (i : Pid) (s : Shared) : Advances P i s s :=
  ⟨.refl i _, fun _ h => h, rfl, rfl, ⟨[], rfl, .nil _⟩, fun _ hm _ => Or.inl hm⟩

theorem Acquires.advances (h : Acquires i keys s s') : Advances P i s s' :=
  ⟨h.others, fun _ hid => h.taken _ hid, h.sent, h.deleted, ⟨[], h.db, .nil _⟩,
    fun _ hm _ => Or.inl (h.db ▸ hm)⟩

theorem giveBack_advances {which : Resource → Bool} (hwhich : ∀ id, which (.uuid id) = false) :
    Advances P i s (s.giveBack i which) :=
  ⟨giveBack_others which, fun _ => giveBack_drawn hwhich, rfl, rfl, ⟨[], rfl, .nil _⟩,
    fun _ hm _ => Or.inl hm⟩

/-- A step that first takes locks and then advances. -/
theorem Acquires.trans_advances (h : Acquires i keys s s') (h' : Advances P i s' s'')
    (hdb : s''.db = s.db) : Advances P i s s'' :=
  ⟨h.others.trans h'.others, fun id hid => h'.drawn id (h.taken _ hid), h'.sent.trans h.sent,
    h'.deleted.trans h.deleted, ⟨[], hdb, .nil _⟩, fun _ hm _ => Or.inl (hdb ▸ hm)⟩

theorem rollback_advances : Advances P i s (s.rollback i) := giveBack_advances fun _ => rfl

theorem commit_advances {ws ws' : List Writes} (hws : s.db.applyAll ws = s.db.applyAll ws')
    (h : PermittedSeq P (owns s i) s.db ws') (hpublished : ∀ w ∈ ws', ∀ m ∈ w.outboxMessages,
      m.publishedAt.isSome = true → sentBy i m ∈ s.sent) : Advances P i s (s.commit i ws) := by
  refine ⟨release_onlyMoves _, fun id hid => ?_, rfl, rfl, ⟨ws', hws, h⟩, fun m hm hp => ?_⟩
  · unfold Shared.drawn Shared.commit Shared.giveBack release
    simp [Resource.isLock]
    exact hid
  · have hm' : m ∈ (s.db.applyAll ws').outboxMessages := hws ▸ hm
    rcases Database.mem_outbox_applyAll hm' with hold | ⟨w, hw, hnew⟩
    · exact Or.inl hold
    · exact Or.inr (hpublished w hw m hnew hp)

/-- The commit of a call that publishes nothing. -/
theorem Queues.advances {ws ws' : List Writes} (hqueues : Queues ws')
    (hws : s.db.applyAll ws = s.db.applyAll ws') (h : PermittedSeq P (owns s i) s.db ws') :
    Advances P i s (s.commit i ws) :=
  commit_advances hws h fun w hw m hm hp => by simp [hqueues w hw m hm] at hp

theorem Advances.owns_iff (h : Advances P i s s') (hij : j ≠ i) (k : Resource) :
    owns s' j k ↔ owns s j k := h.others j hij k

/-- A drawn id stays with the call that drew it. -/
theorem Advances.keepsDrawn (h : Advances P i s s') {id : Id} (howns : owns s j (.uuid id)) :
    owns s' j (.uuid id) := by
  have hdrawn : s.drawn id := fun hnone => Option.some_ne_none j (howns.symm.trans hnone)
  obtain ⟨k, hk⟩ := Option.ne_none_iff_exists'.mp (h.drawn id hdrawn)
  by_cases hki : k = i
  · by_cases hji : j = i
    · rw [hji, ← hki]
      exact hk
    · exact (h.others j hji _).mpr howns
  · have hbefore := (h.others k hki _).mp hk
    rw [Option.some.inj (howns.symm.trans hbefore)]
    exact hk

theorem Advances.consistent (h : Advances P i s s') (hc : Consistent P s.db) :
    Consistent P s'.db := by
  obtain ⟨ws, hdb, hws⟩ := h.changes
  rw [hdb]
  exact hws.consistent hc

/-! ## Drawn ids -/

theorem Drawn.mono {drawn drawn' : Id → Prop} {d : Database} (h : Drawn drawn d)
    (hmono : ∀ id, drawn id → drawn' id) : Drawn drawn' d :=
  ⟨fun r hr => hmono _ (h.wallets r hr), fun t ht => hmono _ (h.rows t ht),
    fun m hm => hmono _ (h.messages m hm)⟩

theorem Drawn.apply {drawn : Id → Prop} {own : Resource → Prop} {d : Database} {w : Writes}
    (h : Drawn drawn d) (hw : Permitted P own d w) (hown : ∀ id, own (.uuid id) → drawn id) :
    Drawn drawn (d.apply w) := by
  have hmessages : ∀ {w : Writes}, NewMessages own d w.outboxMessages →
      ∀ m ∈ (d.apply w).outboxMessages, drawn m.id := by
    intro w n m hm
    rw [outbox_apply n] at hm
    rcases List.mem_append.mp hm with hm | hm
    · exact h.messages m hm
    · exact hown _ (n.owns m hm)
  cases hw with
  | settled hs =>
    obtain ⟨s, o⟩ := hs
    refine ⟨?_, ?_, hmessages s.messages⟩
    · intro r hr
      rcases o.effect with ⟨hnil, -⟩ | ⟨w₀, w₁, e, hone, -, hw₀, hm, -, -⟩
      · rw [Database.wallets_apply hnil] at hr
        exact h.wallets r hr
      · rcases (Database.mem_wallets_apply hone).mp hr with rfl | ⟨hr, -⟩
        · exact hm.id ▸ h.wallets w₀ hw₀
        · exact h.wallets r hr
    · intro x hx
      rcases (Database.mem_transactions_apply s.row).mp hx with rfl | ⟨hx, -⟩
      · rw [s.id]
        rcases s.subject with hc | hl
        · exact hown _ hc.ownsId
        · exact h.rows _ hl.row
      · exact h.rows x hx
  | @opened row writes n _ =>
    subst writes
    refine ⟨fun r hr => ?_, h.rows, h.messages⟩
    rcases (n.mem (w := { wallets := [row] }) rfl).mp hr with rfl | hr
    · exact hown _ n.ownsId
    · exact h.wallets r hr
  | openedWith o =>
    refine ⟨fun r hr => ?_, fun x hx => ?_, hmessages o.messages⟩
    · rcases (o.wallet.mem o.wallets).mp hr with rfl | hr
      · exact hown _ o.wallet.ownsId
      · exact h.wallets r hr
    · rcases (o.opening.mem o.rows).mp hx with rfl | hx
      · exact hown _ o.opening.ownsId
      · exact h.rows x hx
  | received writes =>
    subst writes
    exact ⟨h.wallets, h.rows, h.messages⟩
  | @published ms writes nodup saved =>
    subst writes
    refine ⟨h.wallets, h.rows, fun m hm => ?_⟩
    rcases (mem_upsertAll nodup).mp hm with hm | ⟨hm, -⟩
    · obtain ⟨m₀, hm₀, -, -, henv⟩ := saved m hm
      exact henv.1 ▸ h.messages m₀ hm₀
    · exact h.messages m hm

theorem Drawn.applyAll {drawn : Id → Prop} {own : Resource → Prop} {d : Database}
    {ws : List Writes} (h : Drawn drawn d) (hws : PermittedSeq P own d ws)
    (hown : ∀ id, own (.uuid id) → drawn id) : Drawn drawn (d.applyAll ws) := by
  induction hws with
  | nil => exact h
  | cons head _ ih => exact ih (h.apply head hown)

theorem drawn_of_owns {id : Id} (h : owns s i (.uuid id)) : s.drawn id := by
  unfold Shared.drawn
  rw [h]
  simp

theorem Advances.drawnAll (h : Advances P i s s') (hd : Drawn s.drawn s.db) :
    Drawn s'.drawn s'.db := by
  obtain ⟨ws, hdb, hws⟩ := h.changes
  rw [hdb]
  exact (hd.applyAll hws fun id => drawn_of_owns).mono h.drawn

end WageringProcessor
