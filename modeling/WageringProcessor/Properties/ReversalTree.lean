import WageringProcessor.Properties.Reversals
import WageringProcessor.Properties.LedgerIntegrity

/-!
# What the reversals of a bet add up to

A reference is reversed once per kind, so a BET may have a REFUND and a ROLLBACK, and its REFUND a
ROLLBACK of its own.  `netOf` adds up the movements of the whole tree.
-/

namespace WageringProcessor

open Library.Interleaving Library.Table Relation

variable {P : Platform} {c : Config Shared Proc} {d : Database} {t b q : WagerTransaction}

/-! ## Sums over classes of rows -/

section

variable {α : Type*} {l : List α} {p p₀ p₁ p₂ p₃ : α → Bool} {f : α → Int} {a : Int}

theorem countP_eq_ite (hnodup : l.Nodup)
    (hunique : ∀ x ∈ l, ∀ y ∈ l, p x = true → p y = true → x = y) :
    l.countP p = if l.any p then 1 else 0 := by
  induction l with
  | nil => rfl
  | cons x l ih =>
    obtain ⟨hx, hnodup⟩ := List.nodup_cons.mp hnodup
    have hrest := ih hnodup fun y hy z hz =>
      hunique y (List.mem_cons_of_mem x hy) z (List.mem_cons_of_mem x hz)
    rw [List.countP_cons, List.any_cons, hrest]
    cases hpx : p x with
    | false => simp
    | true =>
      -- nothing else in the list satisfies `p`
      have hnone : l.any p = false := by
        refine List.any_eq_false.mpr fun y hy hpy => hx ?_
        rw [hunique x List.mem_cons_self y (List.mem_cons_of_mem x hy) hpx hpy]
        exact hy
      simp [hnone]

/-- A sum over rows of four classes, each with its own sign. -/
theorem sum_filter_classes (h : ∀ x ∈ l, (if p x then f x else 0) =
      a * ((if p₁ x then 1 else 0) + (if p₂ x then 1 else 0) - (if p₀ x then 1 else 0) -
        (if p₃ x then 1 else 0))) :
    ((l.filter p).map f).sum =
      a * ((l.countP p₁ : Int) + l.countP p₂ - l.countP p₀ - l.countP p₃) := by
  induction l with
  | nil => simp
  | cons x l ih =>
    have hx := h x List.mem_cons_self
    have hrest := ih fun y hy => h y (List.mem_cons_of_mem x hy)
    have hsum : (((x :: l).filter p).map f).sum =
        (if p x then f x else 0) + ((l.filter p).map f).sum := by
      rw [List.filter_cons]
      split <;> simp
    rw [hsum, hx, hrest]
    simp only [List.countP_cons, Nat.cast_add, Nat.cast_ite, Nat.cast_one, Nat.cast_zero]
    ring

end

/-! ## The tree of a bet -/

namespace Database

variable (d)

/-- `t` is `b` or refers to it, directly or through another row. -/
def chainsTo (b t : WagerTransaction) : Bool :=
  t.id = b.id || t.referenceTransactionId = some b.id ||
    d.wagerTransactions.any fun q =>
      t.referenceTransactionId = some q.id && q.referenceTransactionId = some b.id

def reversalTree (b : WagerTransaction) : List WagerTransaction :=
  d.wagerTransactions.filter fun t => t.status = .processed && d.chainsTo b t

/-- The signed ledger amounts of a transaction, CREDIT + and DEBIT -. -/
def signedAmountOf (t : WagerTransaction) : Int := ((d.entriesOf t.id).map (·.signedAmount)).sum

def netOf (b : WagerTransaction) : Int := ((d.reversalTree b).map d.signedAmountOf).sum

/-- The PROCESSED ROLLBACK of the PROCESSED REFUND of `b`. -/
def refundUndone (b : WagerTransaction) : Bool :=
  (d.findProcessedReversal b.id .refund).any fun q =>
    (d.findProcessedReversal q.id .rollback).isSome

end Database

/-- Two hops reach everything that any chain of references reaches. -/
theorem Consistent.chainsTo_iff (h : Consistent P d) (hb : b ∈ d.wagerTransactions)
    (ht : t ∈ d.wagerTransactions) :
    d.chainsTo b t = true ↔ ReflTransGen (RefersTo d) t b := by
  simp only [Database.chainsTo, Bool.or_eq_true, decide_eq_true_eq, List.any_eq_true,
    Bool.and_eq_true]
  constructor
  · rintro ((hid | hone) | ⟨q, hq, htq, hqb⟩)
    · rw [h.transaction_inj ht hb hid]
    · exact .single ⟨ht, hb, hone⟩
    · exact (ReflTransGen.single ⟨ht, hq, htq⟩).tail ⟨hq, hb, hqb⟩
  · intro hchain
    rcases ReflTransGen.cases_head hchain with rfl | ⟨q, htq, hqb⟩
    · exact Or.inl (Or.inl rfl)
    · rcases ReflTransGen.cases_head hqb with rfl | ⟨q', hqq', hrest⟩
      · exact Or.inl (Or.inr htq.2.2)
      · rcases ReflTransGen.cases_head hrest with rfl | ⟨q'', hq'', -⟩
        · exact Or.inr ⟨q, htq.2.1, htq.2.2, hqq'.2.2⟩
        · have hnone := h.two_hops htq hqq'
          rw [hq''.2.2] at hnone
          simp at hnone

theorem Consistent.mem_reversalTree (h : Consistent P d) (hb : b ∈ d.wagerTransactions) :
    t ∈ d.reversalTree b ↔ t ∈ d.wagerTransactions ∧ t.status = .processed ∧
      ReflTransGen (RefersTo d) t b := by
  rw [Database.reversalTree, List.mem_filter]
  constructor
  · rintro ⟨ht, hp⟩
    simp only [Bool.and_eq_true, decide_eq_true_eq] at hp
    exact ⟨ht, hp.1, (h.chainsTo_iff hb ht).mp hp.2⟩
  · rintro ⟨ht, hp, hchain⟩
    exact ⟨ht, by simpa [hp] using (h.chainsTo_iff hb ht).mpr hchain⟩

/-! ## The amounts in the tree -/

/-- `t` is the PROCESSED reversal of this kind of the row `id`. -/
def undoes (id : Id) (kind : WagerTransactionKind) (t : WagerTransaction) : Bool :=
  t.referenceTransactionId = some id && t.kind = kind && t.status = .processed

theorem findProcessedReversal_eq (id : Id) (kind : WagerTransactionKind) :
    d.findProcessedReversal id kind = d.wagerTransactions.find? (undoes id kind) := rfl

theorem undoes_iff {id : Id} {kind : WagerTransactionKind} : undoes id kind t = true ↔
    t.referenceTransactionId = some id ∧ t.kind = kind ∧ t.status = .processed := by
  simp [undoes, and_assoc]

theorem signedAmountOf_single {e : WalletLedgerEntry} (he : d.entriesOf t.id = [e]) :
    d.signedAmountOf t = e.signedAmount := by
  simp [Database.signedAmountOf, he]

theorem Consistent.amount_bet (h : Consistent P d) (hb : b ∈ d.wagerTransactions)
    (hk : b.kind = .bet) (hp : b.status = .processed) :
    d.signedAmountOf b = -b.money.minorUnits := by
  obtain ⟨e, he, hfor⟩ := (h.rows b hb).moved ⟨hp, by simp [hk]⟩
  rw [signedAmountOf_single he, WalletLedgerEntry.signedAmount, if_pos (hfor.debit hk), hfor.money]

/-- A reversal moves what its reference moved, the other way. -/
theorem Consistent.amount_reversal (h : Consistent P d) (hr : RefersTo d t b) :
    d.signedAmountOf t =
      if b.kind = .bet then b.money.minorUnits else -b.money.minorUnits := by
  obtain ⟨hp, hk, hrev⟩ := h.refersTo hr
  obtain ⟨e, he, hfor⟩ := h.moved hr.1 hp hk
  have hdirection : e.direction = undoDirection b.kind := hrev.direction e (by simp [he])
  rw [signedAmountOf_single he, WalletLedgerEntry.signedAmount, hdirection, hfor.money,
    ← hrev.money]
  rcases hrev.kinds hk with hkind | hkind | hkind <;> simp [hkind, undoDirection]

theorem Consistent.undoes_unique (h : Consistent P d) {id : Id} {kind : WagerTransactionKind}
    (hk : requiresReferenceFor kind = true) (ht : t ∈ d.wagerTransactions)
    (hq : q ∈ d.wagerTransactions) (htu : undoes id kind t = true)
    (hqu : undoes id kind q = true) : t = q := by
  obtain ⟨href, hkind, hp⟩ := undoes_iff.mp htu
  obtain ⟨href', hkind', hp'⟩ := undoes_iff.mp hqu
  have hrequires : t.requiresReference = true := by
    rw [WagerTransaction.requiresReference, hkind]
    exact hk
  exact h.once t ht q hq hp hp' hrequires (hkind.trans hkind'.symm) (href.trans href'.symm)

theorem Consistent.count_undoes (h : Consistent P d) (id : Id) {kind : WagerTransactionKind}
    (hk : requiresReferenceFor kind = true) : d.wagerTransactions.countP (undoes id kind) =
      if (d.findProcessedReversal id kind).isSome then 1 else 0 := by
  have hsome : (d.findProcessedReversal id kind).isSome =
      d.wagerTransactions.any (undoes id kind) := by
    rw [Bool.eq_iff_iff, findProcessedReversal_eq, List.find?_isSome, List.any_eq_true]
  rw [hsome]
  exact countP_eq_ite (List.Nodup.of_map _ h.transactionIds) fun t ht q hq =>
    h.undoes_unique hk ht hq

/-- The rollbacks of the refunds of `b`. -/
def undoesRefund (d : Database) (b t : WagerTransaction) : Bool :=
  (d.findProcessedReversal b.id .refund).any fun q => undoes q.id .rollback t

theorem Consistent.count_undoesRefund (h : Consistent P d) (b : WagerTransaction) :
    d.wagerTransactions.countP (undoesRefund d b) = if d.refundUndone b then 1 else 0 := by
  unfold undoesRefund Database.refundUndone
  cases d.findProcessedReversal b.id .refund with
  | none => simp
  | some q => simpa using h.count_undoes q.id rfl

theorem mem_of_findProcessedReversal {id : Id} {kind : WagerTransactionKind}
    (h : d.findProcessedReversal id kind = some q) :
    q ∈ d.wagerTransactions ∧ q.referenceTransactionId = some id ∧ q.kind = kind ∧
      q.status = .processed :=
  ⟨List.mem_of_find?_eq_some h, undoes_iff.mp (List.find?_some h)⟩

theorem undoesRefund_iff (h : Consistent P d) : undoesRefund d b t = true ↔
    ∃ q ∈ d.wagerTransactions, undoes b.id .refund q = true ∧ undoes q.id .rollback t = true := by
  unfold undoesRefund
  constructor
  · intro hany
    cases hfind : d.findProcessedReversal b.id .refund with
    | none => simp [hfind] at hany
    | some q =>
      obtain ⟨hq, hfacts⟩ := mem_of_findProcessedReversal hfind
      exact ⟨q, hq, undoes_iff.mpr hfacts, by simpa [hfind] using hany⟩
  · rintro ⟨q, hq, hqb, htq⟩
    cases hfind : d.findProcessedReversal b.id .refund with
    | none =>
      rw [findProcessedReversal_eq, List.find?_eq_none] at hfind
      exact absurd hqb (hfind q hq)
    | some q' =>
      obtain ⟨hq', hfacts⟩ := mem_of_findProcessedReversal hfind
      rw [h.undoes_unique rfl hq' hq (undoes_iff.mpr hfacts) hqb]
      simpa using htq

/-- What refers to a bet is its refund or its rollback. -/
theorem Consistent.refersTo_bet (h : Consistent P d) (hr : RefersTo d t b) :
    undoes b.id .refund t = true ∨ undoes b.id .rollback t = true := by
  obtain ⟨hp, hk, -⟩ := h.refersTo hr
  rcases WagerTransaction.requiresReference_iff.mp hk with hk | hk
  · exact Or.inl (undoes_iff.mpr ⟨hr.2.2, hk, hp⟩)
  · exact Or.inr (undoes_iff.mpr ⟨hr.2.2, hk, hp⟩)

/-- What refers to a reversal of a bet is the rollback of its refund. -/
theorem Consistent.refersTo_reversal (h : Consistent P d) (htq : RefersTo d t q)
    (hqb : RefersTo d q b) : undoes q.id .rollback t = true ∧ undoes b.id .refund q = true := by
  obtain ⟨hp, hk, hrev⟩ := h.refersTo htq
  obtain ⟨hp', hk', -⟩ := h.refersTo hqb
  have hq : q.kind = .refund := by
    rcases hrev.kinds hk with hkind | hkind | hkind
    · simp [WagerTransaction.requiresReference, requiresReferenceFor, hkind] at hk'
    · simp [WagerTransaction.requiresReference, requiresReferenceFor, hkind] at hk'
    · exact hkind
  have ht : t.kind = .rollback := by
    rcases WagerTransaction.requiresReference_iff.mp hk with hkind | hkind
    · simp [hrev.refund hkind] at hq
    · exact hkind
  exact ⟨undoes_iff.mpr ⟨htq.2.2, ht, hp⟩, undoes_iff.mpr ⟨hqb.2.2, hq, hp'⟩⟩

theorem Consistent.reference_bet (h : Consistent P d) (hb : b ∈ d.wagerTransactions)
    (hk : b.kind = .bet) : b.referenceTransactionId = none := by
  by_contra hsome
  have hrequires := ((h.reference_iff hb).mp (Option.isSome_iff_ne_none.mpr hsome)).2
  simp [WagerTransaction.requiresReference, requiresReferenceFor, hk] at hrequires

/-- The rows of the tree: the bet, its refund, its rollback, and the rollback of its refund. -/
theorem Consistent.tree_classes (h : Consistent P d) (hb : b ∈ d.wagerTransactions)
    (hk : b.kind = .bet) (hp : b.status = .processed) (ht : t ∈ d.wagerTransactions) :
    (if t.status = .processed && d.chainsTo b t then d.signedAmountOf t else 0) =
      b.money.minorUnits * ((if undoes b.id .refund t then 1 else 0) +
        (if undoes b.id .rollback t then 1 else 0) - (if t.id = b.id then 1 else 0) -
          (if undoesRefund d b t then 1 else 0)) := by
  -- the rollback of the refund does not name the bet
  have hother : undoesRefund d b t = true → t.referenceTransactionId ≠ some b.id ∧ t.id ≠ b.id ∧
      t.kind = .rollback := by
    intro hu
    obtain ⟨q, hq, hqb, htq⟩ := (undoesRefund_iff h).mp hu
    obtain ⟨htref, htkind, -⟩ := undoes_iff.mp htq
    obtain ⟨-, hqkind, -⟩ := undoes_iff.mp hqb
    refine ⟨fun href => ?_, fun hid => ?_, htkind⟩
    · rw [h.transaction_inj hq hb (Option.some.inj (htref.symm.trans href)), hk] at hqkind
      simp at hqkind
    · rw [h.transaction_inj ht hb hid, hk] at htkind
      simp at htkind
  by_cases hid : t.id = b.id
  · obtain rfl := h.transaction_inj ht hb hid
    have hnone := h.reference_bet hb hk
    have hu : undoesRefund d t t = false := by
      by_contra hu
      exact (hother (by simpa using hu)).2.1 rfl
    simp [hp, Database.chainsTo, h.amount_bet hb hk hp, undoes, hnone, hu]
  by_cases href : t.referenceTransactionId = some b.id
  · have hrefers : RefersTo d t b := ⟨ht, hb, href⟩
    have hamount := h.amount_reversal hrefers
    obtain ⟨htp, -, -⟩ := h.refersTo hrefers
    have hu : undoesRefund d b t = false := by
      by_contra hu
      exact (hother (by simpa using hu)).1 href
    rcases h.refersTo_bet hrefers with hundoes | hundoes
    · have hkind := (undoes_iff.mp hundoes).2.1
      simp [htp, Database.chainsTo, hid, href, hamount, hk, undoes, hkind, hu]
    · have hkind := (undoes_iff.mp hundoes).2.1
      simp [htp, Database.chainsTo, hid, href, hamount, hk, undoes, hkind, hu]
  have hdirect : ∀ kind, undoes b.id kind t = false := by
    intro kind
    simp [undoes, href]
  by_cases hchain : t.status = .processed ∧ d.chainsTo b t = true
  · obtain ⟨htp, hchain⟩ := hchain
    obtain ⟨q, hq, htq, hqb⟩ : ∃ q ∈ d.wagerTransactions, t.referenceTransactionId = some q.id ∧
        q.referenceTransactionId = some b.id := by
      simpa [Database.chainsTo, hid, href] using hchain
    have hrefers : RefersTo d t q := ⟨ht, hq, htq⟩
    have hrefers' : RefersTo d q b := ⟨hq, hb, hqb⟩
    obtain ⟨htu, hqu⟩ := h.refersTo_reversal hrefers hrefers'
    have hu : undoesRefund d b t = true := (undoesRefund_iff h).mpr ⟨q, hq, hqu, htu⟩
    have hamount := h.amount_reversal hrefers
    have hmoney : b.money = q.money := (h.refersTo hrefers').2.2.money
    simp [htp, hchain, hamount, (undoes_iff.mp hqu).2.1, hdirect, hid, hu, hmoney]
  · have hu : undoesRefund d b t = false := by
      by_contra hu
      obtain ⟨q, hq, hqb, htq⟩ := (undoesRefund_iff h).mp (by simpa using hu)
      obtain ⟨htref, -, htp⟩ := undoes_iff.mp htq
      refine hchain ⟨htp, ?_⟩
      have hany : d.wagerTransactions.any (fun q => t.referenceTransactionId = some q.id &&
          q.referenceTransactionId = some b.id) = true :=
        List.any_eq_true.mpr ⟨q, hq, by simp [htref, (undoes_iff.mp hqb).1]⟩
      simp [Database.chainsTo, hany]
    rw [if_neg (by simpa using hchain)]
    simp [hdirect, hid, hu]

/-! ## The net amount -/

theorem Consistent.netOf_eq (h : Consistent P d) (hb : b ∈ d.wagerTransactions)
    (hk : b.kind = .bet) (hp : b.status = .processed) : d.netOf b = b.money.minorUnits *
      ((if (d.findProcessedReversal b.id .refund).isSome then 1 else 0) +
        (if (d.findProcessedReversal b.id .rollback).isSome then 1 else 0) - 1 -
          (if d.refundUndone b then 1 else 0)) := by
  have hclasses : ∀ t ∈ d.wagerTransactions,
      (if (t.status = .processed && d.chainsTo b t : Bool) then d.signedAmountOf t else 0) =
        b.money.minorUnits * ((if undoes b.id .refund t then 1 else 0) +
          (if undoes b.id .rollback t then 1 else 0) - (if decide (t.id = b.id) then 1 else 0) -
            (if undoesRefund d b t then 1 else 0)) := by
    intro t ht
    simpa using h.tree_classes hb hk hp ht
  have hself : d.wagerTransactions.countP (fun t => t.id = b.id) = 1 := by
    rw [countP_eq_ite (List.Nodup.of_map _ h.transactionIds), if_pos]
    · exact List.any_eq_true.mpr ⟨b, hb, by simp⟩
    · intro x hx y hy hxb hyb
      exact h.transaction_inj hx hy (by simp_all)
  unfold Database.netOf Database.reversalTree
  rw [sum_filter_classes hclasses, hself, h.count_undoes b.id rfl, h.count_undoes b.id rfl,
    h.count_undoesRefund b]
  simp only [Nat.cast_ite, Nat.cast_one, Nat.cast_zero]

/-- The reversals of a BET never pay back more than was staked, unless it was both refunded and
rolled back and its REFUND stands: then they pay back the stake twice. -/
theorem reachable_netOf (h : Reachable (step P) initial c)
    (hb : b ∈ c.shared.db.wagerTransactions) (hk : b.kind = .bet) (hp : b.status = .processed) :
    (∀ t, t ∈ c.shared.db.reversalTree b ↔ t ∈ c.shared.db.wagerTransactions ∧
      t.status = .processed ∧ ReflTransGen (RefersTo c.shared.db) t b) ∧
    (((c.shared.db.findProcessedReversal b.id .refund).isSome = true ∧
        (c.shared.db.findProcessedReversal b.id .rollback).isSome = true ∧
          c.shared.db.refundUndone b = false) →
      c.shared.db.netOf b = b.money.minorUnits) ∧
    (¬((c.shared.db.findProcessedReversal b.id .refund).isSome = true ∧
        (c.shared.db.findProcessedReversal b.id .rollback).isSome = true ∧
          c.shared.db.refundUndone b = false) →
      c.shared.db.netOf b ≤ 0) := by
  have hc := reachable_consistent h
  have hnet := hc.netOf_eq hb hk hp
  have hpositive : 0 ≤ b.money.minorUnits := (hc.rows b hb).identity.money
  refine ⟨fun t => hc.mem_reversalTree hb, ?_, ?_⟩
  · rintro ⟨hrefund, hrollback, hundone⟩
    simpa [hrefund, hrollback, hundone] using hnet
  · intro hcondition
    have hfactor : ((if (c.shared.db.findProcessedReversal b.id .refund).isSome then 1 else 0) +
        (if (c.shared.db.findProcessedReversal b.id .rollback).isSome then 1 else 0) - 1 -
          (if c.shared.db.refundUndone b then 1 else 0) : Int) ≤ 0 := by
      have hundone : c.shared.db.refundUndone b = true →
          (c.shared.db.findProcessedReversal b.id .refund).isSome = true := by
        unfold Database.refundUndone
        cases c.shared.db.findProcessedReversal b.id .refund <;> simp
      split <;> split <;> split <;> simp_all
    rw [hnet]
    exact Int.mul_nonpos_of_nonneg_of_nonpos hpositive hfactor

theorem refundAndRollback_bet : ∃ c, Reachable (step localPlatform) initial c ∧
    ∃ b ∈ c.shared.db.wagerTransactions, b.kind = .bet ∧ b.status = .processed ∧
      b.money = ⟨3000, brl⟩ ∧ (c.shared.db.findProcessedReversal b.id .refund).isSome = true ∧
        (c.shared.db.findProcessedReversal b.id .rollback).isSome = true ∧
          c.shared.db.refundUndone b = false ∧ c.shared.db.netOf b = 3000 := by
  have hrun : (exec (step localPlatform) initial refundAndRollback).any (fun c =>
      c.shared.db.wagerTransactions.any fun b => b.kind = .bet && b.status = .processed &&
        b.money = ⟨3000, brl⟩ && (c.shared.db.findProcessedReversal b.id .refund).isSome &&
          (c.shared.db.findProcessedReversal b.id .rollback).isSome &&
            c.shared.db.refundUndone b = false && c.shared.db.netOf b = 3000) = true := by
    decide +kernel
  obtain ⟨c, hreach, hany⟩ := reachable_of_any hrun
  obtain ⟨b, hb, hfacts⟩ := List.any_eq_true.mp hany
  simp only [Bool.and_eq_true, decide_eq_true_eq, and_assoc] at hfacts
  exact ⟨c, hreach, b, hb, hfacts⟩

theorem refundAndRollback_netOf : ∃ c, Reachable (step localPlatform) initial c ∧
    ∃ b ∈ c.shared.db.wagerTransactions, b.kind = .bet ∧
      c.shared.db.netOf b = b.money.minorUnits := by
  obtain ⟨c, hreach, b, hb, hk, hp, -, hrefund, hrollback, hundone, -⟩ := refundAndRollback_bet
  exact ⟨c, hreach, b, hb, hk, (reachable_netOf hreach hb hk hp).2.1 ⟨hrefund, hrollback, hundone⟩⟩

/-- A BET that was refunded and rolled back pays back more than was staked. -/
theorem netOf_not_nonpos : ¬∀ c, Reachable (step localPlatform) initial c →
    ∀ b ∈ c.shared.db.wagerTransactions, b.kind = .bet → b.status = .processed →
      c.shared.db.netOf b ≤ 0 := by
  intro hall
  obtain ⟨c, hreach, b, hb, hk, hp, -, -, -, -, hnet⟩ := refundAndRollback_bet
  have hle := hall c hreach b hb hk hp
  omega

end WageringProcessor
