import WageringProcessor.Invariants.Resolution
import WageringProcessor.UseCases.Serial

/-!
# The decision of a submit is still right when it commits

While a submit holds its wallet and its keys, the others may change what is found for its reference
in two ways only: a reference that was not there appears in another wallet, or one that waited is
rejected.  Either way it is not one that the submit could apply.
-/

namespace WageringProcessor

open Library.Interleaving (Pid)
open Library.Table WagerTransactionFinalizer

variable {P : Platform} {i : Pid} {s s' : Shared} {d d' : Database} {own own' : Resource → Prop}
  {cmd : SubmitWagerTransactionCommand} {inp : Input} {stage stage' : SubmitStage}
  {wallet : Wallet} {tx t b x : WagerTransaction} {ctx : EventContext}
  {resolution : Option ReferenceResolution} {ws : List Writes}
  {result : SubmitWagerTransactionResult} {looked looked' : Query → Database → Prop}

theorem NewId.stable {id : Id} (hown : ∀ k, own k → own' k) (f : Frame own d d')
    (h : NewId own d id) : NewId own' d' id := by
  refine ⟨hown _ h.owns, fun m hm hid => ?_⟩
  obtain ⟨m₀, hm₀, hid₀⟩ := f.messageId m hm (hid ▸ h.owns)
  exact h.fresh m₀ hm₀ (hid₀.trans hid)

theorem newMessageIds_pair {id id' : Id} (h : NewId own d id) (h' : NewId own d id')
    (hne : id ≠ id') : d.NewMessageIds [id, id'] := by
  refine ⟨by simpa using hne, fun m hm hmem => ?_⟩
  rcases List.mem_pair.mp hmem with hid | hid
  · exact h.fresh m hm hid
  · exact h'.fresh m hm hid

/-! ## The view with the claim -/

/-- The claim comes after the committed rows. -/
theorem Claimed.named_apply (h : Claimed P own d tx) :
    (d.apply (Submit.claimWrites P tx)).named tx = (d.named tx).or
      (if tx.externalTransactionId = tx.referenceExternalTransactionId.getD "" then
        some (toWagerTransactionEntity P tx) else none) := by
  have hrows : (d.apply (Submit.claimWrites P tx)).wagerTransactions =
      d.wagerTransactions ++ [toWagerTransactionEntity P tx] := upsert_of_fresh h.newId
  unfold Database.named Database.findByProviderAndExternalId
  rw [hrows]
  unfold lookup
  rw [List.find?_append, List.find?_singleton]
  simp [toWagerTransactionEntity]

theorem Claimed.notReversed_apply (h : Claimed P own d tx) :
    NotReversed (d.apply (Submit.claimWrites P tx)) tx b ↔ NotReversed d tx b := by
  constructor
  · intro hopen t ht hp
    exact hopen t (Submit.mem_claimView.mpr (Or.inr ⟨ht, h.newId t ht⟩)) hp
  · intro hopen t ht hp
    rcases Submit.mem_claimView.mp ht with rfl | ⟨ht, -⟩
    · -- the claim is PENDING
      have hstatus := congrArg (·.status) h.created
      cases hp.symm.trans hstatus
    · exact hopen t ht hp

theorem Consistent.named (hc : Consistent P d) (ht : t ∈ d.wagerTransactions)
    (hprovider : t.providerId = tx.providerId)
    (hexternal : t.externalTransactionId = tx.referenceExternalTransactionId.getD "") :
    d.named tx = some t := by
  have hkey := lookup_of_mem hc.externalIds ht
  rw [hprovider, hexternal] at hkey
  exact hkey

/-- The named row of a later database. -/
theorem Keeps.named (f : Keeps d d') (hc' : Consistent P d') (hnamed : d.named tx = some x) :
    ∃ x', d'.named tx = some x' ∧
      x'.toCreateWagerTransactionProps = x.toCreateWagerTransactionProps ∧
        (x.isTerminal = true → x' = x) := by
  obtain ⟨hx, hprovider, hexternal⟩ := named_mem hnamed
  by_cases hterminal : x.isTerminal = true
  · exact ⟨x, hc'.named (f.terminal x hx hterminal) hprovider hexternal, rfl, fun _ => rfl⟩
  · obtain ⟨x', hx', hprops⟩ := f.rows x hx
    refine ⟨x', hc'.named hx' ?_ ?_, hprops, fun h => absurd h hterminal⟩
    · exact (congrArg (·.providerId) hprops).trans hprovider
    · exact (congrArg (·.externalTransactionId) hprops).trans hexternal

theorem Keeps.later (f : Keeps d d') (hc' : Consistent P d') : Later d d' tx :=
  ⟨fun _ hnamed => f.named hc' hnamed, fun t ht hp => f.terminal t ht (isTerminal_of_processed hp)⟩

namespace Submit

theorem Ready.later (h : Ready P own d cmd wallet tx) (h' : Ready P own' d' cmd wallet tx)
    (hc' : Consistent P d') (f : Frame own d d') :
    Later (d.apply (claimWrites P tx)) (d'.apply (claimWrites P tx)) tx := by
  constructor
  · intro x hnamed
    rw [h.claimed.named_apply] at hnamed
    rw [h'.claimed.named_apply]
    cases hfound : d.named tx with
    | some y =>
      rw [hfound] at hnamed
      obtain rfl := Option.some.inj hnamed
      obtain ⟨x', hfound', hrest⟩ := f.named hc' hfound
      rw [hfound']
      exact ⟨x', rfl, hrest⟩
    | none =>
      -- the reversal names itself, and nobody else can take its place
      rw [hfound, Option.none_or] at hnamed
      obtain ⟨hself, hsame⟩ := Option.ite_none_right_eq_some.mp hnamed
      have hnone : d'.named tx = none := by
        rw [Option.eq_none_iff_forall_ne_some]
        intro y hy
        obtain ⟨hmem, hprovider, hexternal⟩ := named_mem hy
        exact h'.claimed.newExternal y hmem (by rw [hprovider, hexternal, hself])
      rw [hnone, Option.none_or, if_pos hself]
      exact ⟨x, hsame, rfl, fun _ => rfl⟩
  · intro t ht hp
    rcases mem_claimView.mp ht with rfl | ⟨ht, hne⟩
    · exact mem_claimView.mpr (Or.inl rfl)
    · exact mem_claimView.mpr (Or.inr ⟨f.terminal t ht (isTerminal_of_processed hp), hne⟩)

theorem resolve_eq_some {r : ReferenceResolution} (hrequires : tx.requiresReference = true) :
    resolve P d tx = .ok (some r) ↔ resolveReference (d.apply (claimWrites P tx)) tx = .ok r := by
  unfold resolve
  rw [if_pos hrequires]
  constructor
  · intro h
    obtain ⟨found, hfound, hsome⟩ := ok_of_map h
    obtain rfl := Option.some.inj hsome
    exact hfound
  · intro h
    rw [h]
    rfl

/-! ## What stands of a resolution -/

/-- `resolution` is what is found for the reference of `tx`, or it is that nothing was found and
nothing is that could be applied. -/
def Stands (P : Platform) (looked : Query → Database → Prop) (d : Database)
    (tx : WagerTransaction) : Option ReferenceResolution → Prop
  | some .pending => (∃ v, looked (.reference tx) v ∧ resolve P v tx = .ok (some .pending)) ∧
      ∀ b, resolve P d tx ≠ .ok (some (.resolved b))
  | resolution => resolve P d tx = .ok resolution

theorem Stands.of_resolve (h : resolve P d tx = .ok resolution)
    (hlooked : resolution = some .pending → looked (.reference tx) d) :
    Stands P looked d tx resolution := by
  match resolution, h, hlooked with
  | none, h, _ => exact h
  | some (.rejected _), h, _ => exact h
  | some (.resolved _), h, _ => exact h
  | some .pending, h, hlooked =>
    refine ⟨⟨d, hlooked rfl, h⟩, fun b hb => ?_⟩
    cases h.symm.trans hb

theorem Stands.stable (h : Stands P looked d tx resolution) (hready : Ready P own d cmd wallet tx)
    (hok : ResolutionOk P d tx resolution) (hc : Consistent P d) (hc' : Consistent P d')
    (hown : ∀ k, own k → own' k) (f : Frame own d d') (hlooked : ∀ q v, looked q v → looked' q v) :
    Stands P looked' d' tx resolution := by
  have hready' := hready.stable hown f
  have hlater := hready.later hready' hc' f
  obtain ⟨r, hheld⟩ := hready.held
  match resolution, h, hok with
  | none, h, hok =>
    unfold Stands resolve
    rw [if_neg (Bool.not_eq_true _ ▸ hok)]
  | some (.rejected code), h, hok =>
    have hrequires : tx.requiresReference = true := by
      by_contra hno
      unfold Stands resolve at h
      rw [if_neg hno] at h
      cases Except.ok.inj h
    have hmissing := hready.missing hrequires
    exact (resolve_eq_some hrequires).mpr
      (hlater.rejected hmissing ((resolve_eq_some hrequires).mp h))
  | some (.resolved b), h, hok =>
    have hrequires := ReferenceOk.requires hok
    have hmissing := hready.missing hrequires
    have hresolve := (resolve_eq_some hrequires).mp h
    refine (resolve_eq_some hrequires).mpr ?_
    rcases hlater.resolved hmissing hresolve with ⟨-, hresolved⟩ | ⟨hreversed, -⟩
    · exact hresolved
    · -- no other call reverses a transaction of the wallet that is locked
      refine absurd ?_ hreversed
      rw [hready'.claimed.notReversed_apply]
      refine NotReversed.stable ?_ hc' f hheld hok hrequires
      rw [← hready.claimed.notReversed_apply]
      rw [resolveReference_eq hmissing] at hresolve
      exact (resolveNamed_resolved (Except.ok.inj hresolve)).2.2.2.2
  | some .pending, ⟨⟨v, hasked, hunresolved⟩, hopen⟩, hok =>
    have hmissing := hready.missing hok
    refine ⟨⟨v, hlooked _ _ hasked, hunresolved⟩, fun b hb => ?_⟩
    refine hlater.unresolved hmissing (fun hbefore => hopen b ((resolve_eq_some hok).mpr hbefore))
      ?_
      ((resolve_eq_some hok).mp hb)
    intro hprocessed hwallet hnamed
    rw [hready'.claimed.named_apply] at hnamed
    rw [hready.claimed.named_apply]
    cases hfound : d'.named tx with
    | none =>
      rw [hfound, Option.none_or] at hnamed
      obtain ⟨-, hclaim⟩ := Option.ite_none_right_eq_some.mp hnamed
      rw [← Option.some.inj hclaim] at hprocessed
      have hstatus := congrArg (·.status) hready.claimed.created
      cases hprocessed.symm.trans hstatus
    | some y =>
      rw [hfound] at hnamed
      obtain rfl := Option.some.inj hnamed
      obtain ⟨hmem, hprovider, hexternal⟩ := named_mem hfound
      have hcanonical := (hc'.rows y hmem).identity.wallet
      have hid : y.walletId = r.id := by
        rw [hheld.named, ← hwallet, Platform.canonical_of_uuid hcanonical]
      have hbefore := f.processed r hheld.row hheld.owns y hmem hprocessed hid
      rw [hc.named hbefore hprovider hexternal]
      rfl

/-! ## The stages -/

/-- What the call is about to commit: the decision on a resolution that stands. -/
inductive Committing (P : Platform) (looked : Query → Database → Prop) (own : Resource → Prop)
    (d : Database) (cmd : SubmitWagerTransactionCommand) :
    List Writes → SubmitWagerTransactionResult → Prop
  | intro {wallet : Wallet} {tx : WagerTransaction} {resolution : Option ReferenceResolution}
      (correlationId : Id) (newId : Nat → Id) (ready : Ready P own d cmd wallet tx)
      (resolves : ResolutionOk P d tx resolution) (stands : Stands P looked d tx resolution)
      (amount : AmountOk wallet tx resolution) (first : NewId own d (newId 1))
      (second : NewId own d (newId 2)) (distinct : newId 1 ≠ newId 2) :
      Committing P looked own d cmd
        [claimWrites P tx,
          (decision P wallet tx (eventContext cmd tx correlationId) newId resolution).2.2]
        ⟨(decision P wallet tx (eventContext cmd tx correlationId) newId resolution).1, false,
          (decision P wallet tx (eventContext cmd tx correlationId) newId resolution).2.1.balance⟩

/-- A row has the key of the call, or what it submits. -/
def Taken (d : Database) (cmd : SubmitWagerTransactionCommand) : Prop :=
  (∃ t ∈ d.wagerTransactions, t.idempotencyKey = cmd.idempotencyKey) ∨ ExternalTaken d cmd

/-- The context of the events was made for `tx`. -/
def ContextOf (cmd : SubmitWagerTransactionCommand) (tx : WagerTransaction) (ctx : EventContext) :
    Prop := ∃ correlationId, ctx = eventContext cmd tx correlationId

def Linear (P : Platform) (looked : Query → Database → Prop) (own : Resource → Prop) (d : Database)
    (cmd : SubmitWagerTransactionCommand) : SubmitStage → Prop
  | .findReference _ tx ctx => ContextOf cmd tx ctx
  | .findReversal _ tx ctx reference => ContextOf cmd tx ctx ∧
      Eligible (d.apply (claimWrites P tx)) tx reference
  | .finalize _ tx ctx resolution => ContextOf cmd tx ctx ∧ Stands P looked d tx resolution
  | .commit writes result => Committing P looked own d cmd writes result
  | .findByKey => Taken d cmd
  | .findByExternal => ExternalTaken d cmd
  | .threw err => ∀ text, err ≠ .domain (.transientProcessing text)
  | _ => True

theorem Taken.stable (h : Taken d cmd) (hk : Keeps d d') : Taken d' cmd := by
  rcases h with ⟨t, ht, hkey⟩ | h
  · obtain ⟨t', ht', hprops⟩ := hk.rows t ht
    exact Or.inl ⟨t', ht', (congrArg (·.idempotencyKey) hprops).trans hkey⟩
  · exact Or.inr (h.stable hk)

theorem Committing.stable (h : Committing P looked own d cmd ws result) (hc : Consistent P d)
    (hc' : Consistent P d') (hown : ∀ k, own k → own' k) (f : Frame own d d')
    (hlooked : ∀ q v, looked q v → looked' q v) : Committing P looked' own' d' cmd ws result := by
  obtain ⟨correlationId, newId, ready, resolves, stands, amount, first, second, distinct⟩ := h
  exact .intro correlationId newId (ready.stable hown f) (resolves.stable f)
    (stands.stable ready resolves hc hc' hown f hlooked) amount (first.stable hown f)
    (second.stable hown f) distinct

theorem Linear.stable (h : Linear P looked own d cmd stage) (hok : Ok P own d cmd stage)
    (hc : Consistent P d) (hc' : Consistent P d') (hown : ∀ k, own k → own' k)
    (f : Frame own d d') (hlooked : ∀ q v, looked q v → looked' q v) :
    Linear P looked' own' d' cmd stage := by
  cases stage with
  | findReference => exact h
  | findReversal wallet tx ctx reference =>
    have hready : Ready P own d cmd wallet tx := hok.1
    exact ⟨h.1, h.2.later (hready.later (hready.stable hown f) hc' f)⟩
  | finalize wallet tx ctx resolution =>
    exact ⟨h.1, h.2.stable hok.1 hok.2 hc hc' hown f hlooked⟩
  | commit => exact Committing.stable h hc hc' hown f hlooked
  | findByKey => exact Taken.stable h f.toKeeps
  | findByExternal => exact ExternalTaken.stable h f.toKeeps
  | threw => exact h
  | begin | lockWallet | claimKey | claimExternal | findWallet | returned => trivial

/-! ## A step -/

/-- A decision on a resolution that stands is no second reversal. -/
theorem Stands.once {newId : Nat → Id} (h : Stands P looked d tx resolution)
    (ht : t ∈ (decision P wallet tx ctx newId resolution).2.2.wagerTransactions) :
    (d.apply (claimWrites P tx)).violatesReferenceOnce t = false := by
  match resolution, h, ht with
  | some .pending, _, ht =>
    obtain rfl := List.mem_singleton.mp ht
    refine not_violatesReferenceOnce ?_
    show WagerTransactionStatus.pendingReference ≠ .processed
    decide
  | none, h, ht => exact resolve_once h ht
  | some (.rejected _), h, ht => exact resolve_once h ht
  | some (.resolved _), h, ht => exact resolve_once h ht

/-- The call decides on a resolution that stands, or throws as it would have at once. -/
theorem step_finalize_commits (hc : Consistent P s.db) (hd : Drawn s.drawn s.db)
    (hok : Ok P (owns s i) s.db cmd (.finalize wallet tx ctx resolution))
    (h : Linear P looked (owns s i) s.db cmd (.finalize wallet tx ctx resolution))
    (hstep : step P cmd i inp s (.finalize wallet tx ctx resolution) = some (s', stage')) :
    (∃ ws result, stage' = .commit ws result ∧
      Committing P looked (owns s' i) s'.db cmd ws result) ∨
      stage' = .threw (.domain .unbalancedLedgerEntry) ∧
        ∃ g, execute P s.db cmd g = .error (.domain .unbalancedLedgerEntry) := by
  obtain ⟨⟨correlationId, rfl⟩, hstands⟩ := h
  have hok' := hok
  obtain ⟨hready, hresolution⟩ := hok
  by_cases hamount : AmountOk wallet tx resolution
  · left
    rcases step_finalize_decides hc hd hok' hamount hstep with
      ⟨out, rfl, hflush, rfl, hready'⟩ | ⟨⟨t, ht, hviolates⟩, -⟩
    · obtain ⟨s₁, hdraw, hrest⟩ := Option.bind_eq_some_iff.mp hstep
      have hdraws := draw_draws hdraw
      rw [decide_eq hc hready hresolution hamount] at hrest
      dsimp only at hrest
      rw [hdraws.db, hflush] at hrest
      obtain ⟨rfl, -⟩ := Prod.mk.inj (Option.some.inj hrest)
      have hd₁ : Drawn s.drawn s₁.db := hdraws.db ▸ hd
      have hne : inp.newId 1 ≠ inp.newId 2 := by
        have hnodup := hdraws.nodup
        simp only [List.nodup_cons, List.mem_cons, List.not_mem_nil, or_false] at hnodup
        exact hnodup.2.1
      exact ⟨_, _, rfl, .intro correlationId inp.newId hready' (hdraws.db ▸ hresolution)
        (hdraws.db ▸ hstands) hamount (hdraws.newId hd₁ (by simp)) (hdraws.newId hd₁ (by simp))
        hne⟩
    · rw [hstands.once ht] at hviolates
      cases hviolates
  · right
    obtain rfl : resolution = none := by
      by_contra hsome
      exact hamount fun hnone => absurd hnone hsome
    obtain ⟨s₁, -, hrest⟩ := Option.bind_eq_some_iff.mp hstep
    rw [decide_zero hready hc hresolution hamount] at hrest
    obtain ⟨-, rfl⟩ := Prod.mk.inj (Option.some.inj hrest)
    refine ⟨rfl, rowGenerated tx correlationId inp.newId, ?_⟩
    rw [hready.execute_eq hc rfl rfl, resolveAndSettle,
      show resolve P s.db tx = .ok none from hstands]
    show settle P wallet tx _ inp.newId none = _
    rw [settle, decide_zero hready hc hresolution hamount]

theorem create_not_transient {props : CreateWagerTransactionProps} {err : DomainError}
    (h : WagerTransaction.create props = .error err) (text : String) :
    err ≠ .transientProcessing text := by
  rintro rfl
  unfold WagerTransaction.create at h
  split at h
  · cases h
  · split at h <;> cases h

theorem step_linear (hc : Consistent P s.db) (hd : Drawn s.drawn s.db)
    (hok : Ok P (owns s i) s.db cmd stage) (h : Linear P looked (owns s i) s.db cmd stage)
    (hlooked : ∀ q, query stage = some q → looked q s.db)
    (hstep : step P cmd i inp s stage = some (s', stage')) :
    Linear P looked (owns s' i) s'.db cmd stage' := by
  have hdb := (step_way hstep).db
  cases step_way hstep with
  | begin | drafted | keyClaimed | sameKey | replayed => trivial
  | opening | noUuid | noWallet | otherPlayer | unclaimable | otherPayload | otherKey =>
    intro text htext
    cases htext
  | invalid _ _ _ create =>
    intro text htext
    exact create_not_transient create text (Exception.domain.inj htext)
  | keyTaken _ _ taken =>
    obtain ⟨t, hfound⟩ := Option.isSome_iff_exists.mp taken
    obtain ⟨ht, hkey⟩ := lookup_mem hfound
    rw [hdb]
    exact Or.inl ⟨t, ht, hkey.trans (Drafted.key hok)⟩
  | externalTaken _ taken =>
    obtain ⟨t, hfound⟩ := Option.isSome_iff_exists.mp taken
    obtain ⟨ht, hkey⟩ := lookup_mem hfound
    rw [hdb]
    exact Or.inr ⟨t, ht, hkey.trans hok.1.external⟩
  | referring => exact ⟨inp.newId 0, rfl⟩
  | unreferring _ _ _ requires =>
    exact ⟨⟨inp.newId 0, rfl⟩, if_neg (Bool.not_eq_true _ ▸ requires)⟩
  -- the reference of a reversal is never missing
  | unnamed finds => exact absurd finds (findReference_named (hok.1.missing hok.2))
  | found finds => exact ⟨h, eligible_of_findReference finds⟩
  | unresolved finds unresolved =>
    exact ⟨h, .of_resolve ((resolve_eq_some hok.2).mpr (resolveReference_of_find finds unresolved))
      fun _ => hlooked _ rfl⟩
  | @resolved wallet tx ctx reference =>
    obtain ⟨hcontext, heligible⟩ := h
    have hrequires := hok.2.1
    refine ⟨hcontext, .of_resolve ((resolve_eq_some hrequires).mpr
      (resolveReference_of_eligible heligible (hok.1.missing hrequires))) fun hpending => ?_⟩
    rcases findReversal_eq (s.db.apply (claimWrites P tx)) tx reference with ⟨-, hfind⟩ | ⟨-, hfind⟩
    · cases hfind.symm.trans (Option.some.inj hpending)
    · cases hfind.symm.trans (Option.some.inj hpending)
  | undecided | duplicated | unflushed | decided =>
    rcases step_finalize_commits hc hd hok h hstep with ⟨ws, result, heq, hcommitting⟩ | ⟨heq, -⟩
    · rw [heq]
      exact hcommitting
    · rw [heq]
      intro text htext
      cases htext
  | noKey missing =>
    rcases h with ⟨t, ht, hkey⟩ | hexternal
    · exact absurd hkey (lookup_eq_none.mp missing t ht)
    · exact hexternal
  | unexplained missing =>
    obtain ⟨t, ht, hexternal⟩ := h
    exact absurd hexternal (lookup_eq_none.mp missing t ht)

/-! ## The serial step -/

theorem Ready.execute_resolved {correlationId : Id} {newId : Nat → Id}
    (h : Ready P own d cmd wallet tx) (hc : Consistent P d)
    (hresolution : ResolutionOk P d tx resolution) (hamount : AmountOk wallet tx resolution)
    (hresolve : resolve P d tx = .ok resolution) :
    execute P d cmd (rowGenerated tx correlationId newId) = .ok
      (⟨(decision P wallet tx (eventContext cmd tx correlationId) newId resolution).1, false,
          (decision P wallet tx (eventContext cmd tx correlationId) newId resolution).2.1.balance⟩,
        [claimWrites P tx,
          (decision P wallet tx (eventContext cmd tx correlationId) newId resolution).2.2]) := by
  rw [h.execute_eq hc rfl rfl, resolveAndSettle, hresolve]
  show settle P wallet tx (eventContext cmd tx correlationId) newId resolution = _
  rw [settle, decide_eq hc h hresolution hamount]

theorem Ready.park_eq {correlationId : Id} {newId : Nat → Id} {code : FailureCode}
    (h : Ready P own d cmd wallet tx) (hc : Consistent P d)
    (hrequires : ResolutionOk P d tx (some .pending))
    (hrefused : resolve P d tx = .ok (some (.rejected code))) :
    park P d cmd (rowGenerated tx correlationId newId) = some
      (⟨(decision P wallet tx (eventContext cmd tx correlationId) newId (some .pending)).1, false,
          (decision P wallet tx (eventContext cmd tx correlationId) newId
            (some .pending)).2.1.balance⟩,
        [claimWrites P tx,
          (decision P wallet tx (eventContext cmd tx correlationId) newId
            (some .pending)).2.2]) := by
  obtain ⟨r, hheld⟩ := h.held
  have hfound : d.findWallet wallet.id = some wallet := by
    rw [hheld.read]
    exact hc.findWallet hheld.row
  have hamount : AmountOk wallet tx (some .pending) := by
    intro hnone
    cases hnone
  unfold park
  rw [h.walletId, Option.bind_eq_bind, Option.bind_some, hfound, Option.bind_eq_bind,
    Option.bind_some]
  show ((WagerTransaction.create (props P cmd tx.id tx.createdAt)).toOption).bind _ = _
  rw [h.create_eq]
  simp only [Except.toOption, Option.bind_some, hrefused]
  rw [settle, decide_eq hc h hrequires hamount]
  rfl

/-- What the call commits is what it would have done, taken whole, on the database it commits to. -/
theorem Committing.serial (h : Committing P looked own d cmd ws result) (hc : Consistent P d) :
    ∃ g, Serial P looked d cmd g result ws := by
  obtain ⟨correlationId, newId, ready, resolves, stands, amount, first, second, distinct⟩ := h
  rename_i wallet tx resolution
  have hfresh : (rowGenerated tx correlationId newId).Fresh d :=
    ⟨ready.newId, newMessageIds_pair first second distinct⟩
  refine ⟨rowGenerated tx correlationId newId, ?_⟩
  match resolution, resolves, stands, amount with
  | none, resolves, stands, amount =>
    exact .decides hfresh (ready.execute_resolved hc resolves amount stands) rfl
  | some (.rejected code), resolves, stands, amount =>
    exact .decides hfresh (ready.execute_resolved hc resolves amount stands) rfl
  | some (.resolved b), resolves, stands, amount =>
    exact .decides hfresh (ready.execute_resolved hc resolves amount stands) rfl
  | some .pending, resolves, stands, amount =>
    have hnamed := ready.missing resolves
    cases hfound : resolveNamed (d.apply (claimWrites P tx)) tx
        ((d.apply (claimWrites P tx)).named tx) with
    | pending =>
      refine .decides hfresh (ready.execute_resolved hc resolves amount ?_) rfl
      rw [resolve_eq_some resolves, resolveReference_eq hnamed, hfound]
    | rejected code =>
      have hresolve : resolve P d tx = .ok (some (.rejected code)) := by
        rw [resolve_eq_some resolves, resolveReference_eq hnamed, hfound]
      have hamount : AmountOk wallet tx (some (.rejected code)) := by
        intro hnone
        cases hnone
      have hfits : ResolutionOk P d tx (some (.rejected code)) :=
        rejected_fits resolves ((resolve_eq_some resolves).mp hresolve)
      obtain ⟨⟨v, hasked, hunresolved⟩, -⟩ := stands
      exact .parks hfresh (ready.execute_resolved hc hfits hamount hresolve) rfl ready.create_eq
        hasked hunresolved
        (ready.park_eq hc resolves hresolve)
    | resolved b =>
      refine absurd ?_ (stands.2 b)
      rw [resolve_eq_some resolves, resolveReference_eq hnamed, hfound]

end Submit

end WageringProcessor
