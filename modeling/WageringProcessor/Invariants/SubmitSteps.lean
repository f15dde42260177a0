import WageringProcessor.Invariants.Holding

/-!
# What a step of a submit can do

`Way` has one constructor for each way through a step of `execute`, with the locks and ids that it
takes, what it reads and where it goes.  The facts about `step` are proved of it, case by case.
-/

namespace WageringProcessor

open Library.Interleaving (Pid)
open Library.Table WagerTransactionFinalizer

theorem draw_db {P : Platform} {i : Pid} {s s' : Shared} {ids : List Id}
    (h : s.draw i P ids = some s') : s'.db = s.db := (draw_draws h).db

theorem take_db {i : Pid} {s s' : Shared} {keys : List Resource} (h : s.take i keys = some s') :
    s'.db = s.db := (take_acquires h).db

namespace Submit

variable (P : Platform) (cmd : SubmitWagerTransactionCommand) (i : Pid) (inp : Input) (s : Shared)

/-- The wallet of the command is the row `r`, and the call takes its lock. -/
structure LocksWallet (s₁ : Shared) (r : WalletRow) : Prop where
  row : r ∈ s.db.wallets
  uuid : P.uuid cmd.walletId = some r.id
  takes : s.take i [.wallet r.id] = some s₁

/-- The context of the events of `tx`. -/
def contextOf (tx : WagerTransaction) : EventContext :=
  ⟨cmd.correlationId.getD (inp.newId 0), cmd.causationId, tx.createdAt⟩

inductive Way : SubmitStage → Shared → SubmitStage → Prop
  | opening (kind : cmd.kind = .opening) : Way .begin s (.threw (.domain openingNotAccepted))
  | begin (kind : cmd.kind ≠ .opening) : Way .begin s (.lockWallet inp.now)
  -- the wallet
  | noUuid {now : Date} (uuid : P.uuid cmd.walletId = none) :
      Way (.lockWallet now) (s.giveBack i Resource.ofSubmit) (.threw .database)
  | noWallet {now : Date} {id : Id} (uuid : P.uuid cmd.walletId = some id)
      (missing : s.db.findWallet id = none) :
      Way (.lockWallet now) (s.giveBack i Resource.ofSubmit)
        (.threw (.domain (.walletNotFound cmd.walletId)))
  | otherPlayer {now : Date} {s₁ : Shared} {r : WalletRow} (locks : LocksWallet P cmd i s s₁ r)
      (player : r.playerId ≠ cmd.playerId) :
      Way (.lockWallet now) (s₁.giveBack i Resource.ofSubmit)
        (.threw (.domain (.walletPlayerMismatch cmd.walletId cmd.playerId)))
  | invalid {now : Date} {s₁ s₂ : Shared} {r : WalletRow} {err : DomainError}
      (locks : LocksWallet P cmd i s s₁ r) (player : r.playerId = cmd.playerId)
      (draws : s₁.draw i P [inp.newId 0] = some s₂)
      (create : WagerTransaction.create (props P cmd (inp.newId 0) now) = .error err) :
      Way (.lockWallet now) (s₂.giveBack i Resource.ofSubmit) (.threw (.domain err))
  | drafted {now : Date} {s₁ s₂ : Shared} {r : WalletRow} {tx : WagerTransaction}
      (locks : LocksWallet P cmd i s s₁ r) (player : r.playerId = cmd.playerId)
      (draws : s₁.draw i P [inp.newId 0] = some s₂)
      (create : WagerTransaction.create (props P cmd (inp.newId 0) now) = .ok tx) :
      Way (.lockWallet now) s₂ (.claimKey (toWalletDomain r) tx)
  -- the claim
  | unclaimable {wallet : Wallet} {tx : WagerTransaction}
      (check : Database.violatesCheck (claimWrites P tx) = true) :
      Way (.claimKey wallet tx) (s.giveBack i Resource.ofSubmit) (.threw .database)
  | keyTaken {wallet : Wallet} {tx : WagerTransaction} {s₁ : Shared}
      (check : Database.violatesCheck (claimWrites P tx) = false)
      (takes : s.take i [.idempotencyKey tx.idempotencyKey] = some s₁)
      (taken : (s.db.findByIdempotencyKey tx.idempotencyKey).isSome = true) :
      Way (.claimKey wallet tx) (s₁.giveBack i Resource.ofSubmit) .findByKey
  | keyClaimed {wallet : Wallet} {tx : WagerTransaction} {s₁ : Shared}
      (check : Database.violatesCheck (claimWrites P tx) = false)
      (takes : s.take i [.idempotencyKey tx.idempotencyKey] = some s₁)
      (free : s.db.findByIdempotencyKey tx.idempotencyKey = none) :
      Way (.claimKey wallet tx) s₁ (.claimExternal wallet tx)
  | externalTaken {wallet : Wallet} {tx : WagerTransaction} {s₁ : Shared}
      (takes : s.take i [.external tx.providerId tx.externalTransactionId] = some s₁)
      (taken : (s.db.findByProviderAndExternalId tx.providerId
        tx.externalTransactionId).isSome = true) :
      Way (.claimExternal wallet tx) (s₁.giveBack i Resource.ofSubmit) .findByKey
  | referring {wallet : Wallet} {tx : WagerTransaction} {s₁ s₂ : Shared}
      (takes : s.take i [.external tx.providerId tx.externalTransactionId] = some s₁)
      (free : s.db.findByProviderAndExternalId tx.providerId tx.externalTransactionId = none)
      (draws : s₁.draw i P [inp.newId 0] = some s₂) (requires : tx.requiresReference = true) :
      Way (.claimExternal wallet tx) s₂ (.findReference wallet tx (contextOf cmd inp tx))
  | unreferring {wallet : Wallet} {tx : WagerTransaction} {s₁ s₂ : Shared}
      (takes : s.take i [.external tx.providerId tx.externalTransactionId] = some s₁)
      (free : s.db.findByProviderAndExternalId tx.providerId tx.externalTransactionId = none)
      (draws : s₁.draw i P [inp.newId 0] = some s₂) (requires : tx.requiresReference = false) :
      Way (.claimExternal wallet tx) s₂ (.finalize wallet tx (contextOf cmd inp tx) none)
  -- the reference
  | unnamed {wallet : Wallet} {tx : WagerTransaction} {ctx : EventContext} {err : DomainError}
      (finds : findReference (s.db.apply (claimWrites P tx)) tx = .error err) :
      Way (.findReference wallet tx ctx) (s.giveBack i Resource.ofSubmit) (.threw (.domain err))
  | found {wallet : Wallet} {tx : WagerTransaction} {ctx : EventContext}
      {reference : WagerTransaction}
      (finds : findReference (s.db.apply (claimWrites P tx)) tx = .ok (.resolved reference)) :
      Way (.findReference wallet tx ctx) s (.findReversal wallet tx ctx reference)
  | unresolved {wallet : Wallet} {tx : WagerTransaction} {ctx : EventContext}
      {resolution : ReferenceResolution}
      (finds : findReference (s.db.apply (claimWrites P tx)) tx = .ok resolution)
      (unresolved : ∀ reference, resolution ≠ .resolved reference) :
      Way (.findReference wallet tx ctx) s (.finalize wallet tx ctx (some resolution))
  | resolved {wallet : Wallet} {tx : WagerTransaction} {ctx : EventContext}
      {reference : WagerTransaction} :
      Way (.findReversal wallet tx ctx reference) s (.finalize wallet tx ctx
        (some (findReversal (s.db.apply (claimWrites P tx)) tx reference)))
  -- the decision
  | undecided {wallet : Wallet} {tx : WagerTransaction} {ctx : EventContext}
      {resolution : Option ReferenceResolution} {s₁ : Shared} {err : DomainError}
      (draws : s.draw i P [inp.newId 0, inp.newId 1, inp.newId 2] = some s₁)
      (decides : decide P wallet tx ctx resolution inp.newId = .error err) :
      Way (.finalize wallet tx ctx resolution) (s₁.giveBack i Resource.ofSubmit)
        (.threw (.domain err))
  | duplicated {wallet : Wallet} {tx : WagerTransaction} {ctx : EventContext}
      {resolution : Option ReferenceResolution} {s₁ : Shared}
      {out : WagerTransaction × Wallet × Writes}
      (draws : s.draw i P [inp.newId 0, inp.newId 1, inp.newId 2] = some s₁)
      (decides : decide P wallet tx ctx resolution inp.newId = .ok out)
      (flush : (s.db.apply (claimWrites P tx)).flush out.2.2 = .error .uniqueConstraintViolation) :
      Way (.finalize wallet tx ctx resolution) (s₁.giveBack i Resource.ofSubmit) .findByKey
  | unflushed {wallet : Wallet} {tx : WagerTransaction} {ctx : EventContext}
      {resolution : Option ReferenceResolution} {s₁ : Shared}
      {out : WagerTransaction × Wallet × Writes} {err : Exception}
      (draws : s.draw i P [inp.newId 0, inp.newId 1, inp.newId 2] = some s₁)
      (decides : decide P wallet tx ctx resolution inp.newId = .ok out)
      (flush : (s.db.apply (claimWrites P tx)).flush out.2.2 = .error err)
      (other : err ≠ .uniqueConstraintViolation) :
      Way (.finalize wallet tx ctx resolution) (s₁.giveBack i Resource.ofSubmit) (.threw err)
  | decided {wallet : Wallet} {tx : WagerTransaction} {ctx : EventContext}
      {resolution : Option ReferenceResolution} {s₁ : Shared}
      {out : WagerTransaction × Wallet × Writes}
      (draws : s.draw i P [inp.newId 0, inp.newId 1, inp.newId 2] = some s₁)
      (decides : decide P wallet tx ctx resolution inp.newId = .ok out)
      (flush : (s.db.apply (claimWrites P tx)).flush out.2.2 = .ok ()) :
      Way (.finalize wallet tx ctx resolution) s₁
        (.commit [claimWrites P tx, out.2.2] ⟨out.1, false, out.2.1.balance⟩)
  -- the conflict
  | noKey (missing : s.db.findByIdempotencyKey cmd.idempotencyKey = none) :
      Way .findByKey s .findByExternal
  | sameKey {byKey : WagerTransaction}
      (found : s.db.findByIdempotencyKey cmd.idempotencyKey = some byKey)
      (matching : byKey.matchesPayload (cmd.payloadHash P) = true) :
      Way .findByKey s (.findWallet byKey)
  | otherPayload {byKey : WagerTransaction}
      (found : s.db.findByIdempotencyKey cmd.idempotencyKey = some byKey)
      (matching : byKey.matchesPayload (cmd.payloadHash P) = false) :
      Way .findByKey s (.threw (.domain (.idempotencyConflict cmd.idempotencyKey none)))
  | replayed {byKey : WagerTransaction} : Way (.findWallet byKey) s (.returned
      ⟨byKey, true, ((s.db.findWallet byKey.walletId).map Wallet.balance).getD cmd.money⟩)
  | otherKey {t : WagerTransaction}
      (found : s.db.findByProviderAndExternalId cmd.providerId cmd.externalTransactionId = some t) :
      Way .findByExternal s
        (.threw (.domain (.idempotencyConflict cmd.idempotencyKey (some externalConflict))))
  | unexplained
      (missing : s.db.findByProviderAndExternalId cmd.providerId cmd.externalTransactionId = none) :
      Way .findByExternal s (.threw (.domain (.transientProcessing unresolvedConflict)))

variable {P cmd i inp s} {s' s₁ : Shared} {stage stage' : SubmitStage} {wallet : Wallet}
  {tx : WagerTransaction} {ctx : EventContext}

theorem create_ok {props : CreateWagerTransactionProps}
    (h : WagerTransaction.create props = .ok tx) :
    tx = ⟨props, .pending, none, none, none, 0, none⟩ ∧ props.kind ≠ .opening ∧
      (requiresReferenceFor props.kind = true →
        WagerTransaction.missingReference props.referenceExternalTransactionId = false) := by
  unfold WagerTransaction.create at h
  split at h
  · cases h
  · rename_i hkind
    split at h
    · cases h
    · rename_i hmissing
      exact ⟨(Except.ok.inj h).symm, hkind, fun hrequires => by simpa [hrequires] using hmissing⟩

/-- The three ends of a lock of a wallet, by a call that has written `ws`. -/
theorem lockWallet_cases {ws : List Writes} {text : String}
    {out : Except Exception (Option Wallet)} (h : s.lockWallet i P ws text = some (s₁, out)) :
    (s₁ = s ∧ out = .error .database ∧ P.uuid text = none) ∨
      (∃ id, s₁ = s ∧ out = .ok none ∧ P.uuid text = some id ∧
        (s.db.applyAll ws).findWallet id = none) ∨
        ∃ r ∈ (s.db.applyAll ws).wallets, P.uuid text = some r.id ∧
          out = .ok (some (toWalletDomain r)) ∧ s.take i [.wallet r.id] = some s₁ := by
  unfold Shared.lockWallet at h
  cases huuid : P.uuid text with
  | none =>
    rw [huuid] at h
    obtain ⟨rfl, rfl⟩ := Prod.mk.inj (Option.some.inj h)
    exact Or.inl ⟨rfl, rfl, rfl⟩
  | some id =>
    rw [huuid] at h
    dsimp only at h
    right
    cases hfind : (s.db.applyAll ws).findWallet id with
    | none =>
      rw [hfind] at h
      obtain ⟨rfl, rfl⟩ := Prod.mk.inj (Option.some.inj h)
      exact Or.inl ⟨id, rfl, rfl, rfl, hfind⟩
    | some wallet =>
      rw [hfind] at h
      obtain ⟨r, hrow, rfl⟩ := Option.map_eq_some_iff.mp hfind
      obtain ⟨hmem, rfl⟩ := lookup_mem hrow
      obtain ⟨s₂, htake, hout⟩ := Option.map_eq_some_iff.mp h
      obtain ⟨rfl, rfl⟩ := Prod.mk.inj hout
      exact Or.inr ⟨r, hmem, rfl, rfl, htake⟩

theorem lockWallet_way {now : Date} (h : step P cmd i inp s (.lockWallet now) = some (s', stage')) :
    Way P cmd i inp s (.lockWallet now) s' stage' := by
  obtain ⟨⟨s₁, out⟩, hlock, hrest⟩ := Option.bind_eq_some_iff.mp h
  rcases lockWallet_cases hlock with
    ⟨rfl, rfl, huuid⟩ | ⟨id, rfl, rfl, huuid, hmissing⟩ | ⟨r, hr, huuid, rfl, htake⟩
  · obtain ⟨rfl, rfl⟩ := Prod.mk.inj (Option.some.inj hrest)
    exact .noUuid huuid
  · obtain ⟨rfl, rfl⟩ := Prod.mk.inj (Option.some.inj hrest)
    exact .noWallet huuid hmissing
  · dsimp only at hrest
    split at hrest
    · rename_i hplayer
      obtain ⟨rfl, rfl⟩ := Prod.mk.inj (Option.some.inj hrest)
      exact .otherPlayer ⟨hr, huuid, htake⟩ hplayer
    · rename_i hplayer
      obtain ⟨s₂, hdraw, hrest⟩ := Option.bind_eq_some_iff.mp hrest
      split at hrest
      · rename_i hcreate
        obtain ⟨rfl, rfl⟩ := Prod.mk.inj (Option.some.inj hrest)
        exact .invalid ⟨hr, huuid, htake⟩ (not_not.mp hplayer) hdraw hcreate
      · rename_i hcreate
        obtain ⟨rfl, rfl⟩ := Prod.mk.inj (Option.some.inj hrest)
        exact .drafted ⟨hr, huuid, htake⟩ (not_not.mp hplayer) hdraw hcreate

theorem claimKey_way (h : step P cmd i inp s (.claimKey wallet tx) = some (s', stage')) :
    Way P cmd i inp s (.claimKey wallet tx) s' stage' := by
  dsimp only [step] at h
  split at h
  · rename_i hcheck
    obtain ⟨rfl, rfl⟩ := Prod.mk.inj (Option.some.inj h)
    exact .unclaimable hcheck
  · rename_i hcheck
    obtain ⟨s₁, htake, hrest⟩ := Option.bind_eq_some_iff.mp h
    rw [take_db htake] at hrest
    split at hrest
    · rename_i htaken
      obtain ⟨rfl, rfl⟩ := Prod.mk.inj (Option.some.inj hrest)
      exact .keyTaken (Bool.not_eq_true _ ▸ hcheck) htake htaken
    · rename_i hfree
      obtain ⟨rfl, rfl⟩ := Prod.mk.inj (Option.some.inj hrest)
      exact .keyClaimed (Bool.not_eq_true _ ▸ hcheck) htake
        (Option.not_isSome_iff_eq_none.mp hfree)

theorem claimExternal_way (h : step P cmd i inp s (.claimExternal wallet tx) = some (s', stage')) :
    Way P cmd i inp s (.claimExternal wallet tx) s' stage' := by
  obtain ⟨s₁, htake, hrest⟩ := Option.bind_eq_some_iff.mp h
  rw [take_db htake] at hrest
  split at hrest
  · rename_i htaken
    obtain ⟨rfl, rfl⟩ := Prod.mk.inj (Option.some.inj hrest)
    exact .externalTaken htake htaken
  · rename_i hfree
    have hnone := Option.not_isSome_iff_eq_none.mp hfree
    obtain ⟨s₂, hdraw, hrest⟩ := Option.bind_eq_some_iff.mp hrest
    split at hrest
    · rename_i hrequires
      obtain ⟨rfl, rfl⟩ := Prod.mk.inj (Option.some.inj hrest)
      exact .referring htake hnone hdraw hrequires
    · rename_i hrequires
      obtain ⟨rfl, rfl⟩ := Prod.mk.inj (Option.some.inj hrest)
      exact .unreferring htake hnone hdraw (Bool.not_eq_true _ ▸ hrequires)

theorem findReference_way
    (h : step P cmd i inp s (.findReference wallet tx ctx) = some (s', stage')) :
    Way P cmd i inp s (.findReference wallet tx ctx) s' stage' := by
  dsimp only [step] at h
  split at h
  · rename_i hfind
    obtain ⟨rfl, rfl⟩ := Prod.mk.inj (Option.some.inj h)
    exact .unnamed hfind
  · rename_i hfind
    obtain ⟨rfl, rfl⟩ := Prod.mk.inj (Option.some.inj h)
    exact .found hfind
  · rename_i hunresolved hfind
    obtain ⟨rfl, rfl⟩ := Prod.mk.inj (Option.some.inj h)
    exact .unresolved hfind fun reference heq => hunresolved reference heq

theorem finalize_way {resolution : Option ReferenceResolution}
    (h : step P cmd i inp s (.finalize wallet tx ctx resolution) = some (s', stage')) :
    Way P cmd i inp s (.finalize wallet tx ctx resolution) s' stage' := by
  obtain ⟨s₁, hdraw, hrest⟩ := Option.bind_eq_some_iff.mp h
  rw [draw_db hdraw] at hrest
  cases hdecide : decide P wallet tx ctx resolution inp.newId with
  | error err =>
    rw [hdecide] at hrest
    obtain ⟨rfl, rfl⟩ := Prod.mk.inj (Option.some.inj hrest)
    exact .undecided hdraw hdecide
  | ok out =>
    rw [hdecide] at hrest
    dsimp only at hrest
    split at hrest
    · rename_i hflush
      obtain ⟨rfl, rfl⟩ := Prod.mk.inj (Option.some.inj hrest)
      exact .duplicated hdraw hdecide hflush
    · rename_i hother hflush
      obtain ⟨rfl, rfl⟩ := Prod.mk.inj (Option.some.inj hrest)
      exact .unflushed hdraw hdecide hflush fun heq => hother heq
    · rename_i hflush
      obtain ⟨rfl, rfl⟩ := Prod.mk.inj (Option.some.inj hrest)
      exact .decided hdraw hdecide hflush

theorem findByKey_way (h : step P cmd i inp s .findByKey = some (s', stage')) :
    Way P cmd i inp s .findByKey s' stage' := by
  dsimp only [step] at h
  split at h
  · rename_i hmissing
    obtain ⟨rfl, rfl⟩ := Prod.mk.inj (Option.some.inj h)
    exact .noKey hmissing
  · rename_i byKey hfound
    split at h
    · rename_i hmatching
      obtain ⟨rfl, rfl⟩ := Prod.mk.inj (Option.some.inj h)
      exact .sameKey hfound hmatching
    · rename_i hmatching
      obtain ⟨rfl, rfl⟩ := Prod.mk.inj (Option.some.inj h)
      exact .otherPayload hfound (Bool.not_eq_true _ ▸ hmatching)

/-- What a step of `execute` can do. -/
theorem step_way (h : step P cmd i inp s stage = some (s', stage')) :
    Way P cmd i inp s stage s' stage' := by
  cases stage with
  | begin =>
    dsimp only [step] at h
    split at h
    · rename_i hkind
      obtain ⟨rfl, rfl⟩ := Prod.mk.inj (Option.some.inj h)
      exact .opening hkind
    · rename_i hkind
      obtain ⟨rfl, rfl⟩ := Prod.mk.inj (Option.some.inj h)
      exact .begin hkind
  | lockWallet now => exact lockWallet_way h
  | claimKey wallet tx => exact claimKey_way h
  | claimExternal wallet tx => exact claimExternal_way h
  | findReference wallet tx ctx => exact findReference_way h
  | findReversal wallet tx ctx reference =>
    obtain ⟨rfl, rfl⟩ := Prod.mk.inj (Option.some.inj h)
    exact .resolved
  | finalize wallet tx ctx resolution => exact finalize_way h
  | findByKey => exact findByKey_way h
  | findWallet byKey =>
    obtain ⟨rfl, rfl⟩ := Prod.mk.inj (Option.some.inj h)
    exact .replayed
  | findByExternal =>
    dsimp only [step] at h
    split at h
    · rename_i hfound
      obtain ⟨rfl, rfl⟩ := Prod.mk.inj (Option.some.inj h)
      exact .otherKey hfound
    · rename_i hmissing
      obtain ⟨rfl, rfl⟩ := Prod.mk.inj (Option.some.inj h)
      exact .unexplained hmissing
  | commit | returned | threw => cases h

/-- Only the commit changes the database. -/
theorem Way.db (h : Way P cmd i inp s stage s' stage') : s'.db = s.db := by
  cases h with
  | otherPlayer locks => exact (take_db locks.takes :)
  | invalid locks _ draws | drafted locks _ draws =>
    exact ((draw_db draws).trans (take_db locks.takes) :)
  | keyTaken _ takes | keyClaimed _ takes | externalTaken takes => exact (take_db takes :)
  | referring takes _ draws | unreferring takes _ draws =>
    exact ((draw_db draws).trans (take_db takes) :)
  | undecided draws | duplicated draws | unflushed draws | decided draws => exact (draw_db draws :)
  | _ => rfl

end Submit

end WageringProcessor
