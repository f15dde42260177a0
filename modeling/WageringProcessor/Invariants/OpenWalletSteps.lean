import WageringProcessor.Invariants.SubmitSteps
import WageringProcessor.UseCases.OpenWallet

/-!
# What a step of an opening can do
-/

namespace WageringProcessor

open Library.Interleaving (Pid)

namespace OpenWallet

variable (P : Platform) (cmd : OpenWalletCommand) (i : Pid) (inp : Input) (s : Shared)

/-- The `INSERT` of the wallet violates no CHECK and no type. -/
def Accepted (P : Platform) (wallet : Wallet) : Prop :=
  ¬(P.uuid wallet.playerId = none || Database.violatesCheck (walletWrites P wallet)) = true

inductive Way : OpenWalletStage → Shared → OpenWalletStage → Prop
  | begin {s₁ : Shared} (draws : s.draw i P [inp.newId 0] = some s₁) :
      Way .begin s₁ (.insertWallet inp.now
        (Wallet.open (inp.newId 0) cmd.playerId cmd.initialBalance inp.now))
  -- the wallet
  | refused {now : Date} {wallet : Wallet} (refused : ¬Accepted P wallet) :
      Way (.insertWallet now wallet) (s.rollback i) (.threw .database)
  | playerTaken {now : Date} {wallet : Wallet} {s₁ : Shared}
      (takes : s.take i [.playerCurrency (P.canonical wallet.playerId) wallet.currency] = some s₁)
      (taken : playerHasWallet P s.db wallet = true) :
      Way (.insertWallet now wallet) (s₁.rollback i)
        (.threw (toThrown cmd .uniqueConstraintViolation))
  | opening {now : Date} {wallet : Wallet} {s₁ s₂ : Shared} (accepted : Accepted P wallet)
      (takes : s.take i [.playerCurrency (P.canonical wallet.playerId) wallet.currency] = some s₁)
      (free : playerHasWallet P s.db wallet = false)
      (positive : cmd.initialBalance.isPositive = true)
      (draws : s₁.draw i P [inp.newId 0] = some s₂) :
      Way (.insertWallet now wallet) s₂ (.claimKey now wallet
        (.createOpening (inp.newId 0) wallet.id cmd.playerId cmd.initialBalance now))
  | empty {now : Date} {wallet : Wallet} {s₁ : Shared} (accepted : Accepted P wallet)
      (takes : s.take i [.playerCurrency (P.canonical wallet.playerId) wallet.currency] = some s₁)
      (free : playerHasWallet P s.db wallet = false)
      (zero : ¬cmd.initialBalance.isPositive = true) :
      Way (.insertWallet now wallet) s₁ (.commit [walletWrites P wallet] wallet)
  -- the opening transaction
  | keyTaken {now : Date} {wallet : Wallet} {tx : WagerTransaction} {s₁ : Shared}
      (takes : s.take i [.idempotencyKey tx.idempotencyKey] = some s₁) :
      Way (.claimKey now wallet tx) (s₁.rollback i)
        (.threw (toThrown cmd .uniqueConstraintViolation))
  | keyClaimed {now : Date} {wallet : Wallet} {tx : WagerTransaction} {s₁ : Shared}
      (takes : s.take i [.idempotencyKey tx.idempotencyKey] = some s₁)
      (free : s.db.findByIdempotencyKey tx.idempotencyKey = none) :
      Way (.claimKey now wallet tx) s₁ (.claimExternal now wallet tx)
  | externalTaken {now : Date} {wallet : Wallet} {tx : WagerTransaction} {s₁ : Shared}
      (takes : s.take i [.external tx.providerId tx.externalTransactionId] = some s₁) :
      Way (.claimExternal now wallet tx) (s₁.rollback i)
        (.threw (toThrown cmd .uniqueConstraintViolation))
  | externalClaimed {now : Date} {wallet : Wallet} {tx : WagerTransaction} {s₁ : Shared}
      (takes : s.take i [.external tx.providerId tx.externalTransactionId] = some s₁)
      (free : s.db.findByProviderAndExternalId tx.providerId tx.externalTransactionId = none) :
      Way (.claimExternal now wallet tx) s₁ (.insertEntry now wallet tx)
  -- its entry
  | unentered {now : Date} {wallet : Wallet} {tx : WagerTransaction} {s₁ : Shared}
      {err : DomainError}
      (draws : s.draw i P [inp.newId 0, inp.newId 1, inp.newId 2, inp.newId 3] = some s₁)
      (enters : openingEntry cmd (inp.newId 0) wallet tx now = .error err) :
      Way (.insertEntry now wallet tx) (s₁.rollback i) (.threw (toThrown cmd (.domain err)))
  | unflushed {now : Date} {wallet : Wallet} {tx : WagerTransaction} {s₁ : Shared}
      {entry : WalletLedgerEntry} {err : Exception}
      (draws : s.draw i P [inp.newId 0, inp.newId 1, inp.newId 2, inp.newId 3] = some s₁)
      (enters : openingEntry cmd (inp.newId 0) wallet tx now = .ok entry)
      (flush : (s.db.apply (walletWrites P wallet)).flush
        (openingWrites P cmd wallet tx entry ⟨inp.newId 1, none, now⟩ inp.newId) = .error err) :
      Way (.insertEntry now wallet tx) (s₁.rollback i) (.threw (toThrown cmd err))
  | entered {now : Date} {wallet : Wallet} {tx : WagerTransaction} {s₁ : Shared}
      {entry : WalletLedgerEntry}
      (draws : s.draw i P [inp.newId 0, inp.newId 1, inp.newId 2, inp.newId 3] = some s₁)
      (enters : openingEntry cmd (inp.newId 0) wallet tx now = .ok entry)
      (flush : (s.db.apply (walletWrites P wallet)).flush
        (openingWrites P cmd wallet tx entry ⟨inp.newId 1, none, now⟩ inp.newId) = .ok ()) :
      Way (.insertEntry now wallet tx) s₁ (.commit [walletWrites P wallet,
        openingWrites P cmd wallet tx entry ⟨inp.newId 1, none, now⟩ inp.newId] wallet)
  | commits {writes : List Writes} {wallet : Wallet} :
      Way (.commit writes wallet) (s.commit i writes) (.returned wallet)

variable {P cmd i inp s} {s' : Shared} {stage stage' : OpenWalletStage} {now : Date}
  {wallet : Wallet} {tx : WagerTransaction}

theorem insertWallet_way (h : step P cmd i inp s (.insertWallet now wallet) = some (s', stage')) :
    Way P cmd i inp s (.insertWallet now wallet) s' stage' := by
  dsimp only [step] at h
  split at h
  · rename_i hrefused
    obtain ⟨rfl, rfl⟩ := Prod.mk.inj (Option.some.inj h)
    exact .refused (not_not.mpr hrefused)
  · rename_i haccepted
    obtain ⟨s₁, htake, hrest⟩ := Option.bind_eq_some_iff.mp h
    rw [take_db htake] at hrest
    split at hrest
    · rename_i htaken
      obtain ⟨rfl, rfl⟩ := Prod.mk.inj (Option.some.inj hrest)
      exact .playerTaken htake htaken
    · rename_i hfree
      have hfree : playerHasWallet P s.db wallet = false := Bool.not_eq_true _ ▸ hfree
      split at hrest
      · rename_i hpositive
        obtain ⟨s₂, hdraw, hrest⟩ := Option.bind_eq_some_iff.mp hrest
        obtain ⟨rfl, rfl⟩ := Prod.mk.inj (Option.some.inj hrest)
        exact .opening haccepted htake hfree hpositive hdraw
      · rename_i hzero
        obtain ⟨rfl, rfl⟩ := Prod.mk.inj (Option.some.inj hrest)
        exact .empty haccepted htake hfree hzero

theorem claimKey_way (h : step P cmd i inp s (.claimKey now wallet tx) = some (s', stage')) :
    Way P cmd i inp s (.claimKey now wallet tx) s' stage' := by
  obtain ⟨s₁, htake, hrest⟩ := Option.bind_eq_some_iff.mp h
  rw [take_db htake] at hrest
  split at hrest
  · obtain ⟨rfl, rfl⟩ := Prod.mk.inj (Option.some.inj hrest)
    exact .keyTaken htake
  · rename_i hfree
    obtain ⟨rfl, rfl⟩ := Prod.mk.inj (Option.some.inj hrest)
    exact .keyClaimed htake (Option.not_isSome_iff_eq_none.mp hfree)

theorem claimExternal_way
    (h : step P cmd i inp s (.claimExternal now wallet tx) = some (s', stage')) :
    Way P cmd i inp s (.claimExternal now wallet tx) s' stage' := by
  obtain ⟨s₁, htake, hrest⟩ := Option.bind_eq_some_iff.mp h
  rw [take_db htake] at hrest
  split at hrest
  · obtain ⟨rfl, rfl⟩ := Prod.mk.inj (Option.some.inj hrest)
    exact .externalTaken htake
  · rename_i hfree
    obtain ⟨rfl, rfl⟩ := Prod.mk.inj (Option.some.inj hrest)
    exact .externalClaimed htake (Option.not_isSome_iff_eq_none.mp hfree)

theorem insertEntry_way (h : step P cmd i inp s (.insertEntry now wallet tx) = some (s', stage')) :
    Way P cmd i inp s (.insertEntry now wallet tx) s' stage' := by
  obtain ⟨s₁, hdraw, hrest⟩ := Option.bind_eq_some_iff.mp h
  rw [draw_db hdraw] at hrest
  split at hrest
  · rename_i henters
    obtain ⟨rfl, rfl⟩ := Prod.mk.inj (Option.some.inj hrest)
    exact .unentered hdraw henters
  · rename_i henters
    dsimp only at hrest
    split at hrest
    · rename_i hflush
      obtain ⟨rfl, rfl⟩ := Prod.mk.inj (Option.some.inj hrest)
      exact .unflushed hdraw henters hflush
    · rename_i hflush
      obtain ⟨rfl, rfl⟩ := Prod.mk.inj (Option.some.inj hrest)
      exact .entered hdraw henters hflush

/-- What a step of an opening can do. -/
theorem step_way (h : step P cmd i inp s stage = some (s', stage')) :
    Way P cmd i inp s stage s' stage' := by
  cases stage with
  | begin =>
    obtain ⟨s₁, hdraw, hrest⟩ := Option.bind_eq_some_iff.mp h
    obtain ⟨rfl, rfl⟩ := Prod.mk.inj (Option.some.inj hrest)
    exact .begin hdraw
  | insertWallet now wallet => exact insertWallet_way h
  | claimKey now wallet tx => exact claimKey_way h
  | claimExternal now wallet tx => exact claimExternal_way h
  | insertEntry now wallet tx => exact insertEntry_way h
  | commit writes wallet =>
    obtain ⟨rfl, rfl⟩ := Prod.mk.inj (Option.some.inj h)
    exact .commits
  | returned | threw => cases h

end OpenWallet

end WageringProcessor
