import WageringProcessor.Invariants.Renaming

/-!
# Two spellings of one uuid

A `uuid` column reads its text whatever the case of the letters, so two commands may name the same
wallet and the same player with different texts.  A submit compares and hashes the texts that it was
given and sends them on in its events, and what it stores is in canonical form.
-/

namespace WageringProcessor

open Library.Correspondence Library.Interleaving Library.Table WagerTransactionFinalizer

variable {P : Platform} {d : Database} {cmd cmd' : SubmitWagerTransactionCommand} {wallet : Wallet}
  {g g' : Generated} {resolution : Option ReferenceResolution}

/-! ## Commands that differ in their spelling -/

/-- The texts differ at most in the case of their letters. -/
def SameLetters (s s' : String) : Prop := s.toList.map Char.toLower = s'.toList.map Char.toLower

instance (s s' : String) : Decidable (SameLetters s s') := inferInstanceAs (Decidable (_ = _))

/-- A `uuid` column does not tell upper from lower case. -/
def Caseless (P : Platform) : Prop := ∀ s s', SameLetters s s' → P.uuid s = P.uuid s'

structure Respelled (cmd cmd' : SubmitWagerTransactionCommand) : Prop where
  walletId : SameLetters cmd.walletId cmd'.walletId
  playerId : SameLetters cmd.playerId cmd'.playerId
  rest : cmd' = { cmd with walletId := cmd'.walletId, playerId := cmd'.playerId }

theorem Respelled.symm (h : Respelled cmd cmd') : Respelled cmd' cmd := by
  refine ⟨h.walletId.symm, h.playerId.symm, ?_⟩
  have hrest := h.rest
  rw [hrest]

section

variable (h : Respelled cmd cmd')
include h

theorem Respelled.kind : cmd'.kind = cmd.kind := by rw [h.rest]

theorem Respelled.money : cmd'.money = cmd.money := by rw [h.rest]

theorem Respelled.reference :
    cmd'.referenceExternalTransactionId = cmd.referenceExternalTransactionId := by rw [h.rest]

theorem Respelled.idempotencyKey : cmd'.idempotencyKey = cmd.idempotencyKey := by rw [h.rest]

theorem Respelled.providerId : cmd'.providerId = cmd.providerId := by rw [h.rest]

theorem Respelled.externalTransactionId :
    cmd'.externalTransactionId = cmd.externalTransactionId := by rw [h.rest]

end

/-! ## What is seen of an answer -/

/-- The code that an error is answered with; an error of the database has none. -/
def Exception.code : Exception → Option String
  | .domain err => some err.code
  | _ => none

/-- What an answer and the rows that come with it say, without the ids and times in them. -/
structure Seen where
  status : WagerTransactionStatus
  failureCode : Option FailureCode
  idempotentReplay : Bool
  balance : Money
  balances : List (Id × Int)
  aggregateIds : List String
deriving DecidableEq, Repr

namespace Submit

def newMessages (answer : Answer) : List OutboxMessage :=
  (committed answer).flatMap Writes.outboxMessages

def seen (d : Database) (answer : Answer) : Except (Option String) Seen :=
  match answer with
  | .error err => .error err.code
  | .ok (result, writes) => .ok
      { status := result.transaction.status
        failureCode := result.transaction.failureCode
        idempotentReplay := result.idempotentReplay
        balance := result.balance
        balances := (d.applyAll writes).wallets.map fun r => (r.id, r.balanceAmount)
        aggregateIds := (newMessages answer).map OutboxMessage.aggregateId }

/-- The call passes the guards that come before its claim. -/
structure Passes (cmd : SubmitWagerTransactionCommand) (wallet : Wallet) : Prop where
  player : wallet.playerId = cmd.playerId
  reference : requiresReferenceFor cmd.kind = true →
    WagerTransaction.missingReference cmd.referenceExternalTransactionId = false
  money : 0 ≤ cmd.money.minorUnits

/-- What the claim of the call meets does not depend on the text of the ids. -/
def ClaimUnread (P : Platform) (d : Database) (cmd cmd' : SubmitWagerTransactionCommand)
    (wallet : Wallet) : Prop :=
  match d.findByIdempotencyKey cmd.idempotencyKey with
  | some byKey =>
    byKey.matchesPayload (cmd.payloadHash P) = byKey.matchesPayload (cmd'.payloadHash P)
  | none =>
    (d.findByProviderAndExternalId cmd.providerId cmd.externalTransactionId).isSome = true ∨
      MovesNothing cmd wallet ∨
        P.isCanonical cmd.walletId = true ∧ P.isCanonical cmd'.walletId = true

/-- The text of the ids does not decide anything, or it is the canonical one. -/
def Unread (P : Platform) (d : Database) (cmd cmd' : SubmitWagerTransactionCommand) : Prop :=
  cmd.kind ≠ .opening → ∀ id wallet, P.uuid cmd.walletId = some id →
    d.findWallet id = some wallet →
      (wallet.playerId = cmd.playerId ↔ wallet.playerId = cmd'.playerId) ∧
        (Passes cmd wallet → ClaimUnread P d cmd cmd' wallet)

/-! ## The cases of the admission -/

/-- The guards that follow once the wallet is found. -/
theorem admission_found {id : Id} (hkind : cmd.kind ≠ .opening)
    (huuid : P.uuid cmd.walletId = some id) (hfound : d.findWallet id = some wallet) :
    admission P d cmd =
      if wallet.playerId ≠ cmd.playerId then
        .error (.domain (.walletPlayerMismatch cmd.walletId cmd.playerId))
      else if requiresReferenceFor cmd.kind &&
          WagerTransaction.missingReference cmd.referenceExternalTransactionId then
        .error (.domain (.missingReference cmd.kind.text))
      else if cmd.money.minorUnits < 0 then
        .error .database
      else if (d.findByIdempotencyKey cmd.idempotencyKey).isSome ||
          (d.findByProviderAndExternalId cmd.providerId cmd.externalTransactionId).isSome then
        .ok none
      else
        .ok (some wallet) := by
  unfold admission
  rw [if_neg hkind, huuid]
  dsimp only
  rw [hfound]

theorem admission_passes {id : Id} (hkind : cmd.kind ≠ .opening)
    (huuid : P.uuid cmd.walletId = some id) (hfound : d.findWallet id = some wallet)
    (hpasses : Passes cmd wallet) : admission P d cmd =
      if (d.findByIdempotencyKey cmd.idempotencyKey).isSome ||
          (d.findByProviderAndExternalId cmd.providerId cmd.externalTransactionId).isSome then
        .ok none
      else
        .ok (some wallet) := by
  have hpresent : ¬(requiresReferenceFor cmd.kind &&
      WagerTransaction.missingReference cmd.referenceExternalTransactionId) = true := by
    intro hmissing
    obtain ⟨hrequires, hmissing⟩ := Bool.and_eq_true_iff.mp hmissing
    rw [hpasses.reference hrequires] at hmissing
    cases hmissing
  rw [admission_found hkind huuid hfound, if_neg (not_not.mpr hpasses.player), if_neg hpresent,
    if_neg (Int.not_lt.mpr hpasses.money)]

/-! ## Where the spelling is not read, it does not matter -/

/-- The wallet of the call is still there. -/
theorem Decides.findWallet (h : Decides P d cmd wallet resolution g) (hc : Consistent P d)
    (hadmitted : Admitted P d cmd wallet) : ∃ wallet',
      (d.applyAll [claimWrites P (draft P cmd g),
        (decided P cmd wallet resolution g).2.2]).findWallet wallet.id = some wallet' ∧
          wallet'.playerId = wallet.playerId := by
  obtain ⟨r, hr, hread⟩ := hadmitted.found
  show ∃ wallet', Option.map toWalletDomain (lookup WalletRow.id wallet.id
    (upsertAll WalletRow.id d.wallets (decided P cmd wallet resolution g).2.2.wallets)) =
      some wallet' ∧ wallet'.playerId = wallet.playerId
  rcases h.leaves.wallets with hnone | ⟨wallet', hone, hid, hplayer⟩
  · have hfound : lookup WalletRow.id wallet.id d.wallets = some r := by
      rw [hread]
      exact lookup_of_mem hc.walletIds hr
    refine ⟨wallet, ?_, rfl⟩
    rw [hnone, upsertAll_nil, hfound, hread]
    rfl
  · refine ⟨toWalletDomain (toWalletEntity P wallet'), ?_, ?_⟩
    · have hrow : (toWalletEntity P wallet').id = wallet.id := hid
      rw [hone, upsertAll_cons, upsertAll_nil, lookup_upsert, if_pos hrow]
      rfl
    · show P.canonical wallet'.playerId = wallet.playerId
      rw [hplayer, hread]
      exact Platform.canonical_of_uuid (hc.accounts r hr).player

/-- A command that is sent again is a replay of its first answer. -/
theorem Decides.replays (h : Decides P d cmd wallet resolution g) (hc : Consistent P d)
    (hadmitted : Admitted P d cmd wallet) (g' : Generated) : ∃ result,
      execute P (d.applyAll [claimWrites P (draft P cmd g),
        (decided P cmd wallet resolution g).2.2]) cmd g' = .ok (result, []) ∧
          result.idempotentReplay = true := by
  obtain ⟨wallet', hfound, hplayer⟩ := h.findWallet hc hadmitted
  obtain ⟨tx', hrow, -⟩ := h.leaves.row
  have hnone : lookup (·.idempotencyKey) cmd.idempotencyKey d.wagerTransactions = none :=
    lookup_eq_none.mpr hadmitted.unclaimed.key
  set d' := d.applyAll [claimWrites P (draft P cmd g), (decided P cmd wallet resolution g).2.2]
    with hd'
  -- the row of the first call is the one under the key
  have hkey : d'.findByIdempotencyKey cmd.idempotencyKey =
      some (toWagerTransactionEntity P tx') := by
    have hsame : (toWagerTransactionEntity P tx').idempotencyKey = cmd.idempotencyKey :=
      congrArg (·.idempotencyKey) hrow.props
    unfold Database.findByIdempotencyKey
    rw [hd', claimed_wagerTransactions h.leaves h.ready.newId, hrow.row, lookup, List.find?_append,
      show d.wagerTransactions.find? _ = none from hnone, Option.none_or, List.find?_singleton,
      if_pos (decide_eq_true hsame)]
  have hmatches : (toWagerTransactionEntity P tx').matchesPayload (cmd.payloadHash P) = true :=
    decide_eq_true (congrArg (·.payloadHash) hrow.props)
  have hpasses : Passes cmd wallet' :=
    ⟨hplayer.trans hadmitted.player, hadmitted.reference, hadmitted.money⟩
  have hadmission := admission_passes hadmitted.kind hadmitted.walletId hfound hpasses
  rw [hkey, Option.isSome_some, Bool.true_or, if_pos rfl] at hadmission
  have hconflict : handleClaimConflict P d' cmd =
      replay d' cmd (toWagerTransactionEntity P tx') := by
    unfold handleClaimConflict
    rw [hkey]
    exact if_pos hmatches
  exact ⟨_, (admission_execute hadmission g').trans hconflict, rfl⟩

theorem MovesNothing.respelled (h : MovesNothing cmd wallet) (hrespelled : Respelled cmd cmd') :
    MovesNothing cmd' wallet := by
  refine ⟨?_, ?_, ?_, ?_⟩
  · rw [hrespelled.kind]
    exact h.unreferenced
  · rw [hrespelled.kind]
    exact h.kind
  · rw [hrespelled.money]
    exact h.currency
  · rw [hrespelled.money]
    exact h.zero

theorem Passes.respelled (h : Passes cmd wallet) (hrespelled : Respelled cmd cmd')
    (hplayer : wallet.playerId = cmd'.playerId) : Passes cmd' wallet := by
  refine ⟨hplayer, ?_, ?_⟩
  · rw [hrespelled.kind, hrespelled.reference]
    exact h.reference
  · rw [hrespelled.money]
    exact h.money

theorem Unread.symm (hcaseless : Caseless P) (hrespelled : Respelled cmd cmd')
    (h : Unread P d cmd cmd') : Unread P d cmd' cmd := by
  intro hkind' id wallet huuid' hfound
  have hkind : cmd.kind ≠ .opening := hrespelled.kind ▸ hkind'
  obtain ⟨hplayers, hclaim⟩ := h hkind id wallet
    ((hcaseless _ _ hrespelled.walletId).trans huuid') hfound
  refine ⟨hplayers.symm, fun hpasses' => ?_⟩
  have hpasses : Passes cmd wallet :=
    hpasses'.respelled hrespelled.symm (hplayers.mpr hpasses'.player)
  have hclaim := hclaim hpasses
  unfold ClaimUnread at hclaim ⊢
  rw [hrespelled.idempotencyKey, hrespelled.providerId, hrespelled.externalTransactionId]
  cases hkey : d.findByIdempotencyKey cmd.idempotencyKey with
  | some byKey =>
    rw [hkey] at hclaim
    exact hclaim.symm
  | none =>
    rw [hkey] at hclaim
    rcases hclaim with hexternal | hnothing | ⟨hcanonical, hcanonical'⟩
    · exact Or.inl hexternal
    · exact Or.inr (Or.inl (hnothing.respelled hrespelled))
    · exact Or.inr (Or.inr ⟨hcanonical', hcanonical⟩)

end Submit

end WageringProcessor
