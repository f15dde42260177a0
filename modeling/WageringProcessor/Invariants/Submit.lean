import WageringProcessor.Invariants.Decisions
import WageringProcessor.Invariants.SubmitSteps

/-!
# What a submit knows at each stage
-/

namespace WageringProcessor

open Library.Interleaving (Pid)
open WagerTransactionFinalizer Library.Table

/-- A step of a submit before its commit: it writes nothing, and what it gives back is its own. -/
structure Quiet (P : Platform) (i : Pid) (s s' : Shared) : Prop where
  advances : Advances P i s s'
  db : s'.db = s.db
  keeps : ∀ k, k.ofSubmit = false → owns s i k → owns s' i k

variable {P : Platform} {i : Pid} {s s' s'' : Shared} {keys : List Resource} {ids : List Id}

theorem Quiet.refl (P : Platform) (i : Pid) (s : Shared) : Quiet P i s s :=
  ⟨.refl P i s, rfl, fun _ _ h => h⟩

theorem Acquires.frame (h : Acquires i keys s s') : Frame (owns s i) s.db s'.db :=
  h.db ▸ .refl _ _

theorem Acquires.quiet (h : Acquires i keys s s') : Quiet P i s s' :=
  ⟨h.advances, h.db, fun k _ hk => h.keeps k hk⟩

theorem Acquires.trans_quiet (h : Acquires i keys s s') (h' : Quiet P i s' s'') :
    Quiet P i s s'' :=
  ⟨h.trans_advances h'.advances (h'.db.trans h.db), h'.db.trans h.db,
    fun k hk howns => h'.keeps k hk (h.keeps k howns)⟩

theorem abort_quiet : Quiet P i s (s.giveBack i Resource.ofSubmit) :=
  ⟨giveBack_advances fun _ => rfl, rfl, fun _ hk h => giveBack_keeps h hk⟩

theorem Draws.newId {d : Database} (h : Draws P i ids s s') (hd : Drawn s.drawn d) {id : Id}
    (hid : id ∈ ids) : NewId (owns s' i) d id :=
  ⟨h.holdsId hid, fun m hm heq => h.fresh id hid (heq ▸ hd.messages m hm)⟩

theorem Drawn.of_acquires (h : Acquires i keys s s') (hd : Drawn s.drawn s.db) :
    Drawn s'.drawn s'.db := h.db ▸ hd.mono fun _ => h.taken _

namespace Submit

variable {own own' : Resource → Prop} {d d' : Database} {cmd : SubmitWagerTransactionCommand}
  {wallet : Wallet} {tx tx' : WagerTransaction}

/-! ## The assertions -/

/-- `tx` is what `processNew` creates for `cmd`, whose wallet the call has locked and read. -/
structure Drafted (P : Platform) (own : Resource → Prop) (d : Database)
    (cmd : SubmitWagerTransactionCommand) (wallet : Wallet) (tx : WagerTransaction) : Prop where
  ownsId : own (.uuid tx.id)
  newId : ∀ t ∈ d.wagerTransactions, t.id ≠ tx.id
  created : ∃ now, tx = ⟨props P cmd tx.id now, .pending, none, none, none, 0, none⟩
  kind : cmd.kind ≠ .opening
  reference : requiresReferenceFor cmd.kind = true →
    WagerTransaction.missingReference cmd.referenceExternalTransactionId = false
  held : ∃ r, HeldWallet P own d tx wallet r
  walletId : P.uuid cmd.walletId = some wallet.id
  player : wallet.playerId = cmd.playerId

/-- The claim of `tx` was inserted. -/
structure Ready (P : Platform) (own : Resource → Prop) (d : Database)
    (cmd : SubmitWagerTransactionCommand) (wallet : Wallet) (tx : WagerTransaction) : Prop
    extends Drafted P own d cmd wallet tx where
  claimed : Claimed P own d tx

def ResolutionOk (P : Platform) (d : Database) (tx : WagerTransaction) :
    Option ReferenceResolution → Prop
  | none => tx.requiresReference = false
  | some .pending => tx.requiresReference = true
  | some (.rejected code) => CodeFits tx code
  | some (.resolved b) => ReferenceOk P d tx (some b)

/-- What the call has written and is about to commit. -/
inductive Prepared (P : Platform) (own : Resource → Prop) (d : Database)
    (cmd : SubmitWagerTransactionCommand) : List Writes → SubmitWagerTransactionResult → Prop
  | intro {tx tx' : WagerTransaction} {w : Writes} {balance : Money} (claimed : Claimed P own d tx)
      (key : tx.idempotencyKey = cmd.idempotencyKey) (hash : tx.payloadHash = cmd.payloadHash P)
      (settled : SettledAs P own d tx tx' w) :
      Prepared P own d cmd [claimWrites P tx, w] ⟨tx', false, balance⟩

/-- The row with `t`'s columns was committed for `cmd`. -/
def Answers (P : Platform) (d : Database) (cmd : SubmitWagerTransactionCommand)
    (t : WagerTransaction) : Prop :=
  ∃ row ∈ d.wagerTransactions, row.toCreateWagerTransactionProps =
    (toWagerTransactionEntity P t).toCreateWagerTransactionProps ∧
      row.idempotencyKey = cmd.idempotencyKey ∧ row.payloadHash = cmd.payloadHash P

structure Returned (P : Platform) (own : Resource → Prop) (d : Database)
    (cmd : SubmitWagerTransactionCommand) (result : SubmitWagerTransactionResult) : Prop where
  answers : Answers P d cmd result.transaction
  drew : result.idempotentReplay = false → own (.uuid result.transaction.id)

def Ok (P : Platform) (own : Resource → Prop) (d : Database)
    (cmd : SubmitWagerTransactionCommand) : SubmitStage → Prop
  | .lockWallet _ => cmd.kind ≠ .opening
  | .claimKey wallet tx => Drafted P own d cmd wallet tx
  | .claimExternal wallet tx => Drafted P own d cmd wallet tx ∧ 0 ≤ cmd.money.minorUnits ∧
      own (.idempotencyKey cmd.idempotencyKey) ∧
        ∀ t ∈ d.wagerTransactions, t.idempotencyKey ≠ cmd.idempotencyKey
  | .findReference wallet tx _ => Ready P own d cmd wallet tx ∧ tx.requiresReference = true
  | .findReversal wallet tx _ reference => Ready P own d cmd wallet tx ∧
      tx.requiresReference = true ∧ ReferenceOk P d tx (some reference)
  | .finalize wallet tx _ resolution => Ready P own d cmd wallet tx ∧ ResolutionOk P d tx resolution
  | .commit writes result => Prepared P own d cmd writes result
  | .findWallet byKey => Answers P d cmd byKey
  | .returned result => Returned P own d cmd result
  | _ => True

/-! ## They survive the steps of others -/

section

variable (hown : ∀ k, own k → own' k) (f : Frame own d d')
include hown f

theorem Drafted.stable (h : Drafted P own d cmd wallet tx) : Drafted P own' d' cmd wallet tx := by
  obtain ⟨r, hr⟩ := h.held
  refine { h with ownsId := hown _ h.ownsId, newId := ?_, held := ⟨r, hr.stable hown f⟩ }
  intro t ht hid
  obtain ⟨t₀, ht₀, hid₀⟩ := f.rowId t ht (hid ▸ h.ownsId)
  exact h.newId t₀ ht₀ (hid₀.trans hid)

theorem Ready.stable (h : Ready P own d cmd wallet tx) : Ready P own' d' cmd wallet tx :=
  ⟨h.toDrafted.stable hown f, h.claimed.stable hown f⟩

omit hown in
theorem ResolutionOk.stable {resolution : Option ReferenceResolution}
    (h : ResolutionOk P d tx resolution) : ResolutionOk P d' tx resolution := by
  match resolution with
  | none => exact h
  | some .pending => exact h
  | some (.rejected _) => exact h
  | some (.resolved _) => exact ReferenceOk.stable f h

theorem Prepared.stable {writes : List Writes} {result : SubmitWagerTransactionResult}
    (h : Prepared P own d cmd writes result) : Prepared P own' d' cmd writes result := by
  obtain ⟨claimed, key, hash, settled⟩ := h
  exact ⟨claimed.stable hown f, key, hash, settled.stable hown f⟩

omit hown in
theorem Answers.stable {t : WagerTransaction} (h : Answers P d cmd t) : Answers P d' cmd t := by
  obtain ⟨row, hrow, hprops, hkey, hhash⟩ := h
  obtain ⟨row', hrow', hprops'⟩ := f.rows row hrow
  refine ⟨row', hrow', hprops'.trans hprops, ?_, ?_⟩
  · rw [hprops']
    exact hkey
  · rw [hprops']
    exact hhash

theorem Returned.stable {result : SubmitWagerTransactionResult}
    (h : Returned P own d cmd result) : Returned P own' d' cmd result :=
  ⟨Answers.stable f h.answers, fun hnew => hown _ (h.drew hnew)⟩

theorem Ok.stable {stage : SubmitStage} (h : Ok P own d cmd stage) : Ok P own' d' cmd stage := by
  cases stage with
  | begin | findByKey | findByExternal | threw => trivial
  | lockWallet => exact h
  | claimKey => exact Drafted.stable hown f h
  | claimExternal =>
    obtain ⟨hdrafted, hmoney, hkey, hnew⟩ := h
    refine ⟨hdrafted.stable hown f, hmoney, hown _ hkey, fun t ht heq => ?_⟩
    obtain ⟨t₀, ht₀, heq₀⟩ := f.key t ht (heq ▸ hkey)
    exact hnew t₀ ht₀ (heq₀.trans heq)
  | findReference => exact ⟨h.1.stable hown f, h.2⟩
  | findReversal => exact ⟨h.1.stable hown f, h.2.1, h.2.2.stable f⟩
  | finalize => exact ⟨h.1.stable hown f, ResolutionOk.stable f h.2⟩
  | commit => exact Prepared.stable hown f h
  | findWallet => exact Answers.stable f h
  | returned => exact Returned.stable hown f h

end

/-! ## A step of a submit -/

section

variable {inp : Input} {stage stage' : SubmitStage} {ctx : EventContext}

theorem Drafted.props_eq (h : Drafted P own d cmd wallet tx) : ∃ now,
    tx.toCreateWagerTransactionProps = props P cmd tx.id now := by
  obtain ⟨now, hcreated⟩ := h.created
  exact ⟨now, congrArg (·.toCreateWagerTransactionProps) hcreated⟩

theorem Drafted.key (h : Drafted P own d cmd wallet tx) :
    tx.idempotencyKey = cmd.idempotencyKey := by
  obtain ⟨now, hprops⟩ := h.props_eq
  rw [hprops]
  rfl

theorem Drafted.money (h : Drafted P own d cmd wallet tx) : tx.money = cmd.money := by
  obtain ⟨now, hprops⟩ := h.props_eq
  rw [hprops]
  rfl

theorem Drafted.sameKind (h : Drafted P own d cmd wallet tx) : tx.kind = cmd.kind := by
  obtain ⟨now, hprops⟩ := h.props_eq
  rw [hprops]
  rfl

theorem Drafted.violatesCheck_iff (h : Drafted P own d cmd wallet tx) :
    Database.violatesCheck (claimWrites P tx) = true ↔ cmd.money.minorUnits < 0 := by
  rw [← h.money]
  simp [Database.violatesCheck, claimWrites, toWagerTransactionEntity]

/-- Once both unique indexes let it pass, the claim is a claim. -/
theorem Drafted.ready (h : Drafted P own d cmd wallet tx) (hc : Consistent P d)
    (hmoney : 0 ≤ cmd.money.minorUnits)
    (hkey : own (.idempotencyKey cmd.idempotencyKey))
    (hnewKey : ∀ t ∈ d.wagerTransactions, t.idempotencyKey ≠ cmd.idempotencyKey)
    (hexternal : own (.external tx.providerId tx.externalTransactionId))
    (hnewExternal : ∀ t ∈ d.wagerTransactions,
      (t.providerId, t.externalTransactionId) ≠ (tx.providerId, tx.externalTransactionId)) :
    Ready P own d cmd wallet tx := by
  obtain ⟨now, hcreated⟩ := h.created
  have hprops : tx.toCreateWagerTransactionProps = props P cmd tx.id now :=
    congrArg (·.toCreateWagerTransactionProps) hcreated
  obtain ⟨r, hr⟩ := h.held
  have haccount := hc.accounts r hr.row
  have hwid : wallet.id = r.id := by
    rw [hr.read]
    rfl
  have hplayer : r.playerId = cmd.playerId := by
    rw [← h.player, hr.read]
    rfl
  have hstored : (toWagerTransactionEntity P tx).toCreateWagerTransactionProps =
      { props P cmd tx.id now with walletId := r.id, playerId := cmd.playerId } := by
    have hcanonical : P.canonical tx.walletId = r.id := hr.named.symm
    have hcanonical' : P.canonical tx.playerId = cmd.playerId := by
      have htx : tx.playerId = cmd.playerId := congrArg (·.playerId) hprops
      rw [htx, ← hplayer]
      exact Platform.canonical_of_uuid haccount.player
    unfold toWagerTransactionEntity
    rw [hcanonical, hcanonical', hprops]
    rfl
  have hkind : tx.kind = cmd.kind := congrArg (·.kind) hprops
  have hkey' : tx.idempotencyKey = cmd.idempotencyKey := congrArg (·.idempotencyKey) hprops
  have hidentity : Identity P d (toWagerTransactionEntity P tx).toCreateWagerTransactionProps := by
    rw [hstored]
    refine ⟨haccount.id, hplayer ▸ haccount.player, hmoney, ⟨r, hr.row, rfl, hplayer⟩, h.reference,
      fun hk => absurd hk h.kind, fun _ => ⟨cmd.payload, ?_⟩⟩
    exact ⟨rfl, rfl, rfl, hwid ▸ h.walletId, rfl, rfl, rfl, rfl, rfl, rfl⟩
  refine ⟨h, ⟨h.ownsId, hkey'.symm ▸ hkey, hexternal, h.newId, hkey'.symm ▸ hnewKey, hnewExternal,
    hidentity, hkind ▸ h.kind, ?_⟩⟩
  rw [hprops]
  exact hcreated

theorem lockWallet_found {ws : List Writes} {r : WalletRow} {text : String}
    (hids : ((s.db.applyAll ws).wallets.map WalletRow.id).Nodup)
    (hr : r ∈ (s.db.applyAll ws).wallets) (huuid : P.uuid text = some r.id) :
    s.lockWallet i P ws text =
      (s.take i [.wallet r.id]).map fun s => (s, .ok (some (toWalletDomain r))) := by
  have hfound : (s.db.applyAll ws).findWallet r.id = some (toWalletDomain r) := by
    rw [Database.findWallet, Database.walletRow, lookup_of_mem hids hr, Option.map_some]
  unfold Shared.lockWallet
  rw [huuid]
  dsimp only
  rw [hfound]

/-- A call that locked the wallet and drew an id creates the transaction of the command. -/
theorem LocksWallet.drafted {now : Date} {s₁ s₂ : Shared} {r : WalletRow}
    (h : LocksWallet P cmd i s s₁ r) (hd : Drawn s.drawn s.db) (hplayer : r.playerId = cmd.playerId)
    (hdraw : s₁.draw i P [inp.newId 0] = some s₂)
    (hcreate : WagerTransaction.create (props P cmd (inp.newId 0) now) = .ok tx) :
    Drafted P (owns s₂ i) s₂.db cmd (toWalletDomain r) tx := by
  obtain ⟨rfl, hkind, hreference⟩ := create_ok hcreate
  have hacq := take_acquires h.takes
  have hdraws := draw_draws hdraw
  have hdb : s₂.db = s.db := hdraws.db.trans hacq.db
  refine ⟨hdraws.holdsId List.mem_cons_self, ?_, ⟨now, rfl⟩, hkind, hreference, ⟨r, ?_⟩, h.uuid,
    hplayer⟩
  · intro t ht hid
    have hid' : t.id = inp.newId 0 := hid
    rw [hdraws.db] at ht
    exact hdraws.fresh _ List.mem_cons_self (hid' ▸ (hd.of_acquires hacq).rows t ht)
  · refine ⟨hdraws.keeps _ (hacq.holds _ List.mem_cons_self), by rw [hdb]; exact h.row, rfl, ?_⟩
    exact (Platform.canonical_of_uuid h.uuid).symm

/-- The key is the call's from then on, and no row has it. -/
theorem Drafted.claimKey {s₁ : Shared} (h : Drafted P (owns s i) s.db cmd wallet tx)
    (hcheck : Database.violatesCheck (claimWrites P tx) = false)
    (htake : s.take i [.idempotencyKey tx.idempotencyKey] = some s₁)
    (hfree : s.db.findByIdempotencyKey tx.idempotencyKey = none) :
    Ok P (owns s₁ i) s₁.db cmd (.claimExternal wallet tx) := by
  have hacq := take_acquires htake
  have hkey := hacq.holds _ List.mem_cons_self
  have hnone := lookup_eq_none.mp hfree
  rw [h.key] at hkey hnone
  rw [hacq.db]
  refine ⟨h.stable hacq.keeps (.refl _ _), ?_, hkey, hnone⟩
  exact not_lt.mp fun hneg => Bool.false_ne_true (hcheck.symm.trans (h.violatesCheck_iff.mpr hneg))

/-- The external id is the call's too, so both unique indexes let the claim pass. -/
theorem Ok.claimExternal {s₁ s₂ : Shared} (hc : Consistent P s.db)
    (h : Ok P (owns s i) s.db cmd (.claimExternal wallet tx))
    (htake : s.take i [.external tx.providerId tx.externalTransactionId] = some s₁)
    (hfree : s.db.findByProviderAndExternalId tx.providerId tx.externalTransactionId = none)
    (hdraw : s₁.draw i P [inp.newId 0] = some s₂) :
    Quiet P i s s₂ ∧ Ready P (owns s₂ i) s₂.db cmd wallet tx := by
  obtain ⟨hdrafted, hmoney, hkey, hnewKey⟩ := h
  have hacq := take_acquires htake
  have hdraws := draw_draws hdraw
  have hready : Ready P (owns s₁ i) s.db cmd wallet tx :=
    (hdrafted.stable hacq.keeps (.refl _ _)).ready hc hmoney (hacq.keeps _ hkey) hnewKey
      (hacq.holds _ List.mem_cons_self) (lookup_eq_none.mp hfree)
  exact ⟨hacq.trans_quiet hdraws.quiet,
    hready.stable hdraws.keeps (hacq.db ▸ hdraws.frame)⟩

/-! ### The resolution

The call reads the table with its own claim in it, which is PENDING, so never the reference. -/

theorem mem_claimView {x : WagerTransaction} :
    x ∈ (d.apply (claimWrites P tx)).wagerTransactions ↔
      x = toWagerTransactionEntity P tx ∨ (x ∈ d.wagerTransactions ∧ x.id ≠ tx.id) :=
  mem_upsert

theorem Ready.canonical (h : Ready P own d cmd wallet tx) (hc : Consistent P d)
    {x : WagerTransaction} (hx : x ∈ (d.apply (claimWrites P tx)).wagerTransactions) :
    P.uuid x.walletId = some x.walletId ∧ P.uuid x.playerId = some x.playerId := by
  rcases mem_claimView.mp hx with rfl | ⟨hx, -⟩
  · exact ⟨h.claimed.identity.wallet, h.claimed.identity.player⟩
  · exact ⟨(hc.rows x hx).identity.wallet, (hc.rows x hx).identity.player⟩

theorem Ready.reference_ok (h : Ready P own d cmd wallet tx) (hc : Consistent P d)
    (hrequires : tx.requiresReference = true) {b : WagerTransaction}
    (hb : findReference (d.apply (claimWrites P tx)) tx = .ok (.resolved b)) :
    ReferenceOk P d tx (some b) := by
  obtain ⟨hmem, hrev, -⟩ := findReference_resolved (fun x hx => h.canonical hc hx) hb
  refine ⟨fun hno => ?_, fun _ => ⟨b, rfl, ?_, hrev⟩⟩
  · simp [hrequires] at hno
  · rcases mem_claimView.mp hmem with rfl | ⟨hmem, -⟩
    · have hpending : (toWagerTransactionEntity P tx).status = .pending := by
        rw [h.claimed.created]
        rfl
      have hprocessed := hrev.processed
      rw [hpending] at hprocessed
      simp at hprocessed
    · exact hmem

theorem findReference_resolutionOk {resolution : ReferenceResolution}
    (hrequires : tx.requiresReference = true)
    (hfind : findReference (d.apply (claimWrites P tx)) tx = .ok resolution)
    (hunresolved : ∀ reference, resolution ≠ .resolved reference) :
    ResolutionOk P d tx (some resolution) := by
  cases resolution with
  | pending => exact hrequires
  | rejected code => exact findReference_rejected hrequires hfind
  | resolved reference => exact absurd rfl (hunresolved reference)

theorem findReversal_resolutionOk {view : Database} {reference : WagerTransaction}
    (hrequires : tx.requiresReference = true) (href : ReferenceOk P d tx (some reference)) :
    ResolutionOk P d tx (some (findReversal view tx reference)) := by
  unfold findReversal
  split
  · exact hrequires
  · exact href

/-! ### The decision -/

theorem decide_settles (hc : Consistent P d) (h : Ready P own d cmd wallet tx)
    {resolution : Option ReferenceResolution} (hr : ResolutionOk P d tx resolution)
    {newId : Nat → Id} (hid₁ : NewId own d (newId 1)) (hid₂ : NewId own d (newId 2))
    (hne : newId 1 ≠ newId 2) {out : WagerTransaction × Wallet × Writes}
    (hout : decide P wallet tx ctx resolution newId = .ok out)
    (hflush : (d.apply (claimWrites P tx)).flush out.2.2 = .ok ()) :
    SettledAs P own d tx out.1 out.2.2 := by
  have hsubject : Subject P own d tx := .claimed h.claimed
  have hsettling := hsubject.settling hc
  obtain ⟨r, hheld⟩ := h.held
  have honce := (flush_ok hflush).1
  have hview : ∀ x ∈ d.wagerTransactions, x.id ≠ tx.id →
      x ∈ (d.apply (claimWrites P tx)).wagerTransactions :=
    fun x hx hne => mem_claimView.mpr (Or.inr ⟨hx, hne⟩)
  match resolution with
  | none =>
    have href : ReferenceOk P d tx none :=
      ⟨fun _ => rfl, fun hrequires => absurd (hrequires.symm.trans hr) (by decide)⟩
    exact applyEffect_settles hc hsubject hheld href hid₁ hid₂ hne hview hout honce
  | some (.resolved b) =>
    exact applyEffect_settles hc hsubject hheld hr hid₁ hid₂ hne hview hout honce
  | some .pending =>
    have hattempts : tx.referenceRetryAttempts < MAX_REFERENCE_RETRY_ATTEMPTS := by
      have hattempts := congrArg (·.referenceRetryAttempts) h.claimed.created
      dsimp only at hattempts
      rw [hattempts]
      decide
    obtain ⟨out', hmark, hout⟩ := ok_of_bind hout
    obtain rfl := Except.ok.inj hout
    exact markPendingReference_settles hsubject hsettling.unsettled hr hattempts hid₁ hmark
  | some (.rejected code) =>
    obtain ⟨out', hreject, hout⟩ := ok_of_bind hout
    obtain rfl := Except.ok.inj hout
    exact reject_settles hsubject hsettling.unsettled hr hid₁ hreject

theorem Ok.finalize {s₁ : Shared} {resolution : Option ReferenceResolution}
    {out : WagerTransaction × Wallet × Writes} (hc : Consistent P s.db) (hd : Drawn s.drawn s.db)
    (h : Ok P (owns s i) s.db cmd (.finalize wallet tx ctx resolution))
    (hdraw : s.draw i P [inp.newId 0, inp.newId 1, inp.newId 2] = some s₁)
    (hdecide : decide P wallet tx ctx resolution inp.newId = .ok out)
    (hflush : (s.db.apply (claimWrites P tx)).flush out.2.2 = .ok ()) :
    Prepared P (owns s₁ i) s₁.db cmd [claimWrites P tx, out.2.2]
      ⟨out.1, false, out.2.1.balance⟩ := by
  have hdraws := draw_draws hdraw
  obtain ⟨hready, hresolution⟩ : Ready P (owns s₁ i) s.db cmd wallet tx ∧
      ResolutionOk P s.db tx resolution := ⟨h.1.stable hdraws.keeps (.refl _ _), h.2⟩
  have hne : inp.newId 1 ≠ inp.newId 2 := by
    have hnodup := hdraws.nodup
    simp only [List.nodup_cons, List.mem_cons, List.not_mem_nil, or_false] at hnodup
    exact hnodup.2.1
  have hsettled := decide_settles hc hready hresolution (hdraws.newId hd (by simp))
    (hdraws.newId hd (by simp)) hne hdecide hflush
  have hhash : tx.payloadHash = cmd.payloadHash P := by
    obtain ⟨now, hprops⟩ := hready.props_eq
    rw [hprops]
    rfl
  rw [hdraws.db]
  exact .intro hready.claimed hready.key hhash hsettled

/-! ### A step -/

theorem findByKey_answers {byKey : WagerTransaction} (hc : Consistent P d)
    (hfound : d.findByIdempotencyKey cmd.idempotencyKey = some byKey)
    (hmatches : byKey.matchesPayload (cmd.payloadHash P) = true) : Answers P d cmd byKey := by
  obtain ⟨hrow, hkey⟩ := lookup_mem hfound
  refine ⟨byKey, hrow, ?_, hkey, by simpa [WagerTransaction.matchesPayload] using hmatches⟩
  rw [(hc.rows byKey hrow).stored]

theorem step_ok (hc : Consistent P s.db) (hd : Drawn s.drawn s.db)
    (h : Ok P (owns s i) s.db cmd stage)
    (hstep : step P cmd i inp s stage = some (s', stage')) :
    Quiet P i s s' ∧ Ok P (owns s' i) s'.db cmd stage' := by
  cases step_way hstep with
  | opening => exact ⟨.refl P i s, trivial⟩
  | begin hkind => exact ⟨.refl P i s, hkind⟩
  | noUuid | noWallet | unclaimable | unnamed => exact ⟨abort_quiet, trivial⟩
  | otherPlayer locks => exact ⟨(take_acquires locks.takes).trans_quiet abort_quiet, trivial⟩
  | invalid locks _ draws =>
    exact ⟨(take_acquires locks.takes).trans_quiet
      ((draw_draws draws).toAcquires.trans_quiet abort_quiet), trivial⟩
  | drafted locks player draws create =>
    exact ⟨(take_acquires locks.takes).trans_quiet (draw_draws draws).toAcquires.quiet,
      locks.drafted hd player draws create⟩
  | keyTaken _ takes => exact ⟨(take_acquires takes).trans_quiet abort_quiet, trivial⟩
  | keyClaimed check takes free =>
    exact ⟨(take_acquires takes).quiet, Drafted.claimKey h check takes free⟩
  | externalTaken takes => exact ⟨(take_acquires takes).trans_quiet abort_quiet, trivial⟩
  | referring takes free draws requires =>
    obtain ⟨hquiet, hready⟩ := h.claimExternal hc takes free draws
    exact ⟨hquiet, hready, requires⟩
  | unreferring takes free draws requires =>
    obtain ⟨hquiet, hready⟩ := h.claimExternal hc takes free draws
    exact ⟨hquiet, hready, requires⟩
  | found finds => exact ⟨.refl P i s, h.1, h.2, h.1.reference_ok hc h.2 finds⟩
  | unresolved finds unresolved =>
    exact ⟨.refl P i s, h.1, findReference_resolutionOk h.2 finds unresolved⟩
  | resolved => exact ⟨.refl P i s, h.1, findReversal_resolutionOk h.2.1 h.2.2⟩
  | undecided draws | duplicated draws | unflushed draws =>
    exact ⟨(draw_draws draws).trans_quiet abort_quiet, trivial⟩
  | decided draws decides flush =>
    exact ⟨(draw_draws draws).quiet, h.finalize hc hd draws decides flush⟩
  | sameKey found matching => exact ⟨.refl P i s, findByKey_answers hc found matching⟩
  | replayed => exact ⟨.refl P i s, h, by simp⟩
  | noKey | otherPayload | otherKey | unexplained => exact ⟨.refl P i s, trivial⟩

/-! ### The commit -/

/-- The claim and what settles it are one change: the row is written twice. -/
theorem applyAll_claim {w : Writes} (hrow : w.wagerTransactions = [toWagerTransactionEntity P tx'])
    (hid : tx'.id = tx.id) : d.applyAll [claimWrites P tx, w] = d.apply w := by
  have htwice : upsert (·.id) (upsert (·.id) d.wagerTransactions (toWagerTransactionEntity P tx))
      (toWagerTransactionEntity P tx') =
        upsert (·.id) d.wagerTransactions (toWagerTransactionEntity P tx') :=
    upsert_upsert hid.symm
  simp only [Database.applyAll, List.foldl_cons, List.foldl_nil, Database.apply, claimWrites, hrow,
    upsertAll_nil, upsertAll_cons, List.append_nil, htwice]

theorem Prepared.permitted {writes : List Writes} {result : SubmitWagerTransactionResult}
    (h : Prepared P own d cmd writes result) :
    ∃ w, d.applyAll writes = d.applyAll [w] ∧ Settled P own d w := by
  obtain ⟨claimed, key, hash, settled⟩ := h
  rename_i tx tx' w balance
  exact ⟨w, applyAll_claim settled.settles.row (congrArg (·.id) settled.props), settled.settled⟩

/-- Once what was prepared is committed, the row is there. -/
theorem Prepared.returned {writes : List Writes} {result : SubmitWagerTransactionResult}
    (h : Prepared P own d cmd writes result) (hown : ∀ id, own (.uuid id) → own' (.uuid id)) :
    Returned P own' (d.applyAll writes) cmd result := by
  obtain ⟨claimed, key, hash, settled⟩ := h
  rename_i tx tx' w balance
  have hid : tx'.id = tx.id := congrArg (·.id) settled.props
  rw [applyAll_claim settled.settles.row hid]
  refine ⟨⟨toWagerTransactionEntity P tx', ?_, rfl, ?_, ?_⟩, fun _ => ?_⟩
  · exact (Database.mem_transactions_apply settled.settles.row).mpr (Or.inl rfl)
  · exact (congrArg (·.idempotencyKey) settled.props).trans key
  · exact (congrArg (·.payloadHash) settled.props).trans hash
  · rw [show (SubmitWagerTransactionResult.mk tx' false balance).transaction.id = tx.id from hid]
    exact hown _ claimed.ownsId

end

end Submit

end WageringProcessor
