import WageringProcessor.Invariants.Renaming
import WageringProcessor.Runs

/-!
# Submissions on different wallets

Two calls that run one after the other in either order, on different wallets, under different keys
and for different external ids that neither names as its reference.  Each does what it would have
done alone, so the orders differ in the ids and times that the calls generate.
-/

namespace WageringProcessor

open Library.Correspondence Library.Interleaving Library.Table WagerTransactionFinalizer

variable {P : Platform} {d : Database} {cmd cmd₁ cmd₂ : SubmitWagerTransactionCommand}
  {ρ : Id → Id → Prop}

/-! ## Two calls in either order -/

structure SameDatabase (ρ : Id → Id → Prop) (d d' : Database) : Prop where
  wallets : List.Forall₂ SameWalletRow d.wallets d'.wallets
  wagerTransactions : Multiset.Rel (Alike (SameTransaction ρ)) (d.wagerTransactions : Multiset _)
    d'.wagerTransactions
  ledgerEntries : Multiset.Rel (Alike (SameEntry ρ)) (d.ledgerEntries : Multiset _) d'.ledgerEntries
  outboxMessages : Multiset.Rel (Alike (SameMessage ρ)) (d.outboxMessages : Multiset _)
    d'.outboxMessages
  inboxMessages : d.inboxMessages = d'.inboxMessages

/-- Two pairs of additions that differ in their order and in what was generated. -/
theorem sameDatabase_swapped {d₁ d₁₂ d₂ d₂₁ : Database} {w₁ w₁' w₂ w₂' : Writes}
    (h₁ : Extends d d₁ w₁) (h₁₂ : Extends d₁ d₁₂ w₂) (h₂ : Extends d d₂ w₂')
    (h₂₁ : Extends d₂ d₂₁ w₁') (hsame₁ : SameWrites ρ w₁ w₁') (hsame₂ : SameWrites ρ w₂ w₂')
    (hown₁ : OwnRows P d cmd₁ w₁) (hown₂ : OwnRows P d cmd₂ w₂)
    (hne : P.canonical cmd₁.walletId ≠ P.canonical cmd₂.walletId) : SameDatabase ρ d₁₂ d₂₁ := by
  refine ⟨?_, ?_, ?_, ?_, ?_⟩
  · have hids : ∀ a b : WalletRow, SameWalletRow a b → a.id = b.id := fun _ _ => SameWalletRow.id
    have hrows : List.Forall₂ SameWalletRow d.wallets d.wallets :=
      List.forall₂_same.mpr fun _ _ => rfl
    have hdiffer : ∀ a ∈ w₁.wallets, ∀ b ∈ w₂.wallets, a.id ≠ b.id := by
      intro a ha b hb
      rw [(hown₁.wallets a ha).1, (hown₂.wallets b hb).1]
      exact hne
    rw [h₁₂.wallets, h₁.wallets, h₂₁.wallets, h₂.wallets,
      upsertAll_comm hdiffer (fun a ha => (hown₁.wallets a ha).2)
        fun b hb => (hown₂.wallets b hb).2]
    exact forall₂_upsertAll hids (forall₂_upsertAll hids hrows hsame₂.wallets) hsame₁.wallets
  · rw [h₁₂.wagerTransactions, h₁.wagerTransactions, h₂₁.wagerTransactions, h₂.wagerTransactions]
    exact rel_swapped hsame₁.wagerTransactions hsame₂.wagerTransactions
  · rw [h₁₂.ledgerEntries, h₁.ledgerEntries, h₂₁.ledgerEntries, h₂.ledgerEntries]
    exact rel_swapped hsame₁.ledgerEntries hsame₂.ledgerEntries
  · rw [h₁₂.outboxMessages, h₁.outboxMessages, h₂₁.outboxMessages, h₂.outboxMessages]
    exact rel_swapped hsame₁.outboxMessages hsame₂.outboxMessages
  · rw [h₁₂.inboxMessages, h₁.inboxMessages, h₂₁.inboxMessages, h₂.inboxMessages]

section

variable {c c' cA₁ cA₂ cB₁ cB₂ : Config Shared Proc} {i i₁ i₂ j₁ j₂ : Pid}
  {out outA₁ outA₂ outB₁ outB₂ : Except Exception SubmitWagerTransactionResult}

/-- Calls on different wallets can be made in either order. -/
theorem submits_independent (hinj : Function.Injective P.sha256)
    (h : Reachable (step P) initial c) (hcmds : Unconnected P cmd₁ cmd₂)
    (hA₁ : SubmitsAlone P i₁ cmd₁ c cA₁ outA₁) (hA₂ : SubmitsAlone P i₂ cmd₂ cA₁ cA₂ outA₂)
    (hB₂ : SubmitsAlone P j₂ cmd₂ c cB₂ outB₂) (hB₁ : SubmitsAlone P j₁ cmd₁ cB₂ cB₁ outB₁) :
    (∃ ρ : Id → Id → Prop, Relator.BiUnique ρ ∧
        (∀ a b, ρ a b → ¬c.shared.drawn a ∧ ¬c.shared.drawn b) ∧
          SameOutcome ρ outA₁ outB₁ ∧ SameOutcome ρ outA₂ outB₂ ∧
            SameDatabase ρ cA₂.shared.db cB₁.shared.db) ∧
      Untouched c.shared.db cA₁.shared.db (P.canonical cmd₂.walletId) := by
  have hc := (reachable_ok h).1.consistent
  obtain ⟨gA₁, sA₁⟩ := submitsAlone_submitted h hA₁
  obtain ⟨gA₂, sA₂⟩ := submitsAlone_submitted (hA₁.1.reachable h) hA₂
  obtain ⟨gB₂, sB₂⟩ := submitsAlone_submitted h hB₂
  obtain ⟨gB₁, sB₁⟩ := submitsAlone_submitted (hB₂.1.reachable h) hB₁
  have hcourse₁ := Submit.course hc cmd₁
  have hcourse₂ := Submit.course hc cmd₂
  have hown₁ := hcourse₁.ownRows hc sA₁.new
  refine ⟨?_, hown₁.untouched sA₁.extends_ hcmds.wallets⟩
  -- each call that runs second does what it would do first
  have hold : ∀ {d' : Database} {w : Writes} {g : Generated}, Extends c.shared.db d' w →
      g.New d' → g.New c.shared.db := fun he hnew t ht =>
    hnew t (he.wagerTransactions ▸ List.mem_append_left _ ht)
  have hnewA₂ := hold sA₁.extends_ sA₂.new
  have hnewB₁ := hold sB₂.extends_ sB₁.new
  have hexecuteA₂ := (hown₁.unrelated hcmds).execute_eq sA₁.extends_ hinj hc hnewA₂ sA₂.new
  have hexecuteB₁ := ((hcourse₂.ownRows hc sB₂.new).unrelated hcmds.symm).execute_eq sB₂.extends_
    hinj hc hnewB₁ sB₁.new
  have hanswerA₂ := sA₂.answer
  have hanswerB₁ := sB₁.answer
  have hextendsA₂ := sA₂.extends_
  have hextendsB₁ := sB₁.extends_
  have hdrewA₂ := sA₂.drew
  have hdrewB₁ := sB₁.drew
  rw [hexecuteA₂] at hanswerA₂ hextendsA₂ hdrewA₂
  rw [hexecuteB₁] at hanswerB₁ hextendsB₁ hdrewB₁
  have hdrewA₁ := sA₁.drew
  have hdrewB₂ := sB₂.drew
  -- what the first call and what the second call have drawn, each in the two orders
  set R₁ := Paired (gA₁.written (Submit.committed (Submit.execute P c.shared.db cmd₁ gA₁)))
    (gB₁.written (Submit.committed (Submit.execute P c.shared.db cmd₁ gB₁))) with hR₁
  set R₂ := Paired (gA₂.written (Submit.committed (Submit.execute P c.shared.db cmd₂ gA₂)))
    (gB₂.written (Submit.committed (Submit.execute P c.shared.db cmd₂ gB₂))) with hR₂
  obtain ⟨hout₁, hwrites₁⟩ := hcourse₁.same (ρ := fun a b => R₁ a b ∨ R₂ a b) sA₁.new hnewB₁
    fun a b hab => Or.inl hab
  obtain ⟨hout₂, hwrites₂⟩ := hcourse₂.same (ρ := fun a b => R₁ a b ∨ R₂ a b) hnewA₂ sB₂.new
    fun a b hab => Or.inr hab
  rw [sA₁.answer, hanswerB₁] at hout₁
  rw [hanswerA₂, sB₂.answer] at hout₂
  refine ⟨fun a b => R₁ a b ∨ R₂ a b, ?_, ?_, hout₁, hout₂, ?_⟩
  · refine biUnique_or (paired_biUnique hdrewA₁.nodup hdrewB₁.nodup)
      (paired_biUnique hdrewA₂.nodup hdrewB₂.nodup) ?_ ?_
    · exact fun a b c₁ hab hac => hdrewA₂.new a hac.left (hdrewA₁.drawn a hab.left)
    · exact fun a b c₁ hac hbc => hdrewB₁.new c₁ hac.right (hdrewB₂.drawn c₁ hbc.right)
  · rintro a b (hab | hab)
    · exact ⟨hdrewA₁.new a hab.left,
        fun hdrawn => hdrewB₁.new b hab.right (sB₂.drawn b hdrawn)⟩
    · exact ⟨fun hdrawn => hdrewA₂.new a hab.left (sA₁.drawn a hdrawn),
        hdrewB₂.new b hab.right⟩
  · exact sameDatabase_swapped sA₁.extends_ hextendsA₂ sB₂.extends_ hextendsB₁ hwrites₁ hwrites₂
      hown₁ (hcourse₂.ownRows hc hnewA₂) hcmds.wallets

end

/-! ## Two bets in either order -/

/-- A player opens a wallet in each of two currencies. -/
def twoWallets : List (Pid × Action) :=
  runCall 0 (.openWallet openCommand) 1 6 ++
    runCall 1 (.openWallet { openCommand with initialBalance := ⟨5000, usd⟩ }) 7 6

def betInBrl : SubmitWagerTransactionCommand := submitCommand .bet "bet-1" none (uuidText 10)

def betInUsd : SubmitWagerTransactionCommand :=
  { submitCommand .bet "bet-2" none (uuidText 70) with money := ⟨3000, usd⟩ }

/-- The configuration before the two bets, and those after each of them in the two orders. -/
def betsInEitherOrder : Option (Config Shared Proc × Config Shared Proc × Config Shared Proc ×
    Config Shared Proc × Config Shared Proc) := do
  let c ← exec (step localPlatform) initial twoWallets
  let cA₁ ← execAlone localPlatform 2 (.submit betInBrl) (inputs 13 6) c
  let cA₂ ← execAlone localPlatform 3 (.submit betInUsd) (inputs 19 6) cA₁
  let cB₂ ← execAlone localPlatform 2 (.submit betInUsd) (inputs 25 6) c
  let cB₁ ← execAlone localPlatform 3 (.submit betInBrl) (inputs 31 6) cB₂
  return (c, cA₁, cA₂, cB₂, cB₁)

theorem bets_independent : ∃ c cA₁ cA₂ cB₁ : Config Shared Proc, ∃ ρ : Id → Id → Prop,
    Reachable (step localPlatform) initial c ∧
      cA₂.shared.db.wallets.map (·.balanceAmount) = [7000, 2000] ∧
        SameDatabase ρ cA₂.shared.db cB₁.shared.db ∧
          Untouched c.shared.db cA₁.shared.db (uuidText 70) := by
  have hrun : betsInEitherOrder.any (fun out =>
      ((out.2.1.procs 2).outcome.isSome && (out.2.2.1.procs 3).outcome.isSome) &&
        ((out.2.2.2.1.procs 2).outcome.isSome && (out.2.2.2.2.procs 3).outcome.isSome) &&
          decide (out.2.2.1.shared.db.wallets.map (·.balanceAmount) = [7000, 2000])) = true := by
    decide +kernel
  have hcanonical : localPlatform.canonical (uuidText 10) = uuidText 10 ∧
      localPlatform.canonical (uuidText 70) = uuidText 70 := by
    decide +kernel
  have hcmds : Unconnected localPlatform betInBrl betInUsd := by
    refine ⟨?_, by decide +kernel, by decide +kernel, by decide +kernel, by decide +kernel⟩
    show localPlatform.canonical (uuidText 10) ≠ localPlatform.canonical (uuidText 70)
    rw [hcanonical.1, hcanonical.2]
    decide +kernel
  cases hout : betsInEitherOrder with
  | none =>
    rw [hout] at hrun
    cases hrun
  | some out =>
    rw [hout] at hrun
    simp only [Option.any_some, Bool.and_eq_true, decide_eq_true_eq,
      Option.isSome_iff_exists] at hrun
    obtain ⟨⟨⟨⟨outA₁, hA₁⟩, ⟨outA₂, hA₂⟩⟩, ⟨outB₂, hB₂⟩, ⟨outB₁, hB₁⟩⟩, hbalances⟩ := hrun
    unfold betsInEitherOrder at hout
    obtain ⟨c, hexec, hrest⟩ := Option.bind_eq_some_iff.mp hout
    obtain ⟨cA₁, hexecA₁, hrest⟩ := Option.bind_eq_some_iff.mp hrest
    obtain ⟨cA₂, hexecA₂, hrest⟩ := Option.bind_eq_some_iff.mp hrest
    obtain ⟨cB₂, hexecB₂, hrest⟩ := Option.bind_eq_some_iff.mp hrest
    obtain ⟨cB₁, hexecB₁, hrest⟩ := Option.bind_eq_some_iff.mp hrest
    obtain rfl := Option.some.inj hrest
    have h := reachable_of_exec hexec
    have hsubmitA₁ := submitsAlone_of_exec h hexecA₁ hA₁
    have hsubmitB₂ := submitsAlone_of_exec h hexecB₂ hB₂
    have hsubmitA₂ := submitsAlone_of_exec (hsubmitA₁.1.reachable h) hexecA₂ hA₂
    have hsubmitB₁ := submitsAlone_of_exec (hsubmitB₂.1.reachable h) hexecB₁ hB₁
    obtain ⟨⟨ρ, -, -, -, -, hsame⟩, huntouched⟩ := submits_independent localSha256_injective h hcmds
      hsubmitA₁ hsubmitA₂ hsubmitB₂ hsubmitB₁
    refine ⟨c, cA₁, cA₂, cB₁, ρ, h, hbalances, hsame, ?_⟩
    rw [← hcanonical.2]
    exact huntouched

end WageringProcessor
