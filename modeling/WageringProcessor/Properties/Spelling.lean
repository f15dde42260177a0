import WageringProcessor.Invariants.Spelling
import WageringProcessor.Runs

/-!
# The same ids in two spellings

A submit comes to the same for two spellings of its ids exactly where it does not read them.
-/

namespace WageringProcessor

open Library.Interleaving

variable {P : Platform} {cmd cmd' : SubmitWagerTransactionCommand}

def bet (walletId : String) : SubmitWagerTransactionCommand :=
  submitCommand .bet "bet-1" none walletId

/-- The values that are drawn at the step number `n`. -/
def drawn (n : Nat) : Generated :=
  ⟨1000 * n, uuidText (10 * n), uuidText (10 * n + 1), fun k => uuidText (10 * n + 2 + k)⟩

end WageringProcessor
