import PayDayCoin.Library.Checks
import PayDayCoin.Script

/-!
# Transactions

Outpoints, inputs, outputs and transactions, with the checks that need no context:
the shape tests (`isCoinBase`, `isCoinStake`), the sums of values, the serialized
sizes and `checkTransaction`.

Amounts are integers. The source's `int64_t` sums are checked against `MAX_MONEY`
after each addition wherever a verdict rests on them, so a sum that could wrap is
rejected before it is used.

A check that fails carries the source's own words: `Reject.error` is a logged
`return false`, `Reject.dos` also scores the peer, `Reject.fail` is a silent
`return false`, and `Reject.throws` an exception.
-/

namespace PayDayCoin

open Library.Checks

/-! ### Amounts and limits -/

/-- One coin, in base units. -/
def COIN : ℤ := 100000000

/-- A hundredth of a coin. -/
def CENT : ℤ := 1000000

/-- No amount larger than this is valid. -/
def MAX_MONEY : ℤ := 294336000 * COIN

/-- `MoneyRange`. -/
def moneyRange (nValue : ℤ) : Bool := 0 ≤ nValue && nValue ≤ MAX_MONEY

/-- The largest serialized block. -/
def MAX_BLOCK_SIZE : ℕ := 3000000

/-- The most signature operations in a block. -/
def MAX_BLOCK_SIGOPS : ℕ := MAX_BLOCK_SIZE / 50

/-- The most signature operations in a relayed transaction. -/
def MAX_TX_SIGOPS : ℕ := MAX_BLOCK_SIGOPS / 5

/-- The clock tolerance of block times, in seconds. -/
def DRIFT : ℤ := 600

/-- `FutureDrift`. -/
def futureDrift (nTime : ℤ) : ℤ := nTime + DRIFT

/-- Below this, `nLockTime` is a height, from it on a time. -/
def LOCKTIME_THRESHOLD : ℤ := 500000000

/-- How a check fails. -/
inductive Reject where
  /-- `return false`, without a message. -/
  | fail
  /-- `return error(...)`. -/
  | error (msg : String)
  /-- `return DoS(score, error(...))`: the peer is scored as well. -/
  | dos (score : ℕ) (msg : String)
  /-- An exception. -/
  | throws (msg : String)
deriving DecidableEq, Repr

/-! ### The data -/

/-- An outpoint: an output of a transaction, by the transaction's hash and the index. -/
structure COutPoint where
  hash : Uint256
  n : UInt32
deriving DecidableEq, Repr, Inhabited

/-- The null outpoint, which the only input of a coinbase has. -/
def COutPoint.null : COutPoint := ⟨0, 0xffffffff⟩

/-- `COutPoint::IsNull`. -/
def COutPoint.isNull (o : COutPoint) : Bool := o.hash == 0 && o.n == 0xffffffff

/-- An input: the output it claims, and the script that satisfies that output's script. -/
structure CTxIn where
  prevout : COutPoint
  scriptSig : CScript
  nSequence : UInt32 := 0xffffffff
deriving DecidableEq, Repr, Inhabited

/-- `CTxIn::IsFinal`. -/
def CTxIn.isFinal (txin : CTxIn) : Bool := txin.nSequence == 0xffffffff

/-- An output: an amount, and the script that guards it. -/
structure CTxOut where
  nValue : ℤ
  scriptPubKey : CScript
deriving DecidableEq, Repr, Inhabited

/-- `CTxOut::IsEmpty`. -/
def CTxOut.isEmpty (txout : CTxOut) : Bool := txout.nValue == 0 && txout.scriptPubKey.isEmpty

/-- A transaction, with its own time stamp. -/
structure CTransaction where
  nVersion : Int32 := 1
  nTime : UInt32
  vin : List CTxIn
  vout : List CTxOut
  nLockTime : UInt32 := 0
deriving DecidableEq, Repr, Inhabited

namespace CTransaction

/-- `CTransaction::IsCoinBase`: one input, with a null outpoint. -/
def isCoinBase (tx : CTransaction) : Bool :=
  match tx.vin with
  | [txin] => txin.prevout.isNull && 1 ≤ tx.vout.length
  | _ => false

/-- `CTransaction::IsCoinStake`: marked by an empty first output. -/
def isCoinStake (tx : CTransaction) : Bool :=
  match tx.vin, tx.vout with
  | txin :: _, txout :: _ :: _ => !txin.prevout.isNull && txout.isEmpty
  | _, _ => false

/-- One turn of the loop of `GetValueOut`. -/
def addValueOut (nValueOut : ℤ) (txout : CTxOut) : Except Reject ℤ := do
  let nValueOut := nValueOut + txout.nValue
  rejectIf (!moneyRange txout.nValue || !moneyRange nValueOut)
    (.throws "CTransaction::GetValueOut() : value out of range")
  return nValueOut

/-- `CTransaction::GetValueOut`: the sum of the outputs. -/
def getValueOut (tx : CTransaction) : Except Reject ℤ := tx.vout.foldlM addValueOut 0

/-! ### Serialized sizes -/

/-- `GetSizeOfCompactSize`. -/
def getSizeOfCompactSize (nSize : ℕ) : ℕ :=
  if nSize < 253 then 1 else if nSize ≤ 0xffff then 3 else if nSize ≤ 0xffffffff then 5 else 9

/-- The size of a serialized script: its length, then its bytes. -/
def scriptSize (s : CScript) : ℕ := getSizeOfCompactSize s.length + s.length

/-- `GetSerializeSize` of an input: outpoint, script, sequence number. -/
def txinSize (txin : CTxIn) : ℕ := 36 + scriptSize txin.scriptSig + 4

/-- `GetSerializeSize` of an output: amount, script. -/
def txoutSize (txout : CTxOut) : ℕ := 8 + scriptSize txout.scriptPubKey

/-- `GetSerializeSize` of a transaction. -/
def getSerializeSize (tx : CTransaction) : ℕ :=
  8 + (getSizeOfCompactSize tx.vin.length + (tx.vin.map txinSize).sum) +
    (getSizeOfCompactSize tx.vout.length + (tx.vout.map txoutSize).sum) + 4

/-! ### Checks without context -/

/-- One turn of `CheckTransaction`'s loop over the outputs. -/
def checkOutput (tx : CTransaction) (nValueOut : ℤ) (txout : CTxOut) : Except Reject ℤ := do
  rejectIf (txout.isEmpty && !tx.isCoinBase && !tx.isCoinStake)
    (.dos 100 "CTransaction::CheckTransaction() : txout empty for user transaction")
  rejectIf (txout.nValue < 0) (.dos 100 "CTransaction::CheckTransaction() : txout.nValue negative")
  rejectIf (MAX_MONEY < txout.nValue) (.dos 100 "CTransaction::CheckTransaction() : txout.nValue too high")
  let nValueOut := nValueOut + txout.nValue
  rejectIf (!moneyRange nValueOut) (.dos 100 "CTransaction::CheckTransaction() : txout total out of range")
  return nValueOut

/-- `CTransaction::CheckTransaction`. -/
def checkTransaction (tx : CTransaction) : Except Reject Unit := do
  rejectIf tx.vin.isEmpty (.dos 10 "CTransaction::CheckTransaction() : vin empty")
  rejectIf tx.vout.isEmpty (.dos 10 "CTransaction::CheckTransaction() : vout empty")
  rejectIf (MAX_BLOCK_SIZE < tx.getSerializeSize) (.dos 100 "CTransaction::CheckTransaction() : size limits failed")
  let _ ← tx.vout.foldlM tx.checkOutput 0
  rejectIf (!(tx.vin.map CTxIn.prevout).Nodup) .fail
  if tx.isCoinBase then
    let nSize := ((tx.vin.map CTxIn.scriptSig).headD []).length
    rejectIf (nSize < 2 || 100 < nSize) (.dos 100 "CTransaction::CheckTransaction() : coinbase script size is invalid")
  else
    rejectIf (tx.vin.any fun txin => txin.prevout.isNull)
      (.dos 10 "CTransaction::CheckTransaction() : prevout is null")

/-- `IsFinalTx`, with the height and the time it falls back on when given none. -/
def isFinalTx (tx : CTransaction) (nBestHeight : ℕ) (adjustedTime : ℤ) (nBlockHeight : ℕ) (nBlockTime : ℤ) : Bool :=
  let nBlockHeight := if nBlockHeight = 0 then nBestHeight else nBlockHeight
  let nBlockTime := if nBlockTime = 0 then adjustedTime else nBlockTime
  let nLockTime : ℤ := tx.nLockTime.toNat
  tx.nLockTime == 0 || nLockTime < (if nLockTime < LOCKTIME_THRESHOLD then (nBlockHeight : ℤ) else nBlockTime) ||
    tx.vin.all CTxIn.isFinal

/-- `GetLegacySigOpCount`. -/
def getLegacySigOpCount (tx : CTransaction) : ℕ :=
  (tx.vin.map fun txin => txin.scriptSig.getSigOpCount false).sum +
    (tx.vout.map fun txout => txout.scriptPubKey.getSigOpCount false).sum

/-! ### What the checks establish -/

/-- A coinbase has one input, and it claims the null outpoint. -/
theorem isCoinBase_iff {tx : CTransaction} :
    tx.isCoinBase = true ↔ ∃ txin, tx.vin = [txin] ∧ txin.prevout.isNull = true ∧ 1 ≤ tx.vout.length := by
  unfold isCoinBase
  split
  · next txin h => simp [h]
  · next h => simpa using fun txin hv => absurd hv (h txin)

/-- A coinbase is not a coinstake. -/
theorem isCoinStake_of_isCoinBase {tx : CTransaction} (h : tx.isCoinBase = true) : tx.isCoinStake = false := by
  obtain ⟨txin, hvin, hnull, -⟩ := isCoinBase_iff.1 h
  unfold isCoinStake
  split
  · next txin' _ txout _ _ hv _ =>
    rw [hvin, List.cons.injEq] at hv
    rw [← hv.1, hnull]
    rfl
  · rfl

theorem checkOutput_eq_ok {tx : CTransaction} {v w : ℤ} {txout : CTxOut} (h : tx.checkOutput v txout = .ok w) :
    addValueOut v txout = .ok w := by
  simp only [checkOutput, bind_eq_ok, rejectIf_eq_ok, pure_eq_ok] at h
  obtain ⟨-, -, -, hneg, -, hmax, -, hsum, hw⟩ := h
  simp only [decide_eq_false_iff_not, not_lt] at hneg hmax
  have hr : moneyRange txout.nValue = true := by simp [moneyRange, hneg, hmax]
  simp only [addValueOut, bind_eq_ok, rejectIf_eq_ok, pure_eq_ok]
  exact ⟨(), by rw [hr, hsum]; rfl, hw⟩

/-- The facts about a transaction that `CheckTransaction` lets through. -/
structure Checked (tx : CTransaction) : Prop where
  /-- It has an input. -/
  vin_ne : tx.vin ≠ []
  /-- It has an output. -/
  vout_ne : tx.vout ≠ []
  /-- The sum of its outputs is in range, at every step of the sum. -/
  valueOut : ∃ v, tx.getValueOut = .ok v
  /-- No outpoint is claimed twice. -/
  nodup : (tx.vin.map CTxIn.prevout).Nodup
  /-- The script of a coinbase has at most `100` bytes. -/
  coinbase : tx.isCoinBase = true → ∀ txin ∈ tx.vin, txin.scriptSig.length ≤ 100
  /-- No other transaction claims the null outpoint. -/
  prevout : tx.isCoinBase = false → ∀ txin ∈ tx.vin, txin.prevout.isNull = false

/-- A loop of `checkOutput` that succeeds computes the sum of the outputs. -/
theorem foldlM_checkOutput {tx : CTransaction} {l : List CTxOut} :
    ∀ {v w : ℤ}, l.foldlM tx.checkOutput v = .ok w → l.foldlM addValueOut v = .ok w := by
  induction l with
  | nil => intro v w h; exact h
  | cons txout l ih =>
    intro v w h
    obtain ⟨v', h₁, h₂⟩ := foldlM_cons_eq_ok.1 h
    exact foldlM_cons_eq_ok.2 ⟨v', checkOutput_eq_ok h₁, ih h₂⟩

theorem checked_of_checkTransaction {tx : CTransaction} {u : Unit} (h : tx.checkTransaction = .ok u) : tx.Checked := by
  simp only [checkTransaction, bind_eq_ok, rejectIf_eq_ok, List.isEmpty_eq_false_iff] at h
  obtain ⟨-, hvin, -, hvout, -, -, v, hsum, -, hnodup, hlast⟩ := h
  simp only [Bool.not_eq_false', decide_eq_true_eq] at hnodup
  refine ⟨hvin, hvout, ⟨v, foldlM_checkOutput hsum⟩, hnodup, fun hcb txin hmem => ?_, fun hcb txin hmem => ?_⟩
  · obtain ⟨txin', hv, -⟩ := isCoinBase_iff.1 hcb
    rw [if_pos hcb, rejectIf_eq_ok, hv] at hlast
    rw [hv, List.mem_singleton] at hmem
    subst hmem
    simp at hlast
    exact hlast.2
  · rw [if_neg (by simp [hcb]), rejectIf_eq_ok, List.any_eq_false] at hlast
    simpa using hlast txin hmem

end CTransaction

end PayDayCoin
