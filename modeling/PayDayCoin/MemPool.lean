import PayDayCoin.ConnectInputs
import Mathlib.Data.List.AList

/-!
# The memory pool

`CTxMemPool` holds the transactions that wait for a block (`mapTx`) and, for each
outpoint they claim, which of their inputs claims it (`mapNextTx`). A `CInPoint` points
into `mapTx`; here it names the entry by its hash.

`acceptToMemoryPool` validates a transaction against the chain, the pool and the
InstantX locks and adds it. It shares `fetchInputs` and `connectInputs` with block
validation.
-/

namespace PayDayCoin

open Library.Checks Library.Overlay

/-- An input of a transaction in the pool. -/
structure CInPoint where
  hash : Uint256
  n : ℕ
deriving DecidableEq

/-- The memory pool. -/
structure CTxMemPool where
  mapTx : AList fun _ : Uint256 => CTransaction := ∅
  mapNextTx : COutPoint → Option CInPoint := nothing
  nTransactionsUpdated : ℕ := 0

namespace CTxMemPool

variable [Crypto]

/-- `CTxMemPool::lookup`. -/
def lookup (pool : CTxMemPool) (hash : Uint256) : Option CTransaction := pool.mapTx.lookup hash

/-- `CTxMemPool::addUnchecked`. -/
def addUnchecked (pool : CTxMemPool) (hash : Uint256) (tx : CTransaction) : CTxMemPool where
  mapTx := pool.mapTx.insert hash tx
  mapNextTx := tx.vin.zipIdx.foldl (fun m (txin, i) => Function.update m txin.prevout (some ⟨hash, i⟩)) pool.mapNextTx
  nTransactionsUpdated := pool.nTransactionsUpdated + 1

/-- `CTxMemPool::remove`. Removing recursively, it first removes the transactions that
spend an output of `tx`; `fuel` bounds the depth by the size of the pool. -/
def removeLoop : ℕ → CTransaction → Bool → CTxMemPool → CTxMemPool
  | 0, _, _, pool => pool
  | fuel + 1, tx, fRecursive, pool =>
    let hash := tx.getHash
    if (pool.lookup hash).isSome then
      let pool :=
        if fRecursive then
          (List.range tx.vout.length).foldl (fun pool i =>
            match pool.mapNextTx ⟨hash, UInt32.ofNat i⟩ with
            | none => pool
            | some it =>
              match pool.lookup it.hash with
              | none => pool
              | some child => removeLoop fuel child true pool) pool
        else pool
      { mapTx := pool.mapTx.erase hash
        mapNextTx := tx.vin.foldl (fun m txin => Function.update m txin.prevout none) pool.mapNextTx
        nTransactionsUpdated := pool.nTransactionsUpdated + 1 }
    else pool

/-- `CTxMemPool::remove`. -/
def remove (pool : CTxMemPool) (tx : CTransaction) (fRecursive : Bool) : CTxMemPool :=
  removeLoop (pool.mapTx.entries.length + 1) tx fRecursive pool

/-- `CTxMemPool::removeConflicts`: removes the transactions that claim an outpoint that
`tx` claims. -/
def removeConflicts (pool : CTxMemPool) (tx : CTransaction) : CTxMemPool :=
  tx.vin.foldl (fun pool txin =>
    match pool.mapNextTx txin.prevout with
    | none => pool
    | some it =>
      match pool.lookup it.hash with
      | none => pool
      | some txConflict => if txConflict ≠ tx then pool.remove txConflict true else pool) pool

/-- `CTxMemPool::clear`. -/
def clear (pool : CTxMemPool) : CTxMemPool where
  nTransactionsUpdated := pool.nTransactionsUpdated + 1

end CTxMemPool

/-! ### AcceptToMemoryPool -/

/-- `MIN_TX_FEE`. -/
def MIN_TX_FEE : ℤ := 10000

/-- `MIN_RELAY_TX_FEE`. -/
def MIN_RELAY_TX_FEE : ℤ := MIN_TX_FEE

/-- `DEFAULT_BLOCK_PRIORITY_SIZE`. -/
def DEFAULT_BLOCK_PRIORITY_SIZE : ℕ := 50000

/-- What a fee is for. -/
inductive GetMinFee_mode where
  | GMF_BLOCK
  | GMF_RELAY
  | GMF_SEND
deriving DecidableEq

/-- `GetMinFee`. -/
def getMinFee (tx : CTransaction) (nBytes : ℕ) (fAllowFree : Bool) (mode : GetMinFee_mode) : ℤ :=
  let nBaseFee := if mode = .GMF_RELAY then MIN_RELAY_TX_FEE else MIN_TX_FEE
  let nMinFee : ℤ := (1 + nBytes / 1000) * nBaseFee
  let nMinFee :=
    if fAllowFree && nBytes < (if mode = .GMF_SEND then 1000 else DEFAULT_BLOCK_PRIORITY_SIZE - 1000) then 0
    else nMinFee
  let nMinFee :=
    if nMinFee < nBaseFee && mode = .GMF_SEND && tx.vout.any (fun txout => txout.nValue < CENT) then nBaseFee
    else nMinFee
  if moneyRange nMinFee then nMinFee else MAX_MONEY

/-- What a call of `AcceptToMemoryPool` reads besides the chain and the pool. -/
structure MemPoolEnv where
  disk : DiskEnv
  ibd : ℕ → IBDReading
  /-- `mapLockedInputs`. -/
  mapLockedInputs : COutPoint → Option Uint256
  /-- `IsStandardTx`. -/
  isStandardTx : CTransaction → Bool
  /-- `AreInputsStandard`. -/
  areInputsStandard : CTransaction → MapPrevTx → Bool
  /-- Whether `mapDarksendBroadcastTxes` has the transaction. -/
  darksendBroadcast : Bool
  /-- Whether the limiter of free transactions is over its limit. -/
  freeLimited : Bool

namespace CTransaction

variable [Crypto] (params : CChainParams) (env : MemPoolEnv)

/-- The fee checks of `AcceptToMemoryPool`. -/
def checkMemPoolFees (tx : CTransaction) (nFees : ℤ) (fLimitFree fRejectInsaneFee ignoreFees : Bool) :
    Except Reject Unit := do
  let checkFree := !env.darksendBroadcast && !ignoreFees && fLimitFree
  rejectIf (checkFree && nFees < getMinFee tx tx.getSerializeSize true .GMF_RELAY)
    (.error "AcceptToMemoryPool : not enough fees")
  rejectIf (checkFree && nFees < MIN_RELAY_TX_FEE && env.freeLimited)
    (.error "AcceptableInputs : free transaction rejected by rate limiter")
  rejectIf (fRejectInsaneFee && MIN_RELAY_TX_FEE * 10000 < nFees) (.error "AcceptableInputs: : insane fees")

/-- `AcceptToMemoryPool`: the pool with the transaction. -/
def acceptToMemoryPool (g : BestChain) (T : TxMap) (pool : CTxMemPool) (tx : CTransaction)
    (fLimitFree fRejectInsaneFee ignoreFees : Bool) : Except Reject CTxMemPool := do
  tx.checkTransaction.mapError fun _ => .error "AcceptToMemoryPool : CheckTransaction failed"
  rejectIf tx.isCoinBase (.dos 100 "AcceptToMemoryPool : coinbase as individual tx")
  rejectIf tx.isCoinStake (.dos 100 "AcceptToMemoryPool : coinstake as individual tx")
  rejectIf (!params.testNet && !env.isStandardTx tx) (.error "AcceptToMemoryPool : nonstandard transaction")
  rejectIf (pool.lookup tx.getHash).isSome .fail
  rejectIf (tx.conflictsWithLock env.mapLockedInputs)
    (.dos 0 "AcceptToMemoryPool : conflicts with existing transaction lock")
  rejectIf (tx.vin.any fun txin => (pool.mapNextTx txin.prevout).isSome) .fail
  rejectIf (T tx.getHash).isSome .fail
  rejectIf (tx.vin.any fun txin => (T txin.prevout.hash).isNone) .fail
  let mapInputs ← tx.fetchInputs env.disk pool.lookup T Caller.mempool nothing
  rejectIf (!params.testNet && !env.areInputsStandard tx mapInputs)
    (.error "AcceptToMemoryPool : nonstandard transaction input")
  let nSigOps := tx.getLegacySigOpCount + (← tx.getP2SHSigOpCount mapInputs)
  rejectIf (MAX_TX_SIGOPS < nSigOps) (.dos 0 "AcceptToMemoryPool : too many sigops")
  let nFees := (← tx.getValueIn mapInputs) - (← tx.getValueOut)
  tx.checkMemPoolFees env nFees fLimitFree fRejectInsaneFee ignoreFees
  let _ ← (tx.connectInputs params Caller.mempool g env.ibd mapInputs nothing CDiskTxPos.memory g.pindexBest
    CScript.STANDARD_SCRIPT_VERIFY_FLAGS true).mapError fun _ => .error "AcceptToMemoryPool : ConnectInputs failed"
  let _ ← (tx.connectInputs params Caller.mempool g env.ibd mapInputs nothing CDiskTxPos.memory g.pindexBest
    CScript.MANDATORY_SCRIPT_VERIFY_FLAGS true).mapError fun _ => .error
      "AcceptToMemoryPool: : BUG! PLEASE REPORT THIS! ConnectInputs failed against MANDATORY but not STANDARD flags"
  return pool.addUnchecked tx.getHash tx

end CTransaction

end PayDayCoin
