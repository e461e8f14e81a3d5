import PayDayCoin.CheckBlock
import PayDayCoin.TxDB

/-!
# Fetching, connecting and disconnecting inputs

`fetchInputs` collects the transactions that a transaction spends from, with their
records; `connectInputs` checks the inputs against them and marks the outputs spent;
`disconnectInputs` clears the marks and erases the transaction's record. The memory
pool, the miner and block validation share the first two, and tell them apart by the
flags `fBlock` and `fMiner`. `connectInputs` also returns the evaluations of
`VerifySignature` it made, as `SigCheck`s.
-/

namespace PayDayCoin

open Library.Checks Library.Overlay

/-- Previous transactions and their records, by hash. -/
abbrev MapPrevTx := Uint256 → Option (CTxIndex × CTransaction)

/-- An evaluation `VerifySignature(txFrom, txTo, nIn, flags, nHashType) == result`. -/
structure SigCheck where
  txFrom : CTransaction
  txTo : CTransaction
  nIn : ℕ
  flags : UInt32
  nHashType : ℕ
  result : Bool
deriving DecidableEq

/-- `CDiskTxPos(1, 1, 1)`: the mark of a transaction that is in the memory pool. -/
def CDiskTxPos.memory : CDiskTxPos := ⟨1, 1, 1⟩

/-- Who calls: `fBlock` for `ConnectBlock`, `fMiner` for `CreateNewBlock`, neither for
`AcceptToMemoryPool`. -/
structure Caller where
  fBlock : Bool
  fMiner : Bool

/-- `ConnectBlock` calls. -/
def Caller.block : Caller := ⟨true, false⟩

/-- `AcceptToMemoryPool` calls. -/
def Caller.mempool : Caller := ⟨false, false⟩

/-- Whether the caller keeps pending changes: `fBlock || fMiner`. -/
def Caller.pending (c : Caller) : Bool := c.fBlock || c.fMiner

namespace CTransaction

variable [Crypto] (params : CChainParams) (disk : DiskEnv) (mempool : Uint256 → Option CTransaction)
  (T : TxMap) (c : Caller)

/-! ### FetchInputs -/

/-- The record of a previous transaction: the pending one, else the stored one. -/
def findTxIndex (mapTestPool : TxMap) (tx : CTransaction) (prevout : COutPoint) : Option CTxIndex :=
  if c.pending && (mapTestPool prevout.hash).isSome then mapTestPool prevout.hash
  else disk.readTxIndex T tx.getHash prevout

/-- The previous transaction that a record is of. -/
def readPrevTx (tx : CTransaction) (prevout : COutPoint) (txindex : CTxIndex) : Except Reject CTransaction :=
  if txindex.pos = CDiskTxPos.memory then
    orReject (mempool prevout.hash) (.error "FetchInputs() : mempool Tx prev not found")
  else orReject (disk.readTx tx.getHash txindex.pos) (.error "FetchInputs() : ReadFromDisk prev tx failed")

/-- One turn of the first loop of `FetchInputs`. -/
def fetchInput (mapTestPool : TxMap) (tx : CTransaction) (inputsRet : MapPrevTx) (txin : CTxIn) :
    Except Reject MapPrevTx :=
  let prevout := txin.prevout
  if (inputsRet prevout.hash).isSome then .ok inputsRet
  else
    match findTxIndex disk T c mapTestPool tx prevout with
    | some txindex => do
      let txPrev ← readPrevTx disk mempool tx prevout txindex
      return Function.update inputsRet prevout.hash (some (txindex, txPrev))
    | none =>
      if c.pending then .error (if c.fMiner then .fail else .error "FetchInputs() : prev tx index entry not found")
      else do
        let txPrev ← orReject (mempool prevout.hash) (.error "FetchInputs() : mempool Tx prev not found")
        return Function.update inputsRet prevout.hash (some (CTxIndex.new CDiskTxPos.null txPrev.vout.length, txPrev))

/-- One turn of the second loop of `FetchInputs`: the index is in range. -/
def checkPrevoutRange (inputsRet : MapPrevTx) (txin : CTxIn) : Except Reject Unit := do
  let (txindex, txPrev) ← orReject (inputsRet txin.prevout.hash) (.throws "inputsRet.count(prevout.hash) != 0")
  let n := txin.prevout.n.toNat
  rejectIf (txPrev.vout.length ≤ n || txindex.vSpent.length ≤ n) (.dos 100 "FetchInputs() : prevout.n out of range")

/-- `CTransaction::FetchInputs`. -/
def fetchInputs (mapTestPool : TxMap) (tx : CTransaction) : Except Reject MapPrevTx :=
  if tx.isCoinBase then .ok fun _ => none
  else do
    let inputsRet ← tx.vin.foldlM (fetchInput disk mempool T c mapTestPool tx) fun _ => none
    forM tx.vin (checkPrevoutRange inputsRet)
    return inputsRet

/-- `CTransaction::GetOutputFor`. -/
def getOutputFor (inputs : MapPrevTx) (txin : CTxIn) : Except Reject CTxOut := do
  let (_, txPrev) ← orReject (inputs txin.prevout.hash)
    (.throws "CTransaction::GetOutputFor() : prevout.hash not found")
  orReject txPrev.vout[txin.prevout.n.toNat]? (.throws "CTransaction::GetOutputFor() : prevout.n out of range")

/-- `CTransaction::GetValueIn`. -/
def getValueIn (tx : CTransaction) (inputs : MapPrevTx) : Except Reject ℤ :=
  if tx.isCoinBase then .ok 0
  else tx.vin.foldlM (fun nResult txin => do return nResult + (← getOutputFor inputs txin).nValue) 0

/-- `GetP2SHSigOpCount`. -/
def getP2SHSigOpCount (tx : CTransaction) (inputs : MapPrevTx) : Except Reject ℕ :=
  if tx.isCoinBase then .ok 0
  else
    tx.vin.foldlM (fun nSigOps txin => do
      let prevout ← getOutputFor inputs txin
      return nSigOps +
        if prevout.scriptPubKey.isPayToScriptHash then prevout.scriptPubKey.getSigOpCountP2SH txin.scriptSig else 0) 0

/-! ### ConnectInputs -/

/-- One turn of the first loop of `ConnectInputs`: the inexpensive checks of an input.
The accumulator is `nValueIn`. -/
def checkInput (tx : CTransaction) (inputs : MapPrevTx) (pindexBlock : PIndex) (nValueIn : ℤ) (txin : CTxIn) :
    Except Reject ℤ := do
  let (txindex, txPrev) ← orReject (inputs txin.prevout.hash) (.throws "inputs.count(prevout.hash) > 0")
  let n := txin.prevout.n.toNat
  let txout ← orReject txPrev.vout[n]? (.dos 100 "ConnectInputs() : prevout.n out of range")
  rejectIf (txindex.vSpent.length ≤ n) (.dos 100 "ConnectInputs() : prevout.n out of range")
  rejectIf ((txPrev.isCoinBase || txPrev.isCoinStake) &&
      (isConfirmedInNPrevBlocks txindex pindexBlock params.nCoinbaseMaturity).isSome)
    (.error "ConnectInputs() : tried to spend coinbase or coinstake at depth")
  rejectIf (tx.nTime < txPrev.nTime)
    (.dos 100 "ConnectInputs() : transaction timestamp earlier than input transaction")
  let nValueIn := nValueIn + txout.nValue
  rejectIf (!moneyRange txout.nValue || !moneyRange nValueIn) (.dos 100 "ConnectInputs() : txin values out of range")
  return nValueIn

/-- The verification of an input's signature, and what it evaluated. -/
def verifyInput (txPrev tx : CTransaction) (i : ℕ) (flags : UInt32) : Except Reject SigCheck :=
  if Crypto.verifySignature txPrev tx i flags 0 then .ok ⟨txPrev, tx, i, flags, 0, true⟩
  else if flags &&& CScript.STANDARD_NOT_MANDATORY_VERIFY_FLAGS ≠ 0 ∧
      Crypto.verifySignature txPrev tx i (flags &&& ~~~CScript.STANDARD_NOT_MANDATORY_VERIFY_FLAGS) 0 then
    .error (.error "ConnectInputs() : non-mandatory VerifySignature failed")
  else .error (.dos 100 "ConnectInputs() : VerifySignature failed")

/-- The guarded verification of an input's signature: skipped unless
`!(fBlock && !IsInitialBlockDownload())`. -/
def checkSignature (g : BestChain) (ibd : IBDReading) (txPrev tx : CTransaction) (i : ℕ) (flags : UInt32)
    (fValidateSig : Bool) : Except Reject (List SigCheck) :=
  if fValidateSig && !(c.fBlock && !isInitialBlockDownload params g.pindexBest g.nBestHeight ibd) then do
    let check ← verifyInput txPrev tx i flags
    return [check]
  else .ok []

/-- The state of the second loop of `ConnectInputs`: the local copy of the previous
transactions, the pending changes, and the signature checks made. -/
structure ConnectState where
  inputs : MapPrevTx
  mapTestPool : TxMap
  checks : List SigCheck

/-- One turn of the second loop of `ConnectInputs`: conflict check, signature check, and
the mark that the output is spent. -/
def spendInput (g : BestChain) (ibd : ℕ → IBDReading) (posThisTx : CDiskTxPos) (tx : CTransaction)
    (flags : UInt32) (fValidateSig : Bool) (s : ConnectState) (input : CTxIn × ℕ) : Except Reject ConnectState := do
  let (txin, i) := input
  let (txindex, txPrev) ← orReject (s.inputs txin.prevout.hash) (.throws "inputs.count(prevout.hash) > 0")
  let n := txin.prevout.n.toNat
  let spent ← orReject txindex.vSpent[n]? (.throws "vSpent[prevout.n]")
  rejectIf (!spent.isNull) (if c.fMiner then .fail else .error "ConnectInputs() : prev tx already used")
  let checks ← checkSignature params c g (ibd i) txPrev tx i flags fValidateSig
  let txindex := { txindex with vSpent := txindex.vSpent.set n posThisTx }
  return {
    inputs := Function.update s.inputs txin.prevout.hash (some (txindex, txPrev))
    mapTestPool :=
      if c.pending then Function.update s.mapTestPool txin.prevout.hash (some txindex) else s.mapTestPool
    checks := s.checks ++ checks }

/-- The end of `ConnectInputs`: a coinstake aside, the inputs cover the outputs. -/
def checkFees (tx : CTransaction) (nValueIn : ℤ) : Except Reject Unit :=
  if tx.isCoinStake then .ok ()
  else do
    let nValueOut ← tx.getValueOut
    rejectIf (nValueIn < nValueOut) (.dos 100 "ConnectInputs() : value in < value out")
    let nTxFee := nValueIn - nValueOut
    rejectIf (nTxFee < 0) (.dos 100 "ConnectInputs() : nTxFee < 0")
    rejectIf (!moneyRange nTxFee) (.dos 100 "ConnectInputs() : nFees out of range")

/-- `CTransaction::ConnectInputs`: the pending changes with the inputs marked spent, and
the signature checks made. -/
def connectInputs (g : BestChain) (ibd : ℕ → IBDReading) (inputs : MapPrevTx) (mapTestPool : TxMap)
    (posThisTx : CDiskTxPos) (pindexBlock : PIndex) (flags : UInt32) (fValidateSig : Bool) (tx : CTransaction) :
    Except Reject (TxMap × List SigCheck) :=
  if tx.isCoinBase then .ok (mapTestPool, [])
  else do
    let nValueIn ← tx.vin.foldlM (checkInput params tx inputs pindexBlock) 0
    let s ← tx.vin.zipIdx.foldlM (spendInput params c g ibd posThisTx tx flags fValidateSig) ⟨inputs, mapTestPool, []⟩
    checkFees tx nValueIn
    return (s.mapTestPool, s.checks)

/-! ### DisconnectInputs -/

/-- One turn of the loop of `DisconnectInputs`: the output is not spent any more. -/
def unspendInput (tx : CTransaction) (T : TxMap) (txin : CTxIn) : Except Reject TxMap := do
  let txindex ← orReject (disk.readTxIndex T tx.getHash txin.prevout)
    (.error "DisconnectInputs() : ReadTxIndex failed")
  let n := txin.prevout.n.toNat
  rejectIf (txindex.vSpent.length ≤ n) (.error "DisconnectInputs() : prevout.n out of range")
  return Function.update T txin.prevout.hash (some { txindex with vSpent := txindex.vSpent.set n CDiskTxPos.null })

/-- `CTransaction::DisconnectInputs`. -/
def disconnectInputs (T : TxMap) (tx : CTransaction) : Except Reject TxMap := do
  let T ← (if tx.isCoinBase then [] else tx.vin).foldlM (unspendInput disk tx) T
  return Function.update T tx.getHash none

end CTransaction

end PayDayCoin
