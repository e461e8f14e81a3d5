import PayDayCoin.ConnectInputs

/-!
# Connecting and disconnecting a block

`connectBlock` validates a block on top of its parent, writes the transaction index and
the block index through the open batch, and notifies the wallets; `disconnectBlock`
takes the block's transactions out of the index again, last first, and notifies the
wallets. Both work on a `Session`: the batch under way, the amounts that the block index
keeps in memory, and the wallets, which no abort of the batch takes back. A call that
fails has changed nothing of the session but the batch, and its batch is aborted, so the
error is all it returns.

`connectBlockCore` is the validation alone. Its state (`Tally`) holds the source's
accumulators. No caller passes `fJustCheck`, so it is `false` throughout, and so is
`-addrindex`.
-/

namespace PayDayCoin

open Library.Checks Library.Overlay

/-- Wallets registered with the node: what `SyncTransaction(tx, pblock, fConnect)` makes
of their state. -/
class CWalletInterface (W : Type) where
  /-- `SyncTransaction`. -/
  syncTransaction : CTransaction → Option CBlock → Bool → W → W

/-- `SyncWithWallets` for each transaction of a block. -/
def syncBlock {W : Type} [CWalletInterface W] (b : CBlock) (fConnect : Bool) (wallets : W) : W :=
  b.vtx.foldl (fun w tx => CWalletInterface.syncTransaction tx (some b) fConnect w) wallets

/-- What connecting or disconnecting one block reads besides the node's state. -/
structure BlockEnv where
  /-- The readings of `CheckBlock`. -/
  check : CheckEnv
  /-- The readings of `FetchInputs` and `DisconnectInputs`. -/
  disk : DiskEnv
  /-- The readings of `GetCoinAge`. -/
  coinAgeDisk : DiskEnv
  /-- The readings of `IsInitialBlockDownload()` at the `i`-th input of a transaction. -/
  ibd : Uint256 → ℕ → IBDReading
  /-- Whether `ReadFromDisk` of the block succeeds. -/
  readBlockOk : Bool
  /-- Whether a `TxnCommit` after this block succeeds. -/
  commitOk : Bool

/-- The accumulators of `ConnectBlock`. -/
structure Tally where
  nTxPos : UInt32
  mapQueuedChanges : TxMap := nothing
  nFees : ℤ := 0
  nValueIn : ℤ := 0
  nValueOut : ℤ := 0
  nStakeReward : ℤ := 0
  nSigOps : ℕ := 0
  /-- The signature checks made. -/
  checks : List SigCheck := []

/-- The state a chain of `ConnectBlock` and `DisconnectBlock` calls works on. -/
structure Session (W : Type) where
  /-- The records as the open batch shows them. -/
  db : TxDB
  /-- `nMint` of the block index, by block hash. -/
  nMint : Uint256 → ℤ
  /-- `nMoneySupply` of the block index, by block hash. -/
  nMoneySupply : Uint256 → ℤ
  /-- The registered wallets. -/
  wallets : W

/-- `CDiskBlockIndex(pindex)`, but for `hashNext`. -/
def diskBlockIndex (nMint nMoneySupply : Uint256 → ℤ) (hashNext : Uint256) (p : CBlockIndex) (pprev : PIndex) :
    CDiskBlockIndex where
  entry := p
  nHeight := pprev.length
  nMint := nMint p.hash
  nMoneySupply := nMoneySupply p.hash
  hashPrev := pprev.getBlockHash
  hashNext := hashNext

/-- The write of the parent's record, with a new `hashNext`. -/
def writePrev (nMint nMoneySupply : Uint256 → ℤ) (hashNext : Uint256) (pprev : PIndex) (db : TxDB) : TxDB :=
  match pprev with
  | [] => db
  | q :: pprev => db.writeBlockIndex (diskBlockIndex nMint nMoneySupply hashNext q pprev)

namespace CTransaction

variable [Crypto]

/-- One turn of the loop of `GetCoinAge`: the cent-seconds so far. -/
def addCoinAge (disk : DiskEnv) (T : TxMap) (pindexPrev : PIndex) (tx : CTransaction) (bnCentSecond : ℤ)
    (txin : CTxIn) : Option ℤ :=
  match disk.readTxIndex T tx.getHash txin.prevout with
  | none => some bnCentSecond
  | some txindex =>
    match disk.readTx tx.getHash txindex.pos with
    | none => some bnCentSecond
    | some txPrev =>
      match txPrev.vout[txin.prevout.n.toNat]? with
      | none => some bnCentSecond
      | some txout =>
        if tx.nTime < txPrev.nTime then none
        else if (isConfirmedInNPrevBlocks txindex pindexPrev (STAKE_MIN_CONFIRMATIONS - 1)).isSome then
          some bnCentSecond
        else some (bnCentSecond + (txout.nValue * (tx.nTime - txPrev.nTime).toNat).tdiv CENT)

/-- `CTransaction::GetCoinAge`, in coin-days; `none` when it fails. -/
def getCoinAge (disk : DiskEnv) (T : TxMap) (pindexPrev : PIndex) (tx : CTransaction) : Option UInt64 :=
  if tx.isCoinBase then some 0
  else do
    let bnCentSecond ← tx.vin.foldlM (addCoinAge disk T pindexPrev tx) 0
    return getuint64 (((bnCentSecond * CENT).tdiv COIN).tdiv (24 * 60 * 60))

end CTransaction

namespace CBlock

variable [Crypto] (params : CChainParams) (env : BlockEnv) (g : BestChain) (mempool : Uint256 → Option CTransaction)

/-- `ConnectBlock`'s work on a coinbase. -/
def connectCoinBase (s : Tally) (tx : CTransaction) : Except Reject Tally := do
  let nTxValueOut ← tx.getValueOut
  return { s with nValueOut := s.nValueOut + nTxValueOut }

/-- `ConnectBlock`'s work on the inputs of a transaction that is not a coinbase. -/
def connectTxInputs (T : TxMap) (p : CBlockIndex) (pprev : PIndex) (posThisTx : CDiskTxPos) (s : Tally)
    (tx : CTransaction) : Except Reject Tally := do
  let mapInputs ← tx.fetchInputs env.disk mempool T Caller.block s.mapQueuedChanges
  let nSigOps := s.nSigOps + (← tx.getP2SHSigOpCount mapInputs)
  rejectIf (MAX_BLOCK_SIGOPS < nSigOps) (.dos 100 "ConnectBlock() : too many sigops")
  let nTxValueIn ← tx.getValueIn mapInputs
  let nTxValueOut ← tx.getValueOut
  let (mapQueuedChanges, checks) ← tx.connectInputs params Caller.block g (env.ibd tx.getHash) mapInputs
    s.mapQueuedChanges posThisTx (p :: pprev) CScript.SCRIPT_VERIFY_NOCACHE true
  return { s with
    nSigOps := nSigOps
    nValueIn := s.nValueIn + nTxValueIn
    nValueOut := s.nValueOut + nTxValueOut
    nFees := if tx.isCoinStake then s.nFees else s.nFees + (nTxValueIn - nTxValueOut)
    nStakeReward := if tx.isCoinStake then nTxValueOut - nTxValueIn else s.nStakeReward
    mapQueuedChanges := mapQueuedChanges
    checks := s.checks ++ checks }

/-- `ConnectBlock`'s work on the values of a transaction. -/
def connectTxValues (T : TxMap) (p : CBlockIndex) (pprev : PIndex) (posThisTx : CDiskTxPos) (s : Tally)
    (tx : CTransaction) : Except Reject Tally :=
  if tx.isCoinBase then connectCoinBase s tx else connectTxInputs params env g mempool T p pprev posThisTx s tx

/-- One turn of the loop of `ConnectBlock`. -/
def connectTx (T : TxMap) (p : CBlockIndex) (pprev : PIndex) (s : Tally) (tx : CTransaction) :
    Except Reject Tally := do
  let nSigOps := s.nSigOps + tx.getLegacySigOpCount
  rejectIf (MAX_BLOCK_SIGOPS < nSigOps) (.dos 100 "ConnectBlock() : too many sigops")
  let posThisTx : CDiskTxPos := ⟨p.nFile, p.nBlockPos, s.nTxPos⟩
  let s := { s with nSigOps := nSigOps, nTxPos := s.nTxPos + UInt32.ofNat tx.getSerializeSize }
  let s ← connectTxValues params env g mempool T p pprev posThisTx s tx
  return { s with
    mapQueuedChanges :=
      Function.update s.mapQueuedChanges tx.getHash (some (CTxIndex.new posThisTx tx.vout.length)) }

/-- The position of the first transaction: after the header and the number of
transactions. -/
def firstTxPos (b : CBlock) (p : CBlockIndex) : UInt32 :=
  p.nBlockPos + UInt32.ofNat (headerSize + CTransaction.getSizeOfCompactSize b.vtx.length)

/-- The reward check of a proof-of-work block: its coinbase pays at most the reward. -/
def checkWorkReward (b : CBlock) (pprev : PIndex) (s : Tally) : Except Reject Unit := do
  let nReward := getProofOfWorkReward pprev.length s.nFees
  let nValueOut ← (b.vtx.headD default).getValueOut
  rejectIf (nReward < nValueOut) (.dos 50 "ConnectBlock() : coinbase reward exceeded")

/-- The reward check of a proof-of-stake block: its coinstake pays at most the reward. -/
def checkStakeReward (T : TxMap) (b : CBlock) (pprev : PIndex) (s : Tally) : Except Reject Unit := do
  let nCoinAge ← orReject ((b.vtx.tail.headD default).getCoinAge env.coinAgeDisk T pprev)
    (.error "ConnectBlock() : unable to get coin age for coinstake")
  rejectIf (getProofOfStakeReward pprev nCoinAge s.nFees < s.nStakeReward)
    (.dos 100 "ConnectBlock() : coinstake pays too much")

/-- The reward check of `ConnectBlock`. -/
def checkReward (T : TxMap) (b : CBlock) (pprev : PIndex) (s : Tally) : Except Reject Unit :=
  if b.isProofOfStake then b.checkStakeReward env T pprev s else b.checkWorkReward pprev s

/-- `ConnectBlock` up to the point where it starts to write: `CheckBlock`, the loop over
the transactions, and the reward check. -/
def connectBlockCore (T : TxMap) (p : CBlockIndex) (pprev : PIndex) (b : CBlock) : Except Reject Tally := do
  b.checkBlock params env.check g true true false
  let s ← b.vtx.foldlM (connectTx params env g mempool T p pprev) { nTxPos := b.firstTxPos p }
  b.checkReward env T pprev s
  return s

variable {W : Type} [CWalletInterface W]

/-- What `ConnectBlock` does once its checks have passed: the amounts of the block index,
the records, and the notification of the wallets. -/
def writeConnected (pnext : Uint256 → Option Uint256) (b : CBlock) (p : CBlockIndex) (pprev : PIndex) (s : Tally)
    (σ : Session W) : Session W :=
  let nMint := Function.update σ.nMint p.hash (s.nValueOut - s.nValueIn + s.nFees)
  let nMoneySupply := Function.update σ.nMoneySupply p.hash
    ((match pprev with | [] => 0 | q :: _ => σ.nMoneySupply q.hash) + s.nValueOut - s.nValueIn)
  let db := σ.db.writeBlockIndex (diskBlockIndex nMint nMoneySupply ((pnext p.hash).getD 0) p pprev)
  let db := { db with txIndex := overlay s.mapQueuedChanges db.txIndex, connected := p.hash :: db.connected }
  { db := writePrev nMint nMoneySupply p.hash pprev db
    nMint := nMint
    nMoneySupply := nMoneySupply
    wallets := syncBlock b true σ.wallets }

/-- `CBlock::ConnectBlock`, with `pindex = p :: pprev`. -/
def connectBlock (pnext : Uint256 → Option Uint256) (b : CBlock) (p : CBlockIndex) (pprev : PIndex)
    (σ : Session W) : Except Reject (Session W) := do
  let s ← b.connectBlockCore params env g mempool σ.db.txIndex p pprev
  return b.writeConnected pnext p pprev s σ

/-- The loop of `DisconnectBlock`: the inputs of the transactions, last first. -/
def disconnectTxs (T : TxMap) (b : CBlock) : Except Reject TxMap :=
  b.vtx.reverse.foldlM (CTransaction.disconnectInputs env.disk) T

/-- What `DisconnectBlock` does once the transactions are out of the index. -/
def writeDisconnected (b : CBlock) (p : CBlockIndex) (pprev : PIndex) (T : TxMap) (σ : Session W) : Session W :=
  let db := { σ.db with txIndex := T, connected := σ.db.connected.erase p.hash }
  { σ with
    db := writePrev σ.nMint σ.nMoneySupply 0 pprev db
    wallets := syncBlock b false σ.wallets }

/-- `CBlock::DisconnectBlock`, with `pindex = p :: pprev`. -/
def disconnectBlock (b : CBlock) (p : CBlockIndex) (pprev : PIndex) (σ : Session W) :
    Except Reject (Session W) := do
  let T ← b.disconnectTxs env σ.db.txIndex
  return b.writeDisconnected p pprev T σ

end CBlock

end PayDayCoin
