import PayDayCoin.BestChain
import PayDayCoin.Library.Runs

/-!
# Accepting blocks, and runs of a node

`acceptBlock` checks a block's place in the chain, stores it and adds it to the block
index (`addToBlockIndex`), which calls `setBestChain` when the new chain has more trust
than the best one. A `Run` of a node is a sequence of calls of `AcceptBlock` and
`AcceptToMemoryPool`, in any order and with any outcome of what the environment decides,
from the state in which the genesis block has been installed (`Node.genesis`).
-/

namespace PayDayCoin

open Library.Checks Library.Overlay

/-- A position in a block file that `OpenBlockFile` accepts. -/
structure BlockPos where
  nFile : UInt32
  nBlockPos : UInt32
  openable : nFile ≠ 0xffffffff

/-- What a call of `AcceptBlock` reads besides the block and the node's state. -/
structure AcceptEnv where
  /-- `GetAdjustedTime()`. -/
  adjustedTime : ℤ
  /-- The readings of `CheckProofOfStake`. -/
  disk : DiskEnv
  /-- The block header at a position. -/
  readHeader : UInt32 → UInt32 → Option CBlockHeader
  /-- Where `WriteToDisk` puts the block; `none` when there is no space or it fails. -/
  writeToDisk : Option BlockPos
  /-- Whether the commit of the new index entry succeeds. -/
  indexCommitOk : Bool
  /-- The readings of `SetBestChain`. -/
  chain : ChainEnv

/-- `nCheckpointSpan`. -/
def nCheckpointSpan : ℕ := 5000

/-- `Checkpoints::AutoSelectSyncCheckpoint`: the youngest block of the best chain that is
`nCheckpointSpan` deep, or the genesis block. -/
def autoSelectSyncCheckpoint (nBestHeight : ℕ) : PIndex → PIndex
  | p :: q :: pprev =>
    if nBestHeight < (q :: pprev).length + nCheckpointSpan then autoSelectSyncCheckpoint nBestHeight (q :: pprev)
    else p :: q :: pprev
  | pindex => pindex

/-- `Checkpoints::CheckSync`. -/
def checkSync (pindexBest : PIndex) (nHeight : ℕ) : Bool :=
  (autoSelectSyncCheckpoint pindexBest.nHeight pindexBest).nHeight < nHeight

/-- What the kernel tests read for `AcceptBlock`. -/
def AcceptEnv.kernel (env : AcceptEnv) (T : TxMap) (hashTx : Uint256) (prevout : COutPoint) : KernelEnv where
  readTxIndex _ := env.disk.readTxIndex T hashTx prevout
  readTx := env.disk.readTx hashTx
  readHeader := env.readHeader

section AcceptBlock

variable [Crypto] {W : Type} [CWalletInterface W] (params : CChainParams) (env : AcceptEnv)

/-! ### The checks of AcceptBlock -/

/-- The script that a coinbase at a height starts with: `CScript() << nHeight`. -/
def heightPrefix (nHeight : ℕ) : CScript := CScript.pushInt64 [] nHeight

/-- The proof hash of a block, in `AcceptBlock`: that of its kernel, which is checked, or
its proof-of-work hash. -/
def checkProof (T : TxMap) (b : CBlock) (pindexPrev : PIndex) : Except Reject Uint256 :=
  let coinstake := b.vtx.tail.headD default
  if b.isProofOfStake then
    (checkProofOfStake (env.kernel T coinstake.getHash (coinstake.vin.headD default).prevout)
      pindexPrev coinstake b.nBits).mapError fun _ => .error "AcceptBlock() : check proof-of-stake failed"
  else .ok b.getPoWHash

/-- The checks of `AcceptBlock` on a block whose parent is known: the proof hash. -/
def checkAccept (node : Node W) (b : CBlock) (pindexPrev : PIndex) : Except Reject Uint256 := do
  let nHeight := pindexPrev.nHeight + 1
  let coinbase := b.vtx.headD default
  let coinstake := b.vtx.tail.headD default
  rejectIf (b.isProofOfWork && params.lastPOWBlock < nHeight) (.dos 100 "AcceptBlock() : reject proof-of-work at height")
  rejectIf (b.isProofOfStake && nHeight < params.posStartBlock)
    (.dos 100 "AcceptBlock() : reject proof-of-stake at height")
  rejectIf (futureDrift coinbase.nTime.toNat < b.getBlockTime && b.isProofOfStake)
    (.dos 50 "AcceptBlock() : coinbase timestamp is too early")
  rejectIf (b.isProofOfStake && !checkCoinStakeTimestamp b.nTime coinstake.nTime)
    (.dos 50 "AcceptBlock() : coinstake timestamp violation")
  rejectIf (b.nBits != getNextTargetRequired params pindexPrev b.isProofOfStake)
    (.dos 100 "AcceptBlock() : incorrect proof-of-work or proof-of-stake")
  let (pastTimeLimit, prevTime) :=
    match pindexPrev with
    | [] => (0, 0)
    | prev :: _ => (prev.getPastTimeLimit, prev.getBlockTime)
  rejectIf (b.getBlockTime ≤ pastTimeLimit || futureDrift b.getBlockTime < prevTime)
    (.error "AcceptBlock() : block's timestamp is too early")
  rejectIf (!b.vtx.all fun tx => tx.isFinalTx node.best.nBestHeight env.adjustedTime nHeight b.getBlockTime)
    (.dos 10 "AcceptBlock() : contains a non-final transaction")
  rejectIf (!params.checkHardened nHeight b.getHash)
    (.dos 100 "AcceptBlock() : rejected by hardened checkpoint lock-in")
  let hashProof ← checkProof env node.db.txIndex b pindexPrev
  rejectIf (!checkSync node.best.pindexBest nHeight) (.error "AcceptBlock() : rejected by synchronized checkpoint")
  rejectIf (!(heightPrefix nHeight).isPrefixOf (coinbase.vin.headD default).scriptSig)
    (.dos 100 "AcceptBlock() : block height mismatch in coinbase")
  return hashProof

/-! ### AddToBlockIndex -/

/-- The entry that `AddToBlockIndex` makes for a block, but for the stake modifier. -/
def newEntry (b : CBlock) (pos : BlockPos) (hashProof : Uint256) (pprev : PIndex) (modifier : UInt64 × Bool) :
    CBlockIndex where
  hash := b.getHash
  nFile := pos.nFile
  nBlockPos := pos.nBlockPos
  block := b
  hashProof := hashProof
  nStakeModifier := modifier.1
  generatedStakeModifier := modifier.2
  bnStakeModifierV2 := computeStakeModifierV2 pprev
    (if b.isProofOfWork then b.getHash else ((b.vtx.tail.headD default).vin.headD default).prevout.hash)
  openable := pos.openable

/-- The state in which the entry is in `mapBlockIndex`. -/
def Node.insertEntry (node : Node W) (p : CBlockIndex) (pprev : PIndex) : Node W :=
  { node with mapBlockIndex := Function.update node.mapBlockIndex p.hash (some (p :: pprev)) }

/-- The commit of the entry's record. -/
def Node.commitEntry (node : Node W) (p : CBlockIndex) (pprev : PIndex) : Node W :=
  let record := diskBlockIndex node.nMint node.nMoneySupply ((node.pnext p.hash).getD 0) p pprev
  { node with db := node.db.writeBlockIndex record }

/-- `CBlock::AddToBlockIndex`. -/
def addToBlockIndex (node : Node W) (b : CBlock) (pos : BlockPos) (hashProof : Uint256) : Node W × Outcome :=
  if (node.mapBlockIndex b.getHash).isSome then (node, .failed (.error "AddToBlockIndex() : already exists"))
  else
    let pprev := (node.mapBlockIndex b.hashPrevBlock).getD []
    match computeNextStakeModifier pprev with
    | none => (node, .failed (.error "AddToBlockIndex() : ComputeNextStakeModifier() failed"))
    | some modifier =>
      let p := newEntry b pos hashProof pprev modifier
      let node := node.insertEntry p pprev
      if !env.indexCommitOk then (node, .failed .fail)
      else
        let node := node.commitEntry p pprev
        if node.nBestChainTrust.toNat < (PIndex.nChainTrust (p :: pprev)).toNat then
          setBestChain params env.chain node p pprev
        else (node, .done none)

/-- `CBlock::AcceptBlock`. -/
def acceptBlock (node : Node W) (b : CBlock) : Node W × Outcome :=
  if 7 < b.nVersion then (node, .failed (.dos 100 "AcceptBlock() : reject unknown block version"))
  else if (node.mapBlockIndex b.getHash).isSome then
    (node, .failed (.error "AcceptBlock() : block already in mapBlockIndex"))
  else
    match node.mapBlockIndex b.hashPrevBlock with
    | none => (node, .failed (.dos 10 "AcceptBlock() : prev block not found"))
    | some pindexPrev =>
      match checkAccept params env node b pindexPrev with
      | .error e => (node, .failed e)
      | .ok hashProof =>
        match env.writeToDisk with
        | none => (node, .failed (.error "AcceptBlock() : WriteToDisk failed"))
        | some pos => addToBlockIndex params env node b pos hashProof

end AcceptBlock

/-! ### Runs of a node -/

/-- The state once `LoadBlockIndex` has installed the genesis block, in an empty database. -/
def Node.genesis {W : Type} (p : CBlockIndex) (wallets : W) : Node W where
  db := {
    txIndex := nothing
    blockIndex := Function.update nothing p.hash (some (diskBlockIndex (fun _ => 0) (fun _ => 0) 0 p []))
    hashBestChain := some p.hash
    connected := [] }
  mapBlockIndex := Function.update nothing p.hash (some [p])
  pnext := nothing
  pindexGenesisBlock := [p]
  best := ⟨[p], 0⟩
  hashBestChain := p.hash
  nBestChainTrust := PIndex.nChainTrust [p]
  nMint := fun _ => 0
  nMoneySupply := fun _ => 0
  mempool := {}
  wallets := wallets

/-- What happens to a node. -/
inductive NodeEvent where
  /-- `AcceptBlock` is called on a block. -/
  | block (env : AcceptEnv) (b : CBlock)
  /-- `AcceptToMemoryPool` is called on a transaction. -/
  | tx (env : MemPoolEnv) (tx : CTransaction) (fLimitFree fRejectInsaneFee ignoreFees : Bool)

section Run

variable [Crypto] {W : Type} [CWalletInterface W] (params : CChainParams)

/-- The node after an event. -/
def Node.step (node : Node W) : NodeEvent → Node W
  | .block env b => (acceptBlock params env node b).1
  | .tx env tx fLimitFree fRejectInsaneFee ignoreFees =>
    match tx.acceptToMemoryPool params env node.best node.db.txIndex node.mempool
        fLimitFree fRejectInsaneFee ignoreFees with
    | .error _ => node
    | .ok mempool =>
      { node with mempool := mempool, wallets := CWalletInterface.syncTransaction tx none true node.wallets }

/-- The node after a sequence of events. -/
def Node.run (node : Node W) (events : List NodeEvent) : Node W := Library.Runs.run (Node.step params) node events

end Run

end PayDayCoin
