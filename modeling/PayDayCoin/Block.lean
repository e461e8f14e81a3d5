import PayDayCoin.Transaction

/-!
# Blocks and the block index

A block is a header and a list of transactions. An entry of the block index is never
freed and its `pprev` never changes, so a `CBlockIndex*` is modelled by the path it
stands for, the entry and its ancestors down to the genesis block, youngest first
(`PIndex`; the empty path is `NULL`, the tail is `pprev`). Height and trust are then
functions of the path. The fields that do change (`pnext`, `nMint`, `nMoneySupply`)
belong to the node's state.

Hash functions and signature checks are the parameters of `Crypto`. Also here: the
targets and the proof-of-work check, the reward schedule, `isInitialBlockDownload` and
`isConfirmedInNPrevBlocks`.
-/

namespace PayDayCoin

open Library.Checks

/-- The header of a block, in the order it is hashed. -/
structure CBlockHeader where
  nVersion : Int32 := 7
  hashPrevBlock : Uint256
  hashMerkleRoot : Uint256
  nTime : UInt32
  nBits : UInt32
  nNonce : UInt32
deriving DecidableEq, Repr, Inhabited

/-- A block: header, transactions, and the signature of a proof-of-stake block. -/
structure CBlock extends CBlockHeader where
  vtx : List CTransaction
  vchBlockSig : List UInt8 := []
deriving DecidableEq, Repr, Inhabited

/-- The hash functions and signature checks that consensus code calls. -/
class Crypto where
  /-- `SerializeHash` of a transaction. -/
  serializeHash : CTransaction → Uint256
  /-- `Hash` of a header, from `nVersion` to `nNonce`. -/
  hash : CBlockHeader → Uint256
  /-- `Hash9` of a header: the proof-of-work hash. -/
  hash9 : CBlockHeader → Uint256
  /-- `Hash` of two hashes: a node of the Merkle tree. -/
  hashPair : Uint256 → Uint256 → Uint256
  /-- `VerifySignature(txFrom, txTo, nIn, flags, nHashType)`. -/
  verifySignature : CTransaction → CTransaction → ℕ → UInt32 → ℕ → Bool
  /-- `CBlock::CheckBlockSignature`. -/
  checkBlockSignature : CBlock → Bool
  /-- `Hash` of a stake kernel: stake modifier, time of the block and of the transaction
  staked, its hash and the index of its output, time of the coinstake. -/
  hashKernel : UInt64 → UInt32 → UInt32 → Uint256 → UInt32 → UInt32 → Uint256
  /-- `Hash` of a candidate's proof hash and the previous stake modifier. -/
  hashSelection : Uint256 → UInt64 → Uint256
  /-- `Hash` of a kernel and the previous `bnStakeModifierV2`. -/
  hashModifierV2 : Uint256 → Uint256 → Uint256

/-- `CTransaction::GetHash`. -/
def CTransaction.getHash [Crypto] (tx : CTransaction) : Uint256 := Crypto.serializeHash tx

namespace CBlock

/-- `CBlock::GetPoWHash`. -/
def getPoWHash [Crypto] (b : CBlock) : Uint256 := Crypto.hash9 b.toCBlockHeader

/-- `CBlock::GetHash`. -/
def getHash [Crypto] (b : CBlock) : Uint256 :=
  if 6 < b.nVersion then Crypto.hash b.toCBlockHeader else b.getPoWHash

/-- `CBlock::GetBlockTime`. -/
def getBlockTime (b : CBlock) : ℤ := b.nTime.toNat

/-- `CBlock::IsProofOfStake`: the second transaction is a coinstake. -/
def isProofOfStake (b : CBlock) : Bool :=
  match b.vtx with
  | _ :: tx :: _ => tx.isCoinStake
  | _ => false

/-- `CBlock::IsProofOfWork`. -/
def isProofOfWork (b : CBlock) : Bool := !b.isProofOfStake

/-- One level of the Merkle tree from the level below; an odd node is paired with itself. -/
def merkleLevel [Crypto] : List Uint256 → List Uint256
  | [] => []
  | [a] => [Crypto.hashPair a a]
  | a :: b :: l => Crypto.hashPair a b :: merkleLevel l

/-- The levels of `BuildMerkleTree` up to the root; `fuel` bounds their number. -/
def merkleRoot [Crypto] : ℕ → List Uint256 → Uint256
  | _, [] => 0
  | _, [a] => a
  | 0, a :: _ => a
  | fuel + 1, l => merkleRoot fuel (merkleLevel l)

/-- `CBlock::BuildMerkleTree`: the root. -/
def buildMerkleTree [Crypto] (b : CBlock) : Uint256 := merkleRoot b.vtx.length (b.vtx.map CTransaction.getHash)

/-- `GetSerializeSize` of a header. -/
def headerSize : ℕ := 80

/-- `GetSerializeSize` of a block. -/
def getSerializeSize (b : CBlock) : ℕ :=
  headerSize + (CTransaction.getSizeOfCompactSize b.vtx.length + (b.vtx.map CTransaction.getSerializeSize).sum) +
    (CTransaction.getSizeOfCompactSize b.vchBlockSig.length + b.vchBlockSig.length)

end CBlock

/-! ### Chain parameters -/

/-- What differs between the networks. -/
structure CChainParams where
  /-- `TestNet()`. -/
  testNet : Bool
  /-- The hash of the genesis block. -/
  hashGenesisBlock : Uint256
  /-- The easiest proof-of-work target. -/
  proofOfWorkLimit : ℤ := 2 ^ 240 - 1
  /-- The easiest proof-of-stake target. -/
  proofOfStakeLimit : ℤ := 2 ^ 236 - 1
  /-- The last height that proof of work may have. -/
  lastPOWBlock : ℕ
  /-- The first height that proof of stake may have. -/
  posStartBlock : ℕ := 7000
  /-- The number of blocks that have to pass before a coinbase or coinstake is spent. -/
  nCoinbaseMaturity : ℕ
  /-- The hardened checkpoints, by height, in order of height. -/
  mapCheckpoints : List (ℕ × Uint256)

namespace CChainParams

/-- `CMainParams`. -/
def main : CChainParams where
  testNet := false
  hashGenesisBlock := 0xfbf8f2c6c429973be775cac61bcb7eb3dac0d95d134a63d91d505608f3febadc
  lastPOWBlock := 10000
  nCoinbaseMaturity := 63
  mapCheckpoints :=
    [(0, 0xfbf8f2c6c429973be775cac61bcb7eb3dac0d95d134a63d91d505608f3febadc),
      (7001, 0xfe0d1cde580fa188297374a408e08c2c124f9eff7cea9bec74560bfd631c812b),
      (82013, 0xbd9048e19376fc9c2a147b4d003a3cca378e6c25cfa4eeabc51e003e6a775dd4)]

/-- `CTestNetParams`. -/
def test : CChainParams where
  testNet := true
  hashGenesisBlock := 0xfbf8f2c6c429973be775cac61bcb7eb3dac0d95d134a63d91d505608f3febadc
  lastPOWBlock := 0x7fffffff
  nCoinbaseMaturity := 1
  mapCheckpoints := []

/-- `Checkpoints::CheckHardened`. -/
def checkHardened (params : CChainParams) (nHeight : ℕ) (hash : Uint256) : Bool :=
  match params.mapCheckpoints.lookup nHeight with
  | none => true
  | some h => hash == h

/-- `Checkpoints::GetTotalBlocksEstimate`. -/
def getTotalBlocksEstimate (params : CChainParams) : ℕ :=
  match params.mapCheckpoints.getLast? with
  | none => 0
  | some (nHeight, _) => nHeight

end CChainParams

/-! ### The block index -/

/-- An entry of the block index, but for the fields that its path determines and those
that change. The entry stands for a block stored at a position of a block file, so it
carries that block, and its file can be opened. -/
structure CBlockIndex where
  /-- `*phashBlock`. -/
  hash : Uint256
  /-- The block file. -/
  nFile : UInt32
  /-- The block's position in the file. -/
  nBlockPos : UInt32
  /-- The block stored there. -/
  block : CBlock
  /-- The proof-of-work or kernel hash. -/
  hashProof : Uint256 := 0
  /-- `nStakeModifier`. -/
  nStakeModifier : UInt64 := 0
  /-- `BLOCK_STAKE_MODIFIER` of `nFlags`. -/
  generatedStakeModifier : Bool := false
  /-- `bnStakeModifierV2`. -/
  bnStakeModifierV2 : Uint256 := 0
  /-- `OpenBlockFile` refuses the file number `(unsigned int)-1`. -/
  openable : nFile ≠ 0xffffffff
deriving DecidableEq

/-- A pointer to an entry of the block index: the entry and its ancestors. -/
abbrev PIndex := List CBlockIndex

namespace CBlockIndex

/-- `CBlockIndex::IsProofOfStake`. -/
def isProofOfStake (p : CBlockIndex) : Bool := p.block.isProofOfStake

/-- `CBlockIndex::GetBlockTime`. -/
def getBlockTime (p : CBlockIndex) : ℤ := p.block.getBlockTime

/-- `CBlockIndex::GetPastTimeLimit`. -/
def getPastTimeLimit (p : CBlockIndex) : ℤ := p.getBlockTime - DRIFT

/-- `CBlockIndex::GetStakeEntropyBit`: the last bit of the block's hash. -/
def getStakeEntropyBit (p : CBlockIndex) : UInt64 := UInt64.ofNat (p.hash.toNat % 2)

/-- `CBlockIndex::GetBlockTrust`. -/
def getBlockTrust (p : CBlockIndex) : Uint256 :=
  let bnTarget := setCompact p.block.nBits
  if bnTarget ≤ 0 then 0 else getuint256 (2 ^ 256 / (bnTarget + 1))

end CBlockIndex

namespace PIndex

/-- `pindex->nHeight`: the number of ancestors. -/
def nHeight (pindex : PIndex) : ℕ := pindex.length - 1

/-- `pindex->nChainTrust`, summed over the path. -/
def nChainTrust : PIndex → Uint256
  | [] => 0
  | p :: pprev => nChainTrust pprev + p.getBlockTrust

/-- `pindex->GetBlockHash()`, for a path that is not `NULL`. -/
def getBlockHash (pindex : PIndex) : Uint256 :=
  match pindex with
  | [] => 0
  | p :: _ => p.hash

/-- The hashes of the blocks of a path. -/
def hashes (pindex : PIndex) : List Uint256 := pindex.map CBlockIndex.hash

/-- `GetLastBlockIndex`: the youngest block of the wanted kind, or the genesis block. -/
def getLastBlockIndex (fProofOfStake : Bool) : PIndex → PIndex
  | p :: q :: pprev =>
    if p.isProofOfStake ≠ fProofOfStake then getLastBlockIndex fProofOfStake (q :: pprev) else p :: q :: pprev
  | pindex => pindex

end PIndex

/-! ### Targets and rewards -/

/-- Seconds between blocks. -/
def TARGET_SPACING : ℤ := 120

/-- `nTargetTimespan`. -/
def nTargetTimespan : ℤ := 600

/-- `GetNextTargetRequired`, for a last block that is not `NULL`. -/
def getNextTargetRequired (params : CChainParams) (pindexLast : PIndex) (fProofOfStake : Bool) : UInt32 :=
  let bnTargetLimit := if fProofOfStake then params.proofOfStakeLimit else params.proofOfWorkLimit
  match PIndex.getLastBlockIndex fProofOfStake pindexLast with
  | [] => getCompact bnTargetLimit
  | [_] => getCompact bnTargetLimit
  | prev :: pprev =>
    match PIndex.getLastBlockIndex fProofOfStake pprev with
    | [] => getCompact bnTargetLimit
    | [_] => getCompact bnTargetLimit
    | prevPrev :: _ =>
      let nActualSpacing := prev.getBlockTime - prevPrev.getBlockTime
      let nActualSpacing := if nActualSpacing < 0 then TARGET_SPACING else nActualSpacing
      let nInterval := nTargetTimespan / TARGET_SPACING
      let bnNew := setCompact prev.block.nBits * ((nInterval - 1) * TARGET_SPACING + nActualSpacing + nActualSpacing)
      let bnNew := bnNew.tdiv ((nInterval + 1) * TARGET_SPACING)
      getCompact (if bnNew ≤ 0 ∨ bnTargetLimit < bnNew then bnTargetLimit else bnNew)

/-- `CheckProofOfWork`. -/
def checkProofOfWork (params : CChainParams) (hash : Uint256) (nBits : UInt32) : Bool :=
  let bnTarget := setCompact nBits
  0 < bnTarget && bnTarget ≤ params.proofOfWorkLimit && hash.toNat ≤ (getuint256 bnTarget).toNat

/-- The stake reward of the first year. -/
def STATIC_REWARD : ℤ := 280 * COIN

/-- The number of confirmations a stake needs. -/
def STAKE_MIN_CONFIRMATIONS : ℕ := 370

/-- The coins the first blocks pay out. -/
def PREMINE_AMOUNT : ℤ := 11773400

/-- `GetRewardByHeight`. -/
def getRewardByHeight (nHeight : ℕ) : ℤ :=
  let YEARLY_BLOCKCOUNT := 263000
  if nHeight < YEARLY_BLOCKCOUNT then STATIC_REWARD
  else if nHeight < 2 * YEARLY_BLOCKCOUNT then STATIC_REWARD * 3 / 4
  else if nHeight < 3 * YEARLY_BLOCKCOUNT then STATIC_REWARD / 2
  else if nHeight < 4 * YEARLY_BLOCKCOUNT then STATIC_REWARD / 4
  else 1 * COIN

/-- `GetProofOfWorkReward`. -/
def getProofOfWorkReward (nHeight : ℕ) (nFees : ℤ) : ℤ :=
  let nLastPremineBlock := 2 * STAKE_MIN_CONFIRMATIONS
  let nSubsidy := if nHeight < nLastPremineBlock + 1 then PREMINE_AMOUNT / nLastPremineBlock * COIN else 0 * COIN
  nSubsidy + nFees

/-- `GetProofOfStakeReward`, of the block after `pindexPrev`; the coin age is not used. -/
def getProofOfStakeReward (pindexPrev : PIndex) (_nCoinAge : UInt64) (nFees : ℤ) : ℤ :=
  getRewardByHeight (pindexPrev.nHeight + 1) + nFees

/-! ### Initial download -/

/-- What `IsInitialBlockDownload` reads besides the best block: the clock, and its own
record of when the best block last changed. -/
structure IBDReading where
  /-- `GetTime()`. -/
  now : ℤ
  /-- `nLastUpdate`. -/
  nLastUpdate : ℤ

/-- `IsInitialBlockDownload`. -/
def isInitialBlockDownload (params : CChainParams) (pindexBest : PIndex) (nBestHeight : ℕ) (r : IBDReading) : Bool :=
  match pindexBest with
  | [] => true
  | p :: _ =>
    nBestHeight < params.getTotalBlocksEstimate ||
      (r.now - r.nLastUpdate < 15 && p.getBlockTime < r.now - 5 * 60 * 60)

/-! ### Positions on disk -/

/-- The position of a transaction in the block files. -/
structure CDiskTxPos where
  nFile : UInt32
  nBlockPos : UInt32
  nTxPos : UInt32
deriving DecidableEq, Repr, Inhabited

namespace CDiskTxPos

/-- `SetNull`: no position. -/
def null : CDiskTxPos := ⟨0xffffffff, 0, 0⟩

/-- `CDiskTxPos::IsNull`. -/
def isNull (pos : CDiskTxPos) : Bool := pos.nFile == 0xffffffff

@[simp] theorem isNull_null : null.isNull = true := rfl

end CDiskTxPos

/-- The record of a transaction in the database: where it is, and for each output where
the transaction is that spends it. -/
structure CTxIndex where
  pos : CDiskTxPos
  vSpent : List CDiskTxPos
deriving DecidableEq, Repr, Inhabited

/-- `CTxIndex(pos, nOutputs)`: no output spent. -/
def CTxIndex.new (pos : CDiskTxPos) (nOutputs : ℕ) : CTxIndex := ⟨pos, List.replicate nOutputs CDiskTxPos.null⟩

/-- `IsConfirmedInNPrevBlocks`: the depth, less than `nMaxDepth`, at which the path has
the block that holds the transaction. -/
def isConfirmedInNPrevBlocks (txindex : CTxIndex) (pindexFrom : PIndex) (nMaxDepth : ℕ) : Option ℕ :=
  (pindexFrom.take nMaxDepth).findIdx? fun pindex =>
    pindex.nBlockPos == txindex.pos.nBlockPos && pindex.nFile == txindex.pos.nFile

end PayDayCoin
