import PayDayCoin.MerkleBranch
import PayDayCoin.TxDB

/-!
# Placing a transaction in its block

`CMerkleTx::SetMerkleBranch` sets in which block a transaction is, and where, from the block that it is given, or from
the block that the transaction index names. In the second case the block is read, but the pointer to it is set in the
branch of a failed read, behind a `return`, so that nothing is set, and the depth is that of the block that the
transaction has had before. **`setMerkleBranch_null`**: the two agree exactly if the transaction has its place already.
-/

namespace PayDayCoin

open Library.MerkleTrees

/-- A transaction with its place in the chain. -/
structure CMerkleTx where
  tx : CTransaction
  /-- `nRounds` of its outputs. -/
  nRounds : List ℤ := []
  hashBlock : Uint256 := 0
  vMerkleBranch : List Uint256 := []
  nIndex : ℤ := -1
deriving DecidableEq

/-- What `SetMerkleBranch` looks into. -/
structure TxLookup where
  /-- `ReadTxIndex`. -/
  readTxIndex : TxMap
  /-- `CBlock::ReadFromDisk`, by file and position. -/
  readFromDisk : UInt32 → UInt32 → Option CBlock
  mapBlockIndex : Uint256 → Option PIndex
  /-- `pnext` of the block index, by block hash. -/
  pnext : Uint256 → Option Uint256
  pindexBest : PIndex

namespace TxLookup

variable (s : TxLookup)

/-- `CBlockIndex::IsInMainChain`. -/
def isInMainChain (pindex : PIndex) : Bool := (s.pnext pindex.getBlockHash).isSome || pindex == s.pindexBest

/-- The depth of a block; 0 when it is not on the main chain. -/
def depthOf (hashBlock : Uint256) : ℤ :=
  match s.mapBlockIndex hashBlock with
  | none => 0
  | some pindex => if s.isInMainChain pindex then s.pindexBest.nHeight - pindex.nHeight + 1 else 0

end TxLookup

namespace CMerkleTx

/-- `operator==` of the transaction and one of a block, whose outputs have the initial `nRounds`. -/
def equals (m : CMerkleTx) (tx : CTransaction) : Bool := tx == m.tx && m.nRounds.all (· == -10)

variable [Crypto] (s : TxLookup)

/-- `CMerkleTx::SetMerkleBranch`, of a block with its `vMerkleTree` or of `NULL`: the transaction afterwards, and the
depth. The block that is read for `NULL` is not looked at. `none` when `GetMerkleBranch` reads past its tree. -/
def setMerkleBranch (pblock : Option (CBlock × List Uint256)) (m : CMerkleTx) : Option (CMerkleTx × ℤ) :=
  match pblock with
  | none =>
    match s.readTxIndex m.tx.getHash with
    | none => some (m, 0)
    | some txindex =>
      match s.readFromDisk txindex.pos.nFile txindex.pos.nBlockPos with
      | none => some (m, 0)
      | some _ => some (m, s.depthOf m.hashBlock)
  | some (b, vMerkleTree) =>
    match b.vtx.findIdx? m.equals with
    | none => some ({ m with hashBlock := b.getHash, vMerkleBranch := [], nIndex := -1 }, 0)
    | some nIndex =>
      (b.getMerkleBranch vMerkleTree nIndex).map fun (_, vMerkleBranch) =>
        ({ m with hashBlock := b.getHash, vMerkleBranch := vMerkleBranch, nIndex := nIndex }, s.depthOf b.getHash)

variable {s} {m : CMerkleTx} {b : CBlock} {vMerkleTree : List Uint256} {i : ℕ}

/-- With the block, the transaction is placed in it. -/
theorem setMerkleBranch_block (hi : b.vtx.findIdx? m.equals = some i) (hv : b.Built vMerkleTree) :
    setMerkleBranch s (some (b, vMerkleTree)) m =
      some ({ m with
        hashBlock := b.getHash
        vMerkleBranch := branch Crypto.hashPair b.txids i
        nIndex := i }, s.depthOf b.getHash) := by
  simp only [setMerkleBranch, hi]
  rw [CBlock.getMerkleBranch_eq hv, Option.map_some]
  rfl

/-- **Without the block, `SetMerkleBranch` does the same exactly if the transaction has its place in the block that
the index names**: the block's hash, its index there, and its branch. -/
theorem setMerkleBranch_null {txindex : CTxIndex} (hindex : s.readTxIndex m.tx.getHash = some txindex)
    (hread : s.readFromDisk txindex.pos.nFile txindex.pos.nBlockPos = some b)
    (hi : b.vtx.findIdx? m.equals = some i) (hv : b.Built vMerkleTree) :
    setMerkleBranch s none m = setMerkleBranch s (some (b, vMerkleTree)) m ↔
      m.hashBlock = b.getHash ∧ m.nIndex = i ∧ m.vMerkleBranch = branch Crypto.hashPair b.txids i := by
  have hnull : setMerkleBranch s none m = some (m, s.depthOf m.hashBlock) := by
    simp only [setMerkleBranch, hindex, hread]
  rw [hnull, setMerkleBranch_block hi hv, Option.some_inj, Prod.mk.injEq]
  constructor
  · rintro ⟨hm, -⟩
    have hhash := congrArg CMerkleTx.hashBlock hm
    have hbranch := congrArg CMerkleTx.vMerkleBranch hm
    have hindex := congrArg CMerkleTx.nIndex hm
    exact ⟨hhash, hindex, hbranch⟩
  · rintro ⟨hhash, hindex, hbranch⟩
    rw [← hhash, ← hindex, ← hbranch]
    exact ⟨rfl, rfl⟩

end CMerkleTx

namespace MerkleTxSample

/-- Everything is hashed to a number of its own. -/
scoped instance crypto : Crypto where
  serializeHash tx := BitVec.ofNat 256 tx.nTime.toNat
  hash h := BitVec.ofNat 256 h.nTime.toNat
  hash9 h := BitVec.ofNat 256 h.nTime.toNat
  hashPair a b := BitVec.ofNat 256 (100 * a.toNat + b.toNat)
  verifySignature _ _ _ _ _ := true
  checkBlockSignature _ := true
  hashKernel _ _ _ _ _ _ := 0
  hashSelection _ _ := 0
  hashModifierV2 _ _ := 0

def first : CTransaction := ⟨1, 1, [], [], 0⟩

def second : CTransaction := ⟨1, 2, [], [], 0⟩

/-- A block of two transactions, whose hash is 7. -/
def block : CBlock where
  hashPrevBlock := 0
  hashMerkleRoot := 102
  nTime := 7
  nBits := 0
  nNonce := 0
  vtx := [first, second]

theorem openable_first : (1 : UInt32) ≠ 0xffffffff := by decide

/-- Its entry in the block index, which is the best one. -/
def entry : CBlockIndex where
  block := block
  hash := 7
  nFile := 1
  nBlockPos := 0
  openable := openable_first

def lookup : TxLookup where
  readTxIndex hash := if hash = 2 then some ⟨⟨1, 0, 0⟩, []⟩ else none
  readFromDisk _ _ := some block
  mapBlockIndex hash := if hash = 7 then some [entry] else none
  pnext _ := none
  pindexBest := [entry]

/-- The second transaction, which has its place in the block. -/
def placed : CMerkleTx := { tx := second, hashBlock := 7, vMerkleBranch := [1], nIndex := 1 }

/-- The transaction that has its place keeps it. -/
theorem placed_kept : CMerkleTx.setMerkleBranch lookup none placed =
    CMerkleTx.setMerkleBranch lookup (some (block, [])) placed := by
  have hindex : lookup.readTxIndex placed.tx.getHash = some ⟨⟨1, 0, 0⟩, []⟩ := by decide
  refine (CMerkleTx.setMerkleBranch_null (i := 1) hindex rfl (by decide) (.inl rfl)).2 ⟨by decide, rfl, ?_⟩
  have hids : block.txids = [1, 2] := by decide
  rw [hids, branch, if_pos (by decide), branch, if_neg (by decide)]
  rfl

/-- **The transaction is on the main chain, and its place is not set**. -/
theorem new_unplaced :
    lookup.isInMainChain [entry] = true ∧
      CMerkleTx.setMerkleBranch lookup none { tx := second } = some ({ tx := second }, 0) ∧
      CMerkleTx.setMerkleBranch lookup (some (block, [])) { tx := second } =
        some ({ tx := second, hashBlock := 7, vMerkleBranch := [1], nIndex := 1 }, 1) := by
  refine ⟨by decide, by decide, ?_⟩
  rw [CMerkleTx.setMerkleBranch_block (i := 1) (by decide) (.inl rfl)]
  have hids : block.txids = [1, 2] := by decide
  have hdepth : lookup.depthOf block.getHash = 1 := by decide
  have hhash : block.getHash = 7 := by decide
  rw [hids, branch, if_pos (by decide), branch, if_neg (by decide), hdepth, hhash]
  rfl

end MerkleTxSample

end PayDayCoin
