import PayDayCoin.ConnectBlock
import PayDayCoin.MemPool
import PayDayCoin.Kernel

/-!
# The best chain

`Reorganize`, `SetBestChain`, `AddToBlockIndex` and `AcceptBlock`, and the runs of a node
that they make up. A `Node` has the committed records (`db`) beside the pointers and
amounts kept in memory, the memory pool and the wallets. What can fail in an
environment (reads, commits, the time) comes from a `ChainEnv`, a fresh one for each call,
so every order of failures is a run.

A call that returns `false` keeps what it has already done to memory and to the wallets;
its batch is lost (`Node.keep`).

A run starts at the genesis block, which `SetBestChain` installs without connecting it,
and is one session of the node.
-/

namespace PayDayCoin

open Library.Checks Library.Overlay

/-- The chain state of a node. -/
structure Node (W : Type) where
  /-- The committed records. -/
  db : TxDB
  /-- `mapBlockIndex`. -/
  mapBlockIndex : Uint256 → Option PIndex
  /-- `pnext` of the block index, by block hash. -/
  pnext : Uint256 → Option Uint256
  /-- `pindexGenesisBlock`. -/
  pindexGenesisBlock : PIndex
  /-- `pindexBest` and `nBestHeight`. -/
  best : BestChain
  /-- `hashBestChain`. -/
  hashBestChain : Uint256
  /-- `nBestChainTrust`. -/
  nBestChainTrust : Uint256
  /-- `nMint` of the block index, by block hash. -/
  nMint : Uint256 → ℤ
  /-- `nMoneySupply` of the block index, by block hash. -/
  nMoneySupply : Uint256 → ℤ
  /-- `mempool`. -/
  mempool : CTxMemPool
  /-- The registered wallets. -/
  wallets : W

/-- What a call of `SetBestChain` reads besides the node's state. -/
structure ChainEnv where
  /-- For connecting or disconnecting the block of a hash. -/
  block : Uint256 → BlockEnv
  /-- Whether the `TxnCommit` of `Reorganize` succeeds. -/
  reorganizeCommitOk : Bool
  /-- For putting a disconnected transaction back into the memory pool. -/
  resurrect : Uint256 → MemPoolEnv

/-- How `SetBestChain` returns. -/
inductive Outcome where
  /-- `return false`. -/
  | failed (e : Reject)
  /-- `return true`; `error` is what stopped the loop over the postponed blocks, if
  anything did. -/
  | done (error : Option Reject)
deriving DecidableEq

namespace Node

variable {W : Type}

/-- The state that a batch begun now works on. -/
def session (node : Node W) : Session W := ⟨node.db, node.nMint, node.nMoneySupply, node.wallets⟩

/-- A batch is lost: the records are the committed ones, the rest stays as it is. -/
def keep (node : Node W) (σ : Session W) : Node W :=
  { node with nMint := σ.nMint, nMoneySupply := σ.nMoneySupply, wallets := σ.wallets }

/-- A batch is committed, with `hash` as the best chain. -/
def commit (node : Node W) (σ : Session W) (hash : Uint256) : Node W :=
  { node.keep σ with db := σ.db.writeHashBestChain hash }

end Node

/-! ### Branches -/

namespace PIndex

/-- The inner loop of the fork search: an ancestor that is not higher than `nHeight`. -/
def lowerTo (nHeight : ℕ) : PIndex → PIndex
  | [] => []
  | p :: pprev => if nHeight < pprev.length then lowerTo nHeight pprev else p :: pprev

/-- The fork search of `Reorganize`. -/
def findFork : PIndex → PIndex → Option PIndex
  | [], _ => none
  | f :: fprev, plonger =>
    if f :: fprev = plonger then some (f :: fprev)
    else
      let plonger := lowerTo fprev.length plonger
      if f :: fprev = plonger then some (f :: fprev) else findFork fprev plonger

/-- The entries of a path above `pfork`, youngest first. -/
def branch (pfork : PIndex) : PIndex → List PIndex
  | [] => []
  | p :: pprev => if p :: pprev = pfork then [] else (p :: pprev) :: branch pfork pprev

/-- The blocks that `SetBestChain` postpones, youngest first, and the block below them
that it reorganizes to: the first that is better than a chain of trust `nTrust`. -/
def postpone (nTrust : Uint256) : PIndex → List PIndex × PIndex
  | p :: q :: pprev =>
    if nTrust.toNat < (nChainTrust (q :: pprev)).toNat then
      let (vpindexSecondary, pindexIntermediate) := postpone nTrust (q :: pprev)
      ((p :: q :: pprev) :: vpindexSecondary, pindexIntermediate)
    else ([], p :: q :: pprev)
  | pindex => ([], pindex)

end PIndex

section SetBestChain

variable [Crypto] {W : Type} [CWalletInterface W] (params : CChainParams) (env : ChainEnv)

/-! ### Reorganize -/

/-- `Reorganize` disconnects one block. -/
def disconnectStep (pindex : PIndex) (σ : Session W) : Except Reject (Session W) :=
  match pindex with
  | [] => .ok σ
  | p :: pprev => do
    rejectIf (!(env.block p.hash).readBlockOk) (.error "Reorganize() : ReadFromDisk for disconnect failed")
    (p.block.disconnectBlock (env.block p.hash) p pprev σ).mapError fun _ =>
      .error "Reorganize() : DisconnectBlock failed"

/-- `Reorganize` connects one block. -/
def connectStep (g : BestChain) (mempool : CTxMemPool) (pnext : Uint256 → Option Uint256) (pindex : PIndex)
    (σ : Session W) : Except Reject (Session W) :=
  match pindex with
  | [] => .ok σ
  | p :: pprev => do
    rejectIf (!(env.block p.hash).readBlockOk) (.error "Reorganize() : ReadFromDisk for connect failed")
    (p.block.connectBlock params (env.block p.hash) g mempool.lookup pnext p pprev σ).mapError fun _ =>
      .error "Reorganize() : ConnectBlock failed"

/-- `pindex->pprev->pnext = NULL`. -/
def unlinkPrev (pnext : Uint256 → Option Uint256) (pindex : PIndex) : Uint256 → Option Uint256 :=
  match pindex with
  | _ :: q :: _ => Function.update pnext q.hash none
  | _ => pnext

/-- `pindex->pprev->pnext = pindex`. -/
def linkPrev (pnext : Uint256 → Option Uint256) (pindex : PIndex) : Uint256 → Option Uint256 :=
  match pindex with
  | p :: q :: _ => Function.update pnext q.hash (some p.hash)
  | _ => pnext

/-- The transactions of the blocks of a branch. -/
def branchTxs (branch : List PIndex) : List CTransaction :=
  branch.flatMap fun pindex => (pindex.head?.map fun p => p.block.vtx).getD []

/-- `vResurrect`: the transactions to put back into the memory pool, oldest first. -/
def resurrectTxs (vDisconnect : List PIndex) : List CTransaction :=
  (branchTxs (vDisconnect.reverse.filter fun pindex => params.getTotalBlocksEstimate < pindex.nHeight)).filter
    fun tx => !(tx.isCoinBase || tx.isCoinStake)

/-- `AcceptToMemoryPool` of one transaction of `vResurrect`. -/
def resurrectTx (node : Node W) (tx : CTransaction) : Node W :=
  match tx.acceptToMemoryPool params (env.resurrect tx.getHash) node.best node.db.txIndex node.mempool
      false false false with
  | .error _ => node
  | .ok mempool =>
    { node with mempool := mempool, wallets := CWalletInterface.syncTransaction tx none true node.wallets }

/-- What `Reorganize` does once its batch is committed: the pointers and the memory
pool. -/
def finishReorganize (vDisconnect vConnect : List PIndex) (node : Node W) : Node W :=
  let node := { node with pnext := vConnect.foldl linkPrev (vDisconnect.foldl unlinkPrev node.pnext) }
  let node := (resurrectTxs params vDisconnect).foldl (resurrectTx params env) node
  let mempool := (branchTxs vConnect).foldl (fun pool tx => (pool.remove tx false).removeConflicts tx) node.mempool
  { node with mempool := mempool }

/-- `Reorganize`, with the abort by its caller when it fails. -/
def reorganize (node : Node W) (pindexNew : PIndex) : Node W × Option Reject :=
  match PIndex.findFork node.best.pindexBest pindexNew with
  | none => (node, some (.error "Reorganize() : pfork->pprev is null"))
  | some pfork =>
    let vDisconnect := PIndex.branch pfork node.best.pindexBest
    let vConnect := (PIndex.branch pfork pindexNew).reverse
    match runUntil (fun pindex σ => attempt (disconnectStep env pindex σ) σ) vDisconnect node.session with
    | (σ, some e) => (node.keep σ, some e)
    | (σ, none) =>
      let connect := connectStep params env node.best node.mempool node.pnext
      match runUntil (fun pindex σ => attempt (connect pindex σ) σ) vConnect σ with
      | (σ, some e) => (node.keep σ, some e)
      | (σ, none) =>
        if !env.reorganizeCommitOk then (node.keep σ, some (.error "Reorganize() : TxnCommit failed"))
        else (finishReorganize params env vDisconnect vConnect (node.commit σ pindexNew.getBlockHash), none)

/-! ### SetBestChain -/

/-- `CBlock::SetBestChainInner`, with `pindexNew = p :: pprev`. -/
def setBestChainInner (node : Node W) (p : CBlockIndex) (pprev : PIndex) : Node W × Option Reject :=
  match p.block.connectBlock params (env.block p.hash) node.best node.mempool.lookup node.pnext p pprev
      node.session with
  | .error e => (node, some e)
  | .ok σ =>
    if !(env.block p.hash).commitOk then (node.keep σ, some (.error "SetBestChain() : TxnCommit failed"))
    else
      let node := node.commit σ p.hash
      ({ node with
        pnext := linkPrev node.pnext (p :: pprev)
        mempool := p.block.vtx.foldl (fun pool tx => pool.remove tx false) node.mempool }, none)

/-- One turn of the loop of `SetBestChain` over the postponed blocks. -/
def postponedStep (pindex : PIndex) (node : Node W) : Node W × Option Reject :=
  match pindex with
  | [] => (node, none)
  | p :: pprev =>
    if !(env.block p.hash).readBlockOk then (node, some (.error "SetBestChain() : ReadFromDisk failed"))
    else setBestChainInner params env node p pprev

/-- The end of `SetBestChain`: the new best block. -/
def newBest (node : Node W) (pindexNew : PIndex) : Node W :=
  { node with
    hashBestChain := pindexNew.getBlockHash
    best := ⟨pindexNew, pindexNew.nHeight⟩
    nBestChainTrust := pindexNew.nChainTrust }

/-- `CBlock::SetBestChain`, with `pindexNew = p :: pprev`. -/
def setBestChain (node : Node W) (p : CBlockIndex) (pprev : PIndex) : Node W × Outcome :=
  if node.pindexGenesisBlock = [] ∧ p.hash = params.hashGenesisBlock then
    if !(env.block p.hash).commitOk then (node, .failed (.error "SetBestChain() : TxnCommit failed"))
    else
      (newBest { node with
        db := node.db.writeHashBestChain p.hash
        pindexGenesisBlock := p :: pprev } (p :: pprev), .done none)
  else if p.block.hashPrevBlock = node.hashBestChain then
    match setBestChainInner params env node p pprev with
    | (node, some _) => (node, .failed (.error "SetBestChain() : SetBestChainInner failed"))
    | (node, none) => (newBest node (p :: pprev), .done none)
  else
    let (vpindexSecondary, pindexIntermediate) := PIndex.postpone node.best.pindexBest.nChainTrust (p :: pprev)
    match reorganize params env node pindexIntermediate with
    | (node, some _) => (node, .failed (.error "SetBestChain() : Reorganize failed"))
    | (node, none) =>
      let (node, error) := runUntil (postponedStep params env) vpindexSecondary.reverse node
      (newBest node (p :: pprev), .done error)

end SetBestChain

end PayDayCoin
