import PayDayCoin.BlockIndexRuns
import PayDayCoin.SignatureEncoding
import PayDayCoin.Library.Worklist

/-!
# ProcessBlock and the orphan blocks

`ProcessBlock` tests a block that has come. One whose parent is not known waits as an orphan, in
`mapOrphanBlocks` under its own hash and in `mapOrphanBlocksByPrev` under that of its parent;
`PruneOrphanBlocks` makes room by dropping one that no other waits for. A block whose parent is known goes to
`AcceptBlock`; when it is accepted, so do the orphans that wait for it, and those that wait for them.
-/

namespace PayDayCoin

open Library.Checks Library.Worklist

/-- `COrphanBlock`; the serialized block is the block. -/
structure COrphanBlock where
  hashBlock : Uint256
  hashPrev : Uint256
  stake : COutPoint × UInt32
  block : CBlock
deriving DecidableEq

/-- A node with its orphan blocks. -/
structure OrphanNode (W : Type) extends IndexedNode W where
  mapOrphanBlocks : Uint256 → Option COrphanBlock
  /-- The multimap `mapOrphanBlocksByPrev`: in the order of the keys, those of one key in the order they came. -/
  mapOrphanBlocksByPrev : List (Uint256 × COrphanBlock)
  setStakeSeenOrphan : Finset (COutPoint × UInt32)

/-- `DEFAULT_MAX_ORPHAN_BLOCKS`. -/
def DEFAULT_MAX_ORPHAN_BLOCKS : ℤ := 10000

/-- What a call of `ProcessBlock` reads besides the block and the node's state. -/
structure ProcessEnv where
  /-- Whether the block comes from a peer. -/
  pfrom : Bool := true
  fReindex : Bool := false
  fImporting : Bool := false
  /-- The readings of `CheckBlock`. -/
  check : CheckEnv
  /-- The readings of `AcceptBlock` on a block, by its hash. -/
  accept : Uint256 → AcceptEnv
  /-- `GetArg("-maxorphanblocks", DEFAULT_MAX_ORPHAN_BLOCKS)`. -/
  maxOrphanBlocks : ℤ := DEFAULT_MAX_ORPHAN_BLOCKS
  /-- The next `insecure_rand()`. -/
  rand : ℕ := 0

/-- `IsCanonicalBlockSignature`. -/
def isCanonicalBlockSignature (b : CBlock) : Bool :=
  if b.isProofOfWork then b.vchBlockSig.isEmpty else isDERSignature b.vchBlockSig false

namespace OrphanNode

variable {W : Type}

/-! ### PruneOrphanBlocks -/

/-- The walk to an orphan that no other waits for. A chain of orphans is no longer than there are orphans, so
one that has not ended by then goes round in a circle and never ends. -/
def walkToLast (byPrev : List (Uint256 × COrphanBlock)) : ℕ → Uint256 × COrphanBlock → Option (Uint256 × COrphanBlock)
  | 0, _ => none
  | fuel + 1, it =>
    match byPrev.find? fun e => e.1 = it.2.hashBlock with
    | none => some it
    | some it₂ => walkToLast byPrev fuel it₂

/-- The orphan that `PruneOrphanBlocks` drops: `none` when there are not too many, and `some none` when the walk
never ends. -/
def pruned (byPrev : List (Uint256 × COrphanBlock)) (maxOrphanBlocks : ℤ) (rand : ℕ) :
    Option (Option (Uint256 × COrphanBlock)) :=
  if byPrev.length ≤ (max 0 maxOrphanBlocks).toNat then none
  else byPrev[rand % byPrev.length]?.map fun it => walkToLast byPrev (byPrev.length + 1) it

/-- The state without an orphan. -/
def drop (st : OrphanNode W) (it : Uint256 × COrphanBlock) : OrphanNode W :=
  { st with
    mapOrphanBlocks := Function.update st.mapOrphanBlocks it.2.hashBlock none
    mapOrphanBlocksByPrev := st.mapOrphanBlocksByPrev.erase it
    setStakeSeenOrphan := st.setStakeSeenOrphan.erase it.2.stake }

/-- `PruneOrphanBlocks`; `none` when it does not return. -/
def pruneOrphanBlocks (st : OrphanNode W) (maxOrphanBlocks : ℤ) (rand : ℕ) : Option (OrphanNode W) :=
  match pruned st.mapOrphanBlocksByPrev maxOrphanBlocks rand with
  | none => some st
  | some it => it.map st.drop

variable [Crypto]

/-! ### Keeping an orphan -/

/-- The orphan of a block. -/
def orphan (b : CBlock) : COrphanBlock where
  hashBlock := b.getHash
  hashPrev := b.hashPrevBlock
  stake := b.getProofOfStake
  block := b

/-- The insertion into the multimap. -/
def insertByPrev (o : COrphanBlock) (byPrev : List (Uint256 × COrphanBlock)) : List (Uint256 × COrphanBlock) :=
  (byPrev.takeWhile fun e => e.1 ≤ o.hashPrev) ++ (o.hashPrev, o) :: byPrev.dropWhile fun e => e.1 ≤ o.hashPrev

/-- The state with an orphan. -/
def keep (st : OrphanNode W) (o : COrphanBlock) : OrphanNode W :=
  { st with
    mapOrphanBlocks := Function.update st.mapOrphanBlocks o.hashBlock (some o)
    mapOrphanBlocksByPrev := insertByPrev o st.mapOrphanBlocksByPrev
    setStakeSeenOrphan :=
      if o.block.isProofOfStake then insert o.stake st.setStakeSeenOrphan else st.setStakeSeenOrphan }

/-- What `ProcessBlock` does with a block whose parent is not known. -/
def processOrphan (env : ProcessEnv) (st : OrphanNode W) (b : CBlock) : Option (OrphanNode W × Except Reject Unit) :=
  if !env.pfrom then some (st, .ok ())
  else if b.isProofOfStake && b.getProofOfStake ∈ st.setStakeSeenOrphan &&
      !st.mapOrphanBlocksByPrev.any fun e => e.1 = b.getHash then
    some (st, .error (.error "ProcessBlock() : duplicate proof-of-stake for orphan block"))
  else
    (st.pruneOrphanBlocks env.maxOrphanBlocks env.rand).map fun st => (st.keep (orphan b), .ok ())

variable [CWalletInterface W] (params : CChainParams)

/-! ### Accepting a block and the orphans that wait for it -/

/-- `AcceptBlock`; the orphans stay as they are. -/
def acceptBlock (env : AcceptEnv) (st : OrphanNode W) (b : CBlock) : OrphanNode W × Outcome :=
  let (node, outcome) := st.toIndexedNode.acceptBlock params env b
  ({ st with toIndexedNode := node }, outcome)

/-- One turn of the loop over the orphans that wait for a block: the state after it, and the hash that goes to
the end of `vWorkQueue`. -/
def tryOrphan (env : ProcessEnv) (o : COrphanBlock) (st : OrphanNode W) : OrphanNode W × Option Uint256 :=
  let (st, outcome) := st.acceptBlock params (env.accept o.block.getHash) o.block
  ({ st with
      mapOrphanBlocks := Function.update st.mapOrphanBlocks o.hashBlock none
      setStakeSeenOrphan := st.setStakeSeenOrphan.erase o.block.getProofOfStake },
    match outcome with
    | .done _ => some o.hashBlock
    | .failed _ => none)

/-- The loop over `vWorkQueue`, once a block is accepted. -/
def processQueue (env : ProcessEnv) (st : OrphanNode W) (hash : Uint256) : Drain Uint256 COrphanBlock (OrphanNode W) :=
  drain (tryOrphan params env) (1 + st.mapOrphanBlocksByPrev.length) ⟨[hash], st.mapOrphanBlocksByPrev, st, []⟩

/-- What `ProcessBlock` does with a block whose parent is known: the state, the result, and the orphans tried,
each with the state it was tried in. -/
def processAccept (env : ProcessEnv) (st : OrphanNode W) (b : CBlock) :
    OrphanNode W × Except Reject Unit × List (OrphanNode W × COrphanBlock) :=
  match st.acceptBlock params (env.accept b.getHash) b with
  | (st, .failed _) => (st, .error (.error "ProcessBlock() : AcceptBlock FAILED"), [])
  | (st, .done _) =>
    let d := processQueue params env st b.getHash
    ({ d.state with mapOrphanBlocksByPrev := d.pool }, .ok (), d.visits)

/-! ### ProcessBlock -/

/-- The tests of `ProcessBlock`. -/
def checkProcess (env : ProcessEnv) (st : OrphanNode W) (b : CBlock) : Except Reject Unit := do
  rejectIf (st.mapBlockIndex b.getHash).isSome (.error "ProcessBlock() : already have block")
  rejectIf (st.mapOrphanBlocks b.getHash).isSome (.error "ProcessBlock() : already have block (orphan)")
  rejectIf (!env.fReindex && !env.fImporting && b.isProofOfStake && b.getProofOfStake ∈ st.setStakeSeen &&
      !st.mapOrphanBlocksByPrev.any fun e => e.1 = b.getHash)
    (.error "ProcessBlock() : duplicate proof-of-stake for block")
  let checkpoint := autoSelectSyncCheckpoint st.best.pindexBest.nHeight st.best.pindexBest
  rejectIf (b.hashPrevBlock != st.hashBestChain &&
      b.getBlockTime < (checkpoint.head?.map CBlockIndex.getBlockTime).getD 0)
    (.error "ProcessBlock() : block with timestamp before last checkpoint")
  rejectIf (!isCanonicalBlockSignature b) (.error "ProcessBlock(): bad block signature encoding")
  (b.checkBlock params env.check st.best true true true).mapError fun _ => .error "ProcessBlock() : CheckBlock FAILED"

/-- `ProcessBlock`, up to the payments of masternodes that follow an accepted block; `none` when it does not
return. -/
def processBlock (env : ProcessEnv) (st : OrphanNode W) (b : CBlock) : Option (OrphanNode W × Except Reject Unit) :=
  match checkProcess params env st b with
  | .error e => some (st, .error e)
  | .ok _ =>
    if (st.mapBlockIndex b.hashPrevBlock).isNone then processOrphan env st b
    else
      let (st, result, _) := processAccept params env st b
      some (st, result)

/-! ### Runs -/

/-- The state once the genesis block is installed. -/
def genesis (p : CBlockIndex) (wallets : W) : OrphanNode W where
  toIndexedNode := IndexedNode.genesis p wallets
  mapOrphanBlocks := Library.Overlay.nothing
  mapOrphanBlocksByPrev := []
  setStakeSeenOrphan := ∅

end OrphanNode

/-- What happens to a node with orphans. -/
inductive OrphanEvent where
  /-- `ProcessBlock` is called on a block. -/
  | processBlock (env : ProcessEnv) (b : CBlock)
  /-- `PruneOrphanBlocks` is called. -/
  | pruneOrphanBlocks (maxOrphanBlocks : ℤ) (rand : ℕ)
  /-- `AcceptToMemoryPool` is called on a transaction. -/
  | accept (env : MemPoolEnv) (tx : CTransaction) (fLimitFree fRejectInsaneFee ignoreFees : Bool)

namespace OrphanNode

variable {W : Type} [Crypto] [CWalletInterface W] (params : CChainParams)

/-- The node after an event; there is no new state after a call that does not return. -/
def step (st : OrphanNode W) : OrphanEvent → OrphanNode W
  | .processBlock env b => ((processBlock params env st b).map Prod.fst).getD st
  | .pruneOrphanBlocks maxOrphanBlocks rand => (st.pruneOrphanBlocks maxOrphanBlocks rand).getD st
  | .accept env tx fLimitFree fRejectInsaneFee ignoreFees =>
    { st with toIndexedNode := st.toIndexedNode.step params (.tx env tx fLimitFree fRejectInsaneFee ignoreFees) }

/-- The node after a sequence of events. -/
def run (st : OrphanNode W) (events : List OrphanEvent) : OrphanNode W := Library.Runs.run (step params) st events

/-- Whether a call of `ProcessBlock` gets to `AcceptBlock`. -/
def reachesAccept (env : ProcessEnv) (st : OrphanNode W) (b : CBlock) : Bool :=
  (checkProcess params env st b).toOption.isSome && (st.mapBlockIndex b.hashPrevBlock).isSome

/-- Whether a call of `ProcessBlock` gets to `PruneOrphanBlocks`, and keeps the block. -/
def reachesPrune (env : ProcessEnv) (st : OrphanNode W) (b : CBlock) : Bool :=
  (checkProcess params env st b).toOption.isSome && (st.mapBlockIndex b.hashPrevBlock).isNone && env.pfrom &&
    !(b.isProofOfStake && b.getProofOfStake ∈ st.setStakeSeenOrphan &&
      !st.mapOrphanBlocksByPrev.any fun e => e.1 = b.getHash)

/-- The orphans that an event tries, each with the state it is tried in. -/
def tries (st : OrphanNode W) : OrphanEvent → List (OrphanNode W × COrphanBlock)
  | .processBlock env b => if reachesAccept params env st b then (processAccept params env st b).2.2 else []
  | _ => []

end OrphanNode

end PayDayCoin
