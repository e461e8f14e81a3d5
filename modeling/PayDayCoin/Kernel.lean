import PayDayCoin.ConnectInputs
import Mathlib.Data.List.Sort

/-!
# The stake kernel

The stake modifier (`computeNextStakeModifier`), and the test that a coin may stake at a
time (`checkStakeKernelHash`) with its two callers: `checkProofOfStake`, which validates
a coinstake, and `checkKernel`, by which the miner searches. Each looks the coin up in
the database and the block files; `KernelEnv` holds what the lookups yield.

The times are 32-bit in `checkStakeKernelHash` and 64-bit in `checkKernel`, as in the
source.
-/

namespace PayDayCoin

open Library.Checks

/-- `nStakeMinAge`. -/
def nStakeMinAge : UInt32 := 24 * 60 * 60

/-- `nStakeMaxAge`. -/
def nStakeMaxAge : UInt32 := 48 * 24 * 60 * 60

/-- `nModifierInterval`. -/
def nModifierInterval : ℤ := 2 * 60

/-- `MODIFIER_INTERVAL_RATIO`. -/
def MODIFIER_INTERVAL_RATIO : ℤ := 3

/-- `STAKE_TIMESTAMP_MASK`. -/
def STAKE_TIMESTAMP_MASK : UInt32 := 15

/-! ### The stake modifier -/

/-- `GetLastStakeModifier`: the last modifier generated on the path, and its time. -/
def getLastStakeModifier : PIndex → Option (UInt64 × ℤ)
  | [] => none
  | p :: pprev =>
    if p.generatedStakeModifier then some (p.nStakeModifier, p.getBlockTime)
    else getLastStakeModifier pprev

/-- `GetStakeModifierSelectionIntervalSection`. -/
def getStakeModifierSelectionIntervalSection (nSection : ℕ) : ℤ :=
  nModifierInterval * 63 / (63 + (63 - nSection) * ( MODIFIER_INTERVAL_RATIO - 1))

/-- `GetStakeModifierSelectionInterval`. -/
def getStakeModifierSelectionInterval : ℤ :=
  ((List.range 64).map getStakeModifierSelectionIntervalSection).sum

/-- The order of the candidates: by time, then by hash. -/
def candidateLe (p q : CBlockIndex) : Prop :=
  p.getBlockTime < q.getBlockTime ∨ (p.getBlockTime = q.getBlockTime ∧ p.hash.toNat ≤ q.hash.toNat)

instance : DecidableRel candidateLe := fun _ _ => inferInstanceAs (Decidable (_ ∨ _))

/-- The hash by which a candidate is selected; the shift favours proof of stake. -/
def selectionHash [Crypto] (nStakeModifierPrev : UInt64) (p : CBlockIndex) : ℕ :=
  let hashSelection := (Crypto.hashSelection p.hashProof nStakeModifierPrev).toNat
  if p.isProofOfStake then hashSelection / 2 ^ 32 else hashSelection

/-- The loop of `SelectBlockFromCandidates`: `best` is the candidate selected so far. -/
def selectBlockFromCandidates [Crypto] (mapSelectedBlocks : List Uint256) (nSelectionIntervalStop : ℤ)
    (nStakeModifierPrev : UInt64) : List CBlockIndex → Option CBlockIndex → Option CBlockIndex
  | [], best => best
  | p :: candidates, best =>
    if best.isSome ∧ nSelectionIntervalStop < p.getBlockTime then best
    else if p.hash ∈ mapSelectedBlocks then
      selectBlockFromCandidates mapSelectedBlocks nSelectionIntervalStop nStakeModifierPrev candidates best
    else
      let best :=
        match best with
        | none => some p
        | some q =>
          if selectionHash nStakeModifierPrev p < selectionHash nStakeModifierPrev q then some p else some q
      selectBlockFromCandidates mapSelectedBlocks nSelectionIntervalStop nStakeModifierPrev candidates best

/-- The state of the selection rounds of `ComputeNextStakeModifier`. -/
structure SelectionState where
  nStakeModifierNew : UInt64 := 0
  nSelectionIntervalStop : ℤ
  mapSelectedBlocks : List Uint256 := []

/-- One selection round. -/
def selectionRound [Crypto] (candidates : List CBlockIndex) (nStakeModifier : UInt64) (s : SelectionState)
    (nRound : ℕ) : Option SelectionState :=
  let stop := s.nSelectionIntervalStop + getStakeModifierSelectionIntervalSection nRound
  match selectBlockFromCandidates s.mapSelectedBlocks stop nStakeModifier candidates none with
  | none => none
  | some p => some {
      nStakeModifierNew := s.nStakeModifierNew ||| (p.getStakeEntropyBit <<< UInt64.ofNat nRound)
      nSelectionIntervalStop := stop
      mapSelectedBlocks := p.hash :: s.mapSelectedBlocks }

/-- `ComputeNextStakeModifier`: the modifier of the block after `pindexPrev`, and whether
it is newly generated; `none` when it fails. -/
def computeNextStakeModifier [Crypto] (pindexPrev : PIndex) : Option (UInt64 × Bool) :=
  match pindexPrev with
  | [] => some (0, true)
  | prev :: _ => do
    let (nStakeModifier, nModifierTime) ← getLastStakeModifier pindexPrev
    if prev.getBlockTime / nModifierInterval ≤ nModifierTime / nModifierInterval then
      some (nStakeModifier, false)
    else
      let start := prev.getBlockTime / nModifierInterval * nModifierInterval - getStakeModifierSelectionInterval
      let candidates := (pindexPrev.takeWhile fun p => start ≤ p.getBlockTime).reverse.insertionSort candidateLe
      let s ← (List.range (min 64 candidates.length)).foldlM (selectionRound candidates nStakeModifier)
        { nSelectionIntervalStop := start }
      some (s.nStakeModifierNew, true)

/-- `ComputeStakeModifierV2`. -/
def computeStakeModifierV2 [Crypto] (pindexPrev : PIndex) (kernel : Uint256) : Uint256 :=
  match pindexPrev with
  | [] => 0
  | prev :: _ => Crypto.hashModifierV2 kernel prev.bnStakeModifierV2

/-! ### The kernel test -/

/-- What the kernel tests read from the database and the block files. -/
structure KernelEnv where
  /-- `ReadTxIndex`. -/
  readTxIndex : Uint256 → Option CTxIndex
  /-- The transaction at a position. -/
  readTx : CDiskTxPos → Option CTransaction
  /-- `CBlock::ReadFromDisk(nFile, nBlockPos, false)`: the header at a position. -/
  readHeader : UInt32 → UInt32 → Option CBlockHeader

/-- `txPrev.ReadFromDisk(txdb, prevout, txindex)`: the transaction of an outpoint that it
has, and its record. -/
def KernelEnv.readPrevTx (env : KernelEnv) (prevout : COutPoint) : Option (CTxIndex × CTransaction × CTxOut) := do
  let txindex ← env.readTxIndex prevout.hash
  let txPrev ← env.readTx txindex.pos
  let txout ← txPrev.vout[prevout.n.toNat]?
  return (txindex, txPrev, txout)

/-- `CheckStakeKernelHash`: the proof hash, when the kernel meets its target. -/
def checkStakeKernelHash [Crypto] (pindexPrev : PIndex) (nBits nTimeBlockFrom : UInt32) (txPrev : CTransaction)
    (txout : CTxOut) (prevout : COutPoint) (nTimeTx : UInt32) : Except Reject Uint256 := do
  rejectIf (nTimeTx < txPrev.nTime) (.error "CheckStakeKernelHash() : nTime violation")
  rejectIf (nTimeTx < nTimeBlockFrom + nStakeMinAge) (.error "CheckStakeKernelHash() : min age violation")
  rejectIf (nTimeBlockFrom + nStakeMaxAge < nTimeTx) (.error "CheckStakeKernelHash() : max age violation")
  let bnTarget := setCompact nBits * txout.nValue
  let nStakeModifier := (pindexPrev.head?.map CBlockIndex.nStakeModifier).getD 0
  let hashProofOfStake := Crypto.hashKernel nStakeModifier nTimeBlockFrom txPrev.nTime prevout.hash prevout.n nTimeTx
  rejectIf (bnTarget < hashProofOfStake.toNat) .fail
  return hashProofOfStake

/-- `CheckProofOfStake` from the lookup of the coin on, with the verdict on the coinstake's
signature given: the proof hash of a coinstake at time `nTime` whose kernel is `prevout`. -/
def checkProofOfStakeKernel [Crypto] (env : KernelEnv) (verify : CTransaction → Bool) (pindexPrev : PIndex)
    (nBits : UInt32) (prevout : COutPoint) (nTime : UInt32) : Except Reject Uint256 := do
  let (txindex, txPrev, txout) ← orReject (env.readPrevTx prevout)
    (.dos 1 "CheckProofOfStake() : INFO: read txPrev failed")
  rejectIf (!verify txPrev) (.dos 100 "CheckProofOfStake() : VerifySignature failed on coinstake")
  let header ← orReject (env.readHeader txindex.pos.nFile txindex.pos.nBlockPos) .fail
  (checkStakeKernelHash pindexPrev nBits header.nTime txPrev txout prevout nTime).mapError fun _ =>
    .dos 1 "CheckProofOfStake() : INFO: check kernel failed on coinstake"

/-- `CheckProofOfStake`. -/
def checkProofOfStake [Crypto] (env : KernelEnv) (pindexPrev : PIndex) (tx : CTransaction) (nBits : UInt32) :
    Except Reject Uint256 := do
  rejectIf (!tx.isCoinStake) (.error "CheckProofOfStake() : called on non-coinstake")
  checkProofOfStakeKernel env (fun txPrev => Crypto.verifySignature txPrev tx 0 CScript.SCRIPT_VERIFY_NONE 0)
    pindexPrev nBits (tx.vin.headD default).prevout tx.nTime

/-- `CheckCoinStakeTimestamp`. -/
def checkCoinStakeTimestamp (nTimeBlock nTimeTx : UInt32) : Bool :=
  nTimeBlock == nTimeTx && nTimeTx &&& STAKE_TIMESTAMP_MASK == 0

/-- `CheckKernel`: the miner's test of a coin at time `nTime`. -/
def checkKernel [Crypto] (env : KernelEnv) (pindexPrev : PIndex) (nBits : UInt32) (nTime : ℤ)
    (prevout : COutPoint) : Bool :=
  match env.readPrevTx prevout with
  | none => false
  | some (txindex, txPrev, txout) =>
    match env.readHeader txindex.pos.nFile txindex.pos.nBlockPos with
    | none => false
    | some header =>
      let blockTime : ℤ := header.nTime.toNat
      if nTime < blockTime + nStakeMinAge.toNat ∨ blockTime + nStakeMaxAge.toNat < nTime then false
      else if (isConfirmedInNPrevBlocks txindex pindexPrev (STAKE_MIN_CONFIRMATIONS - 1)).isSome then false
      else (checkStakeKernelHash pindexPrev nBits header.nTime txPrev txout prevout (UInt32.ofInt nTime)).isOk

end PayDayCoin
