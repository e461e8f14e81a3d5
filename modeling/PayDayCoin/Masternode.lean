import PayDayCoin.CachedCredit
import PayDayCoin.MasternodePayments

/-!
# Masternodes and their ranks

A masternode is known by the input that holds its collateral. `CMasternode::Check` decides
whether it is enabled; `CalculateScore` measures its input against the hash of a block; and
four functions of `CMasternodeMan` rank the masternodes by their scores. Only the low 32 bits
of a score count. `std::sort` may leave equal scores in any order, but it sees nothing of
what it sorts but the scores (`StdSort`).
-/

namespace PayDayCoin

/-! ### A masternode -/

/-- `CMasternode::activeState`. -/
inductive MasternodeState where
  | MASTERNODE_ENABLED
  | MASTERNODE_EXPIRED
  | MASTERNODE_VIN_SPENT
  | MASTERNODE_REMOVE
  | MASTERNODE_POS_ERROR
deriving DecidableEq, Repr

/-- The address of a node. -/
structure CService where
  ip : List UInt8
  port : UInt16
deriving DecidableEq, Repr

/-- A masternode. -/
structure CMasternode where
  vin : CTxIn
  addr : CService := ⟨[], 0⟩
  pubkey : List UInt8 := []
  pubkey2 : List UInt8 := []
  sig : List UInt8 := []
  activeState : MasternodeState := .MASTERNODE_ENABLED
  /-- The time of its announcement. -/
  sigTime : ℤ := 0
  /-- The time of its last ping. -/
  lastDseep : ℤ := 0
  lastTimeSeen : ℤ := 0
  unitTest : Bool := false
  protocolVersion : ℤ
  donationAddress : CScript := []
  donationPercentage : ℤ := 0
deriving DecidableEq, Repr

def MASTERNODE_EXPIRATION_SECONDS : ℤ := 70 * 60
def MASTERNODE_REMOVAL_SECONDS : ℤ := 120 * 60

/-- What the checks of a masternode read of the rest of the node. -/
structure MasternodeEnv where
  /-- `GetAdjustedTime()`. -/
  adjustedTime : ℤ
  /-- No shutdown is requested, and `cs_main` is free. -/
  mainLock : Bool := true
  /-- `darkSendPool.collateralPubKey`. -/
  collateralPubKey : CScript
  /-- `AcceptableInputs`, with the memory pool and the chain. -/
  acceptableInputs : CTransaction → Bool

/-- The transaction that tries whether the collateral of an input can be spent. -/
def MasternodeEnv.trial (env : MasternodeEnv) (vin : CTxIn) : CTransaction where
  nTime := UInt32.ofInt env.adjustedTime
  vin := [vin]
  vout := [⟨(getMNCollateral - 1) * COIN, env.collateralPubKey⟩]

namespace CMasternode

/-- `CMasternode::UpdatedWithin`. -/
def updatedWithin (mn : CMasternode) (adjustedTime seconds : ℤ) : Bool := adjustedTime - mn.lastTimeSeen < seconds

/-- `CMasternode::IsEnabled`. -/
def isEnabled (mn : CMasternode) : Bool := mn.activeState == .MASTERNODE_ENABLED

/-- `CMasternode::Check`. -/
def check (env : MasternodeEnv) (mn : CMasternode) : CMasternode :=
  if !env.mainLock then mn
  else if mn.activeState = .MASTERNODE_VIN_SPENT then mn
  else if !mn.updatedWithin env.adjustedTime MASTERNODE_REMOVAL_SECONDS then
    { mn with activeState := .MASTERNODE_REMOVE }
  else if !mn.updatedWithin env.adjustedTime MASTERNODE_EXPIRATION_SECONDS then
    { mn with activeState := .MASTERNODE_EXPIRED }
  else if !mn.unitTest && !env.acceptableInputs (env.trial mn.vin) then
    { mn with activeState := .MASTERNODE_VIN_SPENT }
  else { mn with activeState := .MASTERNODE_ENABLED }

/-- `Check` changes nothing but `activeState`. -/
theorem check_eq (env : MasternodeEnv) (mn : CMasternode) :
    ∃ st, mn.check env = { mn with activeState := st } := by
  unfold check
  split_ifs
  · exact ⟨mn.activeState, rfl⟩
  · exact ⟨mn.activeState, rfl⟩
  · exact ⟨_, rfl⟩
  · exact ⟨_, rfl⟩
  · exact ⟨_, rfl⟩
  · exact ⟨_, rfl⟩

@[simp] theorem check_vin (env : MasternodeEnv) (mn : CMasternode) : (mn.check env).vin = mn.vin := by
  obtain ⟨st, h⟩ := check_eq env mn
  rw [h]

@[simp] theorem check_protocolVersion (env : MasternodeEnv) (mn : CMasternode) :
    (mn.check env).protocolVersion = mn.protocolVersion := by
  obtain ⟨st, h⟩ := check_eq env mn
  rw [h]

/-- A second check finds what the first has found. -/
theorem check_check (env : MasternodeEnv) (mn : CMasternode) : (mn.check env).check env = mn.check env := by
  by_cases hlock : env.mainLock = true
  swap
  · simp only [check, hlock, Bool.not_false, if_true]
  by_cases hspent : mn.activeState = .MASTERNODE_VIN_SPENT
  · simp only [check, hlock, hspent, if_true, Bool.not_true, Bool.false_eq_true, if_false]
  simp only [check, hlock, if_neg hspent, Bool.not_true, Bool.false_eq_true, if_false]
  by_cases hremove : mn.updatedWithin env.adjustedTime MASTERNODE_REMOVAL_SECONDS = true
  swap
  · simp [updatedWithin] at hremove
    simp [updatedWithin, hremove]
  by_cases hexpired : mn.updatedWithin env.adjustedTime MASTERNODE_EXPIRATION_SECONDS = true
  swap
  · simp only [updatedWithin, decide_eq_true_eq] at hremove hexpired
    simp [updatedWithin, hremove, hexpired]
  simp only [updatedWithin, decide_eq_true_eq] at hremove hexpired
  cases htrial : !mn.unitTest && !env.acceptableInputs (env.trial mn.vin) <;>
    simp [updatedWithin, hremove, hexpired, htrial]

end CMasternode

/-! ### Scores -/

/-- The best chain, and the cache of `GetBlockHash`. -/
structure BlockHashes where
  mapCacheBlockHashes : ℤ → Option Uint256 := fun _ => none
  pindexBest : PIndex

/-- `GetBlockHash`. -/
def BlockHashes.blockHash (hashes : BlockHashes) (nBlockHeight : ℤ) : Option Uint256 :=
  (PayDayCoin.getBlockHash hashes.mapCacheBlockHashes hashes.pindexBest nBlockHeight).1

/-- `Hash` of the hash of a block, and of that hash with another. -/
structure ScoreHash where
  hash : Uint256 → Uint256
  hashAux : Uint256 → Uint256 → Uint256

/-- `CMasternode::CalculateScore`. -/
def CMasternode.calculateScore (H : ScoreHash) (hashes : BlockHashes) (mn : CMasternode) (nBlockHeight : ℤ) : Uint256 :=
  if hashes.pindexBest = [] then 0
  else
    let aux := mn.vin.prevout.hash + BitVec.ofNat 256 mn.vin.prevout.n.toNat
    match hashes.blockHash nBlockHeight with
    | none => 0
    | some hash => distance (H.hashAux hash aux) (H.hash hash)

/-- `memcpy` of a score to an `unsigned int`. -/
def lowBits (n : Uint256) : UInt32 := UInt32.ofNat n.toNat

/-- `std::sort` from the back, by `CompareValueOnly`: the greatest first. The order of equal
values is left to the library, which only compares values. -/
structure StdSort where
  sort : ∀ {α : Type}, List (UInt32 × α) → List (UInt32 × α)
  perm : ∀ {α : Type} (l : List (UInt32 × α)), (sort l).Perm l
  descending : ∀ {α : Type} (l : List (UInt32 × α)), (sort l).Pairwise fun s t => t.1 ≤ s.1
  map : ∀ {α β : Type} (f : α → β) (l : List (UInt32 × α)),
    sort (l.map (Prod.map id f)) = (sort l).map (Prod.map id f)

/-! ### Ranks -/

/-- `CMasternodeMan`: the masternodes. -/
structure CMasternodeMan where
  vMasternodes : List CMasternode := []

namespace CMasternodeMan

/-- `CMasternodeMan::Find`. -/
def find (man : CMasternodeMan) (vin : CTxIn) : Option CMasternode :=
  man.vMasternodes.find? fun mn => mn.vin.prevout == vin.prevout

section Ranking

variable (S : StdSort) (H : ScoreHash) (hashes : BlockHashes) (env : MasternodeEnv)

/-- The masternodes as `Check` leaves them, where it is called, of a protocol version and
enabled where it matters. -/
def eligible (man : CMasternodeMan) (minProtocol : ℤ) (fOnlyActive : Bool) : List CMasternode :=
  if fOnlyActive then
    (man.vMasternodes.map fun mn => mn.check env).filter fun mn => minProtocol ≤ mn.protocolVersion && mn.isEnabled
  else man.vMasternodes.filter fun mn => minProtocol ≤ mn.protocolVersion

/-- The masternodes after the scan of `GetMasternodeByRank`. -/
def scanned (man : CMasternodeMan) (minProtocol : ℤ) (fOnlyActive : Bool) : CMasternodeMan where
  vMasternodes := man.vMasternodes.map fun mn =>
    if fOnlyActive ∧ minProtocol ≤ mn.protocolVersion then mn.check env else mn

/-- The masternodes with the low bits of their scores. -/
def scores (nBlockHeight : ℤ) (l : List CMasternode) : List (UInt32 × CMasternode) :=
  l.map fun mn => (lowBits (mn.calculateScore H hashes nBlockHeight), mn)

/-- The loop of `GetCurrentMasterNode`. -/
def winnerLoop : UInt32 → Option CMasternode → List (UInt32 × CMasternode) → Option CMasternode
  | _, winner, [] => winner
  | score, winner, (n2, mn) :: l => if score < n2 then winnerLoop n2 (some mn) l else winnerLoop score winner l

/-- `CMasternodeMan::GetCurrentMasterNode`. -/
def getCurrentMasterNode (man : CMasternodeMan) (nBlockHeight minProtocol : ℤ) : Option CMasternode :=
  winnerLoop 0 none (scores H hashes nBlockHeight (man.eligible env minProtocol true))

/-- The position of an input in the sorted list, from `rank` on. -/
def rankLoop (vin : CTxIn) : ℤ → List (UInt32 × CTxIn) → ℤ
  | _, [] => -1
  | rank, s :: l => if s.2 = vin then rank + 1 else rankLoop vin (rank + 1) l

/-- The inputs with the low bits of their masternodes' scores, the greatest first. -/
def vecMasternodeScores (man : CMasternodeMan) (nBlockHeight minProtocol : ℤ) (fOnlyActive : Bool) :
    List (UInt32 × CTxIn) :=
  S.sort ((scores H hashes nBlockHeight (man.eligible env minProtocol fOnlyActive)).map (Prod.map id CMasternode.vin))

/-- `CMasternodeMan::GetMasternodeRank`. -/
def getMasternodeRank (man : CMasternodeMan) (vin : CTxIn) (nBlockHeight minProtocol : ℤ) (fOnlyActive : Bool) : ℤ :=
  match hashes.blockHash nBlockHeight with
  | none => -1
  | some _ => rankLoop vin 0 (man.vecMasternodeScores S H hashes env nBlockHeight minProtocol fOnlyActive)

/-- The numbered list, from `rank` on. -/
def ranksFrom : ℤ → List (UInt32 × CMasternode) → List (ℤ × CMasternode)
  | _, [] => []
  | rank, s :: l => (rank + 1, s.2) :: ranksFrom (rank + 1) l

/-- `CMasternodeMan::GetMasternodeRanks`. -/
def getMasternodeRanks (man : CMasternodeMan) (nBlockHeight minProtocol : ℤ) : List (ℤ × CMasternode) :=
  match hashes.blockHash nBlockHeight with
  | none => []
  | some _ => ranksFrom 0 (S.sort (scores H hashes nBlockHeight (man.eligible env minProtocol true)))

/-- The loop of `GetMasternodeByRank`. -/
def byRankLoop (man : CMasternodeMan) (nRank : ℤ) : ℤ → List (UInt32 × CTxIn) → Option CMasternode
  | _, [] => none
  | rank, s :: l => if rank + 1 = nRank then man.find s.2 else byRankLoop man nRank (rank + 1) l

/-- `CMasternodeMan::GetMasternodeByRank`. -/
def getMasternodeByRank (man : CMasternodeMan) (nRank nBlockHeight minProtocol : ℤ) (fOnlyActive : Bool) :
    Option CMasternode :=
  byRankLoop (man.scanned env minProtocol fOnlyActive) nRank 0
    (man.vecMasternodeScores S H hashes env nBlockHeight minProtocol fOnlyActive)

end Ranking

end CMasternodeMan

end PayDayCoin
