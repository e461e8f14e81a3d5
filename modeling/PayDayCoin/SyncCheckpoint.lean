import PayDayCoin.ChainSync
import PayDayCoin.BlockIndexRuns

/-!
# The sync checkpoint

`AcceptBlock` rejects a block that is not above the sync checkpoint, the block of the best chain that
is `nCheckpointSpan` deep (**`checkSync_iff`**). The test is made once for each block, against the
best chain of that moment. A branch may go on for long afterwards, and so may the best
chain; `Reorganize` does not look at the checkpoint again.

**`reorganize_depth_le`**: a reorganization disconnects at most `nCheckpointSpan` blocks and as many
as the best chain has grown by since the first block of the new branch was accepted.
-/

namespace PayDayCoin

open Library.Checks Library.Overlay Library.Runs

/-! ### CheckSync -/

/-- The sync checkpoint is `nCheckpointSpan` deep, or the lowest block of the path. -/
theorem nHeight_autoSelectSyncCheckpoint (nBestHeight : ℕ) (path : PIndex) :
    (autoSelectSyncCheckpoint nBestHeight path).nHeight = min path.nHeight (nBestHeight - nCheckpointSpan) := by
  induction path with
  | nil => simp [autoSelectSyncCheckpoint, PIndex.nHeight]
  | cons p pprev ih =>
    cases pprev with
    | nil => simp [autoSelectSyncCheckpoint, PIndex.nHeight]
    | cons q pprev =>
      rw [autoSelectSyncCheckpoint]
      split
      · next hlt =>
        rw [ih]
        simp only [PIndex.nHeight, List.length_cons] at hlt ⊢
        omega
      · next hle =>
        simp only [PIndex.nHeight, List.length_cons] at hle ⊢
        omega

/-- **`CheckSync`**: the height is less than `nCheckpointSpan` below the best block. -/
theorem checkSync_iff {pindexBest : PIndex} {nHeight : ℕ} :
    checkSync pindexBest nHeight = true ↔ pindexBest.nHeight - nCheckpointSpan < nHeight := by
  rw [checkSync, decide_eq_true_iff, nHeight_autoSelectSyncCheckpoint, Nat.min_eq_right (Nat.sub_le _ _)]

section Accept

variable [Crypto] {W : Type} {params : CChainParams} {node node' : Node W} {p : CBlockIndex} {path pprev : PIndex}

theorem checkSync_of_checkAccept {env : AcceptEnv} {b : CBlock} {hashProof : Uint256}
    (h : checkAccept params env node b pprev = .ok hashProof) :
    node.best.pindexBest.nHeight ≤ pprev.nHeight + nCheckpointSpan := by
  simp only [checkAccept, bind_eq_ok, rejectIf_eq_ok, pure_eq_ok] at h
  obtain ⟨-, -, -, -, -, -, -, -, -, -, -, -, -, -, -, -, -, -, -, hsync, -⟩ := h
  rw [Bool.not_eq_false', checkSync_iff] at hsync
  omega

variable [CWalletInterface W]

/-! ### The reorganizations of a run -/

/-- The path that `SetBestChain` calls `Reorganize` on in an event, if it comes to that. -/
def Node.reorganizesTo (params : CChainParams) (node : Node W) : NodeEvent → Option PIndex
  | .tx .. => none
  | .block env b =>
    match node.chainCall params env b with
    | none => none
    | some (p, pprev) =>
      if (node.pindexGenesisBlock = [] ∧ p.hash = params.hashGenesisBlock) ∨ p.block.hashPrevBlock = node.hashBestChain
      then none
      else some (PIndex.postpone node.best.pindexBest.nChainTrust (p :: pprev)).2

theorem reorganizesTo_eq_some {event : NodeEvent} {pindexNew : PIndex}
    (h : node.reorganizesTo params event = some pindexNew) :
    ∃ env b p pprev, event = .block env b ∧ node.mapBlockIndex p.hash = none ∧
      ¬(node.pindexGenesisBlock = [] ∧ p.hash = params.hashGenesisBlock) ∧ p.block.hashPrevBlock ≠ node.hashBestChain ∧
      pindexNew = (PIndex.postpone node.best.pindexBest.nChainTrust (p :: pprev)).2 ∧
      acceptBlock params env node b =
        setBestChain params env.chain ((node.insertEntry p pprev).commitEntry p pprev) p pprev := by
  cases event with
  | tx env tx fLimitFree fRejectInsaneFee ignoreFees => cases h
  | block env b =>
    rcases chainCall_cases params env node b with ⟨hnone, -, -⟩ | ⟨p, pprev, _, _, _, hcall, hp, hnew, -, -, hacc⟩
    · simp [Node.reorganizesTo, hnone] at h
    · simp only [Node.reorganizesTo, hcall] at h
      obtain ⟨hcond, h⟩ := Option.ite_none_left_eq_some.1 h
      obtain ⟨hgenesis, hextends⟩ := not_or.1 hcond
      exact ⟨env, b, p, pprev, rfl, hp ▸ hnew, hgenesis, hextends, (Option.some.inj h).symm, hacc⟩

/-- `SetBestChain` on a block that does not extend the best chain: `Reorganize`, then the
postponed blocks. -/
theorem setBestChain_of_fork (params : CChainParams) (env : ChainEnv) (pprev : PIndex)
    (hgenesis : ¬(node.pindexGenesisBlock = [] ∧ p.hash = params.hashGenesisBlock))
    (hextends : p.block.hashPrevBlock ≠ node.hashBestChain) :
    setBestChain params env node p pprev =
      match reorganize params env node (PIndex.postpone node.best.pindexBest.nChainTrust (p :: pprev)).2 with
      | (node₁, some _) => (node₁, .failed (.error "SetBestChain() : Reorganize failed"))
      | (node₁, none) =>
        let (node₂, error) := runUntil (postponedStep params env)
          (PIndex.postpone node.best.pindexBest.nChainTrust (p :: pprev)).1.reverse node₁
        (newBest node₂ (p :: pprev), .done error) := by
  rw [setBestChain, if_neg hgenesis]
  exact if_neg hextends

/-- **`reorganizesTo` is what `Reorganize` is called on**, by a node that still has the best
chain that the event came to. -/
theorem step_reorganizesTo {event : NodeEvent} {pindexNew : PIndex}
    (h : node.reorganizesTo params event = some pindexNew) :
    ∃ env b p pprev node₁, event = .block env b ∧ node₁.best = node.best ∧ pindexNew <:+ p :: pprev ∧
      acceptBlock params env node b =
        match reorganize params env.chain node₁ pindexNew with
        | (node₂, some _) => (node₂, .failed (.error "SetBestChain() : Reorganize failed"))
        | (node₂, none) =>
          let (node₃, error) := runUntil (postponedStep params env.chain)
            (PIndex.branch pindexNew (p :: pprev)).reverse node₂
          (newBest node₃ (p :: pprev), .done error) := by
  obtain ⟨env, b, p, pprev, rfl, -, hgenesis, hextends, rfl, hacc⟩ := reorganizesTo_eq_some h
  obtain ⟨-, hsuf, hsec⟩ := PIndex.postpone_eq node.best.pindexBest.nChainTrust p pprev
  refine ⟨env, b, p, pprev, (node.insertEntry p pprev).commitEntry p pprev, rfl, rfl, hsuf, ?_⟩
  rw [hacc, ← hsec]
  exact setBestChain_of_fork params env.chain pprev hgenesis hextends

/-- The new branch is in the block index after the event. -/
theorem indexed_of_reorganizesTo {event : NodeEvent} {pindexNew : PIndex} (hgen : node.pindexGenesisBlock ≠ [])
    (h : node.reorganizesTo params event = some pindexNew) :
    ∃ p pprev, pindexNew <:+ p :: pprev ∧ (node.step params event).mapBlockIndex p.hash = some (p :: pprev) := by
  obtain ⟨env, b, p, pprev, rfl, -, -, -, rfl, hacc⟩ := reorganizesTo_eq_some h
  obtain ⟨-, hsuf, -⟩ := PIndex.postpone_eq node.best.pindexBest.nChainTrust p pprev
  have hsame := setBestChain_sameIndex params env.chain ((node.insertEntry p pprev).commitEntry p pprev) hgen p pprev
  refine ⟨p, pprev, hsuf, ?_⟩
  rw [Node.step, hacc, hsame.1]
  exact Function.update_self ..

theorem Node.run_take_succ {events : List NodeEvent} {n : ℕ} {event : NodeEvent} (h : events[n]? = some event) :
    node.run params (events.take (n + 1)) = (node.run params (events.take n)).step params event :=
  Library.Runs.run_take_succ h

/-- **The depth of a reorganization.** The first block `q` of the new branch was accepted at a
moment when the fork was at most `nCheckpointSpan` deep, and since then the depth has grown by no more than
the height of the best block. -/
theorem reorganize_depth_le (params : CChainParams) (g : CBlockIndex) (wallets : W) (events : List NodeEvent)
    {n : ℕ} {event : NodeEvent} {pindexNew pfork : PIndex} {q : CBlockIndex} (hevent : events[n]? = some event)
    (hreorg : ((Node.genesis g wallets).run params (events.take n)).reorganizesTo params event = some pindexNew)
    (hfork : PIndex.findFork ((Node.genesis g wallets).run params (events.take n)).best.pindexBest pindexNew = some pfork)
    (hq : q :: pfork <:+ pindexNew) :
    ∃ m ≤ n, ((Node.genesis g wallets).run params (events.take m)).mapBlockIndex q.hash = none ∧
      ((Node.genesis g wallets).run params (events.take (m + 1))).mapBlockIndex q.hash = some (q :: pfork) ∧
      ((Node.genesis g wallets).run params (events.take m)).best.pindexBest.nHeight - pfork.nHeight ≤ nCheckpointSpan ∧
      ((Node.genesis g wallets).run params (events.take n)).best.pindexBest.nHeight - pfork.nHeight ≤
        nCheckpointSpan + (((Node.genesis g wallets).run params (events.take n)).best.pindexBest.nHeight -
          ((Node.genesis g wallets).run params (events.take m)).best.pindexBest.nHeight) := by
  obtain ⟨hne, -, -⟩ := PIndex.findFork_suffix hfork
  have hnow : ((Node.genesis g wallets).run params (events.take (n + 1))).mapBlockIndex q.hash = some (q :: pfork) := by
    obtain ⟨hgen, -⟩ := Node.IndexedFrom.run params g wallets (events.take n)
    obtain ⟨p, pprev, hsuf, hp⟩ := indexed_of_reorganizesTo (by rw [hgen]; simp) hreorg
    obtain ⟨-, hindex⟩ := Node.IndexedFrom.run params g wallets (events.take (n + 1))
    rw [← Node.run_take_succ hevent] at hp
    exact (hindex.suffix (hindex.indexed hp) (hq.trans hsuf) (by simp)).2
  have hstart : (Node.genesis g wallets).mapBlockIndex q.hash ≠ some (q :: pfork) := by
    simp only [Node.genesis, Function.update_apply, nothing]
    split
    · simpa using fun _ h => hne h
    · simp
  obtain ⟨m, event', hm, hevent', hbefore, hafter⟩ :=
    exists_origin (Q := fun node : Node W => node.mapBlockIndex q.hash = some (q :: pfork)) hstart hnow
  obtain ⟨hgen, -⟩ := Node.IndexedFrom.run params g wallets (events.take m)
  rw [← Node.run, Node.run_take_succ hevent'] at hafter
  rcases step_mapBlockIndex params (by rw [hgen]; simp) event' with
    hsame | ⟨env, b, hashProof, p, pprev, -, -, -, hnew, -, hcheck, hsame⟩
  · exact absurd (hsame.1 ▸ hafter) hbefore
  · rw [hsame.1, Node.insertEntry_mapBlockIndex] at hafter
    by_cases hqp : q.hash = p.hash
    · rw [if_pos hqp, Option.some.injEq] at hafter
      obtain ⟨rfl, rfl⟩ := List.cons.inj hafter
      have hdepth := checkSync_of_checkAccept hcheck
      refine ⟨m, Nat.le_of_lt_succ hm, hnew, ?_, Nat.sub_le_iff_le_add'.2 hdepth, by omega⟩
      rw [Node.run_take_succ hevent', hsame.1, Node.insertEntry_mapBlockIndex, if_pos rfl]
    · rw [if_neg hqp] at hafter
      exact absurd hafter hbefore

end Accept

/-! ### Two branches of one length -/

namespace Twins

/-- The hash of a header is its nonce. Proof of work is free, and the genesis block has its own
hash. -/
scoped instance crypto : Crypto :=
  { Sample.crypto with
    hash := fun h => BitVec.ofNat 256 h.nNonce.toNat
    hash9 := fun h => if h.nVersion = 7 then 0 else CChainParams.test.hashGenesisBlock }

/-- No wallet. -/
scoped instance noWallet : CWalletInterface Unit := Sample.noWallet

/-- The number of a block: the even ones are one branch, the odd ones the other. -/
def nonce (side : Bool) (k : ℕ) : ℕ := 2 * k + side.toNat

/-- The hash of the block at a height. -/
def hash (side : Bool) : ℕ → Uint256
  | 0 => Sample.genesis.hash
  | k + 1 => BitVec.ofNat 256 (nonce side (k + 1))

/-- The time of a height. A block may be a little older than the one below it, and the target
stays the same if it is. -/
def time (nHeight : ℕ) : UInt32 := UInt32.ofNat (1523531100 - nHeight)

/-- The coinbase at a height. It pays nothing, as it has to after the premine. -/
def coinbase (side : Bool) (nHeight : ℕ) : CTransaction where
  nTime := time nHeight
  vin := [⟨COutPoint.null, heightPrefix nHeight ++ [if side then 1 else 0], 0xffffffff⟩]
  vout := [⟨0, [0x51]⟩]

/-- The block on top of `k` others. -/
def block (side : Bool) (k : ℕ) : CBlock where
  hashPrevBlock := hash side k
  hashMerkleRoot := (coinbase side (k + 1)).getHash
  nTime := time (k + 1)
  nBits := 0x1f00ffff
  nNonce := UInt32.ofNat (nonce side (k + 1))
  vtx := [coinbase side (k + 1)]

/-- The readings when that block comes. -/
def env (side : Bool) (k : ℕ) : AcceptEnv := Sample.acceptEnv (UInt32.ofNat (1000 * nonce side (k + 1))) true

/-- Its entry. -/
def entry (side : Bool) (k : ℕ) (pprev : PIndex) : CBlockIndex :=
  newEntry (block side k) (Sample.blockPos (UInt32.ofNat (1000 * nonce side (k + 1)))) 0 pprev (0, false)

/-- The entries of a branch of a length, down to the genesis block. -/
def path (side : Bool) : ℕ → PIndex
  | 0 => [Sample.genesis]
  | k + 1 => entry side k (path side k) :: path side k

theorem path_succ (side : Bool) (k : ℕ) : path side (k + 1) = entry side k (path side k) :: path side k := rfl

/-- More blocks than any of the runs has. -/
def bound : ℕ := 2 ^ 20

theorem nonce_lt {side : Bool} {k : ℕ} (hk : k < bound) : nonce side k < 2 ^ 21 := by
  have := Bool.toNat_le side
  simp only [nonce, bound] at *
  omega

theorem toNat_hash {side : Bool} {k : ℕ} (hk : k + 1 < bound) : (hash side (k + 1)).toNat = nonce side (k + 1) := by
  rw [hash, BitVec.toNat_ofNat, Nat.mod_eq_of_lt ((nonce_lt hk).trans (by norm_num))]

/-- The blocks have different hashes. -/
theorem hash_inj {side side' : Bool} {j k : ℕ} (hk : k + 1 < bound) (hj : j < bound)
    (h : hash side (k + 1) = hash side' j) : side = side' ∧ k + 1 = j := by
  have h := congrArg BitVec.toNat h
  rw [toNat_hash hk] at h
  cases j with
  | zero =>
    have hlt : nonce side (k + 1) < 2 ^ 21 := nonce_lt hk
    rw [h] at hlt
    exact absurd hlt (show ¬Sample.genesis.hash.toNat < 2 ^ 21 by decide)
  | succ j =>
    rw [toNat_hash hj] at h
    cases side <;> cases side' <;> simp only [nonce, Bool.toNat_true, Bool.toNat_false] at h <;>
      first | exact ⟨rfl, by omega⟩ | omega

theorem getHash_block {side : Bool} {k : ℕ} (hk : k + 1 < bound) : (block side k).getHash = hash side (k + 1) := by
  have hlt : nonce side (k + 1) < 2 ^ 32 := (nonce_lt hk).trans (by norm_num)
  rw [CBlock.getHash, if_pos (show 6 < (block side k).nVersion from show (6 : Int32) < 7 by decide), hash]
  simp only [Crypto.hash, block, UInt32.toNat_ofNat', Nat.mod_eq_of_lt hlt]

theorem length_path (side : Bool) (k : ℕ) : (path side k).length = k + 1 := by
  induction k with
  | zero => rfl
  | succ k ih => rw [path, List.length_cons, ih]

@[simp] theorem nHeight_path (side : Bool) (k : ℕ) : (path side k).nHeight = k := by
  rw [PIndex.nHeight, length_path, Nat.add_sub_cancel]

theorem getBlockHash_path {side : Bool} {k : ℕ} (hk : k < bound) : (path side k).getBlockHash = hash side k := by
  cases k with
  | zero => rfl
  | succ k => exact getHash_block hk

/-! The trust of a branch depends on its length alone. -/

theorem toNat_nChainTrust_path (side : Bool) {k : ℕ} (hk : k < bound) :
    (path side k).nChainTrust.toNat = Sample.genesis.getBlockTrust.toNat + 65537 * k := by
  have hgenesis : Sample.genesis.getBlockTrust.toNat < 2 ^ 32 := by decide
  induction k with
  | zero =>
    rw [path, PIndex.nChainTrust, PIndex.nChainTrust]
    simp
  | succ k ih =>
    have hentry : (entry side k (path side k)).getBlockTrust = 65537 :=
      show (if setCompact 0x1f00ffff ≤ 0 then 0 else getuint256 (2 ^ 256 / (setCompact 0x1f00ffff + 1))) = 65537 by
        decide
    rw [path, PIndex.nChainTrust, hentry, BitVec.toNat_add, ih (Nat.lt_of_succ_lt hk), Nat.mod_eq_of_lt]
    · simp only [BitVec.reduceToNat]
      omega
    · simp only [BitVec.reduceToNat, bound] at *
      omega

/-! ### The checks of AcceptBlock -/

theorem isProofOfStake_block (side : Bool) (k : ℕ) : (block side k).isProofOfStake = false := rfl

theorem getLastBlockIndex_path (side : Bool) (k : ℕ) :
    PIndex.getLastBlockIndex false (path side k) = path side k := by
  cases k with
  | zero => rfl
  | succ k => cases k <;> rfl

theorem toNat_time (k : ℕ) : (time k).toNat = 1523531100 - k := by
  rw [time, UInt32.toNat_ofNat', Nat.mod_eq_of_lt (by omega)]

theorem getBlockTime_entry (side : Bool) {k : ℕ} (hk : k < bound) (pprev : PIndex) :
    (entry side k pprev).getBlockTime = 1523531099 - k := by
  have htime : (entry side k pprev).getBlockTime = (time (k + 1)).toNat := rfl
  rw [htime, toNat_time]
  simp only [bound] at hk
  omega

theorem isProofOfStake_entry (side : Bool) (k : ℕ) (pprev : PIndex) : (entry side k pprev).isProofOfStake = false := rfl

theorem nBits_entry (side : Bool) (k : ℕ) (pprev : PIndex) : (entry side k pprev).block.nBits = 0x1f00ffff := rfl

/-- A block that is older than the one below it leaves the easiest target. -/
theorem getNextTargetRequired_of_lt {p q r : CBlockIndex} {pprev : PIndex} (hp : p.isProofOfStake = false)
    (hq : q.isProofOfStake = false) (hbits : p.block.nBits = 0x1f00ffff) (htime : p.getBlockTime < q.getBlockTime) :
    getNextTargetRequired CChainParams.test (p :: q :: r :: pprev) false = 0x1f00ffff := by
  have hspacing : p.getBlockTime - q.getBlockTime < 0 := by omega
  simp only [getNextTargetRequired, PIndex.getLastBlockIndex, hp, hq, ne_eq, not_true_eq_false, if_false, Bool.false_eq_true,
    hspacing, if_true, hbits]
  decide

/-- The target stays the easiest. -/
theorem getNextTargetRequired_path (side : Bool) {k : ℕ} (hk : k < bound) :
    getNextTargetRequired CChainParams.test (path side k) false = 0x1f00ffff := by
  have hlimit : getCompact CChainParams.test.proofOfWorkLimit = 0x1f00ffff := by decide
  match k with
  | 0 => exact hlimit
  | 1 => exact hlimit
  | k + 2 =>
    have htime : (entry side (k + 1) (path side (k + 1))).getBlockTime < (entry side k (path side k)).getBlockTime := by
      rw [getBlockTime_entry side (by omega), getBlockTime_entry side (by omega)]
      omega
    obtain ⟨r, pprev, hpath⟩ := List.exists_cons_of_length_eq_add_one (length_path side k)
    rw [path_succ, path_succ, hpath]
    rw [path_succ, hpath] at htime
    exact getNextTargetRequired_of_lt (isProofOfStake_entry ..) (isProofOfStake_entry ..) (nBits_entry ..) htime

/-- The stake modifier stays that of the genesis block. -/
theorem computeNextStakeModifier_path (side : Bool) {k : ℕ} (hk : k < bound) :
    computeNextStakeModifier (path side k) = some (0, false) := by
  have hlast : getLastStakeModifier (path side k) = some (0, 1523531100) := by
    clear hk
    induction k with
    | zero => rfl
    | succ k ih =>
      rw [path, getLastStakeModifier, if_neg (by simp [entry, newEntry])]
      exact ih
  cases k with
  | zero => exact show computeNextStakeModifier [Sample.genesis] = some (0, false) by decide
  | succ k =>
    have htime := getBlockTime_entry side (Nat.lt_of_succ_lt hk) (path side k)
    rw [path] at hlast ⊢
    simp only [computeNextStakeModifier, hlast, Option.bind_eq_bind, Option.bind_some, htime]
    exact if_pos (Int.ediv_le_ediv (by decide) (by omega))

theorem exists_path_eq_cons (side : Bool) {k : ℕ} (hk : k < bound) :
    ∃ p pprev, path side k = p :: pprev ∧ p.getBlockTime = 1523531100 - k := by
  cases k with
  | zero => exact ⟨Sample.genesis, [], rfl, rfl⟩
  | succ k =>
    refine ⟨_, _, rfl, ?_⟩
    rw [getBlockTime_entry side (Nat.lt_of_succ_lt hk)]
    omega

/-- The checks of `AcceptBlock` pass, if the sync checkpoint does. -/
theorem checkAccept_block {node : Node Unit} (side : Bool) {k : ℕ} (hk : k + 1 < bound)
    (hsync : checkSync node.best.pindexBest (k + 1) = true) :
    checkAccept CChainParams.test (env side k) node (block side k) (path side k) = .ok 0 := by
  have htime : (block side k).getBlockTime = 1523531099 - k := getBlockTime_entry side (Nat.lt_of_succ_lt hk) []
  have hbits := getNextTargetRequired_path side (Nat.lt_of_succ_lt hk)
  have hheight := nHeight_path side k
  obtain ⟨p, pprev, hpath, hprev⟩ := exists_path_eq_cons side (Nat.lt_of_succ_lt hk)
  rw [hpath] at hbits hheight ⊢
  simp only [checkAccept, bind_eq_ok, rejectIf_eq_ok, pure_eq_ok, isProofOfStake_block, hbits, hheight]
  refine ⟨(), ?_, (), ?_, (), ?_, (), ?_, (), ?_, (), ?_, (), ?_, (), ?_, 0, ?_, (), ?_, (), ?_, rfl⟩
  · have hlast : CChainParams.test.lastPOWBlock = 0x7fffffff := rfl
    simp only [bound] at hk
    simp only [hlast, Bool.and_eq_false_iff, decide_eq_false_iff_not]
    omega
  · rfl
  · exact Bool.and_false _
  · rfl
  · rfl
  · simp only [htime, hprev, CBlockIndex.getPastTimeLimit, futureDrift, DRIFT, Bool.or_eq_false_iff, decide_eq_false_iff_not]
    omega
  · simp [block, coinbase, CTransaction.isFinalTx]
  · rfl
  · rfl
  · rw [hsync]
    rfl
  · rw [Bool.not_eq_false', List.isPrefixOf_iff_prefix]
    exact List.prefix_append _ _

/-! ### The checks of ConnectBlock -/

theorem sigOpLoop_le (fAccurate : Bool) (fuel : ℕ) (pc : CScript) (lastOpcode : UInt8) (n : ℕ) :
    CScript.sigOpLoop fAccurate fuel pc lastOpcode n ≤ n + 20 * fuel := by
  induction fuel generalizing pc lastOpcode n with
  | zero => exact Nat.le_refl n
  | succ fuel ih =>
    rw [CScript.sigOpLoop]
    split
    · omega
    · refine (ih _ _ _).trans ?_
      split
      · omega
      · split
        · split
          · next hsmall =>
            have hle : lastOpcode.toNat ≤ 96 := UInt8.le_iff_toNat_le.1 hsmall.2.2
            rw [CScript.decodeOP_N]
            split <;> omega
          · omega
        · omega

/-- **A script has at most 20 signature operations for each byte.** -/
theorem getSigOpCount_le (s : CScript) (fAccurate : Bool) : s.getSigOpCount fAccurate ≤ 20 * s.length := by
  have := sigOpLoop_le fAccurate s.length s CScript.OP_INVALIDOPCODE 0
  rwa [Nat.zero_add] at this

theorem mpiSize_le {n : ℕ} (hn : n < bound) : mpiSize n ≤ 3 := by
  rw [mpiSize]
  split
  · omega
  · next hne =>
    have := (Nat.log2_lt hne).2 hn
    omega

theorem length_heightPrefix {n : ℕ} (hn : n < bound) : 1 ≤ (heightPrefix n).length ∧ (heightPrefix n).length ≤ 4 := by
  rw [heightPrefix, CScript.pushInt64]
  split
  · simp
  · have hsize : (getvch n).length ≤ 3 := by
      rw [getvch_of_nonneg, length_leBytes]
      exact mpiSize_le hn
    have hsmall : (getvch n).length < CScript.OP_PUSHDATA1.toNat := Nat.lt_of_le_of_lt hsize (by decide)
    rw [CScript.push, if_pos hsmall]
    simp only [List.nil_append, List.length_append, List.length_cons, List.length_nil]
    omega

/-- The script of a coinbase is short. -/
theorem length_scriptSig (side : Bool) {n : ℕ} (hn : n < bound) :
    ∃ s, (coinbase side n).vin = [⟨COutPoint.null, s, 0xffffffff⟩] ∧ 2 ≤ s.length ∧ s.length ≤ 5 := by
  obtain ⟨hge, hle⟩ := length_heightPrefix hn
  refine ⟨_, rfl, ?_, ?_⟩ <;> rw [List.length_append, List.length_singleton] <;> omega

theorem getSizeOfCompactSize_of_lt {n : ℕ} (hn : n < 253) : CTransaction.getSizeOfCompactSize n = 1 := if_pos hn

theorem getSerializeSize_coinbase (side : Bool) {n : ℕ} (hn : n < bound) :
    (coinbase side n).getSerializeSize ≤ 71 := by
  obtain ⟨s, hvin, -, hle⟩ := length_scriptSig side hn
  have hvout : (coinbase side n).vout = [⟨0, [0x51]⟩] := rfl
  rw [CTransaction.getSerializeSize, hvin, hvout]
  simp only [List.map_cons, List.map_nil, List.sum_cons, List.sum_nil, List.length_cons, List.length_nil,
    CTransaction.txinSize, CTransaction.txoutSize, CTransaction.scriptSize, getSizeOfCompactSize_of_lt (show s.length < 253 by omega)]
  rw [getSizeOfCompactSize_of_lt (by decide)]
  omega

theorem isCoinBase_coinbase (side : Bool) (n : ℕ) : (coinbase side n).isCoinBase = true := rfl

theorem checkTransaction_coinbase (side : Bool) {n : ℕ} (hn : n < bound) :
    (coinbase side n).checkTransaction = .ok () := by
  obtain ⟨s, hvin, hge, hle⟩ := length_scriptSig side hn
  have hsize := getSerializeSize_coinbase side hn
  have hvout : (coinbase side n).vout = [⟨0, [0x51]⟩] := rfl
  simp only [CTransaction.checkTransaction, bind_eq_ok, rejectIf_eq_ok, isCoinBase_coinbase, if_true, hvin, hvout]
  refine ⟨(), rfl, (), rfl, (), ?_, 0, ?_, (), rfl, ?_⟩
  · rw [decide_eq_false_iff_not, MAX_BLOCK_SIZE]
    omega
  · rfl
  · simp only [List.map_cons, List.map_nil, List.headD_cons, Bool.or_eq_false_iff, decide_eq_false_iff_not]
    omega

theorem getLegacySigOpCount_coinbase (side : Bool) {n : ℕ} (hn : n < bound) :
    (coinbase side n).getLegacySigOpCount ≤ 100 := by
  obtain ⟨s, hvin, -, hle⟩ := length_scriptSig side hn
  have hvout : (coinbase side n).vout = [⟨0, [0x51]⟩] := rfl
  have hs := getSigOpCount_le s false
  have hempty : CScript.getSigOpCount [0x51] false = 0 := by decide
  simp only [CTransaction.getLegacySigOpCount, hvin, hvout, List.map_cons, List.map_nil, List.sum_cons, List.sum_nil, hempty]
  omega

theorem vtx_block (side : Bool) (k : ℕ) : (block side k).vtx = [coinbase side (k + 1)] := rfl

theorem getSerializeSize_block (side : Bool) {k : ℕ} (hk : k + 1 < bound) : (block side k).getSerializeSize ≤ 153 := by
  have hsize := getSerializeSize_coinbase side hk
  have hsig : (block side k).vchBlockSig = [] := rfl
  simp only [CBlock.getSerializeSize, CBlock.headerSize, vtx_block, hsig, List.map_cons, List.map_nil, List.sum_cons,
    List.sum_nil, List.length_cons, List.length_nil]
  rw [getSizeOfCompactSize_of_lt (by decide), getSizeOfCompactSize_of_lt (by decide)]
  omega

/-- `CheckBlock` passes. -/
theorem checkBlock_block (side : Bool) {k : ℕ} (hk : k + 1 < bound) (g : BestChain) :
    (block side k).checkBlock CChainParams.test Sample.checkEnv g true true false = .ok () := by
  have hsize := getSerializeSize_block side hk
  have htime : (block side k).getBlockTime = 1523531099 - k := getBlockTime_entry side (Nat.lt_of_succ_lt hk) []
  simp only [CBlock.checkBlock, bind_eq_ok, rejectIf_eq_ok, forM_eq_ok]
  refine ⟨(), ?_, (), ?_, (), ?_, (), rfl, (), rfl, (), rfl, (), rfl, (), rfl, (), ?_, (), ?_, (), ?_, (), ?_, ?_⟩
  · rw [vtx_block, Bool.or_eq_false_iff, Bool.or_eq_false_iff]
    refine ⟨⟨rfl, rfl⟩, decide_eq_false ?_⟩
    rw [MAX_BLOCK_SIZE]
    omega
  · have hwork : checkProofOfWork CChainParams.test 0 0x1f00ffff = true := by decide
    exact (congrArg (fun ok => true && true && !ok) hwork :)
  · have hnow : Sample.checkEnv.adjustedTime = 2000000000 := rfl
    rw [hnow, htime, futureDrift, DRIFT, decide_eq_false_iff_not]
    omega
  · rw [CBlock.masternodePaymentOk]
    cases g.pindexBest <;> rfl
  · intro tx htx
    rw [vtx_block, List.mem_singleton] at htx
    subst htx
    simp only [CBlock.checkBlockTransaction, bind_eq_ok, mapError_eq_ok, rejectIf_eq_ok, checkTransaction_coinbase side hk]
    exact ⟨(), trivial, decide_eq_false (Int.lt_irrefl _)⟩
  · simp [vtx_block]
  · have hsigops := getLegacySigOpCount_coinbase side hk
    rw [vtx_block, decide_eq_false_iff_not, List.map_singleton, List.sum_singleton, MAX_BLOCK_SIGOPS, MAX_BLOCK_SIZE]
    omega
  · have hroot : (block side k).buildMerkleTree = (block side k).hashMerkleRoot := rfl
    rw [hroot, bne_self_eq_false, Bool.and_false]

theorem connectTx_coinbase (side : Bool) {n : ℕ} (hn : n < bound) (g : BestChain) (mempool : Uint256 → Option CTransaction)
    (T : TxMap) (p : CBlockIndex) (pprev : PIndex) (s : Tally) (hs : s.nSigOps = 0) :
    ∃ s', CBlock.connectTx CChainParams.test (Sample.blockEnv true) g mempool T p pprev s (coinbase side n) = .ok s' ∧
      s'.nFees = s.nFees := by
  have hsigops := getLegacySigOpCount_coinbase side hn
  have hvalue : (coinbase side n).getValueOut = .ok 0 := rfl
  simp only [CBlock.connectTx, CBlock.connectTxValues, isCoinBase_coinbase, if_true, CBlock.connectCoinBase, hvalue,
    bind_eq_ok, rejectIf_eq_ok, pure_eq_ok]
  refine ⟨_, ⟨(), ?_, _, ⟨0, rfl, rfl⟩, rfl⟩, rfl⟩
  rw [decide_eq_false_iff_not, MAX_BLOCK_SIGOPS, MAX_BLOCK_SIZE]
  omega

theorem getProofOfWorkReward_nonneg (nHeight : ℕ) : 0 ≤ getProofOfWorkReward nHeight 0 := by
  rw [getProofOfWorkReward, Int.add_zero]
  by_cases hpremine : nHeight < 2 * STAKE_MIN_CONFIRMATIONS + 1
  · rw [if_pos hpremine]
    decide
  · rw [if_neg hpremine]
    decide

/-- A coinbase that pays nothing is within the reward. -/
theorem checkReward_block (side : Bool) (k : ℕ) (T : TxMap) (pprev : PIndex) (s : Tally) (hs : s.nFees = 0) :
    (block side k).checkReward (Sample.blockEnv true) T pprev s = .ok () := by
  have hvalue : ((block side k).vtx.headD default).getValueOut = .ok 0 := rfl
  simp only [CBlock.checkReward, isProofOfStake_block, Bool.false_eq_true, if_false, CBlock.checkWorkReward, hvalue, hs,
    bind_eq_ok, rejectIf_eq_ok]
  exact ⟨0, rfl, decide_eq_false (Int.not_lt.2 (getProofOfWorkReward_nonneg _))⟩

/-- `ConnectBlock` succeeds. -/
theorem connectBlock_block (side : Bool) {k : ℕ} (hk : k + 1 < bound) (g : BestChain)
    (mempool : Uint256 → Option CTransaction) (pnext : Uint256 → Option Uint256) (p : CBlockIndex) (pprev : PIndex)
    (σ : Session Unit) : ∃ σ', (block side k).connectBlock CChainParams.test (Sample.blockEnv true) g mempool pnext p pprev σ =
      .ok σ' := by
  obtain ⟨s, hs, hfees⟩ := connectTx_coinbase side hk g mempool σ.db.txIndex p pprev
    { nTxPos := (block side k).firstTxPos p } rfl
  simp only [CBlock.connectBlock, CBlock.connectBlockCore, bind_eq_ok, pure_eq_ok]
  refine ⟨_, s, ⟨(), checkBlock_block side hk g, s, ?_, (), ?_, rfl⟩, rfl⟩
  · rw [vtx_block, foldlM_cons_eq_ok]
    exact ⟨s, hs, foldlM_nil_eq_ok.2 rfl⟩
  · exact checkReward_block side k _ pprev s hfees

/-! ### Two branches that grow in turn -/

/-- The block index has both branches, each up to a length, and none of the blocks to come. -/
structure KnownTo (n : Bool → ℕ) (m : Uint256 → Option PIndex) : Prop where
  known : ∀ side k, k ≤ n side → m (hash side k) = some (path side k)
  fresh : ∀ side k, n side < k → k < bound → m (hash side k) = none
  lt : ∀ side, n side < bound

/-- Both branches are known, and the first one is the best chain. -/
structure Grown (n : Bool → ℕ) (node : Node Unit) : Prop where
  genesis : node.pindexGenesisBlock ≠ []
  index : KnownTo n node.mapBlockIndex
  pindexBest : node.best.pindexBest = path false (n false)
  hashBestChain : node.hashBestChain = hash false (n false)
  nBestChainTrust : node.nBestChainTrust = (path false (n false)).nChainTrust

/-- One of the branches is longer by a block. -/
def longer (n : Bool → ℕ) (side : Bool) : Bool → ℕ := Function.update n side (n side + 1)

theorem le_longer (n : Bool → ℕ) (side side' : Bool) : n side' ≤ longer n side side' := by
  rw [longer, Function.update_apply]
  split
  · next heq => rw [heq]; exact Nat.le_succ _
  · exact Nat.le_refl _

theorem longer_le {n : Bool → ℕ} {side side' : Bool} {k : ℕ} (hk : k ≤ longer n side side') :
    (side = side' ∧ n side + 1 = k) ∨ k ≤ n side' := by
  rw [longer, Function.update_apply] at hk
  split at hk
  · next heq =>
    subst heq
    exact (Nat.le_succ_iff.1 hk).symm.imp (fun h => ⟨rfl, h.symm⟩) id
  · exact .inr hk

theorem KnownTo.insert {n : Bool → ℕ} {m : Uint256 → Option PIndex} (h : KnownTo n m) (side : Bool)
    (hside : n side + 1 < bound) :
    KnownTo (longer n side) (Function.update m (hash side (n side + 1)) (some (path side (n side + 1)))) := by
  have hlt : ∀ side', longer n side side' < bound := by
    intro side'
    rcases longer_le (Nat.le_refl (longer n side side')) with ⟨-, heq⟩ | hle
    · exact heq ▸ hside
    · exact Nat.lt_of_le_of_lt hle (h.lt side')
  refine ⟨fun side' k hk => ?_, fun side' k hk hkb => ?_, hlt⟩ <;> rw [Function.update_apply] <;> split
  · next heq =>
    obtain ⟨rfl, rfl⟩ := hash_inj hside (Nat.lt_of_le_of_lt hk (hlt side')) heq.symm
    rfl
  · next hne =>
    rcases longer_le hk with ⟨rfl, rfl⟩ | hk
    · exact absurd rfl hne
    · exact h.known side' k hk
  · next heq =>
    obtain ⟨rfl, rfl⟩ := hash_inj hside hkb heq.symm
    rw [longer, Function.update_self] at hk
    exact absurd hk (Nat.lt_irrefl _)
  · exact h.fresh side' k (Nat.lt_of_le_of_lt (le_longer n side side') hk) hkb

/-- The event that the block on top of `k` others comes. -/
def event (side : Bool) (k : ℕ) : NodeEvent := .block (env side k) (block side k)

/-- The node once the block is in the block index. -/
def indexed (node : Node Unit) (side : Bool) (k : ℕ) : Node Unit :=
  (node.insertEntry (entry side k (path side k)) (path side k)).commitEntry (entry side k (path side k)) (path side k)

/-- A block is ready for its branch, unless the other is too long. -/
theorem Grown.ready {n : Bool → ℕ} {node : Node Unit} (h : Grown n node) (side : Bool) (hside : n side + 1 < bound)
    (hsync : n false ≤ n side + nCheckpointSpan) :
    node.mapBlockIndex (block side (n side)).getHash = none ∧
      node.mapBlockIndex (block side (n side)).hashPrevBlock = some (path side (n side)) ∧
      checkAccept CChainParams.test (env side (n side)) node (block side (n side)) (path side (n side)) = .ok 0 := by
  refine ⟨?_, h.index.known side _ (Nat.le_refl _), checkAccept_block side hside ?_⟩
  · rw [getHash_block hside]
    exact h.index.fresh side _ (Nat.lt_succ_self _) hside
  · rw [checkSync_iff, h.pindexBest, nHeight_path]
    omega

theorem acceptBlock_block {n : Bool → ℕ} {node : Node Unit} (h : Grown n node) (side : Bool) (hside : n side + 1 < bound)
    (hsync : n false ≤ n side + nCheckpointSpan) :
    acceptBlock CChainParams.test (env side (n side)) node (block side (n side)) =
      if node.nBestChainTrust.toNat < (path side (n side + 1)).nChainTrust.toNat then
        setBestChain CChainParams.test (env side (n side)).chain (indexed node side (n side))
          (entry side (n side) (path side (n side))) (path side (n side))
      else (indexed node side (n side), .done none) := by
  obtain ⟨hnew, hprev, hcheck⟩ := h.ready side hside hsync
  have hmodifier := computeNextStakeModifier_path side (Nat.lt_of_succ_lt hside)
  rw [acceptBlock, if_neg (show ¬7 < (block side (n side)).nVersion from show ¬(7 : Int32) < 7 by decide),
    if_neg (by simp [hnew])]
  simp only [hprev, hcheck]
  have hpos : (env side (n side)).writeToDisk = some (Sample.blockPos (UInt32.ofNat (1000 * nonce side (n side + 1)))) := rfl
  have hcommit : (env side (n side)).indexCommitOk = true := rfl
  simp only [hpos, addToBlockIndex, hprev, Option.getD_some, hmodifier, hcommit]
  have htrust : (indexed node side (n side)).nBestChainTrust = node.nBestChainTrust := rfl
  rw [if_neg (by simp [hnew]), ← htrust, path_succ]
  simp only [indexed, entry, Bool.not_true, Bool.false_eq_true, if_false]
  exact if_congr Iff.rfl rfl rfl

/-- `SetBestChain` succeeds on a block that extends the best chain. -/
theorem setBestChain_block {node : Node Unit} (side : Bool) {k : ℕ} (hk : k + 1 < bound)
    (hgen : node.pindexGenesisBlock ≠ []) (hbest : node.hashBestChain = hash side k) :
    ∃ node', setBestChain CChainParams.test (env side k).chain (indexed node side k) (entry side k (path side k))
      (path side k) = (newBest node' (path side (k + 1)), .done none) := by
  have hextends : (entry side k (path side k)).block.hashPrevBlock = (indexed node side k).hashBestChain := hbest.symm
  obtain ⟨σ, hσ⟩ : ∃ σ, (entry side k (path side k)).block.connectBlock CChainParams.test
      ((env side k).chain.block (entry side k (path side k)).hash) (indexed node side k).best
      (indexed node side k).mempool.lookup (indexed node side k).pnext (entry side k (path side k)) (path side k)
      (indexed node side k).session = .ok σ := connectBlock_block side hk ..
  have hinner : ∃ node', setBestChainInner CChainParams.test (env side k).chain (indexed node side k)
      (entry side k (path side k)) (path side k) = (node', none) := by
    rw [setBestChainInner, hσ]
    exact ⟨_, rfl⟩
  obtain ⟨node', hinner⟩ := hinner
  refine ⟨node', ?_⟩
  rw [setBestChain, if_neg fun h => hgen h.1, if_pos hextends, hinner]
  rfl

/-- The block on top of the best chain extends it. -/
theorem Grown.step_best {n : Bool → ℕ} {node : Node Unit} (h : Grown n node) (hside : n false + 1 < bound) :
    Grown (longer n false) (node.step CChainParams.test (event false (n false))) := by
  have hlen : longer n false false = n false + 1 := Function.update_self ..
  have htrust : node.nBestChainTrust.toNat < (path false (n false + 1)).nChainTrust.toNat := by
    rw [h.nBestChainTrust, toNat_nChainTrust_path false (Nat.lt_of_succ_lt hside), toNat_nChainTrust_path false hside]
    omega
  obtain ⟨node', hbest⟩ := setBestChain_block false hside h.genesis h.hashBestChain
  have hsame := setBestChain_sameIndex CChainParams.test (env false (n false)).chain
    (indexed node false (n false)) h.genesis (entry false (n false) (path false (n false))) (path false (n false))
  have hindex := h.index.insert false hside
  rw [event, Node.step, acceptBlock_block h false hside (Nat.le_add_right _ _), if_pos htrust]
  rw [hbest] at hsame ⊢
  refine ⟨?_, ?_, ?_, ?_, ?_⟩
  · rw [hsame.2]
    exact h.genesis
  · rw [hsame.1]
    rw [← getHash_block hside] at hindex
    exact hindex
  · rw [hlen]
    rfl
  · rw [hlen]
    exact getBlockHash_path hside
  · rw [hlen]
    rfl

/-- A block of the other branch is put in the index. -/
theorem Grown.step_other {n : Bool → ℕ} {node : Node Unit} (h : Grown n node) (hside : n true + 1 < bound)
    (hlt : n true < n false) (hsync : n false ≤ n true + nCheckpointSpan) :
    Grown (longer n true) (node.step CChainParams.test (event true (n true))) := by
  have hlen : longer n true false = n false := Function.update_of_ne Bool.false_ne_true _ _
  have htrust : ¬node.nBestChainTrust.toNat < (path true (n true + 1)).nChainTrust.toNat := by
    rw [h.nBestChainTrust, toNat_nChainTrust_path false (h.index.lt false), toNat_nChainTrust_path true hside]
    omega
  have hindex := h.index.insert true hside
  rw [← getHash_block hside] at hindex
  rw [event, Node.step, acceptBlock_block h true hside hsync, if_neg htrust]
  exact ⟨h.genesis, hindex, hlen ▸ h.pindexBest, hlen ▸ h.hashBestChain, hlen ▸ h.nBestChainTrust⟩

/-- The blocks of both branches in turn, up to a height. -/
def events (n : ℕ) : List NodeEvent := (List.range n).flatMap fun k => [event false k, event true k]

/-- The node after them. -/
def node (n : ℕ) : Node Unit := (Node.genesis Sample.genesis ()).run CChainParams.test (events n)

theorem grown_genesis : Grown (fun _ => 0) (Node.genesis Sample.genesis ()) := by
  refine ⟨by simp [Node.genesis], ⟨fun side k hk => ?_, fun side k hlt hk => ?_, fun _ => by decide⟩, rfl, rfl, rfl⟩
  · obtain rfl := Nat.le_zero.1 hk
    exact Function.update_self Sample.genesis.hash (some [Sample.genesis]) nothing
  · obtain ⟨j, rfl⟩ := Nat.exists_eq_add_one.2 hlt
    refine Function.update_of_ne (fun h => ?_) _ _
    have hsame : side = side ∧ j + 1 = 0 := hash_inj hk (by decide) h
    exact absurd hsame.2 (Nat.succ_ne_zero j)

/-- **Both branches grow together.** -/
theorem grown_node {n : ℕ} (hn : n < bound) : Grown (fun _ => n) (node n) := by
  induction n with
  | zero => exact grown_genesis
  | succ n ih =>
    have h := ih (Nat.lt_of_succ_lt hn)
    have hrun : node (n + 1) = ((node n).step CChainParams.test (event false n)).step CChainParams.test (event true n) := by
      rw [node, events, List.range_succ, List.flatMap_append, Node.run, run, List.foldl_append]
      rfl
    have h₁ := h.step_best hn
    have hother : longer (fun _ => n) false true = n := Function.update_of_ne (by decide) _ _
    have hbest : longer (fun _ => n) false false = n + 1 := Function.update_self ..
    have h₂ := h₁.step_other (hother.symm ▸ hn) (by rw [hother, hbest]; exact Nat.lt_succ_self n)
      (by rw [hother, hbest, nCheckpointSpan]; omega)
    rw [hother] at h₂
    have hlonger : longer (longer (fun _ => n) false) true = fun _ => n + 1 := by
      funext side
      cases side <;> simp [longer]
    rw [hrun, ← hlonger]
    exact h₂

theorem path_ne {k : ℕ} (hk : k + 1 < bound) : path false (k + 1) ≠ path true (k + 1) := by
  intro h
  have hhash := congrArg PIndex.getBlockHash h
  rw [getBlockHash_path hk, getBlockHash_path hk] at hhash
  exact Bool.false_ne_true (hash_inj hk hk hhash).1

theorem lowerTo_path (side : Bool) (k : ℕ) : PIndex.lowerTo (k + 1) (path side (k + 2)) = path side (k + 1) := by
  rw [path_succ, PIndex.lowerTo, length_path, if_pos (Nat.lt_succ_self _), path_succ, PIndex.lowerTo, length_path,
    if_neg (Nat.lt_irrefl _)]

/-- The branches fork at the genesis block. -/
theorem findFork_path {k : ℕ} (hk : k < bound) :
    PIndex.findFork (path false k) (path true (k + 1)) = some [Sample.genesis] := by
  have hlen : ∀ k, path false k ≠ path true (k + 1) := fun k h => by
    have := congrArg List.length h
    rw [length_path, length_path] at this
    omega
  induction k with
  | zero =>
    have hne := hlen 0
    have hlow : PIndex.lowerTo 0 (path true 1) = [Sample.genesis] := rfl
    rw [path] at hne ⊢
    rw [PIndex.findFork, if_neg hne]
    exact if_pos hlow.symm
  | succ k ih =>
    have hne := hlen (k + 1)
    have hne' := path_ne hk
    rw [path_succ false] at hne hne' ⊢
    rw [PIndex.findFork, if_neg hne, length_path]
    simp only [lowerTo_path]
    rw [if_neg hne']
    exact ih (Nat.lt_of_succ_lt hk)

theorem chainCall_block {n : Bool → ℕ} {node : Node Unit} (h : Grown n node) (side : Bool) (hside : n side + 1 < bound)
    (hsync : n false ≤ n side + nCheckpointSpan)
    (htrust : node.nBestChainTrust.toNat < (path side (n side + 1)).nChainTrust.toNat) :
    node.chainCall CChainParams.test (env side (n side)) (block side (n side)) =
      some (entry side (n side) (path side (n side)), path side (n side)) := by
  obtain ⟨hnew, hprev, hcheck⟩ := h.ready side hside hsync
  have hmodifier := computeNextStakeModifier_path side (Nat.lt_of_succ_lt hside)
  have hpos : (env side (n side)).writeToDisk = some (Sample.blockPos (UInt32.ofNat (1000 * nonce side (n side + 1)))) := rfl
  rw [Node.chainCall, hprev]
  simp only [hcheck, hpos, hmodifier]
  exact if_pos ⟨show (7 : Int32) ≤ 7 by decide, hnew, rfl, htrust⟩

/-- **A reorganization of any depth**: the next block of the other branch makes it the better
one. -/
theorem reorganizesTo_node {n : ℕ} (hpos : 0 < n) (hn : n + 1 < bound) :
    (node n).reorganizesTo CChainParams.test (event true n) = some (path true (n + 1)) := by
  have h := grown_node (Nat.lt_of_succ_lt hn)
  obtain ⟨k, rfl⟩ := Nat.exists_eq_add_one.2 hpos
  have htrust : ∀ side, (path side (k + 1)).nChainTrust.toNat = Sample.genesis.getBlockTrust.toNat + 65537 * (k + 1) :=
    fun side => toNat_nChainTrust_path side (Nat.lt_of_succ_lt hn)
  have hcall := chainCall_block h true hn (Nat.le_add_right _ _) (by
    rw [h.nBestChainTrust, htrust, toNat_nChainTrust_path true hn]
    omega)
  have hextends : (entry true (k + 1) (path true (k + 1))).block.hashPrevBlock ≠ (node (k + 1)).hashBestChain := by
    intro he
    rw [h.hashBestChain] at he
    exact Bool.false_ne_true (hash_inj (Nat.lt_of_succ_lt hn) (Nat.lt_of_succ_lt hn) he).1.symm
  have hpostpone : ¬(node (k + 1)).best.pindexBest.nChainTrust.toNat < (path true (k + 1)).nChainTrust.toNat := by
    rw [h.pindexBest, htrust, htrust]
    exact Nat.lt_irrefl _
  rw [event, Node.reorganizesTo]
  simp only [hcall]
  rw [if_neg (not_or.2 ⟨fun hg => h.genesis hg.1, hextends⟩), path_succ true (k + 1)]
  rw [path_succ true k] at hpostpone ⊢
  rw [PIndex.postpone, if_neg hpostpone]

/-- **The depth is not bounded by `nCheckpointSpan`**: `Reorganize` is called on a branch that forks from
the best chain one block deeper than that. -/
theorem reorganize_below_syncCheckpoint :
    (node (nCheckpointSpan + 1)).reorganizesTo CChainParams.test (event true (nCheckpointSpan + 1)) =
        some (path true (nCheckpointSpan + 2)) ∧
      PIndex.findFork (node (nCheckpointSpan + 1)).best.pindexBest (path true (nCheckpointSpan + 2)) =
        some [Sample.genesis] ∧
      nCheckpointSpan < (node (nCheckpointSpan + 1)).best.pindexBest.nHeight - PIndex.nHeight [Sample.genesis] := by
  have hlt : nCheckpointSpan + 2 < bound := by decide
  have hbest := (grown_node (Nat.lt_of_succ_lt hlt)).pindexBest
  refine ⟨reorganizesTo_node (Nat.succ_pos _) hlt, ?_, ?_⟩ <;> rw [hbest]
  · exact findFork_path (Nat.lt_of_succ_lt hlt)
  · rw [nHeight_path]
    exact Nat.lt_succ_self _

/-- After one block on each branch, `Reorganize` is called on the second block of the other one. -/
theorem first_depth_le : ∃ m ≤ 2,
    ((Node.genesis Sample.genesis ()).run CChainParams.test ((events 1 ++ [event true 1]).take m)).mapBlockIndex
        (entry true 0 (path true 0)).hash = none ∧
      ((Node.genesis Sample.genesis ()).run CChainParams.test ((events 1 ++ [event true 1]).take (m + 1))).mapBlockIndex
        (entry true 0 (path true 0)).hash = some (path true 1) ∧
      ((Node.genesis Sample.genesis ()).run CChainParams.test
        ((events 1 ++ [event true 1]).take m)).best.pindexBest.nHeight - 0 ≤ nCheckpointSpan ∧
      (node 1).best.pindexBest.nHeight - 0 ≤ nCheckpointSpan + ((node 1).best.pindexBest.nHeight -
        ((Node.genesis Sample.genesis ()).run CChainParams.test
          ((events 1 ++ [event true 1]).take m)).best.pindexBest.nHeight) := by
  have hfork : PIndex.findFork (node 1).best.pindexBest (path true 2) = some [Sample.genesis] := by
    rw [(grown_node (show 1 < bound by decide)).pindexBest]
    exact findFork_path (show 1 < bound by decide)
  exact reorganize_depth_le CChainParams.test Sample.genesis () (events 1 ++ [event true 1]) (n := 2) rfl
    (reorganizesTo_node Nat.one_pos (show 2 < bound by decide)) hfork (List.suffix_cons (entry true 1 (path true 1)) (path true 1))

end Twins

end PayDayCoin
