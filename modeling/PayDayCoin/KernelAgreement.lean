import PayDayCoin.ChainSync

/-!
# The miner's kernel test and the validator's

`CheckKernel` is the miner's test of a coin, `CheckProofOfStake` the validator's. What the
miner finds the validator accepts (**`checkProofOfStakeKernel_of_checkKernel`**), but not the
other way round: only the miner asks for `STAKE_MIN_CONFIRMATIONS` confirmations, which
`kernel.h` does not list among the things that `CheckKernel` checks in addition. Besides,
the validator computes the ages in 32 bits and the miner in 64. **`agree_iff`** says when
the two tests agree. `Sample.youngCoin` is a coin of the last block that the validator lets
stake.
-/

namespace PayDayCoin

open Library.Checks

/-- The rules on the times of a kernel, in 32 bits: the coinstake is not earlier than the
transaction staked, and the block of that transaction is old enough, but not too old. -/
def StakeTimesOk (nTimeBlockFrom : UInt32) (txPrev : CTransaction) (nTimeTx : UInt32) : Prop :=
  txPrev.nTime ≤ nTimeTx ∧ nTimeBlockFrom + nStakeMinAge ≤ nTimeTx ∧ nTimeTx ≤ nTimeBlockFrom + nStakeMaxAge

/-- The rules on the age, in 64 bits. -/
def StakeAgeOk (nTimeBlockFrom nTimeTx : UInt32) : Prop :=
  nTimeBlockFrom.toNat + nStakeMinAge.toNat ≤ nTimeTx.toNat ∧ nTimeTx.toNat ≤ nTimeBlockFrom.toNat + nStakeMaxAge.toNat

/-- The transaction is not in the last `STAKE_MIN_CONFIRMATIONS - 1` blocks of the path. -/
def DeepEnough (txindex : CTxIndex) (pindexPrev : PIndex) : Prop :=
  isConfirmedInNPrevBlocks txindex pindexPrev (STAKE_MIN_CONFIRMATIONS - 1) = none

section Agreement

variable [Crypto] {env : KernelEnv} {pindexPrev : PIndex} {nBits nTime nTimeBlockFrom : UInt32} {prevout : COutPoint}
  {txPrev : CTransaction} {txout : CTxOut}

/-- The kernel hash meets the target, weighted by the value staked. -/
def MeetsTarget (pindexPrev : PIndex) (nBits nTimeBlockFrom : UInt32) (txPrev : CTransaction) (txout : CTxOut)
    (prevout : COutPoint) (nTimeTx : UInt32) : Prop :=
  (Crypto.hashKernel ((pindexPrev.head?.map CBlockIndex.nStakeModifier).getD 0) nTimeBlockFrom txPrev.nTime
    prevout.hash prevout.n nTimeTx).toNat ≤ setCompact nBits * txout.nValue

/-- `CheckStakeKernelHash` checks the times and the target. -/
theorem checkStakeKernelHash_isOk (pindexPrev : PIndex) (nBits : UInt32) :
    (checkStakeKernelHash pindexPrev nBits nTimeBlockFrom txPrev txout prevout nTime).isOk = true ↔
      StakeTimesOk nTimeBlockFrom txPrev nTime ∧
        MeetsTarget pindexPrev nBits nTimeBlockFrom txPrev txout prevout nTime := by
  have hok : ∀ {x : Except Reject Uint256}, x.isOk = true ↔ ∃ a, x = .ok a :=
    ⟨exists_eq_ok_of_isOk, fun ⟨_, h⟩ => by rw [h]; rfl⟩
  simp only [hok, checkStakeKernelHash, bind_eq_ok, rejectIf_eq_ok, pure_eq_ok, decide_eq_false_iff_not,
    UInt32.not_lt, not_lt, StakeTimesOk, MeetsTarget]
  constructor
  · rintro ⟨_, _, h₁, _, h₂, _, h₃, _, h₄, -⟩
    exact ⟨⟨h₁, h₂, h₃⟩, h₄⟩
  · rintro ⟨⟨h₁, h₂, h₃⟩, h₄⟩
    exact ⟨_, (), h₁, (), h₂, (), h₃, (), h₄, rfl⟩

/-- What the validator's test amounts to once the coin has been looked up. -/
theorem checkProofOfStakeKernel_isOk {txindex : CTxIndex} {header : CBlockHeader}
    (hprev : env.readPrevTx prevout = some (txindex, txPrev, txout))
    (hheader : env.readHeader txindex.pos.nFile txindex.pos.nBlockPos = some header) :
    (checkProofOfStakeKernel env (fun _ => true) pindexPrev nBits prevout nTime).isOk = true ↔
      StakeTimesOk header.nTime txPrev nTime ∧
        MeetsTarget pindexPrev nBits header.nTime txPrev txout prevout nTime := by
  have hmap : ∀ (x : Except Reject Uint256) (f : Reject → Reject), (x.mapError f).isOk = x.isOk := by
    intro x f
    cases x <;> rfl
  rw [← checkStakeKernelHash_isOk pindexPrev nBits]
  simp [checkProofOfStakeKernel, hprev, hheader, orReject, rejectIf, bind, Except.bind, hmap]

omit [Crypto] in
theorem ofInt_toNat (n : UInt32) : UInt32.ofInt (n.toNat : ℤ) = n := by
  have hlt := n.toNat_lt
  have hmod : ((n.toNat : ℤ) % 2 ^ 32).toNat = n.toNat := by omega
  rw [UInt32.ofInt, hmod, UInt32.ofNat_toNat]

/-- What the miner's test amounts to once the coin has been looked up. -/
theorem checkKernel_eq_true {txindex : CTxIndex} {header : CBlockHeader}
    (hprev : env.readPrevTx prevout = some (txindex, txPrev, txout))
    (hheader : env.readHeader txindex.pos.nFile txindex.pos.nBlockPos = some header) :
    checkKernel env pindexPrev nBits nTime.toNat prevout = true ↔
      (StakeAgeOk header.nTime nTime ∧ DeepEnough txindex pindexPrev) ∧ StakeTimesOk header.nTime txPrev nTime ∧
        MeetsTarget pindexPrev nBits header.nTime txPrev txout prevout nTime := by
  rw [← checkStakeKernelHash_isOk pindexPrev nBits, checkKernel, hprev]
  simp only [hheader, ofInt_toNat]
  have hage : ((nTime.toNat : ℤ) < header.nTime.toNat + nStakeMinAge.toNat ∨
      ((header.nTime.toNat : ℤ) + nStakeMaxAge.toNat < nTime.toNat)) ↔ ¬StakeAgeOk header.nTime nTime := by
    unfold StakeAgeOk
    omega
  by_cases ha : StakeAgeOk header.nTime nTime
  · rw [if_neg (hage.not.2 (not_not.2 ha))]
    cases hd : isConfirmedInNPrevBlocks txindex pindexPrev (STAKE_MIN_CONFIRMATIONS - 1) with
    | none => simp [ha, DeepEnough, hd]
    | some nDepth => simp [DeepEnough, hd]
  · rw [if_pos (hage.2 ha)]
    simp [ha]

/-- Without the coin, or the block it is in, both tests fail. -/
theorem checkKernel_eq_false (pindexPrev : PIndex) (nBits nTime : UInt32) (hread : ∀ txindex txPrev txout header,
      env.readPrevTx prevout = some (txindex, txPrev, txout) →
        env.readHeader txindex.pos.nFile txindex.pos.nBlockPos ≠ some header) (nTime' : ℤ) :
    checkKernel env pindexPrev nBits nTime' prevout = false ∧
      (checkProofOfStakeKernel env (fun _ => true) pindexPrev nBits prevout nTime).isOk = false := by
  rcases hprev : env.readPrevTx prevout with _ | ⟨txindex, txPrev, txout⟩
  · simp [checkKernel, checkProofOfStakeKernel, hprev, orReject, bind, Except.bind, Except.isOk, Except.toBool]
  · have hheader : env.readHeader txindex.pos.nFile txindex.pos.nBlockPos = none :=
      Option.eq_none_iff_forall_ne_some.2 fun header => hread txindex txPrev txout header hprev
    simp [checkKernel, checkProofOfStakeKernel, hprev, hheader, orReject, rejectIf, bind, Except.bind, Except.isOk,
      Except.toBool]

/-- **The validator accepts what the miner finds.** -/
theorem checkProofOfStakeKernel_of_checkKernel (h : checkKernel env pindexPrev nBits nTime.toNat prevout = true) :
    (checkProofOfStakeKernel env (fun _ => true) pindexPrev nBits prevout nTime).isOk = true := by
  by_cases hread : ∃ txindex txPrev txout header, env.readPrevTx prevout = some (txindex, txPrev, txout) ∧
      env.readHeader txindex.pos.nFile txindex.pos.nBlockPos = some header
  · obtain ⟨txindex, txPrev, txout, header, hprev, hheader⟩ := hread
    exact (checkProofOfStakeKernel_isOk hprev hheader).2 ((checkKernel_eq_true hprev hheader).1 h).2
  · have hfalse := (checkKernel_eq_false pindexPrev nBits nTime
      (fun txindex txPrev txout header hprev hheader => hread ⟨txindex, txPrev, txout, header, hprev, hheader⟩)
      nTime.toNat).1
    rw [h] at hfalse
    cases hfalse

end Agreement

/-- **The miner's test and the validator's agree** on a coin and a time exactly if the coin
cannot be looked up, or breaks a rule that both have, or is deep enough, with an age that
is in range also in 64 bits. -/
theorem agree_iff [Crypto] (env : KernelEnv) (pindexPrev : PIndex) (nBits nTime : UInt32) (prevout : COutPoint) :
    (checkKernel env pindexPrev nBits nTime.toNat prevout = true ↔
      (checkProofOfStakeKernel env (fun _ => true) pindexPrev nBits prevout nTime).isOk = true) ↔
    ∀ txindex txPrev txout header, env.readPrevTx prevout = some (txindex, txPrev, txout) →
      env.readHeader txindex.pos.nFile txindex.pos.nBlockPos = some header →
        StakeTimesOk header.nTime txPrev nTime →
          MeetsTarget pindexPrev nBits header.nTime txPrev txout prevout nTime →
            StakeAgeOk header.nTime nTime ∧ DeepEnough txindex pindexPrev := by
  by_cases hread : ∃ txindex txPrev txout header, env.readPrevTx prevout = some (txindex, txPrev, txout) ∧
      env.readHeader txindex.pos.nFile txindex.pos.nBlockPos = some header
  · obtain ⟨txindex, txPrev, txout, header, hprev, hheader⟩ := hread
    rw [checkKernel_eq_true hprev hheader, checkProofOfStakeKernel_isOk hprev hheader]
    constructor
    · intro hagree txindex' txPrev' txout' header' hprev' hheader' htimes htarget
      obtain ⟨rfl, rfl, rfl⟩ : txindex = txindex' ∧ txPrev = txPrev' ∧ txout = txout' := by
        simpa [hprev] using hprev'
      obtain rfl := Option.some.inj (hheader.symm.trans hheader')
      exact (hagree.2 ⟨htimes, htarget⟩).1
    · intro hcond
      exact ⟨fun h => h.2, fun h => ⟨hcond _ _ _ _ hprev hheader h.1 h.2, h⟩⟩
  · obtain ⟨h₁, h₂⟩ := checkKernel_eq_false pindexPrev nBits nTime
      (fun txindex txPrev txout header hprev hheader => hread ⟨txindex, txPrev, txout, header, hprev, hheader⟩)
      nTime.toNat
    rw [h₁, h₂]
    exact ⟨fun _ txindex txPrev txout header hprev hheader =>
      absurd ⟨txindex, txPrev, txout, header, hprev, hheader⟩ hread, fun _ => Iff.rfl⟩

/-! ### A coin that is too young for the miner -/

namespace Sample

/-- What the tests read: the index of the node after `b₁`, and that block. -/
def kernelEnv : KernelEnv where
  readTxIndex := (node 1).db.txIndex
  readTx := disk.readTx 0
  readHeader _ nBlockPos := if nBlockPos = 1000 then some b₁.toCBlockHeader else none

/-- The output of the coinbase of `b₁`, which is the last block. -/
def youngCoin : COutPoint := ⟨paid.getHash, 0⟩

/-- **The validator lets a coin of the last block stake**, and the miner does not. -/
theorem youngCoin_disagree :
    (checkProofOfStakeKernel kernelEnv (fun _ => true) (node 1).best.pindexBest 0x1f00ffff youngCoin
        (time 1 + nStakeMinAge)).isOk = true ∧
      checkKernel kernelEnv (node 1).best.pindexBest 0x1f00ffff (time 1 + nStakeMinAge).toNat youngCoin = false := by
  have hvalidator : (checkProofOfStakeKernel kernelEnv (fun _ => true) (node 1).best.pindexBest 0x1f00ffff youngCoin
      (time 1 + nStakeMinAge)).isOk = true := by decide
  have hminer : checkKernel kernelEnv (node 1).best.pindexBest 0x1f00ffff (time 1 + nStakeMinAge).toNat
      youngCoin = false := by decide
  exact ⟨hvalidator, hminer⟩

end Sample

end PayDayCoin
