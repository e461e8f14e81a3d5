import PayDayCoin.Block

/-!
# CheckBlock

`CBlock::CheckBlock`: the checks of a block that do not need its place in the chain.
They do read the node's clock, its spork, its transaction locks and its masternode
list; `CheckEnv` holds what one call reads of these.

`checked_of_checkBlock` collects what later modules use of a block that passes.
-/

namespace PayDayCoin

open Library.Checks

/-- The node's best chain, as validation code reads it. -/
structure BestChain where
  /-- `pindexBest`. -/
  pindexBest : PIndex
  /-- `nBestHeight`. -/
  nBestHeight : ℕ

/-- `START_MASTERNODE_PAYMENTS`. -/
def START_MASTERNODE_PAYMENTS : ℕ := 1521072000

/-- What a call of `CheckBlock` reads besides the block and the best chain. -/
structure CheckEnv where
  /-- `GetAdjustedTime()`. -/
  adjustedTime : ℤ
  /-- The reading of `IsInitialBlockDownload()`. -/
  ibd : IBDReading
  /-- `IsSporkActive(SPORK_3_INSTANTX_BLOCK_FILTERING)`. -/
  instantXBlockFiltering : Bool
  /-- `mapLockedInputs`. -/
  mapLockedInputs : COutPoint → Option Uint256
  /-- `masternodePayments.GetBlockPayee`: the voted payee of a height. -/
  getBlockPayee : ℕ → Option CScript
  /-- `mnodeman.GetCurrentMasterNode(1)`: its payee script and its donation address. -/
  currentMasterNode : Option (CScript × CScript)
  /-- `IsWalletGracePeriod()`. -/
  walletGracePeriod : Bool

/-- The score that a failed `CheckTransaction` leaves in `tx.nDoS`. -/
def Reject.score : Reject → ℕ
  | .dos score _ => score
  | _ => 0

namespace CTransaction

/-- Whether an input of the transaction is locked for another transaction. -/
def conflictsWithLock [Crypto] (mapLockedInputs : COutPoint → Option Uint256) (tx : CTransaction) : Bool :=
  tx.vin.any fun txin =>
    match mapLockedInputs txin.prevout with
    | none => false
    | some hash => hash != tx.getHash

end CTransaction

namespace CBlock

variable [Crypto] (params : CChainParams)

/-- The search for the masternode payment among the outputs of the coinstake: whether
the masternode payee and the reward payee were found. -/
def findPayees (masternodepayee payeerewardaddress : CScript) : List CTxOut → Bool × Bool → Bool × Bool
  | [], found => found
  | txout :: vout, (foundMasternode, foundReward) =>
    if txout.scriptPubKey = masternodepayee then
      findPayees masternodepayee payeerewardaddress vout (true, foundReward)
    else if txout.scriptPubKey = payeerewardaddress then
      findPayees masternodepayee payeerewardaddress vout (foundMasternode, true)
    else findPayees masternodepayee payeerewardaddress vout (foundMasternode, foundReward)

/-- The masternode payment part of `CheckBlock`: whether it lets the block through. -/
def masternodePaymentOk (env : CheckEnv) (g : BestChain) (b : CBlock) : Bool :=
  match g.pindexBest, b.vtx with
  | pindex :: _, _ :: coinstake :: _ =>
    if !isInitialBlockDownload params g.pindexBest g.nBestHeight env.ibd && START_MASTERNODE_PAYMENTS < b.nTime.toNat
        && b.isProofOfStake && pindex.hash == b.hashPrevBlock then
      let (masternodepayee, payeerewardaddress, found) :=
        match env.getBlockPayee (g.pindexBest.nHeight + 1), env.currentMasterNode with
        | some payee, _ => (payee, [], false)
        | none, some (payee, donationAddress) => (payee, donationAddress, false)
        | none, none => ([], [], true)
      let (foundMasternode, foundReward) :=
        findPayees masternodepayee payeerewardaddress coinstake.vout (found, found)
      env.walletGracePeriod || (foundMasternode && foundReward)
    else true
  | _, _ => true

/-- The shape of a proof-of-stake block, in `CheckBlock`. -/
def checkStakeShape (b : CBlock) : Except Reject Unit := do
  if b.isProofOfStake then
    let vout := (b.vtx.map CTransaction.vout).headD []
    rejectIf (vout.length != 1 || !vout.all CTxOut.isEmpty)
      (.dos 100 "CheckBlock() : coinbase output not empty for proof-of-stake block")
    rejectIf (!b.vtx[1]?.any CTransaction.isCoinStake) (.dos 100 "CheckBlock() : second tx is not coinstake")
    rejectIf ((b.vtx.drop 2).any CTransaction.isCoinStake) (.dos 100 "CheckBlock() : more than one coinstake")

/-- The check of one transaction in `CheckBlock`. -/
def checkBlockTransaction (b : CBlock) (tx : CTransaction) : Except Reject Unit := do
  tx.checkTransaction.mapError fun e => .dos e.score "CheckBlock(): CheckTransaction failed"
  rejectIf (b.getBlockTime < tx.nTime.toNat)
    (.dos 50 "CheckBlock(): block timestamp earlier than transaction timestamp")

/-- `CBlock::CheckBlock`. -/
def checkBlock (env : CheckEnv) (g : BestChain) (b : CBlock) (fCheckPOW fCheckMerkleRoot fCheckSig : Bool) :
    Except Reject Unit := do
  rejectIf (b.vtx.isEmpty || MAX_BLOCK_SIZE < b.vtx.length || MAX_BLOCK_SIZE < b.getSerializeSize)
    (.dos 100 "CheckBlock() : size limits failed")
  rejectIf (fCheckPOW && b.isProofOfWork && !checkProofOfWork params b.getPoWHash b.nBits)
    (.dos 50 "CheckBlock() : proof of work failed")
  rejectIf (futureDrift env.adjustedTime < b.getBlockTime)
    (.error "CheckBlock() : block timestamp too far in the future")
  rejectIf (!b.vtx.head?.any CTransaction.isCoinBase) (.dos 100 "CheckBlock() : first tx is not coinbase")
  rejectIf (b.vtx.tail.any CTransaction.isCoinBase) (.dos 100 "CheckBlock() : more than one coinbase")
  b.checkStakeShape
  rejectIf (fCheckSig && !Crypto.checkBlockSignature b) (.dos 100 "CheckBlock() : bad proof-of-stake block signature")
  rejectIf (env.instantXBlockFiltering &&
      b.vtx.any fun tx => !tx.isCoinBase && tx.conflictsWithLock env.mapLockedInputs)
    (.dos 0 "CheckBlock() : found conflicting transaction with transaction lock")
  rejectIf (!masternodePaymentOk params env g b)
    (.dos 100 "CheckBlock(): Ban SyncNode with reason: Couldn't find masternode payment or reward payee")
  forM b.vtx b.checkBlockTransaction
  rejectIf (!(b.vtx.map CTransaction.getHash).Nodup) (.dos 100 "CheckBlock(): duplicate transaction")
  rejectIf (MAX_BLOCK_SIGOPS < (b.vtx.map CTransaction.getLegacySigOpCount).sum)
    (.dos 100 "CheckBlock(): out-of-bounds SigOpCount")
  rejectIf (fCheckMerkleRoot && b.hashMerkleRoot != b.buildMerkleTree)
    (.dos 100 "CheckBlock(): hashMerkleRoot mismatch")

/-- The facts about a block that `CheckBlock` lets through. -/
structure Checked (b : CBlock) : Prop where
  /-- The first transaction is the only coinbase. -/
  shape : ∃ coinbase vtx, b.vtx = coinbase :: vtx ∧ coinbase.isCoinBase = true ∧
    ∀ tx ∈ vtx, tx.isCoinBase = false
  /-- A proof-of-stake block has an empty coinbase output, and one coinstake. -/
  stake : b.isProofOfStake = true → ∃ coinbase coinstake vtx, b.vtx = coinbase :: coinstake :: vtx ∧
    (∀ txout ∈ coinbase.vout, txout.isEmpty = true) ∧ coinstake.isCoinStake = true ∧
      ∀ tx ∈ vtx, tx.isCoinStake = false
  /-- Every transaction passed `CheckTransaction`. -/
  transactions : ∀ tx ∈ b.vtx, tx.Checked
  /-- No two transactions have one hash. -/
  nodup : (b.vtx.map CTransaction.getHash).Nodup

variable {params} {env : CheckEnv} {g : BestChain} {b : CBlock} {fCheckPOW fCheckMerkleRoot fCheckSig : Bool}

/-- **What `CheckBlock` establishes.** -/
theorem checked_of_checkBlock {u : Unit}
    (h : b.checkBlock params env g fCheckPOW fCheckMerkleRoot fCheckSig = .ok u) : b.Checked := by
  simp only [checkBlock, bind_eq_ok, rejectIf_eq_ok, forM_eq_ok] at h
  obtain ⟨-, -, -, -, -, -, _, hhead, _, htail, _, hstake, -, -, -, -, -, -, _, htx, _, hnodup, -⟩ := h
  obtain ⟨coinbase, vtx, hvtx⟩ : ∃ coinbase vtx, b.vtx = coinbase :: vtx := by
    cases hv : b.vtx with
    | nil => simp [hv] at hhead
    | cons coinbase vtx => exact ⟨coinbase, vtx, rfl⟩
  refine ⟨⟨coinbase, vtx, hvtx, ?_, ?_⟩, fun hpos => ?_, fun tx hmem => ?_, by simpa using hnodup⟩
  · simpa [hvtx] using hhead
  · simpa [hvtx] using htail
  · unfold checkStakeShape at hstake
    rw [if_pos hpos] at hstake
    simp only [bind_eq_ok, rejectIf_eq_ok] at hstake
    obtain ⟨-, hempty, -, hsecond, hrest⟩ := hstake
    cases vtx with
    | nil => simp [hvtx] at hsecond
    | cons coinstake vtx =>
      refine ⟨coinbase, coinstake, vtx, hvtx, ?_, ?_, ?_⟩
      · simpa [hvtx] using (Bool.or_eq_false_iff.1 hempty).2
      · simpa [hvtx] using hsecond
      · simpa [hvtx] using hrest
  · have := htx tx hmem
    simp only [checkBlockTransaction, bind_eq_ok, mapError_eq_ok] at this
    obtain ⟨u, hu, -⟩ := this
    exact CTransaction.checked_of_checkTransaction hu

end CBlock

end PayDayCoin
