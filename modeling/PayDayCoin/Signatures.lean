import PayDayCoin.ChainLedger
import PayDayCoin.ChainSync

/-!
# Signatures of connected blocks

`ConnectInputs` skips the verification of signatures for a block when
`IsInitialBlockDownload()` is false, where the comment above the test wants them skipped
for blocks before the last checkpoint. So outside the initial download `ConnectBlock`
evaluates no signature at all (**`connectBlockCore_checks`**), and the inputs of a block
are verified exactly if it has none: if its only transaction is its coinbase
(**`inputsVerified_iff`**). `Sample.forged` is a payment with a bad signature that the
node takes into its best chain.
-/

namespace PayDayCoin

open Library.Checks Library.Overlay

section Signatures

variable [Crypto] {params : CChainParams} {env : BlockEnv} {g : BestChain} {mempool : Uint256 → Option CTransaction}
  {T : TxMap} {p : CBlockIndex} {pprev : PIndex} {b : CBlock}

/-- Every input of a transaction that is not a coinbase has been verified: `VerifySignature`
was evaluated on it and returned true. -/
def InputsVerified (b : CBlock) (checks : List SigCheck) : Prop :=
  ∀ tx ∈ b.vtx, tx.isCoinBase = false → ∀ i < tx.vin.length,
    ∃ txPrev flags, (⟨txPrev, tx, i, flags, 0, true⟩ : SigCheck) ∈ checks

/-- `IsInitialBlockDownload()` is false whenever connecting the block asks. -/
def NoInitialDownload (params : CChainParams) (env : BlockEnv) (g : BestChain) : Prop :=
  ∀ hashTx i, isInitialBlockDownload params g.pindexBest g.nBestHeight (env.ibd hashTx i) = false

/-- The guard of the verification: outside the initial download a block has none. -/
theorem checkSignature_block {ibd : IBDReading}
    (hibd : isInitialBlockDownload params g.pindexBest g.nBestHeight ibd = false) (txPrev tx : CTransaction) (i : ℕ)
    (flags : UInt32) (fValidateSig : Bool) :
    CTransaction.checkSignature params Caller.block g ibd txPrev tx i flags fValidateSig = .ok [] := by
  simp [CTransaction.checkSignature, Caller.block, hibd]

theorem connectInputs_checks {ibd : ℕ → IBDReading}
    (hibd : ∀ i, isInitialBlockDownload params g.pindexBest g.nBestHeight (ibd i) = false) {inputs : MapPrevTx}
    {pool pool' : TxMap} {pos : CDiskTxPos} {pindexBlock : PIndex} {flags : UInt32} {fValidateSig : Bool}
    {tx : CTransaction} {checks : List SigCheck}
    (h : tx.connectInputs params Caller.block g ibd inputs pool pos pindexBlock flags fValidateSig =
      .ok (pool', checks)) : checks = [] := by
  unfold CTransaction.connectInputs at h
  split at h
  · cases h
    rfl
  · simp only [bind_eq_ok, pure_eq_ok, Prod.mk.injEq] at h
    obtain ⟨_, -, s, hfold, _, -, -, rfl⟩ := h
    refine foldlM_induct (P := fun s => s.checks = []) (fun input _ s s' hs hstep => ?_) rfl hfold
    simp only [CTransaction.spendInput, bind_eq_ok, orReject_eq_ok, pure_eq_ok, Prod.exists] at hstep
    obtain ⟨txindex, txPrev, -, spent, -, _, -, checks, hchecks, rfl⟩ := hstep
    rw [checkSignature_block (hibd _), Except.ok.injEq] at hchecks
    simp [hs, ← hchecks]

theorem connectTx_checks (hibd : NoInitialDownload params env g) {s s' : Tally} {tx : CTransaction}
    (h : CBlock.connectTx params env g mempool T p pprev s tx = .ok s') : s'.checks = s.checks := by
  simp only [CBlock.connectTx, bind_eq_ok, pure_eq_ok] at h
  obtain ⟨_, -, s₁, h₁, rfl⟩ := h
  unfold CBlock.connectTxValues at h₁
  split at h₁
  · simp only [CBlock.connectCoinBase, bind_eq_ok, pure_eq_ok] at h₁
    obtain ⟨_, -, rfl⟩ := h₁
    rfl
  · simp only [CBlock.connectTxInputs, bind_eq_ok, pure_eq_ok, Prod.exists] at h₁
    obtain ⟨_, -, _, -, _, -, _, -, _, -, pool', checks, hconn, rfl⟩ := h₁
    simp [connectInputs_checks (hibd _) hconn]

/-- **Outside the initial download `ConnectBlock` evaluates no signature.** -/
theorem connectBlockCore_checks (hibd : NoInitialDownload params env g) {s : Tally}
    (h : b.connectBlockCore params env g mempool T p pprev = .ok s) : s.checks = [] := by
  obtain ⟨-, hfold, -⟩ := connectBlockCore_eq_ok h
  exact foldlM_induct (P := fun s => s.checks = [])
    (fun tx _ s s' hs hstep => (connectTx_checks hibd hstep).trans hs) rfl hfold

/-- **The inputs of a block connected outside the initial download are verified** exactly
if the block has no transaction besides its coinbase. -/
theorem inputsVerified_iff (hibd : NoInitialDownload params env g) {s : Tally}
    (h : b.connectBlockCore params env g mempool T p pprev = .ok s) :
    InputsVerified b s.checks ↔ b.vtx.length = 1 := by
  obtain ⟨hchecked, -, -⟩ := connectBlockCore_eq_ok h
  obtain ⟨coinbase, vtx, hvtx, hcb, hrest⟩ := hchecked.shape
  rw [connectBlockCore_checks hibd h, hvtx]
  constructor
  · intro hall
    cases vtx with
    | nil => rfl
    | cons tx vtx =>
      have hmem : tx ∈ b.vtx := by simp [hvtx]
      have hpos := List.length_pos_iff.2 (hchecked.transactions tx hmem).vin_ne
      obtain ⟨txPrev, flags, hin⟩ := hall tx hmem (hrest tx List.mem_cons_self) 0 hpos
      simp at hin
  · intro hlen tx hmem hncb
    have hnil : vtx = [] := by simpa using hlen
    rw [hvtx, hnil, List.mem_singleton] at hmem
    rw [hmem, hcb] at hncb
    cases hncb

end Signatures

/-! ### A payment with a bad signature -/

namespace Sample

/-- A payment from `paid` whose script is a push that is cut short. -/
def forged : CTransaction := spend 2 paid [1] (9 * COIN)

/-- A block on top of `b₁` with that payment. -/
def f₂ : CBlock := block b₁ 2 [coinbase 2 1, forged]

/-- The node after `b₁` and `f₂`. -/
def forgedNode : Node Unit :=
  (node 1).run CChainParams.test [.block (acceptEnv 2000 true) f₂]

/-- The entry that `AcceptBlock` makes for `f₂`. -/
def forgedEntry : CBlockIndex := forgedNode.best.pindexBest.headD genesis

/-- The node is past the initial download. -/
theorem noInitialDownload : NoInitialDownload CChainParams.test (blockEnv true) (node 1).best := by
  have h : isInitialBlockDownload CChainParams.test (node 1).best.pindexBest (node 1).best.nBestHeight reading = false := by
    decide
  exact fun _ _ => h

/-- **The block with the bad signature is connected**, and becomes the best block. -/
theorem forged_connected : forgedEntry.block = f₂ ∧
    (∀ flags, Crypto.verifySignature paid forged 0 flags 0 = false) ∧
      NoInitialDownload CChainParams.test (blockEnv true) (node 1).best ∧
        ∃ s, f₂.connectBlockCore CChainParams.test (blockEnv true) (node 1).best (node 1).mempool.lookup
          (node 1).db.txIndex forgedEntry (node 1).best.pindexBest = .ok s ∧ ¬InputsVerified f₂ s.checks := by
  have hbest : forgedEntry.block = f₂ := by decide +kernel
  obtain ⟨s, hs⟩ := exists_eq_ok_of_isOk (x := f₂.connectBlockCore CChainParams.test (blockEnv true) (node 1).best
    (node 1).mempool.lookup (node 1).db.txIndex forgedEntry (node 1).best.pindexBest) (by decide +kernel)
  refine ⟨hbest, fun _ => rfl, noInitialDownload, s, hs, fun h => ?_⟩
  have hchecks := connectBlockCore_checks noInitialDownload hs
  have hmem : forged ∈ f₂.vtx := by decide
  have hncb : forged.isCoinBase = false := by decide
  obtain ⟨txPrev, flags, hin⟩ := h forged hmem hncb 0 (by decide)
  rw [hchecks] at hin
  cases hin

/-- The first block has its coinbase only. -/
theorem b₁_inputsVerified : ∃ s, b₁.connectBlockCore CChainParams.test (blockEnv true) (node 0).best
    (node 0).mempool.lookup (node 0).db.txIndex ((node 1).best.pindexBest.headD genesis) (node 0).best.pindexBest = .ok s ∧
      (InputsVerified b₁ s.checks ↔ b₁.vtx.length = 1) := by
  obtain ⟨s, hs⟩ := exists_eq_ok_of_isOk (x := b₁.connectBlockCore CChainParams.test (blockEnv true) (node 0).best
    (node 0).mempool.lookup (node 0).db.txIndex ((node 1).best.pindexBest.headD genesis) (node 0).best.pindexBest)
    (by decide)
  have hibd : isInitialBlockDownload CChainParams.test (node 0).best.pindexBest (node 0).best.nBestHeight reading = false := by
    decide
  exact ⟨s, hs, inputsVerified_iff (fun _ _ => hibd) hs⟩

end Sample

end PayDayCoin
