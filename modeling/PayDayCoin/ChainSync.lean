import PayDayCoin.ChainInvariant

/-!
# The best chain in memory and the committed one

`Node.InSync` says that the best chain in memory is the one that the database has: the
pointers and amounts name the block stored as `hashBestChain`, every block above the
genesis block has been connected, and `pnext` leads from the genesis block along the path.

**`run_inSync_iff`**: along a run, every state is in sync exactly if no call of
`SetBestChain` leaves the loop over the postponed blocks by a `break`. After a `break` the
records end at the last postponed block that was committed (**`Committed.postponed_break`**),
while `SetBestChain` goes on and makes its argument the best block.

`Sample` is a run with such a `break`.
-/

namespace PayDayCoin

open Library.Checks Library.Overlay Library.Paths Library.Runs

/-- The best chain in memory is the committed one. -/
structure Node.InSync {W : Type} (node : Node W) : Prop where
  /-- The database names the best block. -/
  stored : node.db.hashBestChain = some node.hashBestChain
  /-- `hashBestChain` is the hash of `pindexBest`. -/
  hashBestChain : node.hashBestChain = node.best.pindexBest.getBlockHash
  /-- `nBestHeight` is its height. -/
  nBestHeight : node.best.nBestHeight = node.best.pindexBest.nHeight
  /-- `nBestChainTrust` is its trust. -/
  nBestChainTrust : node.nBestChainTrust = node.best.pindexBest.nChainTrust
  /-- Every block of its path but the genesis block has been connected. -/
  connected : ∀ p pprev, p :: pprev <:+ node.best.pindexBest → pprev ≠ [] → p.hash ∈ node.db.connected
  /-- Following `pnext` from the genesis block visits its path. -/
  pnext : ∀ n, node.best.pindexBest.length ≤ n →
    follow node.pnext n node.pindexGenesisBlock.getBlockHash = node.best.pindexBest.hashes.reverse

section InSync

variable [Crypto] {W : Type} {params : CChainParams} {A : CBlockIndex → PIndex → Prop} {J : PIndex → TxMap → Prop}
  {node node' : Node W} {f path pprev : PIndex} {p g : CBlockIndex}

omit [Crypto] in
/-- The invariant says that the node is in sync. -/
theorem Node.Ok.inSync (h : node.Ok A J g) : node.InSync where
  stored := by rw [h.committed.hashBestChain, h.hashBestChain]
  hashBestChain := h.hashBestChain
  nBestHeight := h.nBestHeight
  nBestChainTrust := h.nBestChainTrust
  connected q qprev hsuf hne := by
    obtain ⟨l, hl⟩ := hsuf
    have hdrop : node.best.pindexBest.hashes.dropLast = l.map CBlockIndex.hash ++ q.hash :: (PIndex.hashes qprev).dropLast := by
      rw [← hl, PIndex.hashes, List.map_append, List.dropLast_append_of_ne_nil (by simp)]
      exact congrArg _ (hashes_cons_dropLast hne)
    rw [h.committed.records.connected, hdrop]
    simp
  pnext n hn := by
    obtain ⟨l, hl⟩ := h.index.exists_eq_append h.indexed
    have hhashes : node.best.pindexBest.hashes = PIndex.hashes l ++ [g.hash] := by rw [hl]; simp [PIndex.hashes]
    have hnd := h.index.nodup h.indexed
    have hlen : (PIndex.hashes l).length ≤ n := by
      rw [hl, List.length_append] at hn
      simp only [PIndex.hashes, List.length_map]
      omega
    rw [h.committed.pnext, h.genesis, hhashes] at *
    exact follow_nextOf hnd hlen

variable [CWalletInterface W] {env : ChainEnv}

/-- A postponed block that fails changes neither the records nor the pointers. -/
theorem Committed.postponedStep_fails (h : Committed J path node) {pindex : PIndex} {e : Reject}
    (hok : postponedStep params env pindex node = (node', some e)) : Committed J path node' := by
  cases pindex with
  | nil => cases hok
  | cons p pprev =>
    unfold postponedStep at hok
    simp only at hok
    split at hok
    · cases hok
      exact h
    · rcases setBestChainInner_cases params env node p pprev with ⟨σ, e', hcase⟩ | ⟨σ, -, -, hcase⟩
      · rw [hcase, Prod.mk.injEq] at hok
        obtain ⟨rfl, -⟩ := hok
        exact h.keep σ
      · rw [hcase] at hok
        cases hok

/-- **After a `break`** the records belong to a block below the new best one. -/
theorem Committed.postponed_break (hJ : PathInvariant params A J) (hne : f ≠ []) (hf : f <:+ path)
    (hA : ∀ p pprev, p :: pprev <:+ path → pprev ≠ [] → A p pprev) (h : Committed J f node) {e : Reject}
    (hok : runUntil (postponedStep params env) (PIndex.branch f path).reverse node = (node', some e)) :
    ∃ q, q ≠ [] ∧ q <:+ path ∧ q.length < path.length ∧ Committed J q node' := by
  induction path with
  | nil => exact absurd (List.suffix_nil.1 hf) hne
  | cons p pprev ih =>
    rcases List.suffix_cons_iff.1 hf with rfl | hf
    · rw [PIndex.branch_self hne] at hok
      simp [runUntil] at hok
    · have hA' : ∀ q qprev, q :: qprev <:+ pprev → qprev ≠ [] → A q qprev :=
        fun q qprev hq => hA q qprev (hq.trans (List.suffix_cons _ _))
      rw [PIndex.branch_cons hf, List.reverse_cons, runUntil_append_eq_some] at hok
      rcases hok with hok | ⟨node₁, hrun, hlast⟩
      · obtain ⟨q, hqne, hq, hlt, hc⟩ := ih hf hA' hok
        exact ⟨q, hqne, hq.trans (List.suffix_cons _ _), hlt.trans (Nat.lt_succ_self _), hc⟩
      · have hpne : pprev ≠ [] := fun he => hne (List.suffix_nil.1 (he ▸ hf))
        obtain ⟨hc₁, -⟩ := h.postponed hJ hne hf hA' hrun
        refine ⟨pprev, hpne, List.suffix_cons _ _, Nat.lt_succ_self _, ?_⟩
        rw [runUntil] at hlast
        rcases hstep : postponedStep params env (p :: pprev) node₁ with ⟨node₂, _ | e'⟩
        · rw [hstep] at hlast
          simp [runUntil] at hlast
        · rw [hstep] at hlast
          simp only [Prod.mk.injEq] at hlast
          exact hlast.1 ▸ hc₁.postponedStep_fails hstep

/-- After a `break` the node is not in sync. -/
theorem setBestChain_not_inSync (hJ : PathInvariant params A J) (h : node.Ok A J g)
    (hp : Indexed node.mapBlockIndex (p :: pprev)) (hb : (setBestChain params env node p pprev).2.breaks = true) :
    ¬(setBestChain params env node p pprev).1.InSync := by
  have hgen : node.pindexGenesisBlock ≠ [] := by simp [h.genesis]
  intro hsync
  rcases setBestChain_cases params env hgen p pprev with
    ⟨σ, e, hcase⟩ | ⟨node', -, -, hcase⟩ | ⟨inter, node₁, node₂, error, hine, hisuf, hreorg, hrun, hcase⟩
  · simp [hcase, Outcome.breaks] at hb
  · simp [hcase, Outcome.breaks] at hb
  · cases error with
    | none => simp [hcase, Outcome.breaks] at hb
    | some e =>
      obtain ⟨hc₁, -⟩ := h.committed.reorganize hJ h.index h.indexed (h.index.suffix hp hisuf hine) hreorg
      obtain ⟨q, hqne, hq, hlt, hc⟩ := hc₁.postponed_break hJ hine hisuf
        (fun q qprev hsuf hq => h.index.accepted_suffix hp hsuf hq) hrun
      have hstored : node₂.db.hashBestChain = some p.hash := (hcase ▸ hsync).stored
      rw [hc.hashBestChain, Option.some.injEq] at hstored
      -- a block of the path with the hash of `p` is `p`
      have hqm := (h.index.suffix hp hq hqne).2
      rw [hstored] at hqm
      have := Option.some.inj (hqm.symm.trans hp.2)
      rw [this] at hlt
      exact absurd hlt (Nat.lt_irrefl _)

/-- Nothing is asked of the transaction index. -/
theorem pathInvariant_true : PathInvariant params (fun _ _ => True) (fun _ _ => True) :=
  ⟨fun _ _ _ _ => trivial, fun _ _ _ => trivial⟩

theorem step_not_inSync (h : node.Ok (fun _ _ => True) (fun _ _ => True) g) {event : NodeEvent}
    (hb : node.breaks params event = true) : ¬(node.step params event).InSync := by
  cases event with
  | tx env tx fLimitFree fRejectInsaneFee ignoreFees => simp [Node.breaks] at hb
  | block env b =>
    simp only [Node.breaks] at hb
    simp only [Node.step]
    rcases acceptBlock_cases params env node b with
      ⟨e, hcase⟩ | ⟨pprev, hashProof, pos, modifier, hnew, hprev, -, hcases⟩
    · simp [hcase, Outcome.breaks] at hb
    · obtain ⟨h₁, hi₁⟩ := h.insertEntry (p := newEntry b pos hashProof pprev modifier) hnew (h.index.indexed hprev)
        (h.index.entry _ _ hprev).2.symm trivial
      rcases hcases with hcase | hcase | hcase
      · simp [hcase, Outcome.breaks] at hb
      · simp [hcase, Outcome.breaks] at hb
      · rw [hcase] at hb ⊢
        exact setBestChain_not_inSync pathInvariant_true (h₁.commitEntry _ _) hi₁ hb

/-- **The best chain in memory is the committed one** in every state of a run exactly if
no call of `SetBestChain` leaves the loop over the postponed blocks by a `break`. -/
theorem run_inSync_iff (params : CChainParams) (g : CBlockIndex) (wallets : W) (events : List NodeEvent) :
    (∀ n, ((Node.genesis g wallets).run params (events.take n)).InSync) ↔
      (Node.genesis g wallets).NoBreak params events := by
  refine forall_take_iff_along (I := fun node => node.Ok (fun _ _ => True) (fun _ _ => True) g)
    (fun node h => h.inSync) (fun node event hb h => ?_) (fun node event hb h => ?_) (Node.genesis_ok trivial wallets)
  · exact h.step pathInvariant_true (fun _ _ _ _ _ _ _ _ _ _ => trivial) hb
  · exact step_not_inSync h (Bool.eq_true_of_not_eq_false hb)

end InSync

/-! ### A run with a break -/

namespace Sample

/-- A mixing of numbers, for the hash functions of the sample. -/
def mix (l : List ℕ) : ℕ := l.foldl (fun h x => (h * 1000003 + x + 1) % 2 ^ 256) 7

/-- The numbers of a transaction. -/
def txNumbers (tx : CTransaction) : List ℕ :=
  tx.nTime.toNat :: tx.vin.length ::
    tx.vin.flatMap (fun txin => txin.prevout.hash.toNat :: txin.prevout.n.toNat :: txin.scriptSig.map UInt8.toNat) ++
      tx.vout.flatMap fun txout => txout.nValue.toNat :: txout.scriptPubKey.map UInt8.toNat

/-- The numbers of a header. -/
def headerNumbers (h : CBlockHeader) : List ℕ :=
  [h.hashPrevBlock.toNat, h.hashMerkleRoot.toNat, h.nTime.toNat, h.nBits.toNat, h.nNonce.toNat]

/-- Hash functions that can be evaluated. The genesis block has its own hash, and the
other blocks meet the easiest target. The outputs pay to anyone, so an input with an empty
script is good; the only other script is a push that is cut short. -/
scoped instance crypto : Crypto where
  serializeHash tx := BitVec.ofNat 256 (mix (txNumbers tx))
  hash h := BitVec.ofNat 256 (mix (headerNumbers h))
  hash9 h :=
    if h.nNonce = 10285 then CChainParams.test.hashGenesisBlock
    else BitVec.ofNat 256 (mix (headerNumbers h) / 2 ^ 32)
  hashPair a b := BitVec.ofNat 256 (mix [a.toNat, b.toNat])
  verifySignature _ tx nIn _ _ := ((tx.vin[nIn]?.map CTxIn.scriptSig).getD []).isEmpty
  checkBlockSignature _ := true
  hashKernel modifier timeBlock timeTxPrev hash n time :=
    BitVec.ofNat 256 (mix [modifier.toNat, timeBlock.toNat, timeTxPrev.toNat, hash.toNat, n.toNat, time.toNat])
  hashSelection a b := BitVec.ofNat 256 (mix [a.toNat, b.toNat])
  hashModifierV2 a b := BitVec.ofNat 256 (mix [a.toNat, b.toNat])

/-- No wallet. -/
scoped instance noWallet : CWalletInterface Unit where
  syncTransaction _ _ _ w := w

/-- The genesis block of the test network. -/
def genesisBlock : CBlock where
  nVersion := 1
  hashPrevBlock := 0
  hashMerkleRoot := 0x306e9995cae4eaadbb512464c8c1b3c7195bf84bc88caf3c4282fd1d49b67d3d
  nTime := 1523531100
  nBits := 504365040
  nNonce := 10285
  vtx := [{ nTime := 1523531100, vin := [⟨COutPoint.null, [0, 1, 42], 0xffffffff⟩], vout := [⟨0, []⟩] }]

/-- Its entry. -/
def genesis : CBlockIndex where
  hash := CChainParams.test.hashGenesisBlock
  nFile := 1
  nBlockPos := 8
  block := genesisBlock
  generatedStakeModifier := true
  openable := by decide

/-- The time of a height: the blocks are as far apart as they should be. -/
def time (nHeight : ℕ) : UInt32 := UInt32.ofNat (1523531100 + 120 * nHeight)

/-- A coinbase; the tag tells those of one height apart. -/
def coinbase (nHeight : ℕ) (tag : UInt8) : CTransaction where
  nTime := time nHeight
  vin := [⟨COutPoint.null, heightPrefix nHeight ++ [tag], 0xffffffff⟩]
  vout := [⟨10 * COIN, [0x51]⟩]

/-- A transaction that spends the first output of another. -/
def spend (nHeight : ℕ) (prev : CTransaction) (scriptSig : CScript) (nValue : ℤ) : CTransaction where
  nTime := time nHeight
  vin := [⟨⟨prev.getHash, 0⟩, scriptSig, 0xffffffff⟩]
  vout := [⟨nValue, [0x51]⟩]

/-- A block on top of another. -/
def block (prev : CBlock) (nHeight : ℕ) (vtx : List CTransaction) : CBlock where
  hashPrevBlock := prev.getHash
  hashMerkleRoot := CBlock.merkleRoot vtx.length (vtx.map CTransaction.getHash)
  nTime := time nHeight
  nBits := 0x1f00ffff
  nNonce := 1
  vtx := vtx

/-- A coinbase, and two transactions that spend it. -/
def paid : CTransaction := coinbase 1 1
def payment : CTransaction := spend 2 paid [] (9 * COIN)
def payment' : CTransaction := spend 3 paid [] (8 * COIN)

/-- `b₂` has the first payment and `b₃` the second; `c₃`, `c₄` are another branch from
`b₂`, and `c₅` has the first payment again. -/
def b₁ : CBlock := block genesisBlock 1 [paid]
def b₂ : CBlock := block b₁ 2 [coinbase 2 1, payment]
def b₃ : CBlock := block b₂ 3 [coinbase 3 1, payment']
def c₃ : CBlock := block b₂ 3 [coinbase 3 2]
def c₄ : CBlock := block c₃ 4 [coinbase 4 2]
def c₅ : CBlock := block c₄ 5 [coinbase 5 1, payment]

/-- Reads succeed; the only transaction read is `paid`. -/
def disk : DiskEnv where
  readTxIndexOk _ _ := true
  readTx _ pos := if pos.nBlockPos = 1000 then some paid else none

/-- Long after the last block, with no initial download. -/
def reading : IBDReading := ⟨2000000000, 0⟩

/-- The readings of `CheckBlock`. -/
def checkEnv : CheckEnv where
  adjustedTime := 2000000000
  ibd := reading
  instantXBlockFiltering := false
  mapLockedInputs _ := none
  getBlockPayee _ := none
  currentMasterNode := none
  walletGracePeriod := false

/-- The readings of connecting a block. -/
def blockEnv (commitOk : Bool) : BlockEnv where
  check := checkEnv
  disk := disk
  coinAgeDisk := disk
  ibd _ _ := reading
  readBlockOk := true
  commitOk := commitOk

/-- The readings of `AcceptToMemoryPool`. -/
def memPoolEnv : MemPoolEnv where
  disk := disk
  ibd _ := reading
  mapLockedInputs _ := none
  isStandardTx _ := true
  areInputsStandard _ _ := true
  darksendBroadcast := false
  freeLimited := false

/-- A position in the first block file. -/
def blockPos (nBlockPos : UInt32) : BlockPos := ⟨1, nBlockPos, by decide⟩

/-- The readings of `AcceptBlock`: the block is stored at a position. -/
def acceptEnv (nBlockPos : UInt32) (commitOk : Bool) : AcceptEnv where
  adjustedTime := 2000000000
  disk := disk
  readHeader _ _ := none
  writeToDisk := some (blockPos nBlockPos)
  indexCommitOk := true
  chain := ⟨fun _ => blockEnv commitOk, true, fun _ => memPoolEnv⟩

/-- `b₂` is not committed when it comes. When `b₃` comes, `Reorganize` connects `b₂`, and
`b₃`, postponed, fails: its payment spends an output that is spent. -/
def events : List NodeEvent :=
  [.block (acceptEnv 1000 true) b₁, .block (acceptEnv 2000 false) b₂, .block (acceptEnv 3000 true) b₃,
    .block (acceptEnv 4000 true) c₃, .block (acceptEnv 5000 true) c₄, .block (acceptEnv 6000 true) c₅]

/-- The node after the first events. -/
def node (n : ℕ) : Node Unit := (Node.genesis genesis ()).run CChainParams.test (events.take n)

/-- **The `break` loses the committed chain**: the best block in memory is `b₃`, and the
database has `b₂`. -/
theorem node_three_not_inSync : (node 3).best.pindexBest.head?.map CBlockIndex.block = some b₃ ∧
    (node 3).db.hashBestChain = some b₂.getHash ∧ ¬(node 3).InSync := by
  have hbest : (node 3).best.pindexBest.head?.map CBlockIndex.block = some b₃ := by decide +kernel
  have hstored : (node 3).db.hashBestChain = some b₂.getHash := by decide +kernel
  have hmemory : (node 3).hashBestChain ≠ b₂.getHash := by decide +kernel
  refine ⟨hbest, hstored, fun h => hmemory ?_⟩
  rw [h.stored, Option.some.injEq] at hstored
  exact hstored

end Sample

end PayDayCoin
