import PayDayCoin.MemPoolInvariant
import PayDayCoin.LockedInputs

/-!
# The memory pool when the best chain changes

Both `Reorganize` and `SetBestChainInner` take the transactions of the blocks that they connect
out of the memory pool. `Reorganize` also removes what is in conflict with them, so nothing
that it leaves claims an outpoint that they claim. `SetBestChainInner` does not: such a
transaction stays in the pool, where it can never be mined.

**`changes_purged_iff`**: of the changes of the best chain in a run, those by `Reorganize` leave
no conflict, and those by `SetBestChainInner` do exactly if no transaction of the pool, but for those of
the block, claims an outpoint that the block claims. That is also when the loop of `Reorganize`
would leave the same pool.

In `Sample` a block that spends what a transaction of the pool spends comes on top of the best
one.
-/

namespace PayDayCoin

open Library.Checks Library.Overlay Library.Descendants Library.Runs

namespace CTxMemPool

variable [Crypto]

/-- The loop of `SetBestChainInner` over the transactions of the block. -/
def purge (pool : CTxMemPool) (vtx : List CTransaction) : CTxMemPool :=
  vtx.foldl (fun pool tx => pool.remove tx false) pool

/-- The loop of `Reorganize` over `vDelete`. -/
def purgeConflicts (pool : CTxMemPool) (vDelete : List CTransaction) : CTxMemPool :=
  vDelete.foldl (fun pool tx => (pool.remove tx false).removeConflicts tx) pool

/-- Nothing in the pool claims an outpoint that one of some transactions claims. -/
def Purged (pool : CTxMemPool) (vtx : List CTransaction) : Prop :=
  ∀ t ∈ pool.txs, ∀ tx ∈ vtx, ∀ o, tx.Claims o → ¬t.Claims o

/-- Nothing in the pool claims an outpoint that one of some transactions claims, but for
these transactions. -/
def Unopposed (pool : CTxMemPool) (vtx : List CTransaction) : Prop :=
  ∀ t ∈ pool.txs, t ∉ vtx → ∀ tx ∈ vtx, ∀ o, tx.Claims o → ¬t.Claims o

variable {pool : CTxMemPool} {vtx : List CTransaction} {S : Set CTransaction}

/-- **`SetBestChainInner`** takes the transactions of the block out of the pool. -/
theorem Matched.purge (hS : HashSound S) (hvtx : ∀ tx ∈ vtx, tx ∈ S) :
    ∀ {pool : CTxMemPool}, pool.Matched → pool.txs ⊆ S → (pool.purge vtx).Holds (pool.txs \ {tx | tx ∈ vtx}) := by
  induction vtx with
  | nil =>
    intro pool hm _
    refine ⟨hm, ?_⟩
    simp [CTxMemPool.purge]
  | cons tx vtx ih =>
    intro pool hm hsub
    obtain ⟨hm₁, htxs⟩ := hm.remove_false
      (hS.injOn.mono (Set.insert_subset (hvtx tx List.mem_cons_self) hsub))
    obtain ⟨hm₂, htxs₂⟩ := ih (fun t ht => hvtx t (List.mem_cons_of_mem _ ht)) hm₁
      (htxs ▸ Set.sdiff_subset.trans hsub)
    refine ⟨hm₂, htxs₂.trans ?_⟩
    ext t
    simp only [htxs, Set.mem_sdiff, Set.mem_singleton_iff, Set.mem_ofPred_eq, List.mem_cons, not_or, and_assoc]

/-- One turn of the loop of `Reorganize`. -/
theorem Matched.purgeConflict (hS : HashSound S) {tx : CTransaction} (htx : tx ∈ S) (hm : pool.Matched)
    (hsub : pool.txs ⊆ S) : ((pool.remove tx false).removeConflicts tx).Holds
      (prune Spends (pool.txs \ {tx}) (rivals tx tx.vin)) := by
  obtain ⟨hm₁, htxs⟩ := hm.remove_false (hS.injOn.mono (Set.insert_subset htx hsub))
  rw [← htxs]
  exact hm₁.removeConflicts (hS.acyclic.mono (htxs ▸ Set.sdiff_subset.trans hsub))

/-- What is left claims nothing that the transaction claims. -/
theorem not_claims_of_mem_prune {s : Set CTransaction} {t tx : CTransaction} {o : COutPoint}
    (ht : t ∈ prune Spends (s \ {tx}) (rivals tx tx.vin)) (ho : tx.Claims o) : ¬t.Claims o := by
  intro hc
  obtain ⟨txin, hin, rfl⟩ := ho
  exact ht.2 t ⟨fun heq => ht.1.2 heq, txin, hin, hc⟩ ht.1 .refl

/-- **`Reorganize`** leaves no conflict with the transactions of the blocks. -/
theorem Matched.purgeConflicts (hS : HashSound S) (hvtx : ∀ tx ∈ vtx, tx ∈ S) :
    ∀ {pool : CTxMemPool}, pool.Matched → pool.txs ⊆ S → (pool.purgeConflicts vtx).Matched ∧
      (pool.purgeConflicts vtx).txs ⊆ pool.txs \ {tx | tx ∈ vtx} ∧ (pool.purgeConflicts vtx).Purged vtx := by
  induction vtx with
  | nil =>
    intro pool hm _
    refine ⟨hm, ?_, fun t _ tx htx => absurd htx List.not_mem_nil⟩
    simp [CTxMemPool.purgeConflicts]
  | cons tx vtx ih =>
    intro pool hm hsub
    obtain ⟨hm₁, htxs⟩ := hm.purgeConflict hS (hvtx tx List.mem_cons_self) hsub
    have hsub₁ : ((pool.remove tx false).removeConflicts tx).txs ⊆ pool.txs \ {tx} := htxs ▸ prune_subset
    obtain ⟨hm₂, hsub₂, hpurged⟩ := ih (fun t ht => hvtx t (List.mem_cons_of_mem _ ht)) hm₁
      (hsub₁.trans (Set.sdiff_subset.trans hsub))
    refine ⟨hm₂, fun t ht => ?_, fun t ht tx' htx' o ho => ?_⟩
    · obtain ⟨ht₁, hnot⟩ := hsub₂ ht
      obtain ⟨htp, hne⟩ := hsub₁ ht₁
      exact ⟨htp, fun hmem => (List.mem_cons.1 hmem).elim hne hnot⟩
    · rcases List.mem_cons.1 htx' with rfl | htx'
      · exact not_claims_of_mem_prune (htxs ▸ (hsub₂ ht).1) ho
      · exact hpurged t ht tx' htx' o ho

/-- `SetBestChainInner` leaves no conflict exactly if there was none with a transaction of
the pool that is not in the block. -/
theorem purged_purge_iff (hS : HashSound S) (hvtx : ∀ tx ∈ vtx, tx ∈ S) (hm : pool.Matched) (hsub : pool.txs ⊆ S) :
    (pool.purge vtx).Purged vtx ↔ pool.Unopposed vtx := by
  rw [Purged, (hm.purge hS hvtx hsub).txs]
  exact ⟨fun h t ht hnot => h t ⟨ht, hnot⟩, fun h t ht => h t ht.1 ht.2⟩

/-- Where there is no conflict, the loop of `Reorganize` takes out the transactions of the
block, and no more. -/
theorem Matched.purgeConflicts_of_unopposed (hS : HashSound S) (hvtx : ∀ tx ∈ vtx, tx ∈ S)
    (hpair : vtx.Pairwise fun tx tx' => ∀ o, tx.Claims o → ¬tx'.Claims o) : ∀ {pool : CTxMemPool}, pool.Matched →
      pool.txs ⊆ S → pool.Unopposed vtx → (pool.purgeConflicts vtx).txs = pool.txs \ {tx | tx ∈ vtx} := by
  induction vtx with
  | nil =>
    intro pool _ _ _
    simp [CTxMemPool.purgeConflicts]
  | cons tx vtx ih =>
    intro pool hm hsub hfree
    obtain ⟨hm₁, htxs⟩ := hm.purgeConflict hS (hvtx tx List.mem_cons_self) hsub
    obtain ⟨htx, hpair⟩ := List.pairwise_cons.1 hpair
    rw [prune_of_forall] at htxs
    · have hrest := ih (fun t ht => hvtx t (List.mem_cons_of_mem _ ht)) hpair hm₁
        (htxs ▸ Set.sdiff_subset.trans hsub) fun t ht hnot tx' htx' => ?_
      · refine hrest.trans ?_
        ext t
        simp only [htxs, Set.mem_sdiff, Set.mem_singleton_iff, Set.mem_ofPred_eq, List.mem_cons, not_or, and_assoc]
      · rw [htxs] at ht
        exact hfree t ht.1 (fun hmem => (List.mem_cons.1 hmem).elim ht.2 hnot) tx' (List.mem_cons_of_mem _ htx')
    · rintro c ⟨hne, txin, hin, hc⟩ hcs
      by_cases hmem : c ∈ vtx
      · exact htx c hmem _ ⟨txin, hin, rfl⟩ hc
      · exact hfree c hcs.1 (fun h => (List.mem_cons.1 h).elim hne hmem) tx List.mem_cons_self _ ⟨txin, hin, rfl⟩ hc

/-- **The two loops leave the same pool** exactly if there is no conflict. -/
theorem purge_eq_purgeConflicts_iff (hS : HashSound S) (hvtx : ∀ tx ∈ vtx, tx ∈ S)
    (hpair : vtx.Pairwise fun tx tx' => ∀ o, tx.Claims o → ¬tx'.Claims o) (hm : pool.Matched) (hsub : pool.txs ⊆ S) :
    (pool.purge vtx).txs = (pool.purgeConflicts vtx).txs ↔ pool.Unopposed vtx := by
  rw [(hm.purge hS hvtx hsub).txs]
  constructor
  · intro heq t ht hnot
    exact (hm.purgeConflicts hS hvtx hsub).2.2 t (heq ▸ ⟨ht, hnot⟩)
  · exact fun hfree => (hm.purgeConflicts_of_unopposed hS hvtx hpair hsub hfree).symm

end CTxMemPool

/-! ### The changes of the best chain -/

section Changes

variable [Crypto] {W : Type} [CWalletInterface W] (params : CChainParams) (env : ChainEnv)

/-- A change of the best chain, by `Reorganize` or by `SetBestChainInner`: the memory pool
before it, the transactions of the blocks connected, and the pool after it. -/
structure PoolChange where
  reorganized : Bool
  before : CTxMemPool
  vtx : List CTransaction
  after : CTxMemPool

/-- The change that a call of `SetBestChainInner` makes, if it succeeds. -/
def innerChanges (node : Node W) (p : CBlockIndex) (pprev : PIndex) : List PoolChange :=
  match setBestChainInner params env node p pprev with
  | (_, some _) => []
  | (node', none) => [⟨false, node.mempool, p.block.vtx, node'.mempool⟩]

/-- The changes that the loop of `SetBestChain` over the postponed blocks makes. -/
def postponedChanges : List PIndex → Node W → List PoolChange
  | [], _ => []
  | pindex :: vpindexSecondary, node =>
    match postponedStep params env pindex node with
    | (_, some _) => []
    | (node', none) =>
      ⟨false, node.mempool, branchTxs [pindex], node'.mempool⟩ :: postponedChanges vpindexSecondary node'

/-- The blocks that `Reorganize` connects. -/
def connectedBranch (node : Node W) (pindexNew : PIndex) : List PIndex :=
  match PIndex.findFork node.best.pindexBest pindexNew with
  | none => []
  | some pfork => (PIndex.branch pfork pindexNew).reverse

/-- The changes of the best chain that a call of `SetBestChain` makes, with
`pindexNew = p :: pprev`. -/
def setBestChainChanges (node : Node W) (p : CBlockIndex) (pprev : PIndex) : List PoolChange :=
  if node.pindexGenesisBlock = [] ∧ p.hash = params.hashGenesisBlock then []
  else if p.block.hashPrevBlock = node.hashBestChain then innerChanges params env node p pprev
  else
    let (vpindexSecondary, pindexIntermediate) := PIndex.postpone node.best.pindexBest.nChainTrust (p :: pprev)
    match reorganize params env node pindexIntermediate with
    | (_, some _) => []
    | (node', none) =>
      ⟨true, node.mempool, branchTxs (connectedBranch node pindexIntermediate), node'.mempool⟩ ::
        postponedChanges params env vpindexSecondary.reverse node'

/-- The changes of the best chain that an event makes: those of the call of `SetBestChain`, if
`AcceptBlock` comes to it. -/
def Node.changes (params : CChainParams) (node : Node W) : NodeEvent → List PoolChange
  | .tx .. => []
  | .block env b =>
    match node.chainCall params env b with
    | none => []
    | some (p, pprev) =>
      setBestChainChanges params env.chain ((node.insertEntry p pprev).commitEntry p pprev) p pprev

/-- The blocks of a path have their transactions in `S`. -/
def PathIn (S : Set CTransaction) (path : PIndex) : Prop := ∀ q ∈ path, ∀ tx ∈ q.block.vtx, tx ∈ S

/-- The maps of the memory pool match, and `S` has its transactions and those of the blocks
that the node knows. -/
structure Node.PoolOk (S : Set CTransaction) (node : Node W) : Prop where
  genesis : node.pindexGenesisBlock ≠ []
  matched : node.mempool.Matched
  txs : node.mempool.txs ⊆ S
  index : ∀ h path, node.mapBlockIndex h = some path → PathIn S path
  best : PathIn S node.best.pindexBest

variable {params env} {S : Set CTransaction} {node node' : Node W} {p : CBlockIndex} {pprev path pindex : PIndex}

omit [Crypto] [CWalletInterface W] in
theorem PathIn.suffix (h : PathIn S path) (hsuf : pprev <:+ path) : PathIn S pprev :=
  fun q hq => h q (hsuf.subset hq)

omit [Crypto] [CWalletInterface W] in
theorem mem_branch (f : PIndex) (h : pindex ∈ PIndex.branch f path) : pindex <:+ path := by
  induction path with
  | nil => exact absurd h List.not_mem_nil
  | cons p pprev ih =>
    rw [PIndex.branch] at h
    split at h
    · exact absurd h List.not_mem_nil
    · rcases List.mem_cons.1 h with rfl | h
      · exact List.suffix_rfl
      · exact (ih h).trans (List.suffix_cons _ _)

omit [Crypto] [CWalletInterface W] in
theorem branchTxs_subset {l : List PIndex} (h : ∀ pindex ∈ l, PathIn S pindex) : ∀ tx ∈ branchTxs l, tx ∈ S := by
  intro tx htx
  obtain ⟨pindex, hmem, htx⟩ := List.mem_flatMap.1 htx
  cases pindex with
  | nil => exact absurd htx List.not_mem_nil
  | cons p pprev => exact h _ hmem p List.mem_cons_self tx htx

omit [CWalletInterface W] in
/-- Another memory pool, with the same blocks. -/
theorem Node.PoolOk.of_sameBest (h : node.PoolOk S) (hs : SameBest node node') (hm : node'.mempool.Matched)
    (htxs : node'.mempool.txs ⊆ S) : node'.PoolOk S where
  genesis := hs.pindexGenesisBlock ▸ h.genesis
  matched := hm
  txs := htxs
  index := hs.mapBlockIndex ▸ h.index
  best := hs.best ▸ h.best

omit [CWalletInterface W] in
theorem Node.PoolOk.newBest (h : node.PoolOk S) (hp : PathIn S path) : (newBest node path).PoolOk S where
  genesis := h.genesis
  matched := h.matched
  txs := h.txs
  index := h.index
  best := hp

/-- `SetBestChainInner` purges the pool. -/
theorem Node.PoolOk.setBestChainInner (hS : HashSound S) (h : node.PoolOk S) (hp : PathIn S (p :: pprev))
    (hok : PayDayCoin.setBestChainInner params env node p pprev = (node', none)) :
    node'.PoolOk S ∧ node'.mempool = node.mempool.purge p.block.vtx := by
  have hvtx : ∀ tx ∈ p.block.vtx, tx ∈ S := hp p List.mem_cons_self
  rcases setBestChainInner_cases params env node p pprev with ⟨σ, e, hcase⟩ | ⟨σ, -, -, hcase⟩
  · rw [hcase] at hok
    cases hok
  · rw [hcase, Prod.mk.injEq] at hok
    obtain ⟨rfl, -⟩ := hok
    obtain ⟨hm, htxs⟩ := h.matched.purge hS hvtx h.txs
    exact ⟨h.of_sameBest ⟨rfl, rfl, rfl, rfl, rfl⟩ hm (htxs ▸ Set.sdiff_subset.trans h.txs), rfl⟩

/-- What `AcceptToMemoryPool` adds is in `S`. -/
theorem matched_of_acceptToMemoryPool {envm : MemPoolEnv} {g : BestChain} {T : TxMap} {pool pool' : CTxMemPool}
    {tx : CTransaction} {fLimitFree fRejectInsaneFee ignoreFees : Bool} (htx : tx ∈ S)
    (hok : tx.acceptToMemoryPool params envm g T pool fLimitFree fRejectInsaneFee ignoreFees = .ok pool')
    (h : pool.Matched ∧ pool.txs ⊆ S) : pool'.Matched ∧ pool'.txs ⊆ S := by
  obtain ⟨hnd, hnew, hfree, rfl⟩ := CTxMemPool.acceptToMemoryPool_eq_ok hok
  obtain ⟨hm, htxs⟩ := h.1.addUnchecked hnew hnd hfree
  exact ⟨hm, htxs ▸ Set.insert_subset htx h.2⟩

/-- Putting back what was disconnected. -/
theorem foldl_resurrectTx_matched (params : CChainParams) (env : ChainEnv) {l : List CTransaction}
    (hl : ∀ tx ∈ l, tx ∈ S) : ∀ node : Node W, (node.mempool.Matched ∧ node.mempool.txs ⊆ S) →
      (l.foldl (resurrectTx params env) node).mempool.Matched ∧
        (l.foldl (resurrectTx params env) node).mempool.txs ⊆ S := by
  induction l with
  | nil => intro node h; exact h
  | cons tx l ih =>
    intro node h
    refine ih (fun t ht => hl t (List.mem_cons_of_mem _ ht)) _ ?_
    unfold resurrectTx
    split
    · exact h
    · next hok => exact matched_of_acceptToMemoryPool (hl tx List.mem_cons_self) hok h

/-- `Reorganize` purges the pool, of the conflicts too. -/
theorem Node.PoolOk.reorganize (hS : HashSound S) (h : node.PoolOk S) (hp : PathIn S path)
    (hok : PayDayCoin.reorganize params env node path = (node', none)) :
    node'.PoolOk S ∧ node'.mempool.Purged (branchTxs (connectedBranch node path)) := by
  rcases reorganize_cases params env node path with ⟨σ, e, hcase⟩ | ⟨pfork, σ₁, σ, hfork, -, -, -, hcase⟩
  · rw [hcase] at hok
    cases hok
  · rw [hcase, Prod.mk.injEq] at hok
    obtain ⟨rfl, -⟩ := hok
    have hdis : ∀ tx ∈ resurrectTxs params (PIndex.branch pfork node.best.pindexBest), tx ∈ S := by
      intro tx htx
      refine branchTxs_subset (fun pindex hmem => ?_) tx (List.mem_filter.1 htx).1
      exact h.best.suffix (mem_branch pfork (List.mem_reverse.1 (List.mem_filter.1 hmem).1))
    have hcon : ∀ tx ∈ branchTxs (PIndex.branch pfork path).reverse, tx ∈ S :=
      branchTxs_subset fun pindex hmem => hp.suffix (mem_branch pfork (List.mem_reverse.1 hmem))
    obtain ⟨hm, htxs⟩ := foldl_resurrectTx_matched params env hdis
      { node.commit σ path.getBlockHash with
        pnext := (PIndex.branch pfork path).reverse.foldl linkPrev
          ((PIndex.branch pfork node.best.pindexBest).foldl unlinkPrev node.pnext) } ⟨h.matched, h.txs⟩
    obtain ⟨hm', hsub, hpurged⟩ := hm.purgeConflicts hS hcon htxs
    obtain ⟨pool, w, heq⟩ := finishReorganize_eq params env (PIndex.branch pfork node.best.pindexBest)
      (PIndex.branch pfork path).reverse (node.commit σ path.getBlockHash)
    refine ⟨h.of_sameBest ?_ hm' (hsub.trans (Set.sdiff_subset.trans htxs)), ?_⟩
    · rw [heq]
      exact ⟨rfl, rfl, rfl, rfl, rfl⟩
    · rw [connectedBranch, hfork]
      exact hpurged

/-- `SetBestChainInner` leaves the pool when it fails. -/
theorem setBestChainInner_mempool {e : Reject} (h : setBestChainInner params env node p pprev = (node', some e)) :
    node'.mempool = node.mempool := by
  rcases setBestChainInner_cases params env node p pprev with ⟨σ, e', hcase⟩ | ⟨σ, -, -, hcase⟩ <;>
    rw [hcase] at h <;> cases h
  rfl

/-- A turn of the loop over the postponed blocks that fails leaves the pool. -/
theorem postponedStep_mempool {e : Reject} (h : postponedStep params env pindex node = (node', some e)) :
    node'.mempool = node.mempool := by
  cases pindex with
  | nil => cases h
  | cons p pprev =>
    unfold postponedStep at h
    simp only at h
    split at h
    · cases h
      rfl
    · exact setBestChainInner_mempool h

/-- A turn of the loop over the postponed blocks keeps the invariant. -/
theorem Node.PoolOk.postponedStep (params : CChainParams) (env : ChainEnv) (hS : HashSound S) (h : node.PoolOk S) (hp : PathIn S pindex) :
    (PayDayCoin.postponedStep params env pindex node).1.PoolOk S := by
  cases pindex with
  | nil => exact h
  | cons p pprev =>
    unfold PayDayCoin.postponedStep
    simp only
    split
    · exact h
    · rcases hcase : PayDayCoin.setBestChainInner params env node p pprev with ⟨node', _ | e⟩
      · exact (h.setBestChainInner hS hp hcase).1
      · rcases setBestChainInner_cases params env node p pprev with ⟨σ, e', hkeep⟩ | ⟨σ, -, -, hok⟩
        · rw [hkeep, Prod.mk.injEq] at hcase
          obtain ⟨rfl, -⟩ := hcase
          exact h.of_sameBest (sameBest_keep node σ) h.matched h.txs
        · rw [hok] at hcase
          cases hcase

theorem Node.PoolOk.setBestChain (hS : HashSound S) (h : node.PoolOk S) (hp : PathIn S (p :: pprev)) :
    (PayDayCoin.setBestChain params env node p pprev).1.PoolOk S := by
  rcases setBestChain_cases params env h.genesis p pprev with
    ⟨σ, e, hcase⟩ | ⟨node', -, hinner, hcase⟩ | ⟨inter, node₁, node₂, error, -, hisuf, hreorg, hrun, hcase⟩
  · rw [hcase]
    exact h.of_sameBest (sameBest_keep node σ) h.matched h.txs
  · rw [hcase]
    exact (h.setBestChainInner hS hp hinner).1.newBest hp
  · rw [hcase]
    have h₁ := (h.reorganize hS (hp.suffix hisuf) hreorg).1
    have h₂ := runUntil_induct (P := fun node : Node W => node.PoolOk S) (l := (PIndex.branch inter (p :: pprev)).reverse)
      (fun pindex hmem node hnode => hnode.postponedStep params env hS
        (hp.suffix (mem_branch inter (List.mem_reverse.1 hmem)))) h₁
    rw [hrun] at h₂
    exact h₂.newBest hp

omit [CWalletInterface W] in
theorem Node.PoolOk.pathIn_newEntry (h : node.PoolOk S) {b : CBlock} (pos : BlockPos) (hashProof : Uint256)
    (modifier : UInt64 × Bool) (hb : ∀ tx ∈ b.vtx, tx ∈ S) (hprev : node.mapBlockIndex b.hashPrevBlock = some pprev) :
    PathIn S (newEntry b pos hashProof pprev modifier :: pprev) := by
  intro q hq
  rcases List.mem_cons.1 hq with rfl | hq
  · exact hb
  · exact h.index _ _ hprev q hq

omit [CWalletInterface W] in
/-- A new entry on top of one that the node knows. -/
theorem Node.PoolOk.insertEntry (h : node.PoolOk S) (hp : PathIn S (p :: pprev)) :
    ((node.insertEntry p pprev).commitEntry p pprev).PoolOk S where
  genesis := h.genesis
  matched := h.matched
  txs := h.txs
  index k path hk := by
    change Function.update node.mapBlockIndex p.hash (some (p :: pprev)) k = some path at hk
    by_cases hkp : k = p.hash
    · rw [hkp, Function.update_self, Option.some.injEq] at hk
      exact hk ▸ hp
    · rw [Function.update_of_ne hkp] at hk
      exact h.index k path hk
  best := h.best

/-- The transactions that an event brings. -/
def NodeEvent.txs : NodeEvent → List CTransaction
  | .block _ b => b.vtx
  | .tx _ t .. => [t]

/-- **An event keeps the invariant.** -/
theorem Node.PoolOk.step (hS : HashSound S) (h : node.PoolOk S) {event : NodeEvent} (hin : ∀ tx ∈ event.txs, tx ∈ S) :
    (node.step params event).PoolOk S := by
  cases event with
  | tx env tx fLimitFree fRejectInsaneFee ignoreFees =>
    simp only [Node.step]
    split
    · exact h
    · next hok =>
      obtain ⟨hm, htxs⟩ := matched_of_acceptToMemoryPool (hin tx List.mem_cons_self) hok ⟨h.matched, h.txs⟩
      exact h.of_sameBest ⟨rfl, rfl, rfl, rfl, rfl⟩ hm htxs
  | block env b =>
    simp only [Node.step]
    rcases acceptBlock_cases params env node b with
      ⟨e, hcase⟩ | ⟨pprev, hashProof, pos, modifier, -, hprev, -, hcases⟩
    · rw [hcase]
      exact h
    · have hp := h.pathIn_newEntry pos hashProof modifier hin hprev
      have h₁ := h.insertEntry hp
      rcases hcases with hcase | hcase | hcase
      · rw [hcase]
        exact ⟨h₁.genesis, h₁.matched, h₁.txs, h₁.index, h₁.best⟩
      · rw [hcase]
        exact h₁
      · rw [hcase]
        exact h₁.setBestChain hS hp

omit [CWalletInterface W] in
theorem genesis_poolOk {g : CBlockIndex} (hg : ∀ tx ∈ g.block.vtx, tx ∈ S) (wallets : W) :
    (Node.genesis g wallets).PoolOk S where
  genesis := List.cons_ne_nil g []
  matched := CTxMemPool.matched_empty
  txs tx htx := by cases htx
  index h path hm := by
    change Function.update nothing g.hash (some [g]) h = some path at hm
    by_cases hk : h = g.hash
    · rw [hk, Function.update_self, Option.some.injEq] at hm
      rintro q hq
      rw [← hm, List.mem_singleton] at hq
      exact hq ▸ hg
    · rw [Function.update_of_ne hk] at hm
      cases hm
  best q hq := by
    rw [List.mem_singleton.1 hq]
    exact hg

/-- The last of the changes over the postponed blocks leaves the pool that the loop leaves. -/
theorem postponedChanges_last : ∀ (l : List PIndex) (node : Node W), (runUntil (postponedStep params env) l node).1.mempool =
    ((postponedChanges params env l node).getLast?.map PoolChange.after).getD node.mempool := by
  intro l
  induction l with
  | nil => intro node; rfl
  | cons pindex l ih =>
    intro node
    rw [runUntil, postponedChanges]
    rcases hstep : postponedStep params env pindex node with ⟨node', _ | e⟩
    · simp only [ih, List.getLast?_cons, Option.map_some, Option.getD_some]
      cases (postponedChanges params env l node').getLast? <;> rfl
    · exact postponedStep_mempool hstep

theorem setBestChainChanges_last (hgen : node.pindexGenesisBlock ≠ []) :
    (setBestChain params env node p pprev).1.mempool =
      ((setBestChainChanges params env node p pprev).getLast?.map PoolChange.after).getD node.mempool := by
  have hno : ¬(node.pindexGenesisBlock = [] ∧ p.hash = params.hashGenesisBlock) := fun h => hgen h.1
  by_cases hprev : p.block.hashPrevBlock = node.hashBestChain
  · simp only [setBestChain, setBestChainChanges, if_neg hno, if_pos hprev, innerChanges]
    rcases hinner : setBestChainInner params env node p pprev with ⟨node', _ | e⟩
    · rfl
    · exact setBestChainInner_mempool hinner
  · simp only [setBestChain, setBestChainChanges, if_neg hno, if_neg hprev]
    generalize PIndex.postpone node.best.pindexBest.nChainTrust (p :: pprev) = postponed
    rcases hreorg : reorganize params env node postponed.2 with ⟨node', _ | e⟩
    · simp only [List.getLast?_cons, Option.map_some, Option.getD_some]
      refine (postponedChanges_last _ _).trans ?_
      cases (postponedChanges params env _ node').getLast? <;> rfl
    · rcases reorganize_cases params env node postponed.2 with ⟨σ, e', hcase⟩ | ⟨pfork, σ₁, σ, -, -, -, -, hcase⟩ <;>
        rw [hcase] at hreorg <;> cases hreorg
      rfl

/-- **The last of the changes that an event makes leaves the pool that the event leaves.** -/
theorem changes_last (hgen : node.pindexGenesisBlock ≠ []) (env : AcceptEnv) (b : CBlock) :
    (node.step params (.block env b)).mempool =
      ((node.changes params (.block env b)).getLast?.map PoolChange.after).getD node.mempool := by
  rw [Node.step, Node.changes]
  rcases chainCall_cases params env node b with ⟨hnone, -, hpool⟩ | ⟨p, pprev, _, _, _, hcall, -, -, -, -, haccept⟩
  · rw [hnone]
    exact hpool
  · rw [hcall, haccept]
    exact setBestChainChanges_last hgen

/-! ### What the changes leave -/

/-- It is a change by `Reorganize`, or nothing in the pool before it, but for the
transactions of the block, claims an outpoint that the block claims. -/
def PoolChange.Unopposed (c : PoolChange) : Prop := c.reorganized = false → c.before.Unopposed c.vtx

/-- What a change of the best chain leaves in the memory pool. -/
structure PoolChange.Exact (c : PoolChange) : Prop where
  /-- It leaves no conflict with the blocks connected exactly if there was none to leave. -/
  purged_iff : c.after.Purged c.vtx ↔ c.Unopposed
  /-- And exactly then `SetBestChainInner` leaves the pool that `Reorganize` would. -/
  same_iff : c.reorganized = false → (c.vtx.Pairwise fun tx tx' => ∀ o, tx.Claims o → ¬tx'.Claims o) →
    (c.after.txs = (c.before.purgeConflicts c.vtx).txs ↔ c.Unopposed)

/-- A change by `SetBestChainInner`. -/
theorem Node.PoolOk.exact (hS : HashSound S) (h : node.PoolOk S) (hp : PathIn S (p :: pprev))
    (hok : PayDayCoin.setBestChainInner params env node p pprev = (node', none)) :
    (PoolChange.mk false node.mempool p.block.vtx node'.mempool).Exact := by
  have hvtx : ∀ tx ∈ p.block.vtx, tx ∈ S := hp p List.mem_cons_self
  have hpurge := (h.setBestChainInner hS hp hok).2
  refine ⟨?_, fun _ hpair => ?_⟩ <;> simp only [PoolChange.Unopposed, hpurge, forall_const]
  · exact CTxMemPool.purged_purge_iff hS hvtx h.matched h.txs
  · exact CTxMemPool.purge_eq_purgeConflicts_iff hS hvtx hpair h.matched h.txs

theorem postponedChanges_exact (hS : HashSound S) {l : List PIndex} (hl : ∀ pindex ∈ l, PathIn S pindex) :
    ∀ {node : Node W}, node.PoolOk S → ∀ c ∈ postponedChanges params env l node, c.Exact := by
  induction l with
  | nil => intro node _ c hc; exact absurd hc List.not_mem_nil
  | cons pindex l ih =>
    intro node h c hc
    have hp := hl pindex List.mem_cons_self
    have hnext := h.postponedStep params env hS hp
    rw [postponedChanges] at hc
    rcases hstep : postponedStep params env pindex node with ⟨node', _ | e⟩
    · rw [hstep] at hc hnext
      rcases List.mem_cons.1 hc with rfl | hc
      · cases pindex with
        | nil =>
          cases hstep
          refine ⟨?_, fun _ _ => ?_⟩ <;>
            simp [CTxMemPool.Purged, CTxMemPool.Unopposed, PoolChange.Unopposed, branchTxs, CTxMemPool.purgeConflicts]
        | cons p pprev =>
          have hexact := h.exact hS hp (postponedStep_eq_none.1 hstep).2
          rw [show branchTxs [p :: pprev] = p.block.vtx from List.append_nil _]
          exact hexact
      · exact ih (fun q hq => hl q (List.mem_cons_of_mem _ hq)) hnext c hc
    · rw [hstep] at hc
      exact absurd hc List.not_mem_nil

theorem setBestChainChanges_exact (hS : HashSound S) (h : node.PoolOk S) (hp : PathIn S (p :: pprev)) :
    ∀ c ∈ setBestChainChanges params env node p pprev, c.Exact := by
  intro c hc
  rw [setBestChainChanges, if_neg fun hgen => h.genesis hgen.1] at hc
  split at hc
  · rw [innerChanges] at hc
    split at hc
    · exact absurd hc List.not_mem_nil
    · next node' hok =>
      rw [List.mem_singleton.1 hc]
      exact h.exact hS hp hok
  · obtain ⟨-, hsuf, hsec⟩ := PIndex.postpone_eq node.best.pindexBest.nChainTrust p pprev
    simp only at hc
    split at hc
    · exact absurd hc List.not_mem_nil
    · next node' hok =>
      obtain ⟨h₁, hpurged⟩ := h.reorganize hS (hp.suffix hsuf) hok
      rcases List.mem_cons.1 hc with rfl | hc
      · exact ⟨iff_of_true hpurged fun hd => absurd hd (by simp), fun hd => absurd hd (by simp)⟩
      · refine postponedChanges_exact hS (fun pindex hmem => ?_) h₁ c hc
        rw [hsec] at hmem
        exact hp.suffix (mem_branch _ (List.mem_reverse.1 hmem))

theorem changes_exact (hS : HashSound S) (h : node.PoolOk S) {event : NodeEvent} (hin : ∀ tx ∈ event.txs, tx ∈ S) :
    ∀ c ∈ node.changes params event, c.Exact := by
  intro c hc
  cases event with
  | tx env tx fLimitFree fRejectInsaneFee ignoreFees => exact absurd hc List.not_mem_nil
  | block env b =>
    rw [Node.changes] at hc
    rcases chainCall_cases params env node b with ⟨hnone, -⟩ | ⟨_, pprev, hashProof, pos, modifier, hcall, rfl, -, hprev, -⟩
    · rw [hnone] at hc
      exact absurd hc List.not_mem_nil
    · rw [hcall] at hc
      have hp := h.pathIn_newEntry pos hashProof modifier hin hprev
      exact setBestChainChanges_exact hS (h.insertEntry hp) hp c hc

/-- The transactions of a run. -/
def runTxs (g : CBlockIndex) (events : List NodeEvent) : Set CTransaction :=
  {tx | tx ∈ g.block.vtx ∨ ∃ event ∈ events, tx ∈ event.txs}

/-- **What the changes of the best chain leave in the memory pool**, in a run of whose
transactions the hash is sound: those by `Reorganize` leave no conflict with the blocks
connected, and those by `SetBestChainInner` do exactly if there was none with a transaction of the pool that
is not in the block. Exactly then the two paths leave the same pool. -/
theorem changes_purged_iff (params : CChainParams) (g : CBlockIndex) (wallets : W) (events : List NodeEvent)
    (hS : HashSound (runTxs g events)) (n : ℕ) (event : NodeEvent) (hev : events[n]? = some event) :
    ∀ c ∈ ((Node.genesis g wallets).run params (events.take n)).changes params event,
      (c.after.Purged c.vtx ↔ c.Unopposed) ∧
        (c.reorganized = false → (c.vtx.Pairwise fun tx tx' => ∀ o, tx.Claims o → ¬tx'.Claims o) →
          (c.after.txs = (c.before.purgeConflicts c.vtx).txs ↔ c.Unopposed)) := by
  have hin : ∀ e ∈ events, ∀ tx ∈ e.txs, tx ∈ runTxs g events := fun e he tx htx => .inr ⟨e, he, htx⟩
  have hok : ((Node.genesis g wallets).run params (events.take n)).PoolOk (runTxs g events) :=
    run_induct (I := fun node : Node W => node.PoolOk (runTxs g events))
      (fun e he node h => h.step hS (hin e (List.mem_of_mem_take he))) (genesis_poolOk (fun tx htx => .inl htx) wallets)
  intro c hc
  have hexact := changes_exact hS hok (hin event (List.mem_of_getElem? hev)) c hc
  exact ⟨hexact.purged_iff, hexact.same_iff⟩

end Changes

/-! ### A block that spends what the pool spends -/

namespace Sample

/-- A block on top of the tower that has the second payment. -/
def rivalBlock : CBlock := block (tower 9) 11 [coinbase 11 2, payment']

/-- The tower, then the first payment to the pool, then the block. -/
def purgeEvents : List NodeEvent :=
  ((List.range 10).map fun i => .block (acceptEnv (UInt32.ofNat (1000 * (i + 1))) true) (tower i)) ++
    [.tx memPoolEnv payment false false false, .block (acceptEnv 11000 true) rivalBlock]

/-- The changes of the best chain that the block makes. -/
def rivalChanges : List PoolChange :=
  ((Node.genesis genesis ()).run CChainParams.test (purgeEvents.take 11)).changes CChainParams.test
    (.block (acceptEnv 11000 true) rivalBlock)

theorem exists_rivalChange : ∃ c ∈ rivalChanges, c.reorganized = false ∧ c.vtx = rivalBlock.vtx ∧
    payment ∈ c.after.txs ∧ payment ∉ (c.before.purgeConflicts c.vtx).txs := by
  have hfacts : rivalChanges.head?.map (fun c => (c.reorganized, c.vtx, c.after.lookup payment.getHash,
      (c.before.purgeConflicts c.vtx).lookup payment.getHash)) = some (false, rivalBlock.vtx, some payment, none) := by
    decide +kernel
  obtain ⟨c, hc, hfacts⟩ := Option.map_eq_some_iff.1 hfacts
  simp only [Prod.mk.injEq] at hfacts
  obtain ⟨hreorg, hvtx, hafter, hpurged⟩ := hfacts
  refine ⟨c, List.mem_of_head? hc, hreorg, hvtx, hafter, fun hmem => ?_⟩
  rw [CTxMemPool.mem_txs_iff, hpurged] at hmem
  cases hmem

/-- **A conflict stays in the pool**: the block is connected, and the payment that it makes
impossible is still there. `Reorganize` would have removed it. -/
theorem rival_stays : ∃ c ∈ rivalChanges, ¬c.after.Purged c.vtx ∧
    c.after.txs ≠ (c.before.purgeConflicts c.vtx).txs := by
  have hclaims : payment'.Claims ⟨paid.getHash, 0⟩ ∧ payment.Claims ⟨paid.getHash, 0⟩ := by decide
  obtain ⟨c, hc, -, hvtx, hstays, hgone⟩ := exists_rivalChange
  refine ⟨c, hc, fun hpurged => ?_, fun heq => hgone (heq ▸ hstays)⟩
  rw [hvtx] at hpurged
  exact hpurged payment hstays payment' (by simp [rivalBlock, block]) _ hclaims.1 hclaims.2

/-- The payment was in the way of the block. -/
theorem rival_opposed : ∃ c ∈ rivalChanges, ¬c.Unopposed := by
  have hfacts : ∀ a ∈ genesisBlock.vtx ++ purgeEvents.flatMap NodeEvent.txs,
      ∀ b ∈ genesisBlock.vtx ++ purgeEvents.flatMap NodeEvent.txs,
        (a.getHash = b.getHash → a = b) ∧ (Spends a b → a.nTime.toNat < b.nTime.toNat) := by decide
  have hS : HashSound (runTxs genesis purgeEvents) :=
    hashSound_of_rank (fun tx => tx.nTime.toNat)
      (fun tx htx => List.mem_append.2 (htx.imp_right fun h => List.mem_flatMap.2 h)) hfacts
  have hclaims : payment'.Claims ⟨paid.getHash, 0⟩ ∧ payment.Claims ⟨paid.getHash, 0⟩ := by decide
  obtain ⟨c, hc, -, hvtx, hstays, -⟩ := exists_rivalChange
  refine ⟨c, hc, fun hfree => ?_⟩
  have hpurged := ((changes_purged_iff CChainParams.test genesis () purgeEvents hS 11 _ rfl c hc).1).2 hfree
  rw [hvtx] at hpurged
  exact hpurged payment hstays payment' (by simp [rivalBlock, block]) _ hclaims.1 hclaims.2

end Sample

end PayDayCoin
