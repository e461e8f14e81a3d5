import PayDayCoin.MemPoolPurge
import PayDayCoin.OrphanTxs
import Mathlib.Data.Finset.Sort

/-!
# Transactions on top of unconfirmed ones

`FetchInputs` finds the transaction that an input spends from in the chain or in the memory pool, and the resurrection
of `Reorganize` and the work queue of `ProcessMessage` count on `AcceptToMemoryPool` to take a transaction on top of one
in the pool. It does not: it asks the database for each of them first. A transaction that meets every rule and whose
inputs are unspent outputs of the chain or of the pool gets in exactly when all that it spends from is in the chain
(**`acceptable_iff`**). So a disconnected transaction on top of another one is lost, and the work queue accepts nothing:
what an orphan waits for has just been put into the pool, and is not in the chain.
-/

namespace PayDayCoin

open Library.Checks Library.Overlay Library.SortedMaps Library.InverseIndex Library.Descendants

namespace CTransaction

variable [Crypto]

/-! ### Inputs -/

/-- The record and the transaction of a hash: those of the chain, else those of the pool. -/
def prevTx (disk : DiskEnv) (T : TxMap) (pool : CTxMemPool) (tx : CTransaction) (hash : Uint256) :
    Option (CTxIndex × CTransaction) :=
  match T hash with
  | some txindex => (disk.readTx tx.getHash txindex.pos).map fun txPrev => (txindex, txPrev)
  | none => (pool.lookup hash).map fun txPrev => (CTxIndex.new CDiskTxPos.null txPrev.vout.length, txPrev)

/-- The records and the transactions that the inputs of a transaction spend from. -/
def prevInputs (disk : DiskEnv) (T : TxMap) (pool : CTxMemPool) (tx : CTransaction) : MapPrevTx := fun hash =>
  if (OrphanTxs.parents tx).contains hash then prevTx disk T pool tx hash else none

/-- An input spends an output, of the chain or of the pool, that nothing of the chain or of the pool has spent. What the
database has of it can be read. -/
structure Unspent (disk : DiskEnv) (T : TxMap) (pool : CTxMemPool) (tx : CTransaction) (txin : CTxIn) : Prop where
  readable : disk.readTxIndexOk tx.getHash txin.prevout = true
  stored : ∀ txindex, T txin.prevout.hash = some txindex → txindex.pos ≠ CDiskTxPos.memory
  output : ∃ txindex txPrev, prevTx disk T pool tx txin.prevout.hash = some (txindex, txPrev) ∧
    txin.prevout.n.toNat < txPrev.vout.length ∧ txindex.vSpent[txin.prevout.n.toNat]? = some CDiskTxPos.null
  unclaimed : pool.mapNextTx txin.prevout = none

variable {disk : DiskEnv} {T : TxMap} {pool : CTxMemPool} {tx : CTransaction}

theorem Unspent.fetchInput {txin : CTxIn} (h : Unspent disk T pool tx txin) (inputsRet : MapPrevTx) :
    fetchInput disk pool.lookup T Caller.mempool nothing tx inputsRet txin =
      .ok (if (inputsRet txin.prevout.hash).isSome then inputsRet
        else Function.update inputsRet txin.prevout.hash (prevTx disk T pool tx txin.prevout.hash)) := by
  obtain ⟨txindex, txPrev, hprev, -, -⟩ := h.output
  have hfind : findTxIndex disk T Caller.mempool nothing tx txin.prevout = T txin.prevout.hash := by
    simp [findTxIndex, Caller.pending, Caller.mempool, DiskEnv.readTxIndex, h.readable]
  rw [CTransaction.fetchInput]
  split
  · rfl
  · rw [hfind]
    cases hT : T txin.prevout.hash with
    | some txindex' =>
      have hpos := h.stored txindex' hT
      rw [prevTx, hT] at hprev ⊢
      obtain ⟨txPrev', hread, -⟩ := Option.map_eq_some_iff.1 hprev
      simp [readPrevTx, hpos, hread, orReject, bind, Except.bind, pure, Except.pure]
    | none =>
      rw [prevTx, hT] at hprev ⊢
      obtain ⟨txPrev', hlookup, -⟩ := Option.map_eq_some_iff.1 hprev
      simp [Caller.pending, Caller.mempool, hlookup, orReject, bind, Except.bind, pure, Except.pure]

theorem foldlM_fetchInput {vin : List CTxIn} (h : ∀ txin ∈ vin, Unspent disk T pool tx txin) :
    ∀ inputsRet : MapPrevTx, vin.foldlM (fetchInput disk pool.lookup T Caller.mempool nothing tx) inputsRet =
      .ok fun hash => if (inputsRet hash).isSome then inputsRet hash
        else if hash ∈ vin.map (fun txin => txin.prevout.hash) then prevTx disk T pool tx hash else none := by
  induction vin with
  | nil =>
    intro inputsRet
    simp only [List.foldlM_nil, List.map_nil, List.not_mem_nil, if_false]
    refine congrArg Except.ok (funext fun hash => ?_)
    cases inputsRet hash <;> rfl
  | cons txin vin ih =>
    intro inputsRet
    have hin := h txin List.mem_cons_self
    obtain ⟨txindex, txPrev, hprev, -, -⟩ := hin.output
    rw [List.foldlM_cons, hin.fetchInput]
    refine (ih (fun t ht => h t (List.mem_cons_of_mem _ ht)) _).trans (congrArg Except.ok (funext fun hash => ?_))
    simp only [List.map_cons, List.mem_cons]
    by_cases hsome : (inputsRet txin.prevout.hash).isSome
    · rw [if_pos hsome]
      by_cases heq : hash = txin.prevout.hash
      · simp [heq, hsome]
      · simp [heq]
    · rw [if_neg hsome]
      by_cases heq : hash = txin.prevout.hash
      · subst heq
        simp [hprev, hsome]
      · simp [heq]

/-- `FetchInputs` finds what is unspent, in the pool too. -/
theorem fetchInputs_eq (hbase : tx.isCoinBase = false) (h : ∀ txin ∈ tx.vin, Unspent disk T pool tx txin) :
    tx.fetchInputs disk pool.lookup T Caller.mempool nothing = .ok (prevInputs disk T pool tx) := by
  have hrange : forM tx.vin (checkPrevoutRange (prevInputs disk T pool tx)) = .ok () := by
    refine forM_eq_ok.2 fun txin hin => ?_
    obtain ⟨txindex, txPrev, hprev, hlt, hspent⟩ := (h txin hin).output
    have hlt' := (List.getElem?_eq_some_iff.1 hspent).1
    have hfound : prevInputs disk T pool tx txin.prevout.hash = some (txindex, txPrev) := by
      rw [prevInputs, if_pos (List.contains_iff_mem.2 (OrphanTxs.mem_parents.2 ⟨txin, hin, rfl⟩)), hprev]
    simp [checkPrevoutRange, hfound, orReject, bind, Except.bind, hlt, hlt', rejectIf]
  have hprevInputs : prevInputs disk T pool tx = fun hash =>
      if hash ∈ tx.vin.map (fun txin => txin.prevout.hash) then prevTx disk T pool tx hash else none := by
    funext hash
    simp only [prevInputs, OrphanTxs.parents, List.contains_iff_mem]
  have hfold := foldlM_fetchInput h fun _ => none
  simp only [Option.isSome_none, Bool.false_eq_true, if_false, ← hprevInputs] at hfold
  rw [fetchInputs, if_neg (by simp [hbase])]
  exact bind_eq_ok.2 ⟨prevInputs disk T pool tx, hfold, bind_eq_ok.2 ⟨(), hrange, rfl⟩⟩

/-! ### AcceptToMemoryPool -/

/-- All that a transaction spends from is in the chain. -/
def ParentsInChain (T : TxMap) (tx : CTransaction) : Prop := ∀ txin ∈ tx.vin, (T txin.prevout.hash).isSome = true

variable (params : CChainParams) (env : MemPoolEnv) (g : BestChain) (T : TxMap) (pool : CTxMemPool)
  (tx : CTransaction) (fLimitFree fRejectInsaneFee ignoreFees : Bool)

/-- A loose transaction that is new, whose inputs are unspent outputs of the chain or of the pool, and that meets the
rules: it is well formed and standard, pays its fee, and its inputs can be connected. -/
structure Acceptable : Prop where
  checked : tx.checkTransaction = .ok ()
  loose : tx.isCoinBase = false ∧ tx.isCoinStake = false
  standard : params.testNet = true ∨
    env.isStandardTx tx = true ∧ env.areInputsStandard tx (prevInputs env.disk T pool tx) = true
  new : pool.lookup tx.getHash = none ∧ T tx.getHash = none
  unlocked : tx.conflictsWithLock env.mapLockedInputs = false
  unspent : ∀ txin ∈ tx.vin, Unspent env.disk T pool tx txin
  sigOps : ∃ nSigOps, tx.getP2SHSigOpCount (prevInputs env.disk T pool tx) = .ok nSigOps ∧
    tx.getLegacySigOpCount + nSigOps ≤ MAX_TX_SIGOPS
  fees : ∃ nValueIn nValueOut, tx.getValueIn (prevInputs env.disk T pool tx) = .ok nValueIn ∧
    tx.getValueOut = .ok nValueOut ∧
      tx.checkMemPoolFees env (nValueIn - nValueOut) fLimitFree fRejectInsaneFee ignoreFees = .ok ()
  connected : ∀ flags ∈ [CScript.STANDARD_SCRIPT_VERIFY_FLAGS, CScript.MANDATORY_SCRIPT_VERIFY_FLAGS],
    ∃ connected, tx.connectInputs params Caller.mempool g env.ibd (prevInputs env.disk T pool tx) nothing
      CDiskTxPos.memory g.pindexBest flags true = .ok connected

variable {params env g T pool tx fLimitFree fRejectInsaneFee ignoreFees}

/-- What is accepted spends from the chain only. -/
theorem parentsInChain_of_accepted {pool' : CTxMemPool}
    (h : tx.acceptToMemoryPool params env g T pool fLimitFree fRejectInsaneFee ignoreFees = .ok pool') :
    T tx.getHash = none ∧ ParentsInChain T tx := by
  simp only [acceptToMemoryPool, bind_eq_ok, rejectIf_eq_ok, mapError_eq_ok, pure_eq_ok] at h
  obtain ⟨-, -, -, -, -, -, -, -, -, -, -, -, -, -, -, hnew, -, hparents, -⟩ := h
  refine ⟨by simpa using hnew, fun txin hin => ?_⟩
  exact Option.isSome_iff_ne_none.2 (by simpa using List.any_eq_false.1 hparents txin hin)

/-- A transaction that meets the rules is accepted exactly when all that it spends from is in the chain. -/
theorem Acceptable.accepted_iff (h : Acceptable params env g T pool tx fLimitFree fRejectInsaneFee ignoreFees) :
    tx.acceptToMemoryPool params env g T pool fLimitFree fRejectInsaneFee ignoreFees =
      .ok (pool.addUnchecked tx.getHash tx) ↔ ParentsInChain T tx := by
  refine ⟨fun hok => (parentsInChain_of_accepted hok).2, fun hparents => ?_⟩
  obtain ⟨nSigOps, hsig, hsig_le⟩ := h.sigOps
  obtain ⟨nValueIn, nValueOut, hin, hout, hfees⟩ := h.fees
  obtain ⟨r, hr⟩ := h.connected CScript.STANDARD_SCRIPT_VERIFY_FLAGS List.mem_cons_self
  obtain ⟨r', hr'⟩ := h.connected CScript.MANDATORY_SCRIPT_VERIFY_FLAGS (List.mem_cons_of_mem _ List.mem_cons_self)
  have hfree : (tx.vin.any fun txin => (pool.mapNextTx txin.prevout).isSome) = false :=
    List.any_eq_false.2 fun txin hin => by simp [(h.unspent txin hin).unclaimed]
  have hfound : (tx.vin.any fun txin => (T txin.prevout.hash).isNone) = false :=
    List.any_eq_false.2 fun txin hin => by simp [Option.isSome_iff_ne_none.1 (hparents txin hin)]
  have hstd : (!params.testNet && !env.isStandardTx tx) = false ∧
      (!params.testNet && !env.areInputsStandard tx (prevInputs env.disk T pool tx)) = false := by
    rcases h.standard with htest | ⟨hstd, hins⟩
    · simp [htest]
    · simp [hstd, hins]
  simp only [acceptToMemoryPool, bind_eq_ok, rejectIf_eq_ok, mapError_eq_ok, pure_eq_ok, decide_eq_false_iff_not, not_lt]
  exact ⟨(), h.checked, (), h.loose.1, (), h.loose.2, (), hstd.1, (), by rw [h.new.1]; rfl, (), h.unlocked, (), hfree,
    (), by rw [h.new.2]; rfl, (), hfound, _, fetchInputs_eq h.loose.1 h.unspent, (), hstd.2, nSigOps, hsig, (), hsig_le,
    nValueIn, hin, nValueOut, hout, (), hfees, r, hr, r', hr', trivial⟩

end CTransaction

/-! ### Reorganize -/

section Reorganize

variable [Crypto]

/-- The pool after a turn of the loop of `Reorganize` over `vResurrect`. -/
def resurrectPool (params : CChainParams) (env : ChainEnv) (g : BestChain) (T : TxMap) (pool : CTxMemPool)
    (tx : CTransaction) : CTxMemPool :=
  match tx.acceptToMemoryPool params (env.resurrect tx.getHash) g T pool false false false with
  | .error _ => pool
  | .ok pool => pool

variable {params : CChainParams} {env : ChainEnv} {g : BestChain} {T : TxMap} {pool : CTxMemPool}
  {tx t : CTransaction} {S : Set CTransaction}

/-- The transactions of a pool are among its entries. -/
theorem CTxMemPool.mem_of_entries {l : List CTransaction} (h : pool.mapTx.entries.map Sigma.snd = l)
    (ht : t ∈ pool.txs) : t ∈ l :=
  h ▸ List.mem_map.2 ⟨⟨t.getHash, t⟩, AList.mem_lookup_iff.1 ht, rfl⟩

/-- The memory pool of a run matches. -/
theorem run_poolOk {W : Type} [CWalletInterface W] (params : CChainParams) (genesis : CBlockIndex) (wallets : W)
    (events : List NodeEvent) (hS : HashSound (runTxs genesis events)) :
    ((Node.genesis genesis wallets).run params events).PoolOk (runTxs genesis events) :=
  Library.Runs.run_induct (I := fun node : Node W => node.PoolOk (runTxs genesis events))
    (fun e he _ h => h.step hS fun _ htx => .inr ⟨e, he, htx⟩) (genesis_poolOk (fun _ htx => .inl htx) wallets)

theorem mempool_foldl_resurrectTx {W : Type} [CWalletInterface W] (l : List CTransaction) : ∀ node : Node W,
    (l.foldl (resurrectTx params env) node).mempool =
      l.foldl (resurrectPool params env node.best node.db.txIndex) node.mempool := by
  induction l with
  | nil => exact fun node => rfl
  | cons tx l ih =>
    intro node
    rw [List.foldl_cons, List.foldl_cons, ih, resurrectTx, resurrectPool]
    cases tx.acceptToMemoryPool params (env.resurrect tx.getHash) node.best node.db.txIndex node.mempool
      false false false <;> rfl

/-- A turn of the loop leaves what is there, and adds a transaction that is accepted. -/
theorem mem_resurrectPool_iff : t ∈ (resurrectPool params env g T pool tx).txs ↔ t ∈ pool.txs ∨
    t = tx ∧ ∃ pool', tx.acceptToMemoryPool params (env.resurrect tx.getHash) g T pool false false false = .ok pool' := by
  rw [resurrectPool]
  split
  · next herr => simp [herr]
  · next hok =>
    obtain ⟨-, hnew, -, rfl⟩ := CTxMemPool.acceptToMemoryPool_eq_ok hok
    rw [CTxMemPool.mem_txs_iff, CTxMemPool.mem_txs_iff, CTxMemPool.lookup_addUnchecked]
    constructor
    · intro h
      split at h
      · exact .inr ⟨(Option.some.inj h).symm, _, hok⟩
      · exact .inl h
    · rintro (ht | ⟨rfl, -⟩)
      · rw [if_neg, ht]
        intro heq
        rw [heq, hnew] at ht
        cases ht
      · exact if_pos rfl

/-- The parents of what is added are in the chain. -/
theorem mem_resurrectPool (h : t ∈ (resurrectPool params env g T pool tx).txs) :
    t ∈ pool.txs ∨ CTransaction.ParentsInChain T t := by
  rcases mem_resurrectPool_iff.1 h with h | ⟨rfl, pool', hok⟩
  · exact .inl h
  · exact .inr (CTransaction.parentsInChain_of_accepted hok).2

theorem subset_resurrectPool : pool.txs ⊆ (resurrectPool params env g T pool tx).txs :=
  fun _ ht => mem_resurrectPool_iff.2 (.inl ht)

theorem mem_foldl_resurrectPool {l : List CTransaction} : ∀ {pool : CTxMemPool},
    t ∈ (l.foldl (resurrectPool params env g T) pool).txs → t ∈ pool.txs ∨ CTransaction.ParentsInChain T t := by
  induction l with
  | nil => exact fun h => .inl h
  | cons tx l ih => exact fun h => (ih h).elim mem_resurrectPool .inr

theorem subset_foldl_resurrectPool (l : List CTransaction) : ∀ {pool : CTxMemPool},
    pool.txs ⊆ (l.foldl (resurrectPool params env g T) pool).txs := by
  induction l with
  | nil => exact fun {_} => subset_rfl
  | cons tx l ih => exact fun {_} => subset_resurrectPool.trans ih

/-- A transaction that meets the rules at its turn is put back exactly when all that it spends from is in the chain. -/
theorem mem_resurrected_iff {before after : List CTransaction}
    (h : CTransaction.Acceptable params (env.resurrect tx.getHash) g T
      (before.foldl (resurrectPool params env g T) pool) tx false false false) :
    tx ∈ ((before ++ tx :: after).foldl (resurrectPool params env g T) pool).txs ↔
      CTransaction.ParentsInChain T tx := by
  rw [List.foldl_append]
  refine ⟨fun hmem => (mem_foldl_resurrectPool hmem).resolve_left fun hold => ?_, fun hparents => ?_⟩
  · rw [CTxMemPool.mem_txs_iff, h.new.1] at hold
    cases hold
  · exact subset_foldl_resurrectPool after (mem_resurrectPool_iff.2 (.inr ⟨rfl, _, h.accepted_iff.2 hparents⟩))

/-- The transactions of some blocks do not overrule a transaction of the pool: it is not one of them, and they spend
nothing that it or an unconfirmed transaction below it spends. -/
def NotOverruled (pool : CTxMemPool) (vtx : List CTransaction) (tx : CTransaction) : Prop :=
  tx ∉ vtx ∧ ∀ a ∈ pool.txs, Desc Spends pool.txs a tx → ∀ x ∈ vtx, ∀ o, x.Claims o → a.Claims o → a = x

/-- The loop of `Reorganize` over `vDelete` leaves what is not overruled. -/
theorem mem_purgeConflicts (hS : HashSound S) {vtx : List CTransaction} (hvtx : ∀ x ∈ vtx, x ∈ S) :
    ∀ {pool : CTxMemPool}, pool.Matched → pool.txs ⊆ S → tx ∈ pool.txs → NotOverruled pool vtx tx →
      tx ∈ (pool.purgeConflicts vtx).txs := by
  induction vtx with
  | nil => exact fun _ _ htx _ => htx
  | cons x vtx ih =>
    intro pool hm hsub htx ⟨hnot, hfree⟩
    obtain ⟨hx, hvtx⟩ := List.forall_mem_cons.1 hvtx
    obtain ⟨hne, hnot⟩ := not_or.1 (List.mem_cons.not.1 hnot)
    obtain ⟨hm', htxs⟩ := hm.purgeConflict hS hx hsub
    have hsmaller : ((pool.remove x false).removeConflicts x).txs ⊆ pool.txs := by
      rw [htxs]
      exact prune_subset.trans Set.sdiff_subset
    refine ih hvtx hm' (hsmaller.trans hsub) ?_ ⟨hnot, fun a ha hd y hy => ?_⟩
    · rw [htxs]
      refine ⟨⟨htx, hne⟩, fun a ha has hd => ?_⟩
      obtain ⟨hne, txin, hin, hc⟩ := ha
      exact hne (hfree a has.1 (hd.mono Set.sdiff_subset) x List.mem_cons_self _ ⟨txin, hin, rfl⟩ hc)
    · exact hfree a (hsmaller ha) (hd.mono hsmaller) y (List.mem_cons_of_mem _ hy)

/-- After a `Reorganize`, a disconnected transaction that is still valid is back in the pool exactly when all that it
spends from is in the chain. -/
theorem mem_reorganize_iff {W : Type} [CWalletInterface W] {node node' : Node W} {path pfork : PIndex}
    {before after : List CTransaction} (hS : HashSound S) (h : node.PoolOk S) (hp : PathIn S path)
    (hok : reorganize params env node path = (node', none))
    (hfork : PIndex.findFork node.best.pindexBest path = some pfork)
    (hres : resurrectTxs params (PIndex.branch pfork node.best.pindexBest) = before ++ tx :: after)
    (hvalid : CTransaction.Acceptable params (env.resurrect tx.getHash) node.best node'.db.txIndex
      (before.foldl (resurrectPool params env node.best node'.db.txIndex) node.mempool) tx false false false)
    (hfree : NotOverruled ((before ++ tx :: after).foldl (resurrectPool params env node.best node'.db.txIndex)
      node.mempool) (branchTxs (PIndex.branch pfork path).reverse) tx) :
    tx ∈ node'.mempool.txs ↔ CTransaction.ParentsInChain node'.db.txIndex tx := by
  rcases reorganize_cases params env node path with ⟨σ, e, hcase⟩ | ⟨f, σ₁, σ, hf, -, -, -, hcase⟩
  · rw [hcase] at hok
    cases hok
  rw [hcase, Prod.mk.injEq] at hok
  obtain ⟨rfl, -⟩ := hok
  obtain rfl := Option.some.inj (hf.symm.trans hfork)
  have hcon : ∀ x ∈ branchTxs (PIndex.branch f path).reverse, x ∈ S :=
    branchTxs_subset fun pindex hmem => hp.suffix (mem_branch f (List.mem_reverse.1 hmem))
  have hdis : ∀ x ∈ resurrectTxs params (PIndex.branch f node.best.pindexBest), x ∈ S := by
    intro x hx
    refine branchTxs_subset (fun pindex hmem => ?_) x (List.mem_filter.1 hx).1
    exact h.best.suffix (mem_branch f (List.mem_reverse.1 (List.mem_filter.1 hmem).1))
  obtain ⟨hm, htxs⟩ := foldl_resurrectTx_matched params env hdis
    { node.commit σ path.getBlockHash with
      pnext := (PIndex.branch f path).reverse.foldl linkPrev
        ((PIndex.branch f node.best.pindexBest).foldl unlinkPrev node.pnext) } ⟨h.matched, h.txs⟩
  rw [mempool_foldl_resurrectTx, hres] at hm htxs
  have hpool : (finishReorganize params env (PIndex.branch f node.best.pindexBest) (PIndex.branch f path).reverse
      (node.commit σ path.getBlockHash)).mempool =
      ((before ++ tx :: after).foldl (resurrectPool params env node.best (node.commit σ path.getBlockHash).db.txIndex)
        node.mempool).purgeConflicts (branchTxs (PIndex.branch f path).reverse) := by
    rw [← hres]
    exact congrArg (CTxMemPool.purgeConflicts · _) (mempool_foldl_resurrectTx _ _)
  have hdb : (finishReorganize params env (PIndex.branch f node.best.pindexBest) (PIndex.branch f path).reverse
      (node.commit σ path.getBlockHash)).db.txIndex = (node.commit σ path.getBlockHash).db.txIndex := by
    obtain ⟨pool, w, heq⟩ := finishReorganize_eq params env (PIndex.branch f node.best.pindexBest)
      (PIndex.branch f path).reverse (node.commit σ path.getBlockHash)
    rw [heq]
  rw [hdb] at hvalid hfree ⊢
  rw [hpool]
  refine ⟨fun hmem => ?_, fun hparents => ?_⟩
  · exact (mem_resurrected_iff hvalid).1 ((hm.purgeConflicts hS hcon htxs).2.1 hmem).1
  · exact mem_purgeConflicts hS hcon hm htxs ((mem_resurrected_iff hvalid).2 hparents) hfree

end Reorganize

/-! ### The work queue of ProcessMessage -/

/-- What the work queue of `ProcessMessage` changes. -/
structure OrphanWork where
  pool : CTxMemPool
  vWorkQueue : List Uint256
  vEraseQueue : List Uint256 := []

namespace OrphanTxs

section WorkQueue

variable [Crypto] (params : CChainParams) (env : Uint256 → Uint256 → MemPoolEnv) (g : BestChain) (T : TxMap)

/-- The checks of `AcceptToMemoryPool` before it asks whether all inputs exist. -/
def checksBeforeInputs (env : MemPoolEnv) (pool : CTxMemPool) (tx : CTransaction) : Bool :=
  tx.checkTransaction.isOk && !tx.isCoinBase && !tx.isCoinStake && (params.testNet || env.isStandardTx tx) &&
    (pool.lookup tx.getHash).isNone && !tx.conflictsWithLock env.mapLockedInputs &&
      !(tx.vin.any fun txin => (pool.mapNextTx txin.prevout).isSome) && (T tx.getHash).isNone

/-- What `AcceptToMemoryPool` sets `pfMissingInputs` to. -/
def missingInputs (env : MemPoolEnv) (pool : CTxMemPool) (tx : CTransaction) : Bool :=
  checksBeforeInputs params T env pool tx && tx.vin.any fun txin => (T txin.prevout.hash).isNone

/-- A turn of the inner loop: `AcceptToMemoryPool` of an orphan that spends from `hash`. -/
def tryOrphan (s : OrphanTxs) (hash : Uint256) (w : OrphanWork) (orphanTxHash : Uint256) : OrphanWork :=
  let orphanTx := (get? s.mapOrphanTransactions orphanTxHash).getD default
  match orphanTx.acceptToMemoryPool params (env hash orphanTxHash) g T w.pool true false false with
  | .ok pool =>
    { pool := pool, vWorkQueue := w.vWorkQueue ++ [orphanTxHash], vEraseQueue := w.vEraseQueue ++ [orphanTxHash] }
  | .error _ =>
    if missingInputs params T (env hash orphanTxHash) w.pool orphanTx then w
    else { w with vEraseQueue := w.vEraseQueue ++ [orphanTxHash] }

/-- The loop over `vWorkQueue`, from its position `i`; `fuel` bounds the number of turns. -/
def workLoop (s : OrphanTxs) : ℕ → ℕ → OrphanWork → OrphanWork
  | 0, _, w => w
  | fuel + 1, i, w =>
    match w.vWorkQueue[i]? with
    | none => w
    | some hash =>
      workLoop s fuel (i + 1)
        (((keysOf s.mapOrphanTransactionsByPrev hash).sort (· ≤ ·)).foldl (tryOrphan params env g T s hash) w)

/-- The work queue for a transaction that has been accepted. Only an orphan that is accepted prolongs it, and no orphan
is accepted twice. -/
def workQueue (s : OrphanTxs) (pool : CTxMemPool) (hash : Uint256) : OrphanWork :=
  workLoop params env g T s (s.mapOrphanTransactions.length + 2) 0 { pool := pool, vWorkQueue := [hash] }

variable {params env g T} {s : OrphanTxs} {hash t : Uint256} {pool : CTxMemPool}

/-- An orphan that meets the rules but for its parent lacks inputs. -/
theorem missingInputs_of_acceptable {env : MemPoolEnv} {tx : CTransaction} {fLimitFree fRejectInsaneFee ignoreFees : Bool}
    (h : tx.Acceptable params env g T pool fLimitFree fRejectInsaneFee ignoreFees) (hnew : T hash = none)
    (hparent : hash ∈ parents tx) : missingInputs params T env pool tx = true := by
  obtain ⟨txin, hin, hprev⟩ := mem_parents.1 hparent
  have hstd : (params.testNet || env.isStandardTx tx) = true := by
    rcases h.standard with htest | ⟨hstd, -⟩
    · simp [htest]
    · simp [hstd]
  have hfree : (tx.vin.any fun txin => (pool.mapNextTx txin.prevout).isSome) = false :=
    List.any_eq_false.2 fun txin hin => by simp [(h.unspent txin hin).unclaimed]
  have hmissing : (tx.vin.any fun txin => (T txin.prevout.hash).isNone) = true :=
    List.any_eq_true.2 ⟨txin, hin, by rw [hprev, hnew]; rfl⟩
  simp [missingInputs, checksBeforeInputs, h.checked, h.loose.1, h.loose.2, hstd, h.new.1, h.new.2, h.unlocked, hfree,
    hmissing, Except.isOk, Except.toBool]

/-- A turn of the inner loop for a transaction that is not in the chain accepts nothing, and queues an orphan to be
erased only if it does not meet the rules. -/
theorem Indexed.tryOrphan_eq (h : Indexed s) (hnew : T hash = none) (w : OrphanWork)
    (ht : t ∈ keysOf s.mapOrphanTransactionsByPrev hash) :
    (tryOrphan params env g T s hash w t).pool = w.pool ∧
      (tryOrphan params env g T s hash w t).vWorkQueue = w.vWorkQueue ∧
      ∀ u ∈ (tryOrphan params env g T s hash w t).vEraseQueue, u ∈ w.vEraseQueue ∨
        ∃ tx, get? s.mapOrphanTransactions u = some tx ∧ hash ∈ parents tx ∧
          ¬tx.Acceptable params (env hash u) g T w.pool true false false := by
  obtain ⟨tx, htx, hparent⟩ := (h.exact_ hash t).1 ht
  obtain ⟨txin, hin, hprev⟩ := mem_parents.1 hparent
  rw [tryOrphan]
  simp only [htx, Option.getD_some]
  split
  · next hok =>
    have hsome := (CTransaction.parentsInChain_of_accepted hok).2 txin hin
    rw [hprev, hnew] at hsome
    cases hsome
  · split
    · exact ⟨rfl, rfl, fun u hu => .inl hu⟩
    · next hmissing =>
      refine ⟨rfl, rfl, fun u hu => (List.mem_append.1 hu).imp_right fun hu => ?_⟩
      obtain rfl := List.mem_singleton.1 hu
      exact ⟨tx, htx, hparent, fun hacc => hmissing (missingInputs_of_acceptable hacc hnew hparent)⟩

variable (params env g) in
/-- A turn of the outer loop for a transaction that is not in the chain accepts nothing, and erases no orphan that meets
the rules but for its parent. -/
theorem Indexed.foldl_tryOrphan (h : Indexed s) (hnew : T hash = none) :
    ∀ (l : List Uint256) (w : OrphanWork), (∀ t ∈ l, t ∈ keysOf s.mapOrphanTransactionsByPrev hash) →
      (l.foldl (tryOrphan params env g T s hash) w).pool = w.pool ∧
      (l.foldl (tryOrphan params env g T s hash) w).vWorkQueue = w.vWorkQueue ∧
      ∀ t ∈ (l.foldl (tryOrphan params env g T s hash) w).vEraseQueue, t ∈ w.vEraseQueue ∨
        ∃ tx, get? s.mapOrphanTransactions t = some tx ∧ hash ∈ parents tx ∧
          ¬tx.Acceptable params (env hash t) g T w.pool true false false := by
  intro l
  induction l with
  | nil => exact fun w _ => ⟨rfl, rfl, fun t ht => .inl ht⟩
  | cons t l ih =>
    intro w hl
    obtain ⟨hpool, hqueue, herase⟩ := h.tryOrphan_eq hnew w (hl t List.mem_cons_self)
    obtain ⟨ihpool, ihqueue, iherase⟩ := ih (tryOrphan params env g T s hash w t)
      fun t ht => hl t (List.mem_cons_of_mem _ ht)
    refine ⟨ihpool.trans hpool, ihqueue.trans hqueue, fun u hu => ?_⟩
    rcases iherase u hu with hu | hu
    · exact herase u hu
    · rw [hpool] at hu
      exact .inr hu

variable (params env g pool) in
/-- The work queue for a transaction that is not in the chain ends with that transaction, and accepts nothing. -/
theorem Indexed.workQueue_eq (h : Indexed s) (hnew : T hash = none) :
    (workQueue params env g T s pool hash).pool = pool ∧
      (workQueue params env g T s pool hash).vWorkQueue = [hash] ∧
      ∀ t ∈ (workQueue params env g T s pool hash).vEraseQueue,
        ∃ tx, get? s.mapOrphanTransactions t = some tx ∧ hash ∈ parents tx ∧
          ¬tx.Acceptable params (env hash t) g T pool true false false := by
  obtain ⟨hpool, hqueue, herase⟩ := h.foldl_tryOrphan params env g hnew
    ((keysOf s.mapOrphanTransactionsByPrev hash).sort (· ≤ ·)) { pool := pool, vWorkQueue := [hash] }
    fun t ht => (Finset.mem_sort _).1 ht
  rw [workQueue, workLoop]
  simp only [List.getElem?_cons_zero]
  rw [workLoop]
  simp only [hqueue, List.getElem?_cons_succ, List.getElem?_nil]
  exact ⟨hpool, trivial, fun t ht => (herase t ht).resolve_left List.not_mem_nil⟩

omit [Crypto] in
theorem get?_foldl_eraseOrphanTx {t : Uint256} : ∀ (l : List Uint256) (s : OrphanTxs), t ∉ l →
    get? (l.foldl eraseOrphanTx s).mapOrphanTransactions t = get? s.mapOrphanTransactions t := by
  intro l
  induction l with
  | nil => exact fun s _ => rfl
  | cons u l ih =>
    intro s ht
    rw [List.foldl_cons, ih _ fun hmem => ht (List.mem_cons_of_mem _ hmem), eraseOrphanTx]
    cases get? s.mapOrphanTransactions u with
    | none => rfl
    | some tx => exact (get?_erase _ _ _).trans (if_neg fun (heq : u = t) => ht (heq ▸ List.mem_cons_self))

end WorkQueue

end OrphanTxs

open scoped OrphanTxs in
/-- A transaction whose inputs are unspent outputs of the chain or of the pool and that meets the rules is accepted
exactly when all that it spends from is in the chain; so is a disconnected transaction that is still valid put back by
`Reorganize`; and an orphan that the work queue comes to is not accepted, for it spends from what is not in the chain.
It stays an orphan. -/
theorem acceptable_iff [Crypto] (params : CChainParams) :
    (∀ env g T pool (tx : CTransaction) fLimitFree fRejectInsaneFee ignoreFees,
      tx.Acceptable params env g T pool fLimitFree fRejectInsaneFee ignoreFees →
        (tx.acceptToMemoryPool params env g T pool fLimitFree fRejectInsaneFee ignoreFees =
          .ok (pool.addUnchecked tx.getHash tx) ↔ tx.ParentsInChain T)) ∧
    (∀ (W : Type) [CWalletInterface W] (env : ChainEnv) (S : Set CTransaction) (node node' : Node W) path pfork
      before tx after, HashSound S → node.PoolOk S → PathIn S path → reorganize params env node path = (node', none) →
      PIndex.findFork node.best.pindexBest path = some pfork →
      resurrectTxs params (PIndex.branch pfork node.best.pindexBest) = before ++ tx :: after →
      tx.Acceptable params (env.resurrect tx.getHash) node.best node'.db.txIndex
        (before.foldl (resurrectPool params env node.best node'.db.txIndex) node.mempool) false false false →
      NotOverruled ((before ++ tx :: after).foldl (resurrectPool params env node.best node'.db.txIndex) node.mempool)
        (branchTxs (PIndex.branch pfork path).reverse) tx →
        (tx ∈ node'.mempool.txs ↔ tx.ParentsInChain node'.db.txIndex)) ∧
    ∀ (s : OrphanTxs) env g T pool pool' (tx : CTransaction) ignoreFees
      (envs : Uint256 → Uint256 → MemPoolEnv) t (orphan : CTransaction),
      s.Indexed → tx.acceptToMemoryPool params env g T pool true false ignoreFees = .ok pool' →
      get? s.mapOrphanTransactions t = some orphan → tx.getHash ∈ OrphanTxs.parents orphan →
      orphan.Acceptable params (envs tx.getHash t) g T pool' true false false →
        (orphan ∈ (OrphanTxs.workQueue params envs g T s pool' tx.getHash).pool.txs ↔ orphan.ParentsInChain T) ∧
        ¬orphan.ParentsInChain T ∧
        get? ((OrphanTxs.workQueue params envs g T s pool' tx.getHash).vEraseQueue.foldl
          OrphanTxs.eraseOrphanTx s).mapOrphanTransactions t = some orphan := by
  refine ⟨fun _ _ _ _ _ _ _ _ h => h.accepted_iff, fun W _ env S node node' path pfork before tx after hS h hp hok
    hfork hres hvalid hfree => mem_reorganize_iff hS h hp hok hfork hres hvalid hfree, ?_⟩
  intro s env g T pool pool' tx ignoreFees envs t orphan hs hok ht hparent hacc
  have hnew := (CTransaction.parentsInChain_of_accepted hok).1
  obtain ⟨hpool, -, herase⟩ := hs.workQueue_eq params envs g pool' hnew
  have hnot : ¬orphan.ParentsInChain T := by
    intro hall
    obtain ⟨txin, hin, hprev⟩ := OrphanTxs.mem_parents.1 hparent
    have hsome := hall txin hin
    rw [hprev, hnew] at hsome
    cases hsome
  refine ⟨iff_of_false (fun hmem => ?_) hnot, hnot, ?_⟩
  · rw [hpool, CTxMemPool.mem_txs_iff, hacc.new.1] at hmem
    cases hmem
  · rw [OrphanTxs.get?_foldl_eraseOrphanTx _ _ fun hmem => ?_, ht]
    obtain ⟨o, ho, -, hbad⟩ := herase t hmem
    exact hbad (Option.some.inj (ho.symm.trans ht) ▸ hacc)

namespace Sample

/-- The pool with the payment. -/
def paidPool : CTxMemPool := ({} : CTxMemPool).addUnchecked payment.getHash payment

/-- What has to be evaluated to see that a transaction with one input is acceptable. -/
theorem acceptable_of {env : MemPoolEnv} {g : BestChain} {T : TxMap} {pool : CTxMemPool} {tx : CTransaction}
    {txin : CTxIn} {fLimitFree : Bool} (txPrev : CTransaction) (txindex : CTxIndex) (nValueIn nValueOut : ℤ)
    (hvin : tx.vin = [txin]) (hstored : ∀ txindex ∈ T txin.prevout.hash, txindex.pos ≠ CDiskTxPos.memory)
    (hunspent : env.disk.readTxIndexOk tx.getHash txin.prevout = true ∧
      tx.prevTx env.disk T pool txin.prevout.hash = some (txindex, txPrev) ∧
      txin.prevout.n.toNat < txPrev.vout.length ∧ txindex.vSpent[txin.prevout.n.toNat]? = some CDiskTxPos.null ∧
      pool.mapNextTx txin.prevout = none)
    (hrules : tx.checkTransaction = .ok () ∧ (tx.isCoinBase = false ∧ tx.isCoinStake = false) ∧
      (pool.lookup tx.getHash = none ∧ T tx.getHash = none) ∧ tx.conflictsWithLock env.mapLockedInputs = false ∧
      tx.getP2SHSigOpCount (tx.prevInputs env.disk T pool) = .ok 0 ∧ tx.getLegacySigOpCount + 0 ≤ MAX_TX_SIGOPS ∧
      tx.getValueIn (tx.prevInputs env.disk T pool) = .ok nValueIn ∧ tx.getValueOut = .ok nValueOut ∧
      tx.checkMemPoolFees env (nValueIn - nValueOut) fLimitFree false false = .ok ())
    (hconnected : [CScript.STANDARD_SCRIPT_VERIFY_FLAGS, CScript.MANDATORY_SCRIPT_VERIFY_FLAGS].all fun flags =>
      (tx.connectInputs CChainParams.test Caller.mempool g env.ibd (tx.prevInputs env.disk T pool)
        nothing CDiskTxPos.memory g.pindexBest flags true).isOk) :
    tx.Acceptable CChainParams.test env g T pool fLimitFree false false := by
  obtain ⟨hchecked, hloose, hnew, hlock, hsig, hsig_le, hin, hout, hfees⟩ := hrules
  obtain ⟨hreadable, hprev, hlt, hspent, hfree⟩ := hunspent
  refine ⟨hchecked, hloose, .inl rfl, hnew, hlock, fun txin' hmem => ?_, ⟨0, hsig, hsig_le⟩,
    ⟨nValueIn, nValueOut, hin, hout, hfees⟩, fun flags hflags =>
      exists_eq_ok_of_isOk (List.all_eq_true.1 hconnected flags hflags)⟩
  rw [hvin, List.mem_singleton] at hmem
  subst hmem
  exact ⟨hreadable, hstored, ⟨txindex, txPrev, hprev, hlt, hspent⟩, hfree⟩

/-- The payment spends from the chain and the change from the pool, and both meet the rules. -/
theorem both_acceptable :
    payment.Acceptable CChainParams.test poolEnv (node 0).best (poolIndex paid 1000) {} true false false ∧
    change.Acceptable CChainParams.test poolEnv (node 0).best (poolIndex paid 1000) paidPool true false false := by
  constructor
  · exact acceptable_of paid (.new ⟨1, 1000, 81⟩ 1) (10 * COIN) (9 * COIN) rfl (by decide) (by decide)
      (by decide) (by decide)
  · exact acceptable_of payment (.new CDiskTxPos.null 1) (9 * COIN) (8 * COIN) rfl (by decide)
      (by decide) (by decide) (by decide)

/-- `AcceptToMemoryPool` refuses the change on top of the payment. -/
theorem change_refused : payment ∈ paidPool.txs ∧
    change.Acceptable CChainParams.test poolEnv (node 0).best (poolIndex paid 1000) paidPool true false false ∧
    (change.acceptToMemoryPool CChainParams.test poolEnv (node 0).best (poolIndex paid 1000) paidPool
      true false false).isOk = false := by
  refine ⟨?_, both_acceptable.2, by decide⟩
  rw [CTxMemPool.mem_txs_iff]
  decide

/-- A block that takes the place of the one with the payment. -/
def without₂ : CBlock := block b₁ 2 [coinbase 2 3]

/-- Both come. -/
def forkEvents : List NodeEvent :=
  [.block (acceptEnv 1000 true) b₁, .block (acceptEnv 2000 true) b₂, .block (acceptEnv 3000 true) without₂]

/-- The node with the payment in its best chain. -/
def forked : Node Unit := (Node.genesis genesis ()).run CChainParams.test forkEvents

/-- The path of a block that the node knows. -/
def pathOf (b : CBlock) : PIndex := (forked.mapBlockIndex b.getHash).getD []

/-- `Reorganize` to the other block. -/
def back : Node Unit × Option Reject := reorganize CChainParams.test (acceptEnv 4000 true).chain forked (pathOf without₂)

theorem forked_poolOk : HashSound (runTxs genesis forkEvents) ∧ forked.PoolOk (runTxs genesis forkEvents) := by
  have hfacts : ∀ a ∈ genesisBlock.vtx ++ forkEvents.flatMap NodeEvent.txs,
      ∀ b ∈ genesisBlock.vtx ++ forkEvents.flatMap NodeEvent.txs,
        (a.getHash = b.getHash → a = b) ∧ (Spends a b → a.nTime.toNat < b.nTime.toNat) := by decide
  have hS : HashSound (runTxs genesis forkEvents) :=
    hashSound_of_rank (fun tx => tx.nTime.toNat)
      (fun tx htx => List.mem_append.2 (htx.imp_right fun h => List.mem_flatMap.2 h)) hfacts
  rw [forked]
  exact ⟨hS, run_poolOk CChainParams.test genesis () forkEvents hS⟩

/-- `Reorganize` succeeds, the payment is acceptable after it, and the other block does not overrule it. -/
theorem back_spec :
    reorganize CChainParams.test (acceptEnv 4000 true).chain forked (pathOf without₂) = (back.1, none) ∧
    payment.Acceptable CChainParams.test memPoolEnv forked.best back.1.db.txIndex forked.mempool false false false ∧
    NotOverruled (([] ++ payment :: []).foldl (resurrectPool CChainParams.test (acceptEnv 4000 true).chain forked.best
      back.1.db.txIndex) forked.mempool)
        (branchTxs (PIndex.branch (pathOf b₁) (pathOf without₂)).reverse) payment := by
  have hnone : back.2 = none := by decide +kernel
  have hacceptable : payment.Acceptable CChainParams.test memPoolEnv forked.best back.1.db.txIndex forked.mempool
      false false false :=
    acceptable_of paid (.new ⟨1, 1000, 1081⟩ 1) (10 * COIN) (9 * COIN) rfl (by decide +kernel) (by decide +kernel)
      (by decide +kernel) (by decide +kernel)
  have htxs : branchTxs (PIndex.branch (pathOf b₁) (pathOf without₂)).reverse = [coinbase 2 3] := by decide +kernel
  have hpool : (resurrectPool CChainParams.test (acceptEnv 4000 true).chain forked.best back.1.db.txIndex forked.mempool
      payment).mapTx.entries.map Sigma.snd = [payment] := by decide +kernel
  have hspends : ∀ a ∈ [payment], ∀ txin ∈ (coinbase 2 3).vin, ∀ txin' ∈ a.vin, txin'.prevout ≠ txin.prevout := by
    decide
  refine ⟨by rw [← back, ← hnone], hacceptable, ?_⟩
  rw [htxs, List.nil_append, List.foldl_cons, List.foldl_nil]
  refine ⟨by decide, fun a ha _ x hx o hxo hao => ?_⟩
  have hmem := CTxMemPool.mem_of_entries hpool ha
  rw [List.mem_singleton] at hx
  subst hx
  obtain ⟨txin, hin, rfl⟩ := hxo
  obtain ⟨txin', hin', heq⟩ := hao
  exact absurd heq (hspends a hmem txin hin txin' hin')

/-- The payment is accepted and put back, for what it spends from is in the chain; the change is not, as an orphan. -/
theorem payment_put_back :
    payment.acceptToMemoryPool CChainParams.test poolEnv (node 0).best (poolIndex paid 1000) {} true false false =
      .ok paidPool ∧
    payment ∈ back.1.mempool.txs ∧
    change ∉ (OrphanTxs.workQueue CChainParams.test (fun _ _ => poolEnv) (node 0).best (poolIndex paid 1000)
      (({} : OrphanTxs).addOrphanTx change).1 paidPool payment.getHash).pool.txs := by
  have h := acceptable_iff CChainParams.test
  have hok := (h.1 _ _ _ _ _ _ _ _ both_acceptable.1).2 (by rw [CTransaction.ParentsInChain]; decide)
  obtain ⟨hS, hpool⟩ := forked_poolOk
  obtain ⟨hback, hacceptable, hnot⟩ := back_spec
  refine ⟨hok, (h.2.1 Unit (acceptEnv 4000 true).chain _ forked back.1 (pathOf without₂) (pathOf b₁) [] payment []
    hS hpool ?_ ?_ (by decide +kernel) (by decide +kernel) hacceptable hnot).2 ?_, fun hmem => ?_⟩
  · have hsome : forked.mapBlockIndex without₂.getHash = some (pathOf without₂) := by decide +kernel
    exact hpool.index _ _ hsome
  · exact hback
  · rw [CTransaction.ParentsInChain]
    decide +kernel
  · have hchange := h.2.2 (({} : OrphanTxs).addOrphanTx change).1 _ _ _ _ _ payment _ (fun _ _ => poolEnv) change.getHash
      change (OrphanTxs.Indexed.empty.addOrphanTx change) hok (by decide) (by decide) both_acceptable.2
    exact hchange.2.1 (hchange.1.1 hmem)

end Sample

end PayDayCoin
