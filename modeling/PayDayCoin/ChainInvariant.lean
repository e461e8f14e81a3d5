import PayDayCoin.AcceptBlock
import PayDayCoin.BlockIndex

/-!
# The invariant of a run

`Node.Ok` says that the memory and the records of a node agree on one path of the block
index: the best block, its height and trust, `hashBestChain` in memory and in the
database, the blocks connected, the `pnext` pointers, and the transaction index, of which
`J path T` says what it has to do with the path. `J` is any relation that connecting and
disconnecting a block keep (`PathInvariant`).

A call of `SetBestChain` that returns `false` keeps the invariant, and so does one that
returns `true`, unless it left the loop over the postponed blocks by a `break`
(**`setBestChain_ok`**). So every run without such a call keeps it (**`Node.Ok.run`**).
-/

namespace PayDayCoin

open Library.Checks Library.Overlay Library.Paths Library.Runs

variable [Crypto]

/-- A relation between a path and the index that `ConnectBlock` and `DisconnectBlock`
keep, above the genesis block. -/
structure PathInvariant (params : CChainParams) (A : CBlockIndex → PIndex → Prop) (J : PIndex → TxMap → Prop) :
    Prop where
  /-- `ConnectBlock` keeps it. -/
  connect : ∀ {env : BlockEnv} {g : BestChain} {mempool : Uint256 → Option CTransaction} {p : CBlockIndex}
    {pprev : PIndex} {T : TxMap} {s : Tally}, pprev ≠ [] → A p pprev → J pprev T →
      p.block.connectBlockCore params env g mempool T p pprev = .ok s → J (p :: pprev) (overlay s.mapQueuedChanges T)
  /-- `DisconnectBlock` keeps it. -/
  disconnect : ∀ {env : BlockEnv} {p : CBlockIndex} {pprev : PIndex} {T T' : TxMap}, pprev ≠ [] →
    J (p :: pprev) T → p.block.disconnectTxs env T = .ok T' → J pprev T'

/-- The records of a batch belong to a path. -/
structure RecordsOk (J : PIndex → TxMap → Prop) (path : PIndex) (db : TxDB) : Prop where
  /-- The blocks above the genesis block are connected, and no others. -/
  connected : db.connected = path.hashes.dropLast
  /-- The transaction index belongs to the path. -/
  txIndex : J path db.txIndex

variable {W : Type} {params : CChainParams} {A : CBlockIndex → PIndex → Prop} {J : PIndex → TxMap → Prop}
  {f path pprev : PIndex} {p g : CBlockIndex}

omit [Crypto] in
theorem hashes_cons_dropLast (h : pprev ≠ []) :
    (PIndex.hashes (p :: pprev)).dropLast = p.hash :: (PIndex.hashes pprev).dropLast :=
  List.dropLast_cons_of_ne_nil (by simpa [PIndex.hashes] using h)

omit [Crypto] in
@[simp] theorem writePrev_txIndex (nMint nMoneySupply : Uint256 → ℤ) (h : Uint256) (pprev : PIndex) (db : TxDB) :
    (writePrev nMint nMoneySupply h pprev db).txIndex = db.txIndex := by cases pprev <;> rfl

omit [Crypto] in
@[simp] theorem writePrev_connected (nMint nMoneySupply : Uint256 → ℤ) (h : Uint256) (pprev : PIndex) (db : TxDB) :
    (writePrev nMint nMoneySupply h pprev db).connected = db.connected := by cases pprev <;> rfl

/-! ### One block -/

section Block

variable [CWalletInterface W] {σ σ' : Session W}

/-- A successful `ConnectBlock`, as its validation and its writes. -/
theorem connectBlock_eq_ok {env : BlockEnv} {g : BestChain} {mempool : Uint256 → Option CTransaction}
    {pnext : Uint256 → Option Uint256} {b : CBlock} :
    b.connectBlock params env g mempool pnext p pprev σ = .ok σ' ↔
      ∃ s, b.connectBlockCore params env g mempool σ.db.txIndex p pprev = .ok s ∧
        b.writeConnected pnext p pprev s σ = σ' := by
  simp only [CBlock.connectBlock, bind_eq_ok, pure_eq_ok]

/-- A successful `DisconnectBlock`, as its loop and its writes. -/
theorem disconnectBlock_eq_ok {env : BlockEnv} {b : CBlock} :
    b.disconnectBlock env p pprev σ = .ok σ' ↔
      ∃ T, b.disconnectTxs env σ.db.txIndex = .ok T ∧ b.writeDisconnected p pprev T σ = σ' := by
  simp only [CBlock.disconnectBlock, bind_eq_ok, pure_eq_ok]

theorem RecordsOk.connectBlock (hJ : PathInvariant params A J) (h : RecordsOk J pprev σ.db) (hne : pprev ≠ [])
    (hA : A p pprev) {env : BlockEnv} {g : BestChain} {mempool : Uint256 → Option CTransaction}
    {pnext : Uint256 → Option Uint256}
    (hok : p.block.connectBlock params env g mempool pnext p pprev σ = .ok σ') :
    RecordsOk J (p :: pprev) σ'.db := by
  obtain ⟨s, hcore, rfl⟩ := connectBlock_eq_ok.1 hok
  refine ⟨?_, ?_⟩
  · rw [hashes_cons_dropLast hne, ← h.connected]
    simp [CBlock.writeConnected]
  · simpa [CBlock.writeConnected] using hJ.connect hne hA h.txIndex hcore

theorem RecordsOk.disconnectBlock (hJ : PathInvariant params A J) (h : RecordsOk J (p :: pprev) σ.db)
    (hne : pprev ≠ []) {env : BlockEnv} (hok : p.block.disconnectBlock env p pprev σ = .ok σ') :
    RecordsOk J pprev σ'.db := by
  obtain ⟨T, htxs, rfl⟩ := disconnectBlock_eq_ok.1 hok
  refine ⟨?_, ?_⟩
  · simp [CBlock.writeDisconnected, h.connected, hashes_cons_dropLast hne]
  · simpa [CBlock.writeDisconnected] using hJ.disconnect hne h.txIndex htxs

end Block

/-! ### The two branches of Reorganize -/

section Branches

variable [CWalletInterface W] {env : ChainEnv} {σ σ' : Session W}

theorem disconnectStep_eq_ok : disconnectStep env (p :: pprev) σ = .ok σ' ↔
    (env.block p.hash).readBlockOk = true ∧
      p.block.disconnectBlock (env.block p.hash) p pprev σ = .ok σ' := by
  simp [disconnectStep]

theorem connectStep_eq_ok {g : BestChain} {mempool : CTxMemPool} {pnext : Uint256 → Option Uint256} :
    connectStep params env g mempool pnext (p :: pprev) σ = .ok σ' ↔
      (env.block p.hash).readBlockOk = true ∧
        p.block.connectBlock params (env.block p.hash) g mempool.lookup pnext p pprev σ = .ok σ' := by
  simp [connectStep]

/-- Disconnecting a branch leaves the records of the fork. -/
theorem RecordsOk.disconnectBranch (hJ : PathInvariant params A J) (hne : f ≠ []) (hf : f <:+ path) :
    ∀ {σ : Session W}, RecordsOk J path σ.db →
      runUntil (fun pindex σ => attempt (disconnectStep env pindex σ) σ) (PIndex.branch f path) σ = (σ', none) →
        RecordsOk J f σ'.db := by
  intro σ
  refine PIndex.run_branch (R := fun path (σ : Session W) => RecordsOk J path σ.db) hne hf fun p pprev s t _ _ hpne h hstep => ?_
  obtain ⟨-, hdis⟩ := disconnectStep_eq_ok.1 (attempt_eq_none.1 hstep)
  exact h.disconnectBlock hJ hpne hdis

/-- Connecting a branch, oldest block first, gives the records of its path. -/
theorem RecordsOk.connectBranch (hJ : PathInvariant params A J) (hne : f ≠ []) (hf : f <:+ path)
    (hA : ∀ p pprev, p :: pprev <:+ path → pprev ≠ [] → A p pprev) {g : BestChain} {mempool : CTxMemPool}
    {pnext : Uint256 → Option Uint256} (h : RecordsOk J f σ.db)
    (hrun : runUntil (fun pindex σ => attempt (connectStep params env g mempool pnext pindex σ) σ)
      (PIndex.branch f path).reverse σ = (σ', none)) : RecordsOk J path σ'.db := by
  refine PIndex.run_branch_reverse (R := fun path (σ : Session W) => RecordsOk J path σ.db) hne hf
    (fun p pprev s t hsuf _ hpne h hstep => ?_) h hrun
  obtain ⟨-, hcon⟩ := connectStep_eq_ok.1 (attempt_eq_none.1 hstep)
  exact h.connectBlock hJ hpne (hA p pprev hsuf hpne) hcon

end Branches

/-! ### What a call of SetBestChain changes -/

/-- The records, the `pnext` pointers and the transaction index belong to a path. -/
structure Committed (J : PIndex → TxMap → Prop) (path : PIndex) (node : Node W) : Prop where
  /-- The best chain that the database names. -/
  hashBestChain : node.db.hashBestChain = some path.getBlockHash
  /-- The records of the path. -/
  records : RecordsOk J path node.db
  /-- The pointers of the path. -/
  pnext : node.pnext = nextOf path.hashes

/-- Two states have one block index and one best chain in memory. -/
structure SameBest (node node' : Node W) : Prop where
  mapBlockIndex : node'.mapBlockIndex = node.mapBlockIndex
  pindexGenesisBlock : node'.pindexGenesisBlock = node.pindexGenesisBlock
  best : node'.best = node.best
  hashBestChain : node'.hashBestChain = node.hashBestChain
  nBestChainTrust : node'.nBestChainTrust = node.nBestChainTrust

variable {node node' node'' : Node W}

omit [Crypto] in
theorem SameBest.refl (node : Node W) : SameBest node node := ⟨rfl, rfl, rfl, rfl, rfl⟩

omit [Crypto] in
theorem SameBest.trans (h : SameBest node node') (h' : SameBest node' node'') : SameBest node node'' :=
  ⟨h'.1.trans h.1, h'.2.trans h.2, h'.3.trans h.3, h'.4.trans h.4, h'.5.trans h.5⟩

omit [Crypto] in
/-- A lost batch leaves the records and the pointers. -/
theorem Committed.keep (h : Committed J path node) (σ : Session W) : Committed J path (node.keep σ) :=
  ⟨h.hashBestChain, h.records, h.pnext⟩

omit [Crypto] in
theorem sameBest_keep (node : Node W) (σ : Session W) : SameBest node (node.keep σ) := ⟨rfl, rfl, rfl, rfl, rfl⟩

section Calls

variable [CWalletInterface W] {env : ChainEnv}

/-- `SetBestChainInner` fails with a lost batch, or commits the block. -/
theorem setBestChainInner_cases (params : CChainParams) (env : ChainEnv) (node : Node W) (p : CBlockIndex) (pprev : PIndex) :
    (∃ σ e, setBestChainInner params env node p pprev = (node.keep σ, some e)) ∨
      ∃ σ, p.block.connectBlock params (env.block p.hash) node.best node.mempool.lookup node.pnext p pprev
          node.session = .ok σ ∧ (env.block p.hash).commitOk = true ∧
        setBestChainInner params env node p pprev = ({ node.commit σ p.hash with
          pnext := linkPrev node.pnext (p :: pprev)
          mempool := p.block.vtx.foldl (fun pool tx => pool.remove tx false) node.mempool }, none) := by
  unfold setBestChainInner
  split
  · next e _ => exact .inl ⟨node.session, e, rfl⟩
  · next σ hσ =>
    cases hc : (env.block p.hash).commitOk with
    | false => exact .inl ⟨σ, _, rfl⟩
    | true => exact .inr ⟨σ, hσ, rfl, rfl⟩

/-- Putting a transaction back changes the memory pool and the wallets. -/
theorem resurrectTx_eq (params : CChainParams) (env : ChainEnv) (node : Node W) (tx : CTransaction) :
    ∃ pool w, resurrectTx params env node tx = { node with mempool := pool, wallets := w } := by
  unfold resurrectTx
  split
  · exact ⟨node.mempool, node.wallets, rfl⟩
  · exact ⟨_, _, rfl⟩

theorem foldl_resurrectTx_eq (params : CChainParams) (env : ChainEnv) (l : List CTransaction) (node : Node W) :
    ∃ pool w, l.foldl (resurrectTx params env) node = { node with mempool := pool, wallets := w } := by
  induction l generalizing node with
  | nil => exact ⟨node.mempool, node.wallets, rfl⟩
  | cons tx l ih =>
    obtain ⟨pool, w, htx⟩ := resurrectTx_eq params env node tx
    obtain ⟨pool', w', hl⟩ := ih { node with mempool := pool, wallets := w }
    exact ⟨pool', w', by rw [List.foldl_cons, htx, hl]⟩

/-- The end of `Reorganize` changes the pointers, the memory pool and the wallets. -/
theorem finishReorganize_eq (params : CChainParams) (env : ChainEnv) (vDisconnect vConnect : List PIndex) (node : Node W) :
    ∃ pool w, finishReorganize params env vDisconnect vConnect node = { node with
      pnext := vConnect.foldl linkPrev (vDisconnect.foldl unlinkPrev node.pnext)
      mempool := pool
      wallets := w } := by
  obtain ⟨pool, w, h⟩ := foldl_resurrectTx_eq params env (resurrectTxs params vDisconnect)
    { node with pnext := vConnect.foldl linkPrev (vDisconnect.foldl unlinkPrev node.pnext) }
  refine ⟨(branchTxs vConnect).foldl (fun pool tx => (pool.remove tx false).removeConflicts tx) pool, w, ?_⟩
  simp only [finishReorganize]
  rw [h]

/-- `Reorganize` fails with a lost batch, or disconnects and connects the two branches at
the fork and commits. -/
theorem reorganize_cases (params : CChainParams) (env : ChainEnv) (node : Node W) (pindexNew : PIndex) :
    (∃ σ e, reorganize params env node pindexNew = (node.keep σ, some e)) ∨
      ∃ pfork σ₁ σ, PIndex.findFork node.best.pindexBest pindexNew = some pfork ∧
        runUntil (fun pindex σ => attempt (disconnectStep env pindex σ) σ)
          (PIndex.branch pfork node.best.pindexBest) node.session = (σ₁, none) ∧
        runUntil (fun pindex σ => attempt (connectStep params env node.best node.mempool node.pnext pindex σ) σ)
          (PIndex.branch pfork pindexNew).reverse σ₁ = (σ, none) ∧
        env.reorganizeCommitOk = true ∧
        reorganize params env node pindexNew = (finishReorganize params env
          (PIndex.branch pfork node.best.pindexBest) (PIndex.branch pfork pindexNew).reverse
            (node.commit σ pindexNew.getBlockHash), none) := by
  unfold reorganize
  split
  · exact .inl ⟨node.session, _, rfl⟩
  · next pfork hfork =>
    simp only
    split
    · next σ e _ => exact .inl ⟨σ, e, rfl⟩
    · next σ₁ hdis =>
      split
      · next σ e _ => exact .inl ⟨σ, e, rfl⟩
      · next σ hcon =>
        cases hc : env.reorganizeCommitOk with
        | false => exact .inl ⟨σ, _, rfl⟩
        | true => exact .inr ⟨pfork, σ₁, σ, hfork, hdis, hcon, rfl, rfl⟩

theorem postponedStep_eq_none : postponedStep params env (p :: pprev) node = (node', none) ↔
    (env.block p.hash).readBlockOk = true ∧ setBestChainInner params env node p pprev = (node', none) := by
  cases hr : (env.block p.hash).readBlockOk <;> simp [postponedStep, hr]

/-- Once there is a genesis block, `SetBestChain` fails with a lost batch, or connects the
block to the best one, or reorganizes and then connects the postponed blocks until one
fails. -/
theorem setBestChain_cases (params : CChainParams) (env : ChainEnv) (hgen : node.pindexGenesisBlock ≠ []) (p : CBlockIndex)
    (pprev : PIndex) :
    (∃ σ e, setBestChain params env node p pprev = (node.keep σ, .failed e)) ∨
      (∃ node', p.block.hashPrevBlock = node.hashBestChain ∧
        setBestChainInner params env node p pprev = (node', none) ∧
          setBestChain params env node p pprev = (newBest node' (p :: pprev), .done none)) ∨
      ∃ inter node₁ node₂ error, inter ≠ [] ∧ inter <:+ p :: pprev ∧
        reorganize params env node inter = (node₁, none) ∧
        runUntil (postponedStep params env) (PIndex.branch inter (p :: pprev)).reverse node₁ = (node₂, error) ∧
          setBestChain params env node p pprev = (newBest node₂ (p :: pprev), .done error) := by
  unfold setBestChain
  rw [if_neg fun hc => hgen hc.1]
  split
  · next hprev =>
    rcases setBestChainInner_cases params env node p pprev with ⟨σ, e, hcase⟩ | ⟨σ, -, -, hcase⟩
    · exact .inl ⟨σ, _, by rw [hcase]⟩
    · exact .inr (.inl ⟨_, hprev, hcase, by rw [hcase]⟩)
  · obtain ⟨hne, hsuf, hsec⟩ := PIndex.postpone_eq node.best.pindexBest.nChainTrust p pprev
    rcases reorganize_cases params env node (PIndex.postpone node.best.pindexBest.nChainTrust (p :: pprev)).2
      with ⟨σ, e, hcase⟩ | ⟨f, _, σ, -, -, -, -, hcase⟩
    · exact .inl ⟨σ, .error "SetBestChain() : Reorganize failed", by simp only [hcase]⟩
    · exact .inr (.inr ⟨_, _, _, _, hne, hsuf, hcase, rfl, by simp only [hcase, hsec]⟩)

/-! ### What it keeps -/

theorem Committed.setBestChainInner (hJ : PathInvariant params A J) (h : Committed J pprev node) (hne : pprev ≠ [])
    (hA : A p pprev) (hok : setBestChainInner params env node p pprev = (node', none)) :
    Committed J (p :: pprev) node' ∧ SameBest node node' := by
  rcases setBestChainInner_cases params env node p pprev with ⟨σ, e, hcase⟩ | ⟨σ, hσ, -, hcase⟩
  · rw [hcase] at hok
    cases hok
  · rw [hcase, Prod.mk.injEq] at hok
    obtain ⟨rfl, -⟩ := hok
    have hrec := RecordsOk.connectBlock hJ (σ := node.session) h.records hne hA hσ
    refine ⟨⟨rfl, ⟨hrec.connected, hrec.txIndex⟩, ?_⟩, ⟨rfl, rfl, rfl, rfl, rfl⟩⟩
    cases pprev with
    | nil => exact absurd rfl hne
    | cons q pprev =>
      simp only [linkPrev, h.pnext]
      exact (nextOf_link _ _ _).symm

theorem Committed.reorganize (hJ : PathInvariant params A J) (hI : IndexOk A g node.mapBlockIndex)
    (h : Committed J node.best.pindexBest node) (hbest : Indexed node.mapBlockIndex node.best.pindexBest)
    (hnew : Indexed node.mapBlockIndex path) (hok : reorganize params env node path = (node', none)) :
    Committed J path node' ∧ SameBest node node' := by
  rcases reorganize_cases params env node path with
    ⟨σ, e, hcase⟩ | ⟨f, σ₁, σ, hfork, hdis, hcon, -, hcase⟩
  · rw [hcase] at hok
    cases hok
  · rw [hcase, Prod.mk.injEq] at hok
    obtain ⟨rfl, -⟩ := hok
    obtain ⟨hne, hfbest, hfnew⟩ := PIndex.findFork_suffix hfork
    have h₁ := RecordsOk.disconnectBranch hJ hne hfbest (σ := node.session) h.records hdis
    have h₂ := h₁.connectBranch hJ hne hfnew (fun p pprev hsuf hpne => hI.accepted_suffix hnew hsuf hpne) hcon
    obtain ⟨pool, w, hfin⟩ := finishReorganize_eq params env (PIndex.branch f node.best.pindexBest)
      (PIndex.branch f path).reverse (node.commit σ path.getBlockHash)
    rw [hfin]
    refine ⟨⟨rfl, ⟨h₂.connected, h₂.txIndex⟩, ?_⟩, ⟨rfl, rfl, rfl, rfl, rfl⟩⟩
    rw [← PIndex.foldl_linkPrev hne hfnew, ← PIndex.foldl_unlinkPrev hne hfbest (hI.nodup hbest), ← h.pnext]
    rfl

/-- Connecting the postponed blocks, when none fails. -/
theorem Committed.postponed (hJ : PathInvariant params A J) (hne : f ≠ []) (hf : f <:+ path)
    (hA : ∀ p pprev, p :: pprev <:+ path → pprev ≠ [] → A p pprev) (h : Committed J f node)
    (hok : runUntil (postponedStep params env) (PIndex.branch f path).reverse node = (node', none)) :
    Committed J path node' ∧ SameBest node node' := by
  refine PIndex.run_branch_reverse (R := fun path (node' : Node W) => Committed J path node' ∧ SameBest node node') hne hf
    (fun p pprev node₁ node₂ hsuf _ hpne h₁ hstep => ?_) ⟨h, SameBest.refl node⟩ hok
  obtain ⟨h₁, hs₁⟩ := h₁
  obtain ⟨-, hinner⟩ := postponedStep_eq_none.1 hstep
  obtain ⟨h₂, hs₂⟩ := h₁.setBestChainInner hJ hpne (hA _ _ hsuf hpne) hinner
  exact ⟨h₂, hs₁.trans hs₂⟩

end Calls

/-! ### The invariant -/

/-- The memory and the records of a node agree on the path of its best block. -/
structure Node.Ok (A : CBlockIndex → PIndex → Prop) (J : PIndex → TxMap → Prop) (g : CBlockIndex) (node : Node W) :
    Prop where
  index : IndexOk A g node.mapBlockIndex
  genesis : node.pindexGenesisBlock = [g]
  indexed : Indexed node.mapBlockIndex node.best.pindexBest
  hashBestChain : node.hashBestChain = node.best.pindexBest.getBlockHash
  nBestHeight : node.best.nBestHeight = node.best.pindexBest.nHeight
  nBestChainTrust : node.nBestChainTrust = node.best.pindexBest.nChainTrust
  committed : Committed J node.best.pindexBest node

/-- A call of `SetBestChain` left the loop over the postponed blocks by a `break`. -/
def Outcome.breaks : Outcome → Bool
  | .done (some _) => true
  | _ => false

omit [Crypto] in
theorem Node.Ok.of_sameBest (h : node.Ok A J g) (hs : SameBest node node')
    (hc : Committed J node.best.pindexBest node') : node'.Ok A J g where
  index := by rw [hs.mapBlockIndex]; exact h.index
  genesis := by rw [hs.pindexGenesisBlock, h.genesis]
  indexed := by rw [hs.mapBlockIndex, hs.best]; exact h.indexed
  hashBestChain := by rw [hs.hashBestChain, hs.best, h.hashBestChain]
  nBestHeight := by rw [hs.best, h.nBestHeight]
  nBestChainTrust := by rw [hs.nBestChainTrust, hs.best, h.nBestChainTrust]
  committed := by rw [hs.best]; exact hc

omit [Crypto] in
/-- The end of `SetBestChain`, when the records belong to the new path. -/
theorem Node.Ok.newBest (h : node.Ok A J g) (hs : SameBest node node') (hpath : Indexed node.mapBlockIndex path)
    (hc : Committed J path node') : (newBest node' path).Ok A J g where
  index := by change IndexOk A g node'.mapBlockIndex; rw [hs.mapBlockIndex]; exact h.index
  genesis := by change node'.pindexGenesisBlock = _; rw [hs.pindexGenesisBlock, h.genesis]
  indexed := by change Indexed node'.mapBlockIndex path; rw [hs.mapBlockIndex]; exact hpath
  hashBestChain := rfl
  nBestHeight := rfl
  nBestChainTrust := rfl
  committed := ⟨hc.hashBestChain, hc.records, hc.pnext⟩

omit [Crypto] in
/-- A lost batch keeps the invariant. -/
theorem Node.Ok.keep (h : node.Ok A J g) (σ : Session W) : (node.keep σ).Ok A J g :=
  h.of_sameBest (sameBest_keep node σ) (h.committed.keep σ)

section Run

variable [CWalletInterface W]

/-- **`SetBestChain` keeps the invariant**, on success and on failure, unless it left the
loop over the postponed blocks by a `break`. -/
theorem setBestChain_ok {env : ChainEnv} (hJ : PathInvariant params A J) (h : node.Ok A J g)
    (hp : Indexed node.mapBlockIndex (p :: pprev)) (hne : pprev ≠ [])
    (hb : (setBestChain params env node p pprev).2.breaks = false) :
    (setBestChain params env node p pprev).1.Ok A J g := by
  have hgen : node.pindexGenesisBlock ≠ [] := by simp [h.genesis]
  rcases setBestChain_cases params env hgen p pprev with
    ⟨σ, e, hcase⟩ | ⟨node', hprev, hinner, hcase⟩ | ⟨inter, node₁, node₂, error, hine, hisuf, hreorg, hrun, hcase⟩
  · rw [hcase]
    exact h.keep σ
  · rw [hcase]
    -- the parent is the best block
    have hpar : pprev = node.best.pindexBest := by
      have h₁ := h.index.parent _ p pprev hp.2 hne
      rw [← h.index.prevHash _ p pprev hp.2 hne, hprev, h.hashBestChain, h.indexed.2] at h₁
      exact (Option.some.inj h₁).symm
    obtain ⟨hc, hs⟩ := Committed.setBestChainInner hJ (hpar ▸ h.committed) hne
      (h.index.accepted _ p pprev hp.2 hne) hinner
    exact h.newBest hs hp hc
  · rw [hcase] at hb ⊢
    cases error with
    | some e => simp [Outcome.breaks] at hb
    | none =>
      have hinter := h.index.suffix hp hisuf hine
      obtain ⟨hc₁, hs₁⟩ := h.committed.reorganize hJ h.index h.indexed hinter hreorg
      obtain ⟨hc₂, hs₂⟩ := hc₁.postponed hJ hine hisuf (fun q qprev hsuf hq => h.index.accepted_suffix hp hsuf hq) hrun
      exact h.newBest (hs₁.trans hs₂) hp hc₂

/-! ### AcceptBlock -/

/-- The entry, with its ancestors, for which `AcceptBlock` calls `SetBestChain` on a block, if
it comes to that. -/
def Node.chainCall (params : CChainParams) (env : AcceptEnv) (node : Node W) (b : CBlock) :
    Option (CBlockIndex × PIndex) :=
  match node.mapBlockIndex b.hashPrevBlock with
  | none => none
  | some pprev =>
    match checkAccept params env node b pprev, env.writeToDisk, computeNextStakeModifier pprev with
    | .ok hashProof, some pos, some modifier =>
      let p := newEntry b pos hashProof pprev modifier
      if b.nVersion ≤ 7 ∧ node.mapBlockIndex b.getHash = none ∧ env.indexCommitOk = true ∧
          node.nBestChainTrust.toNat < (PIndex.nChainTrust (p :: pprev)).toNat then some (p, pprev)
      else none
    | _, _, _ => none

/-- `AcceptBlock` rejects the block and changes nothing, or makes an entry for it, on top
of its parent, and then stops at its commit, or commits it and may call `SetBestChain`. -/
theorem acceptBlock_chainCall (params : CChainParams) (env : AcceptEnv) (node : Node W) (b : CBlock) :
    (∃ e, node.chainCall params env b = none ∧ acceptBlock params env node b = (node, .failed e)) ∨
      ∃ p pprev hashProof pos modifier, p = newEntry b pos hashProof pprev modifier ∧
        node.mapBlockIndex b.getHash = none ∧ node.mapBlockIndex b.hashPrevBlock = some pprev ∧
        checkAccept params env node b pprev = .ok hashProof ∧
        ((node.chainCall params env b = none ∧ env.indexCommitOk = false ∧
            acceptBlock params env node b = (node.insertEntry p pprev, .failed .fail)) ∨
          (node.chainCall params env b = none ∧ env.indexCommitOk = true ∧
            acceptBlock params env node b = ((node.insertEntry p pprev).commitEntry p pprev, .done none)) ∨
          (node.chainCall params env b = some (p, pprev) ∧ env.indexCommitOk = true ∧
            acceptBlock params env node b =
              setBestChain params env.chain ((node.insertEntry p pprev).commitEntry p pprev) p pprev)) := by
  unfold acceptBlock Node.chainCall
  by_cases hversion : 7 < b.nVersion
  · rw [if_pos hversion]
    refine .inl ⟨_, ?_, rfl⟩
    cases node.mapBlockIndex b.hashPrevBlock with
    | none => rfl
    | some pprev =>
      simp only
      split
      · exact if_neg fun h => Int32.not_le.2 hversion h.1
      · rfl
  rw [if_neg hversion]
  cases hnew : node.mapBlockIndex b.getHash with
  | some _ =>
    refine .inl ⟨_, ?_, rfl⟩
    cases node.mapBlockIndex b.hashPrevBlock with
    | none => rfl
    | some pprev =>
      simp only
      split
      · exact if_neg fun h => by cases h.2.1
      · rfl
  | none =>
    simp only [Option.isSome_none, Bool.false_eq_true, if_false]
    cases hprev : node.mapBlockIndex b.hashPrevBlock with
    | none => exact .inl ⟨_, rfl, rfl⟩
    | some pprev =>
      simp only
      cases hcheck : checkAccept params env node b pprev with
      | error e => exact .inl ⟨_, rfl, rfl⟩
      | ok hashProof =>
        cases env.writeToDisk with
        | none => exact .inl ⟨_, rfl, rfl⟩
        | some pos =>
          simp only [addToBlockIndex, hnew, hprev, Option.isSome_none, Bool.false_eq_true, if_false, Option.getD_some]
          cases computeNextStakeModifier pprev with
          | none => exact .inl ⟨_, rfl, rfl⟩
          | some modifier =>
            refine .inr ⟨_, pprev, hashProof, pos, modifier, rfl, trivial, rfl, hcheck, ?_⟩
            cases env.indexCommitOk with
            | false => exact .inl ⟨if_neg fun h => Bool.false_ne_true h.2.2.1, rfl, rfl⟩
            | true =>
              by_cases htrust : node.nBestChainTrust.toNat <
                  (PIndex.nChainTrust (newEntry b pos hashProof pprev modifier :: pprev)).toNat
              · exact .inr (.inr ⟨if_pos ⟨Int32.not_lt.1 hversion, trivial, rfl, htrust⟩, rfl, if_pos htrust⟩)
              · exact .inr (.inl ⟨if_neg fun h => htrust h.2.2.2, rfl, if_neg htrust⟩)

/-- `AcceptBlock` rejects the block, or makes an entry for it. -/
theorem acceptBlock_cases (params : CChainParams) (env : AcceptEnv) (node : Node W) (b : CBlock) :
    (∃ e, acceptBlock params env node b = (node, .failed e)) ∨
      ∃ pprev hashProof pos modifier, node.mapBlockIndex b.getHash = none ∧
        node.mapBlockIndex b.hashPrevBlock = some pprev ∧ checkAccept params env node b pprev = .ok hashProof ∧
        (acceptBlock params env node b =
            (node.insertEntry (newEntry b pos hashProof pprev modifier) pprev, .failed .fail) ∨
          acceptBlock params env node b =
            ((node.insertEntry (newEntry b pos hashProof pprev modifier) pprev).commitEntry
              (newEntry b pos hashProof pprev modifier) pprev, .done none) ∨
          acceptBlock params env node b =
            setBestChain params env.chain ((node.insertEntry (newEntry b pos hashProof pprev modifier) pprev).commitEntry
              (newEntry b pos hashProof pprev modifier) pprev) (newEntry b pos hashProof pprev modifier) pprev) := by
  rcases acceptBlock_chainCall params env node b with
    ⟨e, -, hcase⟩ | ⟨_, pprev, hashProof, pos, modifier, rfl, hnew, hprev, hcheck, hcases⟩
  · exact .inl ⟨e, hcase⟩
  · exact .inr ⟨pprev, hashProof, pos, modifier, hnew, hprev, hcheck,
      hcases.imp (fun h => h.2.2) fun h => h.imp (fun h => h.2.2) fun h => h.2.2⟩

/-- `AcceptBlock` leaves the best chain and the memory pool, or calls `SetBestChain`. -/
theorem chainCall_cases (params : CChainParams) (env : AcceptEnv) (node : Node W) (b : CBlock) :
    (node.chainCall params env b = none ∧ (acceptBlock params env node b).1.best = node.best ∧
        (acceptBlock params env node b).1.mempool = node.mempool) ∨
      ∃ p pprev hashProof pos modifier, node.chainCall params env b = some (p, pprev) ∧
        p = newEntry b pos hashProof pprev modifier ∧ node.mapBlockIndex b.getHash = none ∧
        node.mapBlockIndex b.hashPrevBlock = some pprev ∧ checkAccept params env node b pprev = .ok hashProof ∧
        acceptBlock params env node b =
          setBestChain params env.chain ((node.insertEntry p pprev).commitEntry p pprev) p pprev := by
  rcases acceptBlock_chainCall params env node b with
    ⟨e, hnone, hcase⟩ | ⟨p, pprev, hashProof, pos, modifier, hp, hnew, hprev, hcheck, hcases⟩
  · exact .inl ⟨hnone, by rw [hcase], by rw [hcase]⟩
  · rcases hcases with ⟨hnone, -, hcase⟩ | ⟨hnone, -, hcase⟩ | ⟨hsome, -, hcase⟩
    · exact .inl ⟨hnone, by rw [hcase]; rfl, by rw [hcase]; rfl⟩
    · exact .inl ⟨hnone, by rw [hcase]; rfl, by rw [hcase]; rfl⟩
    · exact .inr ⟨p, pprev, hashProof, pos, modifier, hsome, hp, hnew, hprev, hcheck, hcase⟩

omit [Crypto] [CWalletInterface W] in
/-- A new entry on top of another keeps the invariant. -/
theorem Node.Ok.insertEntry (h : node.Ok A J g) (hnew : node.mapBlockIndex p.hash = none)
    (hprev : Indexed node.mapBlockIndex pprev) (hhash : p.block.hashPrevBlock = pprev.getBlockHash) (hA : A p pprev) :
    (node.insertEntry p pprev).Ok A J g ∧ Indexed (node.insertEntry p pprev).mapBlockIndex (p :: pprev) := by
  have hne : node.best.pindexBest.getBlockHash ≠ p.hash := by
    intro he
    have := h.indexed.2
    rw [he, hnew] at this
    cases this
  refine ⟨⟨h.index.insert hnew hprev hhash hA, h.genesis, ⟨h.indexed.1, ?_⟩, h.hashBestChain, h.nBestHeight,
    h.nBestChainTrust, ⟨h.committed.hashBestChain, h.committed.records, h.committed.pnext⟩⟩, ⟨by simp, ?_⟩⟩
  · exact (Function.update_of_ne hne _ _).trans h.indexed.2
  · exact Function.update_self ..

omit [Crypto] [CWalletInterface W] in
theorem Node.Ok.commitEntry (h : node.Ok A J g) (p : CBlockIndex) (pprev : PIndex) :
    (node.commitEntry p pprev).Ok A J g :=
  h.of_sameBest ⟨rfl, rfl, rfl, rfl, rfl⟩ ⟨h.committed.hashBestChain, ⟨h.committed.records.connected,
    h.committed.records.txIndex⟩, h.committed.pnext⟩

/-- **`AcceptBlock` keeps the invariant**, whatever happens, but for a `break`. -/
theorem acceptBlock_ok {env : AcceptEnv} {b : CBlock} (hJ : PathInvariant params A J) (h : node.Ok A J g)
    (hA : ∀ pprev hashProof pos modifier, pprev ≠ [] → checkAccept params env node b pprev = .ok hashProof →
      A (newEntry b pos hashProof pprev modifier) pprev)
    (hb : (acceptBlock params env node b).2.breaks = false) : (acceptBlock params env node b).1.Ok A J g := by
  rcases acceptBlock_cases params env node b with
    ⟨e, hcase⟩ | ⟨pprev, hashProof, pos, modifier, hnew, hprev, hcheck, hcases⟩
  · rw [hcase]
    exact h
  · have hp := h.index.indexed hprev
    obtain ⟨h₁, hi₁⟩ := h.insertEntry (p := newEntry b pos hashProof pprev modifier) hnew hp
      (h.index.entry _ _ hprev).2.symm (hA pprev hashProof pos modifier hp.1 hcheck)
    rcases hcases with hcase | hcase | hcase
    · rw [hcase]
      exact h₁
    · rw [hcase]
      exact h₁.commitEntry _ _
    · rw [hcase] at hb ⊢
      exact setBestChain_ok hJ (h₁.commitEntry _ _) hi₁ hp.1 hb

/-! ### Runs -/

/-- The event is a call of `AcceptBlock` whose `SetBestChain` left the loop over the
postponed blocks by a `break`. -/
def Node.breaks (params : CChainParams) (node : Node W) : NodeEvent → Bool
  | .block env b => (acceptBlock params env node b).2.breaks
  | .tx .. => false

/-- No step of the run leaves the loop over the postponed blocks by a `break`. -/
def Node.NoBreak (params : CChainParams) (node : Node W) (events : List NodeEvent) : Prop :=
  Along (Node.step params) (fun node event => node.breaks params event = false) node events

instance instDecidableNoBreak (node : Node W) (events : List NodeEvent) : Decidable (node.NoBreak params events) :=
  inferInstanceAs (Decidable (Along _ _ _ _))

/-- What `AcceptBlock` has checked of the blocks of a run is what `A` says. -/
def Accepts (params : CChainParams) (W : Type) (A : CBlockIndex → PIndex → Prop) (events : List NodeEvent) : Prop :=
  ∀ env b, .block env b ∈ events → ∀ (node : Node W) pprev hashProof pos modifier, pprev ≠ [] →
    checkAccept params env node b pprev = .ok hashProof → A (newEntry b pos hashProof pprev modifier) pprev

theorem Node.Ok.step {event : NodeEvent} (hJ : PathInvariant params A J) (h : node.Ok A J g)
    (hA : Accepts params W A [event]) (hb : node.breaks params event = false) : (node.step params event).Ok A J g := by
  cases event with
  | block env b => exact acceptBlock_ok hJ h (hA env b List.mem_cons_self node) hb
  | tx env tx fLimitFree fRejectInsaneFee ignoreFees =>
    simp only [Node.step]
    split
    · exact h
    · exact h.of_sameBest ⟨rfl, rfl, rfl, rfl, rfl⟩
        ⟨h.committed.hashBestChain, ⟨h.committed.records.connected, h.committed.records.txIndex⟩, h.committed.pnext⟩

/-- **A run without a `break` keeps the invariant.** -/
theorem Node.Ok.run (hJ : PathInvariant params A J) {events : List NodeEvent} (h : node.Ok A J g)
    (hA : Accepts params W A events) (hb : node.NoBreak params events) : (node.run params events).Ok A J g := by
  refine invariant_of_along (fun event hmem node hb hnode => hnode.step hJ (fun env b hb => hA env b ?_) hb) hb h
  rw [List.mem_singleton] at hb
  exact hb ▸ hmem

omit [Crypto] [CWalletInterface W] in
/-- The invariant holds once the genesis block is installed. -/
theorem Node.genesis_ok (hJ : J [g] nothing) (wallets : W) : (Node.genesis g wallets).Ok A J g where
  index := IndexOk.genesis g
  genesis := rfl
  indexed := ⟨by simp [Node.genesis], Function.update_self ..⟩
  hashBestChain := rfl
  nBestHeight := rfl
  nBestChainTrust := rfl
  committed := ⟨rfl, ⟨rfl, hJ⟩, rfl⟩

end Run

end PayDayCoin
