import PayDayCoin.ChainInvariant
import Mathlib.Data.Finset.Insert

/-!
# The block index along a run

No call of `SetBestChain` touches `mapBlockIndex`; `AddToBlockIndex` adds the entry of a block that
`AcceptBlock` has checked, on top of the entry of its parent (**`step_mapBlockIndex`**). So along any
run, with or without failures, the index is a tree that grows from the genesis block
(**`Node.IndexedFrom.run`**).

With the entry of a proof-of-stake block its stake goes into `setStakeSeen`. An `IndexedNode` is a node
with that set, and **`IndexedNode.SeesStakes.run`** says that it has the stakes of the index.
-/

namespace PayDayCoin

open Library.Checks Library.Runs

variable [Crypto] {W : Type} [CWalletInterface W] {params : CChainParams} {node node' : Node W}

/-- The block index is the same. -/
structure SameIndex (node node' : Node W) : Prop where
  mapBlockIndex : node'.mapBlockIndex = node.mapBlockIndex
  pindexGenesisBlock : node'.pindexGenesisBlock = node.pindexGenesisBlock

omit [Crypto] [CWalletInterface W] in
theorem SameIndex.trans {node'' : Node W} (h : SameIndex node node') (h' : SameIndex node' node'') :
    SameIndex node node'' :=
  ⟨h'.1.trans h.1, h'.2.trans h.2⟩

theorem setBestChainInner_sameIndex (params : CChainParams) (env : ChainEnv) (node : Node W) (p : CBlockIndex)
    (pprev : PIndex) : SameIndex node (setBestChainInner params env node p pprev).1 := by
  rcases setBestChainInner_cases params env node p pprev with ⟨σ, e, hcase⟩ | ⟨σ, -, -, hcase⟩ <;> rw [hcase] <;>
    exact ⟨rfl, rfl⟩

theorem postponedStep_sameIndex (params : CChainParams) (env : ChainEnv) (node : Node W) (path : PIndex) :
    SameIndex node (postponedStep params env path node).1 := by
  cases path with
  | nil => exact ⟨rfl, rfl⟩
  | cons p pprev =>
    simp only [postponedStep]
    split
    · exact ⟨rfl, rfl⟩
    · exact setBestChainInner_sameIndex params env node p pprev

theorem reorganize_sameIndex (params : CChainParams) (env : ChainEnv) (node : Node W) (path : PIndex) :
    SameIndex node (reorganize params env node path).1 := by
  rcases reorganize_cases params env node path with ⟨σ, e, hcase⟩ | ⟨pfork, σ₁, σ, -, -, -, -, hcase⟩
  · rw [hcase]
    exact ⟨rfl, rfl⟩
  · obtain ⟨pool, w, hfinish⟩ := finishReorganize_eq params env (PIndex.branch pfork node.best.pindexBest)
      (PIndex.branch pfork path).reverse (node.commit σ path.getBlockHash)
    rw [hcase, hfinish]
    exact ⟨rfl, rfl⟩

/-- `SetBestChain` leaves the block index. -/
theorem setBestChain_sameIndex (params : CChainParams) (env : ChainEnv) (node : Node W)
    (hgen : node.pindexGenesisBlock ≠ []) (p : CBlockIndex) (pprev : PIndex) : SameIndex node (setBestChain params env node p pprev).1 := by
  rcases setBestChain_cases params env hgen p pprev with
    ⟨σ, e, hcase⟩ | ⟨node', -, hinner, hcase⟩ | ⟨inter, node₁, node₂, error, -, -, hreorg, hrun, hcase⟩ <;> rw [hcase]
  · exact ⟨rfl, rfl⟩
  · have h := setBestChainInner_sameIndex params env node p pprev
    rw [hinner] at h
    exact ⟨h.1, h.2⟩
  · have h₁ := reorganize_sameIndex params env node inter
    rw [hreorg] at h₁
    have h₂ := runUntil_induct (P := fun node' : Node W => SameIndex node node')
      (l := (PIndex.branch inter (p :: pprev)).reverse)
      (fun pindex _ node' h => h.trans (postponedStep_sameIndex params env node' pindex)) h₁
    rw [hrun] at h₂
    exact ⟨h₂.1, h₂.2⟩

/-- **An event leaves the block index**, or adds the entry of a block that `AcceptBlock` has
accepted. -/
theorem step_mapBlockIndex (params : CChainParams) (hgen : node.pindexGenesisBlock ≠ []) (event : NodeEvent) :
    SameIndex node (node.step params event) ∨
      ∃ env b hashProof p pprev, event = .block env b ∧ p.hash = b.getHash ∧ p.block = b ∧
        node.mapBlockIndex p.hash = none ∧ node.mapBlockIndex b.hashPrevBlock = some pprev ∧
        checkAccept params env node b pprev = .ok hashProof ∧ SameIndex (node.insertEntry p pprev) (node.step params event) := by
  cases event with
  | tx env tx fLimitFree fRejectInsaneFee ignoreFees =>
    left
    simp only [Node.step]
    split <;> exact ⟨rfl, rfl⟩
  | block env b =>
    simp only [Node.step]
    rcases acceptBlock_cases params env node b with
      ⟨e, hcase⟩ | ⟨pprev, hashProof, pos, modifier, hnew, hprev, hcheck, hcases⟩
    · rw [hcase]
      exact .inl ⟨rfl, rfl⟩
    · refine .inr ⟨env, b, hashProof, newEntry b pos hashProof pprev modifier, pprev, rfl, rfl, rfl, hnew, hprev, hcheck, ?_⟩
      rcases hcases with hcase | hcase | hcase <;> rw [hcase]
      · exact ⟨rfl, rfl⟩
      · exact ⟨rfl, rfl⟩
      · have h := setBestChain_sameIndex params env.chain
          ((node.insertEntry (newEntry b pos hashProof pprev modifier) pprev).commitEntry
            (newEntry b pos hashProof pprev modifier) pprev) hgen (newEntry b pos hashProof pprev modifier) pprev
        exact ⟨h.1, h.2⟩

omit [Crypto] [CWalletInterface W] in
theorem Node.insertEntry_mapBlockIndex (node : Node W) (p : CBlockIndex) (pprev : PIndex) (k : Uint256) :
    (node.insertEntry p pprev).mapBlockIndex k = if k = p.hash then some (p :: pprev) else node.mapBlockIndex k :=
  Function.update_apply ..

/-- Along a run the block index is a tree that grows from the genesis block. -/
def Node.IndexedFrom (g : CBlockIndex) (node : Node W) : Prop :=
  node.pindexGenesisBlock = [g] ∧ IndexOk (fun _ _ => True) g node.mapBlockIndex

theorem Node.IndexedFrom.step {g : CBlockIndex} (h : node.IndexedFrom g) (event : NodeEvent) :
    (node.step params event).IndexedFrom g := by
  obtain ⟨hgen, hindex⟩ := h
  rcases step_mapBlockIndex params (by rw [hgen]; simp) event with
    hsame | ⟨env, b, hashProof, p, pprev, -, hhash, hblock, hnew, hprev, -, hsame⟩
  · exact ⟨hsame.2.trans hgen, hsame.1 ▸ hindex⟩
  · refine ⟨hsame.2.trans hgen, ?_⟩
    rw [hsame.1]
    refine hindex.insert hnew (hindex.indexed hprev) ?_ trivial
    rw [hblock, (hindex.entry _ _ hprev).2]

theorem Node.IndexedFrom.run (params : CChainParams) (g : CBlockIndex) (wallets : W) (events : List NodeEvent) :
    ((Node.genesis g wallets).run params events).IndexedFrom g :=
  run_induct (I := Node.IndexedFrom g) (fun event _ _ h => h.step event) ⟨rfl, IndexOk.genesis g⟩

/-! ### The stakes seen -/

/-- `CBlock::GetProofOfStake`: the output staked and the time of the coinstake. -/
def CBlock.getProofOfStake (b : CBlock) : COutPoint × UInt32 :=
  if b.isProofOfStake then
    (((b.vtx.tail.headD default).vin.headD default).prevout, (b.vtx.tail.headD default).nTime)
  else (COutPoint.null, 0)

/-- A node with the stakes of its block index. -/
structure IndexedNode (W : Type) extends Node W where
  /-- `setStakeSeen`. -/
  setStakeSeen : Finset (COutPoint × UInt32)

namespace IndexedNode

/-- `AcceptBlock`, with the insertion into `setStakeSeen` that goes with that into `mapBlockIndex`. -/
def acceptBlock (params : CChainParams) (env : AcceptEnv) (st : IndexedNode W) (b : CBlock) : IndexedNode W × Outcome :=
  let (node, outcome) := PayDayCoin.acceptBlock params env st.toNode b
  let inserted := (st.mapBlockIndex b.getHash).isNone && (node.mapBlockIndex b.getHash).isSome
  ({ toNode := node
     setStakeSeen :=
      if inserted && b.isProofOfStake then insert b.getProofOfStake st.setStakeSeen else st.setStakeSeen }, outcome)

/-- The node after an event. -/
def step (params : CChainParams) (st : IndexedNode W) : NodeEvent → IndexedNode W
  | .block env b => (st.acceptBlock params env b).1
  | .tx env tx fLimitFree fRejectInsaneFee ignoreFees =>
    { st with toNode := st.toNode.step params (.tx env tx fLimitFree fRejectInsaneFee ignoreFees) }

/-- The state once the genesis block is installed. -/
def genesis (p : CBlockIndex) (wallets : W) : IndexedNode W where
  toNode := Node.genesis p wallets
  setStakeSeen := if p.isProofOfStake then {p.block.getProofOfStake} else ∅

/-- The node after a sequence of events. -/
def run (params : CChainParams) (st : IndexedNode W) (events : List NodeEvent) : IndexedNode W :=
  Library.Runs.run (step params) st events

@[simp] theorem toNode_step (st : IndexedNode W) (event : NodeEvent) :
    (st.step params event).toNode = st.toNode.step params event := by
  cases event <;> rfl

@[simp] theorem toNode_run (st : IndexedNode W) (events : List NodeEvent) :
    (st.run params events).toNode = st.toNode.run params events := by
  induction events generalizing st with
  | nil => rfl
  | cons event events ih =>
    have h := ih (st.step params event)
    rw [toNode_step] at h
    exact h

/-- The stakes seen are those of the proof-of-stake blocks of the index. -/
def SeesStakes (st : IndexedNode W) : Prop :=
  ∀ stake, stake ∈ st.setStakeSeen ↔
    ∃ h p pprev, st.mapBlockIndex h = some (p :: pprev) ∧ p.isProofOfStake = true ∧ p.block.getProofOfStake = stake

theorem SeesStakes.step {st : IndexedNode W} {g : CBlockIndex} (hfrom : st.toNode.IndexedFrom g) (h : st.SeesStakes)
    (event : NodeEvent) : (st.step params event).SeesStakes := by
  rcases step_mapBlockIndex params (by rw [hfrom.1]; simp) event with
    hsame | ⟨env, b, hashProof, p, pprev, rfl, hhash, hblock, hnew, hprev, -, hsame⟩
  · have hseen : (st.step params event).setStakeSeen = st.setStakeSeen := by
      cases event with
      | tx env tx fLimitFree fRejectInsaneFee ignoreFees => rfl
      | block env b =>
        have hm : (PayDayCoin.acceptBlock params env st.toNode b).1.mapBlockIndex = st.mapBlockIndex := hsame.1
        simp only [IndexedNode.step, acceptBlock, hm]
        cases st.mapBlockIndex b.getHash <;> rfl
    intro stake
    rw [hseen, h stake, toNode_step, hsame.1]
  · have hm : (PayDayCoin.acceptBlock params env st.toNode b).1.mapBlockIndex =
        Function.update st.mapBlockIndex p.hash (some (p :: pprev)) := hsame.1
    have hseen : (st.step params (.block env b)).setStakeSeen =
        if p.isProofOfStake then insert p.block.getProofOfStake st.setStakeSeen else st.setStakeSeen := by
      simp only [IndexedNode.step, acceptBlock, hm]
      rw [← hhash, hnew, Function.update_self, ← hblock]
      rfl
    intro stake
    rw [hseen, toNode_step, Node.step, hm]
    constructor
    · intro hmem
      have hcases : (p.isProofOfStake = true ∧ p.block.getProofOfStake = stake) ∨ stake ∈ st.setStakeSeen := by
        split at hmem
        · next hpos => exact (Finset.mem_insert.1 hmem).imp (fun he => ⟨hpos, he.symm⟩) id
        · exact .inr hmem
      rcases hcases with ⟨hpos, he⟩ | hold
      · exact ⟨p.hash, p, pprev, Function.update_self .., hpos, he⟩
      · obtain ⟨k, q, qprev, hk, hrest⟩ := (h stake).1 hold
        have hne : k ≠ p.hash := by
          rintro rfl
          rw [hnew] at hk
          cases hk
        exact ⟨k, q, qprev, (Function.update_of_ne hne ..).trans hk, hrest⟩
    · rintro ⟨k, q, qprev, hk, hpos, he⟩
      by_cases hkp : k = p.hash
      · rw [hkp, Function.update_self, Option.some.injEq] at hk
        obtain ⟨rfl, -⟩ := List.cons.inj hk
        rw [if_pos hpos]
        exact Finset.mem_insert.2 (.inl he.symm)
      · rw [Function.update_of_ne hkp] at hk
        have hold := (h stake).2 ⟨k, q, qprev, hk, hpos, he⟩
        split
        · exact Finset.mem_insert_of_mem hold
        · exact hold

/-- **The stakes seen along a run** are those of the index. -/
theorem SeesStakes.run (params : CChainParams) (g : CBlockIndex) (wallets : W) (events : List NodeEvent) :
    ((genesis g wallets).run params events).SeesStakes := by
  refine (run_induct (I := fun st : IndexedNode W => st.toNode.IndexedFrom g ∧ st.SeesStakes)
    (fun event _ st h => ⟨by rw [toNode_step]; exact h.1.step event, h.2.step h.1 event⟩)
    ⟨⟨rfl, IndexOk.genesis g⟩, fun stake => ?_⟩).2
  have hm : ∀ k q, (genesis g wallets).mapBlockIndex k = some q ↔ k = g.hash ∧ [g] = q := by
    intro k q
    have hupd : (genesis g wallets).mapBlockIndex k = if k = g.hash then some [g] else none :=
      Function.update_apply ..
    rw [hupd]
    by_cases hk : k = g.hash <;> simp [hk]
  constructor
  · intro hmem
    have hpos : g.isProofOfStake = true := by
      by_contra hnot
      simp [genesis, hnot] at hmem
    refine ⟨g.hash, g, [], (hm _ _).2 ⟨rfl, rfl⟩, hpos, ?_⟩
    simpa [genesis, hpos, eq_comm] using hmem
  · rintro ⟨k, p, pprev, hk, hpos, rfl⟩
    obtain ⟨rfl, -⟩ := List.cons.inj ((hm _ _).1 hk).2
    simp [genesis, hpos]

end IndexedNode

end PayDayCoin
