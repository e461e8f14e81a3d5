import PayDayCoin.BlockIndexRuns

/-!
# The records of the block index

A record of the block index is written when its block is added to the index, connected, or when its child on the
best chain changes. `Node.Recorded` says that every entry has a record that agrees with it, with the amounts and the
pointer as they are in memory.

`ConnectBlock` and `DisconnectBlock` keep memory and the batch in step (**`RecordsMatch.connectBlock`**,
**`RecordsMatch.disconnectBlock`**), and so does a call of `SetBestChain` (**`setBestChain_recorded`**), unless it loses
a batch in which a block was connected, or breaks out of the loop over the postponed blocks. So a run of events that
do neither, with no failed commit of a new entry, keeps the block index on disk (**`Node.IndexOnDisk.run`**).
-/

namespace PayDayCoin

open Library.Checks Library.Overlay Library.Paths Library.Runs

/-- The record that an entry should have, with the amounts and the pointers as they are in memory. -/
def blockRecord (nMint nMoneySupply : Uint256 → ℤ) (pnext : Uint256 → Option Uint256) : PIndex → Option CDiskBlockIndex
  | [] => none
  | p :: pprev => some (diskBlockIndex nMint nMoneySupply ((pnext p.hash).getD 0) p pprev)

/-- Every entry has its record, and there are no other records. -/
def RecordsMatch {W : Type} (m : Uint256 → Option PIndex) (pnext : Uint256 → Option Uint256) (σ : Session W) : Prop :=
  ∀ h, σ.db.blockIndex h = (m h).bind (blockRecord σ.nMint σ.nMoneySupply pnext)

section Records

variable [Crypto] {W : Type} [CWalletInterface W] {params : CChainParams} {A : CBlockIndex → PIndex → Prop}
  {m : Uint256 → Option PIndex} {g p : CBlockIndex} {pprev path f : PIndex} {σ σ' : Session W}

omit [Crypto] [CWalletInterface W] in
theorem RecordsMatch.writePrev (hI : IndexOk A g m) (hprev : Indexed m pprev) {h : Uint256} {next : Option Uint256}
    {pnext : Uint256 → Option Uint256} (hσ : RecordsMatch m pnext σ) (hh : next.getD 0 = h) :
    RecordsMatch m (Function.update pnext pprev.getBlockHash next)
      { σ with db := PayDayCoin.writePrev σ.nMint σ.nMoneySupply h pprev σ.db } := by
  obtain ⟨hne, hm⟩ := hprev
  cases pprev with
  | nil => exact absurd rfl hne
  | cons q qprev =>
    intro k
    by_cases hk : k = q.hash
    · subst hk
      have hm : m q.hash = some (q :: qprev) := hm
      simp [PayDayCoin.writePrev, TxDB.writeBlockIndex, diskBlockIndex, blockRecord, hm, ← hh, PIndex.getBlockHash]
    · have hrec := hσ k
      simp only [PayDayCoin.writePrev, TxDB.writeBlockIndex, diskBlockIndex, Function.update_of_ne hk, hrec]
      cases hmk : m k with
      | none => rfl
      | some r =>
        obtain ⟨hrne, hhash⟩ := hI.entry k r hmk
        cases r with
        | nil => exact absurd rfl hrne
        | cons r rprev =>
          have hr : r.hash = k := hhash
          simp [blockRecord, hr, PIndex.getBlockHash, Function.update_of_ne hk]

omit [Crypto] [CWalletInterface W] in
/-- New amounts of an entry, written with its record. -/
theorem RecordsMatch.writeBlockIndex (hI : IndexOk A g m) (hp : Indexed m (p :: pprev)) {pnext : Uint256 → Option Uint256}
    (hσ : RecordsMatch m pnext σ) {next : Uint256} (hnext : (pnext p.hash).getD 0 = next) (mint supply : ℤ) :
    RecordsMatch m pnext { σ with
      db := σ.db.writeBlockIndex (diskBlockIndex (Function.update σ.nMint p.hash mint)
        (Function.update σ.nMoneySupply p.hash supply) next p pprev)
      nMint := Function.update σ.nMint p.hash mint
      nMoneySupply := Function.update σ.nMoneySupply p.hash supply } := by
  intro k
  by_cases hk : k = p.hash
  · subst hk
    have hm : m p.hash = some (p :: pprev) := hp.2
    simp [TxDB.writeBlockIndex, diskBlockIndex, blockRecord, hm, ← hnext]
  · have hrec := hσ k
    simp only [TxDB.writeBlockIndex, diskBlockIndex, Function.update_of_ne hk, hrec]
    cases hmk : m k with
    | none => rfl
    | some r =>
      obtain ⟨hrne, hhash⟩ := hI.entry k r hmk
      cases r with
      | nil => exact absurd rfl hrne
      | cons r rprev =>
        have hr : r.hash = k := hhash
        simp [blockRecord, hr, diskBlockIndex, Function.update_of_ne hk]

/-- `ConnectBlock` writes what it changes. -/
theorem RecordsMatch.connectBlock (hI : IndexOk A g m) (hp : Indexed m (p :: pprev)) (hne : pprev ≠ [])
    (hσ : RecordsMatch m (nextOf (PIndex.hashes pprev)) σ) {env : BlockEnv} {best : BestChain}
    {mempool : Uint256 → Option CTransaction} {pnext : Uint256 → Option Uint256} (hnext : pnext p.hash = none)
    (hok : p.block.connectBlock params env best mempool pnext p pprev σ = .ok σ') :
    RecordsMatch m (nextOf (PIndex.hashes (p :: pprev))) σ' := by
  obtain ⟨s, -, rfl⟩ := connectBlock_eq_ok.1 hok
  have hprev := hI.suffix hp (List.suffix_cons p pprev) hne
  have hnd := List.nodup_cons.1 (hI.nodup hp)
  have hnone : nextOf (PIndex.hashes pprev) p.hash = none := nextOf_eq_none fun h => hnd.1 (List.mem_of_mem_tail h)
  cases pprev with
  | nil => exact absurd rfl hne
  | cons q qprev =>
    have hget : (nextOf (PIndex.hashes (q :: qprev)) p.hash).getD 0 = (pnext p.hash).getD 0 := by rw [hnone, hnext]
    have hwritten := hσ.writeBlockIndex hI hp hget (s.nValueOut - s.nValueIn + s.nFees)
      (σ.nMoneySupply q.hash + s.nValueOut - s.nValueIn)
    exact fun k => hwritten.writePrev hI hprev (Option.getD_some ..) k

/-- `DisconnectBlock` writes what it changes. -/
theorem RecordsMatch.disconnectBlock (hI : IndexOk A g m) (hp : Indexed m (p :: pprev)) (hne : pprev ≠ [])
    (hσ : RecordsMatch m (nextOf (PIndex.hashes (p :: pprev))) σ) {env : BlockEnv}
    (hok : p.block.disconnectBlock env p pprev σ = .ok σ') : RecordsMatch m (nextOf (PIndex.hashes pprev)) σ' := by
  obtain ⟨T, -, rfl⟩ := disconnectBlock_eq_ok.1 hok
  have hprev := hI.suffix hp (List.suffix_cons p pprev) hne
  have hnd := (List.nodup_cons.1 (hI.nodup hp)).2
  cases pprev with
  | nil => exact absurd rfl hne
  | cons q qprev =>
    rw [PIndex.hashes, List.map_cons, List.map_cons] at hσ
    rw [PIndex.hashes, List.map_cons, ← nextOf_unlink (a := p.hash) hnd]
    exact fun k => hσ.writePrev hI hprev (Option.getD_none ..) k

/-! ### The two branches of Reorganize -/

theorem RecordsMatch.disconnectBranch (hI : IndexOk A g m) (hp : Indexed m path) (hne : f ≠ []) (hf : f <:+ path)
    {env : ChainEnv} : ∀ {σ : Session W}, RecordsMatch m (nextOf path.hashes) σ →
      runUntil (fun pindex σ => attempt (disconnectStep env pindex σ) σ) (PIndex.branch f path) σ = (σ', none) →
        RecordsMatch m (nextOf f.hashes) σ' := by
  intro σ
  refine PIndex.run_branch (R := fun path (σ : Session W) => RecordsMatch m (nextOf path.hashes) σ) hne hf
    fun p pprev s t hsuf _ hpne h hstep => ?_
  obtain ⟨-, hdis⟩ := disconnectStep_eq_ok.1 (attempt_eq_none.1 hstep)
  exact h.disconnectBlock hI (hI.suffix hp hsuf (List.cons_ne_nil p pprev)) hpne hdis

/-- Blocks above the fork have no pointer before they are connected. -/
theorem RecordsMatch.connectBranch (hI : IndexOk A g m) (hp : Indexed m path) (hne : f ≠ []) (hf : f <:+ path)
    {env : ChainEnv} {best : BestChain} {mempool : CTxMemPool} {pnext : Uint256 → Option Uint256}
    (hnext : ∀ p pprev, p :: pprev <:+ path → f <:+ pprev → pnext p.hash = none)
    (h : RecordsMatch m (nextOf f.hashes) σ)
    (hrun : runUntil (fun pindex σ => attempt (connectStep params env best mempool pnext pindex σ) σ)
      (PIndex.branch f path).reverse σ = (σ', none)) : RecordsMatch m (nextOf path.hashes) σ' := by
  refine PIndex.run_branch_reverse (R := fun path (σ : Session W) => RecordsMatch m (nextOf path.hashes) σ) hne hf
    (fun p pprev s t hsuf hfp hpne h hstep => ?_) h hrun
  obtain ⟨-, hcon⟩ := connectStep_eq_ok.1 (attempt_eq_none.1 hstep)
  exact h.connectBlock hI (hI.suffix hp hsuf (List.cons_ne_nil p pprev)) hpne (hnext p pprev hsuf hfp) hcon

end Records

/-! ### Batches that are lost -/

section Lost

variable [Crypto] {W : Type} [CWalletInterface W] (params : CChainParams) (env : ChainEnv) (node : Node W)

/-- `SetBestChainInner` connects the block, and its commit fails. -/
def Node.losesInner (p : CBlockIndex) (pprev : PIndex) : Bool :=
  (p.block.connectBlock params (env.block p.hash) node.best node.mempool.lookup node.pnext p pprev node.session).isOk &&
    !(env.block p.hash).commitOk

/-- `Reorganize` connects a block, and then a later one fails, or the commit. -/
def Node.losesReorganize (pindexNew : PIndex) : Bool :=
  match PIndex.findFork node.best.pindexBest pindexNew with
  | none => false
  | some pfork =>
    match runUntil (fun pindex σ => attempt (disconnectStep env pindex σ) σ)
        (PIndex.branch pfork node.best.pindexBest) node.session with
    | (_, some _) => false
    | (σ, none) =>
      let vConnect := (PIndex.branch pfork pindexNew).reverse
      let connect := fun pindex σ =>
        attempt (connectStep params env node.best node.mempool node.pnext pindex σ) σ
      !(succeeded connect vConnect σ).isEmpty && ((runUntil connect vConnect σ).2.isSome || !env.reorganizeCommitOk)

/-- `SetBestChain` fails after a `ConnectBlock` that went through, whose batch is lost. -/
def Node.losesBatch (p : CBlockIndex) (pprev : PIndex) : Bool :=
  if p.block.hashPrevBlock = node.hashBestChain then node.losesInner params env p pprev
  else node.losesReorganize params env (PIndex.postpone node.best.pindexBest.nChainTrust (p :: pprev)).2

variable {params env node} {p : CBlockIndex} {pprev path : PIndex} {node' : Node W} {e : Reject}

theorem setBestChainInner_amounts (hloses : node.losesInner params env p pprev = false)
    (h : setBestChainInner params env node p pprev = (node', some e)) :
    node'.nMint = node.nMint ∧ node'.nMoneySupply = node.nMoneySupply := by
  unfold setBestChainInner at h
  unfold Node.losesInner at hloses
  split at h
  · obtain ⟨rfl, -⟩ := Prod.mk.inj h
    exact ⟨rfl, rfl⟩
  · next σ hconnect =>
    cases hcommit : (env.block p.hash).commitOk with
    | false => simp [hconnect, hcommit, Except.isOk, Except.toBool] at hloses
    | true => simp [hcommit] at h

theorem disconnectBranch_amounts (env : ChainEnv) (l : List PIndex) (σ : Session W) :
    (runUntil (fun pindex σ => attempt (disconnectStep env pindex σ) σ) l σ).1.nMint = σ.nMint ∧
      (runUntil (fun pindex σ => attempt (disconnectStep env pindex σ) σ) l σ).1.nMoneySupply = σ.nMoneySupply := by
  refine runUntil_induct (P := fun τ : Session W => τ.nMint = σ.nMint ∧ τ.nMoneySupply = σ.nMoneySupply)
    (fun pindex _ τ hτ => ?_) ⟨rfl, rfl⟩
  cases hstep : disconnectStep env pindex τ with
  | error e => exact hτ
  | ok τ' =>
    cases pindex with
    | nil =>
      obtain rfl := Except.ok.inj hstep
      exact hτ
    | cons p pprev =>
      obtain ⟨-, hdis⟩ := disconnectStep_eq_ok.1 hstep
      obtain ⟨T, -, rfl⟩ := disconnectBlock_eq_ok.1 hdis
      exact hτ

theorem reorganize_amounts (hloses : node.losesReorganize params env path = false)
    (h : reorganize params env node path = (node', some e)) :
    node'.nMint = node.nMint ∧ node'.nMoneySupply = node.nMoneySupply := by
  unfold reorganize at h
  unfold Node.losesReorganize at hloses
  split at h
  · obtain ⟨rfl, -⟩ := Prod.mk.inj h
    exact ⟨rfl, rfl⟩
  next pfork hfork =>
  have hamounts := disconnectBranch_amounts env (PIndex.branch pfork node.best.pindexBest) node.session
  simp only [hfork] at h hloses
  rcases hdis : runUntil (fun pindex σ => attempt (disconnectStep env pindex σ) σ)
    (PIndex.branch pfork node.best.pindexBest) node.session with ⟨σ, _ | e'⟩
  · simp only [hdis] at h hloses hamounts
    -- a failure from here on means that no block was connected
    have hkept : (∃ e', (runUntil (fun pindex σ =>
        attempt (connectStep params env node.best node.mempool node.pnext pindex σ) σ)
          (PIndex.branch pfork path).reverse σ).2 = some e') ∨ env.reorganizeCommitOk = false →
        (runUntil (fun pindex σ => attempt (connectStep params env node.best node.mempool node.pnext pindex σ) σ)
          (PIndex.branch pfork path).reverse σ).1 = σ := fun hfails => by
      refine runUntil_of_succeeded_nil (List.isEmpty_iff.1 ?_)
      rcases hfails with ⟨e', he⟩ | hcommit
      · simpa [he] using hloses
      · simpa [hcommit] using hloses
    rcases hcon : runUntil (fun pindex σ => attempt (connectStep params env node.best node.mempool node.pnext pindex σ) σ)
      (PIndex.branch pfork path).reverse σ with ⟨τ, _ | e'⟩
    · simp only [hcon] at h hkept
      cases hcommit : env.reorganizeCommitOk with
      | true => simp [hcommit] at h
      | false =>
        obtain rfl : τ = σ := hkept (.inr hcommit)
        simp only [hcommit, Bool.not_false, if_true] at h
        obtain ⟨rfl, -⟩ := Prod.mk.inj h
        exact hamounts
    · simp only [hcon] at h hkept
      obtain rfl : τ = σ := hkept (.inl ⟨e', rfl⟩)
      obtain ⟨rfl, -⟩ := Prod.mk.inj h
      exact hamounts
  · simp only [hdis] at h hamounts
    obtain ⟨rfl, -⟩ := Prod.mk.inj h
    exact hamounts

/-- A call of `SetBestChain` that fails and has lost no `ConnectBlock` leaves the amounts. -/
theorem setBestChain_amounts (hgen : node.pindexGenesisBlock ≠ []) (hloses : node.losesBatch params env p pprev = false)
    (h : setBestChain params env node p pprev = (node', .failed e)) :
    node'.nMint = node.nMint ∧ node'.nMoneySupply = node.nMoneySupply := by
  unfold setBestChain at h
  unfold Node.losesBatch at hloses
  rw [if_neg fun hc => hgen hc.1] at h
  split at h
  · next hprev =>
    rw [if_pos hprev] at hloses
    rcases hinner : setBestChainInner params env node p pprev with ⟨node₁, _ | e'⟩
    · simp [hinner] at h
    · rw [hinner] at h
      obtain ⟨rfl, -⟩ := Prod.mk.inj h
      exact setBestChainInner_amounts hloses hinner
  · next hprev =>
    rw [if_neg hprev] at hloses
    rcases hreorg : reorganize params env node (PIndex.postpone node.best.pindexBest.nChainTrust (p :: pprev)).2
      with ⟨node₁, _ | e'⟩
    · simp [hreorg] at h
    · simp only [hreorg] at h
      obtain ⟨rfl, -⟩ := Prod.mk.inj h
      exact reorganize_amounts hloses hreorg

end Lost

/-! ### The records of a node -/

/-- The records of the block index are those of the entries in memory. -/
def Node.Recorded {W : Type} (node : Node W) : Prop := RecordsMatch node.mapBlockIndex node.pnext node.session

section Node

variable [Crypto] {W : Type} [CWalletInterface W] {params : CChainParams} {env : ChainEnv}
  {A : CBlockIndex → PIndex → Prop} {J : PIndex → TxMap → Prop} {node node' : Node W} {f path pprev : PIndex}
  {p g : CBlockIndex}

omit [Crypto] [CWalletInterface W] in
/-- An entry that is not on the path has no pointer. -/
theorem nextOf_of_not_suffix {m : Uint256 → Option PIndex} (hI : IndexOk A g m) (hpath : Indexed m path)
    (hp : Indexed m (p :: pprev)) (hnot : ¬p :: pprev <:+ path) : nextOf path.hashes p.hash = none := by
  refine nextOf_eq_none fun hmem => hnot ?_
  obtain ⟨q, hq, hhash⟩ := List.mem_map.1 (List.mem_of_mem_tail hmem)
  obtain ⟨l, t, rfl⟩ := List.append_of_mem hq
  have hsuf : q :: t <:+ l ++ q :: t := List.suffix_append l _
  have hqm : m q.hash = some (q :: t) := (hI.suffix hpath hsuf (List.cons_ne_nil q t)).2
  have hpm : m p.hash = some (p :: pprev) := hp.2
  rw [hhash, hpm] at hqm
  rw [Option.some.inj hqm]
  exact hsuf

theorem Node.Recorded.setBestChainInner (hI : IndexOk A g node.mapBlockIndex)
    (hp : Indexed node.mapBlockIndex (p :: pprev)) (hne : pprev ≠ []) (hc : Committed J pprev node) (h : node.Recorded)
    (hok : setBestChainInner params env node p pprev = (node', none)) : node'.Recorded := by
  rcases setBestChainInner_cases params env node p pprev with ⟨σ, e, hcase⟩ | ⟨σ, hσ, -, hcase⟩
  · rw [hcase] at hok
    cases hok
  · rw [hcase, Prod.mk.injEq] at hok
    obtain ⟨rfl, -⟩ := hok
    have hprev := hI.suffix hp (List.suffix_cons p pprev) hne
    have hnone : node.pnext p.hash = none := by
      rw [hc.pnext]
      refine nextOf_of_not_suffix hI hprev hp fun hsuf => ?_
      have := hsuf.length_le
      rw [List.length_cons] at this
      omega
    have hrec : RecordsMatch node.mapBlockIndex (nextOf (PIndex.hashes pprev)) node.session := by
      rw [← hc.pnext]
      exact h
    have hnew := hrec.connectBlock hI hp hne hnone hσ
    have hlink : linkPrev node.pnext (p :: pprev) = nextOf (PIndex.hashes (p :: pprev)) := by
      cases pprev with
      | nil => exact absurd rfl hne
      | cons q qprev => rw [hc.pnext]; rfl
    change RecordsMatch node.mapBlockIndex (linkPrev node.pnext (p :: pprev)) _
    rw [hlink]
    exact fun k => hnew k

theorem Node.Recorded.reorganize (hJ : PathInvariant params A J) (hI : IndexOk A g node.mapBlockIndex)
    (hbest : Indexed node.mapBlockIndex node.best.pindexBest) (hnew : Indexed node.mapBlockIndex path)
    (hc : Committed J node.best.pindexBest node) (h : node.Recorded)
    (hok : reorganize params env node path = (node', none)) : node'.Recorded := by
  obtain ⟨hc', hsame⟩ := hc.reorganize hJ hI hbest hnew hok
  rcases reorganize_cases params env node path with ⟨σ, e, hcase⟩ | ⟨f, σ₁, σ, hfork, hdis, hcon, -, hcase⟩
  · rw [hcase] at hok
    cases hok
  rw [hcase, Prod.mk.injEq] at hok
  obtain ⟨hnode, -⟩ := hok
  obtain ⟨hne, hfbest, hfnew⟩ := PIndex.findFork_suffix hfork
  have hrec : RecordsMatch node.mapBlockIndex (nextOf node.best.pindexBest.hashes) node.session := by
    rw [← hc.pnext]
    exact h
  have hfork₁ := RecordsMatch.disconnectBranch hI hbest hne hfbest hrec hdis
  have hall := hfork₁.connectBranch hI hnew hne hfnew (fun p pprev hsuf hfp => ?_) hcon
  · obtain ⟨pool, w, hfin⟩ := finishReorganize_eq params env (PIndex.branch f node.best.pindexBest)
      (PIndex.branch f path).reverse (node.commit σ path.getBlockHash)
    rw [Node.Recorded, hc'.pnext, hsame.mapBlockIndex, ← hnode, hfin]
    exact fun k => hall k
  · -- a block above the fork is not on the old best chain
    rw [hc.pnext]
    refine nextOf_of_not_suffix hI hbest (hI.suffix hnew hsuf (List.cons_ne_nil p pprev)) fun hold => ?_
    have hle := (PIndex.suffix_findFork hfork hold hsuf).length_le
    have hlt := hfp.length_le
    rw [List.length_cons] at hle
    omega

theorem Node.Recorded.postponed (hJ : PathInvariant params A J) (hI : IndexOk A g node.mapBlockIndex)
    (hpath : Indexed node.mapBlockIndex path) (hne : f ≠ []) (hf : f <:+ path) (hc : Committed J f node)
    (h : node.Recorded)
    (hok : runUntil (postponedStep params env) (PIndex.branch f path).reverse node = (node', none)) :
    node'.Recorded := by
  refine (PIndex.run_branch_reverse
    (R := fun path (node' : Node W) => (Committed J path node' ∧ SameBest node node') ∧ node'.Recorded) hne hf
    (fun p pprev node₁ node₂ hsuf _ hpne h₁ hstep => ?_) ⟨⟨hc, SameBest.refl node⟩, h⟩ hok).2
  obtain ⟨⟨hc₁, hs₁⟩, hrec₁⟩ := h₁
  have hp := hI.suffix hpath hsuf (List.cons_ne_nil p pprev)
  obtain ⟨-, hinner⟩ := postponedStep_eq_none.1 hstep
  obtain ⟨hc₂, hs₂⟩ := hc₁.setBestChainInner hJ hpne (hI.accepted_suffix hpath hsuf hpne) hinner
  have hI₁ : IndexOk A g node₁.mapBlockIndex := by rw [hs₁.mapBlockIndex]; exact hI
  have hp₁ : Indexed node₁.mapBlockIndex (p :: pprev) := by rw [hs₁.mapBlockIndex]; exact hp
  exact ⟨⟨hc₂, hs₁.trans hs₂⟩, hrec₁.setBestChainInner hI₁ hp₁ hpne hc₁ hinner⟩

/-- **`SetBestChain` keeps the records**, unless it breaks out of the postponed blocks or loses a
`ConnectBlock`. -/
theorem setBestChain_recorded (hJ : PathInvariant params A J) (hok : node.Ok A J g)
    (hp : Indexed node.mapBlockIndex (p :: pprev)) (hne : pprev ≠ []) (h : node.Recorded)
    (hb : (setBestChain params env node p pprev).2.breaks = false)
    (hloses : node.losesBatch params env p pprev = false) : (setBestChain params env node p pprev).1.Recorded := by
  have hgen : node.pindexGenesisBlock ≠ [] := by simp [hok.genesis]
  rcases setBestChain_cases params env hgen p pprev with
    ⟨σ, e, hcase⟩ | ⟨node', hprev, hinner, hcase⟩ | ⟨inter, node₁, node₂, error, hine, hisuf, hreorg, hrun, hcase⟩
  · obtain ⟨hmint, hsupply⟩ := setBestChain_amounts hgen hloses hcase
    have hmint : σ.nMint = node.nMint := hmint
    have hsupply : σ.nMoneySupply = node.nMoneySupply := hsupply
    rw [hcase]
    intro k
    simp only [Node.keep, Node.session, hmint, hsupply]
    exact h k
  · rw [hcase]
    have hpar : pprev = node.best.pindexBest := by
      have h₁ := hok.index.parent _ p pprev hp.2 hne
      rw [← hok.index.prevHash _ p pprev hp.2 hne, hprev, hok.hashBestChain, hok.indexed.2] at h₁
      exact (Option.some.inj h₁).symm
    have hrec : node'.Recorded := h.setBestChainInner hok.index hp hne (hpar ▸ hok.committed) hinner
    exact hrec
  · rw [hcase] at hb ⊢
    cases error with
    | some e => simp [Outcome.breaks] at hb
    | none =>
      have hinter := hok.index.suffix hp hisuf hine
      obtain ⟨hc₁, hs₁⟩ := hok.committed.reorganize hJ hok.index hok.indexed hinter hreorg
      have hrec₁ := h.reorganize hJ hok.index hok.indexed hinter hok.committed hreorg
      have hI₁ : IndexOk A g node₁.mapBlockIndex := by rw [hs₁.mapBlockIndex]; exact hok.index
      have hp₁ : Indexed node₁.mapBlockIndex (p :: pprev) := by rw [hs₁.mapBlockIndex]; exact hp
      have hrec₂ : node₂.Recorded := hrec₁.postponed hJ hI₁ hp₁ hine hisuf hc₁ hrun
      exact hrec₂

omit [Crypto] [CWalletInterface W] in
/-- A new entry and its record. -/
theorem Node.Recorded.commitEntry (h : node.Recorded) (p : CBlockIndex) (pprev : PIndex) :
    ((node.insertEntry p pprev).commitEntry p pprev).Recorded := by
  intro k
  by_cases hk : k = p.hash
  · subst hk
    simp [Node.insertEntry, Node.commitEntry, Node.session, TxDB.writeBlockIndex, diskBlockIndex, blockRecord]
  · have hrec := h k
    simp only [Node.session] at hrec
    simp [Node.insertEntry, Node.commitEntry, Node.session, TxDB.writeBlockIndex, diskBlockIndex,
      Function.update_of_ne hk, hrec]

/-! ### Along a run -/

/-- An event that leaves memory and the records of the block index in step: no block has the hash 0,
which stands for no block; the commit of a new entry does not fail; `SetBestChain` does not break out of
the loop over the postponed blocks; and no `ConnectBlock` goes through whose batch is lost. -/
def Node.keepsIndex (params : CChainParams) (node : Node W) : NodeEvent → Bool
  | .tx .. => true
  | .block env b =>
    b.getHash != 0 && (acceptBlock params env node b).2 != .failed .fail && !(acceptBlock params env node b).2.breaks &&
      match node.chainCall params env b with
      | none => true
      | some (p, pprev) => !((node.insertEntry p pprev).commitEntry p pprev).losesBatch params env.chain p pprev

omit [CWalletInterface W] in
/-- What is known of the entry of a block: its key is the hash of the block, and names a block. -/
def Hashed (p : CBlockIndex) (_ : PIndex) : Prop := p.hash = p.block.getHash ∧ p.hash ≠ 0

/-- The memory and the database agree on the best chain and on the block index. -/
structure Node.IndexOnDisk (g : CBlockIndex) (node : Node W) : Prop where
  ok : node.Ok Hashed (fun _ _ => True) g
  recorded : node.Recorded
  finite : {h | (node.mapBlockIndex h).isSome = true}.Finite

theorem Node.IndexOnDisk.step (h : node.IndexOnDisk g) {event : NodeEvent}
    (hkeeps : node.keepsIndex params event = true) : (node.step params event).IndexOnDisk g := by
  have hJ : PathInvariant params Hashed (fun _ _ => True) := ⟨fun _ _ _ _ => trivial, fun _ _ _ => trivial⟩
  have hgen : node.pindexGenesisBlock ≠ [] := by simp [h.ok.genesis]
  have hfinite : {k | ((node.step params event).mapBlockIndex k).isSome = true}.Finite := by
    rcases step_mapBlockIndex params hgen event with hsame | ⟨env, b, hashProof, p, pprev, -, -, -, -, -, -, hsame⟩
    · rw [hsame.1]
      exact h.finite
    · refine (h.finite.insert p.hash).subset fun k hk => ?_
      rw [hsame.1, Set.mem_ofPred_eq, Node.insertEntry_mapBlockIndex] at hk
      by_cases hkp : k = p.hash
      · exact .inl hkp
      · rw [if_neg hkp] at hk
        exact .inr hk
  cases event with
  | tx env tx fLimitFree fRejectInsaneFee ignoreFees =>
    refine ⟨h.ok.step hJ (fun env b hmem => by simp at hmem) rfl, ?_, hfinite⟩
    simp only [Node.step]
    split
    · exact h.recorded
    · exact fun k => h.recorded k
  | block env b =>
    simp only [Node.keepsIndex, Bool.and_eq_true, bne_iff_ne, Bool.not_eq_eq_eq_not, Bool.not_true] at hkeeps
    obtain ⟨⟨⟨hhash, hfail⟩, hb⟩, hloses⟩ := hkeeps
    have hA : ∀ pprev hashProof pos modifier, pprev ≠ [] → checkAccept params env node b pprev = .ok hashProof →
        Hashed (newEntry b pos hashProof pprev modifier) pprev := fun _ _ _ _ _ _ => ⟨rfl, hhash⟩
    refine ⟨acceptBlock_ok hJ h.ok hA hb, ?_, hfinite⟩
    simp only [Node.step]
    rcases acceptBlock_chainCall params env node b with
      ⟨e, -, hcase⟩ | ⟨p, pprev, hashProof, pos, modifier, hp, hnew, hprev, hcheck, hcases⟩
    · rw [hcase]
      exact h.recorded
    rcases hcases with ⟨-, -, hcase⟩ | ⟨-, -, hcase⟩ | ⟨hcall, -, hcase⟩
    · rw [hcase] at hfail
      exact absurd rfl hfail
    · rw [hcase]
      exact h.recorded.commitEntry p pprev
    · subst hp
      have hpar := h.ok.index.indexed hprev
      obtain ⟨h₁, hi₁⟩ := h.ok.insertEntry (p := newEntry b pos hashProof pprev modifier) hnew hpar
        (h.ok.index.entry _ _ hprev).2.symm (hA pprev hashProof pos modifier hpar.1 hcheck)
      rw [hcase] at hb ⊢
      rw [hcall] at hloses
      exact setBestChain_recorded hJ (h₁.commitEntry _ _) hi₁ hpar.1 (h.recorded.commitEntry _ _) hb (by simpa using hloses)

/-- The genesis block that the parameters of a network have: its hash is that of the block, it names no
parent, and is not 0. -/
structure IsGenesis (g : CBlockIndex) : Prop where
  hash : g.hash = g.block.getHash
  hashPrevBlock : g.block.hashPrevBlock = 0
  ne_zero : g.hash ≠ 0

omit [CWalletInterface W] in
theorem Node.genesis_indexOnDisk (g : CBlockIndex) (wallets : W) : (Node.genesis g wallets).IndexOnDisk g := by
  refine ⟨Node.genesis_ok trivial wallets, fun k => ?_, ?_⟩
  · by_cases hk : k = g.hash
    · subst hk
      simp [Node.genesis, Node.session, blockRecord, nothing]
    · simp [Node.genesis, Node.session, nothing, Function.update_of_ne hk]
  · refine (Set.finite_singleton g.hash).subset fun k hk => ?_
    by_contra hne
    have hne : k ≠ g.hash := hne
    simp [Node.genesis, nothing, Function.update_of_ne hne] at hk

/-- **The block index stays on disk** along a run of such events. -/
theorem Node.IndexOnDisk.run (params : CChainParams) (g : CBlockIndex) (wallets : W) {events : List NodeEvent}
    (hkeeps : Along (Node.step params) (fun node event => node.keepsIndex params event = true)
      (Node.genesis g wallets) events) : ((Node.genesis g wallets).run params events).IndexOnDisk g :=
  invariant_of_along (fun _ _ _ hk h => h.step hk) hkeeps (Node.genesis_indexOnDisk g wallets)

end Node

end PayDayCoin
