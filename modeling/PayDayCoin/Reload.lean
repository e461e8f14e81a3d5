import PayDayCoin.BlockRecords
import PayDayCoin.LoadBlockIndex
import PayDayCoin.ChainSync

/-!
# Restarts

What `LoadBlockIndex` builds from the records that a node has written is what the node has in memory
(**`loadBlockIndex_run`**): for every block the same object, with its pointers, amounts, flags, stake and trust, the
same best block and the same stakes seen. This holds at the end of every run whose events keep the block index
(`Node.keepsIndex`). An event that does not leaves memory ahead of the records: the entry of a block whose
commit failed, amounts of a `ConnectBlock` whose batch was lost, or, after a `break`, a best block that the database does
not name. `Sample` has a run of each kind.
-/

namespace PayDayCoin

open Library Library.Checks Library.Overlay Library.Paths Library.Runs

/-! ### What is loaded -/

section Reload

variable [Crypto] {W : Type} {g p : CBlockIndex} {pprev path : PIndex} {node : Node W}

/-- The iterator goes over the records of the block index, over each once. -/
def TxDB.Iterates (db : TxDB) (iterator : List CDiskBlockIndex) : Prop :=
  iterator.Nodup ∧ ∀ r, r ∈ iterator ↔ ∃ h, db.blockIndex h = some r

/-- What is loaded is what a node has in memory. -/
structure LoadedIndex.Matches (loaded : LoadedIndex) (st : IndexedNode W) : Prop where
  mapBlockIndex : ∀ h, loaded.mapBlockIndex h = (st.mapBlockIndex h).bind st.toNode.entryOf
  pindexBest : loaded.pindexBest = some st.best.pindexBest.getBlockHash
  nBestHeight : loaded.nBestHeight = st.best.nBestHeight
  nBestChainTrust : loaded.nBestChainTrust = st.nBestChainTrust
  setStakeSeen : loaded.setStakeSeen = st.setStakeSeen

/-- The entry that a block of the index has, its hash and that of its parent. -/
theorem Node.IndexOnDisk.entry (h : node.IndexOnDisk g) (hg : IsGenesis g) {hash : Uint256}
    (hm : node.mapBlockIndex hash = some path) : ∃ p pprev, path = p :: pprev ∧ p.hash = hash ∧
      p.hash = p.block.getHash ∧ p.hash ≠ 0 ∧ p.block.hashPrevBlock = PIndex.getBlockHash pprev := by
  obtain ⟨hne, hhash⟩ := h.ok.index.entry hash path hm
  cases path with
  | nil => exact absurd rfl hne
  | cons p pprev =>
    refine ⟨p, pprev, rfl, hhash, ?_⟩
    by_cases hroot : pprev = []
    · subst hroot
      obtain rfl := h.ok.index.root hash p hm
      exact ⟨hg.hash, hg.ne_zero, hg.hashPrevBlock⟩
    · obtain ⟨hgood, hzero⟩ := h.ok.index.accepted hash p pprev hm hroot
      exact ⟨hgood, hzero, h.ok.index.prevHash hash p pprev hm hroot⟩

/-- A record of the iterator is that of an entry. -/
theorem Node.IndexOnDisk.record (h : node.IndexOnDisk g) {iterator : List CDiskBlockIndex}
    (hit : node.db.Iterates iterator) {r : CDiskBlockIndex} : r ∈ iterator ↔
      ∃ p pprev, node.mapBlockIndex p.hash = some (p :: pprev) ∧
        r = diskBlockIndex node.nMint node.nMoneySupply ((node.pnext p.hash).getD 0) p pprev := by
  rw [hit.2]
  constructor
  · rintro ⟨hash, hr⟩
    obtain ⟨path, hm, hrec⟩ := Option.bind_eq_some_iff.1 ((h.recorded hash).symm.trans hr)
    obtain ⟨hne, hhash⟩ := h.ok.index.entry hash path hm
    cases path with
    | nil => exact absurd rfl hne
    | cons p pprev =>
      have hp : p.hash = hash := hhash
      exact ⟨p, pprev, hp ▸ hm, (Option.some.inj hrec).symm⟩
  · rintro ⟨p, pprev, hm, rfl⟩
    have hrec := h.recorded p.hash
    rw [hm] at hrec
    exact ⟨p.hash, hrec⟩

/-- A `pnext` pointer leads to an entry. -/
theorem Node.IndexOnDisk.pnext (h : node.IndexOnDisk g) (hg : IsGenesis g) {k next : Uint256}
    (hnext : node.pnext k = some next) : next ≠ 0 ∧ ∃ path, node.mapBlockIndex next = some path := by
  rw [h.ok.committed.pnext] at hnext
  obtain ⟨q, hq, rfl⟩ := List.mem_map.1 (mem_of_nextOf hnext)
  obtain ⟨l, t, hbest⟩ := List.append_of_mem hq
  have hsuf : q :: t <:+ node.best.pindexBest := hbest ▸ List.suffix_append l _
  have hm := (h.ok.index.suffix h.ok.indexed hsuf (List.cons_ne_nil q t)).2
  obtain ⟨p, pprev, hpath, -, -, hne, -⟩ := h.entry hg hm
  exact ⟨(List.cons.inj hpath).1 ▸ hne, _, hm⟩

/-- The object of a record is that of its entry, but for the trust. -/
theorem Node.IndexOnDisk.ofRecord (h : node.IndexOnDisk g) (hg : IsGenesis g)
    (hm : node.mapBlockIndex p.hash = some (p :: pprev)) :
    LoadedIndex.ofRecord (diskBlockIndex node.nMint node.nMoneySupply ((node.pnext p.hash).getD 0) p pprev) =
      p.toEntry (if pprev = [] then none else some (PIndex.getBlockHash pprev)) (node.pnext p.hash) pprev.length 0
        (node.nMint p.hash) (node.nMoneySupply p.hash) := by
  have hprev : LoadedIndex.pointer (PIndex.getBlockHash pprev) =
      if pprev = [] then none else some (PIndex.getBlockHash pprev) := by
    by_cases hroot : pprev = []
    · subst hroot
      rfl
    · obtain ⟨q, qprev, rfl, -, -, hne, -⟩ := h.entry hg (h.ok.index.parent _ p pprev hm hroot)
      rw [if_neg hroot]
      exact if_neg hne
  have hnext : LoadedIndex.pointer ((node.pnext p.hash).getD 0) = node.pnext p.hash := by
    cases hp : node.pnext p.hash with
    | none => rfl
    | some next => exact if_neg (h.pnext hg hp).1
  have hrecord : LoadedIndex.ofRecord (diskBlockIndex node.nMint node.nMoneySupply ((node.pnext p.hash).getD 0) p pprev) =
      p.toEntry (LoadedIndex.pointer (PIndex.getBlockHash pprev)) (LoadedIndex.pointer ((node.pnext p.hash).getD 0))
        pprev.length 0 (node.nMint p.hash) (node.nMoneySupply p.hash) := rfl
  rw [hrecord, hprev, hnext]

/-- What the loop over the records leaves: the objects of the index, but for the trust. -/
theorem Node.IndexOnDisk.loadRecords (h : node.IndexOnDisk g) (hg : IsGenesis g) {iterator : List CDiskBlockIndex}
    (hit : node.db.Iterates iterator) (params : CChainParams) (env : LoadEnv) :
    ∃ loaded, (iterator.map CDiskBlockIndex.store).foldlM (LoadedIndex.loadRecord params env) {} = .ok loaded ∧
      (∀ k, loaded.mapBlockIndex k =
        ((node.mapBlockIndex k).bind node.entryOf).map fun e => { e with nChainTrust := 0 }) ∧
      (∀ k, k ∈ loaded.keys ↔ (loaded.mapBlockIndex k).isSome = true) ∧
      ∀ stake, stake ∈ loaded.setStakeSeen ↔ ∃ hash p pprev, node.mapBlockIndex hash = some (p :: pprev) ∧
        p.isProofOfStake = true ∧ p.block.getProofOfStake = stake := by
  have hnamed : ∀ r ∈ iterator, r.WellNamed := by
    intro r hr
    obtain ⟨p, pprev, hm, rfl⟩ := (h.record hit).1 hr
    obtain ⟨q, qprev, hpath, -, hgood, hzero, hprev⟩ := h.entry hg hm
    obtain ⟨rfl, rfl⟩ := List.cons.inj hpath
    refine ⟨?_, hzero⟩
    -- the header is put together from the fields of the block
    have hheader : (diskBlockIndex node.nMint node.nMoneySupply ((node.pnext p.hash).getD 0) p pprev).store.blockHash =
        headerHash p.block.nVersion (PIndex.getBlockHash pprev) p.block.hashMerkleRoot p.block.nTime p.block.nBits
          p.block.nNonce := rfl
    rw [hheader, ← hprev]
    exact hgood.symm
  have hnd : (iterator.map fun r => r.entry.hash).Nodup := by
    refine List.Nodup.map_on (fun r hr r' hr' heq => ?_) hit.1
    obtain ⟨p, pprev, hm, rfl⟩ := (h.record hit).1 hr
    obtain ⟨p', pprev', hm', rfl⟩ := (h.record hit).1 hr'
    have heq : p.hash = p'.hash := heq
    rw [heq, hm'] at hm
    obtain ⟨rfl, rfl⟩ := List.cons.inj (Option.some.inj hm)
    rfl
  obtain ⟨loaded, hload, hrecs⟩ := LoadedIndex.loaded_nil.loadRecords params env hnamed hnd
  refine ⟨loaded, hload, fun k => ?_, fun k => ?_, fun stake => ?_⟩
  · cases hm : node.mapBlockIndex k with
    | some path =>
      obtain ⟨p, pprev, rfl, rfl, -⟩ := h.entry hg hm
      have hr := (h.record hit).2 ⟨p, pprev, hm, rfl⟩
      have hobject := hrecs.object _ hr
      rw [h.ofRecord hg hm] at hobject
      exact hobject
    | none =>
      -- every hash that a record names is that of an entry
      by_contra hsome
      have hk : k ∈ LoadedIndex.namedBy iterator :=
        (hrecs.objects.isSome k).1 (Option.isSome_iff_ne_none.2 (by simpa using hsome))
      obtain ⟨hzero, r, hr, hname⟩ := hk
      obtain ⟨p, pprev, hp, rfl⟩ := (h.record hit).1 hr
      rcases hname with hname | hname | hname
      · have hname : k = p.hash := hname
        rw [hname, hp] at hm
        cases hm
      · have hname : k = PIndex.getBlockHash pprev := hname
        by_cases hroot : pprev = []
        · subst hroot
          exact hzero hname
        · rw [hname, h.ok.index.parent _ p pprev hp hroot] at hm
          cases hm
      · have hname : k = (node.pnext p.hash).getD 0 := hname
        cases hnext : node.pnext p.hash with
        | none =>
          rw [hnext] at hname
          exact hzero hname
        | some next =>
          obtain ⟨-, path, hpath⟩ := h.pnext hg hnext
          rw [hname, hnext, Option.getD_some, hpath] at hm
          cases hm
  · rw [hrecs.objects.keys, hrecs.objects.isSome]
  · rw [hrecs.stakes]
    constructor
    · rintro ⟨r, hr, hpos, hstake⟩
      obtain ⟨p, pprev, hp, rfl⟩ := (h.record hit).1 hr
      exact ⟨p.hash, p, pprev, hp, hpos, hstake⟩
    · rintro ⟨hash, p, pprev, hp, hpos, hstake⟩
      obtain ⟨q, qprev, hpath, hhash, -⟩ := h.entry hg hp
      obtain ⟨rfl, rfl⟩ := List.cons.inj hpath
      exact ⟨_, (h.record hit).2 ⟨p, pprev, hhash ▸ hp, rfl⟩, hpos, hstake⟩

/-- The loop that adds up the trust gives each object the trust of its entry. -/
theorem Node.IndexOnDisk.calculateTrust (h : node.IndexOnDisk g) (hg : IsGenesis g) {loaded : LoadedIndex}
    (hmap : ∀ k, loaded.mapBlockIndex k =
      ((node.mapBlockIndex k).bind node.entryOf).map fun e => { e with nChainTrust := 0 })
    (hkeys : ∀ k, k ∈ loaded.keys ↔ (loaded.mapBlockIndex k).isSome = true) (env : LoadEnv) (k : Uint256) :
    (loaded.calculateTrust env).mapBlockIndex k = (node.mapBlockIndex k).bind node.entryOf := by
  have hentry : ∀ {k e}, loaded.mapBlockIndex k = some e → ∃ p pprev, node.mapBlockIndex k = some (p :: pprev) ∧
      p.hash = k ∧ e = p.toEntry (if pprev = [] then none else some (PIndex.getBlockHash pprev)) (node.pnext p.hash)
        pprev.length 0 (node.nMint p.hash) (node.nMoneySupply p.hash) := by
    intro k e he
    rw [hmap] at he
    obtain ⟨e', he', rfl⟩ := Option.map_eq_some_iff.1 he
    obtain ⟨path, hm, hpath⟩ := Option.bind_eq_some_iff.1 he'
    obtain ⟨p, pprev, rfl, hhash, -⟩ := h.entry hg hm
    obtain rfl := Option.some.inj hpath
    exact ⟨p, pprev, hm, hhash, rfl⟩
  have hsome : ∀ {k path}, node.mapBlockIndex k = some path → (loaded.mapBlockIndex k).isSome = true := by
    intro k path hm
    obtain ⟨p, pprev, rfl, -⟩ := h.entry hg hm
    rw [hmap, hm]
    rfl
  have hparent : ∀ k e q, loaded.mapBlockIndex k = some e → e.pprev = some q →
      ∃ p pprev, node.mapBlockIndex k = some (p :: pprev) ∧ node.mapBlockIndex q = some pprev ∧ pprev ≠ [] ∧
        q = PIndex.getBlockHash pprev := by
    intro k e q he hq
    obtain ⟨p, pprev, hm, rfl, rfl⟩ := hentry he
    have hq : (if pprev = [] then none else some (PIndex.getBlockHash pprev)) = some q := hq
    obtain ⟨hne, hq⟩ := Option.ite_none_left_eq_some.1 hq
    obtain rfl := Option.some.inj hq
    exact ⟨p, pprev, hm, h.ok.index.parent _ p pprev hm hne, hne, rfl⟩
  have hheight : ∀ {k p pprev}, node.mapBlockIndex k = some (p :: pprev) → loaded.nHeight k = pprev.length := by
    intro k p pprev hm
    obtain ⟨e, he⟩ := Option.isSome_iff_exists.1 (hsome hm)
    obtain ⟨p', pprev', hm', -, rfl⟩ := hentry he
    obtain ⟨rfl, rfl⟩ := List.cons.inj (Option.some.inj (hm.symm.trans hm'))
    rw [LoadedIndex.nHeight, he]
    rfl
  have hmem : ∀ k, k ∈ loaded.keys.mergeSort (loaded.before env) ↔ (loaded.mapBlockIndex k).isSome = true := fun k => by
    rw [List.mem_mergeSort, hkeys]
  have hpass : ∀ k ∈ loaded.keys.mergeSort (loaded.before env),
      Ranked.pass (LoadedIndex.parentIn loaded.mapBlockIndex) (LoadedIndex.trustIn loaded.mapBlockIndex)
        (loaded.keys.mergeSort (loaded.before env)) (fun k => LoadedIndex.trustOf loaded.mapBlockIndex (some k)) k =
      ((node.mapBlockIndex k).map PIndex.nChainTrust).getD 0 := by
    refine Ranked.pass_eq (fun k hk => ?_) (fun k hk q hq => ?_) (loaded.pairwise_sorted env)
    · obtain ⟨e, he⟩ := Option.isSome_iff_exists.1 ((hmem k).1 hk)
      obtain ⟨p, pprev, hm, rfl, rfl⟩ := hentry he
      simp only [LoadedIndex.trustIn, LoadedIndex.parentIn, he, hm, Option.map_some, Option.bind_some, Option.getD_some,
        PIndex.nChainTrust, CBlockIndex.toEntry]
      congr 1
      by_cases hroot : pprev = []
      · subst hroot
        rfl
      · simp [hroot, h.ok.index.parent _ p pprev hm hroot]
    · obtain ⟨e, he, hq⟩ := Option.bind_eq_some_iff.1 hq
      obtain ⟨p, pprev, hm, hmq, hne, -⟩ := hparent k e q he hq
      refine ⟨(hmem q).2 (hsome hmq), ?_⟩
      cases pprev with
      | nil => exact absurd rfl hne
      | cons p' pprev' =>
        rw [hheight hm, hheight hmq]
        exact Nat.lt_succ_self _
  rw [LoadedIndex.calculateTrust]
  simp only
  rw [LoadedIndex.foldl_addTrust (fun k hk => (hmem k).1 hk) fun k e q he hq => by
    obtain ⟨p, pprev, -, hq, -⟩ := hparent k e q he hq
    exact hsome hq]
  cases hm : node.mapBlockIndex k with
  | none =>
    rw [hmap, hm]
    rfl
  | some path =>
    obtain ⟨p, pprev, rfl, -⟩ := h.entry hg hm
    rw [hpass k ((hmem k).2 (hsome hm)), hmap, hm]
    rfl

/-- **Loading restores the memory** of a node whose block index is on disk. -/
theorem IndexedNode.load_matches {st : IndexedNode W} (h : st.toNode.IndexOnDisk g) (hg : IsGenesis g)
    (hseen : st.SeesStakes) {iterator : List CDiskBlockIndex} (hit : st.db.Iterates iterator) (params : CChainParams)
    (env : LoadEnv) :
    ∃ loaded, loadBlockIndex params env iterator st.db.hashBestChain = .ok loaded ∧ loaded.Matches st := by
  obtain ⟨records, hload, hmap, hkeys, hstakes⟩ := h.loadRecords hg hit params env
  have htrust := h.calculateTrust hg hmap hkeys env
  obtain ⟨p, pprev, hbest, hhash, -⟩ := h.entry hg h.ok.indexed.2
  have hentry := htrust st.best.pindexBest.getBlockHash
  rw [h.ok.indexed.2, Option.bind_some] at hentry
  have hpath : st.toNode.entryOf st.best.pindexBest = some (p.toEntry
      (if pprev = [] then none else some (PIndex.getBlockHash pprev)) (st.pnext p.hash) pprev.length
        (PIndex.nChainTrust (p :: pprev)) (st.nMint p.hash) (st.nMoneySupply p.hash)) := by
    rw [hbest]
    rfl
  rw [hpath] at hentry
  refine ⟨{ records.calculateTrust env with
    pindexBest := some st.best.pindexBest.getBlockHash
    nBestHeight := pprev.length
    nBestChainTrust := PIndex.nChainTrust (p :: pprev) }, ?_, ?_⟩
  · rw [loadBlockIndex, bind_eq_ok]
    refine ⟨records, hload, ?_⟩
    rw [h.ok.committed.hashBestChain, LoadedIndex.loadBest]
    simp only [hentry]
    rfl
  · refine ⟨htrust, rfl, ?_, ?_, ?_⟩
    · rw [h.ok.nBestHeight, hbest]
      rfl
    · rw [h.ok.nBestChainTrust, hbest]
    · ext stake
      exact (hstakes stake).trans (hseen stake).symm

omit [Crypto] in
/-- A finite set of records can be gone through. -/
theorem TxDB.exists_iterates {db : TxDB} (h : {k | (db.blockIndex k).isSome = true}.Finite) :
    ∃ iterator, db.Iterates iterator := by
  have hfinite : {r | ∃ k, db.blockIndex k = some r}.Finite := by
    refine ((h.image db.blockIndex).preimage (Option.some_injective _).injOn).subset ?_
    rintro r ⟨k, hk⟩
    exact ⟨k, Option.isSome_iff_exists.2 ⟨r, hk⟩, hk⟩
  refine ⟨hfinite.toFinset.toList, Finset.nodup_toList _, fun r => ?_⟩
  rw [Finset.mem_toList, Set.Finite.mem_toFinset]
  rfl

variable [CWalletInterface W]

/-- **Loading restores the memory** at the end of every run whose events leave the block index on disk. -/
theorem loadBlockIndex_run (params : CChainParams) (hg : IsGenesis g) (wallets : W) (events : List NodeEvent)
    (hkeeps : Along (Node.step params) (fun node event => node.keepsIndex params event = true)
      (Node.genesis g wallets) events) (env : LoadEnv) (iterator : List CDiskBlockIndex)
    (hit : ((IndexedNode.genesis g wallets).run params events).db.Iterates iterator) :
    ∃ loaded, loadBlockIndex params env iterator ((IndexedNode.genesis g wallets).run params events).db.hashBestChain =
      .ok loaded ∧ loaded.Matches ((IndexedNode.genesis g wallets).run params events) := by
  refine IndexedNode.load_matches ?_ hg (IndexedNode.SeesStakes.run params g wallets events) hit params env
  rw [IndexedNode.toNode_run]
  exact Node.IndexOnDisk.run params g wallets hkeeps

end Reload

/-! ### The records of any run -/

/-- The database has finitely many records of blocks. -/
def TxDB.FiniteRecords (db : TxDB) : Prop := {k | (db.blockIndex k).isSome = true}.Finite

theorem TxDB.FiniteRecords.writeBlockIndex {db : TxDB} (h : db.FiniteRecords) (r : CDiskBlockIndex) :
    (db.writeBlockIndex r).FiniteRecords := by
  refine (h.insert r.entry.hash).subset fun k hk => ?_
  by_cases hkr : k = r.entry.hash
  · exact .inl hkr
  · have hk : (Function.update db.blockIndex r.entry.hash (some r) k).isSome = true := hk
    rw [Function.update_of_ne hkr] at hk
    exact .inr hk

theorem TxDB.FiniteRecords.writePrev {db : TxDB} (h : db.FiniteRecords) (nMint nMoneySupply : Uint256 → ℤ)
    (next : Uint256) (pprev : PIndex) : (PayDayCoin.writePrev nMint nMoneySupply next pprev db).FiniteRecords := by
  cases pprev with
  | nil => exact h
  | cons q qprev => exact h.writeBlockIndex _

section Finite

variable [Crypto] {W : Type} [CWalletInterface W] {params : CChainParams} {p : CBlockIndex} {pprev : PIndex}

theorem disconnectStep_finite (env : ChainEnv) (path : PIndex) (σ : Session W) (h : σ.db.FiniteRecords) :
    (attempt (disconnectStep env path σ) σ).1.db.FiniteRecords := by
  cases hstep : disconnectStep env path σ with
  | error e => exact h
  | ok σ' =>
    cases path with
    | nil =>
      obtain rfl := Except.ok.inj hstep
      exact h
    | cons p pprev =>
      obtain ⟨-, hdis⟩ := disconnectStep_eq_ok.1 hstep
      obtain ⟨T, -, rfl⟩ := disconnectBlock_eq_ok.1 hdis
      have hdb : ({ σ.db with txIndex := T, connected := σ.db.connected.erase p.hash } : TxDB).FiniteRecords := h
      exact hdb.writePrev σ.nMint σ.nMoneySupply 0 pprev

theorem connectBlock_finite {env : BlockEnv} {best : BestChain} {mempool : Uint256 → Option CTransaction}
    {pnext : Uint256 → Option Uint256} {σ σ' : Session W} (h : σ.db.FiniteRecords)
    (hok : p.block.connectBlock params env best mempool pnext p pprev σ = .ok σ') : σ'.db.FiniteRecords := by
  obtain ⟨s, -, rfl⟩ := connectBlock_eq_ok.1 hok
  have hdb : ∀ r T l, ({ σ.db.writeBlockIndex r with txIndex := T, connected := l } : TxDB).FiniteRecords :=
    fun r _ _ => h.writeBlockIndex r
  exact (hdb _ _ _).writePrev _ _ p.hash pprev

theorem connectStep_finite (params : CChainParams) (env : ChainEnv) (best : BestChain) (mempool : CTxMemPool)
    (pnext : Uint256 → Option Uint256) (path : PIndex) (σ : Session W) (h : σ.db.FiniteRecords) :
    (attempt (connectStep params env best mempool pnext path σ) σ).1.db.FiniteRecords := by
  cases hstep : connectStep params env best mempool pnext path σ with
  | error e => exact h
  | ok σ' =>
    cases path with
    | nil =>
      obtain rfl := Except.ok.inj hstep
      exact h
    | cons p pprev => exact connectBlock_finite h (connectStep_eq_ok.1 hstep).2

theorem setBestChainInner_finite {node : Node W} (h : node.db.FiniteRecords) (params : CChainParams) (env : ChainEnv)
    (p : CBlockIndex) (pprev : PIndex) : (setBestChainInner params env node p pprev).1.db.FiniteRecords := by
  rcases setBestChainInner_cases params env node p pprev with ⟨σ, e, hcase⟩ | ⟨σ, hσ, -, hcase⟩ <;> rw [hcase]
  · exact h
  · exact connectBlock_finite (σ := node.session) h hσ

theorem reorganize_finite {node : Node W} (h : node.db.FiniteRecords) (params : CChainParams) (env : ChainEnv)
    (path : PIndex) : (reorganize params env node path).1.db.FiniteRecords := by
  rcases reorganize_cases params env node path with ⟨σ, e, hcase⟩ | ⟨f, σ₁, σ, -, hdis, hcon, -, hcase⟩
  · rw [hcase]
    exact h
  · have h₁ := runUntil_induct (P := fun σ : Session W => σ.db.FiniteRecords)
      (l := PIndex.branch f node.best.pindexBest) (s := node.session)
      (fun pindex _ σ hσ => disconnectStep_finite env pindex σ hσ) h
    rw [hdis] at h₁
    have h₂ := runUntil_induct (P := fun σ : Session W => σ.db.FiniteRecords) (l := (PIndex.branch f path).reverse)
      (fun pindex _ σ hσ => connectStep_finite params env node.best node.mempool node.pnext pindex σ hσ) h₁
    rw [hcon] at h₂
    obtain ⟨pool, w, hfin⟩ := finishReorganize_eq params env (PIndex.branch f node.best.pindexBest)
      (PIndex.branch f path).reverse (node.commit σ path.getBlockHash)
    rw [hcase, hfin]
    exact h₂

theorem setBestChain_finite {node : Node W} (hgen : node.pindexGenesisBlock ≠ []) (h : node.db.FiniteRecords)
    (params : CChainParams) (env : ChainEnv) (p : CBlockIndex) (pprev : PIndex) :
    (setBestChain params env node p pprev).1.db.FiniteRecords := by
  rcases setBestChain_cases params env hgen p pprev with
    ⟨σ, e, hcase⟩ | ⟨node', -, hinner, hcase⟩ | ⟨inter, node₁, node₂, error, -, -, hreorg, hrun, hcase⟩ <;> rw [hcase]
  · exact h
  · have hnode := setBestChainInner_finite h params env p pprev
    rw [hinner] at hnode
    exact hnode
  · have h₁ := reorganize_finite h params env inter
    rw [hreorg] at h₁
    have h₂ := runUntil_induct (P := fun node : Node W => node.db.FiniteRecords)
      (l := (PIndex.branch inter (p :: pprev)).reverse) (f := postponedStep params env) (fun pindex _ node hnode => ?_) h₁
    · rw [hrun] at h₂
      exact h₂
    · cases pindex with
      | nil => exact hnode
      | cons q qprev =>
        unfold postponedStep
        simp only
        split
        · exact hnode
        · exact setBestChainInner_finite hnode params env q qprev

/-- **In every run** the database has finitely many records of blocks. -/
theorem Node.run_finiteRecords (params : CChainParams) (g : CBlockIndex) (wallets : W) (events : List NodeEvent) :
    ((Node.genesis g wallets).run params events).db.FiniteRecords := by
  refine (run_induct (I := fun node : Node W => node.IndexedFrom g ∧ node.db.FiniteRecords)
    (fun event _ node h => ⟨h.1.step event, ?_⟩) ⟨⟨rfl, IndexOk.genesis g⟩, ?_⟩).2
  · obtain ⟨hfrom, hnode⟩ := h
    cases event with
    | tx env tx fLimitFree fRejectInsaneFee ignoreFees =>
      simp only [Node.step]
      split
      · exact hnode
      · exact hnode
    | block env b =>
      simp only [Node.step]
      rcases acceptBlock_chainCall params env node b with ⟨e, -, hcase⟩ | ⟨p, pprev, -, -, -, -, -, -, -, hcases⟩
      · rw [hcase]
        exact hnode
      rcases hcases with ⟨-, -, hcase⟩ | ⟨-, -, hcase⟩ | ⟨-, -, hcase⟩ <;> rw [hcase]
      · exact hnode
      · exact TxDB.FiniteRecords.writeBlockIndex hnode _
      · have hcommitted : ((node.insertEntry p pprev).commitEntry p pprev).db.FiniteRecords :=
          TxDB.FiniteRecords.writeBlockIndex hnode _
        have hgen : ((node.insertEntry p pprev).commitEntry p pprev).pindexGenesisBlock ≠ [] := by
          change node.pindexGenesisBlock ≠ []
          rw [hfrom.1]
          exact List.cons_ne_nil g []
        exact setBestChain_finite hgen hcommitted params env.chain p pprev
  · refine (Set.finite_singleton g.hash).subset fun k hk => ?_
    by_contra hne
    have hne : k ≠ g.hash := hne
    simp [Node.genesis, nothing, Function.update_of_ne hne] at hk

end Finite

/-! ### Restarts -/

namespace Sample

theorem isGenesis_genesis : IsGenesis genesis := ⟨by decide, rfl, by decide⟩

/-- What loading reads: an early clock, so that every hash is computed. -/
def loadEnv : LoadEnv := ⟨true, 0, fun h => h.toNat⟩

/-- `b₃` is rejected, for its payment spends what `b₂` has spent, and the chain goes on with `c₃`. -/
def keptEvents : List NodeEvent :=
  [.block (acceptEnv 1000 true) b₁, .block (acceptEnv 2000 true) b₂, .block (acceptEnv 3000 true) b₃,
    .block (acceptEnv 4000 true) c₃]

/-- After these events a restart changes nothing. -/
theorem keptEvents_reloaded : ∃ iterator loaded,
    ((IndexedNode.genesis genesis ()).run CChainParams.test keptEvents).db.Iterates iterator ∧
      loadBlockIndex CChainParams.test loadEnv iterator
        ((IndexedNode.genesis genesis ()).run CChainParams.test keptEvents).db.hashBestChain = .ok loaded ∧
      loaded.Matches ((IndexedNode.genesis genesis ()).run CChainParams.test keptEvents) := by
  have hkeeps : Along (Node.step CChainParams.test) (fun node event => node.keepsIndex CChainParams.test event = true)
      (Node.genesis genesis ()) keptEvents := by decide +kernel
  obtain ⟨iterator, hit⟩ := TxDB.exists_iterates (Node.run_finiteRecords CChainParams.test genesis () keptEvents)
  have hnode : ((IndexedNode.genesis genesis ()).run CChainParams.test keptEvents).toNode =
      (Node.genesis genesis ()).run CChainParams.test keptEvents := IndexedNode.toNode_run ..
  rw [← hnode] at hit
  obtain ⟨loaded, hload, hmatches⟩ :=
    loadBlockIndex_run CChainParams.test isGenesis_genesis () keptEvents hkeeps loadEnv iterator hit
  exact ⟨iterator, loaded, hit, hload, hmatches⟩

/-- The first events of the run with a `break`, with the stakes seen. -/
def brokenNode : IndexedNode Unit := (IndexedNode.genesis genesis ()).run CChainParams.test (events.take 3)

/-- **After the `break` a restart goes back**: whatever is loaded has `b₂` as its best block, and not the one
in memory. -/
theorem brokenNode_not_reloaded : ∃ iterator, brokenNode.db.Iterates iterator ∧
    ¬∃ loaded, loadBlockIndex CChainParams.test loadEnv iterator brokenNode.db.hashBestChain = .ok loaded ∧
      loaded.Matches brokenNode := by
  have hnode : brokenNode.toNode = node 3 := IndexedNode.toNode_run ..
  obtain ⟨iterator, hit⟩ := TxDB.exists_iterates (Node.run_finiteRecords CChainParams.test genesis () (events.take 3))
  refine ⟨iterator, hnode ▸ hit, ?_⟩
  rintro ⟨loaded, hload, hmatches⟩
  have hstored : brokenNode.db.hashBestChain = some b₂.getHash := by
    rw [hnode]
    decide +kernel
  have hmemory : brokenNode.best.pindexBest.getBlockHash ≠ b₂.getHash := by
    rw [hnode]
    decide +kernel
  rw [hstored, loadBlockIndex, bind_eq_ok] at hload
  obtain ⟨records, -, hbest⟩ := hload
  unfold LoadedIndex.loadBest at hbest
  simp only at hbest
  split at hbest
  · cases hbest
  · obtain rfl := Except.ok.inj hbest
    exact hmemory (Option.some.inj hmatches.pindexBest).symm

end Sample

end PayDayCoin
