import PayDayCoin.ChainLedger
import PayDayCoin.ChainSync

/-!
# What the transaction index says of the best chain

The ledger invariant (`LedgerOk`) is kept by connecting and disconnecting
(`pathInvariant_ledgerOk`), so along a run without a `break` the transaction index
belongs to the best chain, as long as no two different transactions have one hash
(**`run_ledgerOk`**). Three things follow, for the index of every state of the run, and of
every batch on it (`Reaches`):

* **`disconnectBlock_connectBlock`**: `DisconnectBlock` undoes `ConnectBlock`;
* **`run_spendsOnce`**: no output of the best chain is spent twice, and none before it is
  there;
* **`run_txidsUnique`**: no transaction identifier occurs twice in the best chain, and
  `ConnectBlock` overwrites no record.

After a `break` the index and `pindexBest` belong to different chains. The next
reorganization disconnects blocks that were never connected, and none of the three holds
any more (`Sample.node`).
-/

namespace PayDayCoin

open Library.Checks Library.Overlay Library.SpentOutputs

/-- The blocks that a run calls `AcceptBlock` on have their transactions in `S`. -/
def BlocksIn (S : Set CTransaction) (events : List NodeEvent) : Prop :=
  ∀ env b, .block env b ∈ events → ∀ tx ∈ b.vtx, tx ∈ S

section History

variable [Crypto] {W : Type} {params : CChainParams} {S : Set CTransaction} {node : Node W} {g p : CBlockIndex}
  {path pprev : PIndex} {T : TxMap}

/-- What `AcceptBlock` has checked of an entry: the height that its coinbase starts with. -/
def AcceptedIn (S : Set CTransaction) (p : CBlockIndex) (pprev : PIndex) : Prop :=
  HasHeightPrefix p pprev ∧ ∀ tx ∈ p.block.vtx, tx ∈ S

/-- **The height check of `AcceptBlock`.** -/
theorem hasHeightPrefix_of_checkAccept {env : AcceptEnv} {b : CBlock} {hashProof : Uint256} (hne : pprev ≠ [])
    (h : checkAccept params env node b pprev = .ok hashProof) (pos : BlockPos) (modifier : UInt64 × Bool) :
    HasHeightPrefix (newEntry b pos hashProof pprev modifier) pprev := by
  simp only [checkAccept, bind_eq_ok, rejectIf_eq_ok, pure_eq_ok] at h
  obtain ⟨-, -, -, -, -, -, -, -, -, -, -, -, -, -, -, -, -, -, -, -, -, hprefix, -⟩ := h
  have hheight : PIndex.nHeight pprev + 1 = pprev.length := by
    have := List.length_pos_iff.2 hne
    unfold PIndex.nHeight
    omega
  rw [Bool.not_eq_false', List.isPrefixOf_iff_prefix, hheight] at hprefix
  exact hprefix

theorem accepts_acceptedIn {events : List NodeEvent} (h : BlocksIn S events) :
    Accepts params W (AcceptedIn S) events :=
  fun env b hmem _ _ _ pos modifier hne hcheck =>
    ⟨hasHeightPrefix_of_checkAccept hne hcheck pos modifier, h env b hmem⟩

/-- `ConnectBlock` and `DisconnectBlock` keep the ledger invariant. -/
theorem pathInvariant_ledgerOk (hS : CollisionFree S) : PathInvariant params (AcceptedIn S) (LedgerOk S) where
  connect hne hA hT hcore := hT.connect hS hne hA.1 hA.2 hcore
  disconnect hne hT htxs := hT.disconnect hne htxs

variable [CWalletInterface W]

/-- **The transaction index belongs to the best chain** along a run without a `break`. -/
theorem run_ledgerOk {events : List NodeEvent} {wallets : W} (hS : CollisionFree S) (hin : BlocksIn S events)
    (hb : (Node.genesis g wallets).NoBreak params events) :
    ((Node.genesis g wallets).run params events).Ok (AcceptedIn S) (LedgerOk S) g :=
  Node.Ok.run (pathInvariant_ledgerOk hS) (Node.genesis_ok (ledgerOk_genesis g) wallets) (accepts_acceptedIn hin) hb

/-- The states of the transaction index in a batch: from the index `T₀` of the path
`path₀`, blocks that `AcceptBlock` has accepted are disconnected and connected. -/
inductive Reaches (params : CChainParams) (S : Set CTransaction) (path₀ : PIndex) (T₀ : TxMap) :
    PIndex → TxMap → Prop
  /-- The committed index. -/
  | committed : Reaches params S path₀ T₀ path₀ T₀
  /-- `ConnectBlock`. -/
  | connect {env : BlockEnv} {g : BestChain} {mempool : Uint256 → Option CTransaction} {p : CBlockIndex}
      {pprev : PIndex} {T : TxMap} {s : Tally} : Reaches params S path₀ T₀ pprev T → pprev ≠ [] →
      AcceptedIn S p pprev → p.block.connectBlockCore params env g mempool T p pprev = .ok s →
        Reaches params S path₀ T₀ (p :: pprev) (overlay s.mapQueuedChanges T)
  /-- `DisconnectBlock`. -/
  | disconnect {env : BlockEnv} {p : CBlockIndex} {pprev : PIndex} {T T' : TxMap} :
      Reaches params S path₀ T₀ (p :: pprev) T → pprev ≠ [] → p.block.disconnectTxs env T = .ok T' →
        Reaches params S path₀ T₀ pprev T'

omit [CWalletInterface W] in
theorem Reaches.ledgerOk {path₀ : PIndex} {T₀ : TxMap} (hS : CollisionFree S) (h₀ : LedgerOk S path₀ T₀)
    (h : Reaches params S path₀ T₀ path T) : LedgerOk S path T := by
  induction h with
  | committed => exact h₀
  | connect _ hne hA hcore ih => exact ih.connect hS hne hA.1 hA.2 hcore
  | disconnect _ hne htxs ih => exact ih.disconnect hne htxs

/-! ### Undoing a block -/

/-- **`DisconnectBlock` undoes `ConnectBlock`**: in every state of the transaction index
that a run without a `break` reaches, for every block that connects there, disconnecting it
gives back the index exactly, and does not fail when reads succeed. -/
theorem disconnectBlock_connectBlock {events : List NodeEvent} {wallets : W} {σ σ' : Session W}
    (hS : CollisionFree S) (hin : BlocksIn S events) (hb : (Node.genesis g wallets).NoBreak params events)
    (hT : Reaches params S ((Node.genesis g wallets).run params events).best.pindexBest
      ((Node.genesis g wallets).run params events).db.txIndex path σ.db.txIndex)
    (hA : AcceptedIn S p path) {env : BlockEnv} {best : BestChain} {mempool : Uint256 → Option CTransaction}
    {pnext : Uint256 → Option Uint256}
    (hok : p.block.connectBlock params env best mempool pnext p path σ = .ok σ') (env' : BlockEnv) :
    (∀ σ'', p.block.disconnectBlock env' p path σ' = .ok σ'' → σ''.db.txIndex = σ.db.txIndex) ∧
      ((∀ hash prevout, env'.disk.readTxIndexOk hash prevout = true) →
        ∃ σ'', p.block.disconnectBlock env' p path σ' = .ok σ'') := by
  have hl := hT.ledgerOk hS (run_ledgerOk hS hin hb).committed.records.txIndex
  obtain ⟨s, hcore, rfl⟩ := connectBlock_eq_ok.1 hok
  have hindex : (p.block.writeConnected pnext p path s σ).db.txIndex = overlay s.mapQueuedChanges σ.db.txIndex := by
    simp [CBlock.writeConnected]
  refine ⟨fun σ'' hdis => ?_, fun hread => ?_⟩
  · obtain ⟨T', htxs, rfl⟩ := disconnectBlock_eq_ok.1 hdis
    rw [hindex] at htxs
    simpa [CBlock.writeDisconnected] using disconnectTxs_eq hS hl hA.1 hA.2 hcore htxs
  · obtain ⟨T', htxs⟩ := disconnectTxs_isOk hS hl hA.1 hA.2 hcore hread
    exact ⟨_, disconnectBlock_eq_ok.2 ⟨T', by rw [hindex]; exact htxs, rfl⟩⟩

/-! ### Spending once -/

/-- The outpoints that a transaction spends; a coinbase spends none. -/
def CTransaction.spentOutpoints (tx : CTransaction) : List COutPoint :=
  if tx.isCoinBase then [] else tx.vin.map CTxIn.prevout

/-- The blocks of a path spend no output twice, and only outputs of transactions that
appear strictly earlier. The transactions are listed youngest first. -/
structure SpendsOnce (txs : List CTransaction) : Prop where
  /-- No outpoint is spent twice. -/
  nodup : (txs.flatMap CTransaction.spentOutpoints).Nodup
  /-- An outpoint that is spent is an output of an earlier transaction. -/
  earlier : ∀ younger tx older, txs = younger ++ tx :: older → ∀ prevout ∈ tx.spentOutpoints,
    ∃ txPrev ∈ older, txPrev.getHash = prevout.hash ∧ prevout.n.toNat < txPrev.vout.length

/-- An outpoint as the ledger sees it. -/
def COutPoint.toOutput (prevout : COutPoint) : Output Uint256 := (prevout.hash, prevout.n.toNat)

theorem txOf_inputs (tx : CTransaction) : (txOf tx).inputs = tx.spentOutpoints.map COutPoint.toOutput := by
  unfold txOf CTransaction.spentOutpoints
  split
  · rfl
  · rw [List.map_map]
    rfl

theorem spendsOnce_of_history {txs : List CTransaction} {L : Ledger Uint256 CDiskTxPos CDiskTxPos}
    (h : History (txs.map txOf) L) : SpendsOnce txs where
  nodup := by
    have hnd := h.nodup_inputs
    simp only [List.flatMap_map, txOf_inputs, ← List.map_flatMap] at hnd
    exact hnd.of_map
  earlier younger tx older heq prevout hmem := by
    have hsplit : txs.map txOf = younger.map txOf ++ txOf tx :: older.map txOf := by rw [heq]; simp
    have hin : prevout.toOutput ∈ (txOf tx).inputs := by
      rw [txOf_inputs]
      exact List.mem_map_of_mem hmem
    obtain ⟨t, ht, hid, hlt⟩ := h.exists_earlier hsplit _ hin
    obtain ⟨txPrev, hprev, rfl⟩ := List.mem_map.1 ht
    exact ⟨txPrev, hprev, hid, hlt⟩

/-- **No output is spent twice along a chain, and none before it is there**: in every
state that a run without a `break` reaches. -/
theorem run_spendsOnce {events : List NodeEvent} {wallets : W} (hS : CollisionFree S) (hin : BlocksIn S events)
    (hb : (Node.genesis g wallets).NoBreak params events)
    (hT : Reaches params S ((Node.genesis g wallets).run params events).best.pindexBest
      ((Node.genesis g wallets).run params events).db.txIndex path T) : SpendsOnce (chainTxs path) :=
  spendsOnce_of_history (hT.ledgerOk hS (run_ledgerOk hS hin hb).committed.records.txIndex).history

/-! ### Transaction identifiers -/

/-- The transactions of the blocks of a path, the genesis block's among them. -/
def pathTxs (path : PIndex) : List CTransaction := path.flatMap fun p => p.block.vtx.reverse

/-- The genesis block has one transaction, a coinbase that starts with the height. -/
structure GenesisOk (S : Set CTransaction) (g : CBlockIndex) (tx : CTransaction) : Prop where
  vtx : g.block.vtx = [tx]
  isCoinBase : tx.isCoinBase = true
  height : HasHeightPrefix g []
  mem : tx ∈ S

omit [Crypto] [CWalletInterface W] in
theorem pathTxs_eq (l : List CBlockIndex) : pathTxs (l ++ [g]) = chainTxs (l ++ [g]) ++ g.block.vtx.reverse := by
  induction l with
  | nil => simp [pathTxs, chainTxs]
  | cons p l ih =>
    have hcons : pathTxs (p :: (l ++ [g])) = p.block.vtx.reverse ++ pathTxs (l ++ [g]) := rfl
    rw [List.cons_append, hcons, ih, chainTxs_cons (by simp), List.append_assoc]

omit [CWalletInterface W] in
/-- Every chain reached starts at the genesis block. -/
theorem Reaches.exists_eq_append {path₀ : PIndex} {T₀ : TxMap} (h₀ : ∃ l, path₀ = l ++ [g])
    (h : Reaches params S path₀ T₀ path T) : ∃ l, path = l ++ [g] := by
  induction h with
  | committed => exact h₀
  | @connect _ _ _ p _ _ _ _ _ _ _ ih =>
    obtain ⟨l, rfl⟩ := ih
    exact ⟨p :: l, rfl⟩
  | disconnect _ hne _ ih =>
    obtain ⟨l, hl⟩ := ih
    cases l with
    | nil => exact absurd (List.cons.inj hl).2 hne
    | cons q l => exact ⟨l, (List.cons.inj hl).2⟩

omit [CWalletInterface W] in
/-- The transaction of the genesis block is none of those above it. -/
theorem LedgerOk.ne_genesis (hS : CollisionFree S) (hT : LedgerOk S path T) {tx₀ tx : CTransaction}
    (hg : GenesisOk S g tx₀) (hmem : tx ∈ chainTxs path) : tx.getHash ≠ tx₀.getHash := by
  intro hhash
  obtain ⟨q, qprev, hsuf, hne, hq⟩ := exists_block_of_mem_chainTxs hmem
  have hbq := hT.blocks q qprev hsuf hne
  obtain rfl : tx = tx₀ := hS (hbq.txs _ hq) hg.mem hhash
  obtain ⟨heq, hlen⟩ := coinbase_eq_head hbq.checked hq hg.isCoinBase
  have h₀ := hg.height
  have h₁ := hbq.height
  unfold HasHeightPrefix at h₀ h₁
  rw [hg.vtx, List.headD_cons] at h₀
  rw [← heq] at h₁ hlen
  have := CScript.pushInt64_prefix_inj hlen h₀ h₁
  rw [List.length_nil] at this
  exact hne (List.length_eq_zero_iff.1 this.symm)

omit [CWalletInterface W] in
/-- The index has no record of a transaction of a block that connects. -/
theorem LedgerOk.eq_none_of_connect (hS : CollisionFree S) (hT : LedgerOk S path T) (hA : AcceptedIn S p path)
    {env : BlockEnv} {best : BestChain} {mempool : Uint256 → Option CTransaction} {s : Tally}
    (hcore : p.block.connectBlockCore params env best mempool T p path = .ok s) {tx : CTransaction}
    (hmem : tx ∈ p.block.vtx) : T tx.getHash = none := by
  obtain ⟨-, hext, -⟩ := connectBlockCore_extends hS hT hA.1 hA.2 hcore
  have hnd := History.nodup_ids (Extends.append hT.history hext)
  rw [List.map_append, List.nodup_append] at hnd
  cases hr : T tx.getHash with
  | none => rfl
  | some txindex =>
    have hrec : ledgerOf T (txOf tx).id = some (recordOf txindex) := by simp [ledgerOf, txOf, hr]
    obtain ⟨t, ht, hid, -⟩ := hT.history.exists_tx hrec
    have htx : (txOf tx).id ∈ (p.block.vtx.reverse.map txOf).map Tx.id :=
      List.mem_map_of_mem (List.mem_map_of_mem (List.mem_reverse.2 hmem))
    exact absurd hid.symm (hnd.2.2 _ htx _ (List.mem_map_of_mem ht))

/-- **No transaction identifier occurs twice along a chain, and `ConnectBlock` overwrites
no record**: in every state that a run without a `break` reaches. -/
theorem run_txidsUnique {events : List NodeEvent} {wallets : W} {tx₀ : CTransaction} (hS : CollisionFree S)
    (hg : GenesisOk S g tx₀) (hin : BlocksIn S events) (hb : (Node.genesis g wallets).NoBreak params events)
    (hT : Reaches params S ((Node.genesis g wallets).run params events).best.pindexBest
      ((Node.genesis g wallets).run params events).db.txIndex path T) :
    ((pathTxs path).map CTransaction.getHash).Nodup ∧
      ∀ p env best mempool s, AcceptedIn S p path →
        p.block.connectBlockCore params env best mempool T p path = .ok s →
          ∀ tx ∈ p.block.vtx, T tx.getHash = none := by
  have hok := run_ledgerOk hS hin hb
  have hl := hT.ledgerOk hS hok.committed.records.txIndex
  refine ⟨?_, fun p env best mempool s hA hcore tx hmem => hl.eq_none_of_connect hS hA hcore hmem⟩
  obtain ⟨l, rfl⟩ := hT.exists_eq_append (hok.index.exists_eq_append hok.indexed)
  rw [pathTxs_eq, hg.vtx, List.map_append, List.nodup_append]
  refine ⟨?_, by simp, fun h hh h₀ hh₀ => ?_⟩
  · have hnd := hl.history.nodup_ids
    rw [List.map_map] at hnd
    exact hnd
  · obtain ⟨tx, hmem, rfl⟩ := List.mem_map.1 hh
    simp only [List.reverse_singleton, List.map_singleton, List.mem_singleton] at hh₀
    rw [hh₀]
    exact hl.ne_genesis hS hg hmem

end History

/-! ### The sample run -/

namespace Sample

/-- The transactions of the sample. -/
def txs : List CTransaction :=
  [genesisBlock, b₁, b₂, b₃, c₃, c₄, c₅].flatMap CBlock.vtx

/-- The transactions of the sample, as a set. -/
def txSet : Set CTransaction := {tx | tx ∈ txs}

/-- The sample's hash tells its transactions apart. -/
theorem collisionFree_txSet : CollisionFree txSet := by
  have h : ∀ tx ∈ txs, ∀ tx' ∈ txs, tx.getHash = tx'.getHash → tx = tx' := by decide
  exact fun tx htx tx' htx' heq => h tx htx tx' htx' heq

theorem mem_txs {b : CBlock} (hb : b ∈ [genesisBlock, b₁, b₂, b₃, c₃, c₄, c₅]) {tx : CTransaction} (htx : tx ∈ b.vtx) :
    tx ∈ txs := List.mem_flatMap.2 ⟨b, hb, htx⟩

/-- A run without a `break`: `b₂` is committed when it comes, and `c₃` follows it. -/
def calmEvents : List NodeEvent :=
  [.block (acceptEnv 1000 true) b₁, .block (acceptEnv 2000 true) b₂, .block (acceptEnv 4000 true) c₃]

/-- The node after that run. -/
abbrev calmNode : Node Unit := (Node.genesis genesis ()).run CChainParams.test calmEvents

theorem calm_noBreak : (Node.genesis genesis ()).NoBreak CChainParams.test calmEvents := by decide +kernel

-- the runs below are evaluated by `decide` only, not when terms are compared
attribute [local irreducible] Node.run

theorem calm_reaches : Reaches CChainParams.test txSet calmNode.best.pindexBest calmNode.db.txIndex
    calmNode.best.pindexBest calmNode.session.db.txIndex := .committed

theorem blocksIn_calm : BlocksIn txSet calmEvents := by
  intro env b hmem tx htx
  apply mem_txs (b := b) _ htx
  simp only [calmEvents, List.mem_cons, NodeEvent.block.injEq, List.not_mem_nil, or_false] at hmem ⊢
  rcases hmem with ⟨-, h⟩ | ⟨-, h⟩ | ⟨-, h⟩ <;> simp [h]

/-- The entry that `AcceptBlock` makes for `c₄` after that run. -/
def entry₄ : CBlockIndex := newEntry c₄ (blockPos 5000) c₄.getPoWHash calmNode.best.pindexBest (0, false)

/-- The height of `c₄`, and that it connects. -/
theorem entry₄_facts :
    heightPrefix calmNode.best.pindexBest.length <+: ((entry₄.block.vtx.headD default).vin.headD default).scriptSig ∧
    (entry₄.block.connectBlock CChainParams.test (blockEnv true) calmNode.best calmNode.mempool.lookup calmNode.pnext
      entry₄ calmNode.best.pindexBest calmNode.session).isOk = true := by
  constructor <;> decide +kernel

theorem acceptedIn_entry₄ : AcceptedIn txSet entry₄ calmNode.best.pindexBest :=
  ⟨entry₄_facts.1, fun tx htx => mem_txs (b := c₄) (by simp) htx⟩

/-- Connecting `c₄` and disconnecting it again. -/
theorem calm_disconnect_connect : ∃ σ' : Session Unit,
    entry₄.block.connectBlock CChainParams.test (blockEnv true) calmNode.best calmNode.mempool.lookup calmNode.pnext
        entry₄ calmNode.best.pindexBest calmNode.session = .ok σ' ∧
      (∀ σ'', entry₄.block.disconnectBlock (blockEnv true) entry₄ calmNode.best.pindexBest σ' = .ok σ'' →
        σ''.db.txIndex = calmNode.db.txIndex) ∧
      ((∀ hash prevout, (blockEnv true).disk.readTxIndexOk hash prevout = true) →
        ∃ σ'', entry₄.block.disconnectBlock (blockEnv true) entry₄ calmNode.best.pindexBest σ' = .ok σ'') := by
  obtain ⟨σ', hσ'⟩ := exists_eq_ok_of_isOk entry₄_facts.2
  exact ⟨σ', hσ', disconnectBlock_connectBlock collisionFree_txSet blocksIn_calm calm_noBreak calm_reaches
    acceptedIn_entry₄ hσ' (blockEnv true)⟩

theorem calm_spendsOnce : SpendsOnce (chainTxs calmNode.best.pindexBest) :=
  run_spendsOnce collisionFree_txSet blocksIn_calm calm_noBreak calm_reaches

theorem genesisOk : GenesisOk txSet genesis (genesisBlock.vtx.headD default) where
  vtx := rfl
  isCoinBase := rfl
  height := by unfold HasHeightPrefix; decide
  mem := mem_txs (b := genesisBlock) (by simp) List.mem_cons_self

theorem calm_txidsUnique : ((pathTxs calmNode.best.pindexBest).map CTransaction.getHash).Nodup :=
  (run_txidsUnique collisionFree_txSet genesisOk blocksIn_calm calm_noBreak calm_reaches).1

/-- The entry of `c₅`. -/
def entry₅ : CBlockIndex := (node 6).best.pindexBest.headD genesis

/-- The node before and after `c₅`, and what `c₅` leaves of the record of the first payment. -/
theorem node_six_facts :
    (do
      let σ' ← c₅.connectBlock CChainParams.test (blockEnv true) (node 5).best (node 5).mempool.lookup (node 5).pnext
        entry₅ (node 5).best.pindexBest (node 5).session
      let σ'' ← c₅.disconnectBlock (blockEnv true) entry₅ (node 5).best.pindexBest σ'
      return σ''.db.txIndex payment.getHash) = .ok none ∧
    (node 5).db.txIndex payment.getHash ≠ none ∧
    (node 6).db.connected = (node 6).best.pindexBest.hashes.dropLast ∧
    ¬((chainTxs (node 6).best.pindexBest).flatMap CTransaction.spentOutpoints).Nodup ∧
    ¬((pathTxs (node 6).best.pindexBest).map CTransaction.getHash).Nodup := by
  refine ⟨?_, ?_, ?_, ?_, ?_⟩ <;> decide +kernel

/-- **Disconnecting `c₅` does not restore the index**: it erases the record that the first
payment had before. -/
theorem node_five_not_restored : ∃ σ' σ'' : Session Unit,
    c₅.connectBlock CChainParams.test (blockEnv true) (node 5).best (node 5).mempool.lookup (node 5).pnext
        entry₅ (node 5).best.pindexBest (node 5).session = .ok σ' ∧
      c₅.disconnectBlock (blockEnv true) entry₅ (node 5).best.pindexBest σ' = .ok σ'' ∧
      σ''.db.txIndex ≠ (node 5).db.txIndex := by
  obtain ⟨hrun, hlive, -⟩ := node_six_facts
  simp only [bind_eq_ok, pure_eq_ok] at hrun
  obtain ⟨σ', hcon, σ'', hdis, hnone⟩ := hrun
  refine ⟨σ', σ'', hcon, hdis, fun heq => hlive ?_⟩
  rw [← heq]
  exact hnone

/-- **The best chain spends an output twice**, and each of its blocks has been connected. -/
theorem node_six_not_spendsOnce :
    (node 6).db.connected = (node 6).best.pindexBest.hashes.dropLast ∧
      ¬SpendsOnce (chainTxs (node 6).best.pindexBest) := by
  obtain ⟨-, -, hconnected, hnd, -⟩ := node_six_facts
  exact ⟨hconnected, fun h => hnd h.nodup⟩

/-- **A transaction identifier occurs twice in the best chain**, and connecting `c₅`
overwrote a record. -/
theorem node_six_not_txidsUnique : CollisionFree txSet ∧
    (node 6).db.connected = (node 6).best.pindexBest.hashes.dropLast ∧
      ¬((pathTxs (node 6).best.pindexBest).map CTransaction.getHash).Nodup ∧
        (node 5).db.txIndex payment.getHash ≠ none := by
  obtain ⟨-, hlive, hconnected, -, hnd⟩ := node_six_facts
  exact ⟨collisionFree_txSet, hconnected, hnd, hlive⟩

end Sample

end PayDayCoin
