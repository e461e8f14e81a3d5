import PayDayCoin.AcceptBlock
import PayDayCoin.TxLedger

/-!
# The transaction index along a chain

`LedgerOk S path T` says what the transaction index `T` has to do with the path whose
blocks are connected: as a ledger, it has come about by entering the transactions of the
path's blocks, the genesis block's aside, each of them new; and the blocks have passed
`CheckBlock` and the height check of `AcceptBlock`. The transactions are among `S`, on
which the hash has no collisions.

`ConnectBlock` keeps this (**`LedgerOk.connect`**): the transactions of the block are new,
a coinbase by its height prefix, any other because an output it claims would be claimed
twice. `DisconnectBlock` keeps it too (**`LedgerOk.disconnect`**), and undoes what
`ConnectBlock` did (**`disconnectTxs_eq`**).
-/

namespace PayDayCoin

open Library.Checks Library.Overlay Library.SpentOutputs

/-- The transactions of the blocks of a path, youngest first, but for the genesis block,
whose transactions are not in the index. -/
def chainTxs : PIndex → List CTransaction
  | p :: q :: pprev => p.block.vtx.reverse ++ chainTxs (q :: pprev)
  | _ => []

/-- The coinbase of a block starts with the block's height, as `AcceptBlock` demands. -/
def HasHeightPrefix (p : CBlockIndex) (pprev : PIndex) : Prop :=
  heightPrefix pprev.length <+: ((p.block.vtx.headD default).vin.headD default).scriptSig

/-- Transactions that are the same have the same hash, and no others do. -/
def CollisionFree [Crypto] (S : Set CTransaction) : Prop := Set.InjOn CTransaction.getHash S

section Ledger

variable [Crypto]

/-- What is known of a block connected on top of `pprev`. -/
structure BlockOk (S : Set CTransaction) (p : CBlockIndex) (pprev : PIndex) : Prop where
  checked : p.block.Checked
  height : HasHeightPrefix p pprev
  txs : ∀ tx ∈ p.block.vtx, tx ∈ S

/-- The transaction index `T` belongs to the path whose blocks are connected. -/
structure LedgerOk (S : Set CTransaction) (path : PIndex) (T : TxMap) : Prop where
  /-- The index reads as a ledger without loss. -/
  canonical : Canonical T
  /-- The ledger has come about from the transactions of the path. -/
  history : History ((chainTxs path).map txOf) (ledgerOf T)
  /-- The blocks above the genesis block are in order. -/
  blocks : ∀ p pprev, p :: pprev <:+ path → pprev ≠ [] → BlockOk S p pprev

variable {params : CChainParams} {env : BlockEnv} {g : BestChain} {mempool : Uint256 → Option CTransaction}
  {S : Set CTransaction} {T : TxMap} {p : CBlockIndex} {pprev : PIndex}

omit [Crypto] in
theorem chainTxs_cons (h : pprev ≠ []) : chainTxs (p :: pprev) = p.block.vtx.reverse ++ chainTxs pprev := by
  cases pprev with
  | nil => exact absurd rfl h
  | cons q pprev => rfl

omit [Crypto] in
/-- A transaction of a path is in one of its blocks. -/
theorem exists_block_of_mem_chainTxs {path : PIndex} {tx : CTransaction} (h : tx ∈ chainTxs path) :
    ∃ p pprev, p :: pprev <:+ path ∧ pprev ≠ [] ∧ tx ∈ p.block.vtx := by
  induction path with
  | nil => simp [chainTxs] at h
  | cons p pprev ih =>
    by_cases hne : pprev = []
    · subst hne; simp [chainTxs] at h
    · rw [chainTxs_cons hne, List.mem_append, List.mem_reverse] at h
      rcases h with h | h
      · exact ⟨p, pprev, List.suffix_rfl, hne, h⟩
      · obtain ⟨q, qprev, hsuf, hq⟩ := ih h
        exact ⟨q, qprev, hsuf.trans (List.suffix_cons _ _), hq⟩

/-- The genesis block alone leaves the index empty. -/
theorem ledgerOk_genesis (p : CBlockIndex) : LedgerOk S [p] nothing where
  canonical := canonical_nothing
  history := .nil
  blocks q qprev hsuf hne := by
    rcases List.suffix_cons_iff.1 hsuf with h | h
    · rw [List.cons.injEq] at h
      exact absurd h.2 hne
    · simp at h

/-! ### The transactions of a new block are new -/

/-- The coinbase of a block is the only one, and its script is short. -/
theorem coinbase_eq_head {b : CBlock} (hb : b.Checked) {tx : CTransaction} (hmem : tx ∈ b.vtx)
    (hcb : tx.isCoinBase = true) :
    tx = b.vtx.headD default ∧ ((b.vtx.headD default).vin.headD default).scriptSig.length ≤ 100 := by
  obtain ⟨coinbase, vtx, hvtx, -, hrest⟩ := hb.shape
  have heq : tx = coinbase := by
    rw [hvtx] at hmem
    rcases List.mem_cons.1 hmem with h | h
    · exact h
    · rw [hrest tx h] at hcb
      exact absurd hcb (by simp)
  refine ⟨by rw [hvtx]; exact heq, ?_⟩
  obtain ⟨txin, hvin, -⟩ := CTransaction.isCoinBase_iff.1 hcb
  have hlen := (hb.transactions tx hmem).coinbase hcb txin (by rw [hvin]; exact List.mem_cons_self)
  rw [hvtx, List.headD_cons, ← heq, hvin, List.headD_cons]
  exact hlen

/-- Two blocks at different heights have different coinbases. -/
theorem not_same_coinbase {q : CBlockIndex} {qprev : PIndex} (hp : BlockOk S p pprev) (hq : BlockOk S q qprev)
    (hlt : qprev.length < pprev.length) {tx : CTransaction} (hmp : tx ∈ p.block.vtx) (hmq : tx ∈ q.block.vtx) :
    tx.isCoinBase = false := by
  cases hcb : tx.isCoinBase with
  | false => rfl
  | true =>
    obtain ⟨hep, hlen⟩ := coinbase_eq_head hp.checked hmp hcb
    obtain ⟨heq, -⟩ := coinbase_eq_head hq.checked hmq hcb
    have h₁ := hp.height
    have h₂ := hq.height
    unfold HasHeightPrefix at h₁ h₂
    rw [← heq, hep] at h₂
    have := CScript.pushInt64_prefix_inj hlen h₁ h₂
    omega

theorem txOf_inputs_ne_nil {tx : CTransaction} (hcb : tx.isCoinBase = false) (hvin : tx.vin ≠ []) :
    (txOf tx).inputs ≠ [] := by
  rw [txOf, if_neg (by simp [hcb])]
  simpa using hvin

/-- **The transactions of a block are new** when the block is connected: `done` are those
of the block that have been entered already. -/
theorem isNew_of_apply (hS : CollisionFree S) {done todo : List CTransaction} {tx : CTransaction}
    {V V' : Ledger Uint256 CDiskTxPos CDiskTxPos} {pos : CDiskTxPos} (hblocks : ∀ q qprev, q :: qprev <:+ pprev →
      qprev ≠ [] → BlockOk S q qprev) (hp : BlockOk S p pprev) (hvtx : p.block.vtx = done ++ tx :: todo)
    (hist : History ((done.reverse ++ chainTxs pprev).map txOf) V) (happ : Apply pos pos (txOf tx) V V') :
    V (txOf tx).id = none := by
  have hmem : tx ∈ p.block.vtx := by simp [hvtx]
  refine hist.eq_none fun t ht => ?_
  obtain ⟨tx', htx', rfl⟩ := List.mem_map.1 ht
  intro hid
  have hhash : tx'.getHash = tx.getHash := hid
  rcases List.mem_append.1 htx' with hdone | hchain
  · -- an earlier transaction of the block: `CheckBlock` found no two of one hash
    have hnd := hp.checked.nodup
    rw [hvtx, List.map_append, List.map_cons] at hnd
    have hdisj := (List.nodup_append.1 hnd).2.2
    exact hdisj _ (List.mem_map_of_mem (List.mem_reverse.1 hdone)) _ List.mem_cons_self hhash
  · obtain ⟨q, qprev, hsuf, hne, hq⟩ := exists_block_of_mem_chainTxs hchain
    have hbq := hblocks q qprev hsuf hne
    obtain rfl : tx' = tx := hS (hbq.txs _ hq) (hp.txs _ hmem) hhash
    have hlt : qprev.length < pprev.length := by
      have := hsuf.length_le
      rw [List.length_cons] at this
      omega
    have hcb := not_same_coinbase hp hbq hlt hmem hq
    exact hist.not_mem_of_input happ (txOf_inputs_ne_nil hcb (hp.checked.transactions _ hmem).vin_ne) _ ht rfl

/-! ### ConnectBlock -/

/-- The loop of `ConnectBlock` enters the transactions of the block, each of them new. -/
theorem connectTxs_extends (hS : CollisionFree S) (hT : LedgerOk S pprev T) (hp : BlockOk S p pprev) {s s' : Tally}
    (hs : s.mapQueuedChanges = nothing)
    (h : p.block.vtx.foldlM (CBlock.connectTx params env g mempool T p pprev) s = .ok s') :
    Extends (ledgerOf T) (p.block.vtx.reverse.map txOf) (ledgerOf (overlay s'.mapQueuedChanges T)) ∧
      Canonical (overlay s'.mapQueuedChanges T) := by
  refine foldlM_induct_split (P := fun done s =>
    Extends (ledgerOf T) (done.reverse.map txOf) (ledgerOf (overlay s.mapQueuedChanges T)) ∧
      Canonical (overlay s.mapQueuedChanges T)) (fun done tx todo s s' hvtx hP hstep => ?_) ?_ h
  · obtain ⟨⟨pos, happ⟩, hcan⟩ := connectTx_apply hP.2 hstep
    have hist : History ((done.reverse ++ chainTxs pprev).map txOf) (ledgerOf (overlay s.mapQueuedChanges T)) := by
      rw [List.map_append]
      exact Extends.append hT.history hP.1
    have hnew := isNew_of_apply hS hT.blocks hp hvtx hist happ
    rw [List.reverse_append, List.reverse_singleton, List.singleton_append, List.map_cons]
    exact ⟨.cons hP.1 happ hnew, hcan⟩
  · rw [hs, overlay_nothing]
    exact ⟨.nil, hT.canonical⟩

/-- What a successful `connectBlockCore` is made of. -/
theorem connectBlockCore_eq_ok {b : CBlock} {s : Tally}
    (h : b.connectBlockCore params env g mempool T p pprev = .ok s) :
    b.Checked ∧ b.vtx.foldlM (CBlock.connectTx params env g mempool T p pprev) { nTxPos := b.firstTxPos p } = .ok s ∧
      b.checkReward env T pprev s = .ok () := by
  simp only [CBlock.connectBlockCore, bind_eq_ok, pure_eq_ok] at h
  obtain ⟨_, hcheck, s', hfold, _, hreward, rfl⟩ := h
  exact ⟨CBlock.checked_of_checkBlock hcheck, hfold, hreward⟩

/-- The block's transactions are entered. -/
theorem connectBlockCore_extends (hS : CollisionFree S) (hT : LedgerOk S pprev T) (hh : HasHeightPrefix p pprev)
    (htxs : ∀ tx ∈ p.block.vtx, tx ∈ S) {s : Tally}
    (h : p.block.connectBlockCore params env g mempool T p pprev = .ok s) :
    BlockOk S p pprev ∧ Extends (ledgerOf T) (p.block.vtx.reverse.map txOf) (ledgerOf (overlay s.mapQueuedChanges T)) ∧
      Canonical (overlay s.mapQueuedChanges T) := by
  obtain ⟨hchecked, hfold, -⟩ := connectBlockCore_eq_ok h
  have hp : BlockOk S p pprev := ⟨hchecked, hh, htxs⟩
  exact ⟨hp, connectTxs_extends hS hT hp rfl hfold⟩

/-- **`ConnectBlock` keeps the index in step with the path.** -/
theorem LedgerOk.connect (hS : CollisionFree S) (hT : LedgerOk S pprev T) (hne : pprev ≠ [])
    (hh : HasHeightPrefix p pprev) (htxs : ∀ tx ∈ p.block.vtx, tx ∈ S) {s : Tally}
    (h : p.block.connectBlockCore params env g mempool T p pprev = .ok s) :
    LedgerOk S (p :: pprev) (overlay s.mapQueuedChanges T) := by
  obtain ⟨hp, hext, hcan⟩ := connectBlockCore_extends hS hT hh htxs h
  refine ⟨hcan, ?_, fun q qprev hsuf hq => ?_⟩
  · rw [chainTxs_cons hne, List.map_append]
    exact Extends.append hT.history hext
  · rcases List.suffix_cons_iff.1 hsuf with heq | hsuf
    · obtain ⟨rfl, rfl⟩ := List.cons.inj heq
      exact hp
    · exact hT.blocks q qprev hsuf hq

/-! ### DisconnectBlock -/

/-- Taking out transactions that were entered last gives back the index. -/
theorem foldlM_disconnectInputs {disk : DiskEnv} {L₀ : Ledger Uint256 CDiskTxPos CDiskTxPos} :
    ∀ {l : List CTransaction} {T T' : TxMap}, Canonical T → Extends L₀ (l.map txOf) (ledgerOf T) →
      l.foldlM (CTransaction.disconnectInputs disk) T = .ok T' → ledgerOf T' = L₀ ∧ Canonical T' := by
  intro l
  induction l with
  | nil =>
    intro T T' hcan hext h
    rw [foldlM_nil_eq_ok] at h
    subst h
    cases hext
    exact ⟨rfl, hcan⟩
  | cons tx l ih =>
    intro T T' hcan hext h
    obtain ⟨T₁, h₁, h₂⟩ := foldlM_cons_eq_ok.1 h
    rw [List.map_cons] at hext
    cases hext with
    | @cons _ _ _ _ L _ hext happ hnew =>
      obtain ⟨hl, hcan₁⟩ := disconnectInputs_revert hcan h₁
      rw [revert_apply happ hnew] at hl
      exact ih hcan₁ (hl ▸ hext) h₂

/-- **`DisconnectBlock` keeps the index in step with the path.** -/
theorem LedgerOk.disconnect {T' : TxMap} (hT : LedgerOk S (p :: pprev) T) (hne : pprev ≠ [])
    (h : p.block.disconnectTxs env T = .ok T') : LedgerOk S pprev T' := by
  have hist := hT.history
  rw [chainTxs_cons hne, List.map_append] at hist
  obtain ⟨L₁, hist₁, hext⟩ := hist.split
  obtain ⟨hl, hcan⟩ := foldlM_disconnectInputs hT.canonical hext h
  exact ⟨hcan, hl ▸ hist₁, fun q qprev hsuf hq => hT.blocks q qprev (hsuf.trans (List.suffix_cons _ _)) hq⟩

/-- **`DisconnectBlock` undoes `ConnectBlock`**: the index is exactly what it was. -/
theorem disconnectTxs_eq (hS : CollisionFree S) (hT : LedgerOk S pprev T) (hh : HasHeightPrefix p pprev)
    (htxs : ∀ tx ∈ p.block.vtx, tx ∈ S) {s : Tally} {env' : BlockEnv} {T' : TxMap}
    (h : p.block.connectBlockCore params env g mempool T p pprev = .ok s)
    (h' : p.block.disconnectTxs env' (overlay s.mapQueuedChanges T) = .ok T') : T' = T := by
  obtain ⟨-, hext, hcan⟩ := connectBlockCore_extends hS hT hh htxs h
  obtain ⟨hl, hcan'⟩ := foldlM_disconnectInputs hcan hext h'
  exact ledgerOf_inj hcan' hT.canonical hl

/-! ### DisconnectBlock succeeds -/

/-- The record of an output is there, and has a place for it. -/
def HasOutput (T : TxMap) (txin : CTxIn) : Prop :=
  ∃ txindex, T txin.prevout.hash = some txindex ∧ txin.prevout.n.toNat < txindex.vSpent.length

omit [Crypto] in
theorem hasOutput_of_marked {txin : CTxIn} (h : Marked (ledgerOf T) (outputOf txin)) : HasOutput T txin := by
  obtain ⟨r, m, hr, hn⟩ := h
  obtain ⟨txindex, ht, rfl⟩ := Option.map_eq_some_iff.1 hr
  obtain ⟨hlt, -⟩ := List.getElem?_eq_some_iff.1 hn
  exact ⟨txindex, ht, by simpa [recordOf, outputOf] using hlt⟩

/-- When reads succeed, an output that is there can be unmarked, and others stay there. -/
theorem unspendInput_isOk {disk : DiskEnv} (hread : ∀ h o, disk.readTxIndexOk h o = true) (tx : CTransaction)
    {txin : CTxIn} (h : HasOutput T txin) :
    ∃ T', tx.unspendInput disk T txin = .ok T' ∧ ∀ txin', HasOutput T txin' → HasOutput T' txin' := by
  obtain ⟨txindex, ht, hlt⟩ := h
  refine ⟨Function.update T txin.prevout.hash
    (some { txindex with vSpent := txindex.vSpent.set txin.prevout.n.toNat CDiskTxPos.null }), ?_, ?_⟩
  · simp only [CTransaction.unspendInput, bind_eq_ok, orReject_eq_ok, rejectIf_eq_ok, pure_eq_ok]
    exact ⟨txindex, by rw [DiskEnv.readTxIndex, if_pos (hread _ _), ht], (), by simpa using hlt, rfl⟩
  · rintro txin' ⟨txindex', ht', hlt'⟩
    by_cases heq : txin'.prevout.hash = txin.prevout.hash
    · rw [heq, ht, Option.some.injEq] at ht'
      subst ht'
      exact ⟨_, by rw [heq, Function.update_self], by simpa using hlt'⟩
    · exact ⟨txindex', by rw [Function.update_of_ne heq, ht'], hlt'⟩

theorem foldlM_unspendInput_isOk {disk : DiskEnv} (hread : ∀ h o, disk.readTxIndexOk h o = true) (tx : CTransaction) :
    ∀ {l : List CTxIn} {T : TxMap}, (∀ txin ∈ l, HasOutput T txin) →
      ∃ T', l.foldlM (tx.unspendInput disk) T = .ok T' := by
  intro l
  induction l with
  | nil => intro T _; exact ⟨T, rfl⟩
  | cons txin l ih =>
    intro T h
    obtain ⟨T₁, h₁, hkeep⟩ := unspendInput_isOk hread tx (h txin List.mem_cons_self)
    obtain ⟨T', hT'⟩ := ih fun txin' hmem => hkeep txin' (h txin' (List.mem_cons_of_mem _ hmem))
    exact ⟨T', foldlM_cons_eq_ok.2 ⟨T₁, h₁, hT'⟩⟩

/-- When reads succeed, transactions that were entered last can be taken out. -/
theorem foldlM_disconnectInputs_isOk {disk : DiskEnv} (hread : ∀ h o, disk.readTxIndexOk h o = true)
    {L₀ : Ledger Uint256 CDiskTxPos CDiskTxPos} :
    ∀ {l : List CTransaction} {T : TxMap}, Canonical T → Extends L₀ (l.map txOf) (ledgerOf T) →
      ∃ T', l.foldlM (CTransaction.disconnectInputs disk) T = .ok T' := by
  intro l
  induction l with
  | nil => intro T _ _; exact ⟨T, rfl⟩
  | cons tx l ih =>
    intro T hcan hext
    have hout : ∀ txin ∈ (if tx.isCoinBase then [] else tx.vin), HasOutput T txin := by
      intro txin hmem
      refine hasOutput_of_marked (hext.marked (t := txOf tx) (by simp) ?_)
      rw [txOf]
      cases hcb : tx.isCoinBase with
      | true => simp [hcb] at hmem
      | false =>
        simp only [hcb, Bool.false_eq_true, if_false] at hmem ⊢
        exact List.mem_map_of_mem hmem
    obtain ⟨T₀, hT₀⟩ := foldlM_unspendInput_isOk hread tx hout
    have h₁ : tx.disconnectInputs disk T = .ok (Function.update T₀ tx.getHash none) := by
      simp only [CTransaction.disconnectInputs, bind_eq_ok, pure_eq_ok]
      exact ⟨T₀, hT₀, rfl⟩
    rw [List.map_cons] at hext
    cases hext with
    | cons hext happ hnew =>
      obtain ⟨hl, hcan₁⟩ := disconnectInputs_revert hcan h₁
      rw [revert_apply happ hnew] at hl
      obtain ⟨T', hT'⟩ := ih hcan₁ (hl ▸ hext)
      exact ⟨T', foldlM_cons_eq_ok.2 ⟨_, h₁, hT'⟩⟩

/-- When reads succeed, so does `DisconnectBlock` after `ConnectBlock`. -/
theorem disconnectTxs_isOk (hS : CollisionFree S) (hT : LedgerOk S pprev T) (hh : HasHeightPrefix p pprev)
    (htxs : ∀ tx ∈ p.block.vtx, tx ∈ S) {s : Tally} {env' : BlockEnv}
    (h : p.block.connectBlockCore params env g mempool T p pprev = .ok s)
    (hread : ∀ h o, env'.disk.readTxIndexOk h o = true) :
    ∃ T', p.block.disconnectTxs env' (overlay s.mapQueuedChanges T) = .ok T' := by
  obtain ⟨-, hext, hcan⟩ := connectBlockCore_extends hS hT hh htxs h
  exact foldlM_disconnectInputs_isOk hread hcan hext

end Ledger

end PayDayCoin
