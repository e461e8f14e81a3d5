import PayDayCoin.ConnectBlock
import PayDayCoin.Library.SpentOutputs

/-!
# The transaction index as a ledger of spent outputs

The index keeps, for each transaction, its position and `vSpent`. Read through
`ledgerOf` it is a ledger of `Library.SpentOutputs`: a null entry of `vSpent` is an output
without a mark, any other entry is a mark. The reading loses nothing as long as every null
entry is `CDiskTxPos.null` (`Canonical`, `ledgerOf_inj`).

**`connectTx_apply`**: a turn of `ConnectBlock`'s loop enters the transaction in the
ledger that the pending changes show. **`disconnectInputs_revert`**: `DisconnectInputs`
takes it out again.
-/

namespace PayDayCoin

open Library.Checks Library.Overlay Library.SpentOutputs

/-! ### Reading the index as a ledger -/

/-- An entry of `vSpent` as a mark. -/
def markOf (pos : CDiskTxPos) : Option CDiskTxPos := if pos.isNull then none else some pos

/-- The record of a transaction. -/
def recordOf (txindex : CTxIndex) : Record CDiskTxPos CDiskTxPos := ⟨txindex.pos, txindex.vSpent.map markOf⟩

/-- The ledger that an index of transactions is. -/
def ledgerOf (T : TxMap) : Ledger Uint256 CDiskTxPos CDiskTxPos := fun h => (T h).map recordOf

/-- Every null entry of `vSpent` is the one that `SetNull` writes. -/
def Canonical (T : TxMap) : Prop :=
  ∀ h txindex, T h = some txindex → ∀ pos ∈ txindex.vSpent, pos.isNull = true → pos = CDiskTxPos.null

/-- The output that an input claims. -/
def outputOf (txin : CTxIn) : Output Uint256 := (txin.prevout.hash, txin.prevout.n.toNat)

/-- A transaction as the ledger sees it; a coinbase claims nothing. -/
def txOf [Crypto] (tx : CTransaction) : Tx Uint256 where
  id := tx.getHash
  inputs := if tx.isCoinBase then [] else tx.vin.map outputOf
  outputs := tx.vout.length

theorem markOf_null : markOf CDiskTxPos.null = none := rfl

theorem markOf_of_not_isNull {pos : CDiskTxPos} (h : pos.isNull = false) : markOf pos = some pos := by
  rw [markOf, h]; rfl

theorem markOf_eq_none {pos : CDiskTxPos} : markOf pos = none ↔ pos.isNull = true := by
  unfold markOf
  cases pos.isNull <;> simp

theorem ledgerOf_nothing : ledgerOf nothing = empty := rfl

theorem ledgerOf_update (T : TxMap) (h : Uint256) (v : Option CTxIndex) :
    ledgerOf (Function.update T h v) = Function.update (ledgerOf T) h (v.map recordOf) := by
  funext k
  by_cases hk : k = h
  · subst hk; simp [ledgerOf]
  · simp [ledgerOf, Function.update_of_ne hk]

theorem recordOf_new (pos : CDiskTxPos) (n : ℕ) : recordOf (CTxIndex.new pos n) = Record.fresh pos n := by
  simp [recordOf, CTxIndex.new, Record.fresh, markOf_null]

theorem recordOf_set (txindex : CTxIndex) (n : ℕ) (pos : CDiskTxPos) :
    recordOf { txindex with vSpent := txindex.vSpent.set n pos } = (recordOf txindex).set n (markOf pos) := by
  simp [recordOf, Record.set, List.map_set]

theorem markOf_inj {p q : CDiskTxPos} (hp : p.isNull = true → p = CDiskTxPos.null)
    (hq : q.isNull = true → q = CDiskTxPos.null) (h : markOf p = markOf q) : p = q := by
  cases hn : p.isNull with
  | true =>
    have hqn := markOf_eq_none.1 (h ▸ markOf_eq_none.2 hn)
    rw [hp hn, hq hqn]
  | false =>
    cases hqn : q.isNull with
    | true => rw [markOf_eq_none.2 hqn, markOf_eq_none, hn] at h; simp at h
    | false =>
      rw [markOf_of_not_isNull hn, markOf_of_not_isNull hqn] at h
      exact Option.some.inj h

/-- **The reading loses nothing**: canonical indexes with the same ledger are equal. -/
theorem ledgerOf_inj {T T' : TxMap} (hT : Canonical T) (hT' : Canonical T') (h : ledgerOf T = ledgerOf T') :
    T = T' := by
  funext k
  have hk : (T k).map recordOf = (T' k).map recordOf := congrFun h k
  cases ha : T k with
  | none => rw [ha] at hk; simpa [eq_comm] using hk
  | some a =>
    cases hb : T' k with
    | none => rw [ha, hb] at hk; simp at hk
    | some b =>
      rw [ha, hb, Option.map_some, Option.map_some, Option.some.injEq, recordOf, recordOf, Record.mk.injEq] at hk
      obtain ⟨hpos, hspent⟩ := hk
      have hv : a.vSpent = b.vSpent := by
        refine List.ext_getElem (by simpa using congrArg List.length hspent) fun i hi hj => ?_
        refine markOf_inj (hT k a ha _ (List.getElem_mem hi)) (hT' k b hb _ (List.getElem_mem hj)) ?_
        have := congrArg (·[i]?) hspent
        simpa [hi, hj] using this
      rw [show a = b by cases a; cases b; simp_all]

theorem Canonical.update {T : TxMap} (hT : Canonical T) {h : Uint256} {v : Option CTxIndex}
    (hv : ∀ txindex, v = some txindex → ∀ pos ∈ txindex.vSpent, pos.isNull = true → pos = CDiskTxPos.null) :
    Canonical (Function.update T h v) := by
  intro k txindex hk
  by_cases hkh : k = h
  · rw [hkh, Function.update_self] at hk
    exact hv txindex hk
  · rw [Function.update_of_ne hkh] at hk
    exact hT k txindex hk

theorem canonical_nothing : Canonical nothing := fun _ _ h => by simp [nothing] at h

theorem canonical_new {pos : CDiskTxPos} {n : ℕ} {q : CDiskTxPos} (hq : q ∈ (CTxIndex.new pos n).vSpent) :
    q = CDiskTxPos.null := (List.mem_replicate.1 hq).2

theorem canonical_set {T : TxMap} (hT : Canonical T) {h : Uint256} {txindex : CTxIndex} (ht : T h = some txindex)
    {n : ℕ} {pos : CDiskTxPos} (hpos : pos.isNull = true → pos = CDiskTxPos.null) {q : CDiskTxPos}
    (hq : q ∈ txindex.vSpent.set n pos) (hn : q.isNull = true) : q = CDiskTxPos.null := by
  rcases List.mem_or_eq_of_mem_set hq with hmem | rfl
  · exact hT h txindex ht q hmem hn
  · exact hpos hn

/-! ### Entering a transaction -/

section Enter

variable [Crypto] {params : CChainParams} {env : BlockEnv} {g : BestChain} {disk : DiskEnv}
  {mempool : Uint256 → Option CTransaction} {T : TxMap} {c : Caller}

/-- The fetched records are those that the pending changes show. -/
def Agrees (T pool : TxMap) (inputs : MapPrevTx) : Prop :=
  ∀ h txindex txPrev, inputs h = some (txindex, txPrev) → overlay pool T h = some txindex

omit [Crypto] in
theorem Agrees.update {pool : TxMap} {inputs : MapPrevTx} (h : Agrees T pool inputs) {k : Uint256}
    {txindex : CTxIndex} {txPrev : CTransaction} (hk : overlay pool T k = some txindex) :
    Agrees T pool (Function.update inputs k (some (txindex, txPrev))) := by
  intro k' txindex' txPrev' hk'
  by_cases heq : k' = k
  · rw [heq, Function.update_self, Option.some.injEq, Prod.mk.injEq] at hk'
    rw [heq, hk, hk'.1]
  · rw [Function.update_of_ne heq] at hk'
    exact h k' txindex' txPrev' hk'

theorem findTxIndex_overlay {pool : TxMap} {tx : CTransaction} {prevout : COutPoint} {txindex : CTxIndex}
    (hc : c.pending = true) (h : tx.findTxIndex disk T c pool prevout = some txindex) :
    overlay pool T prevout.hash = some txindex := by
  unfold CTransaction.findTxIndex at h
  rw [hc, Bool.true_and] at h
  split at h
  · exact overlay_of_some h
  · next hnone =>
    rw [Option.not_isSome_iff_eq_none] at hnone
    rw [overlay_of_none hnone]
    exact DiskEnv.readTxIndex_eq_some h

theorem fetchInput_agrees {pool : TxMap} {tx : CTransaction} {inputs inputs' : MapPrevTx} {txin : CTxIn}
    (hc : c.pending = true) (hag : Agrees T pool inputs)
    (h : tx.fetchInput disk mempool T c pool inputs txin = .ok inputs') : Agrees T pool inputs' := by
  simp only [CTransaction.fetchInput, hc, if_true] at h
  split at h
  · cases h; exact hag
  · split at h
    · next txindex hfind =>
      simp only [bind_eq_ok, pure_eq_ok] at h
      obtain ⟨txPrev, -, rfl⟩ := h
      exact hag.update (findTxIndex_overlay hc hfind)
    · cases h

/-- What `FetchInputs` collects agrees with the pending changes. -/
theorem fetchInputs_agrees {pool : TxMap} {tx : CTransaction} {inputs : MapPrevTx} (hc : c.pending = true)
    (h : tx.fetchInputs disk mempool T c pool = .ok inputs) : Agrees T pool inputs := by
  have hnone : Agrees T pool fun _ => none := fun _ _ _ h => by simp at h
  unfold CTransaction.fetchInputs at h
  split at h
  · cases h; exact hnone
  · simp only [bind_eq_ok, pure_eq_ok] at h
    obtain ⟨inputs', hfold, _, -, rfl⟩ := h
    exact foldlM_induct (fun txin _ s s' hs hstep => fetchInput_agrees hc hs hstep) hnone hfold

/-- A turn of `ConnectInputs`' second loop marks one output. -/
theorem spendInput_spends {ibd : ℕ → IBDReading} {pos : CDiskTxPos} {tx : CTransaction} {flags : UInt32}
    {fValidateSig : Bool} {s s' : CTransaction.ConnectState} {input : CTxIn × ℕ} (hc : c.pending = true)
    (hpos : pos.isNull = false) (hag : Agrees T s.mapTestPool s.inputs) (hcan : Canonical (overlay s.mapTestPool T))
    (h : CTransaction.spendInput params c g ibd pos tx flags fValidateSig s input = .ok s') :
    Library.SpentOutputs.Spends pos (ledgerOf (overlay s.mapTestPool T)) (outputOf input.1) (ledgerOf (overlay s'.mapTestPool T)) ∧
      Agrees T s'.mapTestPool s'.inputs ∧ Canonical (overlay s'.mapTestPool T) := by
  obtain ⟨txin, i⟩ := input
  simp only [CTransaction.spendInput, bind_eq_ok, orReject_eq_ok, rejectIf_eq_ok, pure_eq_ok, Prod.exists] at h
  obtain ⟨txindex, txPrev, hin, spent, hspent, _, hnull, checks, -, rfl⟩ := h
  have hrec := hag _ _ _ hin
  simp only [Bool.not_eq_false'] at hnull
  refine ⟨⟨recordOf txindex, ?_, ?_, ?_⟩, ?_, ?_⟩
  · simp only [ledgerOf, outputOf, hrec, Option.map_some]
  · simp only [recordOf, outputOf, List.getElem?_map, hspent, Option.map_some, markOf_eq_none.2 hnull]
  · simp only [hc, if_true, overlay_update, ledgerOf_update, Option.map_some, recordOf_set, markOf_of_not_isNull hpos]
    rfl
  · intro k txindex' txPrev' hk
    simp only [hc, if_true, overlay_update] at hk ⊢
    by_cases heq : k = txin.prevout.hash
    · rw [heq, Function.update_self, Option.some.injEq, Prod.mk.injEq] at hk
      rw [heq, Function.update_self, hk.1]
    · rw [Function.update_of_ne heq] at hk ⊢
      exact hag k txindex' txPrev' hk
  · simp only [hc, if_true, overlay_update]
    refine hcan.update fun txindex' heq q hq hn => ?_
    cases heq
    exact canonical_set hcan hrec (by simp [hpos]) hq hn

/-- `ConnectInputs`' second loop marks the outputs that the inputs claim. -/
theorem foldlM_spendInput_spendsAll {ibd : ℕ → IBDReading} {pos : CDiskTxPos} {tx : CTransaction} {flags : UInt32}
    {fValidateSig : Bool} (hc : c.pending = true) (hpos : pos.isNull = false) :
    ∀ {l : List (CTxIn × ℕ)} {s s' : CTransaction.ConnectState}, Agrees T s.mapTestPool s.inputs →
      Canonical (overlay s.mapTestPool T) →
      l.foldlM (CTransaction.spendInput params c g ibd pos tx flags fValidateSig) s = .ok s' →
      SpendsAll pos (ledgerOf (overlay s.mapTestPool T)) (l.map fun x => outputOf x.1)
        (ledgerOf (overlay s'.mapTestPool T)) ∧ Canonical (overlay s'.mapTestPool T) := by
  intro l
  induction l with
  | nil =>
    intro s s' _ hcan h
    rw [foldlM_nil_eq_ok] at h
    subst h
    exact ⟨.nil, hcan⟩
  | cons input l ih =>
    intro s s' hag hcan h
    obtain ⟨s₁, h₁, h₂⟩ := foldlM_cons_eq_ok.1 h
    obtain ⟨hs, hag₁, hcan₁⟩ := spendInput_spends hc hpos hag hcan h₁
    obtain ⟨hall, hcan'⟩ := ih hag₁ hcan₁ h₂
    exact ⟨.cons hs hall, hcan'⟩

/-- `ConnectInputs` marks the outputs that the transaction claims. -/
theorem connectInputs_spendsAll {ibd : ℕ → IBDReading} {inputs : MapPrevTx} {pool pool' : TxMap} {pos : CDiskTxPos}
    {pindexBlock : PIndex} {flags : UInt32} {fValidateSig : Bool} {tx : CTransaction} {checks : List SigCheck}
    (hc : c.pending = true) (hpos : pos.isNull = false) (hag : Agrees T pool inputs) (hcan : Canonical (overlay pool T))
    (h : tx.connectInputs params c g ibd inputs pool pos pindexBlock flags fValidateSig = .ok (pool', checks)) :
    SpendsAll pos (ledgerOf (overlay pool T)) (txOf tx).inputs (ledgerOf (overlay pool' T)) ∧
      Canonical (overlay pool' T) := by
  unfold CTransaction.connectInputs at h
  split at h
  · next hcb =>
    cases h
    rw [txOf, if_pos hcb]
    exact ⟨.nil, hcan⟩
  · next hcb =>
    simp only [bind_eq_ok, pure_eq_ok, Prod.mk.injEq] at h
    obtain ⟨_, -, s, hfold, _, -, rfl, -⟩ := h
    have hmap : (tx.vin.zipIdx.map fun x => outputOf x.1) = (txOf tx).inputs := by
      rw [txOf, if_neg hcb]
      conv_rhs => rw [← List.zipIdx_map_fst 0 tx.vin, List.map_map]
      rfl
    rw [← hmap]
    exact foldlM_spendInput_spendsAll hc hpos hag hcan hfold

/-- **A turn of `ConnectBlock`'s loop enters the transaction in the ledger.** -/
theorem connectTx_apply {p : CBlockIndex} {pprev : PIndex} {s s' : Tally} {tx : CTransaction}
    (hcan : Canonical (overlay s.mapQueuedChanges T))
    (h : CBlock.connectTx params env g mempool T p pprev s tx = .ok s') :
    (∃ pos, Apply pos pos (txOf tx) (ledgerOf (overlay s.mapQueuedChanges T))
        (ledgerOf (overlay s'.mapQueuedChanges T))) ∧
      Canonical (overlay s'.mapQueuedChanges T) := by
  simp only [CBlock.connectTx, bind_eq_ok, rejectIf_eq_ok, pure_eq_ok] at h
  obtain ⟨_, -, s₁, h₁, rfl⟩ := h
  unfold CBlock.connectTxValues at h₁
  set pos : CDiskTxPos := ⟨p.nFile, p.nBlockPos, s.nTxPos⟩ with hposdef
  have hpos : pos.isNull = false := by simpa [CDiskTxPos.isNull, hposdef] using p.openable
  suffices hmark : SpendsAll pos (ledgerOf (overlay s.mapQueuedChanges T)) (txOf tx).inputs
      (ledgerOf (overlay s₁.mapQueuedChanges T)) ∧ Canonical (overlay s₁.mapQueuedChanges T) by
    simp only [overlay_update]
    refine ⟨⟨pos, _, hmark.1, ?_⟩, hmark.2.update fun txindex heq q hq _ => ?_⟩
    · rw [ledgerOf_update, Option.map_some, recordOf_new]
      rfl
    · cases heq
      exact canonical_new hq
  split at h₁
  · next hcb =>
    simp only [CBlock.connectCoinBase, bind_eq_ok, pure_eq_ok] at h₁
    obtain ⟨_, -, rfl⟩ := h₁
    rw [txOf, if_pos hcb]
    exact ⟨.nil, hcan⟩
  · simp only [CBlock.connectTxInputs, bind_eq_ok, pure_eq_ok, Prod.exists] at h₁
    obtain ⟨inputs, hfetch, _, -, _, -, _, -, _, -, pool', checks, hconn, rfl⟩ := h₁
    exact connectInputs_spendsAll rfl hpos (fetchInputs_agrees rfl hfetch) hcan hconn

end Enter

/-! ### Taking a transaction out -/

section Revert

variable [Crypto] {disk : DiskEnv} {tx : CTransaction}

theorem unspendInput_unspend {T T' : TxMap} {txin : CTxIn} (hcan : Canonical T)
    (h : tx.unspendInput disk T txin = .ok T') :
    ledgerOf T' = unspend (ledgerOf T) (outputOf txin) ∧ Canonical T' := by
  simp only [CTransaction.unspendInput, bind_eq_ok, orReject_eq_ok, rejectIf_eq_ok, pure_eq_ok] at h
  obtain ⟨txindex, hread, _, -, rfl⟩ := h
  have hrec := DiskEnv.readTxIndex_eq_some hread
  refine ⟨?_, hcan.update fun txindex' heq q hq hn => ?_⟩
  · rw [unspend_of_some (r := recordOf txindex) (by simp [ledgerOf, outputOf, hrec]), ledgerOf_update,
      Option.map_some, recordOf_set, markOf_null]
    rfl
  · cases heq
    exact canonical_set hcan hrec (fun _ => rfl) hq hn

theorem foldlM_unspendInput {l : List CTxIn} : ∀ {T T' : TxMap}, Canonical T →
    l.foldlM (tx.unspendInput disk) T = .ok T' →
    ledgerOf T' = (l.map outputOf).foldl unspend (ledgerOf T) ∧ Canonical T' := by
  induction l with
  | nil =>
    intro T T' hcan h
    rw [foldlM_nil_eq_ok] at h
    subst h
    exact ⟨rfl, hcan⟩
  | cons txin l ih =>
    intro T T' hcan h
    obtain ⟨T₁, h₁, h₂⟩ := foldlM_cons_eq_ok.1 h
    obtain ⟨hl, hcan₁⟩ := unspendInput_unspend hcan h₁
    obtain ⟨hl', hcan'⟩ := ih hcan₁ h₂
    exact ⟨by rw [hl', hl, List.map_cons, List.foldl_cons], hcan'⟩

/-- **`DisconnectInputs` takes the transaction out of the ledger.** -/
theorem disconnectInputs_revert {T T' : TxMap} (hcan : Canonical T) (h : tx.disconnectInputs disk T = .ok T') :
    ledgerOf T' = revert (txOf tx) (ledgerOf T) ∧ Canonical T' := by
  simp only [CTransaction.disconnectInputs, bind_eq_ok, pure_eq_ok] at h
  obtain ⟨T₁, hfold, rfl⟩ := h
  obtain ⟨hl, hcan₁⟩ := foldlM_unspendInput hcan hfold
  refine ⟨?_, hcan₁.update fun _ heq => by simp at heq⟩
  rw [ledgerOf_update, hl, revert, txOf]
  cases tx.isCoinBase <;> rfl

end Revert

end PayDayCoin
