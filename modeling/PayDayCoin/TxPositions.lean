import PayDayCoin.ChainHistory
import PayDayCoin.SendMessages

/-!
# Positions of transactions

`WriteToDisk` appends a block to a file behind the start of a message and its size, and `ConnectBlock` stores for each
transaction of the block the position that it has counted. The bytes at that position are the transaction
(**`nTxPos_points_at`**): the positions go up by the sizes of the transactions from the end of the count in front of
them, no later transaction of the block changes the position of an earlier one when it spends it, and the file is short
enough for 32 bits. What is appended to the file later makes no difference.
-/

namespace PayDayCoin

open Library.Checks Library.Overlay Library.Codecs

/-! ### WriteToDisk -/

/-- `AppendBlockFile` takes a file that is shorter than this. -/
def blockFileLimit : ℕ := 0x7F000000 - MAX_SIZE

/-- `CBlock::WriteToDisk` into the file that `AppendBlockFile` has opened: the file afterwards, and `nBlockPosRet`. -/
def CBlock.writeToDisk (format : MessageFormat) (file : List UInt8) (b : CBlock) : Option (List UInt8 × UInt32) :=
  if file.length < blockFileLimit then
    let nSize := (CBlock.codec SER_DISK).size b
    let file := file ++ (format.pchMessageStart ++ uint32.write nSize)
    some (file ++ (CBlock.codec SER_DISK).write b, UInt32.ofNat file.length)
  else none

/-- `CTransaction::ReadFromDisk` at a position of the file. -/
def CTransaction.readFromDisk (file : List UInt8) (pos : CDiskTxPos) : Option CTransaction :=
  (CTransaction.codec.read (file.drop pos.nTxPos.toNat)).map Prod.fst

/-! ### What a block may hold -/

section Sizes

variable {tx : CTransaction} {b : CBlock}

theorem sum_le_of_mem {α : Type} (size : α → ℕ) {l : List α} {a : α} (h : a ∈ l) : size a ≤ (l.map size).sum := by
  obtain ⟨l₁, l₂, rfl⟩ := List.append_of_mem h
  simp only [List.map_append, List.map_cons, List.sum_append, List.sum_cons]
  omega

theorem length_le_sum {α : Type} {size : α → ℕ} (hsize : ∀ a, 1 ≤ size a) (l : List α) :
    l.length ≤ (l.map size).sum := by
  induction l with
  | nil => simp
  | cons a l ih =>
    have := hsize a
    simp only [List.length_cons, List.map_cons, List.sum_cons]
    omega

/-- The amounts of a transaction whose sum is in range are in range. -/
theorem moneyRange_of_getValueOut {nValueOut : ℤ} (h : tx.getValueOut = .ok nValueOut) :
    ∀ txout ∈ tx.vout, moneyRange txout.nValue = true := by
  refine foldlM_induct_split (P := fun l _ => ∀ txout ∈ l, moneyRange txout.nValue = true)
    (fun l₁ txout l₂ s s' _ hP hs => ?_) (by simp) h
  simp only [CTransaction.addValueOut, bind_eq_ok, rejectIf_eq_ok, pure_eq_ok] at hs
  simp only [List.mem_append, List.mem_singleton]
  rintro txout' (hmem | rfl)
  · exact hP txout' hmem
  · simp_all

/-- A transaction whose amounts are in range and that is not longer than a block can be written and read. -/
theorem CTransaction.Checked.fits (h : tx.Checked) (hsize : tx.getSerializeSize ≤ MAX_BLOCK_SIZE) : tx.Fits := by
  have hmax : MAX_BLOCK_SIZE ≤ MAX_SIZE := by decide
  have hin : ∀ txin : CTxIn, 1 ≤ CTransaction.txinSize txin := fun txin => by
    rw [CTransaction.txinSize]
    omega
  have hout : ∀ txout : CTxOut, 1 ≤ CTransaction.txoutSize txout := fun txout => by
    rw [CTransaction.txoutSize]
    omega
  rw [CTransaction.getSerializeSize] at hsize
  obtain ⟨v, hv⟩ := h.valueOut
  refine ⟨?_, fun txin hmem => ?_, ?_, fun txout hmem => ⟨?_, ?_⟩⟩
  · have := length_le_sum hin tx.vin
    omega
  · have hle := sum_le_of_mem CTransaction.txinSize hmem
    rw [CTransaction.txinSize, CTransaction.scriptSize] at hle
    omega
  · have := length_le_sum hout tx.vout
    omega
  · have hrange := moneyRange_of_getValueOut hv txout hmem
    have hmoney : MAX_MONEY = 29433600000000000 := by decide
    rw [moneyRange, Bool.and_eq_true, decide_eq_true_eq, decide_eq_true_eq, hmoney] at hrange
    omega
  · have hle := sum_le_of_mem CTransaction.txoutSize hmem
    rw [CTransaction.txoutSize, CTransaction.scriptSize] at hle
    omega

theorem getSerializeSize_le (h : b.getSerializeSize ≤ MAX_BLOCK_SIZE) (hmem : tx ∈ b.vtx) :
    tx.getSerializeSize ≤ MAX_BLOCK_SIZE := by
  have hle := sum_le_of_mem CTransaction.getSerializeSize hmem
  rw [CBlock.getSerializeSize] at h
  omega

/-- Every transaction of a block that `CheckBlock` lets through can be written and read. -/
theorem fits_of_checkBlock [Crypto] {params : CChainParams} {env : CheckEnv} {g : BestChain}
    {fCheckPOW fCheckMerkleRoot fCheckSig : Bool} {u : Unit}
    (h : b.checkBlock params env g fCheckPOW fCheckMerkleRoot fCheckSig = .ok u) :
    b.getSerializeSize ≤ MAX_BLOCK_SIZE ∧ ∀ tx ∈ b.vtx, tx.Fits := by
  have hchecked := CBlock.checked_of_checkBlock h
  have hsize : b.getSerializeSize ≤ MAX_BLOCK_SIZE := by
    simp only [CBlock.checkBlock, bind_eq_ok, rejectIf_eq_ok] at h
    obtain ⟨_, hlimits, -⟩ := h
    simp only [Bool.or_eq_false_iff, decide_eq_false_iff_not, not_lt] at hlimits
    exact hlimits.2
  exact ⟨hsize, fun tx hmem => (hchecked.transactions tx hmem).fits (getSerializeSize_le hsize hmem)⟩

end Sizes

/-! ### The transactions of a block on disk -/

section Layout

variable {b : CBlock}

/-- The bytes of a block up to a transaction are as many as `ConnectBlock` counts. -/
theorem write_split {before after : List CTransaction} {tx : CTransaction} (h : b.vtx = before ++ tx :: after) :
    ∃ front rest, (CBlock.codec SER_DISK).write b = front ++ (CTransaction.codec.write tx ++ rest) ∧
      front.length = CBlock.headerSize + CTransaction.getSizeOfCompactSize b.vtx.length +
        (before.map CTransaction.getSerializeSize).sum := by
  have hbody : headerOnly SER_DISK = false := by decide
  refine ⟨CBlockHeader.codec.write b.toCBlockHeader ++ (compactSizeCodec.write b.vtx.length ++
    before.flatMap CTransaction.codec.write), after.flatMap CTransaction.codec.write ++ byteVector.write b.vchBlockSig,
    ?_, ?_⟩
  · simp [CBlock.codec, hbody, Codec.imap, Codec.seq, vector, Codec.counted, h, List.append_assoc]
  · have hheader : (CBlockHeader.codec.write b.toCBlockHeader).length = CBlock.headerSize := by
      simp [CBlockHeader.codec, Codec.imap, Codec.seq, int32, uint32, uint256, number, length_leBytes,
        CBlock.headerSize]
    have hcount : (compactSizeCodec.write b.vtx.length).length = CTransaction.getSizeOfCompactSize b.vtx.length := by
      simp [compactSizeCodec, length_compactSize]
    simp only [List.length_append, hheader, hcount, List.length_flatMap, CTransaction.length_write]
    rw [show (fun tx : CTransaction => tx.getSerializeSize) = CTransaction.getSerializeSize from rfl]
    omega

end Layout

/-! ### The positions that ConnectBlock stores -/

/-- Pending changes that keep the positions of the records they change. -/
def KeepsPos (pool pool' : TxMap) : Prop := ∀ k a, pool k = some a → ∃ a', pool' k = some a' ∧ a'.pos = a.pos

theorem KeepsPos.refl (pool : TxMap) : KeepsPos pool pool := fun _ a h => ⟨a, h, rfl⟩

section Positions

variable [Crypto] {params : CChainParams} {env : BlockEnv} {disk : DiskEnv} {g : BestChain}
  {mempool : Uint256 → Option CTransaction} {T : TxMap} {b : CBlock} {p : CBlockIndex} {pprev : PIndex}

/-- The inputs at hand have the positions of the pending changes, and these keep them. -/
def SamePos (pool : TxMap) (s : CTransaction.ConnectState) : Prop :=
  (∀ k a txPrev, s.inputs k = some (a, txPrev) → ∀ a', pool k = some a' → a.pos = a'.pos) ∧
    KeepsPos pool s.mapTestPool

theorem SamePos.spendInput {pool : TxMap} {ibd : ℕ → IBDReading} {pos : CDiskTxPos} {tx : CTransaction}
    {flags : UInt32} {fValidateSig : Bool} {s s' : CTransaction.ConnectState} {input : CTxIn × ℕ}
    (h : SamePos pool s)
    (hok : CTransaction.spendInput params Caller.block g ibd pos tx flags fValidateSig s input = .ok s') :
    SamePos pool s' := by
  obtain ⟨txin, i⟩ := input
  simp only [CTransaction.spendInput, bind_eq_ok, orReject_eq_ok, rejectIf_eq_ok, pure_eq_ok, Prod.exists] at hok
  obtain ⟨txindex, txPrev, hinput, _, -, _, -, _, -, rfl⟩ := hok
  refine ⟨fun k a txPrev' hk a' ha' => ?_, fun k a ha => ?_⟩
  · by_cases heq : k = txin.prevout.hash
    · subst heq
      simp only [Function.update_self, Option.some.injEq, Prod.mk.injEq] at hk
      rw [← hk.1]
      exact h.1 _ _ _ hinput a' ha'
    · simp only [Function.update_of_ne heq] at hk
      exact h.1 k a txPrev' hk a' ha'
  · simp only [show Caller.block.pending = true from rfl, if_true]
    by_cases heq : k = txin.prevout.hash
    · subst heq
      exact ⟨_, Function.update_self _ _ _, h.1 _ _ _ hinput a ha⟩
    · rw [Function.update_of_ne heq]
      exact h.2 k a ha

theorem connectInputs_keepsPos {ibd : ℕ → IBDReading} {inputs : MapPrevTx} {pool pool' : TxMap} {pos : CDiskTxPos}
    {pindexBlock : PIndex} {flags : UInt32} {fValidateSig : Bool} {tx : CTransaction} {checks : List SigCheck}
    (hag : Agrees T pool inputs)
    (h : tx.connectInputs params Caller.block g ibd inputs pool pos pindexBlock flags fValidateSig =
      .ok (pool', checks)) : KeepsPos pool pool' := by
  unfold CTransaction.connectInputs at h
  split at h
  · cases h
    exact .refl pool
  · simp only [bind_eq_ok, pure_eq_ok, Prod.mk.injEq] at h
    obtain ⟨_, -, s, hfold, _, -, rfl, -⟩ := h
    refine (foldlM_induct (P := SamePos pool) (fun _ _ _ _ hs hstep => hs.spendInput hstep) ⟨?_, .refl pool⟩ hfold).2
    intro k a txPrev hk a' ha'
    have hshown := hag k a txPrev hk
    rw [overlay_of_some ha', Option.some.injEq] at hshown
    rw [hshown]

/-- A turn of the loop: the position of the transaction is the one reached, the next one is behind it, and the other
positions stay. -/
theorem connectTx_positions {s s' : Tally} {tx : CTransaction}
    (h : CBlock.connectTx params env g mempool T p pprev s tx = .ok s') :
    s'.nTxPos = s.nTxPos + UInt32.ofNat tx.getSerializeSize ∧
      s'.mapQueuedChanges tx.getHash = some (CTxIndex.new ⟨p.nFile, p.nBlockPos, s.nTxPos⟩ tx.vout.length) ∧
      ∀ k a, k ≠ tx.getHash → s.mapQueuedChanges k = some a →
        ∃ a', s'.mapQueuedChanges k = some a' ∧ a'.pos = a.pos := by
  simp only [CBlock.connectTx, bind_eq_ok, rejectIf_eq_ok, pure_eq_ok] at h
  obtain ⟨_, -, s₁, h₁, rfl⟩ := h
  suffices hkeeps : s₁.nTxPos = s.nTxPos + UInt32.ofNat tx.getSerializeSize ∧
      KeepsPos s.mapQueuedChanges s₁.mapQueuedChanges by
    refine ⟨hkeeps.1, Function.update_self _ _ _, fun k a hne hk => ?_⟩
    simp only [Function.update_of_ne hne]
    exact hkeeps.2 k a hk
  unfold CBlock.connectTxValues at h₁
  split at h₁
  · simp only [CBlock.connectCoinBase, bind_eq_ok, pure_eq_ok] at h₁
    obtain ⟨_, -, rfl⟩ := h₁
    exact ⟨rfl, .refl _⟩
  · simp only [CBlock.connectTxInputs, bind_eq_ok, pure_eq_ok, Prod.exists] at h₁
    obtain ⟨inputs, hfetch, _, -, _, -, _, -, _, -, pool', checks, hconn, rfl⟩ := h₁
    exact ⟨rfl, connectInputs_keepsPos (fetchInputs_agrees rfl hfetch) hconn⟩

/-- The position behind the transactions of a list. -/
def posAfter (first : UInt32) (txs : List CTransaction) : UInt32 :=
  first + UInt32.ofNat (txs.map CTransaction.getSerializeSize).sum

omit [Crypto] in
theorem posAfter_append_singleton (first : UInt32) (txs : List CTransaction) (tx : CTransaction) :
    posAfter first (txs ++ [tx]) = posAfter first txs + UInt32.ofNat tx.getSerializeSize := by
  simp only [posAfter, List.map_append, List.map_cons, List.map_nil, List.sum_append, List.sum_cons, List.sum_nil,
    Nat.add_zero, UInt32.ofNat_add, UInt32.add_assoc]

/-- Each transaction of the block is stored with the position behind those before it. -/
theorem foldlM_connectTx_positions {s s' : Tally} {vtx : List CTransaction}
    (hnodup : (vtx.map CTransaction.getHash).Nodup)
    (h : vtx.foldlM (CBlock.connectTx params env g mempool T p pprev) s = .ok s') :
    ∀ before tx after, vtx = before ++ tx :: after → ∃ a, s'.mapQueuedChanges tx.getHash = some a ∧
      a.pos = ⟨p.nFile, p.nBlockPos, posAfter s.nTxPos before⟩ := by
  refine (foldlM_induct_split (P := fun l t => t.nTxPos = posAfter s.nTxPos l ∧
    ∀ before tx after, l = before ++ tx :: after → ∃ a, t.mapQueuedChanges tx.getHash = some a ∧
      a.pos = ⟨p.nFile, p.nBlockPos, posAfter s.nTxPos before⟩) (fun done tx rest t t' hsplit hP hstep => ?_)
    ⟨?_, ?_⟩ h).2
  · obtain ⟨hnext, hnew, hkeep⟩ := connectTx_positions hstep
    refine ⟨by rw [hnext, hP.1, posAfter_append_singleton], fun before tx' after heq => ?_⟩
    rcases List.eq_nil_or_concat after with rfl | ⟨after, last, rfl⟩
    · obtain ⟨rfl, htx⟩ := List.append_inj' heq rfl
      obtain rfl := List.singleton_inj.1 htx
      exact ⟨_, hnew, by rw [CTxIndex.new, hP.1]⟩
    · rw [List.concat_eq_append, ← List.cons_append, ← List.append_assoc] at heq
      obtain ⟨hdone, -⟩ := List.append_inj' heq rfl
      obtain ⟨a, ha, hpos⟩ := hP.2 before tx' after hdone
      have hne : tx'.getHash ≠ tx.getHash := by
        rw [hsplit, hdone] at hnodup
        simp only [List.map_append, List.map_cons, List.append_assoc, List.cons_append, List.nodup_append,
          List.nodup_cons, List.mem_append, List.mem_cons] at hnodup
        exact fun h' => hnodup.2.1.1 (.inr (.inl h'))
      obtain ⟨a', ha', hpos'⟩ := hkeep _ a hne ha
      exact ⟨a', ha', hpos'.trans hpos⟩
  · simp [posAfter]
  · intro before tx after heq
    exact absurd heq (by simp)

omit [Crypto] in
/-- The position behind transactions of a block that is stored in a block file is the number of bytes. -/
theorem toNat_posAfter_firstTxPos {before : List CTransaction} (hpos : p.nBlockPos.toNat ≤ blockFileLimit + 8)
    (hsize : b.getSerializeSize ≤ MAX_BLOCK_SIZE)
    (hbefore : (before.map CTransaction.getSerializeSize).sum ≤ (b.vtx.map CTransaction.getSerializeSize).sum) :
    (posAfter (b.firstTxPos p) before).toNat = p.nBlockPos.toNat + (CBlock.headerSize +
      CTransaction.getSizeOfCompactSize b.vtx.length + (before.map CTransaction.getSerializeSize).sum) := by
  have hlimit : blockFileLimit + 8 + MAX_BLOCK_SIZE < 4294967296 := by decide
  rw [CBlock.getSerializeSize] at hsize
  simp only [posAfter, CBlock.firstTxPos, UInt32.toNat_add, UInt32.toNat_ofNat']
  omega

variable {W : Type} [CWalletInterface W] {σ σ' : Session W}

/-- In the file that a block has been written to, whatever has been appended since, the bytes at the position that the
index has for a transaction of the block once it is connected are that transaction. -/
theorem nTxPos_points_at (format : MessageFormat) {file file' : List UInt8} {pnext : Uint256 → Option Uint256}
    (hdisk : b.writeToDisk format file = some (file', p.nBlockPos))
    (hok : b.connectBlock params env g mempool pnext p pprev σ = .ok σ') {before after : List CTransaction}
    {tx : CTransaction} (hvtx : b.vtx = before ++ tx :: after) :
    ∃ txindex, σ'.db.txIndex tx.getHash = some txindex ∧ txindex.pos.nFile = p.nFile ∧
      txindex.pos.nBlockPos = p.nBlockPos ∧
      txindex.pos.nTxPos.toNat = p.nBlockPos.toNat + (CBlock.headerSize +
        CTransaction.getSizeOfCompactSize b.vtx.length + (before.map CTransaction.getSerializeSize).sum) ∧
      ∀ later, CTransaction.readFromDisk (file' ++ later) txindex.pos = some tx := by
  obtain ⟨s, hcore, rfl⟩ := connectBlock_eq_ok.1 hok
  simp only [CBlock.connectBlockCore, bind_eq_ok, pure_eq_ok] at hcore
  obtain ⟨_, hcheck, s', hfold, _, -, rfl⟩ := hcore
  obtain ⟨hsize, hfits⟩ := fits_of_checkBlock hcheck
  obtain ⟨a, ha, hapos⟩ :=
    foldlM_connectTx_positions (CBlock.checked_of_checkBlock hcheck).nodup hfold before tx after hvtx
  -- where the block is in the file
  rw [CBlock.writeToDisk] at hdisk
  split at hdisk
  · next hroom =>
    obtain ⟨hfile, hposition⟩ := Prod.mk.inj (Option.some.inj hdisk)
    have hlength : p.nBlockPos.toNat = (file ++ (format.pchMessageStart ++
        uint32.write ((CBlock.codec SER_DISK).size b))).length := by
      have hlimit : blockFileLimit + 8 < 4294967296 := by decide
      have hstart : format.pchMessageStart.length = 4 := format.length_eq
      rw [← hposition, UInt32.toNat_ofNat', Nat.mod_eq_of_lt]
      simp [uint32, number, Codec.imap, length_leBytes, hstart]
      omega
    have hpos : p.nBlockPos.toNat ≤ blockFileLimit + 8 := by
      have hstart : format.pchMessageStart.length = 4 := format.length_eq
      rw [hlength]
      simp [uint32, number, Codec.imap, length_leBytes, hstart]
      omega
    have hbefore : (before.map CTransaction.getSerializeSize).sum ≤ (b.vtx.map CTransaction.getSerializeSize).sum := by
      rw [hvtx, List.map_append, List.sum_append]
      exact Nat.le_add_right _ _
    have htoNat := toNat_posAfter_firstTxPos (b := b) hpos hsize hbefore
    refine ⟨a, ?_, by rw [hapos], by rw [hapos], by rw [hapos, htoNat], fun later => ?_⟩
    · simp only [CBlock.writeConnected, writePrev_txIndex]
      exact overlay_of_some ha
    · obtain ⟨front, rest, hwrite, hfront⟩ := write_split hvtx
      have hbytes : file' ++ later = (file ++ (format.pchMessageStart ++
          uint32.write ((CBlock.codec SER_DISK).size b)) ++ front) ++
            (CTransaction.codec.write tx ++ (rest ++ later)) := by
        rw [← hfile, hwrite]
        simp only [List.append_assoc]
      have hskip : (file' ++ later).drop a.pos.nTxPos.toNat = CTransaction.codec.write tx ++ (rest ++ later) := by
        rw [hapos, htoNat, hlength, ← hfront, ← List.length_append, hbytes, List.drop_left]
      rw [CTransaction.readFromDisk, hskip,
        CTransaction.lawful.read_write (hfits tx (hvtx ▸ List.mem_append_cons_self)), Option.map_some]
  · cases hdisk

end Positions

namespace Sample

/-- A block file with room, in which the block `c₄` goes to where its entry says. -/
def blockFile : List UInt8 := List.replicate 4992 0

theorem length_diskStart : [1, 2, 3, 4].length = MESSAGE_START_SIZE := rfl

/-- The bytes in front of a block, and any hash. -/
def diskFormat : MessageFormat := ⟨[1, 2, 3, 4], length_diskStart, fun _ => 0⟩

theorem writeToDisk_c₄ : ∃ file', c₄.writeToDisk diskFormat blockFile = some (file', entry₄.nBlockPos) := by
  have hroom : blockFile.length < blockFileLimit := by
    rw [blockFile, List.length_replicate]
    decide
  refine ⟨_, (if_pos hroom).trans (congrArg (fun n => some (_, n)) ?_)⟩
  rw [List.length_append, blockFile, List.length_replicate]
  rfl

theorem nTxPos_of_c₄ : ∃ file' pos, c₄.writeToDisk diskFormat blockFile = some (file', entry₄.nBlockPos) ∧
    CTransaction.readFromDisk file' pos = c₄.vtx.head? := by
  obtain ⟨file', hdisk⟩ := writeToDisk_c₄
  obtain ⟨σ', hσ'⟩ := exists_eq_ok_of_isOk (x := entry₄.block.connectBlock CChainParams.test (blockEnv true)
    calmNode.best calmNode.mempool.lookup calmNode.pnext entry₄ calmNode.best.pindexBest calmNode.session)
    (by decide +kernel)
  obtain ⟨tx, after, hvtx⟩ : ∃ tx after, c₄.vtx = tx :: after := ⟨_, _, rfl⟩
  obtain ⟨a, -, -, -, -, hread⟩ := nTxPos_points_at (p := entry₄) diskFormat hdisk hσ'
    (show c₄.vtx = [] ++ tx :: after from hvtx)
  refine ⟨file', a.pos, hdisk, ?_⟩
  rw [← List.append_nil file', hread [], hvtx]
  rfl

end Sample

end PayDayCoin
