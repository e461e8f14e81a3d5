import PayDayCoin.BlockIndexRuns
import PayDayCoin.Library.Ranked
import Mathlib.Data.Prod.Lex

/-!
# Loading the block index

When the node starts, `CTxDB::LoadBlockIndex` builds `mapBlockIndex` from the records of the database. An
object of memory (`IndexEntry`) is written as a `StoredIndex`, in which hashes stand for the pointers and
the stake is there only for a proof-of-stake block. Loading goes over the records in the order
of the database's iterator, makes an object for each hash that it meets (`insertBlockIndex`), and then
adds up the trust of the chains in order of height (`addTrust`).

**`Loaded.loadRecords`**: from records with different hashes, in whatever order, the loop makes exactly the
objects that they name, with what they say. **`foldl_addTrust`**: the second loop hands the trust down from parent
to child and changes nothing else.
-/

namespace PayDayCoin

open Library Library.Checks Library.Overlay Library.Paths Library.Runs

/-! ### The objects of the index and their records -/

def BLOCK_PROOF_OF_STAKE : UInt32 := 1
def BLOCK_STAKE_ENTROPY : UInt32 := 2
def BLOCK_STAKE_MODIFIER : UInt32 := 4

/-- A `CBlockIndex` object: hashes stand for the pointers. -/
structure IndexEntry where
  pprev : Option Uint256 := none
  pnext : Option Uint256 := none
  nFile : UInt32 := 0
  nBlockPos : UInt32 := 0
  nHeight : ℕ := 0
  nChainTrust : Uint256 := 0
  nMint : ℤ := 0
  nMoneySupply : ℤ := 0
  nFlags : UInt32 := 0
  nStakeModifier : UInt64 := 0
  bnStakeModifierV2 : Uint256 := 0
  prevoutStake : COutPoint := COutPoint.null
  nStakeTime : UInt32 := 0
  hashProof : Uint256 := 0
  nVersion : Int32 := 0
  hashMerkleRoot : Uint256 := 0
  nTime : UInt32 := 0
  nBits : UInt32 := 0
  nNonce : UInt32 := 0
deriving DecidableEq

/-- `CBlockIndex::IsProofOfStake`. -/
def IndexEntry.isProofOfStake (e : IndexEntry) : Bool := e.nFlags &&& BLOCK_PROOF_OF_STAKE != 0

/-- `CBlockIndex::GetBlockTrust`. -/
def IndexEntry.getBlockTrust (e : IndexEntry) : Uint256 :=
  let bnTarget := setCompact e.nBits
  if bnTarget ≤ 0 then 0 else getuint256 (2 ^ 256 / (bnTarget + 1))

/-- The flags that an entry is given when it is made. -/
def CBlockIndex.nFlags (p : CBlockIndex) : UInt32 :=
  (if p.isProofOfStake then BLOCK_PROOF_OF_STAKE else 0) |||
    (if p.getStakeEntropyBit != 0 then BLOCK_STAKE_ENTROPY else 0) |||
    (if p.generatedStakeModifier then BLOCK_STAKE_MODIFIER else 0)

/-- The object of an entry, with the given pointers, amounts and trust. -/
def CBlockIndex.toEntry (p : CBlockIndex) (pprev pnext : Option Uint256) (nHeight : ℕ) (nChainTrust : Uint256)
    (nMint nMoneySupply : ℤ) : IndexEntry where
  pprev := pprev
  pnext := pnext
  nFile := p.nFile
  nBlockPos := p.nBlockPos
  nHeight := nHeight
  nChainTrust := nChainTrust
  nMint := nMint
  nMoneySupply := nMoneySupply
  nFlags := p.nFlags
  nStakeModifier := p.nStakeModifier
  bnStakeModifierV2 := p.bnStakeModifierV2
  prevoutStake := p.block.getProofOfStake.1
  nStakeTime := p.block.getProofOfStake.2
  hashProof := p.hashProof
  nVersion := p.block.nVersion
  hashMerkleRoot := p.block.hashMerkleRoot
  nTime := p.block.nTime
  nBits := p.block.nBits
  nNonce := p.block.nNonce

/-- The object that `mapBlockIndex` has for a path. -/
def Node.entryOf {W : Type} (node : Node W) : PIndex → Option IndexEntry
  | [] => none
  | p :: pprev =>
    some (p.toEntry (if pprev = [] then none else some (PIndex.getBlockHash pprev)) (node.pnext p.hash) pprev.length
      (PIndex.nChainTrust (p :: pprev)) (node.nMint p.hash) (node.nMoneySupply p.hash))

/-- What `CDiskBlockIndex` serializes. -/
structure StoredIndex where
  hashNext : Uint256
  nFile : UInt32
  nBlockPos : UInt32
  nHeight : ℕ
  nMint : ℤ
  nMoneySupply : ℤ
  nFlags : UInt32
  nStakeModifier : UInt64
  bnStakeModifierV2 : Uint256
  /-- `prevoutStake` and `nStakeTime`, which only a proof-of-stake block has. -/
  stake : Option (COutPoint × UInt32)
  hashProof : Uint256
  nVersion : Int32
  hashPrev : Uint256
  hashMerkleRoot : Uint256
  nTime : UInt32
  nBits : UInt32
  nNonce : UInt32
  blockHash : Uint256
deriving DecidableEq

section Load

variable [Crypto]

/-- The hash of a header put together from the fields of a record. -/
def headerHash (nVersion : Int32) (hashPrev hashMerkleRoot : Uint256) (nTime nBits nNonce : UInt32) : Uint256 :=
  CBlock.getHash ⟨⟨nVersion, hashPrev, hashMerkleRoot, nTime, nBits, nNonce⟩, [], []⟩

/-- A record as it is written. `WriteBlockIndex` has computed `blockHash` for the key. -/
def CDiskBlockIndex.store (r : CDiskBlockIndex) : StoredIndex where
  hashNext := r.hashNext
  nFile := r.entry.nFile
  nBlockPos := r.entry.nBlockPos
  nHeight := r.nHeight
  nMint := r.nMint
  nMoneySupply := r.nMoneySupply
  nFlags := r.entry.nFlags
  nStakeModifier := r.entry.nStakeModifier
  bnStakeModifierV2 := r.entry.bnStakeModifierV2
  stake := if r.entry.nFlags &&& BLOCK_PROOF_OF_STAKE != 0 then some r.entry.block.getProofOfStake else none
  hashProof := r.entry.hashProof
  nVersion := r.entry.block.nVersion
  hashPrev := r.hashPrev
  hashMerkleRoot := r.entry.block.hashMerkleRoot
  nTime := r.entry.block.nTime
  nBits := r.entry.block.nBits
  nNonce := r.entry.block.nNonce
  blockHash := headerHash r.entry.block.nVersion r.hashPrev r.entry.block.hashMerkleRoot r.entry.block.nTime
    r.entry.block.nBits r.entry.block.nNonce

/-- What `LoadBlockIndex` reads besides the records. -/
structure LoadEnv where
  /-- `fUseFastIndex`. -/
  fUseFastIndex : Bool
  /-- `GetAdjustedTime()`. -/
  adjustedTime : ℤ
  /-- The address of the object made for a hash. -/
  address : Uint256 → ℕ

/-- `CDiskBlockIndex::GetBlockHash`. -/
def StoredIndex.getBlockHash (env : LoadEnv) (s : StoredIndex) : Uint256 :=
  if env.fUseFastIndex && (s.nTime.toNat : ℤ) < env.adjustedTime - 24 * 60 * 60 && s.blockHash != 0 then s.blockHash
  else headerHash s.nVersion s.hashPrev s.hashMerkleRoot s.nTime s.nBits s.nNonce

/-- The stake of a record that is read: the fields are read only for a proof-of-stake block. -/
def StoredIndex.readStake (s : StoredIndex) : Option (COutPoint × UInt32) :=
  if s.nFlags &&& BLOCK_PROOF_OF_STAKE != 0 then s.stake else some (COutPoint.null, 0)

/-! ### LoadBlockIndex -/

/-- What `LoadBlockIndex` builds. -/
structure LoadedIndex where
  mapBlockIndex : Uint256 → Option IndexEntry := nothing
  /-- The keys of `mapBlockIndex`. -/
  keys : List Uint256 := []
  setStakeSeen : Finset (COutPoint × UInt32) := ∅
  pindexGenesisBlock : Option Uint256 := none
  pindexBest : Option Uint256 := none
  nBestHeight : ℕ := 0
  nBestChainTrust : Uint256 := 0

namespace LoadedIndex

/-- `InsertBlockIndex`: the pointer for a hash. -/
def insertBlockIndex (hash : Uint256) (st : LoadedIndex) : LoadedIndex × Option Uint256 :=
  if hash = 0 then (st, none)
  else if (st.mapBlockIndex hash).isSome then (st, some hash)
  else
    ({ st with mapBlockIndex := Function.update st.mapBlockIndex hash (some {}), keys := hash :: st.keys }, some hash)

/-- The object of a record, before its trust is known. -/
def construct (s : StoredIndex) (pprev pnext : Option Uint256) (stake : COutPoint × UInt32) : IndexEntry where
  pprev := pprev
  pnext := pnext
  nFile := s.nFile
  nBlockPos := s.nBlockPos
  nHeight := s.nHeight
  nMint := s.nMint
  nMoneySupply := s.nMoneySupply
  nFlags := s.nFlags
  nStakeModifier := s.nStakeModifier
  bnStakeModifierV2 := s.bnStakeModifierV2
  prevoutStake := stake.1
  nStakeTime := stake.2
  hashProof := s.hashProof
  nVersion := s.nVersion
  hashMerkleRoot := s.hashMerkleRoot
  nTime := s.nTime
  nBits := s.nBits
  nNonce := s.nNonce

/-- One turn of the loop over the records. -/
def loadRecord (params : CChainParams) (env : LoadEnv) (st : LoadedIndex) (s : StoredIndex) :
    Except Reject LoadedIndex := do
  let stake ← orReject s.readStake (.throws "CDataStream::read() : end of data")
  let blockHash := s.getBlockHash env
  let (st, pindexNew) := st.insertBlockIndex blockHash
  let (st, pprev) := st.insertBlockIndex s.hashPrev
  let (st, pnext) := st.insertBlockIndex s.hashNext
  -- the pointer for the hash 0 is NULL
  let pindexNew ← orReject pindexNew (.throws "pindexNew is NULL")
  let entry := construct s pprev pnext stake
  return { st with
    mapBlockIndex := Function.update st.mapBlockIndex pindexNew (some entry)
    pindexGenesisBlock :=
      if st.pindexGenesisBlock.isNone && blockHash == params.hashGenesisBlock then some pindexNew
      else st.pindexGenesisBlock
    setStakeSeen :=
      if entry.isProofOfStake then insert (entry.prevoutStake, entry.nStakeTime) st.setStakeSeen
      else st.setStakeSeen }

/-- The height of the object of a hash. -/
def nHeight (st : LoadedIndex) (h : Uint256) : ℕ := ((st.mapBlockIndex h).map IndexEntry.nHeight).getD 0

/-- The order of `vSortedByHeight`: by height, then by address. -/
def before (env : LoadEnv) (st : LoadedIndex) (a b : Uint256) : Bool :=
  st.nHeight a < st.nHeight b || (st.nHeight a == st.nHeight b && env.address a ≤ env.address b)

/-- `pindex->nChainTrust`, of a pointer that may be `NULL`. -/
def trustOf (m : Uint256 → Option IndexEntry) (pindex : Option Uint256) : Uint256 :=
  ((pindex.bind m).map IndexEntry.nChainTrust).getD 0

/-- One turn of the loop that adds up the trust. -/
def addTrust (m : Uint256 → Option IndexEntry) (h : Uint256) : Uint256 → Option IndexEntry :=
  match m h with
  | none => m
  | some e => Function.update m h (some { e with nChainTrust := trustOf m e.pprev + e.getBlockTrust })

/-- The trust of every object. -/
def calculateTrust (env : LoadEnv) (st : LoadedIndex) : LoadedIndex :=
  { st with mapBlockIndex := (st.keys.mergeSort (st.before env)).foldl addTrust st.mapBlockIndex }

/-- The end of `LoadBlockIndex`: the best block. -/
def loadBest (hashBestChain : Option Uint256) (st : LoadedIndex) : Except Reject LoadedIndex :=
  match hashBestChain with
  | none =>
    if st.pindexGenesisBlock.isNone then .ok st else .error (.error "CTxDB::LoadBlockIndex() : hashBestChain not loaded")
  | some hash =>
    match st.mapBlockIndex hash with
    | none => .error (.error "CTxDB::LoadBlockIndex() : hashBestChain not found in the block index")
    | some e => .ok { st with pindexBest := some hash, nBestHeight := e.nHeight, nBestChainTrust := e.nChainTrust }

end LoadedIndex

/-- `CTxDB::LoadBlockIndex`, from the records that the iterator goes over and `hashBestChain`. -/
def loadBlockIndex (params : CChainParams) (env : LoadEnv) (iterator : List CDiskBlockIndex)
    (hashBestChain : Option Uint256) : Except Reject LoadedIndex := do
  let st ← (iterator.map CDiskBlockIndex.store).foldlM (LoadedIndex.loadRecord params env) {}
  (st.calculateTrust env).loadBest hashBestChain

end Load

/-! ### Reading a record back -/

theorem nFlags_proofOfStake (p : CBlockIndex) : (p.nFlags &&& BLOCK_PROOF_OF_STAKE != 0) = p.isProofOfStake := by
  unfold CBlockIndex.nFlags
  cases p.isProofOfStake <;> cases (p.getStakeEntropyBit != 0) <;> cases p.generatedStakeModifier <;> rfl

section Store

variable [Crypto]

/-- The stake is read back, whether or not it was written. -/
theorem readStake_store (r : CDiskBlockIndex) : r.store.readStake = some r.entry.block.getProofOfStake := by
  unfold StoredIndex.readStake
  have hflag := nFlags_proofOfStake r.entry
  cases hpos : r.entry.isProofOfStake with
  | false =>
    rw [hpos] at hflag
    have hnull : r.entry.block.getProofOfStake = (COutPoint.null, 0) := by
      unfold CBlock.getProofOfStake
      rw [if_neg]
      exact fun h => by rw [CBlockIndex.isProofOfStake] at hpos; rw [hpos] at h; cases h
    simp [CDiskBlockIndex.store, hflag, hnull]
  | true =>
    rw [hpos] at hflag
    simp [CDiskBlockIndex.store, hflag]

/-- A record is found under the hash of its header, which is not 0. -/
structure CDiskBlockIndex.WellNamed (r : CDiskBlockIndex) : Prop where
  hash : r.store.blockHash = r.entry.hash
  ne_zero : r.entry.hash ≠ 0

/-- Computed or taken from the record, the hash is that of the entry. -/
theorem CDiskBlockIndex.WellNamed.getBlockHash {r : CDiskBlockIndex} (h : r.WellNamed) (env : LoadEnv) :
    r.store.getBlockHash env = r.entry.hash := by
  unfold StoredIndex.getBlockHash
  split
  · exact h.hash
  · exact h.hash

end Store

namespace LoadedIndex

/-- The pointer that a hash stands for. -/
def pointer (hash : Uint256) : Option Uint256 := if hash = 0 then none else some hash

/-- The objects are those of a set of hashes. -/
structure Objects (S : Set Uint256) (st : LoadedIndex) : Prop where
  isSome : ∀ h, (st.mapBlockIndex h).isSome = true ↔ h ∈ S
  keys : ∀ h, h ∈ st.keys ↔ h ∈ S
  nodup : st.keys.Nodup

variable {st : LoadedIndex} {S : Set Uint256} {hash : Uint256}

theorem insertBlockIndex_pointer (hash : Uint256) (st : LoadedIndex) :
    (st.insertBlockIndex hash).2 = pointer hash := by
  unfold insertBlockIndex pointer
  split
  · rfl
  · split <;> rfl

theorem insertBlockIndex_kept (hash : Uint256) (st : LoadedIndex) {h : Uint256} {e : IndexEntry}
    (he : st.mapBlockIndex h = some e) : (st.insertBlockIndex hash).1.mapBlockIndex h = some e := by
  unfold insertBlockIndex
  split
  · exact he
  split
  · exact he
  · next hnone =>
    have hne : h ≠ hash := fun heq => hnone (by rw [← heq, he]; rfl)
    exact (Function.update_of_ne hne ..).trans he

theorem insertBlockIndex_setStakeSeen (hash : Uint256) (st : LoadedIndex) :
    (st.insertBlockIndex hash).1.setStakeSeen = st.setStakeSeen := by
  unfold insertBlockIndex
  split
  · rfl
  · split <;> rfl

theorem Objects.insertBlockIndex (h : st.Objects S) (hash : Uint256) :
    (st.insertBlockIndex hash).1.Objects (S ∪ {k | k = hash ∧ k ≠ 0}) := by
  unfold LoadedIndex.insertBlockIndex
  split
  · next hzero =>
    have hsame : S ∪ {k | k = hash ∧ k ≠ 0} = S := Set.union_eq_self_of_subset_right fun k hk => absurd (hk.1.trans hzero) hk.2
    rwa [hsame]
  next hne =>
  split
  · next hold =>
    have hsame : S ∪ {k | k = hash ∧ k ≠ 0} = S :=
      Set.union_eq_self_of_subset_right fun k hk => hk.1 ▸ (h.isSome hash).1 hold
    rwa [hsame]
  · next hnew =>
    have hmem : ∀ k, k ∈ S ∪ {k | k = hash ∧ k ≠ 0} ↔ k = hash ∨ k ∈ S := by
      intro k
      constructor
      · exact fun hk => hk.symm.imp (fun hk => hk.1) id
      · exact fun hk => hk.symm.imp id fun hk => ⟨hk, hk ▸ hne⟩
    refine ⟨fun k => ?_, fun k => ?_, List.nodup_cons.2 ⟨fun hk => ?_, h.nodup⟩⟩
    · rw [hmem]
      by_cases hk : k = hash
      · simp [hk]
      · simp [hk, h.isSome]
    · rw [hmem, List.mem_cons, h.keys]
    · exact hnew ((h.isSome hash).2 ((h.keys hash).1 hk))

/-! ### The loop over the records -/

section Records

variable [Crypto]

/-- The object that a record gives. -/
def ofRecord (r : CDiskBlockIndex) : IndexEntry :=
  construct r.store (pointer r.hashPrev) (pointer r.hashNext) r.entry.block.getProofOfStake

/-- The hashes that records name. -/
def namedBy (d : List CDiskBlockIndex) : Set Uint256 :=
  {h | h ≠ 0 ∧ ∃ r ∈ d, h = r.entry.hash ∨ h = r.hashPrev ∨ h = r.hashNext}

/-- The records of a list have been loaded. -/
structure Loaded (d : List CDiskBlockIndex) (st : LoadedIndex) : Prop where
  object : ∀ r ∈ d, st.mapBlockIndex r.entry.hash = some (ofRecord r)
  objects : st.Objects (namedBy d)
  stakes : ∀ stake, stake ∈ st.setStakeSeen ↔
    ∃ r ∈ d, r.entry.isProofOfStake = true ∧ r.entry.block.getProofOfStake = stake

theorem ofRecord_isProofOfStake (r : CDiskBlockIndex) : (ofRecord r).isProofOfStake = r.entry.isProofOfStake :=
  nFlags_proofOfStake r.entry

omit [Crypto] in
theorem namedBy_append (d : List CDiskBlockIndex) (r : CDiskBlockIndex) : namedBy (d ++ [r]) =
    namedBy d ∪ {k | k = r.entry.hash ∧ k ≠ 0} ∪ {k | k = r.hashPrev ∧ k ≠ 0} ∪ {k | k = r.hashNext ∧ k ≠ 0} := by
  ext k
  simp only [namedBy, Set.mem_union, Set.mem_ofPred_eq, List.mem_append, List.mem_singleton, or_and_right, exists_or,
    exists_eq_left]
  by_cases hk : k = 0
  · simp only [ne_eq, hk, not_true_eq_false, false_and, and_false, or_false]
  · simp only [ne_eq, hk, not_false_eq_true, true_and, and_true, or_assoc]

/-- The objects that a record names have been made. -/
def withPointers (r : CDiskBlockIndex) (st : LoadedIndex) : LoadedIndex :=
  (((st.insertBlockIndex r.entry.hash).1.insertBlockIndex r.hashPrev).1.insertBlockIndex r.hashNext).1

omit [Crypto] in
theorem withPointers_kept {r : CDiskBlockIndex} {k : Uint256} {e : IndexEntry} (he : st.mapBlockIndex k = some e) :
    (st.withPointers r).mapBlockIndex k = some e :=
  insertBlockIndex_kept _ _ (insertBlockIndex_kept _ _ (insertBlockIndex_kept _ _ he))

omit [Crypto] in
@[simp] theorem withPointers_setStakeSeen (r : CDiskBlockIndex) (st : LoadedIndex) :
    (st.withPointers r).setStakeSeen = st.setStakeSeen := by
  rw [withPointers, insertBlockIndex_setStakeSeen, insertBlockIndex_setStakeSeen, insertBlockIndex_setStakeSeen]

omit [Crypto] in
theorem Objects.withPointers {d : List CDiskBlockIndex} (h : st.Objects (namedBy d)) (r : CDiskBlockIndex) :
    (st.withPointers r).Objects (namedBy (d ++ [r])) := by
  rw [namedBy_append]
  exact ((h.insertBlockIndex r.entry.hash).insertBlockIndex r.hashPrev).insertBlockIndex r.hashNext

theorem loadRecord_eq {r : CDiskBlockIndex} (hr : r.WellNamed) (params : CChainParams) (env : LoadEnv)
    (st : LoadedIndex) : LoadedIndex.loadRecord params env st r.store = .ok { st.withPointers r with
      mapBlockIndex := Function.update (st.withPointers r).mapBlockIndex r.entry.hash (some (ofRecord r))
      pindexGenesisBlock :=
        if (st.withPointers r).pindexGenesisBlock.isNone && r.entry.hash == params.hashGenesisBlock then
          some r.entry.hash
        else (st.withPointers r).pindexGenesisBlock
      setStakeSeen :=
        if (ofRecord r).isProofOfStake then insert r.entry.block.getProofOfStake (st.withPointers r).setStakeSeen
        else (st.withPointers r).setStakeSeen } := by
  have hpointer : pointer r.entry.hash = some r.entry.hash := if_neg hr.ne_zero
  simp only [LoadedIndex.loadRecord, readStake_store, hr.getBlockHash, insertBlockIndex_pointer, hpointer, orReject,
    bind, Except.bind, pure, Except.pure]
  rfl

/-- One more record. -/
theorem Loaded.loadRecord {d : List CDiskBlockIndex} (h : Loaded d st) {r : CDiskBlockIndex} (hr : r.WellNamed)
    (hnew : ∀ r' ∈ d, r'.entry.hash ≠ r.entry.hash) (params : CChainParams) (env : LoadEnv) :
    ∃ st', LoadedIndex.loadRecord params env st r.store = .ok st' ∧ Loaded (d ++ [r]) st' := by
  refine ⟨_, loadRecord_eq hr params env st, ?_⟩
  have hobjects := h.objects.withPointers r
  refine ⟨fun r' hr' => ?_, ⟨fun k => ?_, hobjects.keys, hobjects.nodup⟩, fun stake => ?_⟩
  · rcases List.mem_append.1 hr' with hold | hlast
    · exact (Function.update_of_ne (hnew r' hold) ..).trans (withPointers_kept (h.object r' hold))
    · obtain rfl := List.mem_singleton.1 hlast
      exact Function.update_self ..
  · by_cases hk : k = r.entry.hash
    · subst hk
      have hmem : r.entry.hash ∈ namedBy (d ++ [r]) :=
        ⟨hr.ne_zero, r, List.mem_append_right _ (List.mem_singleton_self r), .inl rfl⟩
      exact iff_of_true (by simp) hmem
    · simp only [Function.update_of_ne hk]
      exact hobjects.isSome k
  · have hcases : (stake ∈ if (ofRecord r).isProofOfStake = true then
          insert r.entry.block.getProofOfStake (st.withPointers r).setStakeSeen
        else (st.withPointers r).setStakeSeen) ↔
        (r.entry.isProofOfStake = true ∧ r.entry.block.getProofOfStake = stake) ∨ stake ∈ st.setStakeSeen := by
      rw [ofRecord_isProofOfStake, withPointers_setStakeSeen]
      cases r.entry.isProofOfStake <;> simp [eq_comm]
    simp only
    rw [hcases, h.stakes]
    simp only [List.mem_append, List.mem_singleton, or_and_right, exists_or, exists_eq_left]
    exact or_comm

/-- **The loop over the records** goes through, when they have different hashes. -/
theorem Loaded.loadRecords (params : CChainParams) (env : LoadEnv) {l d : List CDiskBlockIndex} (h : Loaded d st)
    (hl : ∀ r ∈ l, r.WellNamed) (hnd : ((d ++ l).map fun r => r.entry.hash).Nodup) :
    ∃ st', (l.map CDiskBlockIndex.store).foldlM (LoadedIndex.loadRecord params env) st = .ok st' ∧
      Loaded (d ++ l) st' := by
  induction l generalizing d st with
  | nil => exact ⟨st, rfl, by simpa using h⟩
  | cons r l ih =>
    have hnew : ∀ r' ∈ d, r'.entry.hash ≠ r.entry.hash := by
      intro r' hr' heq
      rw [List.map_append, List.map_cons] at hnd
      exact List.disjoint_of_nodup_append hnd (List.mem_map_of_mem hr') (heq ▸ List.mem_cons_self)
    obtain ⟨st₁, hload, h₁⟩ := h.loadRecord (hl r List.mem_cons_self) hnew params env
    have hassoc : d ++ [r] ++ l = d ++ r :: l := by simp
    obtain ⟨st', hrest, h'⟩ := ih h₁ (fun r' hr' => hl r' (List.mem_cons_of_mem _ hr')) (hassoc ▸ hnd)
    refine ⟨st', ?_, hassoc ▸ h'⟩
    rw [List.map_cons, foldlM_cons_eq_ok]
    exact ⟨st₁, hload, hrest⟩

theorem loaded_nil : Loaded [] {} :=
  ⟨fun r hr => absurd hr List.not_mem_nil,
    ⟨fun h => by simp [nothing, namedBy], fun h => by simp [namedBy], List.nodup_nil⟩, fun stake => by simp⟩

end Records

/-! ### The trust -/

/-- The parent of an object. -/
def parentIn (m : Uint256 → Option IndexEntry) (k : Uint256) : Option Uint256 := (m k).bind IndexEntry.pprev

/-- The trust of an object, from that of its parent. -/
def trustIn (m : Uint256 → Option IndexEntry) (k : Uint256) (trust : Option Uint256) : Uint256 :=
  trust.getD 0 + ((m k).map IndexEntry.getBlockTrust).getD 0

variable {m : Uint256 → Option IndexEntry}

/-- The loop hands the trust down from parent to child, and changes nothing else. -/
theorem foldl_addTrust {l : List Uint256} (hl : ∀ k ∈ l, (m k).isSome = true)
    (hparent : ∀ k e p, m k = some e → e.pprev = some p → (m p).isSome = true) (h : Uint256) :
    l.foldl addTrust m h = (m h).map fun e =>
      { e with nChainTrust := Ranked.pass (parentIn m) (trustIn m) l (fun k => trustOf m (some k)) h } := by
  induction l using List.reverseRecOn generalizing h with
  | nil =>
    cases hm : m h with
    | none => simpa using hm
    | some e => simp [Ranked.pass, trustOf, hm]
  | append_singleton l k ih =>
    have hih := ih fun k' hk' => hl k' (List.mem_append_left _ hk')
    obtain ⟨e, he⟩ := Option.isSome_iff_exists.1 (hl k (List.mem_append_right _ (List.mem_singleton_self k)))
    have hk := hih k
    rw [he, Option.map_some] at hk
    have htrust : trustOf (l.foldl addTrust m) e.pprev + e.getBlockTrust =
        trustIn m k ((parentIn m k).map (Ranked.pass (parentIn m) (trustIn m) l fun k => trustOf m (some k))) := by
      have hpk : parentIn m k = e.pprev := by rw [parentIn, he, Option.bind_some]
      rw [trustIn, he, hpk]
      cases hp : e.pprev with
      | none => rfl
      | some p =>
        obtain ⟨e', he'⟩ := Option.isSome_iff_exists.1 (hparent k e p he hp)
        have hih' := hih p
        rw [he', Option.map_some] at hih'
        simp [trustOf, hih']
    rw [List.foldl_append, List.foldl_cons, List.foldl_nil, addTrust, hk, Ranked.pass_append]
    simp only
    by_cases hkh : h = k
    · subst hkh
      rw [Function.update_self, Function.update_self, he, Option.map_some, ← htrust]
      rfl
    · rw [Function.update_of_ne hkh, Function.update_of_ne hkh, hih h]

/-- The keys are gone through from low to high. -/
theorem pairwise_sorted (env : LoadEnv) (st : LoadedIndex) :
    (st.keys.mergeSort (st.before env)).Pairwise fun a b => st.nHeight a ≤ st.nHeight b := by
  have hsorted : (st.keys.mergeSort (st.before env)).Pairwise fun a b => st.before env a b = true := by
    refine List.pairwise_mergeSort (fun a b c hab hbc => ?_) (fun a b => ?_) st.keys
    · simp only [before, Bool.or_eq_true, decide_eq_true_eq, Bool.and_eq_true, beq_iff_eq] at hab hbc ⊢
      omega
    · simp only [before, Bool.or_eq_true, decide_eq_true_eq, Bool.and_eq_true, beq_iff_eq]
      omega
  refine hsorted.imp fun {a b} hab => ?_
  simp only [before, Bool.or_eq_true, decide_eq_true_eq, Bool.and_eq_true, beq_iff_eq] at hab
  omega

end LoadedIndex

end PayDayCoin
