import PayDayCoin.Library.MerkleTrees
import PayDayCoin.Library.Runs
import PayDayCoin.Block

/-!
# Merkle branches

`BuildMerkleTree`, `GetMerkleBranch` and `CheckMerkleBranch` of a block over the vector `vMerkleTree`, which has all
levels of the tree one after the other and stays in memory from one call to the next. `none` stands for an access past
the end of the vector, of which there is none (**`buildVector_eq`**, **`getMerkleBranch_eq`**).

The branch that the block gives for a transaction, checked with the transaction's hash and index, gives the root that
`BuildMerkleTree` returns, whatever calls have been made before (**`checkMerkleBranch_eq`**). That root is the
`buildMerkleTree` of the block by which blocks are accepted.

No two lists of transactions without a repeated hash have the same root (**`vtx_eq_of_buildMerkleTree_eq`**): no other
body for a header passes the search of `CheckBlock` for duplicate transactions.
-/

namespace PayDayCoin

open Library.MerkleTrees Library.Runs

namespace CBlock

variable [Crypto]

/-- The inner loop of `BuildMerkleTree`: one level of `nSize` nodes that starts at `j`. -/
def levelLoop (j nSize i : ℕ) (vMerkleTree : List Uint256) : Option (List Uint256) :=
  if i < nSize then
    vMerkleTree[j + i]?.bind fun left =>
      vMerkleTree[j + min (i + 1) (nSize - 1)]?.bind fun right =>
        levelLoop j nSize (i + 2) (vMerkleTree ++ [Crypto.hashPair left right])
  else some vMerkleTree
termination_by nSize - i

/-- The outer loop of `BuildMerkleTree`. -/
def treeLoop (j nSize : ℕ) (vMerkleTree : List Uint256) : Option (List Uint256) :=
  if 1 < nSize then (levelLoop j nSize 0 vMerkleTree).bind (treeLoop (j + nSize) ((nSize + 1) / 2))
  else some vMerkleTree
termination_by nSize

/-- `vMerkleTree` after `BuildMerkleTree`. -/
def buildVector (b : CBlock) : Option (List Uint256) := treeLoop 0 b.vtx.length (b.vtx.map CTransaction.getHash)

/-- What `BuildMerkleTree` returns. -/
def backOrZero (vMerkleTree : List Uint256) : Uint256 := vMerkleTree.getLast?.getD 0

/-- The loop of `GetMerkleBranch`. -/
def branchLoop (vMerkleTree : List Uint256) (j nSize nIndex : ℕ) : Option (List Uint256) :=
  if 1 < nSize then
    vMerkleTree[j + min (nIndex ^^^ 1) (nSize - 1)]?.bind fun sibling =>
      (branchLoop vMerkleTree (j + nSize) ((nSize + 1) / 2) (nIndex / 2)).map (sibling :: ·)
  else some []
termination_by nSize

/-- `GetMerkleBranch`: `vMerkleTree` afterwards, and the branch. -/
def getMerkleBranch (b : CBlock) (vMerkleTree : List Uint256) (nIndex : ℕ) : Option (List Uint256 × List Uint256) :=
  (if vMerkleTree.isEmpty then b.buildVector else some vMerkleTree).bind fun vMerkleTree =>
    (branchLoop vMerkleTree 0 b.vtx.length nIndex).map fun vMerkleBranch => (vMerkleTree, vMerkleBranch)

/-- The loop of `CheckMerkleBranch`. -/
def checkLoop : Uint256 → List Uint256 → ℤ → Uint256
  | hash, [], _ => hash
  | hash, otherside :: vMerkleBranch, nIndex =>
    checkLoop (if nIndex % 2 = 1 then Crypto.hashPair otherside hash else Crypto.hashPair hash otherside)
      vMerkleBranch (nIndex / 2)

/-- `CheckMerkleBranch`. -/
def checkMerkleBranch (hash : Uint256) (vMerkleBranch : List Uint256) (nIndex : ℤ) : Uint256 :=
  if nIndex = -1 then 0 else checkLoop hash vMerkleBranch nIndex

/-! ### The vector -/

omit [Crypto] in
theorem getElem?_middle (pre l acc : List Uint256) {k : ℕ} (hk : k < l.length) :
    (pre ++ l ++ acc)[pre.length + k]? = l[k]? := by
  rw [List.append_assoc, List.getElem?_append_right (Nat.le_add_right _ _), Nat.add_sub_cancel_left,
    List.getElem?_append_left hk]

theorem levelLoop_eq (pre l acc : List Uint256) (i : ℕ) : levelLoop pre.length l.length i (pre ++ l ++ acc) =
    some (pre ++ l ++ acc ++ level Crypto.hashPair (l.drop i)) := by
  induction hn : l.length - i using Nat.strong_induction_on generalizing i acc with
  | _ n ih =>
    subst hn
    rw [levelLoop]
    split
    · next hi =>
      have hmin : min (i + 1) (l.length - 1) < l.length := by omega
      rw [getElem?_middle pre l acc hi, getElem?_middle pre l acc hmin, List.getElem?_eq_getElem hi,
        List.getElem?_eq_getElem hmin, Option.bind_some, Option.bind_some, List.append_assoc (pre ++ l),
        ih (l.length - (i + 2)) (by omega) (acc ++ _) (i + 2) rfl, List.drop_eq_getElem_cons hi]
      by_cases hnext : i + 1 < l.length
      · have heq : min (i + 1) (l.length - 1) = i + 1 := by omega
        simp only [heq]
        rw [List.drop_eq_getElem_cons hnext, level]
        simp
      · have heq : min (i + 1) (l.length - 1) = i := by omega
        simp only [heq]
        rw [List.drop_eq_nil_of_le (by omega), List.drop_eq_nil_of_le (by omega), level, level]
        simp
    · next hi => rw [List.drop_eq_nil_of_le (not_lt.1 hi), level, List.append_nil]

theorem treeLoop_eq (pre l : List Uint256) :
    treeLoop pre.length l.length (pre ++ l) = some (pre ++ levels Crypto.hashPair l) := by
  fun_induction levels Crypto.hashPair l generalizing pre with
  | case1 l h ih =>
    have hlevel := levelLoop_eq pre l [] 0
    rw [List.append_nil, List.drop_zero] at hlevel
    rw [treeLoop, if_pos h, hlevel, Option.bind_some, ← length_level Crypto.hashPair, ← List.length_append, ih,
      List.append_assoc]
  | case2 l h => rw [treeLoop, if_neg h]

/-- `BuildMerkleTree` leaves the levels of the tree. -/
theorem buildVector_eq (b : CBlock) :
    b.buildVector = some (levels Crypto.hashPair (b.vtx.map CTransaction.getHash)) := by
  have h := treeLoop_eq [] (b.vtx.map CTransaction.getHash)
  rwa [List.length_map] at h

/-! ### The root -/

theorem merkleLevel_eq (l : List Uint256) : merkleLevel l = level Crypto.hashPair l := by
  fun_induction merkleLevel l with
  | case1 => rfl
  | case2 a => rfl
  | case3 a b l ih => rw [level, ih]

theorem merkleRoot_eq {fuel : ℕ} {l : List Uint256} (h : l.length ≤ fuel) :
    merkleRoot fuel l = (root Crypto.hashPair l).getD 0 := by
  induction fuel generalizing l with
  | zero => rw [List.length_eq_zero_iff.1 (Nat.le_zero.1 h), merkleRoot, root]; rfl
  | succ fuel ih =>
    rcases l with _ | ⟨a, _ | ⟨b, l⟩⟩
    · rw [merkleRoot, root]; rfl
    · rw [merkleRoot, root]; rfl
    · have hlen : (level Crypto.hashPair (a :: b :: l)).length ≤ fuel := by
        simp only [length_level, List.length_cons] at h ⊢
        omega
      rw [merkleRoot, merkleLevel_eq, ih hlen, root.eq_def _ (a :: b :: l), if_pos (by simp)]
      all_goals simp

/-- What `BuildMerkleTree` returns is the root. -/
theorem backOrZero_levels (b : CBlock) :
    backOrZero (levels Crypto.hashPair (b.vtx.map CTransaction.getHash)) = b.buildMerkleTree := by
  rw [backOrZero, getLast?_levels, buildMerkleTree, merkleRoot_eq (List.length_map _).le]

/-! ### The branch -/

theorem getElem?_levels {l : List Uint256} {k : ℕ} (hk : k < l.length) : (levels Crypto.hashPair l)[k]? = l[k]? := by
  rw [levels]
  split
  · exact List.getElem?_append_left hk
  · rfl

theorem branchLoop_eq (pre l : List Uint256) (i : ℕ) :
    branchLoop (pre ++ levels Crypto.hashPair l) pre.length l.length i = some (branch Crypto.hashPair l i) := by
  fun_induction branch Crypto.hashPair l i generalizing pre with
  | case1 l i h ih =>
    have hmin : min (i ^^^ 1) (l.length - 1) < l.length := by omega
    have hrest : pre ++ levels Crypto.hashPair l = pre ++ l ++ levels Crypto.hashPair (level Crypto.hashPair l) := by
      rw [levels, if_pos h, List.append_assoc]
    rw [branchLoop, if_pos h, List.getElem?_append_right (Nat.le_add_right _ _), Nat.add_sub_cancel_left,
      getElem?_levels hmin, List.getElem?_eq_getElem hmin, Option.bind_some, hrest, ← length_level Crypto.hashPair,
      ← List.length_append, ih, Option.map_some]
    rfl
  | case2 l i h => rw [branchLoop, if_neg h]

theorem checkLoop_eq (hash : Uint256) (vMerkleBranch : List Uint256) (i : ℕ) :
    checkLoop hash vMerkleBranch i = fold Crypto.hashPair hash vMerkleBranch i := by
  induction vMerkleBranch generalizing hash i with
  | nil => rfl
  | cons otherside vMerkleBranch ih =>
    have hodd : (i : ℤ) % 2 = 1 ↔ i % 2 = 1 := by omega
    have hhalf : (i : ℤ) / 2 = (i / 2 : ℕ) := by omega
    rw [checkLoop, fold, hhalf, ih]
    simp only [hodd]

/-! ### Calls -/

/-- `vMerkleTree` of a block that does not change: nothing yet, or what `BuildMerkleTree` has left. -/
def Built (b : CBlock) (vMerkleTree : List Uint256) : Prop :=
  vMerkleTree = [] ∨ vMerkleTree = levels Crypto.hashPair (b.vtx.map CTransaction.getHash)

theorem getMerkleBranch_eq {b : CBlock} {vMerkleTree : List Uint256} (h : b.Built vMerkleTree) (nIndex : ℕ) :
    b.getMerkleBranch vMerkleTree nIndex = some (levels Crypto.hashPair (b.vtx.map CTransaction.getHash),
      branch Crypto.hashPair (b.vtx.map CTransaction.getHash) nIndex) := by
  have hvector : (if vMerkleTree.isEmpty then b.buildVector else some vMerkleTree) =
      some (levels Crypto.hashPair (b.vtx.map CTransaction.getHash)) := by
    split
    · exact b.buildVector_eq
    · next hne =>
      rcases h with rfl | rfl
      · exact absurd rfl hne
      · rfl
  have hloop := branchLoop_eq [] (b.vtx.map CTransaction.getHash) nIndex
  rw [List.length_map] at hloop
  rw [getMerkleBranch, hvector, Option.bind_some]
  exact congrArg (Option.map _) hloop

end CBlock

/-- A call that uses `vMerkleTree` of a block. -/
inductive MerkleCall where
  | buildMerkleTree
  | getMerkleBranch (nIndex : ℕ)

/-- What a call leaves in `vMerkleTree`. -/
def MerkleCall.step [Crypto] (b : CBlock) (vMerkleTree : Option (List Uint256)) : MerkleCall → Option (List Uint256)
  | buildMerkleTree => vMerkleTree.bind fun _ => b.buildVector
  | getMerkleBranch nIndex => vMerkleTree.bind fun v => (b.getMerkleBranch v nIndex).map Prod.fst

namespace CBlock

variable [Crypto]

theorem built_run (b : CBlock) (calls : List MerkleCall) :
    ∃ v, run (MerkleCall.step b) (some []) calls = some v ∧ b.Built v := by
  refine run_induct (I := fun s => ∃ v, s = some v ∧ b.Built v) (fun c _ s hs => ?_) ⟨[], rfl, .inl rfl⟩
  obtain ⟨v, rfl, hv⟩ := hs
  cases c with
  | buildMerkleTree => exact ⟨_, b.buildVector_eq, .inr rfl⟩
  | getMerkleBranch nIndex =>
    refine ⟨_, ?_, .inr rfl⟩
    rw [MerkleCall.step, Option.bind_some, getMerkleBranch_eq hv, Option.map_some]

/-- After any calls the branch of a transaction, checked with its hash and its index, is the root that
`BuildMerkleTree` returns. -/
theorem checkMerkleBranch_eq (b : CBlock) (calls : List MerkleCall) {i : ℕ} (hi : i < b.vtx.length) :
    ∃ v v' vMerkleBranch vector, run (MerkleCall.step b) (some []) calls = some v ∧
      b.getMerkleBranch v i = some (v', vMerkleBranch) ∧ b.buildVector = some vector ∧
      checkMerkleBranch b.vtx[i].getHash vMerkleBranch i = backOrZero vector ∧
      backOrZero vector = b.buildMerkleTree := by
  obtain ⟨v, hrun, hv⟩ := b.built_run calls
  refine ⟨v, _, _, _, hrun, getMerkleBranch_eq hv i, b.buildVector_eq, ?_, b.backOrZero_levels⟩
  have hhash : (b.vtx.map CTransaction.getHash)[i]? = some b.vtx[i].getHash := by
    rw [List.getElem?_map, List.getElem?_eq_getElem hi, Option.map_some]
  rw [checkMerkleBranch, if_neg (by omega), checkLoop_eq, backOrZero, getLast?_levels, fold_branch hhash,
    Option.getD_some]

/-! ### One body for a root -/

/-- The hashes of the transactions of a block. -/
def txids (b : CBlock) : List Uint256 := b.vtx.map CTransaction.getHash

/-- The pairs of hashes that are hashed for the trees of two blocks. -/
def hashedPairs (b b' : CBlock) : List (Uint256 × Uint256) :=
  pairs Crypto.hashPair b.txids ++ pairs Crypto.hashPair b'.txids

theorem root_of_buildMerkleTree {b : CBlock} (hne : b.vtx ≠ []) : root Crypto.hashPair b.txids = some b.buildMerkleTree := by
  obtain ⟨tx, vtx, hvtx⟩ := List.exists_cons_of_ne_nil hne
  have hfirst : b.txids[0]? = some tx.getHash := by rw [txids, hvtx]; rfl
  rw [buildMerkleTree, merkleRoot_eq (List.length_map _).le]
  change root Crypto.hashPair b.txids = some ((root Crypto.hashPair b.txids).getD 0)
  rw [fold_branch hfirst, Option.getD_some]

/-- Two lists of transactions without a repeated hash have the same root only if they have the same hashes, and are the
same when the hash tells their transactions apart. It is assumed of `Hash` of two hashes that it tells apart the pairs in
the two trees, and gives no hash of a transaction. -/
theorem vtx_eq_of_buildMerkleTree_eq {b b' : CBlock} (hne : b.vtx ≠ []) (hne' : b'.vtx ≠ []) (hunique : b.txids.Nodup)
    (hunique' : b'.txids.Nodup)
    (hinj : ∀ p ∈ hashedPairs b b', ∀ q ∈ hashedPairs b b', Crypto.hashPair p.1 p.2 = Crypto.hashPair q.1 q.2 → p = q)
    (hleaf : ∀ txid ∈ b.txids ++ b'.txids, ∀ p ∈ hashedPairs b b', Crypto.hashPair p.1 p.2 ≠ txid)
    (hroot : b.buildMerkleTree = b'.buildMerkleTree) :
    b.txids = b'.txids ∧
      ((∀ tx ∈ b.vtx, ∀ tx' ∈ b'.vtx, tx.getHash = tx'.getHash → tx = tx') → b.vtx = b'.vtx) := by
  have hids : b.txids = b'.txids := by
    refine eq_of_root_eq (List.map_eq_nil_iff.not.2 hne) (List.map_eq_nil_iff.not.2 hne') hunique hunique' hinj hleaf ?_
    rw [root_of_buildMerkleTree hne, root_of_buildMerkleTree hne', hroot]
  exact ⟨hids, fun hcollision => map_inj_on hcollision hids⟩

end CBlock

namespace MerkleSample

/-- The hash of a transaction is its time, and that of two hashes keeps them apart. -/
scoped instance crypto : Crypto where
  serializeHash tx := BitVec.ofNat 256 tx.nTime.toNat
  hash _ := 0
  hash9 _ := 0
  hashPair a b := BitVec.ofNat 256 (100 * a.toNat + b.toNat)
  verifySignature _ _ _ _ _ := true
  checkBlockSignature _ := true
  hashKernel _ _ _ _ _ _ := 0
  hashSelection _ _ := 0
  hashModifierV2 _ _ := 0

/-- A block of three transactions, so that the first level is odd. -/
def block : CBlock where
  hashPrevBlock := 0
  hashMerkleRoot := 0
  nTime := 0
  nBits := 0
  nNonce := 0
  vtx := [⟨1, 1, [], [], 0⟩, ⟨1, 2, [], [], 0⟩, ⟨1, 3, [], [], 0⟩]

theorem branch_of_third : ∃ v v' vMerkleBranch vector,
    run (MerkleCall.step block) (some []) [.getMerkleBranch 1, .buildMerkleTree] = some v ∧
      block.getMerkleBranch v 2 = some (v', vMerkleBranch) ∧ block.buildVector = some vector ∧
      CBlock.checkMerkleBranch 3 vMerkleBranch 2 = CBlock.backOrZero vector := by
  obtain ⟨v, v', vMerkleBranch, vector, hrun, hbranch, hvector, hcheck, -⟩ :=
    block.checkMerkleBranch_eq [.getMerkleBranch 1, .buildMerkleTree] (i := 2) (by decide)
  exact ⟨v, v', vMerkleBranch, vector, hrun, hbranch, hvector, hcheck⟩

theorem pairs_block : pairs Crypto.hashPair block.txids = [(1, 2), (3, 3), (102, 303)] := by
  have hids : block.txids = [1, 2, 3] := by decide
  have hlevel : level Crypto.hashPair ([1, 2, 3] : List Uint256) = [102, 303] := by decide
  have htop : level Crypto.hashPair ([102, 303] : List Uint256) = [10503] := by decide
  rw [hids, pairs, if_pos (by decide), hlevel, pairs, if_pos (by decide), htop, pairs, if_neg (by decide)]
  rfl

/-- The block and itself. -/
theorem block_vtx_unique : block.txids = block.txids ∧ ((∀ tx ∈ block.vtx, ∀ tx' ∈ block.vtx,
    tx.getHash = tx'.getHash → tx = tx') → block.vtx = block.vtx) := by
  have hids : block.txids = [1, 2, 3] := by decide
  have hpairs : CBlock.hashedPairs block block = [(1, 2), (3, 3), (102, 303), (1, 2), (3, 3), (102, 303)] := by
    rw [CBlock.hashedPairs, pairs_block, List.cons_append, List.cons_append, List.cons_append, List.nil_append]
  have hvtx : block.vtx ≠ [] := by decide
  have hunique : block.txids.Nodup := by
    rw [hids]
    decide
  have hleaf : ∀ p ∈ CBlock.hashedPairs block block, Crypto.hashPair p.1 p.2 ∉ block.txids ++ block.txids := by
    have hall : (CBlock.hashedPairs block block).all fun p =>
        !(block.txids ++ block.txids).contains (Crypto.hashPair p.1 p.2) := by
      rw [hpairs, hids]
      decide
    intro p hp
    have hp := List.all_eq_true.mp hall p hp
    rw [Bool.not_eq_true', List.contains_eq_mem, decide_eq_false_iff_not] at hp
    exact hp
  have hinj : ∀ p ∈ CBlock.hashedPairs block block, ∀ q ∈ CBlock.hashedPairs block block,
      Crypto.hashPair p.1 p.2 = Crypto.hashPair q.1 q.2 → p = q := by
    have hall : (CBlock.hashedPairs block block).all fun p => (CBlock.hashedPairs block block).all fun q =>
        Crypto.hashPair p.1 p.2 != Crypto.hashPair q.1 q.2 || p == q := by
      rw [hpairs]
      decide
    intro p hp q hq heq
    have hq := List.all_eq_true.mp (List.all_eq_true.mp hall p hp) q hq
    rw [Bool.or_eq_true, bne_iff_ne, beq_iff_eq] at hq
    exact hq.resolve_left fun hne => hne heq
  exact CBlock.vtx_eq_of_buildMerkleTree_eq hvtx hvtx hunique hunique hinj
    (fun txid htxid p hp heq => hleaf p hp (heq ▸ htxid)) (Eq.refl block.buildMerkleTree)

end MerkleSample

end PayDayCoin
