import PayDayCoin.MainChain

/-!
# Block locators

A `CBlockLocator` lists an entry of the block index and some of its ancestors, in steps that double after the first
eleven, and the genesis block at the end. `GetBlockIndex` finds the first that is on the main chain, and
`GetDistanceBack` counts the steps to it again. **`locator_meets`**: what is found is the highest one listed, and the
list is of logarithmic length (`LocatorMeets`), but the distance is right exactly if one of the blocks that the steps
lead to is on the main chain: otherwise the step beyond the genesis block is counted, too.
-/

namespace PayDayCoin

variable {W : Type}

/-! ### The locator -/

/-- The loop of `CBlockLocator::Set`, with the number of hashes so far; `fuel` bounds its turns. -/
def setLoop : ℕ → PIndex → ℕ → ℕ → List Uint256
  | 0, _, _, _ => []
  | _ + 1, [], _, _ => []
  | fuel + 1, p :: pprev, size, nStep =>
    p.hash :: setLoop fuel ((p :: pprev).drop nStep) (size + 1) (if 10 < size + 1 then nStep * 2 else nStep)

/-- `CBlockLocator::Set`: `vHave`. -/
def locatorSet (hashGenesisBlock : Uint256) (pindex : PIndex) : List Uint256 :=
  setLoop pindex.length pindex 0 1 ++ [hashGenesisBlock]

namespace Node

variable (node : Node W)

/-- `CBlockLocator::GetBlockIndex`. -/
def getBlockIndex : List Uint256 → PIndex
  | [] => node.pindexGenesisBlock
  | hash :: vHave =>
    match node.mapBlockIndex hash with
    | none => getBlockIndex vHave
    | some pindex => if node.isInMainChain pindex then pindex else getBlockIndex vHave

/-- The loop of `CBlockLocator::GetDistanceBack`. -/
def distanceLoop : List Uint256 → ℕ → ℕ → ℕ
  | [], nDistance, _ => nDistance
  | hash :: vHave, nDistance, nStep =>
    if (node.mapBlockIndex hash).any node.isInMainChain then nDistance
    else
      distanceLoop vHave (nDistance + nStep) (if 10 < nDistance + nStep then nStep * 2 else nStep)

/-- `CBlockLocator::GetDistanceBack`. -/
def getDistanceBack (vHave : List Uint256) : ℕ := node.distanceLoop vHave 0 1

end Node

/-! ### The steps -/

/-- The step of a turn: 1 in the first eleven, and twice the last one after that. -/
def stepAt : ℕ → ℕ
  | 0 => 1
  | k + 1 => if 10 < k + 1 then stepAt k * 2 else stepAt k

/-- How far back a turn is: 0, 1, ..., 11, 13, 17, 25, and so on. -/
def distAt : ℕ → ℕ
  | 0 => 0
  | k + 1 => distAt k + stepAt k

theorem steps_small {k : ℕ} (h : k ≤ 10) : stepAt k = 1 ∧ distAt k = k := by
  induction k with
  | zero => exact ⟨rfl, rfl⟩
  | succ k ih =>
    obtain ⟨hstep, hdist⟩ := ih (by omega)
    rw [stepAt, distAt, if_neg (by omega), hstep, hdist]
    exact ⟨rfl, rfl⟩

theorem steps_large (k : ℕ) : stepAt (k + 11) = 2 ^ (k + 1) ∧ distAt (k + 11) = 9 + 2 ^ (k + 1) := by
  induction k with
  | zero => exact ⟨by decide, by decide⟩
  | succ k ih =>
    obtain ⟨hstep, hdist⟩ := ih
    rw [show k + 1 + 11 = k + 11 + 1 by omega, stepAt, distAt, if_pos (by omega), hstep, hdist, pow_succ 2 (k + 1)]
    exact ⟨rfl, by omega⟩

theorem stepAt_pos (k : ℕ) : 0 < stepAt k := by
  rcases Nat.lt_or_ge k 11 with hk | hk
  · rw [(steps_small (by omega)).1]
    exact Nat.one_pos
  · obtain ⟨j, rfl⟩ := Nat.exists_eq_add_of_le' hk
    rw [(steps_large j).1]
    exact Nat.two_pow_pos _

theorem distAt_strictMono : StrictMono distAt := strictMono_nat_of_lt_succ fun k => by
  rw [distAt]
  exact Nat.lt_add_of_pos_right (stepAt_pos k)

/-- The count of the steps doubles them in the same turn as the list of hashes. -/
theorem lt_distAt_succ (k : ℕ) : 10 < distAt k + stepAt k ↔ 10 < k + 1 := by
  rcases Nat.lt_or_ge k 11 with hk | hk
  · obtain ⟨hstep, hdist⟩ := steps_small (show k ≤ 10 by omega)
    rw [hstep, hdist]
  · obtain ⟨j, rfl⟩ := Nat.exists_eq_add_of_le' hk
    rw [(steps_large j).1, (steps_large j).2]
    have := Nat.two_pow_pos (j + 1)
    omega

/-- There are few turns. -/
theorem turns_le {n length : ℕ} (h : ∀ j < n, distAt j < length) : n ≤ 11 + Nat.log2 length := by
  rcases Nat.lt_or_ge n 12 with hn | hn
  · omega
  · obtain ⟨k, rfl⟩ := Nat.exists_eq_add_of_le' hn
    have hlast := h (k + 11) (by omega)
    rw [(steps_large k).2] at hlast
    have hpos := Nat.two_pow_pos (k + 1)
    have hlog : k + 1 ≤ Nat.log2 length := (Nat.le_log2 (by omega)).2 (by omega)
    omega

/-! ### The walk -/

/-- The walk lists the blocks at the steps, as long as there are some. -/
theorem setLoop_eq (path : PIndex) {fuel k : ℕ} (hfuel : path.length - distAt k ≤ fuel) :
    ∃ n, setLoop fuel (path.drop (distAt k)) k (stepAt k) =
        (List.range' k n).map (fun j => PIndex.getBlockHash (path.drop (distAt j))) ∧
      (∀ j, k ≤ j → j < k + n → distAt j < path.length) ∧ path.length ≤ distAt (k + n) := by
  induction fuel generalizing k with
  | zero => exact ⟨0, rfl, fun j hj hlt => by omega, by rw [Nat.add_zero]; omega⟩
  | succ fuel ih =>
    cases hdrop : path.drop (distAt k) with
    | nil =>
      rw [List.drop_eq_nil_iff] at hdrop
      exact ⟨0, rfl, fun j hj hlt => by omega, hdrop⟩
    | cons p pprev =>
      have hlt : distAt k < path.length := by
        by_contra hno
        rw [List.drop_eq_nil_of_le (Nat.not_lt.1 hno)] at hdrop
        cases hdrop
      have hnext : (p :: pprev).drop (stepAt k) = path.drop (distAt (k + 1)) := by
        rw [← hdrop, List.drop_drop, distAt]
      have hpos := stepAt_pos k
      obtain ⟨n, heq, hin, hout⟩ := ih (k := k + 1) (by rw [distAt]; omega)
      refine ⟨n + 1, ?_, fun j hj hjlt => ?_, ?_⟩
      · rw [setLoop, hnext, List.range'_succ, List.map_cons, hdrop]
        rw [stepAt] at heq
        rw [heq]
        rfl
      · rcases Nat.eq_or_lt_of_le hj with rfl | hj
        · exact hlt
        · exact hin j hj (by omega)
      · rw [show k + (n + 1) = k + 1 + n by omega]
        exact hout

variable {A : CBlockIndex → PIndex → Prop} {J : PIndex → TxMap → Prop} {g : CBlockIndex} {node : Node W}
  {path : PIndex}

/-- The first of the blocks at the steps that is on the main chain is found, with its distance; or none is, and the
genesis block is found, at the distance of the step beyond. -/
theorem locate_cases (h : node.Ok A J g) (hp : Indexed node.mapBlockIndex path) {k n : ℕ}
    (hin : ∀ j, k ≤ j → j < k + n → distAt j < path.length) :
    let vHave := (List.range' k n).map (fun j => PIndex.getBlockHash (path.drop (distAt j))) ++ [g.hash]
    (∃ j, k ≤ j ∧ j < k + n ∧ path.drop (distAt j) <:+ node.best.pindexBest ∧
        (∀ i, k ≤ i → i < j → ¬path.drop (distAt i) <:+ node.best.pindexBest) ∧
        node.getBlockIndex vHave = path.drop (distAt j) ∧
        node.distanceLoop vHave (distAt k) (stepAt k) = distAt j) ∨
      ((∀ j, k ≤ j → j < k + n → ¬path.drop (distAt j) <:+ node.best.pindexBest) ∧
        node.getBlockIndex vHave = [g] ∧ node.distanceLoop vHave (distAt k) (stepAt k) = distAt (k + n)) := by
  intro vHave
  induction n generalizing k with
  | zero =>
    right
    have hgenesis := h.index.suffix hp (h.genesis_suffix hp) (List.cons_ne_nil g [])
    have hmain : node.isInMainChain [g] = true := (h.isInMainChain_iff hgenesis).2 (h.genesis_suffix h.indexed)
    have hfound : node.mapBlockIndex g.hash = some [g] := hgenesis.2
    refine ⟨fun j hj hlt => by omega, ?_, ?_⟩
    · change node.getBlockIndex [g.hash] = [g]
      rw [Node.getBlockIndex, hfound]
      exact if_pos hmain
    · change node.distanceLoop [g.hash] (distAt k) (stepAt k) = distAt k
      rw [Node.distanceLoop, hfound, Option.any_some, if_pos hmain]
  | succ n ih =>
    have hlt := hin k (Nat.le_refl k) (by omega)
    have hne : path.drop (distAt k) ≠ [] := by
      rw [Ne, List.drop_eq_nil_iff]
      omega
    have hindexed := h.index.suffix hp (List.drop_suffix (distAt k) path) hne
    have hsplit : vHave = PIndex.getBlockHash (path.drop (distAt k)) ::
        ((List.range' (k + 1) n).map (fun j => PIndex.getBlockHash (path.drop (distAt j))) ++ [g.hash]) := by
      change (List.range' k (n + 1)).map _ ++ [g.hash] = _
      rw [List.range'_succ, List.map_cons, List.cons_append]
    by_cases hmain : path.drop (distAt k) <:+ node.best.pindexBest
    · left
      have htrue := (h.isInMainChain_iff hindexed).2 hmain
      refine ⟨k, Nat.le_refl k, by omega, hmain, fun i hi hlt => by omega, ?_, ?_⟩
      · rw [hsplit, Node.getBlockIndex, hindexed.2]
        exact if_pos htrue
      · rw [hsplit, Node.distanceLoop, hindexed.2, Option.any_some, if_pos htrue]
    · have hfalse : node.isInMainChain (path.drop (distAt k)) ≠ true := fun he =>
        hmain ((h.isInMainChain_iff hindexed).1 he)
      have hindex : node.getBlockIndex vHave = node.getBlockIndex
          ((List.range' (k + 1) n).map (fun j => PIndex.getBlockHash (path.drop (distAt j))) ++ [g.hash]) := by
        rw [hsplit, Node.getBlockIndex, hindexed.2]
        exact if_neg hfalse
      have hdistance : node.distanceLoop vHave (distAt k) (stepAt k) = node.distanceLoop
          ((List.range' (k + 1) n).map (fun j => PIndex.getBlockHash (path.drop (distAt j))) ++ [g.hash])
          (distAt (k + 1)) (stepAt (k + 1)) := by
        rw [hsplit, Node.distanceLoop, hindexed.2, Option.any_some, if_neg hfalse, stepAt, distAt]
        simp only [lt_distAt_succ]
      rcases ih (k := k + 1) (fun j hj hlt => hin j (by omega) (by omega)) with
        ⟨j, hj, hjlt, hjmain, hbefore, hjindex, hjdist⟩ | ⟨hnone, hgindex, hgdist⟩
      · left
        refine ⟨j, by omega, by omega, hjmain, fun i hi hij => ?_, hindex.trans hjindex, hdistance.trans hjdist⟩
        rcases Nat.eq_or_lt_of_le hi with rfl | hi
        · exact hmain
        · exact hbefore i hi hij
      · right
        refine ⟨fun j hj hjlt => ?_, hindex.trans hgindex, ?_⟩
        · rcases Nat.eq_or_lt_of_le hj with rfl | hj
          · exact hmain
          · exact hnone j hj (by omega)
        · rw [hdistance, hgdist]
          congr 1
          omega

/-! ### What a locator finds -/

/-- What the locator of an entry finds: it lists few hashes, the last of the genesis block, and finds an ancestor of the
entry on the main chain, the highest one listed. -/
structure LocatorFinds (g : CBlockIndex) (node : Node W) (path : PIndex) : Prop where
  last : (locatorSet g.hash path).getLast? = some g.hash
  short : (locatorSet g.hash path).length ≤ 12 + Nat.log2 path.length
  ancestor : node.getBlockIndex (locatorSet g.hash path) <:+ path
  main : node.getBlockIndex (locatorSet g.hash path) <:+ node.best.pindexBest
  listed : (node.getBlockIndex (locatorSet g.hash path)).getBlockHash ∈ locatorSet g.hash path
  highest : ∀ q, Indexed node.mapBlockIndex q → q <:+ node.best.pindexBest →
    q.getBlockHash ∈ locatorSet g.hash path → q.nHeight ≤ (node.getBlockIndex (locatorSet g.hash path)).nHeight

/-- What the locator of an entry should do: the distance is that to the entry it finds, too. -/
structure LocatorMeets (g : CBlockIndex) (node : Node W) (path : PIndex) : Prop extends LocatorFinds g node path where
  distance : node.getDistanceBack (locatorSet g.hash path) =
    path.nHeight - (node.getBlockIndex (locatorSet g.hash path)).nHeight

/-- One of the blocks at the steps is on the main chain. -/
def StepsMeet (node : Node W) (path : PIndex) : Prop :=
  ∃ k, distAt k ≤ path.nHeight ∧ path.drop (distAt k) <:+ node.best.pindexBest

/-- The list of hashes. -/
theorem locatorSet_eq (hash : Uint256) (path : PIndex) :
    ∃ n, locatorSet hash path =
        (List.range' 0 n).map (fun j => PIndex.getBlockHash (path.drop (distAt j))) ++ [hash] ∧
      (∀ j < n, distAt j < path.length) ∧ path.length ≤ distAt n := by
  obtain ⟨n, heq, hin, hout⟩ := setLoop_eq path (k := 0) (Nat.sub_le path.length (distAt 0))
  rw [Nat.zero_add] at hin hout
  refine ⟨n, ?_, fun j hj => hin j (Nat.zero_le j) hj, hout⟩
  rw [locatorSet, ← heq]
  rfl

/-- An entry on the main chain that is listed is one at the steps, or the genesis block. -/
theorem listed_cases (h : node.Ok A J g) (hp : Indexed node.mapBlockIndex path) {n : ℕ}
    (hin : ∀ j < n, distAt j < path.length) {q : PIndex} (hq : Indexed node.mapBlockIndex q)
    (hmem : q.getBlockHash ∈ (List.range' 0 n).map (fun j => PIndex.getBlockHash (path.drop (distAt j))) ++ [g.hash]) :
    (∃ j < n, q = path.drop (distAt j)) ∨ q = [g] := by
  rcases List.mem_append.1 hmem with hmem | hmem
  · left
    obtain ⟨j, hj, hhash⟩ := List.mem_map.1 hmem
    have hjn : j < n := by
      have := (List.mem_range'_1.1 hj).2
      omega
    have hne : path.drop (distAt j) ≠ [] := by
      have := hin j hjn
      rw [Ne, List.drop_eq_nil_iff]
      omega
    exact ⟨j, hjn, hq.eq_of_hash (h.index.suffix hp (List.drop_suffix (distAt j) path) hne) hhash.symm⟩
  · right
    rw [List.mem_singleton] at hmem
    exact hq.eq_of_hash (h.index.suffix hp (h.genesis_suffix hp) (List.cons_ne_nil g [])) hmem

/-- What the list finds: a block at one of the steps, with its distance, or the genesis block with that of the step
beyond. -/
theorem locator_cases (h : node.Ok A J g) (hp : Indexed node.mapBlockIndex path) :
    ∃ n, (locatorSet g.hash path = (List.range' 0 n).map (fun j => PIndex.getBlockHash (path.drop (distAt j))) ++ [g.hash] ∧
      (∀ j < n, distAt j < path.length) ∧ path.length ≤ distAt n) ∧
      ((∃ j < n, path.drop (distAt j) <:+ node.best.pindexBest ∧
          (∀ i < j, ¬path.drop (distAt i) <:+ node.best.pindexBest) ∧
          node.getBlockIndex (locatorSet g.hash path) = path.drop (distAt j) ∧
          node.getDistanceBack (locatorSet g.hash path) = distAt j) ∨
        ((∀ j < n, ¬path.drop (distAt j) <:+ node.best.pindexBest) ∧
          node.getBlockIndex (locatorSet g.hash path) = [g] ∧
          node.getDistanceBack (locatorSet g.hash path) = distAt n)) := by
  obtain ⟨n, hset, hin, hout⟩ := locatorSet_eq g.hash path
  have hcases := locate_cases h hp (k := 0) (n := n) fun j _ hj => hin j (by omega)
  dsimp only at hcases
  rw [← hset, Nat.zero_add] at hcases
  refine ⟨n, ⟨hset, hin, hout⟩, ?_⟩
  rcases hcases with ⟨j, -, hj, hmain, hbefore, hindex, hdist⟩ | ⟨hnone, hindex, hdist⟩
  · exact .inl ⟨j, hj, hmain, fun i hi => hbefore i (Nat.zero_le i) hi, hindex, hdist⟩
  · exact .inr ⟨fun j hj => hnone j (Nat.zero_le j) hj, hindex, hdist⟩

/-- **A locator finds the highest ancestor on the main chain that it lists**, and is short. -/
theorem locator_finds (h : node.Ok A J g) (hp : Indexed node.mapBlockIndex path) : LocatorFinds g node path := by
  obtain ⟨n, ⟨hset, hin, -⟩, hcases⟩ := locator_cases h hp
  have hheight : ∀ q : PIndex, PIndex.nHeight q = q.length - 1 := fun q => rfl
  have hlast : (locatorSet g.hash path).getLast? = some g.hash := by rw [hset, List.getLast?_concat]
  have hshort : (locatorSet g.hash path).length ≤ 12 + Nat.log2 path.length := by
    rw [hset, List.length_append, List.length_map, List.length_range', List.length_singleton]
    have := turns_le hin
    omega
  rcases hcases with ⟨j, hj, hmain, hbefore, hindex, -⟩ | ⟨hnone, hindex, -⟩
  · have hlt := hin j hj
    refine ⟨hlast, hshort, ?_, ?_, ?_, fun q hq hqmain hmem => ?_⟩
    · rw [hindex]
      exact List.drop_suffix _ _
    · rw [hindex]
      exact hmain
    · rw [hindex, hset]
      exact List.mem_append_left _ (List.mem_map.2 ⟨j, List.mem_range'_1.2 ⟨Nat.zero_le j, by omega⟩, rfl⟩)
    · rw [hset] at hmem
      rw [hindex, hheight, hheight, List.length_drop]
      rcases listed_cases h hp hin hq hmem with ⟨i, -, rfl⟩ | rfl
      · have hij : j ≤ i := by
          by_contra hno
          exact hbefore i (by omega) hqmain
        have := distAt_strictMono.monotone hij
        rw [List.length_drop]
        omega
      · rw [List.length_singleton]
        omega
  · refine ⟨hlast, hshort, ?_, ?_, ?_, fun q hq hqmain hmem => ?_⟩
    · rw [hindex]
      exact h.genesis_suffix hp
    · rw [hindex]
      exact h.genesis_suffix h.indexed
    · rw [hindex, hset]
      exact List.mem_append_right _ (List.mem_singleton.2 rfl)
    · rw [hset] at hmem
      rw [hindex]
      rcases listed_cases h hp hin hq hmem with ⟨i, hi, rfl⟩ | rfl
      · exact absurd hqmain (hnone i hi)
      · exact Nat.le_refl _

/-- **A locator does what it should exactly if one of the blocks at the steps is on the main chain.** -/
theorem locator_meets (h : node.Ok A J g) (hp : Indexed node.mapBlockIndex path) :
    LocatorMeets g node path ↔ StepsMeet node path := by
  obtain ⟨n, ⟨-, hin, hout⟩, hcases⟩ := locator_cases h hp
  have hheight : ∀ q : PIndex, PIndex.nHeight q = q.length - 1 := fun q => rfl
  have hpos : 0 < path.length := List.length_pos_iff.2 hp.1
  rcases hcases with ⟨j, hj, hmain, -, hindex, hdist⟩ | ⟨hnone, hindex, hdist⟩
  · have hlt := hin j hj
    refine iff_of_true ⟨locator_finds h hp, ?_⟩ ⟨j, ?_, hmain⟩
    · rw [hdist, hindex, hheight, hheight, List.length_drop]
      omega
    · rw [hheight]
      omega
  · refine iff_of_false (fun hmeets => ?_) ?_
    · have hdistance := hmeets.distance
      rw [hdist, hindex, hheight, hheight, List.length_singleton] at hdistance
      omega
    · rintro ⟨k, hk, hkmain⟩
      rw [hheight] at hk
      have hkn : k < n := by
        by_contra hno
        have := distAt_strictMono.monotone (Nat.not_lt.1 hno)
        omega
      exact hnone k hkn hkmain

namespace LocatorSample

theorem openable_entry : (1 : UInt32) ≠ 0xffffffff := by decide

/-- The entry of a height, which has its height for a hash. -/
def entry (k : ℕ) : CBlockIndex where
  hash := BitVec.ofNat 256 k
  nFile := 1
  nBlockPos := 0
  block :=
    { hashPrevBlock := BitVec.ofNat 256 (k - 1)
      hashMerkleRoot := 0
      nTime := 0
      nBits := 0
      nNonce := 0
      vtx := [] }
  openable := openable_entry

/-- The genesis block is the best one, and a branch of some blocks grows from it. -/
def side : ℕ → Node Unit × PIndex
  | 0 => (Node.genesis (entry 0) (), [entry 0])
  | k + 1 => ((side k).1.insertEntry (entry (k + 1)) (side k).2, entry (k + 1) :: (side k).2)

theorem side_ok {k : ℕ} (hk : k < 2 ^ 256) :
    ((side k).1.Ok (fun _ _ => True) (fun _ _ => True) (entry 0) ∧ Indexed (side k).1.mapBlockIndex (side k).2) ∧
      (side k).2.getBlockHash = BitVec.ofNat 256 k ∧
      ∀ hash : Uint256, k < hash.toNat → (side k).1.mapBlockIndex hash = none := by
  induction k with
  | zero =>
    have hok := Node.genesis_ok (A := fun _ _ => True) (J := fun _ _ => True) (g := entry 0) trivial ()
    refine ⟨⟨hok, hok.indexed⟩, rfl, fun hash hhash => ?_⟩
    apply Function.update_of_ne
    rintro rfl
    exact absurd hhash (by decide)
  | succ k ih =>
    obtain ⟨⟨hok, hindexed⟩, hhash, hnone⟩ := ih (by omega)
    have htoNat : (entry (k + 1)).hash.toNat = k + 1 := by
      rw [entry, BitVec.toNat_ofNat, Nat.mod_eq_of_lt hk]
    have hnew : (side k).1.mapBlockIndex (entry (k + 1)).hash = none := hnone _ (by omega)
    refine ⟨hok.insertEntry hnew hindexed ?_ trivial, rfl, fun hash hlt => ?_⟩
    · rw [hhash]
      rfl
    · change Function.update (side k).1.mapBlockIndex _ _ hash = none
      rw [Function.update_of_ne]
      · exact hnone hash (by omega)
      · rintro rfl
        omega

/-- A branch of eleven blocks: the last of the single steps leads to the genesis block. -/
theorem eleven_meets : LocatorMeets (entry 0) (side 11).1 (side 11).2 := by
  obtain ⟨⟨hok, hindexed⟩, -⟩ := side_ok (k := 11) (by decide)
  exact (locator_meets hok hindexed).2 ⟨11, by decide, List.suffix_rfl⟩

/-- **The branch has twelve blocks, and the distance is thirteen**. -/
theorem twelve_distance :
    ((side 12).1.Ok (fun _ _ => True) (fun _ _ => True) (entry 0) ∧
      Indexed (side 12).1.mapBlockIndex (side 12).2) ∧
      (side 12).1.getDistanceBack (locatorSet (entry 0).hash (side 12).2) = 13 ∧
      ¬LocatorMeets (entry 0) (side 12).1 (side 12).2 := by
  have hdistance : (side 12).1.getDistanceBack (locatorSet (entry 0).hash (side 12).2) = 13 := by decide
  refine ⟨(side_ok (k := 12) (by decide)).1, hdistance, fun h => ?_⟩
  have hback := h.distance
  have hheight : (side 12).2.nHeight = 12 := by decide
  rw [hdistance, hheight] at hback
  omega

end LocatorSample

end PayDayCoin
