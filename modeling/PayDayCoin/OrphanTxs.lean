import PayDayCoin.Library.InverseIndex
import PayDayCoin.Library.Runs
import PayDayCoin.Block
import PayDayCoin.Serialize

/-!
# Orphan transactions

The transactions whose parents have not come yet: `mapOrphanTransactions` has them by their hash, and
`mapOrphanTransactionsByPrev` has, for the hash of each transaction that one of them spends, the hashes of those that
spend it. `AddOrphanTx`, `EraseOrphanTx` and `LimitOrphanTxSize` are the only functions that change the two maps.

The index is exact after any calls, keeps no empty set, and `LimitOrphanTxSize` brings the number of orphans down to
its bound whatever hashes it draws (**`orphans_indexed`**). The loop of `LimitOrphanTxSize` ends because what it erases
is an orphan that is there; it erases as many as there are too many (`nEvicted_limitOrphanTxSize`).
-/

namespace PayDayCoin

open Library.SortedMaps Library.InverseIndex Library.Runs

/-- The two maps. -/
structure OrphanTxs where
  mapOrphanTransactions : List (Uint256 × CTransaction) := []
  mapOrphanTransactionsByPrev : List (Uint256 × Finset Uint256) := []

namespace OrphanTxs

/-- `operator<` of `uint256`. -/
scoped instance : LinearOrder Uint256 where
  le_refl := BitVec.le_refl
  le_trans _ _ _ := BitVec.le_trans
  le_antisymm _ _ := BitVec.le_antisymm
  le_total := BitVec.le_total
  lt_iff_le_not_ge a b := by
    simp only [BitVec.lt_def, BitVec.le_def]
    omega
  toDecidableLE := inferInstance

/-- `AddOrphanTx`. -/
def addOrphanTx [Crypto] (s : OrphanTxs) (tx : CTransaction) : OrphanTxs × Bool :=
  let hash := tx.getHash
  if (get? s.mapOrphanTransactions hash).isSome then (s, false)
  else if 5000 < CTransaction.codec.size tx then (s, false)
  else
    ({ mapOrphanTransactions := set s.mapOrphanTransactions hash tx
       mapOrphanTransactionsByPrev := tx.vin.foldl (fun byPrev txin => file hash byPrev txin.prevout.hash)
         s.mapOrphanTransactionsByPrev }, true)

/-- `EraseOrphanTx`. -/
def eraseOrphanTx (s : OrphanTxs) (hash : Uint256) : OrphanTxs :=
  match get? s.mapOrphanTransactions hash with
  | none => s
  | some tx =>
    { mapOrphanTransactions := erase s.mapOrphanTransactions hash
      mapOrphanTransactionsByPrev := tx.vin.foldl (fun byPrev txin => unfile hash byPrev txin.prevout.hash)
        s.mapOrphanTransactionsByPrev }

/-- The orphan that a random hash evicts: the first whose hash is not below it, else the first of all. -/
def evicted (s : OrphanTxs) (randomhash : Uint256) : Option (Uint256 × CTransaction) :=
  (lowerBound s.mapOrphanTransactions randomhash).or s.mapOrphanTransactions.head?

theorem mem_of_evicted {s : OrphanTxs} {randomhash : Uint256} {it : Uint256 × CTransaction}
    (h : s.evicted randomhash = some it) : it ∈ s.mapOrphanTransactions := by
  rcases Option.or_eq_some_iff.1 h with h | ⟨-, h⟩
  · exact mem_of_lowerBound h
  · exact List.mem_of_head? h

theorem mapOrphanTransactions_eraseOrphanTx {s : OrphanTxs} {it : Uint256 × CTransaction}
    (h : it ∈ s.mapOrphanTransactions) :
    (s.eraseOrphanTx it.1).mapOrphanTransactions = erase s.mapOrphanTransactions it.1 := by
  obtain ⟨tx, htx⟩ := exists_get?_of_mem h
  rw [eraseOrphanTx, htx]

/-- The loop of `LimitOrphanTxSize`, from the hashes that `GetRandHash` is going to return and the count so far. -/
def limitLoop (nMaxOrphans : UInt32) (s : OrphanTxs) (randomhash : ℕ → Uint256) (nEvicted : UInt32) :
    OrphanTxs × UInt32 :=
  if nMaxOrphans.toNat < s.mapOrphanTransactions.length then
    match h : s.evicted (randomhash 0) with
    | none => (s, nEvicted)
    | some it => limitLoop nMaxOrphans (s.eraseOrphanTx it.1) (fun i => randomhash (i + 1)) (nEvicted + 1)
  else (s, nEvicted)
termination_by s.mapOrphanTransactions.length
decreasing_by
  rw [mapOrphanTransactions_eraseOrphanTx (mem_of_evicted h)]
  exact length_erase_lt (mem_of_evicted h)

/-- `LimitOrphanTxSize`: what is left, and `nEvicted`. -/
def limitOrphanTxSize (s : OrphanTxs) (nMaxOrphans : UInt32) (randomhash : ℕ → Uint256) : OrphanTxs × UInt32 :=
  limitLoop nMaxOrphans s randomhash 0

end OrphanTxs

/-- A call of one of the three functions. -/
inductive OrphanCall where
  | add (tx : CTransaction)
  | erase (hash : Uint256)
  | limit (nMaxOrphans : UInt32) (randomhash : ℕ → Uint256)

/-- What a call does to the maps. -/
def OrphanTxs.call [Crypto] (s : OrphanTxs) : OrphanCall → OrphanTxs
  | .add tx => (s.addOrphanTx tx).1
  | .erase hash => s.eraseOrphanTx hash
  | .limit nMaxOrphans randomhash => (s.limitOrphanTxSize nMaxOrphans randomhash).1

namespace OrphanTxs

/-- The hashes of the transactions that a transaction spends. -/
def parents (tx : CTransaction) : List Uint256 := tx.vin.map fun txin => txin.prevout.hash

theorem mem_parents {tx : CTransaction} {p : Uint256} : p ∈ parents tx ↔ ∃ txin ∈ tx.vin, txin.prevout.hash = p :=
  List.mem_map

/-! ### The invariant -/

/-- The orphans are in order, each under its hash; the index is theirs and has no empty set. -/
structure Indexed [Crypto] (s : OrphanTxs) : Prop where
  sorted : Sorted s.mapOrphanTransactions
  hash : ∀ t tx, get? s.mapOrphanTransactions t = some tx → tx.getHash = t
  exact_ : ∀ p t, t ∈ keysOf s.mapOrphanTransactionsByPrev p ↔
    ∃ tx, get? s.mapOrphanTransactions t = some tx ∧ p ∈ parents tx
  noneEmpty : NoneEmpty s.mapOrphanTransactionsByPrev

variable [Crypto] {s : OrphanTxs}

theorem Indexed.empty : Indexed ({} : OrphanTxs) where
  sorted := List.Pairwise.nil
  hash := by simp [get?]
  exact_ := by simp [get?, keysOf]
  noneEmpty := by simp [NoneEmpty, get?]

theorem Indexed.addOrphanTx (h : Indexed s) (tx : CTransaction) : Indexed (s.addOrphanTx tx).1 := by
  rw [OrphanTxs.addOrphanTx]
  split
  · exact h
  · next hnew =>
    split
    · exact h
    · have hnone : get? s.mapOrphanTransactions tx.getHash = none := by simpa using hnew
      refine ⟨h.sorted.set _ _, fun t tx' ht => ?_, fun p t => ?_, ?_⟩
      · rw [get?_set] at ht
        split at ht
        · next heq => rw [← Option.some.inj ht, heq]
        · exact h.hash t tx' ht
      · rw [← List.foldl_map, mem_keysOf_foldl_file, h.exact_, get?_set]
        split
        · next heq =>
          subst heq
          simp [hnone, parents]
        · next hne => simp [Ne.symm hne]
      · rw [← List.foldl_map]
        exact h.noneEmpty.foldl_file _

theorem Indexed.eraseOrphanTx (h : Indexed s) (hash : Uint256) : Indexed (s.eraseOrphanTx hash) := by
  rw [OrphanTxs.eraseOrphanTx]
  split
  · exact h
  · next tx htx =>
    refine ⟨h.sorted.erase _, fun t tx' ht => ?_, fun p t => ?_, ?_⟩
    · rw [get?_erase] at ht
      split at ht
      · cases ht
      · exact h.hash t tx' ht
    · rw [← List.foldl_map, mem_keysOf_foldl_unfile, h.exact_, get?_erase]
      split
      · next heq =>
        subst heq
        simp [htx, parents]
      · next hne => simp [Ne.symm hne]
    · rw [← List.foldl_map]
      exact h.noneEmpty.foldl_unfile _

/-! ### LimitOrphanTxSize -/

omit [Crypto] in
theorem exists_evicted (s : OrphanTxs) {nMaxOrphans : UInt32} (randomhash : Uint256)
    (h : nMaxOrphans.toNat < s.mapOrphanTransactions.length) : ∃ it, s.evicted randomhash = some it := by
  obtain ⟨it, l, hl⟩ := List.exists_cons_of_length_pos (Nat.zero_lt_of_lt h)
  rw [evicted, hl]
  cases lowerBound (it :: l) randomhash <;> simp

omit [Crypto] in
theorem length_limitLoop (nMaxOrphans : UInt32) (s : OrphanTxs) (randomhash : ℕ → Uint256) (nEvicted : UInt32) :
    (limitLoop nMaxOrphans s randomhash nEvicted).1.mapOrphanTransactions.length ≤ nMaxOrphans.toNat := by
  fun_induction limitLoop with
  | case1 s randomhash nEvicted hmany hnone =>
    obtain ⟨it, hit⟩ := exists_evicted s (randomhash 0) hmany
    cases hnone.symm.trans hit
  | case2 s randomhash nEvicted hmany it hit ih => exact ih
  | case3 s randomhash nEvicted hfew => exact not_lt.1 hfew

theorem Indexed.limitLoop (nMaxOrphans : UInt32) (randomhash : ℕ → Uint256) (nEvicted : UInt32) (h : Indexed s) :
    Indexed (limitLoop nMaxOrphans s randomhash nEvicted).1 := by
  fun_induction OrphanTxs.limitLoop with
  | case1 s randomhash nEvicted hmany hnone => exact h
  | case2 s randomhash nEvicted hmany it hit ih => exact ih (h.eraseOrphanTx it.1)
  | case3 s randomhash nEvicted hfew => exact h

/-- As many orphans go as there are too many. -/
theorem nEvicted_limitOrphanTxSize (h : Indexed s) (nMaxOrphans : UInt32) (randomhash : ℕ → Uint256) :
    (s.limitOrphanTxSize nMaxOrphans randomhash).2 =
      UInt32.ofNat (s.mapOrphanTransactions.length - nMaxOrphans.toNat) := by
  suffices hloop : ∀ nEvicted, (limitLoop nMaxOrphans s randomhash nEvicted).2 =
      nEvicted + UInt32.ofNat (s.mapOrphanTransactions.length - nMaxOrphans.toNat) by
    rw [limitOrphanTxSize, hloop, UInt32.zero_add]
  intro nEvicted
  fun_induction limitLoop with
  | case1 s randomhash nEvicted hmany hnone =>
    obtain ⟨it, hit⟩ := exists_evicted s (randomhash 0) hmany
    cases hnone.symm.trans hit
  | case2 s randomhash nEvicted hmany it hit ih =>
    have hlen := length_erase_of_sorted h.sorted (mem_of_evicted hit)
    rw [← mapOrphanTransactions_eraseOrphanTx (mem_of_evicted hit)] at hlen
    have hcount : s.mapOrphanTransactions.length - nMaxOrphans.toNat =
        1 + ((s.eraseOrphanTx it.1).mapOrphanTransactions.length - nMaxOrphans.toNat) := by omega
    rw [ih (h.eraseOrphanTx it.1), hcount, UInt32.ofNat_add, ← UInt32.add_assoc]
    rfl
  | case3 s randomhash nEvicted hfew =>
    rw [Nat.sub_eq_zero_of_le (not_lt.1 hfew)]
    exact (UInt32.add_zero _).symm

/-! ### Runs -/

theorem Indexed.call (h : Indexed s) (c : OrphanCall) : Indexed (s.call c) := by
  cases c with
  | add tx => exact h.addOrphanTx tx
  | erase hash => exact h.eraseOrphanTx hash
  | limit nMaxOrphans randomhash => exact h.limitLoop nMaxOrphans randomhash 0

theorem indexed_run (calls : List OrphanCall) : Indexed (run OrphanTxs.call {} calls) :=
  run_induct (fun c _ _ h => h.call c) Indexed.empty

/-- After any calls a hash is looked up with `t` in its set exactly when `t` is an orphan with an input that spends the
hash, no set is empty, and a call of `LimitOrphanTxSize` leaves no more orphans than it is told. -/
theorem orphans_indexed (calls : List OrphanCall) :
    (∀ p t,
      (∃ hashes, get? (run OrphanTxs.call {} calls).mapOrphanTransactionsByPrev p = some hashes ∧ t ∈ hashes) ↔
        ∃ tx, get? (run OrphanTxs.call {} calls).mapOrphanTransactions t = some tx ∧ tx.getHash = t ∧
          ∃ txin ∈ tx.vin, txin.prevout.hash = p) ∧
    (∀ p hashes, get? (run OrphanTxs.call {} calls).mapOrphanTransactionsByPrev p = some hashes → hashes ≠ ∅) ∧
    ∀ (nMaxOrphans : UInt32) (randomhash : ℕ → Uint256),
      ((run OrphanTxs.call {} calls).limitOrphanTxSize nMaxOrphans randomhash).1.mapOrphanTransactions.length ≤
        nMaxOrphans.toNat := by
  have h := indexed_run calls
  refine ⟨fun p t => ?_, fun p hashes hp => (h.noneEmpty p hashes hp).ne_empty, fun nMaxOrphans randomhash =>
    length_limitLoop nMaxOrphans _ randomhash 0⟩
  rw [exists_get?_iff_mem_keysOf, h.exact_]
  refine exists_congr fun tx => and_congr_right fun htx => ?_
  rw [mem_parents, and_iff_right (h.hash t tx htx)]

end OrphanTxs

end PayDayCoin
