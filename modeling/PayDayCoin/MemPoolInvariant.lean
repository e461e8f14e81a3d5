import PayDayCoin.ChainSync
import PayDayCoin.Library.Descendants

/-!
# The maps of the memory pool

`mapTx` has the transactions of the pool, and `mapNextTx` leads from each outpoint that
one of them claims to the input that claims it. `CTxMemPool.Matched` says that `mapNextTx` and
the map from the inputs of the pool to their outpoints are inverse to each other. Each
operation keeps this, in the order in which the callers guard it, and has an exact effect on
the set of transactions: `remove`, recursively, takes out a transaction of the pool with
all its descendants there (**`Matched.remove_true`**), although it looks up the spenders in a pool that
its own calls have changed; `removeConflicts` takes out the other claimants of the outpoints
of a transaction, with their descendants (**`Matched.removeConflicts`**).

**`run_matched`**: so it is in every state of a run. A pool knows its transactions by their
hashes, so two of one hash, or a transaction that is its own descendant, would break it:
`HashSound` says that there are none among the transactions of the run.
-/

namespace PayDayCoin

open Library.Checks Library.Overlay Library.Descendants Library.Runs

/-- An input of the transaction claims the outpoint. -/
def CTransaction.Claims (tx : CTransaction) (o : COutPoint) : Prop := ∃ txin ∈ tx.vin, txin.prevout = o

instance (tx : CTransaction) (o : COutPoint) : Decidable (tx.Claims o) :=
  inferInstanceAs (Decidable (∃ txin ∈ tx.vin, txin.prevout = o))

section Hash

variable [Crypto]

/-- The second transaction spends an output of the first. -/
def Spends (tx tx' : CTransaction) : Prop := ∃ n < tx.vout.length, tx'.Claims ⟨tx.getHash, UInt32.ofNat n⟩

instance (tx tx' : CTransaction) : Decidable (Spends tx tx') :=
  inferInstanceAs (Decidable (∃ n < tx.vout.length, tx'.Claims ⟨tx.getHash, UInt32.ofNat n⟩))

/-- The hash tells some transactions apart, and none of them is its own descendant. -/
structure HashSound (txs : Set CTransaction) : Prop where
  injOn : Set.InjOn CTransaction.getHash txs
  acyclic : Acyclic Spends txs

end Hash

namespace CTxMemPool

/-- The outpoint that an input of a transaction in the pool claims. -/
def prevoutAt [Crypto] (pool : CTxMemPool) (i : CInPoint) : Option COutPoint :=
  (pool.lookup i.hash).bind fun tx => tx.vin[i.n]?.map CTxIn.prevout

variable [Crypto]

/-- The transactions of the pool. -/
def txs (pool : CTxMemPool) : Set CTransaction := {tx | pool.lookup tx.getHash = some tx}

/-- The maps of the pool match. -/
structure Matched (pool : CTxMemPool) : Prop where
  /-- A transaction is stored by its hash. -/
  hash : ∀ {h tx}, pool.lookup h = some tx → tx.getHash = h
  /-- `mapNextTx` is inverse to the map from the inputs to their outpoints. -/
  inverse : ∀ {o i}, pool.mapNextTx o = some i ↔ pool.prevoutAt i = some o

/-- The maps of the pool match, and it has the transactions of a set. -/
structure Holds (pool : CTxMemPool) (s : Set CTransaction) : Prop where
  matched : pool.Matched
  txs : pool.txs = s

variable {pool : CTxMemPool} {tx tx' : CTransaction} {o : COutPoint} {i : CInPoint} {h k : Uint256}

theorem mem_txs_iff : tx ∈ pool.txs ↔ pool.lookup tx.getHash = some tx := Iff.rfl

theorem prevoutAt_eq_some : pool.prevoutAt i = some o ↔
    ∃ tx txin, pool.lookup i.hash = some tx ∧ tx.vin[i.n]? = some txin ∧ txin.prevout = o := by
  simp only [prevoutAt, Option.bind_eq_some_iff, Option.map_eq_some_iff]
  exact ⟨fun ⟨tx, htx, txin, hin, ho⟩ => ⟨tx, txin, htx, hin, ho⟩, fun ⟨tx, txin, htx, hin, ho⟩ => ⟨tx, htx, txin, hin, ho⟩⟩

namespace Matched

theorem mem_txs (hm : pool.Matched) (htx : pool.lookup h = some tx) : tx ∈ pool.txs := by
  rw [mem_txs_iff, hm.hash htx, htx]

/-- What an input claims is recorded under its outpoint. -/
theorem exists_claim (hm : pool.Matched) (htx : tx ∈ pool.txs) (ho : tx.Claims o) :
    ∃ n, pool.mapNextTx o = some ⟨tx.getHash, n⟩ := by
  obtain ⟨txin, hin, ho⟩ := ho
  obtain ⟨n, hn⟩ := List.getElem?_of_mem hin
  exact ⟨n, hm.inverse.2 (prevoutAt_eq_some.2 ⟨tx, txin, htx, hn, ho⟩)⟩

/-- No two transactions of the pool claim one outpoint. -/
theorem claims_inj (hm : pool.Matched) (htx : tx ∈ pool.txs) (htx' : tx' ∈ pool.txs) (ho : tx.Claims o)
    (ho' : tx'.Claims o) : tx = tx' := by
  obtain ⟨n, hn⟩ := hm.exists_claim htx ho
  obtain ⟨n', hn'⟩ := hm.exists_claim htx' ho'
  rw [hn, Option.some.injEq, CInPoint.mk.injEq] at hn'
  rw [mem_txs_iff, hn'.1, htx', Option.some.injEq] at htx
  exact htx.symm

/-- What a look at `mapNextTx` shows: that nothing in the pool claims the outpoint, or what
does. -/
theorem claim_cases (hm : pool.Matched) (o : COutPoint) :
    (pool.mapNextTx o = none ∧ ∀ tx ∈ pool.txs, ¬tx.Claims o) ∨
      ∃ i tx, pool.mapNextTx o = some i ∧ pool.lookup i.hash = some tx ∧ tx ∈ pool.txs ∧ tx.Claims o := by
  cases ho : pool.mapNextTx o with
  | none =>
    refine .inl ⟨rfl, fun tx htx hc => ?_⟩
    obtain ⟨n, hn⟩ := hm.exists_claim htx hc
    rw [ho] at hn
    cases hn
  | some i =>
    obtain ⟨tx, txin, htx, hin, hc⟩ := prevoutAt_eq_some.1 (hm.inverse.1 ho)
    exact .inr ⟨i, tx, rfl, htx, hm.mem_txs htx, txin, List.mem_of_getElem? hin, hc⟩

end Matched

theorem matched_empty : ({} : CTxMemPool).Matched where
  hash h := by simp [lookup] at h
  inverse := by simp [prevoutAt, lookup, nothing]

theorem Matched.clear : pool.clear.Holds ∅ := by
  refine ⟨⟨fun h => matched_empty.hash h, matched_empty.inverse⟩, ?_⟩
  ext tx
  simp [mem_txs_iff, CTxMemPool.clear, lookup]

/-! ### Adding -/

omit [Crypto] in
theorem lookup_addUnchecked : (pool.addUnchecked h tx).lookup k = if k = h then some tx else pool.lookup k := by
  unfold lookup addUnchecked
  split
  · next heq => rw [heq, AList.lookup_insert]
  · next hne => rw [AList.lookup_insert_ne hne]

/-- **Adding a transaction** that is not there, none of whose inputs is claimed. -/
theorem Matched.addUnchecked (hm : pool.Matched) (hnew : pool.lookup tx.getHash = none)
    (hnd : (tx.vin.map CTxIn.prevout).Nodup) (hfree : ∀ txin ∈ tx.vin, pool.mapNextTx txin.prevout = none) :
    (pool.addUnchecked tx.getHash tx).Holds (insert tx pool.txs) := by
  have hnext : ∀ o i, (pool.addUnchecked tx.getHash tx).mapNextTx o = some i ↔
      (∃ n txin, tx.vin[n]? = some txin ∧ txin.prevout = o ∧ ⟨tx.getHash, n⟩ = i) ∨
        (pool.mapNextTx o = some i ∧ ∀ txin ∈ tx.vin, txin.prevout ≠ o) := fun o i => by
    have hins := foldl_insert (m := pool.mapNextTx) (k := o) (v := i) (w := CInPoint.mk tx.getHash) hnd (n := 0)
    simp only [Nat.zero_add] at hins
    exact hins
  refine ⟨⟨fun {h t} ht => ?_, fun {o i} => ?_⟩, ?_⟩
  · rw [lookup_addUnchecked] at ht
    split at ht
    · next heq => rw [← Option.some.inj ht, heq]
    · exact hm.hash ht
  · rw [hnext, prevoutAt_eq_some]
    constructor
    · rintro (⟨n, txin, hin, hprev, rfl⟩ | ⟨hold, -⟩)
      · exact ⟨tx, txin, by rw [lookup_addUnchecked, if_pos rfl], hin, hprev⟩
      · obtain ⟨t, txin, ht, hin⟩ := prevoutAt_eq_some.1 (hm.inverse.1 hold)
        have hne : i.hash ≠ tx.getHash := fun heq => by rw [heq, hnew] at ht; cases ht
        exact ⟨t, txin, by rw [lookup_addUnchecked, if_neg hne, ht], hin⟩
    · rintro ⟨t, txin, ht, hin, hprev⟩
      rw [lookup_addUnchecked] at ht
      split at ht
      · next heq =>
        rw [← Option.some.inj ht] at hin
        exact .inl ⟨i.n, txin, hin, hprev, by rw [← heq]⟩
      · have hold := hm.inverse.2 (prevoutAt_eq_some.2 ⟨t, txin, ht, hin, hprev⟩)
        refine .inr ⟨hold, fun txin' hin' heq => ?_⟩
        rw [← heq, hfree txin' hin'] at hold
        cases hold
  · ext t
    rw [mem_txs_iff, lookup_addUnchecked, Set.mem_insert_iff, mem_txs_iff]
    split
    · next heq =>
      rw [heq, hnew, Option.some.injEq]
      exact ⟨fun ht => .inl ht.symm, fun ht => (ht.resolve_right (by simp)).symm⟩
    · next hne =>
      refine (or_iff_right ?_).symm
      rintro rfl
      exact hne rfl

/-- What `AcceptToMemoryPool` has checked when it adds a transaction. -/
theorem acceptToMemoryPool_eq_ok {params : CChainParams} {env : MemPoolEnv} {g : BestChain} {T : TxMap}
    {pool' : CTxMemPool} {fLimitFree fRejectInsaneFee ignoreFees : Bool}
    (hok : tx.acceptToMemoryPool params env g T pool fLimitFree fRejectInsaneFee ignoreFees = .ok pool') :
    (tx.vin.map CTxIn.prevout).Nodup ∧ pool.lookup tx.getHash = none ∧
      (∀ txin ∈ tx.vin, pool.mapNextTx txin.prevout = none) ∧ pool' = pool.addUnchecked tx.getHash tx := by
  simp only [CTransaction.acceptToMemoryPool, bind_eq_ok, rejectIf_eq_ok, mapError_eq_ok, pure_eq_ok] at hok
  obtain ⟨u, hcheck, -, -, -, -, -, -, -, hnew, -, -, -, hfree, hrest⟩ := hok
  refine ⟨(CTransaction.checked_of_checkTransaction hcheck).nodup, ?_, fun txin hin => ?_, ?_⟩
  · simpa using hnew
  · rw [List.any_eq_false] at hfree
    simpa using hfree txin hin
  · obtain ⟨-, -, -, -, -, -, -, -, -, -, -, -, -, -, -, -, -, -, -, -, -, -, heq⟩ := hrest
    exact heq.symm

/-! ### Removing -/

/-- The pool without one transaction, as `remove` leaves it in the end. -/
def erase (pool : CTxMemPool) (tx : CTransaction) : CTxMemPool where
  mapTx := pool.mapTx.erase tx.getHash
  mapNextTx := tx.vin.foldl (fun m txin => Function.update m txin.prevout none) pool.mapNextTx
  nTransactionsUpdated := pool.nTransactionsUpdated + 1

/-- `remove` of the transaction that spends an output, if one in the pool does. -/
def removeSpender (fuel : ℕ) (hash : Uint256) (pool : CTxMemPool) (n : ℕ) : CTxMemPool :=
  match pool.mapNextTx ⟨hash, UInt32.ofNat n⟩ with
  | none => pool
  | some it =>
    match pool.lookup it.hash with
    | none => pool
    | some child => removeLoop fuel child true pool

theorem removeLoop_of_none {fuel : ℕ} {fRecursive : Bool} (hnone : pool.lookup tx.getHash = none) :
    removeLoop fuel tx fRecursive pool = pool := by
  cases fuel with
  | zero => rfl
  | succ fuel => simp [removeLoop, hnone]

theorem removeLoop_true {fuel : ℕ} (htx : tx ∈ pool.txs) : removeLoop (fuel + 1) tx true pool =
    ((List.range tx.vout.length).foldl (removeSpender fuel tx.getHash) pool).erase tx := by
  rw [mem_txs_iff] at htx
  rw [removeLoop]
  simp only [htx, Option.isSome_some, if_true]
  rfl

theorem removeLoop_false {fuel : ℕ} (htx : tx ∈ pool.txs) :
    removeLoop (fuel + 1) tx false pool = pool.erase tx := by
  rw [mem_txs_iff] at htx
  rw [removeLoop]
  simp only [htx, Option.isSome_some, if_true]
  rfl

theorem lookup_erase : (pool.erase tx).lookup k = if k = tx.getHash then none else pool.lookup k := by
  unfold lookup erase
  split
  · next heq => rw [heq, AList.lookup_erase]
  · next hne => rw [AList.lookup_erase_ne hne]

/-- Erasing a transaction of the pool. -/
theorem Matched.erase (hm : pool.Matched) (htx : tx ∈ pool.txs) : (pool.erase tx).Holds (pool.txs \ {tx}) := by
  have hne : ∀ {t}, t ∈ pool.txs → (t.getHash = tx.getHash ↔ t = tx) := fun {t} ht => by
    refine ⟨fun heq => ?_, fun heq => by rw [heq]⟩
    rw [mem_txs_iff, heq, htx, Option.some.injEq] at ht
    exact ht.symm
  refine ⟨⟨fun {h t} ht => ?_, fun {o i} => ?_⟩, ?_⟩
  · rw [lookup_erase, Option.ite_none_left_eq_some] at ht
    exact hm.hash ht.2
  · refine foldl_erase.trans ?_
    rw [hm.inverse, prevoutAt_eq_some, prevoutAt_eq_some]
    constructor
    · rintro ⟨⟨t, txin, ht, hin, ho⟩, hfree⟩
      refine ⟨t, txin, ?_, hin, ho⟩
      rw [lookup_erase, if_neg, ht]
      intro heq
      rw [heq, htx, Option.some.injEq] at ht
      exact hfree txin (ht ▸ List.mem_of_getElem? hin) ho
    · rintro ⟨t, txin, ht, hin, ho⟩
      rw [lookup_erase, Option.ite_none_left_eq_some] at ht
      refine ⟨⟨t, txin, ht.2, hin, ho⟩, fun txin' hin' heq => ht.1 ?_⟩
      rw [← hm.hash ht.2, hm.claims_inj (hm.mem_txs ht.2) htx ⟨txin, List.mem_of_getElem? hin, ho⟩ ⟨txin', hin', heq⟩]
  · ext t
    rw [mem_txs_iff, lookup_erase, Option.ite_none_left_eq_some, Set.mem_sdiff, Set.mem_singleton_iff, mem_txs_iff]
    exact and_comm.trans (and_congr_right fun ht => not_congr (hne ht))

theorem ncard_txs_le : pool.txs.Finite ∧ pool.txs.ncard ≤ pool.mapTx.entries.length := by
  have hsub : pool.txs ⊆ ((pool.mapTx.entries.map Sigma.snd).toFinset : Set CTransaction) := fun t ht => by
    rw [Finset.mem_coe, List.mem_toFinset, List.mem_map]
    exact ⟨⟨t.getHash, t⟩, AList.mem_lookup_iff.1 ht, rfl⟩
  have hfin : ((pool.mapTx.entries.map Sigma.snd).toFinset : Set CTransaction).Finite := Finset.finite_toSet _
  refine ⟨hfin.subset hsub, (Set.ncard_le_ncard hsub hfin).trans ?_⟩
  have hlen : (pool.mapTx.entries.map Sigma.snd).length = pool.mapTx.entries.length := List.length_map _
  rw [Set.ncard_coe_finset, ← hlen]
  exact List.toFinset_card_le _

/-- To remove what claims an outpoint is to prune it. -/
theorem Matched.prune_claimant (hm : pool.Matched) {K : Set CTransaction} (htx : tx ∈ pool.txs) (ho : tx.Claims o)
    (hK : ∀ t ∈ pool.txs, t ∈ K ↔ t.Claims o) : prune Spends pool.txs K = prune Spends pool.txs {tx} :=
  prune_congr fun t ht => by
    rw [hK t ht, Set.mem_singleton_iff]
    exact ⟨fun hc => hm.claims_inj ht htx hc ho, fun heq => heq ▸ ho⟩

/-- The transactions that spend one of the first `n` outputs. -/
def spenders (hash : Uint256) (n : ℕ) : Set CTransaction := {t | ∃ m < n, t.Claims ⟨hash, UInt32.ofNat m⟩}

omit [Crypto] in
theorem spenders_succ (hash : Uint256) (n : ℕ) :
    spenders hash (n + 1) = spenders hash n ∪ {t | t.Claims ⟨hash, UInt32.ofNat n⟩} := by
  ext t
  constructor
  · rintro ⟨m, hm, hc⟩
    rcases Nat.lt_succ_iff_lt_or_eq.1 hm with hm | rfl
    · exact .inl ⟨m, hm, hc⟩
    · exact .inr hc
  · rintro (⟨m, hm, hc⟩ | hc)
    · exact ⟨m, Nat.lt_succ_of_lt hm, hc⟩
    · exact ⟨n, Nat.lt_succ_self n, hc⟩

/-- **`remove`, recursively**, of a transaction of the pool: it goes with all its
descendants there. Each call has fewer of them below it, so the fuel lasts. -/
theorem Matched.removeLoop {fuel : ℕ} : ∀ {pool : CTxMemPool} {tx : CTransaction}, pool.Matched →
    Acyclic Spends pool.txs → tx ∈ pool.txs → {t | Desc Spends pool.txs tx t}.ncard ≤ fuel →
      (removeLoop fuel tx true pool).Holds (prune Spends pool.txs {tx}) := by
  induction fuel with
  | zero =>
    intro pool tx _ _ htx hfuel
    have hfin : {t | Desc Spends pool.txs tx t}.Finite := ncard_txs_le.1.subset fun t ht => Desc.mem ht htx
    rw [Nat.le_zero, Set.ncard_eq_zero hfin] at hfuel
    exact absurd (show tx ∈ {t | Desc Spends pool.txs tx t} from .refl) (by rw [hfuel]; exact Set.notMem_empty tx)
  | succ fuel ih =>
    intro pool tx hm hac htx hfuel
    have hfin : {t | Desc Spends pool.txs tx t}.Finite := ncard_txs_le.1.subset fun t ht => Desc.mem ht htx
    -- the pool after the first outputs
    have hloop : ∀ n ≤ tx.vout.length, ((List.range n).foldl (removeSpender fuel tx.getHash) pool).Holds
        (prune Spends pool.txs (spenders tx.getHash n)) := by
      intro n hn
      induction n with
      | zero =>
        refine ⟨hm, (prune_of_forall ?_).symm⟩
        rintro t ⟨m, hlt, -⟩
        exact absurd hlt (Nat.not_lt_zero m)
      | succ n ihn =>
        have hprev := ihn (Nat.le_of_succ_le hn)
        rw [List.range_succ, List.foldl_append, spenders_succ, ← prune_prune, ← hprev.txs]
        generalize (List.range n).foldl (removeSpender fuel tx.getHash) pool = pool' at hprev
        have hsub : pool'.txs ⊆ pool.txs := hprev.txs ▸ prune_subset
        rw [List.foldl_cons, List.foldl_nil, removeSpender]
        rcases hprev.matched.claim_cases ⟨tx.getHash, UInt32.ofNat n⟩ with ⟨hnone, hfree⟩ | ⟨i, c, hi, hc, hcs, ho⟩
        · rw [hnone]
          exact ⟨hprev.matched, (prune_of_forall fun t ht hts => hfree t hts ht).symm⟩
        · rw [hi]
          simp only [hc]
          rw [hprev.matched.prune_claimant hcs ho (K := {t | t.Claims _}) fun t _ => Iff.rfl]
          have hlt := Set.ncard_lt_ncard (hac.desc_ssubset htx ⟨n, hn, ho⟩ (hsub hcs) hsub) hfin
          exact ih hprev.matched (hac.mono hsub) hcs (by omega)
    obtain ⟨hmatched, htxs⟩ := hloop _ le_rfl
    have hstay := hac.mem_prune htx (K := spenders tx.getHash tx.vout.length) fun c hc => hc
    rw [removeLoop_true htx, prune_singleton htx]
    exact htxs ▸ hmatched.erase (htxs ▸ hstay)

theorem Matched.remove_true (hm : pool.Matched) (hac : Acyclic Spends pool.txs) (htx : tx ∈ pool.txs) :
    (pool.remove tx true).Holds (prune Spends pool.txs {tx}) := by
  refine hm.removeLoop hac htx ?_
  have hle := Set.ncard_le_ncard (fun t ht => Desc.mem ht htx : {t | Desc Spends pool.txs tx t} ⊆ _) ncard_txs_le.1
  exact hle.trans (ncard_txs_le.2.trans (Nat.le_succ _))

/-- **`remove`, not recursively**, where no other transaction of the pool has the hash. -/
theorem Matched.remove_false (hm : pool.Matched) (hinj : Set.InjOn CTransaction.getHash (insert tx pool.txs)) :
    (pool.remove tx false).Holds (pool.txs \ {tx}) := by
  cases htx : pool.lookup tx.getHash with
  | none =>
    rw [remove, removeLoop_of_none htx]
    refine ⟨hm, (Set.sdiff_singleton_eq_self fun hmem => ?_).symm⟩
    rw [mem_txs_iff, htx] at hmem
    cases hmem
  | some t =>
    have ht := hm.mem_txs htx
    obtain rfl := hinj (Set.mem_insert_of_mem _ ht) (Set.mem_insert _ _) (hm.hash htx)
    rw [remove, removeLoop_false ht]
    exact hm.erase ht

/-- One turn of the loop of `removeConflicts`. -/
def removeConflict (tx : CTransaction) (pool : CTxMemPool) (txin : CTxIn) : CTxMemPool :=
  match pool.mapNextTx txin.prevout with
  | none => pool
  | some it =>
    match pool.lookup it.hash with
    | none => pool
    | some txConflict => if txConflict ≠ tx then pool.remove txConflict true else pool

theorem removeConflicts_eq : pool.removeConflicts tx = tx.vin.foldl (removeConflict tx) pool := rfl

theorem Matched.removeConflict (hm : pool.Matched) (hac : Acyclic Spends pool.txs) (txin : CTxIn) :
    (removeConflict tx pool txin).Holds (prune Spends pool.txs {t | t ≠ tx ∧ t.Claims txin.prevout}) := by
  unfold CTxMemPool.removeConflict
  rcases hm.claim_cases txin.prevout with ⟨hnone, hfree⟩ | ⟨i, c, hi, hc, hcs, ho⟩
  · rw [hnone]
    exact ⟨hm, (prune_of_forall fun t ht hts => hfree t hts ht.2).symm⟩
  · rw [hi]
    simp only [hc]
    by_cases hne : c = tx
    · rw [if_neg (not_not_intro hne)]
      refine ⟨hm, (prune_of_forall fun t ht hts => ht.1 ?_).symm⟩
      rw [← hne, hm.claims_inj hts hcs ht.2 ho]
    · rw [if_pos hne, hm.prune_claimant hcs ho (K := {t | t ≠ tx ∧ t.Claims txin.prevout}) fun t ht =>
        and_iff_right_of_imp fun hto => hm.claims_inj ht hcs hto ho ▸ hne]
      exact hm.remove_true hac hcs

/-- The other transactions that claim the outpoint of one of some inputs. -/
def rivals (tx : CTransaction) (vin : List CTxIn) : Set CTransaction :=
  {t | t ≠ tx ∧ ∃ txin ∈ vin, t.Claims txin.prevout}

omit [Crypto] in
theorem rivals_cons (tx : CTransaction) (txin : CTxIn) (vin : List CTxIn) :
    rivals tx (txin :: vin) = {t | t ≠ tx ∧ t.Claims txin.prevout} ∪ rivals tx vin := by
  ext t
  constructor
  · rintro ⟨hne, txin', hin, hc⟩
    rcases List.mem_cons.1 hin with rfl | hin
    · exact .inl ⟨hne, hc⟩
    · exact .inr ⟨hne, txin', hin, hc⟩
  · rintro (⟨hne, hc⟩ | ⟨hne, txin', hin, hc⟩)
    · exact ⟨hne, txin, List.mem_cons_self, hc⟩
    · exact ⟨hne, txin', List.mem_cons_of_mem _ hin, hc⟩

theorem Matched.foldl_removeConflict {vin : List CTxIn} : ∀ {pool : CTxMemPool}, pool.Matched →
    Acyclic Spends pool.txs →
      (vin.foldl (CTxMemPool.removeConflict tx) pool).Holds (prune Spends pool.txs (rivals tx vin)) := by
  induction vin with
  | nil =>
    intro pool hm _
    refine ⟨hm, (prune_of_forall ?_).symm⟩
    rintro t ⟨-, txin, hin, -⟩
    exact absurd hin List.not_mem_nil
  | cons txin vin ih =>
    intro pool hm hac
    obtain ⟨hm₁, htxs⟩ : (CTxMemPool.removeConflict tx pool txin).Holds
        (prune Spends pool.txs {t | t ≠ tx ∧ t.Claims txin.prevout}) := hm.removeConflict hac txin
    have hrest := ih hm₁ (htxs ▸ hac.mono prune_subset)
    rw [htxs, prune_prune, ← rivals_cons] at hrest
    exact hrest

/-- **`removeConflicts`**: the other transactions of the pool that claim an outpoint of the
transaction go, with all their descendants there. -/
theorem Matched.removeConflicts (hm : pool.Matched) (hac : Acyclic Spends pool.txs) :
    (pool.removeConflicts tx).Holds (prune Spends pool.txs (rivals tx tx.vin)) := by
  rw [removeConflicts_eq]
  exact hm.foldl_removeConflict hac

theorem Matched.remove (hm : pool.Matched) {fRecursive : Bool} (hac : Acyclic Spends pool.txs)
    (hinj : Set.InjOn CTransaction.getHash (insert tx pool.txs)) :
    (pool.remove tx fRecursive).Matched ∧ (pool.remove tx fRecursive).txs ⊆ pool.txs := by
  cases fRecursive with
  | false =>
    obtain ⟨hm', htxs⟩ := hm.remove_false hinj
    exact ⟨hm', htxs ▸ Set.sdiff_subset⟩
  | true =>
    cases htx : pool.lookup tx.getHash with
    | none =>
      rw [CTxMemPool.remove, removeLoop_of_none htx]
      exact ⟨hm, subset_rfl⟩
    | some t =>
      have ht := hm.mem_txs htx
      obtain rfl := hinj (Set.mem_insert_of_mem _ ht) (Set.mem_insert _ _) (hm.hash htx)
      obtain ⟨hm', htxs⟩ := hm.remove_true hac ht
      exact ⟨hm', htxs ▸ prune_subset⟩

end CTxMemPool

/-! ### Runs -/

section Run

variable [Crypto]

theorem HashSound.mono {s s' : Set CTransaction} (hs : HashSound s) (h : s' ⊆ s) : HashSound s' :=
  ⟨hs.injOn.mono h, hs.acyclic.mono h⟩

theorem hashSound_of_rank {s : Set CTransaction} {l : List CTransaction} (rank : CTransaction → ℕ)
    (hs : ∀ tx ∈ s, tx ∈ l) (h : ∀ a ∈ l, ∀ b ∈ l, (a.getHash = b.getHash → a = b) ∧ (Spends a b → rank a < rank b)) :
    HashSound s where
  injOn _ ha _ hb := (h _ (hs _ ha) _ (hs _ hb)).1
  acyclic := acyclic_of_rank rank fun a b ha hb => (h a (hs a ha) b (hs b hb)).2

/-- An operation on the memory pool. -/
inductive PoolEvent where
  /-- `AcceptToMemoryPool`, with the chain and the transaction index that it reads. -/
  | accept (env : MemPoolEnv) (g : BestChain) (T : TxMap) (tx : CTransaction)
      (fLimitFree fRejectInsaneFee ignoreFees : Bool)
  | remove (tx : CTransaction) (fRecursive : Bool)
  | removeConflicts (tx : CTransaction)
  | clear

namespace PoolEvent

/-- The transaction that an operation goes to by its hash. -/
def txs : PoolEvent → List CTransaction
  | accept _ _ _ tx _ _ _ => [tx]
  | remove tx _ => [tx]
  | _ => []

/-- The pool after an operation. -/
def step (params : CChainParams) (pool : CTxMemPool) : PoolEvent → CTxMemPool
  | accept env g T tx fLimitFree fRejectInsaneFee ignoreFees =>
    match tx.acceptToMemoryPool params env g T pool fLimitFree fRejectInsaneFee ignoreFees with
    | .error _ => pool
    | .ok pool => pool
  | remove tx fRecursive => pool.remove tx fRecursive
  | removeConflicts tx => pool.removeConflicts tx
  | clear => pool.clear

/-- One operation keeps the maps matched. -/
theorem step_matched {params : CChainParams} {pool : CTxMemPool} {U : Set CTransaction} (hU : HashSound U)
    {e : PoolEvent} (he : ∀ tx ∈ e.txs, tx ∈ U) (h : pool.Matched ∧ pool.txs ⊆ U) :
    (step params pool e).Matched ∧ (step params pool e).txs ⊆ U := by
  obtain ⟨hm, hsub⟩ := h
  cases e with
  | accept env g T tx fLimitFree fRejectInsaneFee ignoreFees =>
    rw [step]
    split
    · exact ⟨hm, hsub⟩
    · next pool' hok =>
      obtain ⟨hnd, hnew, hfree, rfl⟩ := CTxMemPool.acceptToMemoryPool_eq_ok hok
      obtain ⟨hm', htxs⟩ := hm.addUnchecked hnew hnd hfree
      exact ⟨hm', htxs ▸ Set.insert_subset (he tx List.mem_cons_self) hsub⟩
  | remove tx fRecursive =>
    have hinj := hU.injOn.mono (Set.insert_subset (he tx List.mem_cons_self) hsub)
    obtain ⟨hm', hsub'⟩ : (pool.remove tx fRecursive).Matched ∧ (pool.remove tx fRecursive).txs ⊆ pool.txs :=
      hm.remove (hU.acyclic.mono hsub) hinj
    exact ⟨hm', hsub'.trans hsub⟩
  | removeConflicts tx =>
    obtain ⟨hm', htxs⟩ : (pool.removeConflicts tx).Holds (prune Spends pool.txs (CTxMemPool.rivals tx tx.vin)) :=
      hm.removeConflicts (hU.acyclic.mono hsub)
    rw [step]
    exact ⟨hm', htxs ▸ prune_subset.trans hsub⟩
  | clear =>
    obtain ⟨hm', htxs⟩ : pool.clear.Holds ∅ := CTxMemPool.Matched.clear
    rw [step]
    exact ⟨hm', htxs ▸ Set.empty_subset U⟩

end PoolEvent

/-- **The maps of the pool match in every state of a run**, where the hash is sound for the
transactions of the run. A recursive `remove` of a transaction of the pool then takes out exactly
it and its descendants there, and `removeConflicts` the rivals of a transaction with theirs. -/
theorem run_matched (params : CChainParams) (events : List PoolEvent)
    (hU : HashSound {tx | ∃ e ∈ events, tx ∈ e.txs}) (n : ℕ) :
    let pool := run (PoolEvent.step params) {} (events.take n)
    pool.Matched ∧
      (∀ tx ∈ pool.txs, (pool.remove tx true).txs = {t ∈ pool.txs | ¬Desc Spends pool.txs tx t}) ∧
      ∀ tx, (pool.removeConflicts tx).txs =
        {t ∈ pool.txs | ∀ c ∈ pool.txs, c ≠ tx → (∃ o, tx.Claims o ∧ c.Claims o) → ¬Desc Spends pool.txs c t} := by
  intro pool
  have hinv : pool.Matched ∧ pool.txs ⊆ {tx | ∃ e ∈ events, tx ∈ e.txs} := by
    refine run_induct (I := fun pool : CTxMemPool => pool.Matched ∧ pool.txs ⊆ {tx | ∃ e ∈ events, tx ∈ e.txs})
      (fun e he pool h => ?_) ⟨CTxMemPool.matched_empty, ?_⟩
    · exact PoolEvent.step_matched hU (fun tx htx => ⟨e, List.mem_of_mem_take he, htx⟩) h
    · intro tx htx
      cases htx
  obtain ⟨hm, hsub⟩ := hinv
  have hac := hU.acyclic.mono hsub
  refine ⟨hm, fun tx htx => ?_, fun tx => ?_⟩
  · rw [(hm.remove_true hac htx).txs]
    ext t
    refine and_congr_right fun _ => ⟨fun hall => hall tx rfl htx, ?_⟩
    rintro hnd _ rfl -
    exact hnd
  · rw [(hm.removeConflicts hac).txs]
    ext t
    refine and_congr_right fun _ => ⟨fun hall c hcs hne ⟨o, ⟨txin, hin, ho⟩, hc⟩ => ?_, fun hall c hc hcs => ?_⟩
    · exact hall c ⟨hne, txin, hin, ho ▸ hc⟩ hcs
    · obtain ⟨hne, txin, hin, hc⟩ := hc
      exact hall c hcs hne ⟨txin.prevout, ⟨txin, hin, rfl⟩, hc⟩

end Run

/-! ### A payment and its change -/

namespace Sample

/-- A transaction that spends the payment. -/
def change : CTransaction := spend 3 payment [] (8 * COIN)

/-- The readings of `AcceptToMemoryPool`, with the payment in a block too. -/
def poolEnv : MemPoolEnv :=
  { memPoolEnv with
    disk := { disk with readTx := fun _ pos => if pos.nBlockPos = 1000 then some paid else some payment } }

/-- An index that has one transaction. -/
def poolIndex (tx : CTransaction) (nBlockPos : UInt32) : TxMap :=
  fun h => if h = tx.getHash then some (.new ⟨1, nBlockPos, 81⟩ 1) else none

/-- The payment comes, and the change when the payment is in a block. -/
def poolEvents : List PoolEvent :=
  [.accept poolEnv (node 0).best (poolIndex paid 1000) payment false false false,
    .accept poolEnv (node 0).best (poolIndex payment 2000) change false false false]

/-- The pool with both. -/
def pool : CTxMemPool := run (PoolEvent.step CChainParams.test) {} poolEvents

/-- The pool matches, and the change goes with the payment. -/
theorem pool_matched : pool.Matched ∧ change ∈ pool.txs ∧ change ∉ (pool.remove payment true).txs := by
  have hfacts : ∀ a ∈ [payment, change], ∀ b ∈ [payment, change],
      (a.getHash = b.getHash → a = b) ∧ (Spends a b → a.nTime.toNat < b.nTime.toNat) := by decide
  have hU : HashSound {tx | ∃ e ∈ poolEvents, tx ∈ e.txs} :=
    hashSound_of_rank (fun tx => tx.nTime.toNat) (fun tx htx => by simpa [poolEvents, PoolEvent.txs] using htx) hfacts
  have hpayment : payment ∈ pool.txs := show pool.lookup payment.getHash = some payment by decide
  have hchange : change ∈ pool.txs := show pool.lookup change.getHash = some change by decide
  have hspends : Spends payment change := by decide
  obtain ⟨hm, hremove, -⟩ := run_matched CChainParams.test poolEvents hU 2
  refine ⟨hm, hchange, fun hmem => ?_⟩
  rw [pool, show poolEvents = poolEvents.take 2 from rfl, hremove payment hpayment] at hmem
  exact hmem.2 (.single ⟨hspends, hchange⟩)

end Sample

end PayDayCoin
