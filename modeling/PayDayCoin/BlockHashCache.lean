import PayDayCoin.InstantX
import PayDayCoin.Library.Runs
import PayDayCoin.Masternode

/-!
# The cache of block hashes

`GetBlockHash` keeps each answer by the height it was asked for, and the answers stay when
the best chain changes. **`blockHash_agrees_iff`** gives the exact condition under which what
it answers is a function of the best chain: no change of the best chain moves the block of a
height that was asked for. Then two nodes with the same best chain get the same hashes,
scores and ranks, and the same masternodes vote on a transaction lock. Blocks that are only
added move no block of a positive height (**`kept_of_connected`**). In `Sample.reorganized_stale` a
node that was asked before a reorganization and one that was not differ.
-/

namespace PayDayCoin

open Library.Runs

/-- `MIN_INSTANTX_PROTO_VERSION`. -/
def MIN_INSTANTX_PROTO_VERSION : ℤ := 60029

/-- The masternodes whose vote on a transaction lock of a height is accepted. -/
def CMasternodeMan.voters (S : StdSort) (H : ScoreHash) (hashes : BlockHashes) (env : MasternodeEnv)
    (man : CMasternodeMan) (nBlockHeight : ℤ) : List CTxIn :=
  (man.vMasternodes.map CMasternode.vin).filter fun vin =>
    let n := man.getMasternodeRank S H hashes env vin nBlockHeight MIN_INSTANTX_PROTO_VERSION true
    n ≠ -1 && n ≤ INSTANTX_SIGNATURES_TOTAL

/-! ### Runs -/

/-- `GetBlockHash` is called, or there is a new best chain. -/
inductive ChainOp where
  | query (nBlockHeight : ℤ)
  | setBest (p : CBlockIndex) (pprev : PIndex)

namespace BlockHashes

/-- The chain and the cache after a step. -/
def step (hashes : BlockHashes) : ChainOp → BlockHashes
  | .query nBlockHeight =>
    { hashes with
      mapCacheBlockHashes := (PayDayCoin.getBlockHash hashes.mapCacheBlockHashes hashes.pindexBest nBlockHeight).2 }
  | .setBest p pprev => { hashes with pindexBest := p :: pprev }

/-- The answer of `GetBlockHash` with nothing in the cache. -/
def uncached (pindexBest : PIndex) (nBlockHeight : ℤ) : Option Uint256 :=
  BlockHashes.blockHash { pindexBest := pindexBest } nBlockHeight

/-- A step leaves the block of each height that was asked for in its place. -/
def Kept (hashes : BlockHashes) : ChainOp → Prop
  | .query _ => True
  | .setBest p pprev => ∀ h, (hashes.mapCacheBlockHashes h).isSome →
    freshBlockHash (p :: pprev) h = freshBlockHash hashes.pindexBest h

/-- What is cached is what the walk over the chain finds. -/
structure Current (hashes : BlockHashes) : Prop where
  nonzero : hashes.mapCacheBlockHashes 0 = none
  fresh : ∀ h hash, hashes.mapCacheBlockHashes h = some hash → freshBlockHash hashes.pindexBest h = some hash

section Answers

variable {hashes : BlockHashes}

/-- The height that `GetBlockHash` looks for. -/
def asked (pindexBest : PIndex) (nBlockHeight : ℤ) : ℤ :=
  if nBlockHeight = 0 then (pindexBest.nHeight : ℤ) else nBlockHeight

theorem asked_of_ne {pindexBest : PIndex} {h : ℤ} (hne : h ≠ 0) : asked pindexBest h = h := if_neg hne

/-- The walk over the chain finds nothing for the height 0. -/
theorem asked_ne_zero {pindexBest : PIndex} {h : ℤ} {hash : Uint256}
    (hfresh : freshBlockHash pindexBest (asked pindexBest h) = some hash) : asked pindexBest h ≠ 0 := by
  intro hzero
  rw [asked] at hzero
  split at hzero
  · have hheight : pindexBest.nHeight = 0 := Int.ofNat_eq_zero.1 hzero
    rw [freshBlockHash, if_pos (.inl hheight)] at hfresh
    cases hfresh
  · exact absurd hzero ‹_›

theorem uncached_eq {pindexBest : PIndex} (hnull : pindexBest ≠ []) (h : ℤ) :
    uncached pindexBest h = freshBlockHash pindexBest (asked pindexBest h) := by
  simp only [uncached, blockHash, getBlockHash, if_neg hnull]
  rw [asked]
  generalize (if h = 0 then (pindexBest.nHeight : ℤ) else h) = k
  cases freshBlockHash pindexBest k <;> rfl

theorem blockHash_eq (hnull : hashes.pindexBest ≠ []) (h : ℤ) :
    hashes.blockHash h = (hashes.mapCacheBlockHashes (asked hashes.pindexBest h)).or (uncached hashes.pindexBest h) := by
  rw [uncached_eq hnull]
  simp only [blockHash, getBlockHash, if_neg hnull]
  rw [asked]
  generalize (if h = 0 then (hashes.pindexBest.nHeight : ℤ) else h) = k
  cases hashes.mapCacheBlockHashes k with
  | some hash => rfl
  | none => cases hx : freshBlockHash hashes.pindexBest k <;> rfl

/-- The cache after a query: an answer of the walk is kept. -/
theorem step_query (h : ℤ) :
    (hashes.step (.query h)).mapCacheBlockHashes = hashes.mapCacheBlockHashes ∨
      ∃ hash, freshBlockHash hashes.pindexBest (asked hashes.pindexBest h) = some hash ∧
        (hashes.step (.query h)).mapCacheBlockHashes =
          Function.update hashes.mapCacheBlockHashes (asked hashes.pindexBest h) (some hash) := by
  by_cases hnull : hashes.pindexBest = []
  · exact .inl (by simp only [step, getBlockHash, if_pos hnull])
  simp only [step, getBlockHash, if_neg hnull]
  rw [asked]
  generalize (if h = 0 then (hashes.pindexBest.nHeight : ℤ) else h) = k
  cases hashes.mapCacheBlockHashes k with
  | some hash => exact .inl rfl
  | none =>
    cases hx : freshBlockHash hashes.pindexBest k with
    | none => exact .inl rfl
    | some hash => exact .inr ⟨hash, rfl, rfl⟩

/-- A current cache does not show. -/
theorem Current.blockHash (hcur : hashes.Current) (h : ℤ) :
    hashes.blockHash h = uncached hashes.pindexBest h := by
  by_cases hnull : hashes.pindexBest = []
  · simp only [uncached, BlockHashes.blockHash, getBlockHash, if_pos hnull]
  rw [blockHash_eq hnull]
  cases hcache : hashes.mapCacheBlockHashes (asked hashes.pindexBest h) with
  | none => rfl
  | some hash => rw [uncached_eq hnull, hcur.fresh _ _ hcache, Option.or_some, Option.getD_some]

/-- Each step that keeps the blocks asked for keeps the cache current. -/
theorem Current.step (hcur : hashes.Current) {op : ChainOp} (hkept : hashes.Kept op) : (hashes.step op).Current := by
  cases op with
  | query h =>
    have hbest : (hashes.step (.query h)).pindexBest = hashes.pindexBest := rfl
    rcases @step_query hashes h with heq | ⟨hash, hfresh, heq⟩
    · exact ⟨heq ▸ hcur.nonzero, fun k hash' hk => hbest ▸ hcur.fresh k hash' (heq ▸ hk)⟩
    · refine ⟨?_, fun k hash' hk => ?_⟩
      · rw [heq, Function.update_of_ne (asked_ne_zero hfresh).symm]
        exact hcur.nonzero
      · rw [hbest]
        rw [heq] at hk
        by_cases hka : k = asked hashes.pindexBest h
        · subst hka
          rw [Function.update_self] at hk
          exact hfresh.trans hk
        · rw [Function.update_of_ne hka] at hk
          exact hcur.fresh k hash' hk
  | setBest p pprev =>
    refine ⟨hcur.nonzero, fun h hash hh => ?_⟩
    exact (hkept h (Option.isSome_iff_exists.2 ⟨hash, hh⟩)).trans (hcur.fresh h hash hh)

/-- **A block asked for that moves leaves a wrong answer.** -/
theorem Current.stale (hcur : hashes.Current) {op : ChainOp} (hmoved : ¬hashes.Kept op) :
    ¬∀ h hash, (hashes.step op).blockHash h = some hash → uncached (hashes.step op).pindexBest h = some hash := by
  cases op with
  | query h => exact absurd trivial hmoved
  | setBest p pprev =>
    simp only [Kept, not_forall] at hmoved
    obtain ⟨h, hcached, hmoved⟩ := hmoved
    obtain ⟨hash, hcached⟩ := Option.isSome_iff_exists.1 hcached
    have hne : h ≠ 0 := by
      rintro rfl
      rw [hcur.nonzero] at hcached
      cases hcached
    have hnull : (hashes.step (.setBest p pprev)).pindexBest ≠ [] := List.cons_ne_nil p pprev
    intro hall
    have hanswer : (hashes.step (.setBest p pprev)).blockHash h = some hash := by
      rw [blockHash_eq hnull, asked_of_ne hne]
      exact congrArg (Option.or · _) hcached
    have hfresh := hall h hash hanswer
    rw [uncached_eq hnull, asked_of_ne hne] at hfresh
    exact hmoved (hfresh.trans (hcur.fresh h hash hcached).symm)

end Answers

/-- Of a chain that blocks are added to, the walk finds the same block for a height. -/
theorem blockHashAgo_append (n : ℕ) {pindexBest : PIndex} (hnull : pindexBest ≠ []) :
    ∀ added : PIndex, blockHashAgo (n + added.length) (added ++ pindexBest) = blockHashAgo n pindexBest
  | [] => rfl
  | p :: added => by
    rw [← blockHashAgo_append n hnull added, List.length_cons, List.cons_append, ← Nat.add_assoc]
    obtain ⟨q, rest, hq⟩ := List.exists_cons_of_ne_nil (List.append_ne_nil_of_right_ne_nil added hnull)
    rw [hq]
    rfl

/-- **Blocks that are added move no block of a positive height.** -/
theorem kept_of_connected {hashes : BlockHashes} (hcur : hashes.Current) (hnull : hashes.pindexBest ≠ [])
    {p : CBlockIndex} {pprev added : PIndex} (hadded : p :: pprev = added ++ hashes.pindexBest)
    (hpos : ∀ h, (hashes.mapCacheBlockHashes h).isSome → 0 < h) : hashes.Kept (.setBest p pprev) := by
  intro h hcached
  have hh := hpos h hcached
  obtain ⟨hash, hcached⟩ := Option.isSome_iff_exists.1 hcached
  have hfresh := hcur.fresh h hash hcached
  have hlen : 0 < hashes.pindexBest.length := List.length_pos_iff.2 hnull
  have hheight : PIndex.nHeight (p :: pprev) = hashes.pindexBest.nHeight + added.length := by
    rw [hadded, PIndex.nHeight, List.length_append, PIndex.nHeight]
    omega
  have hknown : ¬(hashes.pindexBest.nHeight = 0 ∨ (hashes.pindexBest.nHeight : ℤ) + 1 < h) := by
    intro hunknown
    rw [freshBlockHash, if_pos hunknown] at hfresh
    cases hfresh
  rw [freshBlockHash, freshBlockHash, if_neg hknown, if_neg (by rw [hheight]; push_cast; omega)]
  simp only [if_pos hh]
  have hago : ((PIndex.nHeight (p :: pprev) : ℤ) + 1 - h).toNat =
      ((hashes.pindexBest.nHeight : ℤ) + 1 - h).toNat + added.length := by
    rw [hheight]
    push_cast
    omega
  rw [hago, hadded, blockHashAgo_append _ hnull]

/-- **`GetBlockHash` answers for the best chain exactly if no block asked for moves**, and
then nodes with the same best chain agree. -/
theorem blockHash_agrees_iff (pindexStart : PIndex) (ops : List ChainOp) :
    ((∀ n h hash, (run step { pindexBest := pindexStart } (ops.take n)).blockHash h = some hash →
        uncached (run step { pindexBest := pindexStart } (ops.take n)).pindexBest h = some hash) ↔
      Along step Kept { pindexBest := pindexStart } ops) ∧
    ∀ pindexStart' ops', Along step Kept { pindexBest := pindexStart } ops →
      Along step Kept { pindexBest := pindexStart' } ops' →
      let hashes := run step { pindexBest := pindexStart } ops
      let hashes' := run step { pindexBest := pindexStart' } ops'
      hashes.pindexBest = hashes'.pindexBest →
      (∀ h, hashes.blockHash h = hashes'.blockHash h) ∧
      (∀ H (mn : CMasternode) h, mn.calculateScore H hashes h = mn.calculateScore H hashes' h) ∧
      ∀ S H env (man : CMasternodeMan) h,
        (∀ vin minProtocol fOnlyActive, man.getMasternodeRank S H hashes env vin h minProtocol fOnlyActive =
          man.getMasternodeRank S H hashes' env vin h minProtocol fOnlyActive) ∧
        man.voters S H hashes env h = man.voters S H hashes' env h := by
  have hstart : ∀ pindexBest, Current { pindexBest := pindexBest } := fun _ => ⟨rfl, nofun⟩
  refine ⟨?_, ?_⟩
  · exact forall_take_iff_along (Q := fun hashes => ∀ h hash, hashes.blockHash h = some hash →
        uncached hashes.pindexBest h = some hash)
      (fun hashes hcur h hash hh => hcur.blockHash h ▸ hh) (fun _ _ hkept hcur => hcur.step hkept)
      (fun _ _ hmoved hcur => hcur.stale hmoved) (hstart pindexStart)
  · intro pindexStart' ops' hops hops' hashes hashes' hbest
    have hcur : hashes.Current := invariant_of_along (fun _ _ _ hkept hcur => hcur.step hkept) hops (hstart _)
    have hcur' : hashes'.Current := invariant_of_along (fun _ _ _ hkept hcur => hcur.step hkept) hops' (hstart _)
    have hhash : ∀ h, hashes.blockHash h = hashes'.blockHash h := fun h => by
      rw [hcur.blockHash, hcur'.blockHash, hbest]
    have hscore : ∀ H (mn : CMasternode) h, mn.calculateScore H hashes h = mn.calculateScore H hashes' h :=
      fun H mn h => by simp only [CMasternode.calculateScore, hbest, hhash]
    have hrank : ∀ S H env (man : CMasternodeMan) h vin minProtocol fOnlyActive,
        man.getMasternodeRank S H hashes env vin h minProtocol fOnlyActive =
          man.getMasternodeRank S H hashes' env vin h minProtocol fOnlyActive :=
      fun S H env man h vin minProtocol fOnlyActive => by
        simp only [CMasternodeMan.getMasternodeRank, CMasternodeMan.vecMasternodeScores, CMasternodeMan.scores, hhash,
          hscore]
    refine ⟨hhash, hscore, fun S H env man h => ⟨hrank S H env man h, ?_⟩⟩
    simp only [CMasternodeMan.voters, hrank]

end BlockHashes

/-! ### A reorganization -/

namespace Sample

open BlockHashes

/-- `GetBlockHash` is asked for the last block while `b₃` is the best block, and then the
branch of `c₄` becomes the best chain. -/
def askedBefore : BlockHashes :=
  run step { pindexBest := (node 4).best.pindexBest }
    [.query 4, .setBest ((node 5).best.pindexBest.headD genesis) (node 5).best.pindexBest.tail]

/-- **The answer of before the reorganization stays**: it is `b₃`, which is not in the chain
any more, where a node that was not asked before answers with `c₃`. -/
theorem reorganized_stale : askedBefore.pindexBest = (node 5).best.pindexBest ∧
    askedBefore.blockHash 4 = some b₃.getHash ∧
    BlockHashes.blockHash { pindexBest := (node 5).best.pindexBest } 4 = some c₃.getHash ∧ b₃.getHash ≠ c₃.getHash ∧
    ¬∀ h hash, askedBefore.blockHash h = some hash → uncached askedBefore.pindexBest h = some hash := by
  have hbest : askedBefore.pindexBest = (node 5).best.pindexBest := by decide +kernel
  have hold : askedBefore.blockHash 4 = some b₃.getHash := by decide +kernel
  have hnew : BlockHashes.blockHash { pindexBest := (node 5).best.pindexBest } 4 = some c₃.getHash := by decide +kernel
  have hne : b₃.getHash ≠ c₃.getHash := by decide
  refine ⟨hbest, hold, hnew, hne, fun hall => hne ?_⟩
  have hstale := hall 4 _ hold
  rw [hbest] at hstale
  exact Option.some.inj (hstale.symm.trans hnew)

end Sample

end PayDayCoin
