import PayDayCoin.LoadBlockIndex
import PayDayCoin.Kernel
import PayDayCoin.Library.Runs

/-!
# The trust of a chain

`AddToBlockIndex` gives a new object the trust of its parent and that of its block, in 256 bits, and `LoadBlockIndex` adds
up the same sums again in the order of heights. For every tree of objects the two agree, whatever the order of the map
and the addresses of the objects, and the trust goes up from each object to its children as long as the sum fits
(**`chainTrust_spec`**): a target that a block can be checked for is not negative and has fewer than 256 bits, so that no
block has trust 0. Two blocks with the target 1 do not fit (`TrustSample.trust_wraps`).
-/

namespace PayDayCoin

open Library.Runs LoadedIndex

/-! ### The trust of a block -/

/-- A target that is positive and has at most 256 bits gives trust. -/
theorem IndexEntry.getBlockTrust_pos {e : IndexEntry} (hpos : 0 < setCompact e.nBits)
    (hlt : setCompact e.nBits < 2 ^ 256) : 0 < e.getBlockTrust.toNat := by
  rw [IndexEntry.getBlockTrust]
  simp only [if_neg (not_le.2 hpos), getuint256, BitVec.toNat_ofNat]
  generalize setCompact e.nBits = T at hpos hlt
  have hlow : 1 ≤ (2 : ℤ) ^ 256 / (T + 1) := (Int.le_ediv_iff_mul_le (by omega)).2 (by omega)
  have hhigh : (2 : ℤ) ^ 256 / (T + 1) < 2 ^ 256 :=
    Int.ediv_lt_self_of_pos_of_ne_one (by decide) (by omega) |>.trans_le le_rfl
  generalize (2 : ℤ) ^ 256 / (T + 1) = q at hlow hhigh
  omega

/-- Bits that `CheckProofOfWork` accepts for some hash, or `CheckProofOfStake` for some stake if they are a target at all:
positive, and with at most 256 bits. -/
def CheckedBits [Crypto] (params : CChainParams) (nBits : UInt32) : Prop :=
  (∃ hash, checkProofOfWork params hash nBits = true) ∨
    (∃ env pindexPrev tx, (checkProofOfStake env pindexPrev tx nBits).isOk = true) ∧
      0 < setCompact nBits ∧ setCompact nBits < 2 ^ 256

theorem CheckedBits.target [Crypto] {params : CChainParams} {nBits : UInt32} (h : CheckedBits params nBits)
    (hlimit : params.proofOfWorkLimit < 2 ^ 256) : 0 < setCompact nBits ∧ setCompact nBits < 2 ^ 256 := by
  rcases h with ⟨hash, h⟩ | ⟨-, h⟩
  · simp only [checkProofOfWork, Bool.and_eq_true, decide_eq_true_eq] at h
    exact ⟨h.1.1, h.1.2.trans_lt hlimit⟩
  · exact h

/-! ### Trees of objects -/

namespace IndexTree

/-- A call of `AddToBlockIndex`: the hash of the block, that of the block before it, and the object made of the block. -/
structure IndexCall where
  hash : Uint256
  hashPrevBlock : Uint256
  entry : IndexEntry

/-- `AddToBlockIndex`, as far as the objects of the block index go. -/
def addToBlockIndex (m : Uint256 → Option IndexEntry) (call : IndexCall) : Uint256 → Option IndexEntry :=
  if (m call.hash).isSome then m
  else
    let pprev := if (m call.hashPrevBlock).isSome then some call.hashPrevBlock else none
    Function.update m call.hash (some { call.entry with
      pprev := pprev
      nHeight := ((m call.hashPrevBlock).map fun e => e.nHeight + 1).getD 0
      nChainTrust := trustOf m pprev + call.entry.getBlockTrust })

/-- Parents are there and one lower, and each object has the trust of its parent and of its block. -/
structure TrustOk (m : Uint256 → Option IndexEntry) : Prop where
  parent : ∀ {k e p}, m k = some e → e.pprev = some p → ∃ e', m p = some e' ∧ e.nHeight = e'.nHeight + 1
  trust : ∀ {k e}, m k = some e → e.nChainTrust = trustOf m e.pprev + e.getBlockTrust

theorem TrustOk.add {m : Uint256 → Option IndexEntry} (h : TrustOk m) (call : IndexCall) :
    TrustOk (addToBlockIndex m call) := by
  rw [addToBlockIndex]
  split
  · exact h
  · next hnew =>
    have hnone : m call.hash = none := by simpa using hnew
    -- a parent that was there stays as it was
    have hold : ∀ {p e'}, m p = some e' → p ≠ call.hash := by
      rintro p e' hp rfl
      rw [hnone] at hp
      cases hp
    have htrust : ∀ (e : IndexEntry) {pprev : Option Uint256}, (∀ p, pprev = some p → ∃ e', m p = some e') →
        trustOf (Function.update m call.hash (some e)) pprev = trustOf m pprev := by
      intro e pprev hpprev
      cases pprev with
      | none => rfl
      | some p =>
        obtain ⟨e', he'⟩ := hpprev p rfl
        simp only [trustOf, Option.bind_some, Function.update_of_ne (hold he')]
    have hpprev : ∀ p, (if (m call.hashPrevBlock).isSome then some call.hashPrevBlock else none) = some p →
        p = call.hashPrevBlock ∧ ∃ e', m p = some e' := by
      intro p hp
      split at hp
      · next hsome =>
        obtain rfl := Option.some.inj hp
        exact ⟨rfl, Option.isSome_iff_exists.1 hsome⟩
      · cases hp
    refine ⟨fun {k e p} hk hp => ?_, fun {k e} hk => ?_⟩
    · by_cases heq : k = call.hash
      · subst heq
        rw [Function.update_self] at hk
        obtain rfl := Option.some.inj hk
        obtain ⟨rfl, e', he'⟩ := hpprev p hp
        refine ⟨e', by rw [Function.update_of_ne (hold he'), he'], ?_⟩
        simp [he']
      · rw [Function.update_of_ne heq] at hk
        obtain ⟨e', he', hheight⟩ := h.parent hk hp
        exact ⟨e', by rw [Function.update_of_ne (hold he'), he'], hheight⟩
    · by_cases heq : k = call.hash
      · subst heq
        rw [Function.update_self] at hk
        obtain rfl := Option.some.inj hk
        simp only
        rw [htrust _ fun p hp => (hpprev p hp).2]
        rfl
      · rw [Function.update_of_ne heq] at hk
        rw [h.trust hk, htrust _ fun p hp => (h.parent hk hp).imp fun e' he' => he'.1]

theorem trustOk_run (calls : List IndexCall) : TrustOk (run addToBlockIndex (fun _ => none) calls) :=
  run_induct (fun call _ _ h => h.add call) ⟨fun h => (by cases h), fun h => (by cases h)⟩

/-! ### LoadBlockIndex -/

/-- The objects that are loaded are those of a tree, with any trust. -/
structure Reloads (m : Uint256 → Option IndexEntry) (st : LoadedIndex) : Prop where
  entry : ∀ k, (st.mapBlockIndex k).map (fun e => (e.pprev, e.nHeight, e.nBits)) =
    (m k).map fun e => (e.pprev, e.nHeight, e.nBits)
  keys : ∀ k, k ∈ st.keys ↔ (st.mapBlockIndex k).isSome = true

theorem Reloads.find {m : Uint256 → Option IndexEntry} {st : LoadedIndex} (h : Reloads m st) {k : Uint256}
    {e : IndexEntry} (hk : st.mapBlockIndex k = some e) :
    ∃ e', m k = some e' ∧ e.pprev = e'.pprev ∧ e.nHeight = e'.nHeight ∧ e.nBits = e'.nBits := by
  have hentry := h.entry k
  rw [hk, Option.map_some, eq_comm, Option.map_eq_some_iff] at hentry
  obtain ⟨e', he', heq⟩ := hentry
  simp only [Prod.mk.injEq] at heq
  exact ⟨e', he', heq.1.symm, heq.2.1.symm, heq.2.2.symm⟩

theorem Reloads.isSome {m : Uint256 → Option IndexEntry} {st : LoadedIndex} (h : Reloads m st) (k : Uint256) :
    (st.mapBlockIndex k).isSome = (m k).isSome := by
  have hentry := congrArg Option.isSome (h.entry k)
  rwa [Option.isSome_map, Option.isSome_map] at hentry

/-- The sums are those that `AddToBlockIndex` has made. -/
theorem trustOf_calculateTrust {m : Uint256 → Option IndexEntry} (hm : TrustOk m) {st : LoadedIndex}
    (h : Reloads m st) (env : LoadEnv) (k : Uint256) :
    trustOf (st.calculateTrust env).mapBlockIndex (some k) = trustOf m (some k) := by
  have hmem : ∀ k, k ∈ st.keys.mergeSort (st.before env) ↔ (st.mapBlockIndex k).isSome = true := fun k => by
    rw [List.mem_mergeSort, h.keys]
  have hparent : ∀ k e p, st.mapBlockIndex k = some e → e.pprev = some p → (st.mapBlockIndex p).isSome = true := by
    intro k e p hk hp
    obtain ⟨e', he', hpprev, -, -⟩ := h.find hk
    obtain ⟨e'', he'', -⟩ := hm.parent he' (hpprev ▸ hp)
    rw [h.isSome, he'']
    rfl
  have hpass : ∀ k ∈ st.keys.mergeSort (st.before env),
      Library.Ranked.pass (parentIn st.mapBlockIndex) (trustIn st.mapBlockIndex) (st.keys.mergeSort (st.before env))
        (fun k => trustOf st.mapBlockIndex (some k)) k = trustOf m (some k) := by
    refine Library.Ranked.pass_eq (fun k hk => ?_) (fun k hk p hp => ?_) (st.pairwise_sorted env)
    · obtain ⟨e, he⟩ := Option.isSome_iff_exists.1 ((hmem k).1 hk)
      obtain ⟨e', he', hpprev, -, hbits⟩ := h.find he
      have htrust : e.getBlockTrust = e'.getBlockTrust := by rw [IndexEntry.getBlockTrust, IndexEntry.getBlockTrust, hbits]
      simp only [trustOf, trustIn, parentIn, he, he', Option.bind_some, Option.map_some, Option.getD_some, hpprev,
        htrust, hm.trust he']
      congr 1
      cases e'.pprev <;> rfl
    · obtain ⟨e, he, hp⟩ := Option.bind_eq_some_iff.1 hp
      have hsome := hparent k e p he hp
      refine ⟨(hmem p).2 hsome, ?_⟩
      obtain ⟨e', he', hpprev, hheight, -⟩ := h.find he
      obtain ⟨f, hf⟩ := Option.isSome_iff_exists.1 hsome
      obtain ⟨f', hf', -, hheight', -⟩ := h.find hf
      obtain ⟨g, hg, hup⟩ := hm.parent he' (hpprev ▸ hp)
      obtain rfl := Option.some.inj (hg.symm.trans hf')
      simp only [LoadedIndex.nHeight, he, hf, Option.map_some, Option.getD_some]
      omega
  rw [calculateTrust, trustOf, Option.bind_some]
  simp only
  rw [foldl_addTrust (fun k hk => (hmem k).1 hk) hparent]
  cases hk : st.mapBlockIndex k with
  | none =>
    have hnone : m k = none := by
      rw [← Option.isNone_iff_eq_none, ← Option.not_isSome, ← h.isSome, hk]
      rfl
    simp [trustOf, hnone]
  | some e =>
    rw [Option.map_some, Option.map_some, Option.getD_some]
    exact hpass k ((hmem k).2 (by rw [hk]; rfl))

/-- In every tree that calls of `AddToBlockIndex` make, an object whose bits have been checked has more trust than its
parent if the sum fits into 256 bits, and `LoadBlockIndex` gives every object the trust that it had. -/
theorem chainTrust_spec [Crypto] (params : CChainParams) (hlimit : params.proofOfWorkLimit < 2 ^ 256)
    (calls : List IndexCall) :
    (∀ k e p e', run addToBlockIndex (fun _ => none) calls k = some e → e.pprev = some p →
      run addToBlockIndex (fun _ => none) calls p = some e' → CheckedBits params e.nBits →
        e'.nChainTrust.toNat + e.getBlockTrust.toNat < 2 ^ 256 → e'.nChainTrust.toNat < e.nChainTrust.toNat) ∧
    ∀ st, Reloads (run addToBlockIndex (fun _ => none) calls) st → ∀ env k,
      trustOf (st.calculateTrust env).mapBlockIndex (some k) =
        trustOf (run addToBlockIndex (fun _ => none) calls) (some k) := by
  have hm := trustOk_run calls
  refine ⟨fun k e p e' hk hp he' hbits hfits => ?_, fun st hst env k => trustOf_calculateTrust hm hst env k⟩
  obtain ⟨hpos, hlt⟩ := hbits.target hlimit
  have htrust := IndexEntry.getBlockTrust_pos hpos hlt
  have hparent : trustOf (run addToBlockIndex (fun _ => none) calls) e.pprev = e'.nChainTrust := by
    rw [hp, trustOf, Option.bind_some, he', Option.map_some, Option.getD_some]
  rw [hm.trust hk, hparent, BitVec.toNat_add, Nat.mod_eq_of_lt hfits]
  omega

end IndexTree

namespace TrustSample

open IndexTree

/-- No function of this file reads a hash. -/
scoped instance crypto : Crypto where
  serializeHash _ := 0
  hash _ := 0
  hash9 _ := 0
  hashPair _ _ := 0
  verifySignature _ _ _ _ _ := true
  checkBlockSignature _ := true
  hashKernel _ _ _ _ _ _ := 0
  hashSelection _ _ := 0
  hashModifierV2 _ _ := 0

/-- Two blocks, one on the other. -/
def calls (nBits : UInt32) : List IndexCall := [⟨1, 0, { nBits := nBits }⟩, ⟨2, 1, { nBits := nBits }⟩]

/-- The tree of two blocks. -/
def tree (nBits : UInt32) : Uint256 → Option IndexEntry :=
  run IndexTree.addToBlockIndex (fun _ => none) (calls nBits)

/-- `CheckProofOfWork` accepts the target 1 for a hash of zeros. The trust of the second block on top of the first is
`2 ^ 256`, which is 0. -/
theorem trust_wraps : checkProofOfWork CChainParams.main 0 0x01010000 = true ∧
    (tree 0x01010000 2).bind IndexEntry.pprev = some 1 ∧
    ((tree 0x01010000 1).map IndexEntry.nChainTrust).map BitVec.toNat = some (2 ^ 255) ∧
    ((tree 0x01010000 2).map IndexEntry.nChainTrust).map BitVec.toNat = some 0 := by
  refine ⟨?_, ?_, ?_, ?_⟩ <;> decide

/-- What `LoadBlockIndex` makes of the records of a tree of two blocks before it adds up the trust. -/
def reloaded (nBits : UInt32) : LoadedIndex where
  mapBlockIndex k := (tree nBits k).map fun e => { e with nChainTrust := 0 }
  keys := [2, 1]

theorem isSome_tree (nBits : UInt32) (k : Uint256) : (tree nBits k).isSome = true ↔ k = 2 ∨ k = 1 := by
  simp only [tree, calls, run, List.foldl_cons, List.foldl_nil, IndexTree.addToBlockIndex]
  simp [Function.update_apply]
  split <;> simp_all

theorem reloads (nBits : UInt32) : Reloads (tree nBits) (reloaded nBits) where
  entry k := by
    rw [reloaded, Option.map_map]
    rfl
  keys k := by
    rw [reloaded, Option.isSome_map, isSome_tree]
    simp

/-- `chainTrust_spec` of two blocks with the target `0xffff * 2 ^ 192`. -/
theorem trust_of_pair :
    (∃ e e', tree 0x1b00ffff 2 = some e ∧ tree 0x1b00ffff 1 = some e' ∧ e'.nChainTrust.toNat < e.nChainTrust.toNat) ∧
    ∀ env k, trustOf ((reloaded 0x1b00ffff).calculateTrust env).mapBlockIndex (some k) =
      trustOf (tree 0x1b00ffff) (some k) := by
  have h := chainTrust_spec CChainParams.main (by decide) (calls 0x1b00ffff)
  refine ⟨?_, h.2 _ (reloads _)⟩
  obtain ⟨e, he⟩ := Option.isSome_iff_exists.1 ((isSome_tree 0x1b00ffff 2).2 (.inl rfl))
  obtain ⟨e', he'⟩ := Option.isSome_iff_exists.1 ((isSome_tree 0x1b00ffff 1).2 (.inr rfl))
  have hpprev : (tree 0x1b00ffff 2).bind IndexEntry.pprev = some 1 := by decide
  have hbits : (tree 0x1b00ffff 2).map IndexEntry.nBits = some 0x1b00ffff := by decide
  have hfits : ((tree 0x1b00ffff 1).map fun e => e.nChainTrust.toNat).getD 0 +
      ((tree 0x1b00ffff 2).map fun e => e.getBlockTrust.toNat).getD 0 < 2 ^ 256 := by decide
  rw [he] at hpprev hbits hfits
  rw [he'] at hfits
  refine ⟨e, e', he, he', h.1 2 e 1 e' he hpprev he' (.inl ⟨0, ?_⟩) hfits⟩
  rw [Option.some.inj hbits]
  decide

end TrustSample

end PayDayCoin
