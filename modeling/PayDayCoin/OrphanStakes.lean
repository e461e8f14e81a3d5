import PayDayCoin.OrphanBlocks

/-!
# The stakes of the orphan blocks

`mapOrphanBlocks` and `mapOrphanBlocksByPrev` always hold the same orphans. `setStakeSeenOrphan` should hold the
stakes of those with proof of stake, but it counts a stake once, however many orphans have it: a block may come in
with the stake of an orphan when another orphan waits for it. When one of the two goes, the stake of the other is
forgotten. **`orphansConsistent_run`** says that this is the only way for the three to fall apart.
-/

namespace PayDayCoin

open Library.Checks Library.Runs Library.Worklist

namespace OrphanNode

variable [Crypto] {W : Type} [CWalletInterface W] (params : CChainParams)

omit [Crypto] [CWalletInterface W] in
/-- The orphan that a call of `PruneOrphanBlocks` drops, if any. -/
def prunedOrphan (st : OrphanNode W) (maxOrphanBlocks : ℤ) (rand : ℕ) : List COrphanBlock :=
  match pruned st.mapOrphanBlocksByPrev maxOrphanBlocks rand with
  | some (some it) => [it.2]
  | _ => []

/-- The orphans that an event drops. -/
def removed (st : OrphanNode W) : OrphanEvent → List COrphanBlock
  | .processBlock env b =>
    if reachesAccept params env st b then (processAccept params env st b).2.2.map Prod.snd
    else if reachesPrune params env st b then st.prunedOrphan env.maxOrphanBlocks env.rand
    else []
  | .pruneOrphanBlocks maxOrphanBlocks rand => st.prunedOrphan maxOrphanBlocks rand
  | .accept .. => []

/-- The block that an event keeps as an orphan, if any. -/
def added (st : OrphanNode W) : OrphanEvent → Option CBlock
  | .processBlock env b =>
    if !reachesAccept params env st b && reachesPrune params env st b &&
        (st.pruneOrphanBlocks env.maxOrphanBlocks env.rand).isSome then some b
    else none
  | _ => none

/-- Whether an event drops an orphan and keeps one with proof of stake that has the same stake. -/
def forgets (st : OrphanNode W) (event : OrphanEvent) : Bool :=
  st.mapOrphanBlocksByPrev.any fun e =>
    e.2.block.isProofOfStake && e.2 ∉ st.removed params event &&
      ((st.removed params event).any fun o => o.stake = e.2.stake) &&
      !(st.added params event).any fun b => b.isProofOfStake && b.getProofOfStake = e.2.stake

/-- The three collections agree. -/
structure OrphansConsistent (st : OrphanNode W) : Prop where
  /-- Each orphan has one entry under the hash of its parent. -/
  once : ∀ o, st.Stored o → st.mapOrphanBlocksByPrev.count (o.hashPrev, o) = 1
  /-- There are no other entries. -/
  noOther : ∀ e ∈ st.mapOrphanBlocksByPrev, e.1 = e.2.hashPrev ∧ st.Stored e.2
  /-- The stakes are those of the orphans with proof of stake. -/
  stakes : ∀ stake, stake ∈ st.setStakeSeenOrphan ↔
    ∃ o, st.Stored o ∧ o.block.isProofOfStake = true ∧ o.block.getProofOfStake = stake

variable {params} {g : CBlockIndex} {st : OrphanNode W}

omit [CWalletInterface W] in
theorem MapsOk.stake_eq (h : st.MapsOk) {o : COrphanBlock} (ho : st.Stored o) :
    o.stake = o.block.getProofOfStake := by
  obtain ⟨k, hk⟩ := ho
  exact congrArg COrphanBlock.stake (h.listed k o hk).1

omit [CWalletInterface W] in
theorem MapsOk.consistent (h : st.MapsOk)
    (hstakes : ∀ stake, stake ∈ st.setStakeSeenOrphan ↔
      ∃ o, st.Stored o ∧ o.block.isProofOfStake = true ∧ o.block.getProofOfStake = stake) : st.OrphansConsistent :=
  ⟨fun o ho => List.count_eq_one_of_mem h.nodup ((h.stored_iff o).1 ho),
    fun e he => ⟨(h.entry e he).1, _, (h.entry e he).2⟩, hstakes⟩

/-! ### Steps -/

omit [CWalletInterface W] in
theorem MapsOk.stored_drop_iff (h : st.MapsOk) {it : Uint256 × COrphanBlock} (hit : it ∈ st.mapOrphanBlocksByPrev)
    (o : COrphanBlock) : (st.drop it).Stored o ↔ st.Stored o ∧ o ≠ it.2 := by
  have hmap : ∀ k, (st.drop it).mapOrphanBlocks k = if k = it.2.hashBlock then none else st.mapOrphanBlocks k :=
    fun k => Function.update_apply ..
  constructor
  · rintro ⟨k, hk⟩
    rw [hmap] at hk
    obtain ⟨hne, hk⟩ := Option.ite_none_left_eq_some.1 hk
    refine ⟨⟨k, hk⟩, ?_⟩
    rintro rfl
    exact hne (h.listed k _ hk).2.1.symm
  · rintro ⟨ho, hne⟩
    refine ⟨o.hashBlock, ?_⟩
    rw [hmap, if_neg, h.stored_eq ho]
    intro heq
    have hmapit := (h.entry it hit).2
    rw [← heq, h.stored_eq ho] at hmapit
    exact hne (Option.some.inj hmapit)

omit [Crypto] [CWalletInterface W] in
theorem stored_keep_iff {o : COrphanBlock} (hnew : st.mapOrphanBlocks o.hashBlock = none) (o' : COrphanBlock) :
    (st.keep o).Stored o' ↔ st.Stored o' ∨ o' = o := by
  refine ⟨fun h => (stored_of_keep h).symm, ?_⟩
  have hmap : ∀ k, (st.keep o).mapOrphanBlocks k = if k = o.hashBlock then some o else st.mapOrphanBlocks k :=
    fun k => Function.update_apply ..
  rintro (⟨k, hk⟩ | rfl)
  · refine ⟨k, ?_⟩
    rw [hmap, if_neg, hk]
    rintro rfl
    rw [hnew] at hk
    cases hk
  · exact ⟨o'.hashBlock, by rw [hmap, if_pos rfl]⟩

omit [Crypto] [CWalletInterface W] in
theorem mem_keep_stakes (o : COrphanBlock) (stake : COutPoint × UInt32) : stake ∈ (st.keep o).setStakeSeenOrphan ↔
    stake ∈ st.setStakeSeenOrphan ∨ (o.block.isProofOfStake = true ∧ o.stake = stake) := by
  simp only [OrphanNode.keep]
  split
  · next hpos => simp [hpos, eq_comm, or_comm]
  · next hpos => simp [hpos]

/-- What an event does with the orphans and the stakes. -/
def Exchanged (st st' : OrphanNode W) (removed : List COrphanBlock) (added : Option CBlock) : Prop :=
  (∀ o ∈ removed, st.Stored o) ∧
    (∀ o, st'.Stored o ↔ (st.Stored o ∧ o ∉ removed) ∨ ∃ b, added = some b ∧ o = orphan b) ∧
    ∀ stake, stake ∈ st'.setStakeSeenOrphan ↔ (stake ∈ st.setStakeSeenOrphan ∧ ∀ o ∈ removed, o.stake ≠ stake) ∨
      ∃ b, added = some b ∧ b.isProofOfStake = true ∧ b.getProofOfStake = stake

omit [CWalletInterface W] in
theorem Exchanged.refl (st : OrphanNode W) : Exchanged st st [] none := by
  refine ⟨fun o ho => absurd ho List.not_mem_nil, fun o => ?_, fun stake => ?_⟩ <;> simp

omit [CWalletInterface W] in
theorem Exchanged.prune (h : st.MapsOk) (maxOrphanBlocks : ℤ) (rand : ℕ) :
    st.pruneOrphanBlocks maxOrphanBlocks rand = none ∧ st.prunedOrphan maxOrphanBlocks rand = [] ∨
      ∃ st₁, st.pruneOrphanBlocks maxOrphanBlocks rand = some st₁ ∧
        Exchanged st st₁ (st.prunedOrphan maxOrphanBlocks rand) none ∧
        (∀ k, st.mapOrphanBlocks k = none → st₁.mapOrphanBlocks k = none) := by
  simp only [prunedOrphan]
  rcases pruneOrphanBlocks_cases st maxOrphanBlocks rand with
    ⟨hpruned, hprune⟩ | ⟨hpruned, hprune⟩ | ⟨it, hit, hpruned, hprune⟩ <;> rw [hprune, hpruned]
  · exact .inr ⟨st, rfl, Exchanged.refl st, fun k hk => hk⟩
  · exact .inl ⟨rfl, rfl⟩
  · refine .inr ⟨st.drop it, rfl, ⟨fun o ho => ?_, fun o => ?_, fun stake => ?_⟩, fun k hk => ?_⟩
    · rw [List.mem_singleton.1 ho]
      exact ⟨_, (h.entry it hit).2⟩
    · rw [h.stored_drop_iff hit]
      simp
    · have hset : (st.drop it).setStakeSeenOrphan = st.setStakeSeenOrphan.erase it.2.stake := rfl
      rw [hset, Finset.mem_erase]
      simp only [List.mem_singleton, forall_eq, reduceCtorEq, false_and, exists_false, or_false]
      exact ⟨fun h => ⟨h.2, h.1.symm⟩, fun h => ⟨h.2.symm, h.1⟩⟩
    · have hmap : (st.drop it).mapOrphanBlocks k = if k = it.2.hashBlock then none else st.mapOrphanBlocks k :=
        Function.update_apply ..
      rw [hmap, hk, ite_self]

omit [CWalletInterface W] in
theorem Exchanged.keep {st₁ : OrphanNode W} {removed : List COrphanBlock} (h : Exchanged st st₁ removed none)
    {b : CBlock} (hnew : st₁.mapOrphanBlocks b.getHash = none) :
    Exchanged st (st₁.keep (orphan b)) removed (some b) := by
  obtain ⟨hremoved, hstored, hstakes⟩ := h
  refine ⟨hremoved, fun o => ?_, fun stake => ?_⟩
  · rw [stored_keep_iff (o := orphan b) hnew, hstored]
    simp
  · rw [mem_keep_stakes, hstakes]
    simp only [reduceCtorEq, false_and, exists_false, or_false, Option.some.injEq, exists_eq_left']
    rfl

/-- The loop over the queue drops the orphans it tries. -/
theorem Exchanged.queue (hmaps : st.MapsOk) (hfrom : st.toNode.IndexedFrom g) {hash : Uint256}
    (hhash : (st.mapBlockIndex hash).isSome) (env : ProcessEnv) :
    Exchanged st { (processQueue params env st hash).state with
      mapOrphanBlocksByPrev := (processQueue params env st hash).pool }
      ((processQueue params env st hash).visits.map Prod.snd) none := by
  obtain ⟨hdrained, hend, -⟩ := processQueue_spec params env hmaps hfrom hhash
  generalize processQueue params env st hash = d at hdrained hend ⊢
  have hpool : ∀ o ∈ d.visits.map Prod.snd, st.Stored o := by
    intro o ho
    obtain ⟨k, -, hmem⟩ := (hdrained.visited o).1 ho
    exact ⟨_, (hmaps.entry _ hmem).2⟩
  have hhashes : ∀ o, st.Stored o →
      (o.hashBlock ∈ (d.visits.map fun v => v.2.hashBlock) ↔ o ∈ d.visits.map Prod.snd) := by
    intro o ho
    simp only [List.mem_map]
    constructor
    · rintro ⟨v, hv, heq⟩
      have hmap := hmaps.stored_eq (hpool v.2 (List.mem_map_of_mem hv))
      rw [heq, hmaps.stored_eq ho] at hmap
      exact ⟨v, hv, (Option.some.inj hmap).symm⟩
    · rintro ⟨v, hv, rfl⟩
      exact ⟨v, hv, rfl⟩
  refine ⟨hpool, fun o => ?_, fun stake => ?_⟩
  · simp only [reduceCtorEq, false_and, exists_false, or_false]
    constructor
    · rintro ⟨k, hk⟩
      simp only [hend.orphans] at hk
      obtain ⟨hnot, hk⟩ := Option.ite_none_left_eq_some.1 hk
      refine ⟨⟨k, hk⟩, fun hmem => hnot ?_⟩
      rw [← (hmaps.listed k o hk).2.1]
      exact (hhashes o ⟨k, hk⟩).2 hmem
    · rintro ⟨ho, hnot⟩
      refine ⟨o.hashBlock, ?_⟩
      simp only [hend.orphans]
      rw [if_neg fun hmem => hnot ((hhashes o ho).1 hmem), hmaps.stored_eq ho]
  · simp only [hend.seen, reduceCtorEq, false_and, exists_false, or_false]
    refine and_congr_right fun _ => ?_
    simp only [List.mem_map, not_exists, not_and, forall_exists_index, and_imp]
    constructor
    · rintro h o v hv rfl
      rw [hmaps.stake_eq (hpool v.2 (List.mem_map_of_mem hv))]
      exact h v hv
    · intro h v hv
      rw [← hmaps.stake_eq (hpool v.2 (List.mem_map_of_mem hv))]
      exact h v.2 v hv rfl

/-- **What an event does with the orphans**: it drops those it tries or prunes, and keeps a block. -/
theorem exchanged_step (params : CChainParams) (hmaps : st.MapsOk) (hfrom : st.toNode.IndexedFrom g) (event : OrphanEvent) :
    Exchanged st (st.step params event) (st.removed params event) (st.added params event) := by
  cases event with
  | processBlock env b =>
    simp only [removed, added]
    rcases step_processBlock params st env b with
      ⟨hreach, -, horphan, -, hstep⟩ | ⟨hreach, hkeep, -, horphan, -, hstep⟩ | ⟨hreach, hkeep, hstep⟩ <;> rw [hstep]
    · rw [if_pos hreach, hreach]
      simp only [Bool.not_true, Bool.false_and, Bool.false_eq_true, ↓reduceIte]
      have hmaps₁ := hmaps.acceptBlock hfrom horphan params (env.accept b.getHash)
      have hfrom₁ := acceptBlock_indexedFrom hfrom params (env.accept b.getHash) b
      rcases processAccept_cases params env st b with ⟨e, -, hcase⟩ | ⟨r, hdone, hcase⟩ <;> rw [hcase]
      · exact Exchanged.refl st
      · exact Exchanged.queue hmaps₁ hfrom₁ ((acceptBlock_done hfrom hdone b.getHash).2 (.inl rfl)) env
    · rw [hreach, hkeep]
      simp only [Bool.false_eq_true, ↓reduceIte, Bool.not_false, Bool.true_and]
      rcases Exchanged.prune hmaps env.maxOrphanBlocks env.rand with ⟨hprune, hnone⟩ | ⟨st₁, hprune, hex, hnew⟩
      · rw [hprune, hnone]
        exact Exchanged.refl st
      · rw [hprune]
        exact hex.keep (hnew _ horphan)
    · rw [hreach, hkeep]
      exact Exchanged.refl st
  | pruneOrphanBlocks maxOrphanBlocks rand =>
    simp only [OrphanNode.step, removed, added]
    rcases Exchanged.prune hmaps maxOrphanBlocks rand with ⟨hprune, hnone⟩ | ⟨st₁, hprune, hex, -⟩ <;> rw [hprune]
    · rw [hnone]
      exact Exchanged.refl st
    · exact hex
  | accept env tx fLimitFree fRejectInsaneFee ignoreFees => exact Exchanged.refl st

theorem forgets_iff (hmaps : st.MapsOk) (event : OrphanEvent) : st.forgets params event = true ↔
    ∃ o, st.Stored o ∧ o.block.isProofOfStake = true ∧ o ∉ st.removed params event ∧
      (∃ o' ∈ st.removed params event, o'.stake = o.block.getProofOfStake) ∧
        ∀ b, st.added params event = some b → b.isProofOfStake = true → b.getProofOfStake ≠ o.block.getProofOfStake := by
  have hadded : ∀ stake, (!(st.added params event).any fun b => b.isProofOfStake && b.getProofOfStake = stake) = true ↔
      ∀ b, st.added params event = some b → b.isProofOfStake = true → b.getProofOfStake ≠ stake := by
    intro stake
    cases st.added params event with
    | none => simp
    | some b => by_cases hpos : b.isProofOfStake = true <;> simp [hpos]
  simp only [forgets, List.any_eq_true, Bool.and_eq_true, decide_eq_true_eq, hadded]
  constructor
  · rintro ⟨e, he, ⟨⟨hpos, hnot⟩, hshare⟩, hadd⟩
    have ho : st.Stored e.2 := ⟨_, (hmaps.entry e he).2⟩
    rw [hmaps.stake_eq ho] at hshare hadd
    exact ⟨e.2, ho, hpos, hnot, hshare, hadd⟩
  · rintro ⟨o, ho, hpos, hnot, hshare, hadd⟩
    rw [← hmaps.stake_eq ho] at hshare hadd
    exact ⟨_, (hmaps.stored_iff o).1 ho, ⟨⟨hpos, hnot⟩, hshare⟩, hadd⟩

/-- The stakes seen stay those of the orphans, unless an event forgets one. -/
theorem stakes_step (hmaps : st.MapsOk) (hfrom : st.toNode.IndexedFrom g)
    (hstakes : ∀ stake, stake ∈ st.setStakeSeenOrphan ↔
      ∃ o, st.Stored o ∧ o.block.isProofOfStake = true ∧ o.block.getProofOfStake = stake) (event : OrphanEvent) :
    (∀ stake, stake ∈ (st.step params event).setStakeSeenOrphan ↔
      ∃ o, (st.step params event).Stored o ∧ o.block.isProofOfStake = true ∧ o.block.getProofOfStake = stake) ↔
        st.forgets params event = false := by
  obtain ⟨hremoved, hstored, hset⟩ := exchanged_step params hmaps hfrom event
  rw [Bool.eq_false_iff, ne_eq, forgets_iff hmaps]
  simp only [hset, hstored]
  constructor
  · rintro h ⟨o, ho, hpos, hnot, ⟨o', ho', hshare⟩, hadd⟩
    rcases (h _).2 ⟨o, .inl ⟨ho, hnot⟩, hpos, rfl⟩ with ⟨-, hkept⟩ | ⟨b, hb, hbpos, hbstake⟩
    · exact hkept o' ho' hshare
    · exact hadd b hb hbpos hbstake
  · intro hnot stake
    constructor
    · rintro (⟨hmem, hkept⟩ | ⟨b, hb, hpos, hstake⟩)
      · obtain ⟨o, ho, hpos, rfl⟩ := (hstakes stake).1 hmem
        exact ⟨o, .inl ⟨ho, fun hr => hkept o hr (hmaps.stake_eq ho)⟩, hpos, rfl⟩
      · exact ⟨orphan b, .inr ⟨b, hb, rfl⟩, hpos, hstake⟩
    · rintro ⟨o, ⟨ho, hr⟩ | ⟨b, hb, rfl⟩, hpos, rfl⟩
      · -- another orphan with this stake goes only when a block with it comes
        by_cases hshare : ∃ o' ∈ st.removed params event, o'.stake = o.block.getProofOfStake
        · right
          by_contra hadd
          exact hnot ⟨o, ho, hpos, hr, hshare, fun b hb hbpos hbstake => hadd ⟨b, hb, hbpos, hbstake⟩⟩
        · left
          exact ⟨(hstakes _).2 ⟨o, ho, hpos, rfl⟩, fun o' ho' hstake => hshare ⟨o', ho', hstake⟩⟩
      · exact .inr ⟨b, hb, hpos, rfl⟩

/-- **When the three collections agree**: along a run they always do exactly when no event drops an orphan while one
with proof of stake that has the same stake is kept. -/
theorem orphansConsistent_run (params : CChainParams) (g : CBlockIndex) (wallets : W) (events : List OrphanEvent) :
    (∀ n, ((genesis g wallets).run params (events.take n)).OrphansConsistent) ↔
      Along (step params) (fun st event => st.forgets params event = false) (genesis g wallets) events := by
  refine forall_take_iff_along (I := fun st : OrphanNode W => (st.MapsOk ∧ st.toNode.IndexedFrom g) ∧
      st.OrphansConsistent) (fun st h => h.2) (fun st event hP h => ?_) (fun st event hP h hQ => ?_) ?_
  · have hmaps : (OrphanNode.step params st event).MapsOk ∧ (OrphanNode.step params st event).toNode.IndexedFrom g :=
      h.1.1.step h.1.2 event
    exact ⟨hmaps, hmaps.1.consistent ((stakes_step h.1.1 h.1.2 h.2.stakes event).2 hP)⟩
  · exact hP ((stakes_step h.1.1 h.1.2 h.2.stakes event).1 hQ.stakes)
  · have hmaps := MapsOk.genesis g wallets
    refine ⟨⟨hmaps, ⟨rfl, IndexOk.genesis g⟩⟩, hmaps.consistent fun stake => ?_⟩
    refine iff_of_false (Finset.notMem_empty _) ?_
    rintro ⟨o, ⟨k, hk⟩, -⟩
    cases hk

end OrphanNode

namespace Sample

/-- A coinstake that stakes an output. -/
def coinstake : CTransaction where
  nTime := time 4
  vin := [⟨⟨7, 0⟩, [], 0xffffffff⟩]
  vout := [⟨0, []⟩, ⟨COIN, [0x51]⟩]

/-- A block with this coinstake on top of another. -/
def stakeOn (prev : CBlock) : CBlock :=
  { block prev 4 [{ coinbase 4 1 with vout := [⟨0, []⟩] }, coinstake] with
    vchBlockSig := [0x30, 7, 2, 1, 1, 2, 2, 1, 1] }

/-- Two blocks stake one output, and a block waits for the second of them. -/
def s₃ : CBlock := stakeOn b₃
def t₃ : CBlock := stakeOn c₃
def t₄ : CBlock := block t₃ 5 [coinbase 5 1]

/-- The parents of the two blocks never come, and `s₃` is dropped to make room. -/
def stakeEvents : List OrphanEvent :=
  [.processBlock (processEnv 1000) s₃, .processBlock (processEnv 1000) t₄, .processBlock (processEnv 1000) t₃,
    .pruneOrphanBlocks 2 2]

/-- The node after the first of these events. -/
def stakeNode (n : ℕ) : OrphanNode Unit :=
  (OrphanNode.genesis genesis ()).run CChainParams.test (stakeEvents.take n)

/-- **A stake is forgotten**: when `s₃` goes, so does the stake of `t₃`, which stays. -/
theorem stakeEvents_forgotten : ¬∀ n, (stakeNode n).OrphansConsistent := by
  intro h
  have hstored : (stakeNode 4).mapOrphanBlocks t₃.getHash = some (OrphanNode.orphan t₃) := by decide +kernel
  have hseen : t₃.getProofOfStake ∉ (stakeNode 4).setStakeSeenOrphan := by decide +kernel
  have hpos : t₃.isProofOfStake = true := by decide
  have hstakes := (h 4).stakes t₃.getProofOfStake
  have hkept : (stakeNode 4).Stored (OrphanNode.orphan t₃) := Exists.intro t₃.getHash hstored
  rw [hstakes] at hseen
  exact hseen ⟨OrphanNode.orphan t₃, hkept, hpos, rfl⟩

end Sample

end PayDayCoin
