import PayDayCoin.CountedVotes

/-!
# What a complete lock stands for

A lock is complete when `CTransactionLock::CountSignatures`, which counts the votes of the
lock's height, reaches `INSTANTX_SIGNATURES_REQUIRED`. **`countSignatures_distinct`** says
that the votes counted come from as many different masternodes, that each of these ranked
high enough at that height when its vote came, and that each signed the transaction and
the height. The lock's height may be set by a request after the votes have come; only the
votes of that height count.
-/

namespace PayDayCoin

open Library.Runs

/-! ### The votes of a lock -/

/-- The votes of a lock are for its transaction, good, and of different hashes. -/
structure InstantX.VotesGood (Good : CConsensusVote → Prop) (st : InstantX) : Prop where
  own : ∀ h, ∀ ctx ∈ st.votesOf h, ctx.txHash = h
  good : ∀ h, ∀ ctx ∈ st.votesOf h, Good ctx
  nodup : ∀ h, ((st.votesOf h).map CConsensusVote.getHash).Nodup

section Step

variable {Good : CConsensusVote → Prop} {st st' : InstantX} {now : ℤ} {k : Uint256}

theorem InstantX.VotesGood.mono (hst : st.VotesGood Good)
    (hvotes : ∀ k, st'.votesOf k = st.votesOf k ∨ st'.votesOf k = []) : st'.VotesGood Good := by
  constructor
  · intro h ctx hmem
    rcases hvotes h with heq | heq <;> rw [heq] at hmem
    · exact hst.own h ctx hmem
    · cases hmem
  · intro h ctx hmem
    rcases hvotes h with heq | heq <;> rw [heq] at hmem
    · exact hst.good h ctx hmem
    · cases hmem
  · intro h
    rcases hvotes h with heq | heq <;> rw [heq]
    · exact hst.nodup h
    · exact List.nodup_nil

/-- Cleaning up leaves the votes of a lock, or removes the lock. -/
theorem votesOf_clean :
    (cleanTransactionLocksList now st).votesOf k = st.votesOf k ∨ (cleanTransactionLocksList now st).votesOf k = [] := by
  unfold cleanTransactionLocksList
  refine List.foldlRecOn (motive := fun s : InstantX => s.votesOf k = st.votesOf k ∨ s.votesOf k = []) _ _
    (.inl rfl) fun s hs it _ => ?_
  rw [votesOf_cleanLock]
  split
  · exact .inr rfl
  · exact hs

variable [Crypto] {params : CChainParams} {event : InstantXEvent}

/-- **A step that counts a vote adds it to the votes of its transaction's lock**, and no
other step adds one. -/
theorem votesOf_step (params : CChainParams) (event : InstantXEvent) (st : InstantX) (k : Uint256) :
    (st.step params event).votesOf k = st.votesOf k ∨ (st.step params event).votesOf k = [] ∨
      ∃ ctx, st.counted event = some ctx ∧ k = ctx.txHash ∧
        (st.step params event).votesOf k = st.votesOf k ++ [ctx] := by
  cases event with
  | txlreq env tx => exact .inl votesOf_txlreq
  | txlvote env ctx =>
    cases hcounted : acceptsVote env ctx st && validVote env ctx with
    | false =>
      refine .inl (votesOf_congr ?_)
      rw [InstantX.step, toTxLocks_txlvote, hcounted, if_neg Bool.false_ne_true]
    | true =>
      have hvalid := (Bool.and_eq_true_iff.1 hcounted).2
      have hvotes : (txlvote env ctx st).votesOf k =
          if k = ctx.txHash then st.votesOf ctx.txHash ++ [ctx] else st.votesOf k := by
        rw [toTxLocks_txlvote, hcounted, if_pos rfl, votesOf_processConsensusVote hvalid]
      by_cases hk : k = ctx.txHash
      · subst hk
        rw [if_pos rfl] at hvotes
        exact .inr (.inr ⟨ctx, if_pos hcounted, rfl, hvotes⟩)
      · rw [if_neg hk] at hvotes
        exact .inl hvotes
  | relay env tx => exact .inl (votesOf_createNewLock.trans (votesOf_congr rfl))
  | block b => exact .inl rfl
  | clean now => exact votesOf_clean.imp_right .inl

omit [Crypto] in
/-- A vote that is counted was not recorded before. -/
theorem not_recorded_of_counted {ctx : CConsensusVote} (h : st.counted event = some ctx) :
    st.mapTxLockVote ctx.getHash = none := by
  by_contra hne
  exact counted_ne_of_recorded (Option.isSome_iff_ne_none.2 hne) rfl h

/-- Each step keeps the votes good, when those that it counts are. -/
theorem InstantX.VotesGood.step (hst : st.VotesGood Good) (hrec : st.VotesRecorded)
    (hgood : ∀ ctx, st.counted event = some ctx → Good ctx) : (st.step params event).VotesGood Good := by
  have hcases : ∀ h, ∀ ctx ∈ (st.step params event).votesOf h,
      ctx ∈ st.votesOf h ∨ st.counted event = some ctx ∧ h = ctx.txHash := by
    intro h ctx hmem
    rcases votesOf_step params event st h with heq | heq | ⟨ctx', hc, hh, heq⟩ <;>
      rw [heq] at hmem
    · exact .inl hmem
    · cases hmem
    · rcases List.mem_append.1 hmem with hmem | hmem
      · exact .inl hmem
      · obtain rfl := List.mem_singleton.1 hmem
        exact .inr ⟨hc, hh⟩
  constructor
  · intro h ctx hmem
    rcases hcases h ctx hmem with hmem | ⟨-, hh⟩
    · exact hst.own h ctx hmem
    · exact hh.symm
  · intro h ctx hmem
    rcases hcases h ctx hmem with hmem | ⟨hc, -⟩
    · exact hst.good h ctx hmem
    · exact hgood ctx hc
  · intro h
    rcases votesOf_step params event st h with heq | heq | ⟨ctx, hc, -, heq⟩ <;>
      rw [heq]
    · exact hst.nodup h
    · exact List.nodup_nil
    · rw [List.map_append, List.nodup_append]
      refine ⟨hst.nodup h, List.nodup_singleton _, ?_⟩
      rintro hash hmem hash' hmem' rfl
      -- the hash of a vote that is counted is new, and those of the other votes are recorded
      obtain ⟨ctx', hmem₁, heq₁⟩ := List.mem_map.1 hmem
      have hsome := hrec.recorded h ctx' hmem₁
      rw [heq₁, List.mem_singleton.1 hmem', not_recorded_of_counted hc] at hsome
      cases hsome

end Step

/-! ### Complete locks -/

/-- The masternode ranks among the first `INSTANTX_SIGNATURES_TOTAL` at a height. -/
def RankedWithin (env : InstantXEnv) (vin : CTxIn) (nBlockHeight : ℤ) : Prop :=
  env.getMasternodeRank vin nBlockHeight ≠ -1 ∧ env.getMasternodeRank vin nBlockHeight ≤ INSTANTX_SIGNATURES_TOTAL

/-- The signature is the masternode's, of a transaction and a height. -/
def SignedBy (env : InstantXEnv) (vin : CTxIn) (signature : List UInt8) (txHash : Uint256) (nBlockHeight : ℤ) : Prop :=
  ∃ pubkey2, env.findMasternode vin = some pubkey2 ∧ env.verifyMessage pubkey2 signature txHash nBlockHeight = true

/-- What the validation of a vote establishes. -/
theorem ranked_and_signed {env : InstantXEnv} {ctx : CConsensusVote} (h : validVote env ctx = true) :
    RankedWithin env ctx.vinMasternode ctx.nBlockHeight ∧
      SignedBy env ctx.vinMasternode ctx.vchMasterNodeSignature ctx.txHash ctx.nBlockHeight := by
  simp only [validVote, Bool.and_eq_true, bne_iff_ne, decide_eq_true_eq, CConsensusVote.signatureValid] at h
  obtain ⟨hrank, hsigned⟩ := h
  refine ⟨hrank, ?_⟩
  cases hfind : env.findMasternode ctx.vinMasternode with
  | none =>
    rw [hfind] at hsigned
    cases hsigned
  | some pubkey2 =>
    rw [hfind] at hsigned
    exact ⟨pubkey2, hfind, hsigned⟩

/-- Votes of different hashes for one transaction are of different masternodes. -/
theorem nodup_prevout {votes : List CConsensusVote} {h : Uint256} (hown : ∀ ctx ∈ votes, ctx.txHash = h)
    (hnodup : (votes.map CConsensusVote.getHash).Nodup) :
    (votes.map fun ctx => ctx.vinMasternode.prevout).Nodup := by
  refine List.Nodup.of_map
    (fun prevout : COutPoint => prevout.hash + BitVec.ofNat 256 prevout.n.toNat + h) ?_
  have heq : (votes.map fun ctx => ctx.vinMasternode.prevout).map
      (fun prevout => prevout.hash + BitVec.ofNat 256 prevout.n.toNat + h) = votes.map CConsensusVote.getHash := by
    rw [List.map_map]
    refine List.map_congr_left fun ctx hmem => ?_
    rw [CConsensusVote.getHash, hown ctx hmem]
    rfl
  rw [heq]
  exact hnodup

/-- **A complete lock has the votes of enough different masternodes**, each of which ranked
high enough at the lock's height when its vote came, and signed the transaction and that
height. -/
theorem countSignatures_distinct [Crypto] (params : CChainParams) (events : List InstantXEvent) (h : Uint256)
    (lock : CTransactionLock) (hlock : (InstantX.run params {} events).mapTxLocks.lookup h = some lock)
    (hcount : INSTANTX_SIGNATURES_REQUIRED ≤ lock.countSignatures) :
    ∃ votes : List CConsensusVote, votes.Sublist lock.vecConsensusVotes ∧
      INSTANTX_SIGNATURES_REQUIRED ≤ votes.length ∧ (votes.map fun ctx => ctx.vinMasternode.prevout).Nodup ∧
      ∀ ctx ∈ votes, ∃ env, .txlvote env ctx ∈ events ∧ RankedWithin env ctx.vinMasternode lock.nBlockHeight ∧
        SignedBy env ctx.vinMasternode ctx.vchMasterNodeSignature h lock.nBlockHeight := by
  obtain ⟨-, hgood⟩ : (InstantX.run params {} events).VotesRecorded ∧
      (InstantX.run params {} events).VotesGood fun ctx => ∃ env, .txlvote env ctx ∈ events ∧ validVote env ctx = true := by
    refine run_induct (I := fun st : InstantX => st.VotesRecorded ∧
      st.VotesGood fun ctx => ∃ env, .txlvote env ctx ∈ events ∧ validVote env ctx = true)
      (fun event hmem st hst => ⟨hst.1.step, hst.2.step hst.1 fun ctx hcounted => ?_⟩)
      ⟨votesRecorded_empty, ⟨fun _ _ hmem => (by cases hmem), fun _ _ hmem => (by cases hmem), fun _ => List.nodup_nil⟩⟩
    cases event with
    | txlvote env ctx' =>
      obtain ⟨hc, heq⟩ := Option.ite_none_right_eq_some.1 hcounted
      obtain rfl := Option.some.inj heq
      exact ⟨env, hmem, (Bool.and_eq_true_iff.1 hc).2⟩
    | txlreq | relay | block | clean => cases hcounted
  have hvotes : (InstantX.run params {} events).votesOf h = lock.vecConsensusVotes := by
    rw [TxLocks.votesOf, hlock]
    rfl
  -- the votes counted are those of the lock's height
  let votes := lock.vecConsensusVotes.filter fun ctx => ctx.nBlockHeight = lock.nBlockHeight
  have hsub : votes.Sublist lock.vecConsensusVotes := List.filter_sublist
  have hown : ∀ ctx ∈ votes, ctx.txHash = h := fun ctx hmem => hgood.own h ctx (hvotes ▸ hsub.subset hmem)
  refine ⟨votes, hsub, ?_, nodup_prevout hown ?_, fun ctx hmem => ?_⟩
  · rw [CTransactionLock.countSignatures] at hcount
    split at hcount
    · exact absurd hcount (by decide)
    · rwa [List.countP_eq_length_filter] at hcount
  · have hnodup := hgood.nodup h
    rw [hvotes] at hnodup
    exact hnodup.sublist (hsub.map _)
  · obtain ⟨env, hevent, hvalid⟩ := hgood.good h ctx (hvotes ▸ hsub.subset hmem)
    have hheight : ctx.nBlockHeight = lock.nBlockHeight := by simpa using (List.mem_filter.1 hmem).2
    obtain ⟨hrank, hsigned⟩ := ranked_and_signed hvalid
    rw [hheight] at hrank hsigned
    rw [hown ctx hmem] at hsigned
    exact ⟨env, hevent, hrank, hsigned⟩

namespace Sample

/-- The lock of the sample is complete, with the votes of ten masternodes. -/
theorem request_votes_distinct : ∃ lock, (InstantX.run CChainParams.test {} lockEvents).mapTxLocks.lookup
    request.getHash = some lock ∧ ∃ votes : List CConsensusVote, votes.Sublist lock.vecConsensusVotes ∧
      INSTANTX_SIGNATURES_REQUIRED ≤ votes.length ∧ (votes.map fun ctx => ctx.vinMasternode.prevout).Nodup := by
  have hsome : ((InstantX.run CChainParams.test {} lockEvents).mapTxLocks.lookup request.getHash).any
      (fun lock => INSTANTX_SIGNATURES_REQUIRED ≤ lock.countSignatures) = true := by decide +kernel
  obtain ⟨lock, hlock, hcount⟩ := (Option.any_eq_true _ _).1 hsome
  obtain ⟨votes, hsub, hlen, hnodup, -⟩ := countSignatures_distinct CChainParams.test lockEvents request.getHash lock
    hlock (by simpa using hcount)
  exact ⟨lock, hlock, votes, hsub, hlen, hnodup⟩

end Sample

end PayDayCoin
