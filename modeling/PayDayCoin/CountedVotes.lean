import PayDayCoin.LockedInputs

/-!
# Which votes are counted

`txlvote` records a vote in `mapTxLockVote` before it validates it, under a hash that has
neither the signature nor the height in it, and drops a vote whose hash is recorded. So a
vote that fails the validation can keep a good one of the same masternode, for the same
transaction, from being counted. **`invalidVote_iff`** compares the run with an invalid vote
to the one without: they agree exactly if the vote is dropped itself, or the node gets no
good vote of its hash until it has recorded another. In `Sample.forgedVote_blocks` a vote
without a signature keeps a lock from being completed.
-/

namespace PayDayCoin

open Library.Runs

/-! ### The votes of the locks -/

/-- The votes of the lock for a transaction. -/
def TxLocks.votesOf (locks : TxLocks) (h : Uint256) : List CConsensusVote :=
  ((locks.mapTxLocks.lookup h).map CTransactionLock.vecConsensusVotes).getD []

section Votes

variable {env : InstantXEnv} {locks locks' : TxLocks} {h k : Uint256} {tx : CTransaction} {ctx : CConsensusVote}

theorem votesOf_congr (h' : locks'.mapTxLocks = locks.mapTxLocks) : locks'.votesOf k = locks.votesOf k := by
  rw [TxLocks.votesOf, TxLocks.votesOf, h']

theorem votesOf_insert (lock : CTransactionLock) :
    { locks with mapTxLocks := locks.mapTxLocks.insert h lock }.votesOf k =
      if k = h then lock.vecConsensusVotes else locks.votesOf k := by
  by_cases hk : k = h
  · subst hk
    simp [TxLocks.votesOf]
  · simp [TxLocks.votesOf, hk]

/-- The votes do not depend on when the lock expires. -/
theorem votesOf_of_ballot (h' : locks'.ballot k = locks.ballot k) : locks'.votesOf k = locks.votesOf k := by
  have heq : ∀ locks : TxLocks, locks.votesOf k =
      ((locks.ballot k).map CTransactionLock.vecConsensusVotes).getD [] := fun locks => by
    rw [TxLocks.votesOf, TxLocks.ballot]
    cases locks.mapTxLocks.lookup k <;> rfl
  rw [heq, heq, h']

variable [Crypto]

/-- A vote that is valid is added to the lock for its transaction. -/
theorem votesOf_processConsensusVote (hvalid : validVote env ctx = true) :
    (processConsensusVote env ctx locks).votesOf k =
      if k = ctx.txHash then locks.votesOf ctx.txHash ++ [ctx] else locks.votesOf k := by
  have hlock : (((locks.mapTxLocks.lookup ctx.txHash).getD (newLock env ctx.txHash 0)).addSignature ctx).vecConsensusVotes =
      locks.votesOf ctx.txHash ++ [ctx] := by
    rw [TxLocks.votesOf, CTransactionLock.addSignature]
    cases locks.mapTxLocks.lookup ctx.txHash <;> rfl
  simp only [processConsensusVote, if_pos hvalid]
  split
  · rw [votesOf_of_ballot ballot_completeLock, votesOf_insert, hlock]
  · rw [votesOf_insert, hlock]

theorem votesOf_createNewLock : (createNewLock env tx locks).1.votesOf k = locks.votesOf k := by
  unfold createNewLock
  split
  · rfl
  · simp only
    rw [votesOf_insert]
    by_cases hk : k = tx.getHash
    · subst hk
      rw [if_pos rfl, TxLocks.votesOf]
      cases locks.mapTxLocks.lookup tx.getHash <;> rfl
    · rw [if_neg hk]

end Votes

/-! ### The votes recorded -/

section Recorded

variable {env : InstantXEnv} {st st' : InstantX} {h k : Uint256} {tx : CTransaction} {ctx : CConsensusVote}
  {now : ℤ} {it : LockEntry} {votes : List CConsensusVote} {m m' : Uint256 → Option CConsensusVote}

theorem isSome_update : (Function.update m h (some ctx) k).isSome = (decide (k = h) || (m k).isSome) := by
  by_cases hk : k = h
  · subst hk
    simp
  · simp [hk]

theorem eraseVotes_of_ne (hne : ∀ ctx ∈ votes, ctx.getHash ≠ k) : eraseVotes votes m k = m k := by
  unfold eraseVotes
  induction votes generalizing m with
  | nil => rfl
  | cons ctx votes ih =>
    rw [List.foldl_cons, ih fun ctx' hmem => hne ctx' (List.mem_cons_of_mem _ hmem),
      Function.update_of_ne (hne ctx List.mem_cons_self).symm]

theorem isSome_eraseVotes (hm : (m k).isSome = (m' k).isSome) :
    (eraseVotes votes m k).isSome = (eraseVotes votes m' k).isSome := by
  unfold eraseVotes
  induction votes generalizing m m' with
  | nil => exact hm
  | cons ctx votes ih =>
    refine ih ?_
    by_cases hk : k = ctx.getHash
    · subst hk
      simp
    · simpa [hk] using hm

theorem votesToClean_subset : st.votesToClean now it ⊆ it.2.vecConsensusVotes := by
  unfold TxLocks.votesToClean
  split
  · exact List.Subset.refl _
  · exact List.nil_subset _

theorem votesToClean_of_not_expired (h : ¬it.2.nExpiration < now) : st.votesToClean now it = [] := by
  rw [TxLocks.votesToClean, if_neg fun hexp => h hexp.1]

/-- A lock that has expired goes. -/
theorem lookup_cleanLock : (st.cleanLock now it).mapTxLocks.lookup k =
    if it.2.nExpiration < now ∧ k = it.1 then none else st.mapTxLocks.lookup k := by
  by_cases hexp : it.2.nExpiration < now
  · have hlocks : (st.cleanLock now it).mapTxLocks = st.mapTxLocks.erase it.1 := by
      simp only [InstantX.cleanLock, TxLocks.cleanLock, if_pos hexp]
      split <;> rfl
    rw [hlocks]
    by_cases hk : k = it.1
    · rw [if_pos ⟨hexp, hk⟩, hk, AList.lookup_erase]
    · rw [if_neg fun h => hk h.2, AList.lookup_erase_ne hk]
  · rw [if_neg fun h => hexp h.1]
    simp only [InstantX.cleanLock, TxLocks.cleanLock, if_neg hexp]

/-- And with it its votes. -/
theorem votesOf_cleanLock :
    (st.cleanLock now it).votesOf k = if it.2.nExpiration < now ∧ k = it.1 then [] else st.votesOf k := by
  rw [TxLocks.votesOf, lookup_cleanLock]
  split <;> rfl

theorem vecConsensusVotes_eq_votesOf (hmem : it ∈ st.mapTxLocks.entries) :
    it.2.vecConsensusVotes = st.votesOf it.1 := by
  have hlookup : st.mapTxLocks.lookup it.1 = some it.2 := AList.mem_lookup_iff.2 hmem
  rw [TxLocks.votesOf, hlookup]
  rfl

/-- The votes of the locks are recorded, and those of different locks have different
hashes. -/
structure InstantX.VotesRecorded (st : InstantX) : Prop where
  recorded : ∀ h, ∀ ctx ∈ st.votesOf h, (st.mapTxLockVote ctx.getHash).isSome = true
  apart : ∀ h h', h ≠ h' → ∀ ctx ∈ st.votesOf h, ∀ ctx' ∈ st.votesOf h', ctx.getHash ≠ ctx'.getHash

theorem InstantX.VotesRecorded.mono (hst : st.VotesRecorded) (hvotes : ∀ k, st'.votesOf k = st.votesOf k)
    (hrec : ∀ k, (st.mapTxLockVote k).isSome = true → (st'.mapTxLockVote k).isSome = true) : st'.VotesRecorded where
  recorded h ctx hmem := hrec _ (hst.recorded h ctx (hvotes h ▸ hmem))
  apart h h' hne ctx hmem ctx' hmem' := hst.apart h h' hne ctx (hvotes h ▸ hmem) ctx' (hvotes h' ▸ hmem')

/-- Cleaning up erases the votes of a lock together with the lock. -/
theorem InstantX.VotesRecorded.clean (hst : st.VotesRecorded) : (cleanTransactionLocksList now st).VotesRecorded := by
  have hall : (∀ k, (cleanTransactionLocksList now st).votesOf k ⊆ st.votesOf k) ∧
      ∀ k, ∀ ctx ∈ (cleanTransactionLocksList now st).votesOf k,
        ((cleanTransactionLocksList now st).mapTxLockVote ctx.getHash).isSome = true := by
    unfold cleanTransactionLocksList
    refine List.foldlRecOn (motive := fun s : InstantX => (∀ k, s.votesOf k ⊆ st.votesOf k) ∧
      ∀ k, ∀ ctx ∈ s.votesOf k, (s.mapTxLockVote ctx.getHash).isSome = true) _ _
      ⟨fun k => List.Subset.refl _, hst.recorded⟩ fun s hs it hit => ⟨fun k => ?_, fun k ctx hmem => ?_⟩
    · rw [votesOf_cleanLock]
      split
      · exact List.nil_subset _
      · exact hs.1 k
    · rw [votesOf_cleanLock] at hmem
      split at hmem
      · cases hmem
      · rename_i hkept
        refine (congrArg Option.isSome (eraseVotes_of_ne fun ctx' hmem' => ?_)).trans (hs.2 k ctx hmem)
        by_cases hexp : it.2.nExpiration < now
        · have hk : k ≠ it.1 := fun hk => hkept ⟨hexp, hk⟩
          have hvotes : ctx' ∈ st.votesOf it.1 := vecConsensusVotes_eq_votesOf hit ▸ votesToClean_subset hmem'
          exact (hst.apart k it.1 hk ctx (hs.1 k hmem) ctx' hvotes).symm
        · rw [votesToClean_of_not_expired hexp] at hmem'
          cases hmem'
  exact ⟨hall.2, fun h h' hne ctx hmem ctx' hmem' => hst.apart h h' hne ctx (hall.1 h hmem) ctx' (hall.1 h' hmem')⟩

end Recorded

/-! ### One step -/

section Step

variable [Crypto] {params : CChainParams} {env : InstantXEnv} {st s t : InstantX} {event : InstantXEvent}
  {tx : CTransaction} {ctx : CConsensusVote} {k : Uint256} {D : Uint256 → Prop}

/-- The vote that an event counts. -/
def InstantX.counted (st : InstantX) : InstantXEvent → Option CConsensusVote
  | .txlvote env ctx => if acceptsVote env ctx st && validVote env ctx then some ctx else none
  | _ => none

/-- A vote changes the locks only if it is counted. -/
theorem toTxLocks_txlvote : (txlvote env ctx st).toTxLocks =
    if acceptsVote env ctx st && validVote env ctx then processConsensusVote env ctx st.toTxLocks
    else st.toTxLocks := by
  unfold txlvote
  cases haccepts : acceptsVote env ctx st with
  | false => rfl
  | true =>
    cases hvalid : validVote env ctx with
    | true => rfl
    | false =>
      simp only [if_true, Bool.and_false, if_neg Bool.false_ne_true]
      rw [processConsensusVote, if_neg (by simp [hvalid])]

/-- After a vote its hash is recorded. -/
theorem isSome_txlvote : ((txlvote env ctx st).mapTxLockVote k).isSome =
    (env.enabled && decide (k = ctx.getHash) || (st.mapTxLockVote k).isSome) := by
  unfold txlvote acceptsVote
  cases henabled : env.enabled with
  | false => simp
  | true =>
    cases hrec : st.mapTxLockVote ctx.getHash with
    | none => simp [isSome_update]
    | some ctx' =>
      by_cases hk : k = ctx.getHash
      · simp [hk, hrec]
      · simp [hk]

omit [Crypto] in
theorem isSome_doConsensusVote [Crypto] {nBlockHeight : ℤ} {m m' : Uint256 → Option CConsensusVote}
    (hm : (m k).isSome = (m' k).isSome) :
    (doConsensusVote env tx nBlockHeight m k).isSome = (doConsensusVote env tx nBlockHeight m' k).isSome := by
  unfold doConsensusVote
  cases ownVote env tx nBlockHeight with
  | none => exact hm
  | some ctx => simp only [isSome_update, hm]

theorem votesOf_txlreq : (txlreq params env tx st).votesOf k = st.votesOf k := by
  rcases txlreq_cases params env tx st with ⟨-, heq⟩ | ⟨-, ⟨pool, -, heq⟩ | ⟨e, -, heq⟩⟩
  · rw [heq]
  · rw [heq]
    exact (votesOf_congr rfl).trans votesOf_createNewLock
  · rw [heq]
    split
    · exact (votesOf_of_ballot ballot_rejectRequest).trans votesOf_createNewLock
    · exact votesOf_createNewLock

theorem recorded_txlreq (hk : (st.mapTxLockVote k).isSome = true) :
    ((txlreq params env tx st).mapTxLockVote k).isSome = true := by
  unfold txlreq
  by_cases hreq : acceptsRequest env tx st.toTxLocks = true
  · simp only [if_pos hreq]
    split
    · simp only [doConsensusVote]
      cases ownVote env tx _ with
      | none => exact hk
      | some ctx => simp [isSome_update, hk]
    · exact hk
  · rwa [if_neg hreq]

/-- **Each step keeps the votes of the locks recorded.** -/
theorem InstantX.VotesRecorded.step (hst : st.VotesRecorded) : (st.step params event).VotesRecorded := by
  cases event with
  | txlreq env tx => exact hst.mono (fun k => votesOf_txlreq) fun k => recorded_txlreq
  | txlvote env ctx =>
    have hrec : ∀ k, (st.mapTxLockVote k).isSome = true → ((txlvote env ctx st).mapTxLockVote k).isSome = true :=
      fun k hk => by rw [isSome_txlvote, hk, Bool.or_true]
    cases hcounted : acceptsVote env ctx st && validVote env ctx with
    | false =>
      refine hst.mono (fun k => votesOf_congr ?_) hrec
      rw [InstantX.step, toTxLocks_txlvote, hcounted, if_neg Bool.false_ne_true]
    | true =>
      obtain ⟨haccepts, hvalid⟩ := Bool.and_eq_true_iff.1 hcounted
      obtain ⟨henabled, hnone⟩ := Bool.and_eq_true_iff.1 haccepts
      have hvotes : ∀ k, (txlvote env ctx st).votesOf k =
          if k = ctx.txHash then st.votesOf ctx.txHash ++ [ctx] else st.votesOf k := fun k => by
        rw [toTxLocks_txlvote, hcounted, if_pos rfl, votesOf_processConsensusVote hvalid]
      -- the votes of the other locks are recorded, and this one was not
      have hnew : ∀ h, ∀ ctx' ∈ st.votesOf h, ctx.getHash ≠ ctx'.getHash := by
        intro h ctx' hmem heq
        have hsome := hst.recorded h ctx' hmem
        rw [← heq, Option.eq_none_of_isNone hnone] at hsome
        cases hsome
      have hcases : ∀ h, ∀ ctx' ∈ (txlvote env ctx st).votesOf h, ctx' ∈ st.votesOf h ∨ h = ctx.txHash ∧ ctx' = ctx := by
        intro h ctx' hmem
        rw [hvotes] at hmem
        split at hmem
        · rename_i hh
          subst hh
          rcases List.mem_append.1 hmem with hmem | hmem
          · exact .inl hmem
          · exact .inr ⟨rfl, List.mem_singleton.1 hmem⟩
        · exact .inl hmem
      constructor
      · intro h ctx' hmem
        rcases hcases h ctx' hmem with hmem | ⟨-, rfl⟩
        · exact hrec _ (hst.recorded h ctx' hmem)
        · rw [InstantX.step, isSome_txlvote, henabled]
          simp
      · intro h h' hne ctx₁ hmem₁ ctx₂ hmem₂
        rcases hcases h ctx₁ hmem₁ with hold₁ | ⟨hh, rfl⟩ <;> rcases hcases h' ctx₂ hmem₂ with hold₂ | ⟨hh', rfl⟩
        · exact hst.apart h h' hne ctx₁ hold₁ ctx₂ hold₂
        · exact (hnew h ctx₁ hold₁).symm
        · exact hnew h' ctx₂ hold₂
        · exact absurd (hh.trans hh'.symm) hne
  | relay env tx => exact hst.mono (fun k => votesOf_createNewLock.trans (votesOf_congr rfl)) fun k hk => hk
  | block b => exact hst
  | clean now => exact hst.clean

end Step

/-! ### Two states -/

section TwoStates

variable [Crypto] {params : CChainParams} {env : InstantXEnv} {st s t : InstantX} {event : InstantXEvent}
  {ctx : CConsensusVote} {k h : Uint256} {D : Uint256 → Prop}

/-- Two states have the same locks, and record votes of the same hashes, but for those in `D`. -/
structure SameBut (D : Uint256 → Prop) (s t : InstantX) : Prop where
  locks : s.toTxLocks = t.toTxLocks
  votes : ∀ k, ¬D k → (s.mapTxLockVote k).isSome = (t.mapTxLockVote k).isSome

omit [Crypto] in
theorem SameBut.clean {now : ℤ} (hst : SameBut D s t) :
    SameBut D (cleanTransactionLocksList now s) (cleanTransactionLocksList now t) := by
  unfold cleanTransactionLocksList
  rw [hst.locks]
  generalize t.mapTxLocks.entries = entries
  induction entries generalizing s t with
  | nil => exact hst
  | cons it entries ih =>
    refine ih ⟨?_, fun k hk => ?_⟩
    · simp only [InstantX.cleanLock, hst.locks]
    · simp only [InstantX.cleanLock, hst.locks]
      exact isSome_eraseVotes (hst.votes k hk)

/-- **What a step does does not depend on the votes recorded** of hashes in `D`, unless it
counts one. -/
theorem SameBut.step (params : CChainParams) (hst : SameBut D s t)
    (hD : ∀ ctx, D ctx.getHash → s.counted event ≠ some ctx ∧ t.counted event ≠ some ctx) :
    s.counted event = t.counted event ∧ SameBut D (s.step params event) (t.step params event) := by
  cases event with
  | txlreq env tx =>
    refine ⟨rfl, ?_⟩
    simp only [InstantX.step, txlreq, hst.locks]
    by_cases hreq : acceptsRequest env tx t.toTxLocks = true
    · simp only [if_pos hreq]
      split
      · exact ⟨rfl, fun k hk => isSome_doConsensusVote (hst.votes k hk)⟩
      · exact ⟨rfl, hst.votes⟩
    · rw [if_neg hreq, if_neg hreq]
      exact hst
  | txlvote env ctx =>
    have hcounted : s.counted (.txlvote env ctx) = t.counted (.txlvote env ctx) := by
      by_cases hctx : D ctx.getHash
      · have hnot := hD ctx hctx
        simp only [InstantX.counted] at hnot ⊢
        rw [if_neg fun h => hnot.1 (if_pos h), if_neg fun h => hnot.2 (if_pos h)]
      · have haccepts : acceptsVote env ctx s = acceptsVote env ctx t := by
          rw [acceptsVote, acceptsVote, ← Option.not_isSome, ← Option.not_isSome, hst.votes _ hctx]
        simp only [InstantX.counted, haccepts]
    have hsame : (acceptsVote env ctx s && validVote env ctx) = (acceptsVote env ctx t && validVote env ctx) := by
      simp only [InstantX.counted] at hcounted
      cases hs : acceptsVote env ctx s && validVote env ctx <;> cases ht : acceptsVote env ctx t && validVote env ctx <;>
        simp [hs, ht] at hcounted ⊢
    refine ⟨hcounted, ?_, fun k hk => ?_⟩
    · simp only [InstantX.step, toTxLocks_txlvote, hsame, hst.locks]
    · simp only [InstantX.step, isSome_txlvote, hst.votes k hk]
  | relay env tx =>
    refine ⟨rfl, ?_, hst.votes⟩
    simp only [InstantX.step, relayRequest, hst.locks]
  | block b => exact ⟨rfl, hst⟩
  | clean now => exact ⟨rfl, hst.clean⟩

/-- A recorded hash stays recorded, unless a lock has a vote of it. -/
theorem recorded_step (params : CChainParams) (event : InstantXEvent) (hvotes : ∀ k, ∀ ctx ∈ st.votesOf k, ctx.getHash ≠ h)
    (hrec : (st.mapTxLockVote h).isSome = true) : ((st.step params event).mapTxLockVote h).isSome = true := by
  cases event with
  | txlreq env tx => exact recorded_txlreq hrec
  | txlvote env ctx =>
    rw [InstantX.step, isSome_txlvote, hrec, Bool.or_true]
  | relay env tx => exact hrec
  | block b => exact hrec
  | clean now =>
    rw [InstantX.step, cleanTransactionLocksList]
    refine List.foldlRecOn (motive := fun s : InstantX => (s.mapTxLockVote h).isSome = true) _ _ hrec
      fun s hs it hit => ?_
    refine (congrArg Option.isSome (eraseVotes_of_ne fun ctx hmem => ?_)).trans hs
    exact hvotes it.1 ctx (vecConsensusVotes_eq_votesOf hit ▸ votesToClean_subset hmem)

end TwoStates

/-! ### Two runs -/

section TwoRuns

variable [Crypto] {params : CChainParams} {env : InstantXEnv} {st s t : InstantX} {event : InstantXEvent}
  {ctx : CConsensusVote} {h : Uint256}

/-- The event is a vote of the hash that passes the validation. -/
def InstantXEvent.isGenuine (h : Uint256) : InstantXEvent → Bool
  | .txlvote env ctx => env.enabled && ctx.getHash == h && validVote env ctx
  | _ => false

/-- No vote of the hash passes the validation before the node has recorded one of it. -/
def NotBlocked (params : CChainParams) (h : Uint256) (st : InstantX) (events : List InstantXEvent) : Prop :=
  AlongUntil (InstantX.step params) (fun event => event.isGenuine h = false)
    (fun st => (st.mapTxLockVote h).isSome = true) st events

instance instDecidableNotBlocked (st : InstantX) (events : List InstantXEvent) :
    Decidable (NotBlocked params h st events) :=
  inferInstanceAs (Decidable (AlongUntil _ _ _ _ _))

/-- Two runs count the same votes, at the same events, and have the same locks throughout. -/
def SameCount (params : CChainParams) (s t : InstantX) (events : List InstantXEvent) : Prop :=
  Agree (InstantX.step params) InstantX.counted InstantX.toTxLocks s t events

/-- The two states differ in that only the second records a vote of the hash. -/
structure Blocking (h : Uint256) (s t : InstantX) : Prop extends SameBut (· = h) s t where
  recorded : s.VotesRecorded
  free : s.mapTxLockVote h = none
  taken : (t.mapTxLockVote h).isSome = true

omit [Crypto] in
theorem counted_eq_some_iff (hfree : s.mapTxLockVote h = none) :
    (∃ ctx, ctx.getHash = h ∧ s.counted event = some ctx) ↔ event.isGenuine h = true := by
  cases event with
  | txlvote env ctx =>
    simp only [InstantX.counted, InstantXEvent.isGenuine, acceptsVote, Bool.and_eq_true, beq_iff_eq]
    constructor
    · rintro ⟨ctx', rfl, hcounted⟩
      obtain ⟨hc, heq⟩ := Option.ite_none_right_eq_some.1 hcounted
      obtain rfl := Option.some.inj heq
      exact ⟨⟨hc.1.1, rfl⟩, hc.2⟩
    · rintro ⟨⟨henabled, rfl⟩, hvalid⟩
      exact ⟨ctx, rfl, by simp [henabled, hvalid, hfree]⟩
  | txlreq | relay | block | clean => simp [InstantX.counted, InstantXEvent.isGenuine]

omit [Crypto] in
/-- A vote of a hash that is recorded is not counted. -/
theorem counted_ne_of_recorded (htaken : (t.mapTxLockVote h).isSome = true) (hctx : ctx.getHash = h) :
    t.counted event ≠ some ctx := by
  subst hctx
  cases event with
  | txlvote env ctx' =>
    simp only [InstantX.counted, acceptsVote]
    intro hcounted
    obtain ⟨hnew, heq⟩ := Option.ite_none_right_eq_some.1 hcounted
    obtain rfl := Option.some.inj heq
    rw [← Option.not_isSome, htaken] at hnew
    simp at hnew
  | txlreq | relay | block | clean => exact fun hcounted => by cases hcounted

/-- **An event without a genuine vote of the hash** keeps the two states as they are, or
has a vote of the hash recorded by both. -/
theorem Blocking.step (hst : Blocking h s t) (hgenuine : event.isGenuine h = false) :
    s.counted event = t.counted event ∧
      (((s.step params event).mapTxLockVote h).isSome = true →
        SameBut (fun _ => False) (s.step params event) (t.step params event)) ∧
      (¬((s.step params event).mapTxLockVote h).isSome = true →
        Blocking h (s.step params event) (t.step params event)) := by
  have hnot : ∀ ctx, ctx.getHash = h → s.counted event ≠ some ctx ∧ t.counted event ≠ some ctx := by
    refine fun ctx hctx => ⟨fun hcounted => ?_, counted_ne_of_recorded hst.taken hctx⟩
    have := (counted_eq_some_iff hst.free).1 ⟨ctx, hctx, hcounted⟩
    rw [hgenuine] at this
    cases this
  obtain ⟨hcounted, hnext⟩ := hst.toSameBut.step params hnot
  -- no lock has a vote of the hash, since the first state does not record one
  have hvotes : ∀ k, ∀ ctx ∈ t.votesOf k, ctx.getHash ≠ h := by
    rintro k ctx hmem rfl
    rw [← hst.locks] at hmem
    have := hst.recorded.recorded k ctx hmem
    rw [hst.free] at this
    cases this
  have htaken := recorded_step params event hvotes hst.taken
  refine ⟨hcounted, fun hrec => ⟨hnext.locks, fun k _ => ?_⟩, fun hfree => ?_⟩
  · by_cases hk : k = h
    · rw [hk, hrec, htaken]
    · exact hnext.votes k hk
  · exact ⟨hnext, hst.recorded.step, by simpa using hfree, htaken⟩

/-- **When the invalid vote is recorded**, the runs with and without it agree exactly if no
genuine vote of its hash comes before the hash is recorded anyway. -/
theorem sameCount_iff_notBlocked {events : List InstantXEvent} (hst : Blocking h s t) :
    SameCount params s t events ↔ NotBlocked params h s events := by
  refine agree_iff_alongUntil (R := SameBut fun _ => False) (Q := Blocking h) ?_ ?_ ?_ ?_ hst
  · rintro s t (hst | hst)
    · exact hst.locks
    · exact hst.locks
  · intro s t event hst hgenuine heq
    obtain ⟨ctx, hctx, hcounted⟩ := (counted_eq_some_iff hst.free).2 (Bool.eq_true_of_not_eq_false hgenuine)
    rw [heq] at hcounted
    exact counted_ne_of_recorded hst.taken hctx hcounted
  · exact fun s t event hst hgenuine => hst.step hgenuine
  · exact fun s t event hst => hst.step params fun ctx hfalse => hfalse.elim

omit [Crypto] in
theorem votesRecorded_empty : ({} : InstantX).VotesRecorded where
  recorded _ _ hmem := by cases hmem
  apart _ _ _ _ hmem := by cases hmem

/-- **An invalid vote leaves the later count as it would be without it** exactly if it is
dropped, because InstantX is off or its hash is recorded, or no genuine vote of its hash
comes before the node has recorded another vote of it. -/
theorem invalidVote_iff (params : CChainParams) (before : List InstantXEvent) (env : InstantXEnv)
    (ctx : CConsensusVote) (hinvalid : validVote env ctx = false) (events : List InstantXEvent) :
    let st := InstantX.run params {} before
    SameCount params st (st.step params (.txlvote env ctx)) events ↔
      acceptsVote env ctx st = false ∨ NotBlocked params ctx.getHash st events := by
  intro st
  have hst : st.VotesRecorded :=
    Library.Runs.run_induct (I := InstantX.VotesRecorded) (fun _ _ _ hst => hst.step) votesRecorded_empty
  cases haccepts : acceptsVote env ctx st with
  | false =>
    have hsame : st.step params (.txlvote env ctx) = st := by
      rw [InstantX.step, txlvote, haccepts, if_neg Bool.false_ne_true]
    rw [hsame]
    exact iff_of_true ⟨rfl, fun _ => rfl⟩ (.inl rfl)
  | true =>
    obtain ⟨henabled, hnone⟩ := Bool.and_eq_true_iff.1 haccepts
    have hblocking : Blocking ctx.getHash st (st.step params (.txlvote env ctx)) := by
      refine ⟨⟨?_, fun k hk => ?_⟩, hst, Option.eq_none_of_isNone hnone, ?_⟩
      · rw [InstantX.step, toTxLocks_txlvote, hinvalid, Bool.and_false, if_neg Bool.false_ne_true]
      · rw [InstantX.step, isSome_txlvote, decide_eq_false hk, Bool.and_false, Bool.false_or]
      · rw [InstantX.step, isSome_txlvote, henabled, decide_eq_true rfl]
        rfl
    rw [sameCount_iff_notBlocked hblocking]
    exact (or_iff_right Bool.false_ne_true.symm).symm

end TwoRuns

/-! ### A vote without a signature -/

namespace Sample

/-- The vote of a masternode, without the signature. -/
def forgedVote : CConsensusVote := { vote 3 with vchMasterNodeSignature := [] }

/-- It does not matter to the votes of the other masternodes. -/
theorem forgedVote_sameCount :
    SameCount CChainParams.test (InstantX.run CChainParams.test {} [.txlreq instantXEnv request])
      ((InstantX.run CChainParams.test {} [.txlreq instantXEnv request]).step CChainParams.test
        (.txlvote instantXEnv forgedVote)) [.txlvote instantXEnv (vote 4)] :=
  (invalidVote_iff CChainParams.test [.txlreq instantXEnv request] instantXEnv forgedVote (by decide)
    [.txlvote instantXEnv (vote 4)]).2 (.inr (by decide +kernel))

/-- **A vote without a signature keeps the masternode's own from being counted**: the lock
for the request is complete after the ten votes, but not if the forged one came before. -/
theorem forgedVote_blocks :
    let voteEvents := (List.range 10).map fun i => .txlvote instantXEnv (vote i)
    let st := InstantX.run CChainParams.test {} [.txlreq instantXEnv request]
    let st' := st.step CChainParams.test (.txlvote instantXEnv forgedVote)
    validVote instantXEnv forgedVote = false ∧ validVote instantXEnv (vote 3) = true ∧
    ¬SameCount CChainParams.test st st' voteEvents ∧
    (st.run CChainParams.test voteEvents).isComplete request.getHash = true ∧
    (st'.run CChainParams.test voteEvents).isComplete request.getHash = false := by
  intro voteEvents st st'
  have hcounted : Library.Runs.observations (InstantX.step CChainParams.test) InstantX.counted st voteEvents ≠
      Library.Runs.observations (InstantX.step CChainParams.test) InstantX.counted st' voteEvents := by decide +kernel
  exact ⟨by decide +kernel, by decide +kernel, fun hsame => hcounted hsame.1, by decide +kernel, by decide +kernel⟩

end Sample

end PayDayCoin
