import PayDayCoin.ProcessBlock
import PayDayCoin.ChainSync

/-!
# The orphan blocks along a run

The two maps of orphans hold the same blocks along any run, and none of them is in the block index
(**`MapsOk.step`**). The loop over `vWorkQueue` is a drain, so the orphans it tries are those that wait for a block
that has been accepted (**`processQueue_spec`**). An orphan is left although its parent is in the index only when
`AcceptBlock` adds the parent and then fails: **`triesChildren_run`** says that otherwise no orphan is left,
and each is tried once and after its parent.
-/

namespace PayDayCoin

open Library.Checks Library.Runs Library.Worklist

section Index

variable [Crypto] {W : Type} [CWalletInterface W] {params : CChainParams}

/-- **What `AcceptBlock` does to the index**: it fails and leaves it, or it adds the hash of the block, whose
parent is there. -/
theorem acceptBlock_isSome {node : Node W} (hgen : node.pindexGenesisBlock ≠ []) (params : CChainParams)
    (env : AcceptEnv) (b : CBlock) :
    (∃ e, (acceptBlock params env node b).2 = .failed e ∧
        (acceptBlock params env node b).1.mapBlockIndex = node.mapBlockIndex) ∨
      (node.mapBlockIndex b.getHash = none ∧ (node.mapBlockIndex b.hashPrevBlock).isSome ∧
        ∀ k, ((acceptBlock params env node b).1.mapBlockIndex k).isSome ↔
          k = b.getHash ∨ (node.mapBlockIndex k).isSome) := by
  rcases acceptBlock_cases params env node b with
    ⟨e, hcase⟩ | ⟨pprev, hashProof, pos, modifier, hnew, hprev, -, hcases⟩
  · exact .inl ⟨e, by rw [hcase], by rw [hcase]⟩
  · refine .inr ⟨hnew, by rw [hprev]; rfl, fun k => ?_⟩
    have hindex : (acceptBlock params env node b).1.mapBlockIndex =
        (node.insertEntry (newEntry b pos hashProof pprev modifier) pprev).mapBlockIndex := by
      rcases hcases with hcase | hcase | hcase <;> rw [hcase]
      · rfl
      · exact (setBestChain_sameIndex params env.chain
          ((node.insertEntry (newEntry b pos hashProof pprev modifier) pprev).commitEntry
            (newEntry b pos hashProof pprev modifier) pprev) hgen (newEntry b pos hashProof pprev modifier) pprev).1
    rw [hindex, Node.insertEntry_mapBlockIndex]
    by_cases hk : k = b.getHash
    · simp [hk, newEntry]
    · have hk' : k ≠ (newEntry b pos hashProof pprev modifier).hash := hk
      rw [if_neg hk']
      simp [hk]

end Index

namespace OrphanNode

/-! ### The orphan maps -/

section Maps

variable {W : Type} [Crypto]

/-- Whether a block is stored as an orphan. -/
def Stored (st : OrphanNode W) (o : COrphanBlock) : Prop := ∃ h, st.mapOrphanBlocks h = some o

/-- The two maps have the same orphans, each under the hashes of its block, and none of them is in the index. -/
structure MapsOk (st : OrphanNode W) : Prop where
  entry : ∀ e ∈ st.mapOrphanBlocksByPrev, e.1 = e.2.hashPrev ∧ st.mapOrphanBlocks e.2.hashBlock = some e.2
  listed : ∀ h o, st.mapOrphanBlocks h = some o → o = orphan o.block ∧ o.hashBlock = h ∧
    (o.hashPrev, o) ∈ st.mapOrphanBlocksByPrev
  nodup : st.mapOrphanBlocksByPrev.Nodup
  fresh : ∀ h o, st.mapOrphanBlocks h = some o → st.mapBlockIndex h = none

theorem MapsOk.stored_iff {st : OrphanNode W} (h : st.MapsOk) (o : COrphanBlock) :
    st.Stored o ↔ (o.hashPrev, o) ∈ st.mapOrphanBlocksByPrev :=
  ⟨fun ⟨_, ho⟩ => (h.listed _ _ ho).2.2, fun hmem => ⟨_, (h.entry _ hmem).2⟩⟩

theorem MapsOk.stored_eq {st : OrphanNode W} (h : st.MapsOk) {o : COrphanBlock} (ho : st.Stored o) :
    st.mapOrphanBlocks o.hashBlock = some o := by
  obtain ⟨k, hk⟩ := ho
  exact (h.listed k o hk).2.1 ▸ hk

/-- Each orphan has one entry. -/
theorem MapsOk.nodup_snd {st : OrphanNode W} (h : st.MapsOk) : (st.mapOrphanBlocksByPrev.map Prod.snd).Nodup := by
  refine (List.nodup_map_iff_inj_on h.nodup).2 fun e he e' he' heq => Prod.ext ?_ heq
  rw [(h.entry e he).1, (h.entry e' he').1, heq]

theorem MapsOk.drop {st : OrphanNode W} (h : st.MapsOk) {it : Uint256 × COrphanBlock}
    (hit : it ∈ st.mapOrphanBlocksByPrev) : (st.drop it).MapsOk := by
  have hmem : ∀ e, e ∈ st.mapOrphanBlocksByPrev.erase it ↔ e ≠ it ∧ e ∈ st.mapOrphanBlocksByPrev :=
    fun e => h.nodup.mem_erase_iff
  have hne : ∀ e ∈ st.mapOrphanBlocksByPrev, e ≠ it → e.2.hashBlock ≠ it.2.hashBlock := by
    intro e he hne heq
    have h₁ := (h.entry e he).2
    rw [heq, (h.entry it hit).2] at h₁
    have h₂ : it.2 = e.2 := Option.some.inj h₁
    exact hne (Prod.ext (by rw [(h.entry e he).1, (h.entry it hit).1, h₂]) h₂.symm)
  refine ⟨fun e he => ?_, fun k o ho => ?_, h.nodup.erase _, fun k o ho => ?_⟩
  · obtain ⟨hneq, he⟩ := (hmem e).1 he
    exact ⟨(h.entry e he).1, (Function.update_of_ne (hne e he hneq) ..).trans (h.entry e he).2⟩
  · obtain ⟨hk, ho⟩ : k ≠ it.2.hashBlock ∧ st.mapOrphanBlocks k = some o := by
      simpa [OrphanNode.drop, Function.update_apply] using ho
    obtain ⟨hblock, hhash, hbyPrev⟩ := h.listed k o ho
    refine ⟨hblock, hhash, (hmem _).2 ⟨?_, hbyPrev⟩⟩
    rintro rfl
    exact hk hhash.symm
  · have ho : k ≠ it.2.hashBlock ∧ st.mapOrphanBlocks k = some o := by
      simpa [OrphanNode.drop, Function.update_apply] using ho
    exact h.fresh k o ho.2

omit [Crypto] in
theorem mem_insertByPrev (o : COrphanBlock) (byPrev : List (Uint256 × COrphanBlock)) (e : Uint256 × COrphanBlock) :
    e ∈ insertByPrev o byPrev ↔ e = (o.hashPrev, o) ∨ e ∈ byPrev := by
  conv_rhs => rw [← List.takeWhile_append_dropWhile (p := fun e => decide (e.1 ≤ o.hashPrev)) (l := byPrev)]
  simp only [insertByPrev, List.mem_append, List.mem_cons]
  exact or_left_comm

omit [Crypto] in
theorem insertByPrev_perm (o : COrphanBlock) (byPrev : List (Uint256 × COrphanBlock)) :
    (insertByPrev o byPrev).Perm ((o.hashPrev, o) :: byPrev) := by
  refine List.perm_middle.trans (List.Perm.cons _ ?_)
  rw [List.takeWhile_append_dropWhile]

theorem MapsOk.keep {st : OrphanNode W} (h : st.MapsOk) {b : CBlock} (hnew : st.mapOrphanBlocks b.getHash = none)
    (hfresh : st.mapBlockIndex b.getHash = none) : (st.keep (orphan b)).MapsOk := by
  have hmap : ∀ k o, (st.keep (orphan b)).mapOrphanBlocks k = some o ↔
      (k = b.getHash ∧ o = orphan b) ∨ (k ≠ b.getHash ∧ st.mapOrphanBlocks k = some o) := by
    intro k o
    have hk : (st.keep (orphan b)).mapOrphanBlocks k =
        if k = b.getHash then some (orphan b) else st.mapOrphanBlocks k := Function.update_apply ..
    rw [hk]
    by_cases hkb : k = b.getHash <;> simp [hkb, eq_comm]
  have hne : ∀ k o, st.mapOrphanBlocks k = some o → k ≠ b.getHash := by
    rintro k o ho rfl
    rw [hnew] at ho
    cases ho
  refine ⟨fun e he => ?_, fun k o ho => ?_, ?_, fun k o ho => ?_⟩
  · rcases (mem_insertByPrev ..).1 he with rfl | he
    · exact ⟨rfl, (hmap _ _).2 (.inl ⟨rfl, rfl⟩)⟩
    · exact ⟨(h.entry e he).1, (hmap _ _).2 (.inr ⟨hne _ _ (h.entry e he).2, (h.entry e he).2⟩)⟩
  · rcases (hmap k o).1 ho with ⟨rfl, rfl⟩ | ⟨-, ho⟩
    · exact ⟨rfl, rfl, (mem_insertByPrev ..).2 (.inl rfl)⟩
    · obtain ⟨hblock, hhash, hmem⟩ := h.listed k o ho
      exact ⟨hblock, hhash, (mem_insertByPrev ..).2 (.inr hmem)⟩
  · refine (insertByPrev_perm _ _).nodup_iff.2 (List.nodup_cons.2 ⟨fun hmem => ?_, h.nodup⟩)
    exact hne _ _ (h.entry _ hmem).2 rfl
  · rcases (hmap k o).1 ho with ⟨rfl, rfl⟩ | ⟨-, ho⟩
    · exact hfresh
    · exact h.fresh k o ho

omit [Crypto] in
theorem stored_of_drop {st : OrphanNode W} {it : Uint256 × COrphanBlock} {o : COrphanBlock}
    (h : (st.drop it).Stored o) : st.Stored o := by
  obtain ⟨k, hk⟩ := h
  have hmap : (st.drop it).mapOrphanBlocks k = if k = it.2.hashBlock then none else st.mapOrphanBlocks k :=
    Function.update_apply ..
  exact ⟨k, (Option.ite_none_left_eq_some.1 (hmap ▸ hk)).2⟩

omit [Crypto] in
theorem stored_of_keep {st : OrphanNode W} {o o' : COrphanBlock} (h : (st.keep o).Stored o') :
    o' = o ∨ st.Stored o' := by
  obtain ⟨k, hk⟩ := h
  have hmap : (st.keep o).mapOrphanBlocks k = if k = o.hashBlock then some o else st.mapOrphanBlocks k :=
    Function.update_apply ..
  rw [hmap] at hk
  split at hk
  · exact .inl (Option.some.inj hk).symm
  · exact .inr ⟨k, hk⟩

end Maps

/-! ### The loop over the queue -/

section Queue

variable [Crypto] {W : Type} [CWalletInterface W] {params : CChainParams} {env : ProcessEnv}

/-- What holds in the loop over `vWorkQueue`, once the orphans of `past` have been tried. -/
structure QueueInv (params : CChainParams) (env : ProcessEnv) (g : CBlockIndex) (st : OrphanNode W) (hash : Uint256)
    (past : List (OrphanNode W × COrphanBlock)) (s : OrphanNode W) : Prop where
  indexed : s.toNode.IndexedFrom g
  grown : ∀ k, (st.mapBlockIndex k).isSome → (s.mapBlockIndex k).isSome
  came : ∀ k ∈ hash :: pushes (tryOrphan params env) past, (s.mapBlockIndex k).isSome
  inserted : ∀ v ∈ past, ∀ k, ((tryOrphan params env v.2 v.1).1.mapBlockIndex k).isSome → (s.mapBlockIndex k).isSome
  origin : ∀ k, (s.mapBlockIndex k).isSome → (st.mapBlockIndex k).isSome ∨ ∃ v ∈ past, k = v.2.block.getHash ∧
    v.1.mapBlockIndex k = none ∧ ((tryOrphan params env v.2 v.1).1.mapBlockIndex k).isSome
  orphans : ∀ k, s.mapOrphanBlocks k = if k ∈ past.map (fun v => v.2.hashBlock) then none else st.mapOrphanBlocks k
  seen : ∀ stake, stake ∈ s.setStakeSeenOrphan ↔
    stake ∈ st.setStakeSeenOrphan ∧ stake ∉ past.map fun v => v.2.block.getProofOfStake
  byPrev : s.mapOrphanBlocksByPrev = st.mapOrphanBlocksByPrev

/-- What a try does to the index. -/
theorem tryOrphan_isSome (params : CChainParams) (env : ProcessEnv) {s : OrphanNode W} {g : CBlockIndex} (h : s.toNode.IndexedFrom g) {o : COrphanBlock}
    (ho : o.hashBlock = o.block.getHash) :
    ((tryOrphan params env o s).2 = none ∧ (tryOrphan params env o s).1.mapBlockIndex = s.mapBlockIndex) ∨
      (s.mapBlockIndex o.hashBlock = none ∧ ∀ k, ((tryOrphan params env o s).1.mapBlockIndex k).isSome ↔
        k = o.hashBlock ∨ (s.mapBlockIndex k).isSome) := by
  have hgen : s.pindexGenesisBlock ≠ [] := by rw [h.1]; simp
  rcases acceptBlock_isSome hgen params (env.accept o.block.getHash) o.block with ⟨e, hout, hindex⟩ | ⟨hnew, -, hindex⟩
  · refine .inl ⟨?_, hindex⟩
    have hout' : (s.acceptBlock params (env.accept o.block.getHash) o.block).2 = .failed e := hout
    simp only [tryOrphan, hout']
  · exact .inr ⟨ho ▸ hnew, fun k => by rw [ho]; exact hindex k⟩

theorem QueueInv.step {g : CBlockIndex} {st : OrphanNode W} {hash : Uint256}
    {past : List (OrphanNode W × COrphanBlock)} {v : OrphanNode W × COrphanBlock}
    (h : QueueInv params env g st hash past v.1) (hv : v.2.hashBlock = v.2.block.getHash) :
    QueueInv params env g st hash (past ++ [v]) (tryOrphan params env v.2 v.1).1 := by
  have hindex := tryOrphan_isSome params env h.indexed hv
  have hgrown : ∀ k, (v.1.mapBlockIndex k).isSome → ((tryOrphan params env v.2 v.1).1.mapBlockIndex k).isSome := by
    intro k hk
    rcases hindex with ⟨-, hsame⟩ | ⟨-, hiff⟩
    · rwa [hsame]
    · exact (hiff k).2 (.inr hk)
  refine ⟨h.indexed.step (.block (env.accept v.2.block.getHash) v.2.block), fun k hk => hgrown k (h.grown k hk),
    fun k hk => ?_, fun w hw k hk => ?_, fun k hk => ?_, fun k => ?_, fun stake => ?_, h.byPrev⟩
  · rw [pushes_append, ← List.cons_append, List.mem_append] at hk
    rcases hk with hk | hk
    · exact hgrown k (h.came k hk)
    · simp only [pushes, List.flatMap_cons, List.flatMap_nil, List.append_nil, Option.mem_toList] at hk
      rcases hindex with ⟨hnone, -⟩ | ⟨-, hiff⟩
      · rw [hnone] at hk
        cases hk
      · refine (hiff k).2 (.inl ?_)
        simp only [tryOrphan] at hk
        split at hk
        · exact (Option.some.inj hk).symm
        · cases hk
  · rcases List.mem_append.1 hw with hw | hw
    · exact hgrown k (h.inserted w hw k hk)
    · rwa [List.mem_singleton.1 hw] at hk
  · by_cases hold : (v.1.mapBlockIndex k).isSome
    · rcases h.origin k hold with hst | ⟨w, hw, hrest⟩
      · exact .inl hst
      · exact .inr ⟨w, List.mem_append_left _ hw, hrest⟩
    · rcases hindex with ⟨-, hsame⟩ | ⟨-, hiff⟩
      · exact absurd (hsame ▸ hk) hold
      · rcases (hiff k).1 hk with hkv | hk'
        · exact .inr ⟨v, by simp, hkv.trans hv, Option.not_isSome_iff_eq_none.1 hold, hk⟩
        · exact absurd hk' hold
  · have hmap : (tryOrphan params env v.2 v.1).1.mapOrphanBlocks k =
        if k = v.2.hashBlock then none else v.1.mapOrphanBlocks k := Function.update_apply ..
    rw [hmap, h.orphans k, List.map_append, List.map_cons, List.map_nil]
    by_cases hk : k = v.2.hashBlock
    · rw [if_pos hk, if_pos (by simp [hk])]
    · rw [if_neg hk]
      exact if_congr (by simp [hk]) rfl rfl
  · have hset : (tryOrphan params env v.2 v.1).1.setStakeSeenOrphan =
        v.1.setStakeSeenOrphan.erase v.2.block.getProofOfStake := rfl
    rw [hset, Finset.mem_erase, h.seen, List.map_append, List.mem_append, List.map_cons, List.map_nil,
      List.mem_singleton, not_or]
    tauto

/-- **What the loop over the queue has done**: it has tried, each once and after its parent had come, the orphans
that wait for the block or for one accepted in the loop. -/
theorem processQueue_spec (params : CChainParams) (env : ProcessEnv) {g : CBlockIndex} {st : OrphanNode W} (hmaps : st.MapsOk) (hfrom : st.toNode.IndexedFrom g)
    {hash : Uint256} (hhash : (st.mapBlockIndex hash).isSome) :
    Drained (tryOrphan params env) [hash] st.mapOrphanBlocksByPrev st
        ([hash] ++ pushes (tryOrphan params env) (processQueue params env st hash).visits)
        (processQueue params env st hash) ∧
      QueueInv params env g st hash (processQueue params env st hash).visits (processQueue params env st hash).state ∧
        ∀ past v rest, (processQueue params env st hash).visits = past ++ v :: rest →
          QueueInv params env g st hash past v.1 := by
  have hspec := drain_spec (tryOrphan params env) [hash] st.mapOrphanBlocksByPrev st
    (1 + st.mapOrphanBlocksByPrev.length) le_rfl
  have hwell : ∀ v ∈ (processQueue params env st hash).visits, v.2.hashBlock = v.2.block.getHash := by
    intro v hv
    obtain ⟨k, -, hmem⟩ := (hspec.visited v.2).1 (List.mem_map_of_mem hv)
    have ho := (hmaps.listed _ _ (hmaps.entry _ hmem).2).1
    simp only at ho
    rw [ho]
    rfl
  have hstart : QueueInv params env g st hash [] st :=
    ⟨hfrom, fun k hk => hk, fun k hk => by simp only [pushes, List.flatMap_nil, List.mem_singleton] at hk; exact hk ▸ hhash,
      fun v hv => absurd hv List.not_mem_nil, fun k hk => .inl hk, fun k => by simp, fun stake => by simp, rfl⟩
  obtain ⟨hend, hall⟩ := hspec.trace.keeps_past (m := []) (P := fun past s => QueueInv params env g st hash past s)
    (fun past v rest he h => h.step (hwell v (by
      have he' : (processQueue params env st hash).visits = past ++ v :: rest := he
      rw [he']
      simp))) hstart
  exact ⟨hspec, hend, hall⟩

/-- What `ProcessBlock` does with a block whose parent is known. -/
theorem processAccept_cases (params : CChainParams) (env : ProcessEnv) (st : OrphanNode W) (b : CBlock) :
    (∃ e, (acceptBlock params (env.accept b.getHash) st b).2 = .failed e ∧
        processAccept params env st b = ((acceptBlock params (env.accept b.getHash) st b).1,
          .error (.error "ProcessBlock() : AcceptBlock FAILED"), [])) ∨
      ∃ r, (acceptBlock params (env.accept b.getHash) st b).2 = .done r ∧
        processAccept params env st b =
          ({ (processQueue params env (acceptBlock params (env.accept b.getHash) st b).1 b.getHash).state with
              mapOrphanBlocksByPrev :=
                (processQueue params env (acceptBlock params (env.accept b.getHash) st b).1 b.getHash).pool },
            .ok (), (processQueue params env (acceptBlock params (env.accept b.getHash) st b).1 b.getHash).visits) := by
  unfold processAccept
  rcases hacc : acceptBlock params (env.accept b.getHash) st b with ⟨st₁, e | r⟩
  · exact .inl ⟨e, rfl, rfl⟩
  · exact .inr ⟨r, rfl, rfl⟩

/-- `AcceptBlock` keeps the maps, when its block is not an orphan. -/
theorem MapsOk.acceptBlock {st : OrphanNode W} {g : CBlockIndex} (h : st.MapsOk) (hfrom : st.toNode.IndexedFrom g)
    {b : CBlock} (hnew : st.mapOrphanBlocks b.getHash = none) (params : CChainParams) (env : AcceptEnv) :
    (st.acceptBlock params env b).1.MapsOk := by
  refine ⟨h.entry, h.listed, h.nodup, fun k o ho => ?_⟩
  have hk : st.mapOrphanBlocks k = some o := ho
  have hne : k ≠ b.getHash := by
    rintro rfl
    rw [hnew] at hk
    cases hk
  rcases acceptBlock_isSome (by rw [hfrom.1]; simp) params env b with ⟨e, -, hsame⟩ | ⟨-, -, hiff⟩
  · have hindex : (st.acceptBlock params env b).1.mapBlockIndex = st.mapBlockIndex := hsame
    rw [hindex]
    exact h.fresh k o hk
  · refine Option.not_isSome_iff_eq_none.1 fun hsome => ?_
    rcases (hiff k).1 hsome with hk' | hk'
    · exact hne hk'
    · rw [h.fresh k o hk] at hk'
      cases hk'

/-- The loop over the queue tries the orphans that wait for the block or for one accepted in the loop. -/
theorem MapsOk.visited_iff (params : CChainParams) (env : ProcessEnv) {st : OrphanNode W} {g : CBlockIndex}
    (h : st.MapsOk) (hfrom : st.toNode.IndexedFrom g)
    {hash : Uint256} (hhash : (st.mapBlockIndex hash).isSome) {o : COrphanBlock} (ho : st.Stored o) :
    o.hashBlock ∈ (processQueue params env st hash).visits.map (fun v => v.2.hashBlock) ↔
      o.hashPrev ∈ [hash] ++ pushes (tryOrphan params env) (processQueue params env st hash).visits := by
  obtain ⟨hdrained, -, -⟩ := processQueue_spec params env h hfrom hhash
  simp only [List.mem_map]
  constructor
  · rintro ⟨v, hv, hvo⟩
    obtain ⟨k, hk, hmem⟩ := (hdrained.visited v.2).1 (List.mem_map_of_mem hv)
    have hmap := (h.entry _ hmem).2
    rw [hvo, h.stored_eq ho] at hmap
    obtain rfl := Option.some.inj hmap
    exact (h.entry _ hmem).1 ▸ hk
  · intro hk
    obtain ⟨v, hv, rfl⟩ := List.mem_map.1 ((hdrained.visited o).2 ⟨_, hk, (h.stored_iff o).1 ho⟩)
    exact ⟨v, hv, rfl⟩

/-- The state once the loop over the queue has ended. -/
theorem MapsOk.afterQueue {st : OrphanNode W} {g : CBlockIndex} (h : st.MapsOk) (hfrom : st.toNode.IndexedFrom g)
    {hash : Uint256} (hhash : (st.mapBlockIndex hash).isSome) (params : CChainParams) (env : ProcessEnv) :
    MapsOk { (processQueue params env st hash).state with
      mapOrphanBlocksByPrev := (processQueue params env st hash).pool } := by
  obtain ⟨hdrained, hend, -⟩ := processQueue_spec params env h hfrom hhash
  have hpool : (processQueue params env st hash).pool = _ := hdrained.pool
  refine ⟨fun e he => ?_, fun k o ho => ?_, hpool ▸ h.nodup.filter _, fun k o ho => ?_⟩
  · simp only [hpool, List.mem_filter, decide_eq_true_eq] at he
    obtain ⟨hkey, hmap⟩ := h.entry e he.1
    refine ⟨hkey, ?_⟩
    rw [hend.orphans, if_neg]
    · exact hmap
    · rw [h.visited_iff params env hfrom hhash ⟨_, hmap⟩, ← hkey]
      exact he.2
  · rw [hend.orphans] at ho
    obtain ⟨hk, ho⟩ := Option.ite_none_left_eq_some.1 ho
    obtain ⟨hblock, hkey, hmem⟩ := h.listed k o ho
    refine ⟨hblock, hkey, ?_⟩
    simp only [hpool, List.mem_filter, decide_eq_true_eq]
    exact ⟨hmem, fun hK => hk (hkey ▸ (h.visited_iff params env hfrom hhash ⟨k, ho⟩).2 hK)⟩
  · rw [hend.orphans] at ho
    obtain ⟨hk, ho⟩ := Option.ite_none_left_eq_some.1 ho
    refine Option.not_isSome_iff_eq_none.1 fun hsome => ?_
    rcases hend.origin k hsome with hold | ⟨v, hv, hkv, -, -⟩
    · rw [h.fresh k o ho] at hold
      cases hold
    · obtain ⟨k', -, hmem⟩ := (hdrained.visited v.2).1 (List.mem_map_of_mem hv)
      have hwell := (h.listed _ _ (h.entry _ hmem).2).1
      simp only at hwell
      refine hk (List.mem_map.2 ⟨v, hv, ?_⟩)
      rw [hkv]
      exact congrArg COrphanBlock.hashBlock hwell

end Queue

/-! ### Steps -/

section Steps

theorem walkToLast_mem {byPrev : List (Uint256 × COrphanBlock)} {fuel : ℕ} {it it' : Uint256 × COrphanBlock}
    (hit : it ∈ byPrev) (h : walkToLast byPrev fuel it = some it') : it' ∈ byPrev := by
  induction fuel generalizing it with
  | zero => cases h
  | succ fuel ih =>
    rw [walkToLast] at h
    split at h
    · exact Option.some.inj h ▸ hit
    · next it₂ hfind => exact ih (List.mem_of_find?_eq_some hfind) h

/-- `PruneOrphanBlocks` drops at most one orphan. -/
theorem pruneOrphanBlocks_cases {W : Type} (st : OrphanNode W) (maxOrphanBlocks : ℤ) (rand : ℕ) :
    (pruned st.mapOrphanBlocksByPrev maxOrphanBlocks rand = none ∧
        st.pruneOrphanBlocks maxOrphanBlocks rand = some st) ∨
      (pruned st.mapOrphanBlocksByPrev maxOrphanBlocks rand = some none ∧
        st.pruneOrphanBlocks maxOrphanBlocks rand = none) ∨
      ∃ it ∈ st.mapOrphanBlocksByPrev, pruned st.mapOrphanBlocksByPrev maxOrphanBlocks rand = some (some it) ∧
        st.pruneOrphanBlocks maxOrphanBlocks rand = some (st.drop it) := by
  unfold pruneOrphanBlocks
  rcases hp : pruned st.mapOrphanBlocksByPrev maxOrphanBlocks rand with _ | _ | it
  · exact .inl ⟨rfl, rfl⟩
  · exact .inr (.inl ⟨rfl, rfl⟩)
  · refine .inr (.inr ⟨it, ?_, rfl, rfl⟩)
    unfold pruned at hp
    split at hp
    · cases hp
    · obtain ⟨it₀, hget, hwalk⟩ := Option.map_eq_some_iff.1 hp
      exact walkToLast_mem (List.mem_of_getElem? hget) hwalk

variable [Crypto] {W : Type} [CWalletInterface W] {params : CChainParams} {g : CBlockIndex} {st : OrphanNode W}

/-- What a call of `ProcessBlock` comes to. -/
theorem step_processBlock (params : CChainParams) (st : OrphanNode W) (env : ProcessEnv) (b : CBlock) :
    (reachesAccept params env st b = true ∧ st.mapBlockIndex b.getHash = none ∧ st.mapOrphanBlocks b.getHash = none ∧
        (st.mapBlockIndex b.hashPrevBlock).isSome ∧
        st.step params (.processBlock env b) = (processAccept params env st b).1) ∨
      (reachesAccept params env st b = false ∧ reachesPrune params env st b = true ∧
        st.mapBlockIndex b.getHash = none ∧ st.mapOrphanBlocks b.getHash = none ∧
        st.mapBlockIndex b.hashPrevBlock = none ∧
        st.step params (.processBlock env b) =
          ((st.pruneOrphanBlocks env.maxOrphanBlocks env.rand).map fun st => st.keep (orphan b)).getD st) ∨
      (reachesAccept params env st b = false ∧ reachesPrune params env st b = false ∧
        st.step params (.processBlock env b) = st) := by
  simp only [step, processBlock, reachesAccept, reachesPrune]
  cases hcheck : checkProcess params env st b with
  | error e => exact .inr (.inr ⟨rfl, rfl, rfl⟩)
  | ok u =>
    have hchecks := hcheck
    simp only [checkProcess, bind_eq_ok, rejectIf_eq_ok] at hchecks
    obtain ⟨-, hindex, -, horphan, -⟩ := hchecks
    have hindex : st.mapBlockIndex b.getHash = none := by simpa using hindex
    have horphan : st.mapOrphanBlocks b.getHash = none := by simpa using horphan
    cases hprev : st.mapBlockIndex b.hashPrevBlock with
    | some pprev => exact .inl ⟨rfl, hindex, horphan, rfl, rfl⟩
    | none =>
      simp only [processOrphan]
      cases hfrom : env.pfrom with
      | false => exact .inr (.inr ⟨rfl, rfl, rfl⟩)
      | true =>
        by_cases hdup : (b.isProofOfStake && b.getProofOfStake ∈ st.setStakeSeenOrphan &&
            !st.mapOrphanBlocksByPrev.any fun e => e.1 = b.getHash) = true
        · refine .inr (.inr ⟨rfl, ?_, ?_⟩)
          · rw [hdup]
            rfl
          · rw [if_pos hdup]
            rfl
        · refine .inr (.inl ⟨rfl, ?_, hindex, horphan, ?_, ?_⟩)
          · rw [Bool.eq_false_iff.2 hdup]
            rfl
          · trivial
          · rw [if_neg hdup]
            cases st.pruneOrphanBlocks env.maxOrphanBlocks env.rand <;> rfl

theorem acceptBlock_indexedFrom (h : st.toNode.IndexedFrom g) (params : CChainParams) (env : AcceptEnv) (b : CBlock) :
    (st.acceptBlock params env b).1.toNode.IndexedFrom g :=
  h.step (.block env b)

/-- A block that is accepted is in the index. -/
theorem acceptBlock_done (h : st.toNode.IndexedFrom g) {env : AcceptEnv} {b : CBlock} {r : Option Reject}
    (hdone : (st.acceptBlock params env b).2 = .done r) (k : Uint256) :
    ((st.acceptBlock params env b).1.mapBlockIndex k).isSome ↔ k = b.getHash ∨ (st.mapBlockIndex k).isSome := by
  rcases acceptBlock_isSome (by rw [h.1]; simp) params env b with ⟨e, hfail, -⟩ | ⟨-, -, hiff⟩
  · have hfail : (st.acceptBlock params env b).2 = .failed e := hfail
    rw [hdone] at hfail
    cases hfail
  · exact hiff k

/-- **An event keeps the maps.** -/
theorem MapsOk.step (h : st.MapsOk) (hfrom : st.toNode.IndexedFrom g) (event : OrphanEvent) :
    (st.step params event).MapsOk ∧ (st.step params event).toNode.IndexedFrom g := by
  cases event with
  | processBlock env b =>
    rcases step_processBlock params st env b with
      ⟨-, hindex, horphan, -, hstep⟩ | ⟨-, -, hindex, horphan, -, hstep⟩ | ⟨-, -, hstep⟩
    · rw [hstep]
      have hmaps₁ := h.acceptBlock hfrom horphan params (env.accept b.getHash)
      have hfrom₁ := acceptBlock_indexedFrom hfrom params (env.accept b.getHash) b
      rcases processAccept_cases params env st b with ⟨e, -, hcase⟩ | ⟨r, hdone, hcase⟩ <;> rw [hcase]
      · exact ⟨hmaps₁, hfrom₁⟩
      · have hhash := (acceptBlock_done hfrom hdone b.getHash).2 (.inl rfl)
        obtain ⟨-, hend, -⟩ := processQueue_spec params env hmaps₁ hfrom₁ hhash
        exact ⟨hmaps₁.afterQueue hfrom₁ hhash params env, hend.indexed⟩
    · rw [hstep]
      rcases pruneOrphanBlocks_cases st env.maxOrphanBlocks env.rand with
        ⟨-, hprune⟩ | ⟨-, hprune⟩ | ⟨it, hit, -, hprune⟩ <;> rw [hprune]
      · exact ⟨h.keep horphan hindex, hfrom⟩
      · exact ⟨h, hfrom⟩
      · refine ⟨(h.drop hit).keep ?_ hindex, hfrom⟩
        have hmap : (st.drop it).mapOrphanBlocks b.getHash =
            if b.getHash = it.2.hashBlock then none else st.mapOrphanBlocks b.getHash := Function.update_apply ..
        rw [hmap, horphan, ite_self]
    · rw [hstep]
      exact ⟨h, hfrom⟩
  | pruneOrphanBlocks maxOrphanBlocks rand =>
    simp only [OrphanNode.step]
    rcases pruneOrphanBlocks_cases st maxOrphanBlocks rand with
      ⟨-, hprune⟩ | ⟨-, hprune⟩ | ⟨it, hit, -, hprune⟩ <;> rw [hprune]
    · exact ⟨h, hfrom⟩
    · exact ⟨h, hfrom⟩
    · exact ⟨h.drop hit, hfrom⟩
  | accept env tx fLimitFree fRejectInsaneFee ignoreFees =>
    have hfrom' : (st.step params (.accept env tx fLimitFree fRejectInsaneFee ignoreFees)).toNode.IndexedFrom g :=
      hfrom.step (.tx env tx fLimitFree fRejectInsaneFee ignoreFees)
    have hindex : (st.step params (.accept env tx fLimitFree fRejectInsaneFee ignoreFees)).mapBlockIndex =
        st.mapBlockIndex := by
      simp only [OrphanNode.step, IndexedNode.step, Node.step]
      split <;> rfl
    exact ⟨⟨h.entry, h.listed, h.nodup, fun k o ho => by rw [hindex]; exact h.fresh k o ho⟩, hfrom'⟩

omit [CWalletInterface W] in
theorem MapsOk.genesis (p : CBlockIndex) (wallets : W) : (genesis p wallets).MapsOk :=
  ⟨fun e he => absurd he List.not_mem_nil, fun k o ho => (by cases ho), List.nodup_nil, fun k o ho => (by cases ho)⟩

end Steps

/-! ### The children of the blocks that enter the index -/

section Children

variable [Crypto] {W : Type} [CWalletInterface W] (params : CChainParams)

/-- The calls of `AcceptBlock` that an event makes. -/
def acceptCalls (st : OrphanNode W) (event : OrphanEvent) : List (OrphanNode W × AcceptEnv × CBlock) :=
  match event with
  | .processBlock env b =>
    if reachesAccept params env st b then
      (st, env.accept b.getHash, b) ::
        (processAccept params env st b).2.2.map fun v => (v.1, env.accept v.2.block.getHash, v.2.block)
    else []
  | _ => []

/-- Whether `AcceptBlock` adds its block to the index and then fails. -/
def failsLate (env : AcceptEnv) (st : OrphanNode W) (b : CBlock) : Bool :=
  (st.mapBlockIndex b.getHash).isNone && ((st.acceptBlock params env b).1.mapBlockIndex b.getHash).isSome &&
    match (st.acceptBlock params env b).2 with
    | .failed _ => true
    | .done _ => false

/-- Whether an orphan waits for a block. -/
def waits (st : OrphanNode W) (hash : Uint256) : Bool :=
  st.mapOrphanBlocksByPrev.any fun e => e.1 = hash && st.mapOrphanBlocks e.2.hashBlock = some e.2

/-- Whether an event strands an orphan: `AcceptBlock` adds a block to the index and then fails, and an orphan
waits for that block. -/
def strands (st : OrphanNode W) (event : OrphanEvent) : Bool :=
  (acceptCalls params st event).any fun c => failsLate params c.2.1 c.1 c.2.2 && c.1.waits c.2.2.getHash

/-- What an event should do with the orphans whose parents enter the index: try each once, when its parent is there,
and drop it. -/
structure TriesChildren (st st' : OrphanNode W) (tries : List (OrphanNode W × COrphanBlock)) : Prop where
  noneLeft : ∀ o, st'.Stored o → st'.mapBlockIndex o.hashPrev = none
  stored : ∀ t ∈ tries, st.Stored t.2 ∧ ¬st'.Stored t.2
  once : (tries.map Prod.snd).Nodup
  afterParent : ∀ t ∈ tries, (t.1.mapBlockIndex t.2.hashPrev).isSome
  tried : ∀ o, st.Stored o → (st'.mapBlockIndex o.hashPrev).isSome → o ∈ tries.map Prod.snd

variable {params} {g : CBlockIndex} {st : OrphanNode W}

theorem failsLate_iff {env : AcceptEnv} {b : CBlock} : failsLate params env st b = true ↔
    st.mapBlockIndex b.getHash = none ∧ ((st.acceptBlock params env b).1.mapBlockIndex b.getHash).isSome ∧
      ∃ e, (st.acceptBlock params env b).2 = .failed e := by
  unfold failsLate
  rw [Bool.and_eq_true, Bool.and_eq_true, Option.isNone_iff_eq_none, and_assoc]
  cases (st.acceptBlock params env b).2 <;> simp

omit [CWalletInterface W] in
theorem waits_iff (h : st.MapsOk) {hash : Uint256} : st.waits hash = true ↔ ∃ o, st.Stored o ∧ o.hashPrev = hash := by
  simp only [waits, List.any_eq_true, Bool.and_eq_true, decide_eq_true_eq]
  constructor
  · rintro ⟨e, he, rfl, hmap⟩
    exact ⟨e.2, ⟨_, hmap⟩, (h.entry e he).1.symm⟩
  · rintro ⟨o, ho, rfl⟩
    exact ⟨_, (h.stored_iff o).1 ho, rfl, h.stored_eq ho⟩

omit [Crypto] [CWalletInterface W] in
/-- An event that tries no orphan. -/
theorem TriesChildren.of_nil {st' : OrphanNode W} (hleft : ∀ o, st'.Stored o → st'.mapBlockIndex o.hashPrev = none)
    (hold : ∀ o, st.Stored o → st'.mapBlockIndex o.hashPrev = none) : TriesChildren st st' [] := by
  refine ⟨hleft, fun t ht => absurd ht List.not_mem_nil, List.nodup_nil, fun t ht => absurd ht List.not_mem_nil,
    fun o ho hsome => ?_⟩
  rw [hold o ho] at hsome
  cases hsome

/-- `AcceptBlock` fails on the block of the call. -/
theorem triesChildren_failed (hmaps : st.MapsOk) (hfrom : st.toNode.IndexedFrom g)
    (hnone : ∀ o, st.Stored o → st.mapBlockIndex o.hashPrev = none) {env : AcceptEnv} {b : CBlock} {e : Reject}
    (hfail : (st.acceptBlock params env b).2 = .failed e) :
    TriesChildren st (st.acceptBlock params env b).1 [] ↔
      ¬(failsLate params env st b = true ∧ st.waits b.getHash = true) := by
  rw [failsLate_iff, waits_iff hmaps]
  constructor
  · rintro h ⟨⟨-, hindex, -⟩, o, ho, hprev⟩
    have hleft := h.noneLeft o ho
    rw [hprev] at hleft
    rw [hleft] at hindex
    cases hindex
  · intro hnot
    have hleft : ∀ o, st.Stored o → (st.acceptBlock params env b).1.mapBlockIndex o.hashPrev = none := by
      intro o ho
      rcases acceptBlock_isSome (by rw [hfrom.1]; simp) params env b with ⟨-, -, hsame⟩ | ⟨hnew, -, hiff⟩
      · have hindex : (st.acceptBlock params env b).1.mapBlockIndex = st.mapBlockIndex := hsame
        rw [hindex]
        exact hnone o ho
      · refine Option.not_isSome_iff_eq_none.1 fun hsome => ?_
        rcases (hiff _).1 hsome with hprev | hold
        · exact hnot ⟨⟨hnew, (hiff _).2 (.inl rfl), e, hfail⟩, o, ho, hprev⟩
        · rw [hnone o ho] at hold
          cases hold
    exact TriesChildren.of_nil hleft hleft

/-- An orphan that is tried once its block has been accepted. -/
theorem mem_pushes_iff {env : ProcessEnv} {visits : List (OrphanNode W × COrphanBlock)} {k : Uint256} :
    k ∈ pushes (tryOrphan params env) visits ↔ ∃ v ∈ visits, k = v.2.hashBlock ∧
      ∃ r, (v.1.acceptBlock params (env.accept v.2.block.getHash) v.2.block).2 = .done r := by
  simp only [pushes, List.mem_flatMap, tryOrphan, Option.mem_toList]
  refine exists_congr fun v => and_congr_right fun _ => ?_
  cases (v.1.acceptBlock params (env.accept v.2.block.getHash) v.2.block).2 <;> simp [eq_comm]

/-- In the loop, the orphans that wait are those that have not been tried. -/
theorem QueueInv.waits_iff {env : ProcessEnv} {hash k : Uint256} {past : List (OrphanNode W × COrphanBlock)}
    {s : OrphanNode W} (h : QueueInv params env g st hash past s) (hmaps : st.MapsOk) :
    s.waits k = true ↔ ∃ o, st.Stored o ∧ o.hashBlock ∉ past.map (fun v => v.2.hashBlock) ∧ o.hashPrev = k := by
  simp only [waits, List.any_eq_true, Bool.and_eq_true, decide_eq_true_eq, h.byPrev, h.orphans]
  constructor
  · rintro ⟨e, he, rfl, hmap⟩
    obtain ⟨hnot, hmap⟩ := Option.ite_none_left_eq_some.1 hmap
    exact ⟨e.2, ⟨_, hmap⟩, hnot, (hmaps.entry e he).1.symm⟩
  · rintro ⟨o, ho, hnot, rfl⟩
    exact ⟨_, (hmaps.stored_iff o).1 ho, rfl, by rw [if_neg hnot, hmaps.stored_eq ho]⟩

/-- `AcceptBlock` accepts the block of the call: `st` is the state after it. -/
theorem triesChildren_queue (params : CChainParams) (hmaps : st.MapsOk) (hfrom : st.toNode.IndexedFrom g) {hash : Uint256}
    (hhash : (st.mapBlockIndex hash).isSome)
    (hnone : ∀ o, st.Stored o → (st.mapBlockIndex o.hashPrev).isSome → o.hashPrev = hash) (env : ProcessEnv) :
    TriesChildren st { (processQueue params env st hash).state with
        mapOrphanBlocksByPrev := (processQueue params env st hash).pool } (processQueue params env st hash).visits ↔
      ∀ v ∈ (processQueue params env st hash).visits,
        ¬(failsLate params (env.accept v.2.block.getHash) v.1 v.2.block = true ∧
          v.1.waits v.2.block.getHash = true) := by
  obtain ⟨hdrained, hend, hall⟩ := processQueue_spec params env hmaps hfrom hhash
  have hvisited := fun o => hmaps.visited_iff (o := o) params env hfrom hhash
  generalize processQueue params env st hash = d at hdrained hend hall hvisited ⊢
  have hpool : ∀ v ∈ d.visits, st.Stored v.2 ∧ v.2.hashBlock = v.2.block.getHash := by
    intro v hv
    obtain ⟨k, -, hmem⟩ := (hdrained.visited v.2).1 (List.mem_map_of_mem hv)
    have hmap := (hmaps.entry _ hmem).2
    exact ⟨⟨_, hmap⟩, congrArg COrphanBlock.hashBlock (hmaps.listed _ _ hmap).1⟩
  have hgone : ∀ o, (∃ k, d.state.mapOrphanBlocks k = some o) ↔
      st.Stored o ∧ o.hashBlock ∉ d.visits.map fun v => v.2.hashBlock := by
    intro o
    constructor
    · rintro ⟨k, hk⟩
      rw [hend.orphans] at hk
      obtain ⟨hnot, hk⟩ := Option.ite_none_left_eq_some.1 hk
      exact ⟨⟨k, hk⟩, (hmaps.listed k o hk).2.1 ▸ hnot⟩
    · rintro ⟨ho, hnot⟩
      exact ⟨o.hashBlock, by rw [hend.orphans, if_neg hnot, hmaps.stored_eq ho]⟩
  have honce : (d.visits.map Prod.snd).Nodup := hdrained.once hmaps.nodup_snd
  have hsame : ∀ o, st.Stored o → ∀ v ∈ d.visits, v.2.hashBlock = o.hashBlock → v.2 = o := by
    intro o ho v hv heq
    have hmap := hmaps.stored_eq (hpool v hv).1
    rw [heq, hmaps.stored_eq ho] at hmap
    exact (Option.some.inj hmap).symm
  constructor
  · rintro h v hv ⟨hfails, hwaits⟩
    obtain ⟨past, rest, he⟩ := List.append_of_mem hv
    have hinv := hall past v rest he
    obtain ⟨hnew, hins, e, hfail⟩ := failsLate_iff.1 hfails
    obtain ⟨o, ho, -, hprev⟩ := (hinv.waits_iff hmaps).1 hwaits
    -- the orphan is not tried later either, so it is left
    have hnot : o.hashBlock ∉ d.visits.map fun v => v.2.hashBlock := by
      intro hmem
      rcases List.mem_append.1 ((hvisited o ho).1 hmem) with hk | hk
      · have hcame := hinv.grown hash hhash
        rw [← List.mem_singleton.1 hk, hprev, hnew] at hcame
        cases hcame
      · obtain ⟨w, hw, hwk, r, hdone⟩ := mem_pushes_iff.1 hk
        have hwv : w.2 = v.2 := hsame v.2 (hpool v hv).1 w hw (by rw [← hwk, hprev, (hpool v hv).2])
        obtain rfl := List.inj_on_of_nodup_map honce hw hv hwv
        rw [hfail] at hdone
        cases hdone
    have hleft := h.noneLeft o ((hgone o).2 ⟨ho, hnot⟩)
    have hsome := hend.inserted v hv _ hins
    rw [← hprev] at hsome
    simp only at hleft
    rw [hleft] at hsome
    cases hsome
  · intro hnot
    have hleft : ∀ o, st.Stored o → o.hashBlock ∉ (d.visits.map fun v => v.2.hashBlock) →
        d.state.mapBlockIndex o.hashPrev = none := by
      intro o ho hmem
      refine Option.not_isSome_iff_eq_none.1 fun hsome => ?_
      rcases hend.origin _ hsome with hold | ⟨v, hv, hkv, hnew, hins⟩
      · exact hmem ((hvisited o ho).2 (by rw [hnone o ho hold]; simp))
      · cases hout : (v.1.acceptBlock params (env.accept v.2.block.getHash) v.2.block).2 with
        | done r =>
          have hpush : o.hashPrev ∈ pushes (tryOrphan params env) d.visits :=
            mem_pushes_iff.2 ⟨v, hv, hkv.trans (hpool v hv).2.symm, r, hout⟩
          exact hmem ((hvisited o ho).2 (List.mem_append_right _ hpush))
        | failed e =>
          obtain ⟨past, rest, he⟩ := List.append_of_mem hv
          rw [hkv] at hnew hins
          refine hnot v hv ⟨failsLate_iff.2 ⟨hnew, hins, e, hout⟩, ((hall past v rest he).waits_iff hmaps).2
            ⟨o, ho, fun hpast => hmem ?_, hkv⟩⟩
          rw [he, List.map_append]
          exact List.mem_append_left _ hpast
    refine ⟨fun o ho => ?_, fun v hv => ⟨(hpool v hv).1, fun ho => ?_⟩, honce, fun v hv => ?_, fun o ho hsome => ?_⟩
    · obtain ⟨ho, hmem⟩ := (hgone o).1 ho
      exact hleft o ho hmem
    · exact ((hgone v.2).1 ho).2 (List.mem_map.2 ⟨v, hv, rfl⟩)
    · obtain ⟨past, rest, he⟩ := List.append_of_mem hv
      obtain ⟨k, hmem, hk⟩ := hdrained.after past v rest he
      have hkey : k = v.2.hashPrev := (hmaps.entry _ hmem).1
      exact hkey ▸ (hall past v rest he).came _ hk
    · by_contra hmem
      have hnone := hleft o ho fun hhashes => by
        obtain ⟨v, hv, heq⟩ := List.mem_map.1 hhashes
        exact hmem (List.mem_map.2 ⟨v, hv, hsame o ho v hv heq⟩)
      simp only [hnone] at hsome
      cases hsome

/-- **When an event tries the children** of the blocks that enter the index. -/
theorem triesChildren_step (hmaps : st.MapsOk) (hfrom : st.toNode.IndexedFrom g)
    (hnone : ∀ o, st.Stored o → st.mapBlockIndex o.hashPrev = none) (event : OrphanEvent) :
    TriesChildren st (st.step params event) (st.tries params event) ↔ st.strands params event = false := by
  cases event with
  | processBlock env b =>
    rw [strands, Bool.eq_false_iff]
    simp only [tries, acceptCalls]
    rcases step_processBlock params st env b with
      ⟨hreach, -, horphan, -, hstep⟩ | ⟨hreach, -, -, -, hprev, hstep⟩ | ⟨hreach, -, hstep⟩
    · rw [if_pos hreach, if_pos hreach, hstep]
      simp only [ne_eq, List.any_cons, List.any_map, Bool.or_eq_true, Bool.and_eq_true, List.any_eq_true, not_or,
        not_exists, not_and, Function.comp_apply]
      rcases processAccept_cases params env st b with ⟨e, hfail, hcase⟩ | ⟨r, hdone, hcase⟩
      · rw [hcase, triesChildren_failed hmaps hfrom hnone hfail]
        simp
      · have hmaps₁ := hmaps.acceptBlock hfrom horphan params (env.accept b.getHash)
        have hfrom₁ := acceptBlock_indexedFrom hfrom params (env.accept b.getHash) b
        have hiff := acceptBlock_done hfrom hdone
        have hnot : failsLate params (env.accept b.getHash) st b ≠ true := by
          intro hlate
          obtain ⟨-, -, e, hfail⟩ := failsLate_iff.1 hlate
          rw [hdone] at hfail
          cases hfail
        have hqueue := triesChildren_queue params hmaps₁ hfrom₁ ((hiff b.getHash).2 (.inl rfl)) (fun o ho hsome =>
          ((hiff _).1 hsome).resolve_right fun hold => by rw [hnone o ho] at hold; cases hold) env
        rw [hcase]
        refine Iff.trans ⟨fun h => ?_, fun h => ?_⟩ (hqueue.trans ?_)
        · exact ⟨h.noneLeft, h.stored, h.once, h.afterParent, h.tried⟩
        · exact ⟨h.noneLeft, h.stored, h.once, h.afterParent, h.tried⟩
        · simp [hnot]
    · rw [if_neg (by rw [hreach]; decide), if_neg (by rw [hreach]; decide), hstep]
      refine iff_of_true ?_ (by simp)
      have hleft : ∀ o, o = orphan b ∨ st.Stored o → st.mapBlockIndex o.hashPrev = none := by
        rintro o (rfl | ho)
        · exact hprev
        · exact hnone o ho
      rcases pruneOrphanBlocks_cases st env.maxOrphanBlocks env.rand with
        ⟨-, hprune⟩ | ⟨-, hprune⟩ | ⟨it, hit, -, hprune⟩ <;> rw [hprune]
      · exact TriesChildren.of_nil (fun o ho => hleft o (stored_of_keep ho)) hnone
      · exact TriesChildren.of_nil hnone hnone
      · exact TriesChildren.of_nil (fun o ho => hleft o ((stored_of_keep ho).imp_right stored_of_drop)) hnone
    · rw [if_neg (by rw [hreach]; decide), if_neg (by rw [hreach]; decide), hstep]
      exact iff_of_true (TriesChildren.of_nil hnone hnone) (by simp)
  | pruneOrphanBlocks maxOrphanBlocks rand =>
    refine iff_of_true ?_ rfl
    simp only [OrphanNode.step]
    rcases pruneOrphanBlocks_cases st maxOrphanBlocks rand with
      ⟨-, hprune⟩ | ⟨-, hprune⟩ | ⟨it, hit, -, hprune⟩ <;> rw [hprune]
    · exact TriesChildren.of_nil hnone hnone
    · exact TriesChildren.of_nil hnone hnone
    · exact TriesChildren.of_nil (fun o ho => hnone o (stored_of_drop ho)) hnone
  | accept env tx fLimitFree fRejectInsaneFee ignoreFees =>
    have hindex : (st.step params (.accept env tx fLimitFree fRejectInsaneFee ignoreFees)).mapBlockIndex =
        st.mapBlockIndex := by
      simp only [OrphanNode.step, IndexedNode.step, Node.step]
      split <;> rfl
    refine iff_of_true (TriesChildren.of_nil (fun o ho => ?_) fun o ho => ?_) rfl <;> rw [hindex]
    · exact hnone o ho
    · exact hnone o ho

/-- **When the children of the blocks that enter the index are tried**: in each call of a run the orphans whose
parents are in the index after it have been tried, each once and after its parent, and none of them is left, exactly
when `AcceptBlock` never puts a block into the index and fails while an orphan waits for it. -/
theorem triesChildren_run (params : CChainParams) (g : CBlockIndex) (wallets : W) (events : List OrphanEvent) :
    (∀ n event, events[n]? = some event →
        TriesChildren ((genesis g wallets).run params (events.take n))
          (((genesis g wallets).run params (events.take n)).step params event)
          (((genesis g wallets).run params (events.take n)).tries params event)) ↔
      Along (step params) (fun st event => st.strands params event = false) (genesis g wallets) events := by
  refine Iff.trans (along_iff_forall (P := fun st event =>
    TriesChildren st (OrphanNode.step params st event) (st.tries params event))).symm ?_
  refine along_iff_along (I := fun st : OrphanNode W => (st.MapsOk ∧ st.toNode.IndexedFrom g) ∧
    ∀ o, st.Stored o → st.mapBlockIndex o.hashPrev = none) (fun st event h => triesChildren_step h.1.1 h.1.2 h.2 event)
    (fun st event h htries => ⟨h.1.1.step h.1.2 event, htries.noneLeft⟩) ?_
  refine ⟨⟨MapsOk.genesis g wallets, ⟨rfl, IndexOk.genesis g⟩⟩, fun o ho => ?_⟩
  obtain ⟨k, hk⟩ := ho
  cases hk

end Children

end OrphanNode

namespace Sample

/-- The readings of `ProcessBlock`: the block is stored at a position. -/
def processEnv (nBlockPos : UInt32) : ProcessEnv where
  check := checkEnv
  accept _ := acceptEnv nBlockPos true

/-- A block on top of `b₃`. -/
def b₄ : CBlock := block b₃ 4 [coinbase 4 1]

/-- `b₄` comes before its parent. -/
def orphanEvents : List OrphanEvent :=
  [.processBlock (processEnv 1000) b₁, .processBlock (processEnv 2000) b₂, .processBlock (processEnv 3000) b₄,
    .processBlock (processEnv 4000) b₃]

/-- The node with orphans after the first of these events. -/
def orphanNode (n : ℕ) : OrphanNode Unit :=
  (OrphanNode.genesis genesis ()).run CChainParams.test (orphanEvents.take n)

/-- **An orphan is left though its parent is in the index**: `b₃` spends what is spent, so `AcceptBlock` fails
when it connects it, after it has put it into the index. -/
theorem orphanEvents_stranded : ¬∀ n event, orphanEvents[n]? = some event →
    OrphanNode.TriesChildren (orphanNode n) ((orphanNode n).step CChainParams.test event)
      ((orphanNode n).tries CChainParams.test event) := by
  intro h
  have hstored : ((orphanNode 3).step CChainParams.test (.processBlock (processEnv 4000) b₃)).mapOrphanBlocks
      b₄.getHash = some (OrphanNode.orphan b₄) := by decide +kernel
  have hindex : (((orphanNode 3).step CChainParams.test (.processBlock (processEnv 4000) b₃)).mapBlockIndex
      b₃.getHash).isSome = true := by decide +kernel
  have hleft := (h 3 _ rfl).noneLeft (OrphanNode.orphan b₄) ⟨_, hstored⟩
  have hprev : (OrphanNode.orphan b₄).hashPrev = b₃.getHash := rfl
  rw [hprev] at hleft
  rw [hleft] at hindex
  cases hindex

end Sample

end PayDayCoin
