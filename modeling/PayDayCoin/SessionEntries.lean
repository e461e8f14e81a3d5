import PayDayCoin.ChainSync
import PayDayCoin.DarksendPool
import PayDayCoin.Library.Runs
import PayDayCoin.Library.Updates

/-!
# The entries of a mixing session

**`session_sound`** says when a session keeps its books: there are no more entries than users
and no more users than the session takes, each entry's collateral came with a `dsa` of the
session, the inputs of all entries have different outpoints, and what is rejected changes
nothing. That is so as long as `AddEntry` accepts what is submitted to it, with a collateral of
the session and outpoints that no entry has: `AddEntry` counts a user out on each of its
rejections, whoever sent the entry, does not ask where the collateral comes from, and
compares inputs with their scripts and sequence numbers. In `SessionSample.rejected_counts_out` the
entry of a stranger is rejected for its collateral, and one of the users is counted out.
-/

namespace PayDayCoin

open Library.Runs Library.Updates

namespace CDarksendPool

/-- The books of a session. -/
structure Sound (pool : CDarksendPool) : Prop where
  entries_le : pool.entries.length ≤ pool.sessionUsers
  users_le : pool.sessionUsers ≤ poolMaxTransactions
  collateral : ∀ e ∈ pool.entries, e.collateral ∈ pool.vecSessionCollateral
  nodup : (pool.inputs.map CTxIn.prevout).Nodup

section Rejections

variable [Crypto]

/-- An event is a `dsa` or a `dsi` that is rejected. -/
def Rejected (pool : CDarksendPool) : MixingEvent → Prop
  | .dsa env nDenom txCollateral => pool.dsa env nDenom txCollateral = none
  | .dsi env newInput nAmount txCollateral newOutput =>
    (pool.dsi env newInput nAmount txCollateral newOutput).2 = false
  | _ => False

/-- What comes to `AddEntry` is accepted, has a collateral of the session, and spends what
no entry spends. -/
def Fair (pool : CDarksendPool) : MixingEvent → Prop
  | .dsi env newInput nAmount txCollateral newOutput =>
    pool.submissionOk env newInput newOutput = true →
      pool.entryAccepted env newInput nAmount txCollateral = true ∧ txCollateral ∈ pool.vecSessionCollateral ∧
        ∀ txin ∈ newInput, txin.prevout ∉ pool.inputs.map CTxIn.prevout
  | _ => True

end Rejections

/-! ### What steps keep -/

section Keep

variable {pool pool' : CDarksendPool} {env : PoolEnv}

/-- What the books are kept on: the collaterals and outpoints of the entries. -/
def outline (pool : CDarksendPool) : List (CTransaction × List COutPoint) :=
  pool.entries.map fun e => (e.collateral, e.sev.map fun s => s.prevout)

theorem prevouts_eq (pool : CDarksendPool) : pool.inputs.map CTxIn.prevout = pool.outline.flatMap Prod.snd := by
  rw [inputs, outline, List.map_flatMap, List.flatMap_map]
  exact List.flatMap_congr fun e _ => by rw [List.map_map]; rfl

/-- A step leaves the users, the collaterals and the outpoints. -/
structure Keeps (pool pool' : CDarksendPool) : Prop where
  outline : pool'.outline = pool.outline
  users : pool'.sessionUsers = pool.sessionUsers
  collaterals : pool'.vecSessionCollateral = pool.vecSessionCollateral

/-- The session is over. -/
structure Cleared (pool : CDarksendPool) : Prop where
  entries : pool.entries = []
  users : pool.sessionUsers = 0

theorem Keeps.refl (pool : CDarksendPool) : Keeps pool pool := ⟨rfl, rfl, rfl⟩

theorem Keeps.trans {pool'' : CDarksendPool} (h : Keeps pool pool') (h' : Keeps pool' pool'') : Keeps pool pool'' :=
  ⟨h'.outline.trans h.outline, h'.users.trans h.users, h'.collaterals.trans h.collaterals⟩

theorem Keeps.sound (h : Keeps pool pool') (hpool : pool.Sound) : pool'.Sound := by
  have hlen : pool'.entries.length = pool.entries.length := by
    have hl := congrArg List.length h.outline
    rwa [CDarksendPool.outline, CDarksendPool.outline, List.length_map, List.length_map] at hl
  refine ⟨?_, h.users ▸ hpool.users_le, fun e he => ?_, ?_⟩
  · rw [hlen, h.users]
    exact hpool.entries_le
  · have hmem : (e.collateral, e.sev.map fun s => s.prevout) ∈ pool.outline :=
      h.outline ▸ List.mem_map_of_mem he
    obtain ⟨e', he', heq⟩ := List.mem_map.1 hmem
    rw [h.collaterals, ← (Prod.mk.inj heq).1]
    exact hpool.collateral e' he'
  · rw [prevouts_eq, h.outline, ← prevouts_eq]
    exact hpool.nodup

theorem Cleared.sound (h : Cleared pool) : pool.Sound := by
  refine ⟨?_, ?_, ?_, ?_⟩
  · rw [h.entries, h.users]
    exact Int.le_refl 0
  · rw [h.users]
    exact Int.natCast_nonneg _
  · rw [h.entries]
    exact fun _ he => absurd he List.not_mem_nil
  · rw [inputs, h.entries]
    exact List.nodup_nil

theorem cleared_setNull (env : PoolEnv) (pool : CDarksendPool) : Cleared (pool.setNull env) := ⟨rfl, rfl⟩

theorem updateState_entries (env : PoolEnv) (newState : PoolStatus) (pool : CDarksendPool) :
    (pool.updateState env newState).entries = pool.entries := by
  unfold updateState
  split <;> rfl

theorem keeps_updateState (env : PoolEnv) (newState : PoolStatus) (pool : CDarksendPool) :
    Keeps pool (pool.updateState env newState) := by
  unfold updateState
  split
  · exact .refl pool
  · exact ⟨rfl, rfl, rfl⟩

theorem Cleared.updateState (h : Cleared pool) (newState : PoolStatus) : Cleared (pool.updateState env newState) := by
  unfold CDarksendPool.updateState
  split
  · exact h
  · exact ⟨h.entries, h.users⟩

theorem checkFinalTransaction_cases (env : PoolEnv) (pool : CDarksendPool) :
    Keeps pool (pool.checkFinalTransaction env) ∨ Cleared (pool.checkFinalTransaction env) := by
  unfold checkFinalTransaction
  split
  · exact .inr ((cleared_setNull env pool).updateState _)
  · split
    · exact .inl (.refl pool)
    · exact .inr (cleared_setNull env pool)

theorem keeps_checkFull (env : PoolEnv) (pool : CDarksendPool) : Keeps pool (pool.checkFull env) := by
  unfold checkFull
  split
  · exact keeps_updateState env _ pool
  · exact .refl pool

theorem keeps_checkFinalize (env : PoolEnv) (pool : CDarksendPool) : Keeps pool (pool.checkFinalize env) := by
  unfold checkFinalize
  split
  · have h := keeps_updateState env .POOL_STATUS_SIGNING pool
    exact ⟨h.outline, h.users, h.collaterals⟩
  · exact .refl pool

theorem checkSigned_cases (env : PoolEnv) (pool : CDarksendPool) :
    Keeps pool (pool.checkSigned env) ∨ Cleared (pool.checkSigned env) := by
  unfold checkSigned
  split
  · exact (checkFinalTransaction_cases env _).imp_left fun h => (keeps_updateState env _ pool).trans h
  · exact .inl (.refl pool)

/-- `Check` goes on with the session, or ends it. -/
theorem check_cases (env : PoolEnv) (pool : CDarksendPool) :
    Keeps pool (pool.check env) ∨ Cleared (pool.check env) := by
  have hmade := (keeps_checkFull env pool).trans (keeps_checkFinalize env _)
  have hsigned := (checkSigned_cases env ((pool.checkFull env).checkFinalize env)).imp_left hmade.trans
  unfold check checkEnded
  split
  · exact .inr (cleared_setNull env _)
  · exact hsigned

theorem Sound.check (h : pool.Sound) : (pool.check env).Sound := by
  rcases check_cases env pool with hc | hc
  · exact hc.sound h
  · exact hc.sound

/-- A signature changes no outpoint. -/
theorem addSig_outline {e e' : CDarkSendEntry} {vin : CTxIn} (h : e.addSig vin = some e') :
    (e'.collateral, e'.sev.map fun s => s.prevout) = (e.collateral, e.sev.map fun s => s.prevout) := by
  unfold CDarkSendEntry.addSig at h
  split at h
  · cases h
  · split at h
    · cases h
    · obtain rfl := Option.some.inj h
      refine Prod.ext rfl ?_
      exact map_modify_of_eq (CTxDSIn.withSig vin) (fun _ => rfl) _ _

theorem addSigs_outline {vin : CTxIn} {l l' : List CDarkSendEntry} (h : addSigs vin l = some l') :
    (l'.map fun e => (e.collateral, e.sev.map fun s => s.prevout)) =
      l.map fun e => (e.collateral, e.sev.map fun s => s.prevout) := by
  induction l generalizing l' with
  | nil => cases h
  | cons e l ih =>
    rw [addSigs] at h
    cases he : e.addSig vin with
    | some e' =>
      rw [he] at h
      obtain rfl := Option.some.inj h
      rw [List.map_cons, List.map_cons, addSig_outline he]
    | none =>
      rw [he] at h
      obtain ⟨l₁, hl, rfl⟩ := Option.map_eq_some_iff.1 h
      rw [List.map_cons, List.map_cons, ih hl]

theorem keeps_addScriptSig (env : PoolEnv) (vin : CTxIn) (pool : CDarksendPool) :
    Keeps pool (pool.addScriptSig env vin).1 := by
  unfold addScriptSig
  split
  · exact .refl pool
  · split
    · exact .refl pool
    · simp only
      split
      · rename_i hsigs
        exact ⟨addSigs_outline hsigs, rfl, rfl⟩
      · exact ⟨rfl, rfl, rfl⟩

theorem keeps_addScriptSigs (env : PoolEnv) (sigs : List CTxIn) (pool : CDarksendPool) :
    Keeps pool (pool.addScriptSigs env sigs).1 := by
  unfold addScriptSigs
  exact List.foldlRecOn (motive := fun st : CDarksendPool × Bool => Keeps pool st.1) sigs _ (.refl pool)
    fun st hst vin _ => hst.trans (keeps_addScriptSig env vin st.1)

/-- Entries that are dropped leave the books of the others. -/
theorem Sound.expireEntries (h : pool.Sound) : (pool.expireEntries env).Sound := by
  unfold CDarksendPool.expireEntries
  simp only
  split
  · exact (cleared_setNull env pool).sound
  · have hsub := List.filter_sublist (p := fun e : CDarkSendEntry => !e.isExpired env.time) (l := pool.entries)
    refine ⟨?_, h.users_le, fun e he => h.collateral e (hsub.subset he), ?_⟩
    · have hlen := hsub.length_le
      have hle := h.entries_le
      simp only
      omega
    · exact h.nodup.sublist ((hsub.flatMap _).map _)

theorem Sound.updateState (h : pool.Sound) (newState : PoolStatus) : (pool.updateState env newState).Sound :=
  (keeps_updateState env newState pool).sound h

theorem Sound.checkTimeout (h : pool.Sound) : (pool.checkTimeout env).Sound := by
  have hnull : ∀ pool : CDarksendPool, (pool.setNull env).Sound := fun pool => (cleared_setNull env pool).sound
  have hnulled : ∀ pool : CDarksendPool, ((pool.setNull env).updateState env .POOL_STATUS_ERROR).Sound := fun pool =>
    (hnull pool).updateState _
  have hwaiting : (pool.checkWaiting env).Sound := by
    unfold checkWaiting
    split
    · simp only
      split
      · exact hnull _
      · exact h.expireEntries
    · split
      · exact hnulled pool
      · exact h
  unfold CDarksendPool.checkTimeout checkSigning
  split
  · exact hnulled _
  · exact hwaiting

end Keep

/-! ### Steps and runs -/

section Run

variable [Crypto] {pool : CDarksendPool} {env : PoolEnv} {event : MixingEvent}

/-- A client that joins is counted, and its collateral recorded. -/
theorem Sound.dsa (h : pool.Sound) {pool' : CDarksendPool} {nDenom : ℤ} {txCollateral : CTransaction}
    (hdsa : pool.dsa env nDenom txCollateral = some pool') : pool'.Sound := by
  unfold CDarksendPool.dsa at hdsa
  split at hdsa
  · cases hdsa
  split at hdsa
  · cases hdsa
  unfold isCompatibleWithSession at hdsa
  split at hdsa
  · cases hdsa
  split at hdsa
  · cases hdsa
  split at hdsa <;> rename_i husers
  · obtain rfl := Option.some.inj hdsa
    have hlen := h.entries_le
    have hnone : pool.entries = [] := List.length_eq_zero_iff.1 (by omega)
    have hkeep := keeps_updateState env .POOL_STATUS_QUEUE { pool with
      sessionID := env.newSessionID, sessionDenom := nDenom, sessionUsers := 1, lastTimeChanged := env.timeMillis }
    have hempty := (updateState_entries env .POOL_STATUS_QUEUE { pool with
      sessionID := env.newSessionID, sessionDenom := nDenom, sessionUsers := 1,
      lastTimeChanged := env.timeMillis }).trans hnone
    refine ⟨?_, ?_, ?_, ?_⟩
    · simp only [hempty, hkeep.users]
      decide
    · simp only [hkeep.users]
      decide
    · simp only [hempty]
      exact fun _ he => absurd he List.not_mem_nil
    · simp only [inputs, hempty]
      exact List.nodup_nil
  · split at hdsa
    · cases hdsa
    · rename_i hopen
      split at hdsa
      · cases hdsa
      · obtain rfl := Option.some.inj hdsa
        have hle := h.entries_le
        refine ⟨?_, ?_, fun e he => List.mem_append_left _ (h.collateral e he), h.nodup⟩
        · simp only
          omega
        · simp only
          omega

/-- An entry that is fairly submitted is added, or the message changes nothing. -/
theorem Sound.dsi (h : pool.Sound) {newInput : List CTxIn} {nAmount : ℤ} {txCollateral : CTransaction}
    {newOutput : List CTxOut} (hfair : pool.Fair (.dsi env newInput nAmount txCollateral newOutput)) :
    (pool.dsi env newInput nAmount txCollateral newOutput).1.Sound ∧
      ((pool.dsi env newInput nAmount txCollateral newOutput).2 = false →
        (pool.dsi env newInput nAmount txCollateral newOutput).1 = pool) := by
  unfold CDarksendPool.dsi
  by_cases hok : pool.submissionOk env newInput newOutput = true
  · obtain ⟨haccepted, hcollateral, hfresh⟩ := hfair hok
    have hvalid := hok
    simp only [submissionOk, Bool.and_eq_true, decide_eq_true_eq] at hvalid
    have hroom := haccepted
    simp only [entryAccepted, Bool.and_eq_true, decide_eq_true_eq] at hroom
    simp only [if_pos hok, addEntry, if_pos haccepted, if_true]
    refine ⟨Sound.check ⟨?_, h.users_le, ?_, ?_⟩, nofun⟩
    · simp only [List.length_append, List.length_singleton]
      have hready := hvalid.1.1.1.1.1.1
      have hlt := hroom.1.2
      push_cast
      omega
    · intro e he
      rcases List.mem_append.1 he with he | he
      · exact h.collateral e he
      · rw [List.mem_singleton.1 he]
        exact hcollateral
    · have hnew := nodup_of_acceptable hvalid.2
      simp only [inputs, List.flatMap_append, List.flatMap_singleton, List.map_append, List.map_map]
      refine List.nodup_append.2 ⟨?_, ?_, ?_⟩
      · exact h.nodup
      · exact hnew
      · rintro o ho o' ho' rfl
        obtain ⟨txin, htxin, rfl⟩ := List.mem_map.1 ho'
        exact hfresh txin htxin ho
  · rw [if_neg hok]
    exact ⟨h, fun _ => rfl⟩

/-- **Each fair event keeps the books**, and a rejection changes nothing. -/
theorem Sound.step (h : pool.Sound) (hfair : pool.Fair event) :
    (pool.step event).Sound ∧ (pool.Rejected event → pool.step event = pool) := by
  cases event with
  | dsa env nDenom txCollateral =>
    cases hdsa : pool.dsa env nDenom txCollateral with
    | none =>
      rw [CDarksendPool.step, hdsa, Option.getD_none]
      exact ⟨h, fun _ => rfl⟩
    | some pool' =>
      simp only [CDarksendPool.step, hdsa, Option.getD_some]
      exact ⟨h.dsa hdsa, fun hrej => by rw [Rejected, hdsa] at hrej; cases hrej⟩
  | dsi env newInput nAmount txCollateral newOutput => exact h.dsi hfair
  | dss env sigs =>
    refine ⟨?_, nofun⟩
    have hsigs := (keeps_addScriptSigs env sigs pool).sound h
    simp only [CDarksendPool.step, CDarksendPool.dss]
    split
    · exact hsigs.check
    · exact hsigs
  | checkTimeout env => exact ⟨h.checkTimeout, nofun⟩
  | checkForCompleteQueue env =>
    refine ⟨?_, nofun⟩
    simp only [CDarksendPool.step, CDarksendPool.checkForCompleteQueue]
    split
    · exact h.updateState _
    · exact h
  | reset env => exact ⟨(cleared_setNull env pool).sound, nofun⟩

/-- **A session keeps its books** in every run whose entries are fairly submitted. -/
theorem session_sound (events : List MixingEvent) (hfair : Along step Fair {} events) (n : ℕ) :
    Sound (run step {} (events.take n)) ∧
      ∀ event, events[n]? = some event → (run step {} (events.take n)).Rejected event →
        ((run step {} (events.take (n + 1))).sessionUsers = (run step {} (events.take n)).sessionUsers ∧
          (run step {} (events.take (n + 1))).entries = (run step {} (events.take n)).entries) := by
  have hsound : Sound (run step {} (events.take n)) :=
    invariant_of_along (fun _ _ _ hf hs => (hs.step hf).1) (hfair.take n) (Cleared.sound ⟨rfl, rfl⟩)
  refine ⟨hsound, fun event hevent hrejected => ?_⟩
  rw [run_take_succ hevent, (hsound.step (along_iff_forall.1 hfair n event hevent)).2 hrejected]
  exact ⟨rfl, rfl⟩

end Run

end CDarksendPool

/-! ### A stranger's entry -/

namespace SessionSample

open Sample

/-- A payment to a key. -/
def pay (nValue : ℤ) : CTxOut := ⟨nValue, [0x76, 0xa9, 0x14] ++ List.replicate 20 0 ++ [0x88, 0xac]⟩

/-- A transaction of the memory pool, with denominated outputs. -/
def funds : CTransaction where
  nTime := 0
  vin := [⟨⟨5, 0⟩, [], 0xffffffff⟩]
  vout := List.replicate 4 (pay (COIN + 1000))

/-- An input that spends an output of `funds`. -/
def spends (n : UInt32) : CTxIn := ⟨⟨100, n⟩, [], 0xffffffff⟩

/-- A collateral: it leaves a hundredth of a coin to the miner. -/
def collateral (n : UInt32) : CTransaction where
  nTime := 0
  vin := [spends n]
  vout := [pay (COIN + 1000 - DARKSEND_COLLATERAL)]

def env : PoolEnv where
  time := 100
  timeMillis := 100000
  adjustedTime := 100
  newSessionID := 1
  listed := true
  dsqTooRecent := false
  view :=
    { params := CChainParams.test
      env := memPoolEnv
      best := ⟨[genesis], 0⟩
      txIndex := fun _ => none
      mempool := { mapTx := AList.insert 100 funds ∅ } }
  getTransaction hash := if hash = 100 then some funds else none
  shuffleVin := ⟨id, fun _ => .refl _⟩
  shuffleVout := ⟨id, fun _ => .refl _⟩
  verifyScript _ _ _ _ := true
  acceptToMemoryPool _ := true
  keyOk := true

/-- Three clients join, and the session goes on to take entries. -/
def joined : List MixingEvent :=
  [.dsa env 8 (collateral 0), .dsa env 8 (collateral 1), .dsa env 8 (collateral 2), .checkForCompleteQueue env]

/-- An entry with a collateral that pays nothing to the miner. -/
def strangers : MixingEvent :=
  .dsi env [spends 3] 0 { collateral 3 with vout := [pay (COIN + 1000)] } [pay (COIN + 1000)]

/-- **A rejected entry counts a user out.** -/
theorem rejected_counts_out :
    (run CDarksendPool.step {} joined).Rejected strangers ∧ (run CDarksendPool.step {} joined).sessionUsers = 3 ∧
      (run CDarksendPool.step {} (joined ++ [strangers])).sessionUsers = 2 := by
  refine ⟨?_, ?_, ?_⟩
  · exact (by decide +kernel : (CDarksendPool.dsi env [spends 3] 0 { collateral 3 with vout := [pay (COIN + 1000)] }
      [pay (COIN + 1000)] (run CDarksendPool.step {} joined)).2 = false)
  · decide +kernel
  · decide +kernel

/-- The entry of a client that has joined. -/
def submitted : MixingEvent := .dsi env [spends 3] 0 (collateral 0) [pay (COIN + 1000)]

/-- With the entry of a client that has joined the books are kept. -/
theorem submitted_sound :
    CDarksendPool.Sound (run CDarksendPool.step {} ((joined ++ [submitted]).take 5)) ∧
      (run CDarksendPool.step {} ((joined ++ [submitted]).take 5)).entries.length = 1 := by
  refine ⟨(CDarksendPool.session_sound (joined ++ [submitted]) ?_ 5).1, by decide +kernel⟩
  refine ⟨trivial, trivial, trivial, trivial, fun _ => ⟨?_, ?_, ?_⟩, trivial⟩ <;> decide +kernel

end SessionSample

end PayDayCoin
