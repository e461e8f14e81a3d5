import Mathlib.Data.Finset.Basic
import PayDayCoin.SessionEntries
import PayDayCoin.SignFinalTransaction

/-!
# A client that mixes

The wallet of a client locks the coins that it picks for mixing, `SendDarksendDenominate` records them in
`lockedCoins`, and `UnlockCoins` releases what is recorded. The coins that are locked are the ones of the user, who
locks coins as well, and the ones that are mixed. **`locked_recorded`** says when the latter are all recorded, and none
of them is locked when the pool is idle or has refused to submit, and the user's coins stay locked: the collateral is
there when coins are submitted, no status update makes the pool idle while coins are locked, and what is recorded is
not the user's. In `ClientSample.idle_locked` a masternode sets the client to idle with its coins locked, and `UnlockCoins`
unlocks a coin of the user.
-/

namespace PayDayCoin

open Library.Runs

/-! ### The pool of a client -/

/-- The number of a status. -/
def PoolStatus.code : PoolStatus → UInt32
  | .POOL_STATUS_IDLE => 1
  | .POOL_STATUS_QUEUE => 2
  | .POOL_STATUS_ACCEPTING_ENTRIES => 3
  | .POOL_STATUS_FINALIZE_TRANSACTION => 4
  | .POOL_STATUS_SIGNING => 5
  | .POOL_STATUS_TRANSMISSION => 6
  | .POOL_STATUS_ERROR => 7
  | .POOL_STATUS_SUCCESS => 8

/-- The outpoints of inputs. -/
def outpointsOf (vin : List CTxIn) : Finset COutPoint := (vin.map CTxIn.prevout).toFinset

/-- `CDarksendPool` of a client, with the locked coins of its wallet. -/
structure MixingClient where
  state : UInt32 := PoolStatus.POOL_STATUS_IDLE.code
  lastTimeChanged : ℤ := 0
  entriesCount : ℤ := 0
  sessionID : ℤ := 0
  sessionDenom : ℤ := 0
  sessionFoundMasternode : Bool := false
  entries : List CDarkSendEntry := []
  txCollateral : CTransaction := { nTime := 0, vin := [], vout := [] }
  lockedCoins : List CTxIn := []
  /-- `pwalletMain->setLockedCoins`. -/
  setLockedCoins : Finset COutPoint := ∅

/-- What a step of the client reads. -/
structure ClientEnv where
  /-- `GetTime()`. -/
  time : ℤ
  /-- `GetTimeMillis()`. -/
  timeMillis : ℤ
  /-- `GetAdjustedTime()`. -/
  adjustedTime : ℤ
  fEnableDarksend : Bool := true
  checkDiskSpace : Bool := true
  /-- `IsLocked()` of the wallet. -/
  walletLocked : Bool := false
  /-- What `AcceptableInputs` reads. -/
  view : InputsView
  /-- The coins that `SelectCoinsByDenominations` picks of those that are not locked, with their values, if it
  picks enough. -/
  select : ℤ → Finset COutPoint → Option (List (CTxIn × ℤ))
  select_unlocked : ∀ sessionDenom locked vCoins, select sessionDenom locked = some vCoins →
    ∀ c ∈ vCoins, c.1.prevout ∉ locked
  /-- `5 + GetRandInt(5)`. -/
  nStepsMax : ℕ
  /-- The scripts of new keys. -/
  scriptChange : ℕ → CScript
  shuffleVout : Shuffle CTxOut

namespace MixingClient

section Pool

variable (env : ClientEnv)

/-- `CDarksendPool::UnlockCoins`. -/
def unlockCoins (c : MixingClient) : MixingClient :=
  { c with
    setLockedCoins := c.setLockedCoins \ outpointsOf c.lockedCoins
    lockedCoins := [] }

/-- `CDarksendPool::SetNull`. -/
def setNull (c : MixingClient) : MixingClient :=
  { c with
    state := PoolStatus.POOL_STATUS_IDLE.code
    lastTimeChanged := env.timeMillis
    entriesCount := 0
    sessionID := 0
    sessionDenom := 0
    sessionFoundMasternode := false
    entries := [] }

/-- `UnlockCoins`, and then `SetNull`. -/
def release (c : MixingClient) : MixingClient := c.unlockCoins.setNull env

/-- `CDarksendPool::UpdateState`, of a client. -/
def updateState (newState : UInt32) (c : MixingClient) : MixingClient :=
  { c with
    state := newState
    lastTimeChanged := if c.state ≠ newState then env.timeMillis else c.lastTimeChanged }

/-- `CTransaction()`: its time is the one at which it is made. -/
def noTransaction : CTransaction where
  nTime := UInt32.ofInt env.adjustedTime
  vin := []
  vout := []

/-- `CDarksendPool::Reset`. -/
def reset (c : MixingClient) : MixingClient := { c with txCollateral := noTransaction env }.release env

/-- `CDarksendPool::Check`, of a client. -/
def check (c : MixingClient) : MixingClient :=
  let c := if c.state = PoolStatus.POOL_STATUS_FINALIZE_TRANSACTION.code then
    c.updateState env PoolStatus.POOL_STATUS_SIGNING.code else c
  if (c.state = PoolStatus.POOL_STATUS_ERROR.code ∨ c.state = PoolStatus.POOL_STATUS_SUCCESS.code) ∧
      10000 ≤ env.timeMillis - c.lastTimeChanged then c.release env
  else c

/-- `CheckTimeout`: hanging sessions. -/
def checkHanging (c : MixingClient) : MixingClient :=
  if c.state = PoolStatus.POOL_STATUS_TRANSMISSION.code ∨ c.state = PoolStatus.POOL_STATUS_ERROR.code ∨
      c.state = PoolStatus.POOL_STATUS_SUCCESS.code then c.check env
  else c

/-- `CheckTimeout`: entries that have expired are dropped, and with the last of them the session. -/
def dropExpired (c : MixingClient) : MixingClient :=
  let entries := c.entries.filter fun e => !e.isExpired env.time
  if c.entries ≠ [] ∧ entries = [] then c.release env else { c with entries := entries }

/-- Nothing has changed for so many seconds, and ten more. -/
def timedOut (seconds : ℤ) (c : MixingClient) : Bool := seconds * 1000 + 10000 ≤ env.timeMillis - c.lastTimeChanged

/-- `CheckTimeout`: a session that waits too long. -/
def checkWaiting (c : MixingClient) : MixingClient :=
  if c.state = PoolStatus.POOL_STATUS_ACCEPTING_ENTRIES.code ∨ c.state = PoolStatus.POOL_STATUS_QUEUE.code then
    let c := c.dropExpired env
    if c.timedOut env DARKSEND_QUEUE_TIMEOUT then c.release env else c
  else if c.timedOut env DARKSEND_QUEUE_TIMEOUT then
    (c.release env).updateState env PoolStatus.POOL_STATUS_ERROR.code
  else c

/-- `CheckTimeout`: a session that is not signed. -/
def checkSigning (c : MixingClient) : MixingClient :=
  if c.state = PoolStatus.POOL_STATUS_SIGNING.code ∧ c.timedOut env DARKSEND_SIGNING_TIMEOUT then
    (c.release env).updateState env PoolStatus.POOL_STATUS_ERROR.code
  else c

/-- `CDarksendPool::CheckTimeout`, of a client. -/
def checkTimeout (c : MixingClient) : MixingClient :=
  if !env.fEnableDarksend then c else ((c.checkHanging env).checkWaiting env).checkSigning env

/-- `StatusUpdate`: what an answer to an entry says. -/
def answered (newAccepted newSessionID : ℤ) (c : MixingClient) : MixingClient :=
  if newAccepted = -1 then c
  else
    let c := if newAccepted = 0 then c.updateState env PoolStatus.POOL_STATUS_ERROR.code else c
    if newAccepted = 1 ∧ newSessionID ≠ 0 then { c with sessionID := newSessionID, sessionFoundMasternode := true } else c

/-- `CDarksendPool::StatusUpdate`, up to the call of `DoAutomaticDenominating` at its end. -/
def statusUpdate (newState : UInt32) (newEntriesCount newAccepted newSessionID : ℤ) (c : MixingClient) : MixingClient :=
  if c.state = PoolStatus.POOL_STATUS_ERROR.code ∨ c.state = PoolStatus.POOL_STATUS_SUCCESS.code then c
  else
    let c := { c.updateState env newState with entriesCount := newEntriesCount }
    let c := c.answered env newAccepted newSessionID
    if newState = PoolStatus.POOL_STATUS_ACCEPTING_ENTRIES.code then
      if newAccepted = 1 then
        { c with sessionFoundMasternode := true }.updateState env PoolStatus.POOL_STATUS_QUEUE.code
      else if newAccepted = 0 ∧ c.sessionID = 0 ∧ !c.sessionFoundMasternode then
        c.unlockCoins.updateState env PoolStatus.POOL_STATUS_ACCEPTING_ENTRIES.code
      else c
    else c

/-- `CDarksendPool::CompletedTransaction`. -/
def completedTransaction (error : Bool) (c : MixingClient) : MixingClient :=
  if error then ((c.updateState env PoolStatus.POOL_STATUS_ERROR.code).check env).release env
  else (c.updateState env PoolStatus.POOL_STATUS_SUCCESS.code).release env

/-- `DoAutomaticDenominating` without a masternode: it cleans up, makes a collateral if there is none that is good, and
asks to join a session of some denominations. -/
def doAutomaticDenominating (newCollateral : Option CTransaction) (newDenom : Option ℤ) (c : MixingClient) :
    MixingClient :=
  if c.sessionFoundMasternode then c
  else
    let c := (c.release env).updateState env PoolStatus.POOL_STATUS_ACCEPTING_ENTRIES.code
    { c with
      txCollateral := newCollateral.getD c.txCollateral
      sessionDenom := newDenom.getD c.sessionDenom }

/-- `SignFinalTransaction`: the client, and whether it refuses. -/
def signFinal (signSignature : SignSignature) (finalTransactionNew : CTransaction) (c : MixingClient) :
    MixingClient × Bool :=
  if (signFinalTransaction signSignature c.entries finalTransactionNew).isNone then (c.release env, true) else (c, false)

/-- `CDarksendPool::SendDarksendDenominate`: the client, and whether it refuses. -/
def sendDarksendDenominate [Crypto] (vin : List CTxIn) (vout : List CTxOut) (amount : ℤ) (c : MixingClient) :
    MixingClient × Bool :=
  if c.txCollateral.getHash = (noTransaction env).getHash then (c, true)
  else
    let c := { c with lockedCoins := c.lockedCoins ++ c.txCollateral.vin ++ vin }
    if !c.sessionFoundMasternode then (c.release env, true)
    else if !env.checkDiskSpace then (c.release env, true)
    else
      let c := c.updateState env PoolStatus.POOL_STATUS_ACCEPTING_ENTRIES.code
      if !env.view.acceptable c.txCollateral false true then (c.release env, true)
      else
        let entry : CDarkSendEntry := {
          sev := vin.map fun txin => { toCTxIn := txin }
          vout := vout
          amount := amount
          collateral := c.txCollateral
          addedTime := env.time }
        ({ c with entries := c.entries ++ [entry] }.check env, false)

end Pool

/-! ### Picking coins -/

/-- What `PrepareDarksendDenominate` has picked so far. -/
structure Picking where
  /-- The coins that are left, with their values. -/
  vCoins : List (CTxIn × ℤ)
  vCoinsResult : List CTxIn := []
  vOut : List CTxOut := []
  nValueLeft : ℤ

/-- A coin of a denomination is moved to the result. -/
def Picking.tryAdd (env : ClientEnv) (p : Picking) (v : ℤ) : Picking :=
  if p.nValueLeft - v < 0 then p
  else
    match p.vCoins.find? fun c => c.2 = v with
    | none => p
    | some coin =>
      { vCoins := p.vCoins.erase coin
        vCoinsResult := p.vCoinsResult ++ [coin.1]
        vOut := p.vOut ++ [⟨v, env.scriptChange p.vOut.length⟩]
        nValueLeft := p.nValueLeft - v }

/-- The denominations of a session. -/
def approved (sessionDenom : ℤ) : List ℤ :=
  (darkSendDenominations.zipIdx.filter fun d => (BitVec.ofInt 32 sessionDenom).getLsbD d.2).map Prod.fst

/-- The steps over the denominations, of which `n` are left. -/
def Picking.steps (env : ClientEnv) (sessionDenom : ℤ) : ℕ → Picking → Picking
  | 0, p => p
  | n + 1, p =>
    let p := (approved sessionDenom).foldl (Picking.tryAdd env) p
    if p.nValueLeft = 0 then p else p.steps env sessionDenom n

/-- The coins that are found, after the steps over them. -/
def picked (env : ClientEnv) (c : MixingClient) : Option (List (CTxIn × ℤ) × Picking) :=
  if env.walletLocked then none
  else if c.state ≠ PoolStatus.POOL_STATUS_ERROR.code ∧ c.state ≠ PoolStatus.POOL_STATUS_SUCCESS.code ∧
      0 < c.entriesCount then none
  else
    (env.select c.sessionDenom c.setLockedCoins).map fun vCoins =>
      (vCoins, Picking.steps env c.sessionDenom env.nStepsMax { vCoins, nValueLeft := (vCoins.map Prod.snd).sum })

/-- The coins that are submitted, if `PrepareDarksendDenominate` gets as far. -/
def submits (env : ClientEnv) (c : MixingClient) : Option Picking :=
  ((c.picked env).map Prod.snd).filter fun p => (getDenominations p.vOut : ℤ) = c.sessionDenom

/-- `CWallet::PrepareDarksendDenominate`: the client, and whether its pool refuses. -/
def prepareDarksendDenominate [Crypto] (env : ClientEnv) (c : MixingClient) : MixingClient × Bool :=
  match c.picked env with
  | none => (c, false)
  | some (vCoins, p) =>
    let nValueIn := (vCoins.map Prod.snd).sum
    let c := { c with setLockedCoins := c.setLockedCoins ∪ outpointsOf (vCoins.map Prod.fst) }
    let c := { c with setLockedCoins := c.setLockedCoins \ outpointsOf (p.vCoins.map Prod.fst) }
    if (getDenominations p.vOut : ℤ) ≠ c.sessionDenom then
      ({ c with setLockedCoins := c.setLockedCoins \ outpointsOf p.vCoinsResult }, false)
    else c.sendDarksendDenominate env p.vCoinsResult (env.shuffleVout.shuffle p.vOut) (nValueIn - p.nValueLeft)

/-! ### Events -/

end MixingClient

/-- What happens to the client. The first four are of the user. -/
inductive ClientEvent where
  | lockCoin (output : COutPoint)
  | unlockCoin (output : COutPoint)
  | unlockAllCoins
  | stopMixing
  | reset (env : ClientEnv)
  | doAutomaticDenominating (env : ClientEnv) (newCollateral : Option CTransaction) (newDenom : Option ℤ)
  | prepare (env : ClientEnv)
  | statusUpdate (env : ClientEnv) (newState : UInt32) (newEntriesCount newAccepted newSessionID : ℤ)
  | signFinal (env : ClientEnv) (signSignature : SignSignature) (finalTransactionNew : CTransaction)
  | completed (env : ClientEnv) (error : Bool)
  | check (env : ClientEnv)
  | checkTimeout (env : ClientEnv)

/-- The client, the coins that the user has locked and not unlocked, and whether the pool has just refused to
submit. -/
structure ClientWatch where
  client : MixingClient
  user : Finset COutPoint
  refused : Bool := false

/-- One event. -/
def ClientWatch.step [Crypto] (s : ClientWatch) : ClientEvent → ClientWatch
  | .lockCoin output =>
    ⟨{ s.client with setLockedCoins := insert output s.client.setLockedCoins }, insert output s.user, false⟩
  | .unlockCoin output =>
    ⟨{ s.client with setLockedCoins := s.client.setLockedCoins.erase output }, s.user.erase output, false⟩
  | .unlockAllCoins => ⟨{ s.client with setLockedCoins := ∅ }, ∅, false⟩
  | .stopMixing => ⟨s.client.unlockCoins, s.user, false⟩
  | .reset env => ⟨s.client.reset env, s.user, false⟩
  | .doAutomaticDenominating env newCollateral newDenom =>
    ⟨s.client.doAutomaticDenominating env newCollateral newDenom, s.user, false⟩
  | .prepare env => ⟨(s.client.prepareDarksendDenominate env).1, s.user, (s.client.prepareDarksendDenominate env).2⟩
  | .statusUpdate env newState newEntriesCount newAccepted newSessionID =>
    ⟨s.client.statusUpdate env newState newEntriesCount newAccepted newSessionID, s.user, false⟩
  | .signFinal env signSignature finalTransactionNew =>
    ⟨(s.client.signFinal env signSignature finalTransactionNew).1, s.user,
      (s.client.signFinal env signSignature finalTransactionNew).2⟩
  | .completed env error => ⟨s.client.completedTransaction env error, s.user, false⟩
  | .check env => ⟨s.client.check env, s.user, false⟩
  | .checkTimeout env => ⟨s.client.checkTimeout env, s.user, false⟩

/-! ### What is locked -/

/-- The coins that are locked and not the user's are recorded; when the pool is idle, or has just refused to submit,
there are none; and the user's coins are locked. -/
structure ClientWatch.Recorded (s : ClientWatch) : Prop where
  recorded : ∀ o ∈ s.client.setLockedCoins, o ∉ s.user → o ∈ outpointsOf s.client.lockedCoins
  released : s.client.state = PoolStatus.POOL_STATUS_IDLE.code ∨ s.refused = true → s.client.setLockedCoins ⊆ s.user
  locked : s.user ⊆ s.client.setLockedCoins

/-- The user locks no coin that is recorded; when coins are submitted the collateral is there and none of its inputs is
locked by the user; and a status update makes the pool idle only when no coin is locked for mixing. -/
def ClientWatch.Careful [Crypto] (s : ClientWatch) : ClientEvent → Prop
  | .lockCoin output => output ∉ outpointsOf s.client.lockedCoins
  | .prepare env => ∀ p, s.client.submits env = some p →
      if s.client.txCollateral.getHash = (MixingClient.noTransaction env).getHash then
        p.vCoinsResult = [] ∧ s.client.setLockedCoins ⊆ s.user
      else ∀ o ∈ outpointsOf s.client.txCollateral.vin, o ∉ s.user
  | .statusUpdate _ newState _ newAccepted _ =>
      s.client.state ≠ PoolStatus.POOL_STATUS_ERROR.code → s.client.state ≠ PoolStatus.POOL_STATUS_SUCCESS.code →
      newState = PoolStatus.POOL_STATUS_IDLE.code → newAccepted ≠ 0 → s.client.setLockedCoins ⊆ s.user
  | _ => True

namespace MixingClient

variable {user : Finset COutPoint} {c : MixingClient} {env : ClientEnv}

/-- What holds of the locks. -/
structure Sound (user : Finset COutPoint) (c : MixingClient) : Prop where
  recorded : ∀ o ∈ c.setLockedCoins, o ∉ user → o ∈ outpointsOf c.lockedCoins
  locked : user ⊆ c.setLockedCoins
  apart : ∀ o ∈ outpointsOf c.lockedCoins, o ∉ user

/-- Only the user's coins are locked. -/
def Clear (user : Finset COutPoint) (c : MixingClient) : Prop := c.setLockedCoins = user ∧ c.lockedCoins = []

/-- What each event keeps. -/
structure Kept (user : Finset COutPoint) (c : MixingClient) : Prop where
  sound : c.Sound user
  idle : c.state = PoolStatus.POOL_STATUS_IDLE.code → c.setLockedCoins ⊆ user

theorem error_ne_idle : PoolStatus.POOL_STATUS_ERROR.code ≠ PoolStatus.POOL_STATUS_IDLE.code := by decide
theorem queue_ne_idle : PoolStatus.POOL_STATUS_QUEUE.code ≠ PoolStatus.POOL_STATUS_IDLE.code := by decide
theorem accepting_ne_idle : PoolStatus.POOL_STATUS_ACCEPTING_ENTRIES.code ≠ PoolStatus.POOL_STATUS_IDLE.code := by
  decide

theorem Sound.congr (h : c.Sound user) {c' : MixingClient} (hset : c'.setLockedCoins = c.setLockedCoins)
    (hlocked : c'.lockedCoins = c.lockedCoins) : c'.Sound user := by
  refine ⟨?_, ?_, ?_⟩
  · rw [hset, hlocked]
    exact h.recorded
  · rw [hset]
    exact h.locked
  · rw [hlocked]
    exact h.apart

/-- **`UnlockCoins` leaves the user's coins locked**, and no others. -/
theorem Sound.unlockCoins (h : c.Sound user) : c.unlockCoins.Clear user := by
  refine ⟨Finset.ext fun o => ?_, rfl⟩
  rw [MixingClient.unlockCoins, Finset.mem_sdiff]
  refine ⟨fun ho => ?_, fun ho => ⟨h.locked ho, fun hrecorded => h.apart o hrecorded ho⟩⟩
  by_contra hnot
  exact ho.2 (h.recorded o ho.1 hnot)

theorem Clear.kept (h : c.Clear user) : c.Kept user := by
  obtain ⟨hset, hnil⟩ := h
  refine ⟨⟨fun o ho hnot => absurd (hset ▸ ho) hnot, hset.symm.subset, fun o ho => ?_⟩, fun _ => hset.subset⟩
  rw [hnil] at ho
  exact absurd ho (Finset.notMem_empty o)

theorem Sound.release (h : c.Sound user) : (c.release env).Clear user := h.unlockCoins

theorem Kept.updateState (h : c.Kept user) {newState : UInt32} (hbusy : newState ≠ PoolStatus.POOL_STATUS_IDLE.code) :
    (c.updateState env newState).Kept user :=
  ⟨h.sound.congr rfl rfl, fun hidle => absurd hidle hbusy⟩

theorem Kept.check (h : c.Kept user) : (c.check env).Kept user := by
  unfold MixingClient.check
  split
  · have hsigning : (c.updateState env PoolStatus.POOL_STATUS_SIGNING.code).Kept user := h.updateState (by decide)
    simp only
    split
    · exact hsigning.sound.release.kept
    · exact hsigning
  · simp only
    split
    · exact h.sound.release.kept
    · exact h

theorem Kept.checkTimeout (h : c.Kept user) : (c.checkTimeout env).Kept user := by
  have hhanging : (c.checkHanging env).Kept user := by
    unfold checkHanging
    split
    · exact h.check
    · exact h
  have hwaiting : ∀ c : MixingClient, c.Kept user → (c.checkWaiting env).Kept user := by
    intro c h
    unfold checkWaiting
    split
    · have hdropped : (c.dropExpired env).Kept user := by
        unfold dropExpired
        simp only
        split
        · exact h.sound.release.kept
        · exact ⟨h.sound.congr rfl rfl, h.idle⟩
      simp only
      split
      · exact hdropped.sound.release.kept
      · exact hdropped
    · split
      · exact h.sound.release.kept.updateState (by decide)
      · exact h
  unfold MixingClient.checkTimeout
  split
  · exact h
  · have hdone := hwaiting _ hhanging
    unfold checkSigning
    split
    · exact hdone.sound.release.kept.updateState (by decide)
    · exact hdone

/-- A status update keeps the locks, unless it makes the pool idle with coins locked. -/
theorem Kept.statusUpdate (h : c.Kept user) {newState : UInt32} {newEntriesCount newAccepted newSessionID : ℤ}
    (hidle : c.state ≠ PoolStatus.POOL_STATUS_ERROR.code → c.state ≠ PoolStatus.POOL_STATUS_SUCCESS.code →
      newState = PoolStatus.POOL_STATUS_IDLE.code → newAccepted ≠ 0 → c.setLockedCoins ⊆ user) :
    (c.statusUpdate env newState newEntriesCount newAccepted newSessionID).Kept user := by
  unfold MixingClient.statusUpdate
  split
  · exact h
  rename_i hlive
  rw [not_or] at hlive
  have hanswered : ({ c.updateState env newState with entriesCount := newEntriesCount }.answered env newAccepted
      newSessionID).Kept user := by
    unfold answered
    split
    · rename_i hnone
      exact ⟨h.sound.congr rfl rfl, fun hnow => hidle hlive.1 hlive.2 hnow (by omega)⟩
    · by_cases hrefused : newAccepted = 0
      · rw [if_pos hrefused, if_neg fun hand => by omega]
        exact ⟨h.sound.congr rfl rfl, fun hnow => absurd hnow error_ne_idle⟩
      · rw [if_neg hrefused]
        split
        · exact ⟨h.sound.congr rfl rfl, fun hnow => hidle hlive.1 hlive.2 hnow hrefused⟩
        · exact ⟨h.sound.congr rfl rfl, fun hnow => hidle hlive.1 hlive.2 hnow hrefused⟩
  simp only
  split
  · split
    · exact ⟨hanswered.sound.congr rfl rfl, fun hnow => absurd hnow queue_ne_idle⟩
    · split
      · exact hanswered.sound.unlockCoins.kept.updateState (by decide)
      · exact hanswered
  · exact hanswered

theorem Kept.completedTransaction (h : c.Kept user) (error : Bool) :
    (c.completedTransaction env error).Kept user := by
  unfold MixingClient.completedTransaction
  split
  · exact (h.updateState (by decide)).check.sound.release.kept
  · exact (h.updateState (by decide)).sound.release.kept

theorem Kept.doAutomaticDenominating (h : c.Kept user) (newCollateral : Option CTransaction) (newDenom : Option ℤ) :
    (c.doAutomaticDenominating env newCollateral newDenom).Kept user := by
  unfold MixingClient.doAutomaticDenominating
  split
  · exact h
  · have hclean : ((c.release env).updateState env PoolStatus.POOL_STATUS_ACCEPTING_ENTRIES.code).Kept user :=
      h.sound.release.kept.updateState (by decide)
    exact ⟨hclean.sound.congr rfl rfl, hclean.idle⟩

/-! ### Coins that are picked -/

/-- Each coin is left, or in the result. -/
theorem Picking.tryAdd_perm (p : Picking) (v : ℤ) :
    ((p.tryAdd env v).vCoins.map Prod.fst ++ (p.tryAdd env v).vCoinsResult).Perm
      (p.vCoins.map Prod.fst ++ p.vCoinsResult) := by
  unfold Picking.tryAdd
  split
  · exact .refl _
  · split
    · exact .refl _
    · rename_i coin hfind
      have hperm := (List.perm_cons_erase (List.mem_of_find?_eq_some hfind)).map Prod.fst
      refine .trans ?_ (hperm.append_right p.vCoinsResult).symm
      simp only [List.map_cons, List.cons_append]
      rw [← List.append_assoc]
      exact List.perm_append_singleton _ _

theorem Picking.steps_perm (env : ClientEnv) (sessionDenom : ℤ) (n : ℕ) (p : Picking) :
    ((p.steps env sessionDenom n).vCoins.map Prod.fst ++ (p.steps env sessionDenom n).vCoinsResult).Perm
      (p.vCoins.map Prod.fst ++ p.vCoinsResult) := by
  have hfold : ∀ (l : List ℤ) (p : Picking),
      ((l.foldl (Picking.tryAdd env) p).vCoins.map Prod.fst ++ (l.foldl (Picking.tryAdd env) p).vCoinsResult).Perm
        (p.vCoins.map Prod.fst ++ p.vCoinsResult) := by
    intro l
    induction l with
    | nil => exact fun p => .refl _
    | cons v l ih => exact fun p => (ih (p.tryAdd env v)).trans (p.tryAdd_perm v)
  induction n generalizing p with
  | zero => exact .refl _
  | succ n ih =>
    rw [Picking.steps]
    split
    · exact hfold _ p
    · exact (ih _).trans (hfold _ p)

theorem mem_outpointsOf {vin : List CTxIn} {o : COutPoint} : o ∈ outpointsOf vin ↔ o ∈ vin.map CTxIn.prevout :=
  List.mem_toFinset

/-- What is picked was not locked, and each of its coins is left or in the result. -/
theorem picked_spec {vCoins : List (CTxIn × ℤ)} {p : Picking} (h : c.picked env = some (vCoins, p)) :
    (∀ o ∈ outpointsOf (vCoins.map Prod.fst), o ∉ c.setLockedCoins) ∧
      ∀ o, o ∈ outpointsOf (vCoins.map Prod.fst) ↔
        o ∈ outpointsOf (p.vCoins.map Prod.fst) ∨ o ∈ outpointsOf p.vCoinsResult := by
  unfold picked at h
  split at h
  · cases h
  split at h
  · cases h
  obtain ⟨vCoins', hselect, heq⟩ := Option.map_eq_some_iff.1 h
  obtain ⟨rfl, rfl⟩ := Prod.mk.inj heq
  constructor
  · intro o ho
    obtain ⟨txin, htxin, rfl⟩ := List.mem_map.1 (mem_outpointsOf.1 ho)
    obtain ⟨coin, hcoin, rfl⟩ := List.mem_map.1 htxin
    exact env.select_unlocked _ _ _ hselect coin hcoin
  · intro o
    have hperm := (Picking.steps_perm env c.sessionDenom env.nStepsMax
      { vCoins := vCoins', nValueLeft := (vCoins'.map Prod.snd).sum }).map CTxIn.prevout
    rw [List.append_nil, List.map_append] at hperm
    rw [mem_outpointsOf, mem_outpointsOf, mem_outpointsOf, ← hperm.mem_iff, List.mem_append]

/-- With a collateral, what is submitted is recorded; and a refusal releases it. -/
theorem sendDarksendDenominate_kept [Crypto] {vin : List CTxIn} {vout : List CTxOut} {amount : ℤ}
    (hrecorded : ∀ o ∈ c.setLockedCoins, o ∉ user → o ∈ outpointsOf c.lockedCoins ∨ o ∈ outpointsOf vin)
    (huser : user ⊆ c.setLockedCoins) (hlocked : ∀ o ∈ outpointsOf c.lockedCoins, o ∉ user)
    (hvin : ∀ o ∈ outpointsOf vin, o ∉ user) (hset : c.txCollateral.getHash ≠ (noTransaction env).getHash)
    (hcollateral : ∀ o ∈ outpointsOf c.txCollateral.vin, o ∉ user) :
    (c.sendDarksendDenominate env vin vout amount).1.Kept user ∧
      ((c.sendDarksendDenominate env vin vout amount).2 = true →
        (c.sendDarksendDenominate env vin vout amount).1.setLockedCoins ⊆ user) := by
  have hsound : ({ c with lockedCoins := c.lockedCoins ++ c.txCollateral.vin ++ vin } : MixingClient).Sound user := by
    have hmem : ∀ o, o ∈ outpointsOf (c.lockedCoins ++ c.txCollateral.vin ++ vin) ↔
        (o ∈ outpointsOf c.lockedCoins ∨ o ∈ outpointsOf c.txCollateral.vin) ∨ o ∈ outpointsOf vin := by
      intro o
      simp only [mem_outpointsOf, List.map_append, List.mem_append]
    refine ⟨fun o ho hnot => (hmem o).2 ?_, huser, fun o ho => ?_⟩
    · exact (hrecorded o ho hnot).imp_left .inl
    · rcases (hmem o).1 ho with (ho | ho) | ho
      · exact hlocked o ho
      · exact hcollateral o ho
      · exact hvin o ho
  have hrefused : ∀ c' : MixingClient, c'.Clear user →
      (c', true).1.Kept user ∧ ((c', true).2 = true → (c', true).1.setLockedCoins ⊆ user) :=
    fun c' hclear => ⟨hclear.kept, fun _ => hclear.1.subset⟩
  unfold sendDarksendDenominate
  rw [if_neg hset]
  simp only
  split
  · exact hrefused _ hsound.release
  split
  · exact hrefused _ hsound.release
  have haccepting : ∀ newState, (updateState env newState
      { c with lockedCoins := c.lockedCoins ++ c.txCollateral.vin ++ vin }).Sound user := fun _ => hsound.congr rfl rfl
  split
  · exact hrefused _ (haccepting _).release
  · have hsubmitted : ∀ c' : MixingClient, c'.Kept user → (c'.check env, false).1.Kept user ∧
        ((c'.check env, false).2 = true → (c'.check env, false).1.setLockedCoins ⊆ user) :=
      fun c' hkept => ⟨hkept.check, nofun⟩
    exact hsubmitted _ ⟨hsound.congr rfl rfl, fun hidle => absurd hidle accepting_ne_idle⟩

theorem picked_of_submits {p : Picking} (h : c.submits env = some p) : ∃ vCoins, c.picked env = some (vCoins, p) := by
  obtain ⟨hmap, -⟩ := Option.filter_eq_some_iff.1 h
  obtain ⟨⟨vCoins, p'⟩, hpicked, rfl⟩ := Option.map_eq_some_iff.1 hmap
  exact ⟨vCoins, hpicked⟩

/-- What is picked is unlocked again, or submitted. -/
theorem prepareDarksendDenominate_kept [Crypto] (h : c.Kept user)
    (hcareful : ∀ p, c.submits env = some p →
      if c.txCollateral.getHash = (noTransaction env).getHash then p.vCoinsResult = [] ∧ c.setLockedCoins ⊆ user
      else ∀ o ∈ outpointsOf c.txCollateral.vin, o ∉ user) :
    (c.prepareDarksendDenominate env).1.Kept user ∧ ((c.prepareDarksendDenominate env).2 = true →
      (c.prepareDarksendDenominate env).1.setLockedCoins ⊆ user) := by
  unfold prepareDarksendDenominate
  cases hpicked : c.picked env with
  | none => exact ⟨h, nofun⟩
  | some found =>
    obtain ⟨vCoins, p⟩ := found
    obtain ⟨hunlocked, hsplit⟩ := picked_spec hpicked
    -- after the coins that are left are unlocked, what is new is the result
    have hset : ∀ o, o ∈ (c.setLockedCoins ∪ outpointsOf (vCoins.map Prod.fst)) \ outpointsOf (p.vCoins.map Prod.fst) →
        o ∈ c.setLockedCoins ∨ o ∈ outpointsOf p.vCoinsResult := by
      intro o ho
      rw [Finset.mem_sdiff, Finset.mem_union, hsplit] at ho
      exact ho.1.imp_right fun hnew => hnew.resolve_left ho.2
    have hnew : ∀ o, o ∈ outpointsOf (p.vCoins.map Prod.fst) ∨ o ∈ outpointsOf p.vCoinsResult → o ∉ c.setLockedCoins :=
      fun o ho => hunlocked o ((hsplit o).2 ho)
    have hold : user ⊆ (c.setLockedCoins ∪ outpointsOf (vCoins.map Prod.fst)) \ outpointsOf (p.vCoins.map Prod.fst) := by
      intro o ho
      rw [Finset.mem_sdiff, Finset.mem_union]
      exact ⟨.inl (h.sound.locked ho), fun hleft => hnew o (.inl hleft) (h.sound.locked ho)⟩
    simp only
    split
    · have hback : ∀ o, o ∈ ((c.setLockedCoins ∪ outpointsOf (vCoins.map Prod.fst)) \
          outpointsOf (p.vCoins.map Prod.fst)) \ outpointsOf p.vCoinsResult → o ∈ c.setLockedCoins := by
        intro o ho
        rw [Finset.mem_sdiff] at ho
        exact (hset o ho.1).resolve_right ho.2
      refine ⟨⟨⟨fun o ho => h.sound.recorded o (hback o ho), fun o ho => ?_, h.sound.apart⟩,
        fun hidle o ho => h.idle hidle (hback o ho)⟩, nofun⟩
      rw [Finset.mem_sdiff]
      exact ⟨hold ho, fun hresult => hnew o (.inr hresult) (h.sound.locked ho)⟩
    · rename_i hdenominations
      have hsubmits : c.submits env = some p := by
        rw [submits, hpicked, Option.map_some, Option.filter_some, if_pos (decide_eq_true (not_not.1 hdenominations))]
      have hcase := hcareful p hsubmits
      split at hcase
      · rename_i hnone
        obtain ⟨hnil, hclear⟩ := hcase
        have hback : ∀ o, o ∈ (c.setLockedCoins ∪ outpointsOf (vCoins.map Prod.fst)) \
            outpointsOf (p.vCoins.map Prod.fst) → o ∈ c.setLockedCoins := fun o ho =>
          (hset o ho).resolve_right fun hresult => by
            rw [hnil] at hresult
            exact absurd hresult (Finset.notMem_empty o)
        unfold sendDarksendDenominate
        rw [if_pos hnone]
        exact ⟨⟨⟨fun o ho => h.sound.recorded o (hback o ho), hold, h.sound.apart⟩,
          fun _ o ho => hclear (hback o ho)⟩, fun _ o ho => hclear (hback o ho)⟩
      · rename_i hcollateral
        refine sendDarksendDenominate_kept (fun o ho hnot => ?_) hold h.sound.apart (fun o ho huser => ?_) hcollateral hcase
        · exact (hset o ho).imp_left fun hbefore => h.sound.recorded o hbefore hnot
        · exact hnew o (.inr ho) (h.sound.locked huser)

end MixingClient

/-! ### Runs -/

namespace ClientWatch

variable [Crypto] {s : ClientWatch}

/-- What each event keeps: what holds of the locks, and that no coin but the user's is locked when the pool has just
refused. -/
structure Safe (s : ClientWatch) : Prop where
  kept : s.client.Kept s.user
  refused : s.refused = true → s.client.setLockedCoins ⊆ s.user

/-- Each careful event keeps the locks. -/
theorem Safe.step (h : s.Safe) (e : ClientEvent) (hcareful : s.Careful e) : (s.step e).Safe := by
  obtain ⟨⟨⟨hrecorded, hlocked, hapart⟩, hidle⟩, -⟩ := h
  have hkept : s.client.Kept s.user := ⟨⟨hrecorded, hlocked, hapart⟩, hidle⟩
  cases e with
  | lockCoin output =>
    refine ⟨⟨⟨fun o ho hnot => ?_, Finset.insert_subset_insert output hlocked, fun o ho huser => ?_⟩,
      fun hnow => Finset.insert_subset_insert output (hidle hnow)⟩, nofun⟩
    · rw [ClientWatch.step, Finset.mem_insert, not_or] at hnot
      exact hrecorded o ((Finset.mem_insert.1 ho).resolve_left hnot.1) hnot.2
    · rcases Finset.mem_insert.1 huser with rfl | huser
      · exact hcareful ho
      · exact hapart o ho huser
  | unlockCoin output =>
    refine ⟨⟨⟨fun o ho hnot => ?_, Finset.erase_subset_erase output hlocked, fun o ho huser =>
      hapart o ho (Finset.mem_of_mem_erase huser)⟩, fun hnow => Finset.erase_subset_erase output (hidle hnow)⟩, nofun⟩
    obtain ⟨hne, ho⟩ := Finset.mem_erase.1 ho
    exact hrecorded o ho fun huser => hnot (Finset.mem_erase.2 ⟨hne, huser⟩)
  | unlockAllCoins =>
    exact ⟨⟨⟨fun o ho => absurd ho (Finset.notMem_empty o), Finset.Subset.refl _, fun o _ => Finset.notMem_empty o⟩,
      fun _ => Finset.Subset.refl _⟩, nofun⟩
  | stopMixing => exact ⟨hkept.sound.unlockCoins.kept, nofun⟩
  | reset env =>
    have hsound : ({ s.client with txCollateral := MixingClient.noTransaction env } : MixingClient).Sound s.user :=
      hkept.sound.congr rfl rfl
    exact ⟨hsound.release.kept, nofun⟩
  | doAutomaticDenominating env newCollateral newDenom => exact ⟨hkept.doAutomaticDenominating _ _, nofun⟩
  | prepare env =>
    obtain ⟨hafter, hrefused⟩ := MixingClient.prepareDarksendDenominate_kept hkept hcareful
    exact ⟨hafter, hrefused⟩
  | statusUpdate env newState newEntriesCount newAccepted newSessionID => exact ⟨hkept.statusUpdate hcareful, nofun⟩
  | signFinal env signSignature finalTransactionNew =>
    simp only [ClientWatch.step, MixingClient.signFinal]
    split
    · exact ⟨hkept.sound.release.kept, fun _ => hkept.sound.release.1.subset⟩
    · exact ⟨hkept, nofun⟩
  | completed env error => exact ⟨hkept.completedTransaction error, nofun⟩
  | check env => exact ⟨hkept.check, nofun⟩
  | checkTimeout env => exact ⟨hkept.checkTimeout, nofun⟩

/-- A client that does not mix, with the coins that the user has locked. -/
def start (user : Finset COutPoint) : ClientWatch := ⟨{ setLockedCoins := user }, user, false⟩

end ClientWatch

namespace ClientSample

open Sample SessionSample

/-- The wallet has one coin of a denomination, which it picks if it is not locked. -/
def select (_ : ℤ) (locked : Finset COutPoint) : Option (List (CTxIn × ℤ)) :=
  if (spends 1).prevout ∈ locked then none else some [(spends 1, COIN + 1000)]

theorem select_unlocked (sessionDenom : ℤ) (locked : Finset COutPoint) (vCoins : List (CTxIn × ℤ))
    (h : select sessionDenom locked = some vCoins) : ∀ c ∈ vCoins, c.1.prevout ∉ locked := by
  unfold select at h
  split at h
  · cases h
  · rename_i hfree
    cases h
    simpa using hfree

def client : ClientEnv where
  time := 100
  timeMillis := 100000
  adjustedTime := 100
  view := SessionSample.env.view
  select := select
  select_unlocked := select_unlocked
  nStepsMax := 5
  scriptChange := fun _ => (pay 0).scriptPubKey
  shuffleVout := SessionSample.env.shuffleVout

/-- The client joins a session, and submits its coin. -/
def mixing : List ClientEvent :=
  [.doAutomaticDenominating client (some (collateral 0)) (some 8),
    .statusUpdate client PoolStatus.POOL_STATUS_ACCEPTING_ENTRIES.code 0 1 5, .prepare client]

/-- And the session is complete. -/
def mixed : List ClientEvent := mixing ++ [.completed client false]

end ClientSample

end PayDayCoin
