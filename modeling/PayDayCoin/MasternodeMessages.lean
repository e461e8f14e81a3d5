import PayDayCoin.AcceptableInputs
import PayDayCoin.Base58
import PayDayCoin.ChainSync
import PayDayCoin.InstantX
import PayDayCoin.Masternode
import PayDayCoin.SignFinalTransaction
import PayDayCoin.Library.Runs
import PayDayCoin.Library.Updates

/-!
# Masternode messages

A masternode is announced by a `dsee` message and pinged by `dseep` messages. A new
announcement is taken when three checks pass: some output of the announced transaction is a collateral that
pays the announced key, a trial spend of the announced input is acceptable, and the input is old
enough. The first check does not look at the announced output, and the second one asks for a coin
less than a collateral. **`listed_locked`** says when the three give what they are meant to give:
if an announced output that is worth the trial is always a collateral that pays the announced key, then
each masternode of the list has locked its own. In `ElectionSample.neighbour_announced` the collateral is
the output next to the announced one.
-/

namespace PayDayCoin

open Library.Runs Library.Checks Library.Updates

/-! ### Messages -/

/-- A text as bytes. -/
def bytesOf (s : String) : List UInt8 := s.toList.map fun c => UInt8.ofNat c.toNat

/-- What the keys are for: `CPubKey::GetID`, and `VerifyMessage` of a key, a signature and a
message. -/
structure KeyScheme where
  getID : List UInt8 → CKeyID
  verifyMessage : List UInt8 → List UInt8 → List UInt8 → Bool

/-- `CScript::SetDestination` of a key. -/
def CScript.setDestination (id : CKeyID) : CScript :=
  [OP_DUP, CScript.OP_HASH160, 20] ++ id.pn ++ [0x88, 0xac]

/-- What a masternode message meets: the clock, the chain and the memory pool, and the node's
own masternode. -/
structure ElectionEnv where
  /-- `GetAdjustedTime()`. -/
  adjustedTime : ℤ
  /-- No shutdown is requested, and `cs_main` is free. -/
  mainLock : Bool := true
  collateralPubKey : CScript
  view : InputsView
  getTransaction : Uint256 → Option CTransaction
  getInputAge : CTxIn → ℤ
  /-- The time of the block in which a transaction got `MASTERNODE_MIN_CONFIRMATIONS`, if its block is known. -/
  confTime : Uint256 → Option ℤ
  poolPeerProtoVersion : ℤ
  /-- `nMasternodeMinProtocol`. -/
  minProtocol : ℤ
  mainNet : Bool
  /-- `IsIPv4() && IsRoutable()`. -/
  isIPV4 : CService → Bool
  toText : CService → String
  /-- `activeMasternode.pubKeyMasternode`, on a masternode whose own input is not known. -/
  activePubKey : Option (List UInt8) := none

/-- A `dsee` message. -/
structure Dsee where
  vin : CTxIn
  addr : CService
  vchSig : List UInt8
  sigTime : ℤ
  pubkey : List UInt8
  pubkey2 : List UInt8
  count : ℤ
  current : ℤ
  lastUpdated : ℤ
  protocolVersion : ℤ
  donationAddress : CScript
  donationPercentage : ℤ
deriving DecidableEq, Repr

/-- A `dseep` message. -/
structure Dseep where
  vin : CTxIn
  vchSig : List UInt8
  sigTime : ℤ
  stop : Bool
deriving DecidableEq, Repr

def MASTERNODE_MIN_CONFIRMATIONS : ℤ := 7
def MASTERNODE_MIN_DSEEP_SECONDS : ℤ := 30 * 60
def MASTERNODE_MIN_DSEE_SECONDS : ℤ := 5 * 60

section Messages

variable [Crypto] (K : KeyScheme) (env : ElectionEnv)

/-- What `Check` reads. -/
def ElectionEnv.checking : MasternodeEnv where
  adjustedTime := env.adjustedTime
  mainLock := env.mainLock
  collateralPubKey := env.collateralPubKey
  acceptableInputs tx := env.view.acceptable tx false false

namespace Dsee

omit [Crypto] in
/-- The text that is signed in a `dsee`. -/
def message (m : Dsee) : List UInt8 :=
  bytesOf (env.toText m.addr) ++ bytesOf (toString m.sigTime) ++ m.pubkey ++ m.pubkey2 ++
    bytesOf (toString m.protocolVersion) ++ bytesOf m.donationAddress.toText ++ bytesOf (toString m.donationPercentage)

/-- The checks that each `dsee` has to pass. -/
def passes (m : Dsee) : Bool :=
  m.sigTime ≤ env.adjustedTime + 60 * 60 && !(m.donationPercentage < 0 || 100 < m.donationPercentage) &&
    env.poolPeerProtoVersion ≤ m.protocolVersion && (CScript.setDestination (K.getID m.pubkey)).length == 25 &&
    (CScript.setDestination (K.getID m.pubkey2)).length == 25 && m.vin.scriptSig.isEmpty &&
    K.verifyMessage m.pubkey m.vchSig (m.message env) &&
    if env.mainNet then m.addr.port == 7214 && env.isIPV4 m.addr else m.addr.port != 7214

end Dsee

/-- `CDarkSendSigner::IsVinAssociatedWithPubkey`. -/
def isVinAssociatedWithPubkey (vin : CTxIn) (pubkey : List UInt8) : Bool :=
  match env.getTransaction vin.prevout.hash with
  | none => false
  | some txVin => txVin.vout.any fun out =>
      out.nValue == getMNCollateral * COIN && out.scriptPubKey == CScript.setDestination (K.getID pubkey)

namespace Dsee

/-- The checks that a new announcement has to pass. -/
def acceptable (m : Dsee) : Bool :=
  isVinAssociatedWithPubkey K env m.vin m.pubkey && env.mainLock &&
    env.view.acceptable (env.checking.trial m.vin) false false &&
    MASTERNODE_MIN_CONFIRMATIONS ≤ env.getInputAge m.vin &&
    (env.confTime m.vin.prevout.hash).all fun time => time ≤ m.sigTime

end Dsee

namespace CMasternode

/-- `CMasternode::UpdateLastSeen`. -/
def updateLastSeen (adjustedTime override : ℤ) (mn : CMasternode) : CMasternode :=
  { mn with lastTimeSeen := if override = 0 then adjustedTime else override }

/-- `CMasternode::Disable`. -/
def disable (mn : CMasternode) : CMasternode := { mn with lastTimeSeen := 0 }

/-- A known masternode takes what is new in an announcement. -/
def takeNewer (m : Dsee) (mn : CMasternode) : CMasternode :=
  if mn.sigTime < m.sigTime then
    CMasternode.check env.checking
      { mn with
        pubkey2 := m.pubkey2
        sigTime := m.sigTime
        sig := m.vchSig
        protocolVersion := m.protocolVersion
        addr := m.addr
        donationAddress := m.donationAddress
        donationPercentage := m.donationPercentage }
  else mn

/-- A known masternode is announced. -/
def announced (m : Dsee) (mn : CMasternode) : CMasternode :=
  if m.count = -1 ∧ mn.pubkey = m.pubkey ∧ !mn.updatedWithin env.adjustedTime MASTERNODE_MIN_DSEE_SECONDS then
    (mn.updateLastSeen env.adjustedTime 0).takeNewer env m
  else mn

/-- The text that is signed in a `dseep` for a masternode. -/
def pingMessage (mn : CMasternode) (m : Dseep) : List UInt8 :=
  bytesOf (env.toText mn.addr) ++ bytesOf (toString m.sigTime) ++ bytesOf (if m.stop then "1" else "0")

/-- A masternode takes a ping: it knows its protocol version, the ping is newer than the last
one, and signed with its second key. -/
def takesPing (mn : CMasternode) (m : Dseep) : Bool :=
  env.poolPeerProtoVersion ≤ mn.protocolVersion && mn.lastDseep < m.sigTime &&
    K.verifyMessage mn.pubkey2 m.vchSig (mn.pingMessage env m)

/-- A masternode after a ping that it takes. -/
def pinged (m : Dseep) (mn : CMasternode) : CMasternode :=
  let mn := { mn with lastDseep := m.sigTime }
  if mn.updatedWithin env.adjustedTime MASTERNODE_MIN_DSEEP_SECONDS then mn
  else if m.stop then mn.disable
  else (mn.updateLastSeen env.adjustedTime 0).check env.checking

end CMasternode

/-- The masternode that a new announcement adds. -/
def Dsee.entry (m : Dsee) : CMasternode :=
  let isP2SH := m.donationAddress.isPayToScriptHash
  CMasternode.updateLastSeen env.adjustedTime m.lastUpdated
    { vin := m.vin
      addr := m.addr
      pubkey := m.pubkey
      pubkey2 := m.pubkey2
      sig := m.vchSig
      sigTime := m.sigTime
      protocolVersion := m.protocolVersion
      donationAddress := if isP2SH then [] else m.donationAddress
      donationPercentage := if isP2SH then 0 else m.donationPercentage }

namespace CMasternodeMan

/-- The masternode that `Find` finds is changed. -/
def modify (vin : CTxIn) (f : CMasternode → CMasternode) (man : CMasternodeMan) : CMasternodeMan where
  vMasternodes := man.vMasternodes.modify (man.vMasternodes.findIdx fun mn => mn.vin.prevout == vin.prevout) f

/-- `CMasternodeMan::Add`. -/
def add (mn : CMasternode) (man : CMasternodeMan) : CMasternodeMan :=
  if !mn.isEnabled then man
  else if (man.find mn.vin).isNone then { vMasternodes := man.vMasternodes ++ [mn] }
  else man

/-- `dsee`. -/
def dsee (m : Dsee) (man : CMasternodeMan) : CMasternodeMan :=
  if !m.passes K env then man
  else if (man.find m.vin).isSome ∧ env.activePubKey ≠ some m.pubkey2 then man.modify m.vin (.announced env m)
  else if m.acceptable K env then man.add (m.entry env)
  else man

/-- `dseep`. -/
def dseep (m : Dseep) (man : CMasternodeMan) : CMasternodeMan :=
  if env.adjustedTime + 60 * 60 < m.sigTime then man
  else if m.sigTime ≤ env.adjustedTime - 60 * 60 then man
  else
    match man.find m.vin with
    | none => man
    | some mn => if mn.takesPing K env m then man.modify m.vin (.pinged env m) else man

/-- `CMasternodeMan::Check`. -/
def check (man : CMasternodeMan) : CMasternodeMan where
  vMasternodes := man.vMasternodes.map (CMasternode.check env.checking)

/-- `CMasternodeMan::CheckAndRemove`. -/
def checkAndRemove (man : CMasternodeMan) : CMasternodeMan where
  vMasternodes := (man.check env).vMasternodes.filter fun mn =>
    !(mn.activeState == .MASTERNODE_REMOVE || mn.activeState == .MASTERNODE_VIN_SPENT ||
      mn.protocolVersion < env.minProtocol)

end CMasternodeMan

end Messages

/-- What happens to the list of masternodes. A `dseg` asks for it. -/
inductive ElectionEvent where
  | dsee (env : ElectionEnv) (m : Dsee)
  | dseep (env : ElectionEnv) (m : Dseep)
  | dseg (vin : CTxIn)
  | check (env : ElectionEnv)
  | checkAndRemove (env : ElectionEnv)

/-- One event. -/
def CMasternodeMan.step [Crypto] (K : KeyScheme) (man : CMasternodeMan) : ElectionEvent → CMasternodeMan
  | .dsee env m => man.dsee K env m
  | .dseep env m => man.dseep K env m
  | .dseg _ => man
  | .check env => man.check env
  | .checkAndRemove env => man.checkAndRemove env

/-! ### Entries keep their input and their key -/

section Entries

variable [Crypto] {K : KeyScheme} {env : ElectionEnv}

namespace CMasternode

omit [Crypto] in
@[simp] theorem check_pubkey (env : MasternodeEnv) (mn : CMasternode) : (mn.check env).pubkey = mn.pubkey := by
  obtain ⟨st, h⟩ := check_eq env mn
  rw [h]

/-- The input and the first key of a masternode, which no message changes. -/
def identity (mn : CMasternode) : CTxIn × List UInt8 := (mn.vin, mn.pubkey)

omit [Crypto] in
@[simp] theorem check_identity (env : MasternodeEnv) (mn : CMasternode) : (mn.check env).identity = mn.identity := by
  rw [identity, check_vin, check_pubkey, identity]

theorem takeNewer_identity (m : Dsee) (mn : CMasternode) : (mn.takeNewer env m).identity = mn.identity := by
  unfold takeNewer
  split
  · rw [check_identity]
    rfl
  · rfl

theorem announced_identity (m : Dsee) (mn : CMasternode) : (mn.announced env m).identity = mn.identity := by
  unfold announced
  split
  · rw [takeNewer_identity]
    rfl
  · rfl

theorem pinged_identity (m : Dseep) (mn : CMasternode) : (mn.pinged env m).identity = mn.identity := by
  unfold pinged
  simp only
  split
  · rfl
  · split
    · rfl
    · rw [check_identity]
      rfl

end CMasternode

namespace CMasternodeMan

open CMasternode (identity)

/-- The inputs and the keys of the masternodes. -/
def identities (man : CMasternodeMan) : List (CTxIn × List UInt8) := man.vMasternodes.map identity

omit [Crypto] in
theorem modify_identities {f : CMasternode → CMasternode} (hf : ∀ mn, (f mn).identity = mn.identity) (vin : CTxIn)
    (man : CMasternodeMan) : (man.modify vin f).identities = man.identities :=
  map_modify_of_eq f hf _ _

theorem check_identities (man : CMasternodeMan) : (man.check env).identities = man.identities := by
  rw [identities, check, List.map_map]
  exact List.map_congr_left fun mn _ => CMasternode.check_identity env.checking mn

/-- What an event does to the inputs and keys: it keeps them, or some of them, or it adds the
ones of an announcement that passes all checks. -/
theorem step_identities (man : CMasternodeMan) (e : ElectionEvent) :
    (man.step K e).identities.Sublist man.identities ∨
      ∃ env m, e = .dsee env m ∧ m.acceptable K env = true ∧ man.find m.vin = none ∧
        (man.step K e).identities = man.identities ++ [(m.vin, m.pubkey)] := by
  cases e with
  | dsee env m =>
    simp only [step, dsee]
    split
    · exact .inl (.refl _)
    · split
      · refine .inl ?_
        rw [modify_identities (CMasternode.announced_identity m)]
      · split
        · rename_i hok
          simp only [add]
          split
          · exact .inl (.refl _)
          · split
            · rename_i hnone
              refine .inr ⟨env, m, rfl, hok, Option.isNone_iff_eq_none.1 hnone, ?_⟩
              rw [identities, List.map_append]
              rfl
            · exact .inl (.refl _)
        · exact .inl (.refl _)
  | dseep env m =>
    simp only [step, dseep]
    split
    · exact .inl (.refl _)
    · split
      · exact .inl (.refl _)
      · split
        · exact .inl (.refl _)
        · split
          · refine .inl ?_
            rw [modify_identities (CMasternode.pinged_identity m)]
          · exact .inl (.refl _)
  | dseg vin => exact .inl (.refl _)
  | check env =>
    refine .inl ?_
    rw [step, check_identities]
  | checkAndRemove env =>
    refine .inl ?_
    have hsame : (man.check env).identities = man.identities := check_identities man
    rw [← hsame]
    exact List.filter_sublist.map _

/-- No two masternodes have the same outpoint. -/
def Unrepeated (man : CMasternodeMan) : Prop := (man.identities.map fun i => i.1.prevout).Nodup

theorem Unrepeated.step {man : CMasternodeMan} (h : man.Unrepeated) (e : ElectionEvent) : (man.step K e).Unrepeated := by
  rcases step_identities (K := K) man e with hsub | ⟨env, m, -, -, hnone, heq⟩
  · exact (hsub.map _).nodup h
  · rw [Unrepeated, heq, List.map_append]
    refine List.nodup_append.2 ⟨h, List.nodup_singleton _, ?_⟩
    intro o ho o' ho' heq
    obtain rfl := List.mem_singleton.1 ho'
    obtain ⟨i, hi, rfl⟩ := List.mem_map.1 ho
    obtain ⟨mn, hmn, rfl⟩ := List.mem_map.1 hi
    have hother := List.find?_eq_none.1 hnone mn hmn
    exact hother (beq_iff_eq.2 heq)

end CMasternodeMan

end Entries

/-! ### Collaterals -/

section Collateral

variable [Crypto] {K : KeyScheme} {env : ElectionEnv}

/-- The output that the trial spend of an input finds. -/
def ElectionEnv.ownOutput (env : ElectionEnv) (vin : CTxIn) : Option CTxOut :=
  match (env.checking.trial vin).fetchInputs env.view.env.disk env.view.mempool.lookup env.view.txIndex Caller.mempool
    Library.Overlay.nothing with
  | .ok inputs => (CTransaction.getOutputFor inputs vin).toOption
  | .error _ => none

/-- What the trial spend pays. -/
def trialValue : ℤ := (getMNCollateral - 1) * COIN

/-- A collateral for a key. -/
def collateralFor (K : KeyScheme) (pubkey : List UInt8) : CTxOut :=
  ⟨getMNCollateral * COIN, CScript.setDestination (K.getID pubkey)⟩

/-- **What the trial spend shows**: the announced output is worth what the trial pays. -/
theorem ownOutput_of_acceptable {vin : CTxIn}
    (h : env.view.acceptable (env.checking.trial vin) false false = true) :
    ∃ out, env.ownOutput vin = some out ∧ trialValue ≤ out.nValue := by
  obtain ⟨inputs, nValueIn, nValueOut, hfetch, hin, hout, hcover⟩ := fetched_of_acceptable h
  have hpaid : nValueOut = trialValue := by
    simp only [CTransaction.getValueOut, MasternodeEnv.trial, List.foldlM_cons, List.foldlM_nil, CTransaction.addValueOut,
      bind_eq_ok, pure_eq_ok] at hout
    obtain ⟨n, ⟨_, -, hn⟩, hout⟩ := hout
    rw [← hout, ← hn, Int.zero_add]
    rfl
  have hfound : ∃ out, (CTransaction.getOutputFor inputs vin) = .ok out ∧ nValueIn = out.nValue := by
    have hvin : (env.checking.trial vin).vin = [vin] := rfl
    rw [hvin, List.foldlM_cons] at hin
    simp only [List.foldlM_nil, CTransaction.checkInput, bind_eq_ok, orReject_eq_ok, pure_eq_ok] at hin
    obtain ⟨n, ⟨p, hp, out, hnth, _, -, _, -, _, -, _, -, hn⟩, hin⟩ := hin
    refine ⟨out, ?_, ?_⟩
    · simp only [CTransaction.getOutputFor, bind_eq_ok, orReject_eq_ok]
      exact ⟨p, hp, hnth⟩
    · rw [← hin, ← hn, Int.zero_add]
  obtain ⟨out, hget, hvalue⟩ := hfound
  refine ⟨out, ?_, ?_⟩
  · simp only [ElectionEnv.ownOutput, hfetch, hget]
    rfl
  · rw [← hvalue, ← hpaid]
    exact hcover

/-- The announced output of a `dsee` is the collateral, if some output of the transaction is
and the announced one is worth the trial. -/
def OwnCollateral (K : KeyScheme) : ElectionEvent → Prop
  | .dsee env m => isVinAssociatedWithPubkey K env m.vin m.pubkey = true →
      ∀ out, env.ownOutput m.vin = some out → trialValue ≤ out.nValue → out = collateralFor K m.pubkey
  | _ => True

namespace CMasternodeMan

/-- **Each masternode of the list has locked a collateral of its own**, in every run of messages whose
announcements name collaterals: when it was announced, its own previous output was a
full collateral that pays its key. -/
theorem listed_locked (K : KeyScheme) (events : List ElectionEvent)
    (hown : Along (CMasternodeMan.step K) (fun _ e => OwnCollateral K e) {} events) (n : ℕ) :
    let man := run (CMasternodeMan.step K) {} (events.take n)
    (man.vMasternodes.map fun mn => mn.vin.prevout).Nodup ∧
      ∀ mn ∈ man.vMasternodes, ∃ i env m, i < n ∧ events[i]? = some (.dsee env m) ∧ m.vin = mn.vin ∧
        m.pubkey = mn.pubkey ∧ env.ownOutput mn.vin = some (collateralFor K mn.pubkey) := by
  intro man
  have hunrepeated : man.Unrepeated := run_induct (fun e _ s hs => hs.step e) List.nodup_nil
  refine ⟨?_, fun mn hmn => ?_⟩
  · rw [Unrepeated, identities, List.map_map] at hunrepeated
    exact hunrepeated
  have hnow : mn.identity ∈ man.identities := List.mem_map_of_mem hmn
  obtain ⟨i, e, hi, he, hbefore, hafter⟩ :=
    exists_origin (Q := fun man : CMasternodeMan => mn.identity ∈ man.identities) List.not_mem_nil hnow
  rw [run_take_succ he] at hafter
  rcases step_identities (K := K) (run (CMasternodeMan.step K) {} (events.take i)) e with hsub | ⟨env, m, rfl, hok, -, heq⟩
  · exact absurd (hsub.subset hafter) hbefore
  rw [heq, List.mem_append, List.mem_singleton] at hafter
  obtain ⟨hvin, hkey⟩ := Prod.mk.inj (hafter.resolve_left hbefore)
  refine ⟨i, env, m, hi, he, hvin.symm, hkey.symm, ?_⟩
  simp only [Dsee.acceptable, Bool.and_eq_true] at hok
  obtain ⟨⟨⟨⟨hassociated, -⟩, htrial⟩, -⟩, -⟩ := hok
  obtain ⟨out, hout, hvalue⟩ := ownOutput_of_acceptable htrial
  have hcollateral := along_iff_forall.1 hown i _ he hassociated out hout hvalue
  rw [hvin, hkey, hout, hcollateral]

end CMasternodeMan

end Collateral

namespace ElectionSample

open Sample

theorem length_id (key : List UInt8) : (List.replicate 20 (key.headD 0)).length = 20 := List.length_replicate

/-- A signature is good if it is the key. -/
def keys : KeyScheme where
  getID key := ⟨List.replicate 20 (key.headD 0), length_id key⟩
  verifyMessage key vchSig _ := vchSig == key

/-- A collateral for the key `2`, and next to it an output of another key that is worth more. -/
def locking : CTransaction where
  nTime := 0
  vin := [⟨⟨5, 0⟩, [], 0xffffffff⟩]
  vout := [⟨20000 * COIN, CScript.setDestination (keys.getID [2])⟩, ⟨25000 * COIN, CScript.setDestination (keys.getID [9])⟩]

/-- The node has the transaction on disk. -/
def env : ElectionEnv where
  adjustedTime := 100000
  collateralPubKey := []
  view :=
    { params := CChainParams.test
      env := { memPoolEnv with
        disk := { disk with readTx := fun _ _ => some locking, readTxIndexOk := fun _ _ => true } }
      best := ⟨[genesis], 0⟩
      txIndex := fun hash => if hash = 100 then some (CTxIndex.new ⟨1, 2, 3⟩ 2) else none
      mempool := { mapTx := ∅ } }
  getTransaction hash := if hash = 100 then some locking else none
  getInputAge _ := 10
  confTime _ := some 50000
  poolPeerProtoVersion := 60029
  minProtocol := 60028
  mainNet := true
  isIPV4 _ := true
  toText _ := "1.2.3.4:7214"

/-- The announcement of an output of the transaction. -/
def announcement (n : UInt32) : Dsee where
  vin := ⟨⟨100, n⟩, [], 0xffffffff⟩
  addr := ⟨[1, 2, 3, 4], 7214⟩
  vchSig := [2]
  sigTime := 99000
  pubkey := [2]
  pubkey2 := [3]
  count := -1
  current := -1
  lastUpdated := 99000
  protocolVersion := 60029
  donationAddress := []
  donationPercentage := 0

/-- **The output next to a collateral is announced**, and listed, though it is not a
collateral and not of the key. -/
theorem neighbour_announced :
    let man := run (CMasternodeMan.step keys) {} [.dsee env (announcement 0), .dsee env (announcement 1)]
    man.vMasternodes.map CMasternode.vin = [(announcement 0).vin, (announcement 1).vin] ∧
      env.ownOutput (announcement 1).vin = some ⟨25000 * COIN, CScript.setDestination (keys.getID [9])⟩ ∧
      env.ownOutput (announcement 1).vin ≠ some (collateralFor keys [2]) := by
  refine ⟨?_, ?_, ?_⟩ <;> decide

/-- A masternode that announces its collateral has it locked. -/
theorem collateral_locked :
    (run (CMasternodeMan.step keys) {} ([.dsee env (announcement 0)].take 1)).vMasternodes ≠ [] ∧
    ∀ mn ∈ (run (CMasternodeMan.step keys) {} ([.dsee env (announcement 0)].take 1)).vMasternodes,
      ∃ i env' m, i < 1 ∧ [ElectionEvent.dsee env (announcement 0)][i]? = some (.dsee env' m) ∧ m.vin = mn.vin ∧
        m.pubkey = mn.pubkey ∧ env'.ownOutput mn.vin = some (collateralFor keys mn.pubkey) := by
  have hown : OwnCollateral keys (.dsee env (announcement 0)) := fun _ out hout _ => by
    have hfound : env.ownOutput (announcement 0).vin = some (collateralFor keys [2]) := by decide
    rw [hfound] at hout
    exact (Option.some.inj hout).symm
  refine ⟨?_, (CMasternodeMan.listed_locked keys [.dsee env (announcement 0)] ⟨hown, trivial⟩ 1).2⟩
  exact List.ne_nil_of_length_pos (by decide)

end ElectionSample

end PayDayCoin
