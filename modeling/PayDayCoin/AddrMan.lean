import PayDayCoin.NetAddr
import PayDayCoin.Serialize
import PayDayCoin.Library.Buckets
import Mathlib.Data.Finmap
import Mathlib.Data.Finset.Sort

/-!
# The address manager

`CAddrMan` keeps the addresses of other nodes. Each is an entry under an id: the new ones are in up to four of 256
buckets, and hold how many in `nRefCount`; the tried ones are in one of 64 buckets. `vRandom` is a list of all ids in a
random order, in which each entry knows its place. A full bucket makes room before it takes an entry: an entry is
dropped from a new bucket, and one that was tried moves back to a new bucket.

Ids are natural numbers. What `GetRandInt` draws and the adjusted time are given, and `none` is an assertion that fails.
-/

namespace PayDayCoin

open Library.Buckets

/-! ### Entries -/

/-- `CAddress`. -/
structure CAddress extends CService where
  nServices : UInt64 := 1
  nTime : UInt32 := 100000000
  nLastTry : ℤ := 0
deriving DecidableEq, Repr

/-- `CAddrInfo`: an address and its statistics. -/
structure CAddrInfo extends CAddress where
  /-- From where the address was first known. -/
  source : CNetAddr
  nLastSuccess : ℤ := 0
  nAttempts : ℤ := 0
  /-- In how many new buckets it is. -/
  nRefCount : ℤ := 0
  fInTried : Bool := false
  /-- Its place in `vRandom`. -/
  nRandomPos : ℤ := -1
deriving DecidableEq, Repr

def ADDRMAN_TRIED_BUCKET_COUNT : ℕ := 64
def ADDRMAN_TRIED_BUCKET_SIZE : ℕ := 64
def ADDRMAN_NEW_BUCKET_COUNT : ℕ := 256
def ADDRMAN_NEW_BUCKET_SIZE : ℕ := 64
def ADDRMAN_TRIED_BUCKETS_PER_GROUP : UInt64 := 4
def ADDRMAN_NEW_BUCKETS_PER_SOURCE_GROUP : UInt64 := 32
def ADDRMAN_NEW_BUCKETS_PER_ADDRESS : ℤ := 4
def ADDRMAN_TRIED_ENTRIES_INSPECT_ON_EVICT : ℕ := 4
def ADDRMAN_HORIZON_DAYS : ℤ := 30
def ADDRMAN_RETRIES : ℤ := 3
def ADDRMAN_MAX_FAILURES : ℤ := 10
def ADDRMAN_MIN_FAIL_DAYS : ℤ := 7
def ADDRMAN_GETADDR_MAX_PCT : ℕ := 23
def ADDRMAN_GETADDR_MAX : ℕ := 2500

instance : NeZero ADDRMAN_TRIED_BUCKET_COUNT := ⟨by decide⟩
instance : NeZero ADDRMAN_NEW_BUCKET_COUNT := ⟨by decide⟩

/-- The hash that chooses buckets. -/
class AddrManHash where
  /-- `Hash` of a stream, and of that `Get64`. -/
  hash64 : List UInt8 → UInt64

section Buckets

variable [AddrManHash]

/-- `GetTriedBucket`. -/
def CService.getTriedBucket (addr : CService) (nKey : List UInt8) : Fin ADDRMAN_TRIED_BUCKET_COUNT :=
  let hash1 := AddrManHash.hash64 (vectorBytes nKey ++ vectorBytes addr.getKey)
  let hash2 := AddrManHash.hash64 (vectorBytes nKey ++ vectorBytes (CNetAddr.getGroup addr.ip) ++
    leBytes 8 (hash1 % ADDRMAN_TRIED_BUCKETS_PER_GROUP).toNat)
  ⟨hash2.toNat % ADDRMAN_TRIED_BUCKET_COUNT, Nat.mod_lt _ (by decide)⟩

/-- `GetNewBucket`. -/
def CService.getNewBucket (addr : CService) (nKey : List UInt8) (src : CNetAddr) : Fin ADDRMAN_NEW_BUCKET_COUNT :=
  let vchSourceGroupKey := CNetAddr.getGroup src
  let hash1 := AddrManHash.hash64 (vectorBytes nKey ++ vectorBytes (CNetAddr.getGroup addr.ip) ++
    vectorBytes vchSourceGroupKey)
  let hash2 := AddrManHash.hash64 (vectorBytes nKey ++ vectorBytes vchSourceGroupKey ++
    leBytes 8 (hash1 % ADDRMAN_NEW_BUCKETS_PER_SOURCE_GROUP).toNat)
  ⟨hash2.toNat % ADDRMAN_NEW_BUCKET_COUNT, Nat.mod_lt _ (by decide)⟩

end Buckets

/-- `IsTerrible`. -/
def CAddrInfo.isTerrible (info : CAddrInfo) (nNow : ℤ) : Bool :=
  if info.nLastTry ≠ 0 ∧ nNow - 60 ≤ info.nLastTry then false
  else if nNow + 10 * 60 < info.nTime.toNat then true
  else if info.nTime = 0 ∨ ADDRMAN_HORIZON_DAYS * 86400 < nNow - info.nTime.toNat then true
  else if info.nLastSuccess = 0 ∧ ADDRMAN_RETRIES ≤ info.nAttempts then true
  else if ADDRMAN_MIN_FAIL_DAYS * 86400 < nNow - info.nLastSuccess ∧ ADDRMAN_MAX_FAILURES ≤ info.nAttempts then true
  else false

/-! ### The tables -/

/-- `CAddrMan`. -/
structure CAddrMan where
  nKey : List UInt8
  nIdCount : ℕ := 0
  mapInfo : Finmap fun _ : ℕ => CAddrInfo := ∅
  mapAddr : Finmap fun _ : CNetAddr => ℕ := ∅
  vRandom : List ℕ := []
  nTried : ℤ := 0
  vvTried : Fin ADDRMAN_TRIED_BUCKET_COUNT → List ℕ := fun _ => []
  nNew : ℤ := 0
  vvNew : Fin ADDRMAN_NEW_BUCKET_COUNT → Finset ℕ := fun _ => ∅

/-- `GetRandInt`, of a number that is drawn. -/
def getRandInt (nMax draw : ℕ) : ℕ := if nMax = 0 then 0 else draw % nMax

namespace CAddrMan

variable (m : CAddrMan)

/-- `Find`. -/
def find (addr : CNetAddr) : Option (ℕ × CAddrInfo) :=
  match m.mapAddr.lookup addr with
  | none => none
  | some nId => (m.mapInfo.lookup nId).map fun info => (nId, info)

/-- An entry is changed in place. -/
def modifyInfo (nId : ℕ) (f : CAddrInfo → CAddrInfo) : CAddrMan :=
  { m with
    mapInfo :=
      match m.mapInfo.lookup nId with
      | none => m.mapInfo
      | some info => m.mapInfo.insert nId (f info) }

/-- An entry is put under an id, and at the end of `vRandom`. -/
def enter (nId : ℕ) (info : CAddrInfo) : CAddrMan :=
  { m with
    mapInfo := m.mapInfo.insert nId { info with nRandomPos := m.vRandom.length }
    mapAddr := m.mapAddr.insert info.ip nId
    vRandom := m.vRandom ++ [nId] }

/-- `Create`: the new id is the count of ids. -/
def create (addr : CAddress) (addrSource : CNetAddr) : CAddrMan :=
  { m.enter m.nIdCount { addr with source := addrSource, nLastTry := 0 } with nIdCount := m.nIdCount + 1 }

/-- `SwapRandom`. -/
def swapRandom (nRndPos1 nRndPos2 : ℕ) : Option CAddrMan :=
  if nRndPos1 = nRndPos2 then some m
  else
    match m.vRandom[nRndPos1]?, m.vRandom[nRndPos2]? with
    | some nId1, some nId2 =>
      if nId1 ∈ m.mapInfo ∧ nId2 ∈ m.mapInfo then
        some { (m.modifyInfo nId1 fun info => { info with nRandomPos := nRndPos2 }).modifyInfo nId2
            fun info => { info with nRandomPos := nRndPos1 } with
          vRandom := (m.vRandom.set nRndPos1 nId2).set nRndPos2 nId1 }
      else none
    | _, _ => none

/-! ### Making room -/

/-- The entry that `SelectTried` holds for the least recently tried one, with a position. -/
def older (nTemp nPos : ℕ) : Option (ℕ × ℕ) → Option (ℕ × ℕ)
  | none => some (nTemp, nPos)
  | some (nOldest, nOldestPos) =>
    match m.mapInfo.lookup nTemp, m.mapInfo.lookup nOldest with
    | some infoTemp, some infoOldest =>
      if infoTemp.nLastSuccess < infoOldest.nLastSuccess then some (nTemp, nPos) else some (nOldest, nOldestPos)
    | _, _ => none

/-- The loop of `SelectTried` over the first few positions: the bucket, and the one that it holds. -/
def selectTriedLoop (rnd : ℕ → ℕ) : List ℕ → List ℕ → Option (ℕ × ℕ) → Option (List ℕ × Option (ℕ × ℕ))
  | [], vTried, oldest => some (vTried, oldest)
  | i :: is, vTried, oldest =>
    let nPos := getRandInt (vTried.length - i) (rnd i) + i
    match vTried[nPos]?, vTried[i]? with
    | some nTemp, some nId =>
      match m.older nTemp nPos oldest with
      | none => none
      | oldest => selectTriedLoop rnd is ((vTried.set nPos nId).set i nTemp) oldest
    | _, _ => none

/-- `SelectTried`: the tables after it and the position to replace. -/
def selectTried (nKBucket : Fin ADDRMAN_TRIED_BUCKET_COUNT) (rnd : ℕ → ℕ) : Option (CAddrMan × ℕ) :=
  let vTried := m.vvTried nKBucket
  match m.selectTriedLoop rnd (List.range (min ADDRMAN_TRIED_ENTRIES_INSPECT_ON_EVICT vTried.length)) vTried none with
  | some (vTried, some (_, nOldestPos)) =>
    some ({ m with vvTried := Function.update m.vvTried nKBucket vTried }, nOldestPos)
  | _ => none

/-- An entry without references is deleted. -/
def deleteEntry (nId : ℕ) (info : CAddrInfo) : Option CAddrMan :=
  match info.nRandomPos with
  | .negSucc _ => none
  | .ofNat nRandomPos =>
    match m.swapRandom nRandomPos (m.vRandom.length - 1) with
    | none => none
    | some m =>
      some { m with
        vRandom := m.vRandom.dropLast
        mapAddr := m.mapAddr.erase info.ip
        mapInfo := m.mapInfo.erase nId
        nNew := m.nNew - 1 }

/-- An entry is dropped from a new bucket, and deleted if that was its last one. -/
def dropNew (nId : ℕ) (nUBucket : Fin ADDRMAN_NEW_BUCKET_COUNT) : Option CAddrMan :=
  match m.mapInfo.lookup nId with
  | none => none
  | some info =>
    let m := m.modifyInfo nId fun info => { info with nRefCount := info.nRefCount - 1 }
    match if info.nRefCount - 1 = 0 then m.deleteEntry nId info else some m with
    | none => none
    | some m => some { m with vvNew := takeOut m.vvNew nUBucket nId }

/-- The first of some entries that is terrible. -/
def firstTerrible (nNow : ℤ) : List ℕ → Option (Option ℕ)
  | [] => some none
  | nId :: ids =>
    match m.mapInfo.lookup nId with
    | none => none
    | some info => if info.isTerrible nNow then some (some nId) else firstTerrible nNow ids

/-- The oldest among those of some entries, counted from `nI`, that are picked. -/
def oldestPicked (n : List ℕ) : ℕ → List ℕ → Option ℕ → Option (Option ℕ)
  | _, [], nOldest => some nOldest
  | nI, nId :: ids, nOldest =>
    if nI ∈ n then
      match nOldest with
      | none => oldestPicked n (nI + 1) ids (some nId)
      | some nOld =>
        match m.mapInfo.lookup nId, m.mapInfo.lookup nOld with
        | some info, some infoOld =>
          oldestPicked n (nI + 1) ids (some (if info.nTime < infoOld.nTime then nId else nOld))
        | _, _ => none
    else oldestPicked n (nI + 1) ids nOldest

/-- `ShrinkNew`: the first terrible entry, or else the oldest of four, makes room. -/
def shrinkNew (nUBucket : Fin ADDRMAN_NEW_BUCKET_COUNT) (nNow : ℤ) (rnd : ℕ → ℕ) : Option CAddrMan :=
  let vNew := (m.vvNew nUBucket).sort (· ≤ ·)
  match m.firstTerrible nNow vNew with
  | none => none
  | some (some nId) => m.dropNew nId nUBucket
  | some none =>
    let n := (List.range 4).map fun i => getRandInt vNew.length (rnd i)
    match m.oldestPicked n 0 vNew none with
    | some (some nOldest) => m.dropNew nOldest nUBucket
    | _ => none

/-! ### Moving an entry to the tried buckets -/

section Moving

variable [AddrManHash]

/-- A tried entry goes back to a new bucket, its own or if that is full the one given, and another takes its place. -/
def replaceTried (nKBucket : Fin ADDRMAN_TRIED_BUCKET_COUNT) (nPos nId : ℕ)
    (nOrigin : Fin ADDRMAN_NEW_BUCKET_COUNT) : Option CAddrMan :=
  match (m.vvTried nKBucket)[nPos]? with
  | none => none
  | some nIdOld =>
    match m.mapInfo.lookup nIdOld with
    | none => none
    | some infoOld =>
      let nUBucket := infoOld.getNewBucket m.nKey infoOld.source
      let m := m.modifyInfo nIdOld fun info => { info with fInTried := false, nRefCount := 1 }
      let bucket := if (m.vvNew nUBucket).card < ADDRMAN_NEW_BUCKET_SIZE then nUBucket else nOrigin
      some ({ m with
        vvNew := put m.vvNew bucket nIdOld
        nNew := m.nNew + 1
        vvTried := putAt m.vvTried nKBucket nPos nId }.modifyInfo nId fun info => { info with fInTried := true })

/-- `MakeTried`. -/
def makeTried (nId : ℕ) (nOrigin : Fin ADDRMAN_NEW_BUCKET_COUNT) (rnd : ℕ → ℕ) : Option CAddrMan :=
  if nId ∉ m.vvNew nOrigin then none
  else
    let nErased := (holders m.vvNew nId).card
    let m := { m with vvNew := takeOutAll m.vvNew nId, nNew := m.nNew - 1 }.modifyInfo nId
      fun info => { info with nRefCount := info.nRefCount - nErased }
    match m.mapInfo.lookup nId with
    | none => none
    | some info =>
      if info.nRefCount ≠ 0 then none
      else
        let nKBucket := info.getTriedBucket m.nKey
        if (m.vvTried nKBucket).length < ADDRMAN_TRIED_BUCKET_SIZE then
          some ({ m with vvTried := push m.vvTried nKBucket nId, nTried := m.nTried + 1 }.modifyInfo nId
            fun info => { info with fInTried := true })
        else
          match m.selectTried nKBucket rnd with
          | none => none
          | some (m, nPos) => m.replaceTried nKBucket nPos nId nOrigin

/-! ### The calls -/

/-- `Good_`. The first draw says where the search for a bucket begins. -/
def good (addr : CService) (nTime : ℤ) (rnd : ℕ → ℕ) : Option CAddrMan :=
  match m.find addr.ip with
  | none => some m
  | some (nId, info) =>
    if info.toCService ≠ addr then some m
    else
      let m := m.modifyInfo nId fun info =>
        { info with nLastSuccess := nTime, nLastTry := nTime, nTime := UInt32.ofInt nTime, nAttempts := 0 }
      if info.fInTried then some m
      else
        let nRnd := Fin.ofNat ADDRMAN_NEW_BUCKET_COUNT (getRandInt ADDRMAN_NEW_BUCKET_COUNT (rnd 0))
        match ((List.finRange ADDRMAN_NEW_BUCKET_COUNT).map (· + nRnd)).find? fun nB => nId ∈ m.vvNew nB with
        | none => some m
        | some nUBucket => m.makeTried nId nUBucket fun n => rnd (n + 1)

/-- What `Add_` notes of an address that it knows already. -/
def noteSeen (nId : ℕ) (addr : CAddress) (nTimePenalty now : ℤ) : CAddrMan :=
  let fCurrentlyOnline := now - addr.nTime.toNat < 24 * 60 * 60
  let nUpdateInterval : ℤ := if fCurrentlyOnline then 60 * 60 else 24 * 60 * 60
  m.modifyInfo nId fun info =>
    { info with
      nTime :=
        if addr.nTime ≠ 0 ∧ (info.nTime = 0 ∨
            (info.nTime.toNat : ℤ) < addr.nTime.toNat - nUpdateInterval - nTimePenalty) then
          UInt32.ofInt (max 0 (addr.nTime.toNat - nTimePenalty))
        else info.nTime
      nServices := info.nServices ||| addr.nServices }

/-- `Add_` gives the address no further reference. -/
def refuses (info : CAddrInfo) (addr : CAddress) (draw : ℕ) : Bool :=
  let nFactor := 2 ^ info.nRefCount.toNat
  addr.nTime = 0 ∨ (info.nTime ≠ 0 ∧ addr.nTime ≤ info.nTime) ∨ info.fInTried = true ∨
    info.nRefCount = ADDRMAN_NEW_BUCKETS_PER_ADDRESS ∨ (1 < nFactor ∧ getRandInt nFactor draw ≠ 0)

/-- An entry is put into the new bucket of a source, which makes room if it is full. -/
def refer (nId : ℕ) (source : CNetAddr) (now : ℤ) (rnd : ℕ → ℕ) : Option CAddrMan :=
  match m.mapInfo.lookup nId with
  | none => none
  | some info =>
    let nUBucket := info.getNewBucket m.nKey source
    if nId ∈ m.vvNew nUBucket then some m
    else
      let m := m.modifyInfo nId fun info => { info with nRefCount := info.nRefCount + 1 }
      match if (m.vvNew nUBucket).card = ADDRMAN_NEW_BUCKET_SIZE then m.shrinkNew nUBucket now rnd else some m with
      | none => none
      | some m => some { m with vvNew := put m.vvNew nUBucket nId }

/-- `Add_`: the tables after it, and whether the address is new. -/
def add (addr : CAddress) (source : CNetAddr) (nTimePenalty now : ℤ) (rnd : ℕ → ℕ) : Option (CAddrMan × Bool) :=
  if !CNetAddr.isRoutable addr.ip then some (m, false)
  else
    match m.find addr.ip with
    | some (nId, _) =>
      let m := m.noteSeen nId addr nTimePenalty now
      match m.mapInfo.lookup nId with
      | none => none
      | some info =>
        if refuses info addr (rnd 0) then some (m, false)
        else (m.refer nId source now fun n => rnd (n + 1)).map fun m => (m, false)
    | none =>
      let nId := m.nIdCount
      let m := (m.create addr source).modifyInfo nId fun info =>
        { info with nTime := UInt32.ofInt (max 0 (info.nTime.toNat - nTimePenalty)) }
      ({ m with nNew := m.nNew + 1 }.refer nId source now rnd).map fun m => (m, true)

end Moving

/-- `Attempt_`. -/
def attempt (addr : CService) (nTime : ℤ) : CAddrMan :=
  match m.find addr.ip with
  | none => m
  | some (nId, info) =>
    if info.toCService ≠ addr then m
    else m.modifyInfo nId fun info => { info with nLastTry := nTime, nAttempts := info.nAttempts + 1 }

/-- `Connected_`. -/
def connected (addr : CService) (nTime : ℤ) : CAddrMan :=
  match m.find addr.ip with
  | none => m
  | some (nId, info) =>
    if info.toCService ≠ addr then m
    else m.modifyInfo nId fun info =>
      if 20 * 60 < nTime - info.nTime.toNat then { info with nTime := UInt32.ofInt nTime } else info

/-- What one round of `Select_` draws, and whether the entry is taken by its chance. -/
structure SelectDraw where
  nBucket : ℕ
  nPos : ℕ
  taken : Bool

/-- The bucket that a round looks into. -/
def selectBucket (fTried : Bool) (d : SelectDraw) : List ℕ :=
  if fTried then m.vvTried (Fin.ofNat _ (getRandInt ADDRMAN_TRIED_BUCKET_COUNT d.nBucket))
  else (m.vvNew (Fin.ofNat _ (getRandInt ADDRMAN_NEW_BUCKET_COUNT d.nBucket))).sort (· ≤ ·)

/-- The loop of `Select_` over the rounds given: the address, if one of them takes it. -/
def selectLoop (fTried : Bool) : List SelectDraw → Option (Option CAddress)
  | [] => some none
  | d :: draws =>
    let bucket := m.selectBucket fTried d
    if bucket = [] then selectLoop fTried draws
    else
      match bucket[getRandInt bucket.length d.nPos]? with
      | none => none
      | some nId =>
        match m.mapInfo.lookup nId with
        | none => none
        | some info => if d.taken then some (some info.toCAddress) else selectLoop fTried draws

/-- `Select_`, from the tried entries or the new ones; it changes nothing. -/
def select (fTried : Bool) (draws : List SelectDraw) : Option (Option CAddress) :=
  if m.vRandom = [] then some (some { ip := List.replicate 16 0, port := 0 }) else m.selectLoop fTried draws

/-- The loop of `GetAddr_`, from position `n` on: the tables after it and the addresses. -/
def getAddrLoop (rnd : ℕ → ℕ) : ℕ → CAddrMan → ℕ → Option (CAddrMan × List CAddress)
  | 0, m, _ => some (m, [])
  | left + 1, m, n =>
    match m.swapRandom n (getRandInt (m.vRandom.length - n) (rnd n) + n) with
    | none => none
    | some m =>
      match m.vRandom[n]? with
      | none => none
      | some nId =>
        match m.mapInfo.lookup nId with
        | none => none
        | some info => (getAddrLoop rnd left m (n + 1)).map fun r => (r.1, info.toCAddress :: r.2)

/-- `GetAddr_`. -/
def getAddr (rnd : ℕ → ℕ) : Option (CAddrMan × List CAddress) :=
  getAddrLoop rnd (min (ADDRMAN_GETADDR_MAX_PCT * m.vRandom.length / 100) ADDRMAN_GETADDR_MAX) m 0

end CAddrMan

end PayDayCoin
