import PayDayCoin.SmsgCrypt
import Mathlib.Data.Finset.Max
import Mathlib.Logic.Function.Basic

/-!
# The key pool

The wallet keeps unused keys in its database, each under an index, and the indices in `setKeyPool`. A `CReserveKey`
takes the smallest index out of the set and leaves the record; later it either keeps the key, which erases the
record, or returns the index. `TopUpKeyPool` numbers new records from the largest index of the set, so it does not see
the indices that are reserved.
-/

namespace PayDayCoin

/-- `MakeNewKey` with `GetPubKey`, at each call, and `GetID`. -/
class KeySource where
  newKey : ℕ → CPubKey
  getID : CPubKey → CKeyID

/-- `CKeyPool`. -/
structure CKeyPool where
  vchPubKey : CPubKey
deriving DecidableEq

/-- The exceptions and the assertion of the key pool. -/
inductive PoolError
  /-- `AddKey failed`. -/
  | addKeyFailed
  /-- `writing generated key failed`. -/
  | writeFailed
  /-- `read failed`. -/
  | readFailed
  /-- `unknown key in key pool`. -/
  | unknownKey
  /-- The assertion that the key is valid. -/
  | invalidKey
deriving DecidableEq

/-- Which writes of the key and of the pool record succeed, at each turn of a loop. -/
structure DiskWrites where
  key : ℕ → Bool
  pool : ℕ → Bool

/-- The part of `CWallet` that the key pool uses, with the pool records of its database. -/
structure KeyWallet where
  fFileBacked : Bool := true
  /-- `IsLocked`. -/
  fLocked : Bool := false
  fLiteMode : Bool := false
  /-- `-keypool`. -/
  keypoolArg : Option ℤ := none
  vchDefaultKey : CPubKey := ⟨[0xFF]⟩
  setKeyPool : Finset ℤ := ∅
  pool : ℤ → Option CKeyPool := fun _ => none
  keystore : List CKeyID := []
  /-- How many keys were generated. -/
  nGenerated : ℕ := 0

namespace KeyWallet

/-- `WritePool`, where it succeeds. -/
def writePool (w : KeyWallet) (nIndex : ℤ) (keypool : CKeyPool) : KeyWallet :=
  { w with pool := Function.update w.pool nIndex (some keypool) }

/-- `ErasePool`. -/
def erasePool (w : KeyWallet) (nIndex : ℤ) : KeyWallet :=
  { w with pool := Function.update w.pool nIndex none }

/-- `setKeyPool.insert`. -/
def insertIndex (w : KeyWallet) (nIndex : ℤ) : KeyWallet :=
  { w with setKeyPool := insert nIndex w.setKeyPool }

/-- `max(GetArg("-keypool", ...), 0)`. -/
def keypoolSize (w : KeyWallet) : ℕ := (w.keypoolArg.getD (if w.fLiteMode then 100 else 1000)).toNat

/-- `nTargetSize + 1`, in 32 bits. -/
def targetSize (w : KeyWallet) (nSize : ℕ) : ℕ := ((if 0 < nSize then nSize else w.keypoolSize) + 1) % 2 ^ 32

/-- `nEnd`. -/
def nEnd (w : KeyWallet) : ℤ := if h : w.setKeyPool.Nonempty then w.setKeyPool.max' h + 1 else 1

section Operations

variable [KeySource]

/-- `HaveKey`. -/
def haveKey (w : KeyWallet) (id : CKeyID) : Bool := w.keystore.contains id

/-- `GenerateNewKey`, up to the write of the key. -/
def generateNewKey (w : KeyWallet) : KeyWallet × CPubKey :=
  ({ w with
      keystore := KeySource.getID (KeySource.newKey w.nGenerated) :: w.keystore
      nGenerated := w.nGenerated + 1 },
    KeySource.newKey w.nGenerated)

/-- The loop of `TopUpKeyPool`, from a turn on. -/
def topUpLoop (disk : DiskWrites) (nSize : ℕ) : ℕ → ℕ → KeyWallet → KeyWallet × Except PoolError Bool
  | 0, _, w => (w, .ok true)
  | fuel + 1, turn, w =>
    if w.setKeyPool.card < nSize then
      if !disk.key turn then (w.generateNewKey.1, .error .addKeyFailed)
      else if !disk.pool turn then (w.generateNewKey.1, .error .writeFailed)
      else topUpLoop disk nSize fuel (turn + 1)
        ((w.generateNewKey.1.writePool w.nEnd ⟨w.generateNewKey.2⟩).insertIndex w.nEnd)
    else (w, .ok true)

/-- `TopUpKeyPool`. -/
def topUpKeyPool (disk : DiskWrites) (nSize : ℕ) (w : KeyWallet) : KeyWallet × Except PoolError Bool :=
  if w.fLocked then (w, .ok false)
  else topUpLoop disk (w.targetSize nSize) (w.targetSize nSize) 0 w

/-- The old records and indices are erased. -/
def erasePools (w : KeyWallet) : KeyWallet :=
  { w with pool := fun i => if i ∈ w.setKeyPool then none else w.pool i, setKeyPool := ∅ }

/-- The loop of `NewKeyPool`, with the turns that are left. The result of `WritePool` is not looked at. -/
def newKeysLoop (disk : DiskWrites) : ℕ → ℕ → KeyWallet → KeyWallet × Except PoolError Bool
  | 0, _, w => (w, .ok true)
  | n + 1, i, w =>
    if !disk.key i then (w.generateNewKey.1, .error .addKeyFailed)
    else newKeysLoop disk n (i + 1)
      ((if disk.pool i then w.generateNewKey.1.writePool (i + 1) ⟨w.generateNewKey.2⟩
        else w.generateNewKey.1).insertIndex (i + 1))

/-- `NewKeyPool`. -/
def newKeyPool (disk : DiskWrites) (w : KeyWallet) : KeyWallet × Except PoolError Bool :=
  if w.fLocked then (w.erasePools, .ok false) else newKeysLoop disk w.keypoolSize 0 w.erasePools

/-- What `ReserveKeyFromKeyPool` leaves in the wallet and in its arguments, with what it throws. -/
structure Reservation where
  wallet : KeyWallet
  nIndex : ℤ := -1
  keypool : CKeyPool := ⟨⟨[0xFF]⟩⟩
  error : Option PoolError := none

/-- `ReserveKeyFromKeyPool` after the top-up. -/
def takeOldest (w : KeyWallet) : Reservation :=
  if h : w.setKeyPool.Nonempty then
    let nIndex := w.setKeyPool.min' h
    let w' := { w with setKeyPool := w.setKeyPool.erase nIndex }
    match w.pool nIndex with
    | none => { wallet := w', nIndex, error := some .readFailed }
    | some keypool =>
      if !w.haveKey (KeySource.getID keypool.vchPubKey) then
        { wallet := w', nIndex, keypool, error := some .unknownKey }
      else if !keypool.vchPubKey.isValid then { wallet := w', nIndex, keypool, error := some .invalidKey }
      else { wallet := w', nIndex, keypool }
  else { wallet := w }

/-- `ReserveKeyFromKeyPool`. -/
def reserveKeyFromKeyPool (disk : DiskWrites) (w : KeyWallet) : Reservation :=
  match (if w.fLocked then (w, .ok false) else w.topUpKeyPool disk 0) with
  | (w', .error e) => { wallet := w', error := some e }
  | (w', .ok _) => w'.takeOldest

end Operations

/-- `KeepKey`. -/
def keepKey (w : KeyWallet) (nIndex : ℤ) : KeyWallet := if w.fFileBacked then w.erasePool nIndex else w

/-- `ReturnKey`. -/
def returnKey (w : KeyWallet) (nIndex : ℤ) : KeyWallet := w.insertIndex nIndex

end KeyWallet

/-- `CReserveKey`. -/
structure CReserveKey where
  nIndex : ℤ := -1
  vchPubKey : CPubKey := ⟨[0xFF]⟩

/-- `GetReservedKey`: the wallet, the holder and what is thrown, or the result. -/
def CReserveKey.getReservedKey [KeySource] (disk : DiskWrites) (w : KeyWallet) (r : CReserveKey) :
    KeyWallet × CReserveKey × Except PoolError (Option CPubKey) :=
  if r.nIndex = -1 then
    let res := w.reserveKeyFromKeyPool disk
    match res.error with
    | some e => (res.wallet, { r with nIndex := res.nIndex }, .error e)
    | none =>
      if res.nIndex ≠ -1 then
        if res.keypool.vchPubKey.isValid then
          (res.wallet, ⟨res.nIndex, res.keypool.vchPubKey⟩, .ok (some res.keypool.vchPubKey))
        else (res.wallet, ⟨res.nIndex, res.keypool.vchPubKey⟩, .error .invalidKey)
      else if w.vchDefaultKey.isValid then
        (res.wallet, ⟨-1, w.vchDefaultKey⟩, .ok (some w.vchDefaultKey))
      else (res.wallet, ⟨-1, r.vchPubKey⟩, .ok none)
  else if r.vchPubKey.isValid then (w, r, .ok (some r.vchPubKey))
  else (w, r, .error .invalidKey)

/-- The wallet and the holders of reservations, with the keys that were kept and what was thrown. -/
structure KeySystem where
  wallet : KeyWallet
  reserveKeys : ℕ → CReserveKey
  kept : List CPubKey
  thrown : List PoolError

/-- A call of one of the operations. -/
inductive KeyStep
  | topUpKeyPool (disk : DiskWrites) (nSize : ℕ)
  | newKeyPool (disk : DiskWrites)
  | getReservedKey (disk : DiskWrites) (holder : ℕ)
  | keepKey (holder : ℕ)
  | returnKey (holder : ℕ)
  /-- The wallet is locked or unlocked. -/
  | setLocked (fLocked : Bool)

namespace KeySystem

/-- The system after a call that gives a wallet and may throw. -/
def after {α : Type} (s : KeySystem) (r : KeyWallet × Except PoolError α) : KeySystem :=
  { s with
    wallet := r.1
    thrown := match r.2 with
      | .error e => s.thrown ++ [e]
      | .ok _ => s.thrown }

section Steps

variable [KeySource]

/-- One call. -/
def step (s : KeySystem) : KeyStep → KeySystem
  | .topUpKeyPool disk nSize => s.after (s.wallet.topUpKeyPool disk nSize)
  | .newKeyPool disk => s.after (s.wallet.newKeyPool disk)
  | .getReservedKey disk holder =>
    let r := (s.reserveKeys holder).getReservedKey disk s.wallet
    { s.after (r.1, r.2.2) with reserveKeys := Function.update s.reserveKeys holder r.2.1 }
  | .keepKey holder =>
    let r := s.reserveKeys holder
    { s with
      wallet := if r.nIndex ≠ -1 then s.wallet.keepKey r.nIndex else s.wallet
      kept := if r.nIndex ≠ -1 then s.kept ++ [r.vchPubKey] else s.kept
      reserveKeys := Function.update s.reserveKeys holder {} }
  | .returnKey holder =>
    let r := s.reserveKeys holder
    { s with
      wallet := if r.nIndex ≠ -1 then s.wallet.returnKey r.nIndex else s.wallet
      reserveKeys := Function.update s.reserveKeys holder {} }
  | .setLocked fLocked => { s with wallet := { s.wallet with fLocked } }

/-- The calls one after the other. -/
def run (s : KeySystem) (steps : List KeyStep) : KeySystem := steps.foldl step s

end Steps

end KeySystem

end PayDayCoin
