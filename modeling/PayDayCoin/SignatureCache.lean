import PayDayCoin.Library.Runs
import PayDayCoin.Serialize
import PayDayCoin.SmsgCrypt
import Mathlib.Data.List.Sort

/-!
# The signature cache

`CheckSig` remembers the signatures that it has verified, for all callers, in a set of triples of a signature hash, a
signature and a public key. When the set is larger than `-maxsigcachesize`, entries next to random hashes go. A set finds
an entry that is neither before nor after the one asked for in its order; the order of public keys compares as many
bytes as the first byte says.

**`checkSig_observations`**: any sequence of calls, whatever is evicted, returns what it would return without the cache,
since every entry of the set is of a signature that verifies (`Verified`).
-/

namespace PayDayCoin

open Library.Runs

/-! ### The signature hash -/

namespace CScript

def OP_CODESEPARATOR : UInt8 := 0xab

/-- The inner loop of `FindAndDelete`: what follows the copies of `b` that the rest begins with. -/
def dropCopies (b : CScript) : ℕ → CScript → CScript
  | 0, pc => pc
  | fuel + 1, pc => if b.isPrefixOf pc then dropCopies b fuel (pc.drop b.length) else pc

/-- The loop of `FindAndDelete`, over the rest `pc` of the script: each instruction without the copies before it. -/
def deleteLoop (b : CScript) : ℕ → CScript → CScript
  | 0, pc => dropCopies b pc.length pc
  | fuel + 1, pc =>
    let pc := dropCopies b pc.length pc
    match getOp2 pc with
    | (none, _) => pc
    | (some _, rest) => pc.take (pc.length - rest.length) ++ deleteLoop b fuel rest

/-- `CScript::FindAndDelete`: the script that is left. -/
def findAndDelete (s b : CScript) : CScript := if b.isEmpty then s else deleteLoop b s.length s

end CScript

def SIGHASH_ALL : Int32 := 1
def SIGHASH_NONE : Int32 := 2
def SIGHASH_SINGLE : Int32 := 3
def SIGHASH_ANYONECANPAY : Int32 := 128

/-- The hash function of signatures, and ECDSA. -/
class SignatureScheme where
  /-- `Hash` of the bytes that a `CHashWriter` has taken. -/
  hash : List UInt8 → Uint256
  /-- Whether the curve's library reads a key from bytes, and the signature of a hash is that key's. -/
  verify : List UInt8 → Uint256 → List UInt8 → Bool

/-- The inputs as they are signed: only the script of the input is kept, and with `fWildcard` the sequence number. -/
def blankInputs (scriptCode : CScript) (nIn : ℕ) (fWildcard : Bool) (vin : List CTxIn) : List CTxIn :=
  vin.mapIdx fun i txin =>
    if i = nIn then { txin with scriptSig := scriptCode }
    else { txin with scriptSig := [], nSequence := if fWildcard then 0 else txin.nSequence }

/-- `CTxOut::SetNull`. -/
def CTxOut.null : CTxOut := ⟨-1, []⟩

/-- The transaction that is hashed for an input, unless `SIGHASH_SINGLE` finds no output for it. -/
def signedTx (scriptCode : CScript) (txTo : CTransaction) (nIn : ℕ) (nHashType : Int32) : Option CTransaction :=
  let scriptCode := scriptCode.findAndDelete [CScript.OP_CODESEPARATOR]
  let vout : Option (List CTxOut) :=
    if nHashType &&& 0x1f = SIGHASH_NONE then some []
    else if nHashType &&& 0x1f = SIGHASH_SINGLE then
      if h : nIn < txTo.vout.length then some (List.replicate nIn .null ++ [txTo.vout[nIn]]) else none
    else some txTo.vout
  let fWildcard := nHashType &&& 0x1f = SIGHASH_NONE || nHashType &&& 0x1f = SIGHASH_SINGLE
  let vin := blankInputs scriptCode nIn fWildcard txTo.vin
  let vin := if nHashType &&& SIGHASH_ANYONECANPAY ≠ 0 then (vin.drop nIn).take 1 else vin
  vout.map fun vout => { txTo with vin, vout }

/-- `SignatureHash`. -/
def signatureHash [SignatureScheme] (scriptCode : CScript) (txTo : CTransaction) (nIn : ℕ) (nHashType : Int32) :
    Uint256 :=
  if txTo.vin.length ≤ nIn then 1
  else
    match signedTx scriptCode txTo nIn nHashType with
    | none => 1
    | some txTmp => SignatureScheme.hash (CTransaction.codec.write txTmp ++ int32.write nHashType)

/-! ### The order of the cache -/

namespace CPubKey

/-- `operator<` of `CPubKey`. -/
def lt (a b : CPubKey) : Bool :=
  a.vch.headD 0 < b.vch.headD 0 || (a.vch.headD 0 == b.vch.headD 0 && a.vch.take a.size < b.vch.take a.size)

/-- `CPubKey::Verify`. -/
def verify [SignatureScheme] (key : CPubKey) (hash : Uint256) (vchSig : List UInt8) : Bool :=
  key.isValid && !vchSig.isEmpty && SignatureScheme.verify key.bytes hash vchSig

end CPubKey

/-- `sigdata_type`: a signature hash, a signature, and a public key. -/
structure SigData where
  hash : Uint256
  vchSig : List UInt8
  pubKey : CPubKey
deriving DecidableEq

/-- The order of tuples. -/
def SigData.lt (a b : SigData) : Bool :=
  a.hash < b.hash || (!(b.hash < a.hash) &&
    (a.vchSig < b.vchSig || (!(b.vchSig < a.vchSig) && a.pubKey.lt b.pubKey)))

/-- `setValid`, in its order. -/
abbrev SetValid := List SigData

/-- An entry that the set takes for another. -/
def SigData.same (a b : SigData) : Bool := !a.lt b && !b.lt a

/-- `CSignatureCache::Get`. -/
def SetValid.get (setValid : SetValid) (k : SigData) : Bool := setValid.any fun a => a.same k

/-- What `lower_bound` finds, or the first entry when it finds none. -/
def SetValid.entryAt (setValid : SetValid) (randomHash : Uint256) : Option SigData :=
  ((setValid.find? fun a => !a.lt ⟨randomHash, [], .ofBytes []⟩).or setValid.head?)

/-- The loop of `CSignatureCache::Set` that makes room: an entry next to a random hash goes. Each turn takes one away at
least, so that `fuel` can be the number of entries. -/
def SetValid.evict (nMaxCacheSize : ℤ) (getRandHash : ℕ → Uint256) : ℕ → SetValid → SetValid
  | 0, setValid => setValid
  | fuel + 1, setValid =>
    if nMaxCacheSize < setValid.length then
      evict nMaxCacheSize getRandHash fuel (match setValid.entryAt (getRandHash fuel) with
        | none => setValid
        | some a => setValid.filter fun b => !b.same a)
    else setValid

/-- `std::set::insert`: before the entries that come after, unless there is one that the set takes for it. -/
def SetValid.insertEntry (setValid : SetValid) (k : SigData) : SetValid :=
  if setValid.get k then setValid else setValid.takeWhile (fun a => a.lt k) ++ k :: setValid.dropWhile fun a => a.lt k

/-- `CSignatureCache::Set`, with `-maxsigcachesize`. -/
def SetValid.set (setValid : SetValid) (nMaxCacheSize : ℤ) (getRandHash : ℕ → Uint256) (k : SigData) : SetValid :=
  if nMaxCacheSize ≤ 0 then setValid
  else (setValid.evict nMaxCacheSize getRandHash setValid.length).insertEntry k

theorem SigData.same_self (a : SigData) : a.same a = true := by
  have hkey : a.pubKey.lt a.pubKey = false := by simp [CPubKey.lt, List.lt_irrefl]
  simp [SigData.same, SigData.lt, hkey, List.lt_irrefl]

/-- There is an entry next to any hash, unless the set is empty. -/
theorem SetValid.exists_entryAt {setValid : SetValid} (h : setValid ≠ []) (randomHash : Uint256) :
    ∃ a ∈ setValid, setValid.entryAt randomHash = some a := by
  rw [SetValid.entryAt]
  cases hfind : setValid.find? fun a => !a.lt ⟨randomHash, [], .ofBytes []⟩ with
  | some a => exact ⟨a, List.mem_of_find?_eq_some hfind, rfl⟩
  | none => exact ⟨setValid.head h, List.head_mem h, List.head?_eq_some_head h⟩

/-- The loop ends with as much room as was asked for. -/
theorem SetValid.length_evict_le {nMaxCacheSize : ℤ} (hmax : 0 ≤ nMaxCacheSize) (getRandHash : ℕ → Uint256) :
    ∀ {fuel : ℕ} {setValid : SetValid}, setValid.length ≤ fuel →
      ((setValid.evict nMaxCacheSize getRandHash fuel).length : ℤ) ≤ nMaxCacheSize := by
  intro fuel
  induction fuel with
  | zero =>
    intro setValid h
    rw [SetValid.evict, Nat.le_zero.1 h]
    exact hmax
  | succ fuel ih =>
    intro setValid h
    rw [SetValid.evict]
    split
    · next hlarge =>
      have hne : setValid ≠ [] := by
        rintro rfl
        simp only [List.length_nil, Int.natCast_zero] at hlarge
        omega
      obtain ⟨a, ha, hentry⟩ := SetValid.exists_entryAt hne (getRandHash fuel)
      simp only [hentry]
      have hlt : (setValid.filter fun b => !b.same a).length < setValid.length :=
        List.length_filter_lt_length_iff_exists.2 ⟨a, ha, by simp [SigData.same_self]⟩
      exact ih (Nat.le_of_lt_succ (hlt.trans_le h))
    · next hsmall => omega

/-! ### CheckSig -/

/-- A call of `CheckSig`, with the configuration and the random hashes that it comes to. -/
structure CheckSigCall where
  vchSig : List UInt8
  vchPubKey : List UInt8
  scriptCode : CScript
  txTo : CTransaction
  nIn : ℕ
  nHashType : Int32
  flags : UInt32
  nMaxCacheSize : ℤ
  getRandHash : ℕ → Uint256

section CheckSig

variable [SignatureScheme]

/-- `CheckSig`, and the cache after it. -/
def checkSig (signatureCache : SetValid) (c : CheckSigCall) : Bool × SetValid :=
  let pubkey := CPubKey.ofBytes c.vchPubKey
  if !pubkey.isValid then (false, signatureCache)
  else
    match c.vchSig.getLast? with
    | none => (false, signatureCache)
    | some back =>
      let back := Int32.ofNat back.toNat
      if c.nHashType ≠ 0 ∧ c.nHashType ≠ back then (false, signatureCache)
      else
        let k : SigData := ⟨signatureHash c.scriptCode c.txTo c.nIn back, c.vchSig.dropLast, pubkey⟩
        if signatureCache.get k then (true, signatureCache)
        else if !pubkey.verify k.hash k.vchSig then (false, signatureCache)
        else if c.flags &&& CScript.SCRIPT_VERIFY_NOCACHE = 0 then
          (true, signatureCache.set c.nMaxCacheSize c.getRandHash k)
        else (true, signatureCache)

/-- What `CheckSig` says when there is no cache: the key is valid, the hash type is that of the signature, and the
signature verifies. -/
def CheckSigCall.valid (c : CheckSigCall) : Bool :=
  let pubkey := CPubKey.ofBytes c.vchPubKey
  pubkey.isValid &&
    match c.vchSig.getLast? with
    | none => false
    | some back =>
      let back := Int32.ofNat back.toNat
      (c.nHashType == 0 || c.nHashType == back) &&
        pubkey.verify (signatureHash c.scriptCode c.txTo c.nIn back) c.vchSig.dropLast

/-! ### Every entry verifies -/

omit [SignatureScheme] in
/-- Keys that are not apart in the order have the same first byte and the same bytes. -/
theorem CPubKey.eq_of_not_lt {a b : CPubKey} (hab : a.lt b = false) (hba : b.lt a = false) :
    a.size = b.size ∧ a.bytes = b.bytes := by
  simp only [CPubKey.lt, Bool.or_eq_false_iff, decide_eq_false_iff_not, Bool.and_eq_false_iff, beq_eq_false_iff_ne,
    ne_eq] at hab hba
  have hhead : a.vch.headD 0 = b.vch.headD 0 := by
    have h1 := hab.1
    have h2 := hba.1
    rw [UInt8.lt_iff_toNat_lt] at h1 h2
    exact UInt8.toNat_inj.1 (by omega)
  have hsize : a.size = b.size := by rw [CPubKey.size, CPubKey.size, hhead]
  refine ⟨hsize, ?_⟩
  rw [CPubKey.bytes, CPubKey.bytes, ← hsize]
  have h1 := hab.2.resolve_left (not_not_intro hhead)
  have h2 := hba.2.resolve_left (not_not_intro hhead.symm)
  rw [← hsize] at h2
  exact List.le_antisymm h2 h1

/-- Entries that the set takes for each other verify alike. -/
theorem SigData.verify_eq_of_same {a b : SigData} (h : a.same b = true) :
    a.pubKey.verify a.hash a.vchSig = b.pubKey.verify b.hash b.vchSig := by
  simp only [SigData.same, SigData.lt, Bool.and_eq_true, Bool.not_eq_true', Bool.or_eq_false_iff,
    decide_eq_false_iff_not, Bool.and_eq_false_iff, Bool.not_eq_false', decide_eq_true_eq] at h
  obtain ⟨⟨hab, hab'⟩, hba, hba'⟩ := h
  have hhash : a.hash = b.hash := BitVec.le_antisymm (BitVec.not_lt.1 hba) (BitVec.not_lt.1 hab)
  obtain ⟨hsab, hkab⟩ := hab'.resolve_left hba
  obtain ⟨hsba, hkba⟩ := hba'.resolve_left hab
  have hsig : a.vchSig = b.vchSig := List.le_antisymm hsba hsab
  obtain ⟨hsize, hbytes⟩ := CPubKey.eq_of_not_lt (hkab.resolve_left hsba) (hkba.resolve_left hsab)
  simp only [CPubKey.verify, CPubKey.isValid, hhash, hsig, hsize, hbytes]

/-- Each entry is of a signature that verifies. -/
def Verified (setValid : SetValid) : Prop := ∀ a ∈ setValid, a.pubKey.verify a.hash a.vchSig = true

theorem Verified.of_get {setValid : SetValid} (h : Verified setValid) {k : SigData} (hget : setValid.get k = true) :
    k.pubKey.verify k.hash k.vchSig = true := by
  obtain ⟨a, ha, hsame⟩ := List.any_eq_true.1 hget
  rw [← SigData.verify_eq_of_same hsame]
  exact h a ha

theorem Verified.evict {nMaxCacheSize : ℤ} {getRandHash : ℕ → Uint256} {fuel : ℕ} {setValid : SetValid}
    (h : Verified setValid) : Verified (setValid.evict nMaxCacheSize getRandHash fuel) := by
  induction fuel generalizing setValid with
  | zero => exact h
  | succ fuel ih =>
    rw [SetValid.evict]
    split
    · refine ih ?_
      split
      · exact h
      · exact fun b hb => h b (List.mem_of_mem_filter hb)
    · exact h

omit [SignatureScheme] in
theorem SetValid.mem_insertEntry {setValid : SetValid} {k a : SigData} (ha : a ∈ setValid.insertEntry k) :
    a = k ∨ a ∈ setValid := by
  rw [SetValid.insertEntry] at ha
  split at ha
  · exact .inr ha
  · rw [List.mem_append, List.mem_cons] at ha
    rcases ha with hbefore | rfl | hafter
    · exact .inr ((List.takeWhile_sublist _).subset hbefore)
    · exact .inl rfl
    · exact .inr ((List.dropWhile_sublist _).subset hafter)

theorem Verified.set {nMaxCacheSize : ℤ} {getRandHash : ℕ → Uint256} {setValid : SetValid} {k : SigData}
    (h : Verified setValid) (hk : k.pubKey.verify k.hash k.vchSig = true) :
    Verified (setValid.set nMaxCacheSize getRandHash k) := by
  rw [SetValid.set]
  split
  · exact h
  · intro a ha
    rcases SetValid.mem_insertEntry ha with rfl | hold
    · exact hk
    · exact h.evict a hold

/-- A call returns what it would return without the cache, and every entry verifies after it. -/
theorem checkSig_of_verified {signatureCache : SetValid} (h : Verified signatureCache) (c : CheckSigCall) :
    (checkSig signatureCache c).1 = c.valid ∧ Verified (checkSig signatureCache c).2 := by
  rw [checkSig, CheckSigCall.valid]
  by_cases hkey : (CPubKey.ofBytes c.vchPubKey).isValid = true
  · cases hback : c.vchSig.getLast? with
    | none => simpa [hkey] using h
    | some back =>
      by_cases htype : c.nHashType ≠ 0 ∧ c.nHashType ≠ Int32.ofNat back.toNat
      · simpa [hkey, htype] using h
      · have htype' : (c.nHashType == 0 || c.nHashType == Int32.ofNat back.toNat) = true := by
          simp only [Bool.or_eq_true, beq_iff_eq]
          tauto
        simp only [hkey, htype, htype', Bool.not_true, Bool.false_eq_true, if_false, Bool.true_and]
        split
        · next hget => exact ⟨(h.of_get hget).symm, h⟩
        · split
          · next hnot => exact ⟨by simpa using hnot.symm, h⟩
          · next hverify =>
            have hverify := Bool.eq_true_of_not_eq_false (by simpa using hverify)
            split
            · exact ⟨hverify.symm, h.set hverify⟩
            · exact ⟨hverify.symm, h⟩
  · simpa [hkey] using h

/-- Any sequence of calls, from an empty cache, returns what each call would return without the cache. -/
theorem checkSig_observations (calls : List CheckSigCall) :
    observations (fun s c => (checkSig s c).2) (fun s c => (checkSig s c).1) [] calls =
      calls.map CheckSigCall.valid := by
  have hall : ∀ s : SetValid, Verified s →
      observations (fun s c => (checkSig s c).2) (fun s c => (checkSig s c).1) s calls =
        calls.map CheckSigCall.valid := by
    induction calls with
    | nil => exact fun _ _ => rfl
    | cons c calls ih =>
      intro s hs
      obtain ⟨hobs, hnext⟩ := checkSig_of_verified hs c
      rw [observations, List.map_cons, hobs, ih _ hnext]
  exact hall [] fun a ha => absurd ha List.not_mem_nil

end CheckSig

end PayDayCoin
