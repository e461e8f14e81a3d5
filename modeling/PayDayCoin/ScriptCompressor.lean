import PayDayCoin.Destinations
import PayDayCoin.Serialize
import PayDayCoin.VarInt
import Mathlib.Data.List.GetD

/-!
# Compressed outputs

`CScriptCompressor` writes six kinds of script in 21 or 33 bytes: payments to a hashed key, to a hashed script and to a
key, of which an uncompressed one is reduced to its first coordinate and the parity of the second. Another script is
written behind its length, to which the number of special kinds is added. `CTxOutCompressor` writes the amount as an
integer of variable length in front. What libsecp256k1 does with the bytes of a key is a parameter.

**`compressor_roundTrip`**: every script is read back, whatever the script that is read into was before.
**`txOut_roundTrip`**: an output is read back exactly when its amount is not negative.
-/

namespace PayDayCoin

open Library.Codecs CScript

/-- Public keys as libsecp256k1 reads and writes them. -/
class Secp256k1 where
  PubKey : Type
  /-- `secp256k1_ec_pubkey_parse`. -/
  parse : List UInt8 → Option PubKey
  /-- `secp256k1_ec_pubkey_serialize`, with `SECP256K1_EC_UNCOMPRESSED`. -/
  serialize : PubKey → List UInt8

/-- An uncompressed key is written as it was read, and its first coordinate with the parity of the second is read as
the same key. -/
structure Secp256k1.Lawful [Secp256k1] : Prop where
  serialize_parse : ∀ {body : List UInt8} {key : Secp256k1.PubKey}, body.length = 64 →
    Secp256k1.parse (4 :: body) = some key → Secp256k1.serialize key = 4 :: body
  parse_compressed : ∀ {x y : List UInt8} {key : Secp256k1.PubKey}, x.length = 32 → y.length = 32 →
    Secp256k1.parse (4 :: (x ++ y)) = some key → Secp256k1.parse ((2 ||| (y.getD 31 0 &&& 1)) :: x) = some key

namespace CPubKey

variable [Secp256k1]

/-- `IsFullyValid`. -/
def isFullyValid (key : CPubKey) : Bool := key.isValid && (Secp256k1.parse key.bytes).isSome

/-- `Decompress`; `none` when it fails. -/
def decompress (key : CPubKey) : Option CPubKey :=
  if key.isValid then (Secp256k1.parse key.bytes).map fun pubkey => ofBytes (Secp256k1.serialize pubkey) else none

end CPubKey

namespace CScriptCompressor

/-! ### The special scripts -/

/-- The number of special scripts. -/
def nSpecialScripts : ℕ := 6

/-- `IsToKeyID`; the hash. -/
def isToKeyID (script : CScript) : Option (List UInt8) :=
  if script.length = 25 ∧ script.getD 0 0 = OP_DUP ∧ script.getD 1 0 = OP_HASH160 ∧ script.getD 2 0 = 20 ∧
      script.getD 23 0 = OP_EQUALVERIFY ∧ script.getD 24 0 = OP_CHECKSIG then
    some ((script.drop 3).take 20)
  else none

/-- `IsToScriptID`; the hash. -/
def isToScriptID (script : CScript) : Option (List UInt8) :=
  if script.length = 23 ∧ script.getD 0 0 = OP_HASH160 ∧ script.getD 1 0 = 20 ∧ script.getD 22 0 = OP_EQUAL then
    some ((script.drop 2).take 20)
  else none

variable [Secp256k1]

/-- `IsToPubKey`; the key. -/
def isToPubKey (script : CScript) : Option CPubKey :=
  if script.length = 35 ∧ script.getD 0 0 = 33 ∧ script.getD 34 0 = OP_CHECKSIG ∧
      (script.getD 1 0 = 0x02 ∨ script.getD 1 0 = 0x03) then
    some (CPubKey.ofBytes ((script.drop 1).take 33))
  else if script.length = 67 ∧ script.getD 0 0 = 65 ∧ script.getD 66 0 = OP_CHECKSIG ∧ script.getD 1 0 = 0x04 then
    let pubkey := CPubKey.ofBytes ((script.drop 1).take 65)
    -- if not fully valid, a case that would not be compressible
    if pubkey.isFullyValid then some pubkey else none
  else none

/-- `Compress`. -/
def compress (script : CScript) : Option (List UInt8) :=
  match isToKeyID script, isToScriptID script, isToPubKey script with
  | some keyID, _, _ => some (0x00 :: keyID)
  | none, some scriptID, _ => some (0x01 :: scriptID)
  | none, none, some pubkey =>
    let body := (pubkey.vch.drop 1).take 32
    if pubkey.vch.getD 0 0 = 0x02 ∨ pubkey.vch.getD 0 0 = 0x03 then some (pubkey.vch.getD 0 0 :: body)
    else if pubkey.vch.getD 0 0 = 0x04 then some ((0x04 ||| (pubkey.vch.getD 64 0 &&& 0x01)) :: body)
    else none
  | none, none, none => none

/-- `GetSpecialSize`. -/
def getSpecialSize (nSize : ℕ) : ℕ :=
  if nSize = 0 ∨ nSize = 1 then 20
  else if nSize = 2 ∨ nSize = 3 ∨ nSize = 4 ∨ nSize = 5 then 32
  else 0

/-- `Decompress`; `none` when it fails, and the script is left as it was. -/
def decompress (nSize : ℕ) (vch : List UInt8) : Option CScript :=
  match nSize with
  | 0x00 => some ([OP_DUP, OP_HASH160, 20] ++ vch.take 20 ++ [OP_EQUALVERIFY, OP_CHECKSIG])
  | 0x01 => some ([OP_HASH160, 20] ++ vch.take 20 ++ [OP_EQUAL])
  | 0x02 | 0x03 => some ([33, UInt8.ofNat nSize] ++ vch.take 32 ++ [OP_CHECKSIG])
  | 0x04 | 0x05 =>
    (CPubKey.ofBytes (UInt8.ofNat (nSize - 2) :: vch.take 32)).decompress.map fun pubkey =>
      [65] ++ pubkey.vch.take 65 ++ [OP_CHECKSIG]
  | _ => none

/-- The length that is written in front of another script. -/
def sizeField (script : CScript) : ℤ := IntType.unsignedInt.cast ((script.length + nSpecialScripts : ℕ) : ℤ)

/-- `GetSerializeSize`. -/
def getSerializeSize (script : CScript) : UInt32 :=
  match compress script with
  | some compr => UInt32.ofNat compr.length
  | none => UInt32.ofNat (script.length + getSizeOfVarInt (sizeField script))

/-- `Serialize`. -/
def serialize (script : CScript) : List UInt8 :=
  match compress script with
  | some compr => compr
  | none => writeVarInt (sizeField script) ++ script

/-- `Unserialize`, into a script. -/
def unserialize (script : CScript) (s : List UInt8) : Option (CScript × List UInt8) :=
  (readVarInt IntType.unsignedInt s).bind fun (nSize, s) =>
    if nSize.toNat < nSpecialScripts then
      (Codec.take (getSpecialSize nSize.toNat) s).map fun (vch, s) => ((decompress nSize.toNat vch).getD script, s)
    else Codec.take (nSize.toNat - nSpecialScripts) s

/-! ### Reading back -/

omit [Secp256k1] in
/-- A script is known when it is known at both ends. -/
theorem eq_frame (front : List UInt8) {back : List UInt8} {k : ℕ} {script : CScript}
    (hlen : script.length = front.length + k + back.length)
    (hfront : ∀ i < front.length, script.getD i 0 = front.getD i 0)
    (hback : ∀ i < back.length, script.getD (front.length + k + i) 0 = back.getD i 0) :
    front ++ (script.drop front.length).take k ++ back = script := by
  have htake : script.take front.length = front := by
    refine List.ext_getElem (by simp; omega) fun i h1 h2 => ?_
    have h := hfront i h2
    rw [List.getD_eq_getElem _ _ (by omega), List.getD_eq_getElem _ _ h2] at h
    rw [List.getElem_take, h]
  have hdrop : script.drop (front.length + k) = back := by
    refine List.ext_getElem (by simp; omega) fun i h1 h2 => ?_
    have h := hback i h2
    rw [List.getD_eq_getElem _ _ (by omega), List.getD_eq_getElem _ _ h2] at h
    rw [List.getElem_drop, h]
  calc front ++ (script.drop front.length).take k ++ back
      = script.take front.length ++ ((script.drop front.length).take k ++ (script.drop front.length).drop k) := by
        rw [htake, List.drop_drop, hdrop, List.append_assoc]
    _ = script := by rw [List.take_append_drop, List.take_append_drop]

omit [Secp256k1] in
theorem ofBytes_eq {c : UInt8} {body : List UInt8} (h : CPubKey.getLen c = body.length + 1) :
    CPubKey.ofBytes (c :: body) = ⟨c :: body⟩ := by
  rw [CPubKey.ofBytes, if_pos]
  exact ⟨List.cons_ne_nil c body, by rw [List.headD_cons, h]; omega, h⟩

omit [Secp256k1] in
theorem drop_take_eq_cons {script : CScript} {i k : ℕ} (h : i < script.length) :
    (script.drop i).take (k + 1) = script.getD i 0 :: (script.drop (i + 1)).take k := by
  rw [List.drop_eq_getElem_cons h, List.take_succ_cons, List.getD_eq_getElem _ _ h]

omit [Secp256k1] in
theorem of_isToKeyID {script : CScript} {hash : List UInt8} (h : isToKeyID script = some hash) :
    hash.length = 20 ∧
      [OP_DUP, OP_HASH160, 20] ++ hash.take 20 ++ [OP_EQUALVERIFY, OP_CHECKSIG] = script := by
  rw [isToKeyID] at h
  split at h
  · next hcond =>
    obtain ⟨hlen, h0, h1, h2, h23, h24⟩ := hcond
    obtain rfl := Option.some.inj h
    refine ⟨by simp [hlen], ?_⟩
    rw [List.take_take, Nat.min_self]
    refine eq_frame [OP_DUP, OP_HASH160, 20] hlen (fun i hi => ?_) fun i hi => ?_
    · obtain rfl | rfl | rfl : i = 0 ∨ i = 1 ∨ i = 2 := by simp at hi; omega
      exacts [h0, h1, h2]
    · obtain rfl | rfl : i = 0 ∨ i = 1 := by simp at hi; omega
      exacts [h23, h24]
  · cases h

omit [Secp256k1] in
theorem of_isToScriptID {script : CScript} {hash : List UInt8} (h : isToScriptID script = some hash) :
    hash.length = 20 ∧ [OP_HASH160, 20] ++ hash.take 20 ++ [OP_EQUAL] = script := by
  rw [isToScriptID] at h
  split at h
  · next hcond =>
    obtain ⟨hlen, h0, h1, h22⟩ := hcond
    obtain rfl := Option.some.inj h
    refine ⟨by simp [hlen], ?_⟩
    rw [List.take_take, Nat.min_self]
    refine eq_frame [OP_HASH160, 20] hlen (fun i hi => ?_) fun i hi => ?_
    · obtain rfl | rfl : i = 0 ∨ i = 1 := by simp at hi; omega
      exacts [h0, h1]
    · obtain rfl : i = 0 := by simpa using hi
      exact h22
  · cases h

/-- A key that a script pays to is the one between its first and its last byte. -/
theorem of_isToPubKey {script : CScript} {pubkey : CPubKey} (h : isToPubKey script = some pubkey) :
    (∃ c x, (c = 2 ∨ c = 3) ∧ x.length = 32 ∧ pubkey = ⟨c :: x⟩ ∧ [33, c] ++ x ++ [OP_CHECKSIG] = script) ∨
    ∃ x y, x.length = 32 ∧ y.length = 32 ∧ pubkey = ⟨4 :: (x ++ y)⟩ ∧ pubkey.isFullyValid = true ∧
      [65] ++ (4 :: (x ++ y)) ++ [OP_CHECKSIG] = script := by
  rw [isToPubKey] at h
  split at h
  · next hcond =>
    obtain ⟨hlen, h0, h34, h1⟩ := hcond
    obtain rfl := Option.some.inj h
    have hx : ((script.drop 2).take 32).length = 32 := by simp [hlen]
    refine .inl ⟨script.getD 1 0, (script.drop 2).take 32, h1, hx, ?_, ?_⟩
    · rw [drop_take_eq_cons (by omega)]
      exact ofBytes_eq (by rw [hx, CPubKey.getLen, if_pos h1])
    · refine eq_frame [33, script.getD 1 0] hlen (fun i hi => ?_) fun i hi => ?_
      · obtain rfl | rfl : i = 0 ∨ i = 1 := by simp at hi; omega
        exacts [h0, rfl]
      · obtain rfl : i = 0 := by simpa using hi
        exact h34
  · split at h
    · next hcond =>
      obtain ⟨hlen, h0, h66, h1⟩ := hcond
      have hx : ((script.drop 2).take 32).length = 32 := by simp [hlen]
      have hy : ((script.drop 34).take 32).length = 32 := by simp [hlen]
      have hkey : (script.drop 1).take 65 = 4 :: ((script.drop 2).take 32 ++ (script.drop 34).take 32) := by
        rw [drop_take_eq_cons (by omega), h1, ← List.drop_drop (i := 32) (j := 2), ← List.take_add]
      simp only [hkey] at h
      rw [ofBytes_eq (by rw [List.length_append, hx, hy]; rfl)] at h
      split at h
      · next hvalid =>
        obtain rfl := Option.some.inj h
        refine .inr ⟨_, _, hx, hy, rfl, hvalid, ?_⟩
        rw [← hkey]
        refine eq_frame [65] hlen (fun i hi => ?_) fun i hi => ?_
        · obtain rfl : i = 0 := by simpa using hi
          exact h0
        · obtain rfl : i = 0 := by simpa using hi
          exact h66
      · cases h
    · cases h

omit [Secp256k1] in
theorem and_one_eq (p : UInt8) : p &&& 1 = 0 ∨ p &&& 1 = 1 := by
  obtain ⟨n, rfl⟩ : ∃ n : Fin 256, p = UInt8.ofNat n := ⟨⟨p.toNat, p.toNat_lt⟩, by simp⟩
  revert n
  decide +kernel

theorem decompress_compressed {c : UInt8} {x : List UInt8} {key : Secp256k1.PubKey} (hc : c = 2 ∨ c = 3)
    (hx : x.length = 32) (h : Secp256k1.parse (c :: x) = some key) :
    (CPubKey.ofBytes (c :: x)).decompress = some (CPubKey.ofBytes (Secp256k1.serialize key)) := by
  have hlen : CPubKey.getLen c = x.length + 1 := by rw [CPubKey.getLen, if_pos hc, hx]
  have hbytes : CPubKey.bytes ⟨c :: x⟩ = c :: x := by
    rw [CPubKey.bytes, CPubKey.size, List.headD_cons, hlen, ← List.length_cons, List.take_length]
  have hvalid : CPubKey.isValid ⟨c :: x⟩ = true := by
    rw [CPubKey.isValid, CPubKey.size, List.headD_cons, hlen]
    exact decide_eq_true (Nat.succ_pos _)
  rw [ofBytes_eq hlen, CPubKey.decompress, if_pos hvalid, hbytes, h, Option.map_some]

/-- A fully valid uncompressed key comes back from its first coordinate and the parity of the second. -/
theorem decompress_parity (hlaw : Secp256k1.Lawful) {x y : List UInt8} (hx : x.length = 32) (hy : y.length = 32)
    (h : CPubKey.isFullyValid ⟨4 :: (x ++ y)⟩ = true) :
    (CPubKey.ofBytes ((2 ||| (y.getD 31 0 &&& 1)) :: x)).decompress = some ⟨4 :: (x ++ y)⟩ := by
  have hlen : (x ++ y).length = 64 := by rw [List.length_append, hx, hy]
  have hbytes : CPubKey.bytes ⟨4 :: (x ++ y)⟩ = 4 :: (x ++ y) := by
    rw [CPubKey.bytes]
    exact List.take_of_length_le (by simp [hx, hy, CPubKey.size, CPubKey.getLen])
  rw [CPubKey.isFullyValid, hbytes, Bool.and_eq_true, Option.isSome_iff_exists] at h
  obtain ⟨-, key, hparse⟩ := h
  have hc : (2 ||| (y.getD 31 0 &&& 1)) = 2 ∨ (2 ||| (y.getD 31 0 &&& 1)) = 3 := by
    rcases and_one_eq (y.getD 31 0) with hp | hp <;> rw [hp] <;> decide
  rw [decompress_compressed hc hx (hlaw.parse_compressed hx hy hparse), hlaw.serialize_parse hlen hparse,
    ofBytes_eq (by rw [hlen]; rfl)]

/-- A key is written as the number of its kind and its first coordinate, from which `Decompress` makes the script. -/
theorem compress_pubkey (hlaw : Secp256k1.Lawful) {script : CScript} {pubkey : CPubKey} {out : List UInt8}
    (hpubkey : isToPubKey script = some pubkey)
    (h : (if pubkey.vch.getD 0 0 = 0x02 ∨ pubkey.vch.getD 0 0 = 0x03 then
        some (pubkey.vch.getD 0 0 :: (pubkey.vch.drop 1).take 32)
      else if pubkey.vch.getD 0 0 = 0x04 then
        some ((0x04 ||| (pubkey.vch.getD 64 0 &&& 0x01)) :: (pubkey.vch.drop 1).take 32)
      else none) = some out) :
    ∃ nSize vch, out = UInt8.ofNat nSize :: vch ∧ nSize < nSpecialScripts ∧ vch.length = getSpecialSize nSize ∧
      decompress nSize vch = some script := by
  rcases of_isToPubKey hpubkey with ⟨c, x, hc, hx, rfl, hscript⟩ | ⟨x, y, hx, hy, rfl, hvalid, hscript⟩
  · have hbody : ((c :: x).drop 1).take 32 = x := List.take_of_length_le (by simp [hx])
    have htake : x.take 32 = x := List.take_of_length_le (by simp [hx])
    simp only [List.getD_cons_zero, hbody] at h
    rw [if_pos hc] at h
    obtain rfl := Option.some.inj h
    rcases hc with rfl | rfl
    · exact ⟨2, x, rfl, by decide, hx, by rw [← hscript, decompress, htake]; rfl⟩
    · exact ⟨3, x, rfl, by decide, hx, by rw [← hscript, decompress, htake]; rfl⟩
  · have hbody : ((4 :: (x ++ y)).drop 1).take 32 = x := by
      rw [List.drop_one, List.tail_cons, ← hx, List.take_left]
    have hlast : (4 :: (x ++ y)).getD 64 0 = y.getD 31 0 := by
      rw [List.getD_cons_succ, List.getD_append_right _ _ _ _ (by omega), hx]
    have htake : (4 :: (x ++ y)).take 65 = 4 :: (x ++ y) := List.take_of_length_le (by simp [hx, hy])
    have htakex : x.take 32 = x := List.take_of_length_le (by simp [hx])
    have hkey := decompress_parity hlaw hx hy hvalid
    simp only [List.getD_cons_zero, hbody, hlast] at h
    rw [if_neg (by decide), if_pos trivial] at h
    obtain rfl := Option.some.inj h
    rcases and_one_eq (y.getD 31 0) with hp | hp <;> rw [hp] at hkey ⊢
    · refine ⟨4, x, rfl, by decide, hx, ?_⟩
      rw [← hscript, decompress, htakex]
      exact (congrArg (Option.map _) hkey).trans (by rw [Option.map_some, htake])
    · refine ⟨5, x, rfl, by decide, hx, ?_⟩
      rw [← hscript, decompress, htakex]
      exact (congrArg (Option.map _) hkey).trans (by rw [Option.map_some, htake])

/-- What `Compress` writes is the number of a special script and as many bytes as it takes, from which `Decompress`
makes the script. -/
theorem compress_eq_some (hlaw : Secp256k1.Lawful) {script : CScript} {out : List UInt8}
    (h : compress script = some out) :
    ∃ nSize vch, out = UInt8.ofNat nSize :: vch ∧ nSize < nSpecialScripts ∧ vch.length = getSpecialSize nSize ∧
      decompress nSize vch = some script := by
  rcases hkeyID : isToKeyID script with _ | hash
  · rcases hscriptID : isToScriptID script with _ | hash
    · rcases hpubkey : isToPubKey script with _ | pubkey
      · simp only [compress, hkeyID, hscriptID, hpubkey, reduceCtorEq] at h
      · simp only [compress, hkeyID, hscriptID, hpubkey] at h
        exact compress_pubkey hlaw hpubkey h
    · simp only [compress, hkeyID, hscriptID, Option.some.injEq] at h
      obtain ⟨hlen, hscript⟩ := of_isToScriptID hscriptID
      exact ⟨1, hash, h.symm, by decide, hlen, congrArg some hscript⟩
  · simp only [compress, hkeyID, Option.some.injEq] at h
    obtain ⟨hlen, hscript⟩ := of_isToKeyID hkeyID
    exact ⟨0, hash, h.symm, by decide, hlen, congrArg some hscript⟩

omit [Secp256k1] in
theorem writeVarInt_of_lt {k : ℕ} (h : k < 128) : writeVarInt k = [UInt8.ofNat k] := by
  have hk : ((k : ℤ) % 128).toNat = k := by omega
  rw [writeVarInt, writeVarIntLoop, if_pos (by omega), hk]
  simp

omit [Secp256k1] in
/-- The length in front of a script, counted in an `unsigned int`. -/
theorem sizeField_eq (script : CScript) : sizeField script = ((script.length + 6) % 4294967296 : ℕ) := rfl

omit [Secp256k1] in
theorem cast_unsignedInt {n : ℕ} (h : n < 4294967296) : IntType.unsignedInt.cast n = n :=
  Int.emod_eq_of_lt (by omega) (by exact_mod_cast h)

omit [Secp256k1] in
theorem getSpecialSize_le (nSize : ℕ) : getSpecialSize nSize ≤ 32 := by
  rw [getSpecialSize]
  split
  · decide
  · split <;> decide

/-- The number in front of a script, once read, says what follows it. -/
theorem unserialize_writeVarInt {n : ℕ} (hn : n < 4294967296) (old : CScript) (s : List UInt8) :
    unserialize old (writeVarInt n ++ s) =
      if n < nSpecialScripts then
        (Codec.take (getSpecialSize n) s).map fun (vch, s) => ((decompress n vch).getD old, s)
      else Codec.take (n - nSpecialScripts) s := by
  rw [unserialize, readVarInt_writeVarInt, cast_unsignedInt hn, Option.bind_some]
  simp only [Int.toNat_natCast]

theorem length_of_compress {script : CScript} {out : List UInt8} (h : compress script = some out) :
    script.length ≤ 67 := by
  by_contra hlen
  have hkeyID : isToKeyID script = none := if_neg fun hcond => hlen (by omega)
  have hscriptID : isToScriptID script = none := if_neg fun hcond => hlen (by omega)
  have hpubkey : isToPubKey script = none := by
    rw [isToPubKey, if_neg fun hcond => hlen (by omega), if_neg fun hcond => hlen (by omega)]
  simp only [compress, hkeyID, hscriptID, hpubkey, reduceCtorEq] at h

theorem unserialize_serialize (hlaw : Secp256k1.Lawful) {script : CScript} (hlen : script.length < 4294967290)
    (old : CScript) (rest : List UInt8) : unserialize old (serialize script ++ rest) = some (script, rest) := by
  rcases hcompress : compress script with _ | out
  · simp only [serialize, hcompress]
    rw [sizeField_eq, List.append_assoc, unserialize_writeVarInt (Nat.mod_lt _ (by decide)),
      Nat.mod_eq_of_lt (by omega), if_neg (by rw [nSpecialScripts]; omega), nSpecialScripts, Nat.add_sub_cancel,
      Codec.take_append]
  · simp only [serialize, hcompress]
    obtain ⟨nSize, vch, rfl, hlt, hvch, hscript⟩ := compress_eq_some hlaw hcompress
    have hlt' : nSize < 6 := hlt
    have hwrite : UInt8.ofNat nSize :: vch ++ rest = writeVarInt nSize ++ (vch ++ rest) := by
      rw [writeVarInt_of_lt (by omega), List.singleton_append, List.cons_append]
    rw [hwrite, unserialize_writeVarInt (by omega), if_pos hlt, ← hvch, Codec.take_append, Option.map_some]
    simp only [hscript, Option.getD_some]

theorem getSerializeSize_eq (script : CScript) :
    getSerializeSize script = UInt32.ofNat (serialize script).length := by
  rw [getSerializeSize, serialize]
  split
  · rfl
  · rw [List.length_append, length_writeVarInt, Nat.add_comm]

/-- A script is read back, into whatever script, exactly when its length and the number of special scripts fit in an
`unsigned int`. -/
theorem compressor_roundTrip (hlaw : Secp256k1.Lawful) (script : CScript) :
    ((∀ old rest, unserialize old (serialize script ++ rest) = some (script, rest)) ↔
      script.length < 2 ^ 32 - nSpecialScripts) ∧
      getSerializeSize script = UInt32.ofNat (serialize script).length := by
  refine ⟨⟨fun h => ?_, fun h => unserialize_serialize hlaw h⟩, getSerializeSize_eq script⟩
  by_contra hlen
  have hlong : 4294967290 ≤ script.length := Nat.not_lt.1 hlen
  have hcompress : compress script = none := by
    refine Option.eq_none_iff_forall_ne_some.2 fun out hout => ?_
    have := length_of_compress hout
    omega
  have hmod : (script.length + 6) % 4294967296 < 4294967296 := Nat.mod_lt _ (by decide)
  have hread := h [] []
  simp only [serialize, hcompress, List.append_nil] at hread
  rw [sizeField_eq, unserialize_writeVarInt hmod] at hread
  split at hread
  · -- what is taken for a special script ends before the script does
    obtain ⟨⟨vch, s⟩, htake, heq⟩ := Option.map_eq_some_iff.1 hread
    obtain ⟨-, rfl⟩ := Prod.mk.inj heq
    obtain ⟨hvch, hscript⟩ := Codec.take_eq_some htake
    have hle := getSpecialSize_le ((script.length + 6) % 4294967296)
    rw [List.append_nil] at hscript
    rw [hscript] at hlong
    omega
  · -- the length has wrapped around
    obtain ⟨hvch, -⟩ := Codec.take_eq_some hread
    rw [nSpecialScripts] at hvch
    omega

end CScriptCompressor

/-! ### Outputs -/

namespace CTxOutCompressor

variable [Secp256k1]

/-- `Serialize`. -/
def serialize (txout : CTxOut) : List UInt8 :=
  writeVarInt txout.nValue ++ CScriptCompressor.serialize txout.scriptPubKey

/-- `GetSerializeSize`. -/
def getSerializeSize (txout : CTxOut) : UInt32 :=
  UInt32.ofNat (getSizeOfVarInt txout.nValue) + CScriptCompressor.getSerializeSize txout.scriptPubKey

/-- `Unserialize`, into an output. -/
def unserialize (txout : CTxOut) (s : List UInt8) : Option (CTxOut × List UInt8) :=
  (readVarInt IntType.int64 s).bind fun (nValue, s) =>
    (CScriptCompressor.unserialize txout.scriptPubKey s).map fun (scriptPubKey, s) => (⟨nValue, scriptPubKey⟩, s)

/-- What is read back of an output: of a negative amount, its last seven bits. -/
theorem unserialize_serialize (hlaw : Secp256k1.Lawful) {txout : CTxOut} (hvalue : IntType.int64.Holds txout.nValue)
    (hlen : txout.scriptPubKey.length < 4294967290) (old : CTxOut) (rest : List UInt8) :
    unserialize old (serialize txout ++ rest) =
      some (⟨if 0 ≤ txout.nValue then txout.nValue else txout.nValue % 128, txout.scriptPubKey⟩, rest) := by
  rw [unserialize, serialize, List.append_assoc, readVarInt_written hvalue, Option.bind_some]
  simp only [CScriptCompressor.unserialize_serialize hlaw hlen, Option.map_some]
  rw [IntType.cast_of_lt _ (Int.emod_nonneg _ (by decide)) (Int.emod_lt_of_pos _ (by decide))]

/-- An output is read back exactly when its amount is not negative, and its bytes are counted. -/
theorem txOut_roundTrip (hlaw : Secp256k1.Lawful) {txout : CTxOut} (hvalue : IntType.int64.Holds txout.nValue)
    (hlen : txout.scriptPubKey.length < 2 ^ 32 - CScriptCompressor.nSpecialScripts) (old : CTxOut)
    (rest : List UInt8) :
    (unserialize old (serialize txout ++ rest) = some (txout, rest) ↔ 0 ≤ txout.nValue) ∧
      getSerializeSize txout = UInt32.ofNat (serialize txout).length := by
  constructor
  · rw [unserialize_serialize hlaw hvalue hlen]
    split
    · next hnonneg => exact iff_of_true rfl hnonneg
    · next hneg =>
      refine iff_of_false (fun heq => hneg ?_) hneg
      have hmod : txout.nValue % 128 = txout.nValue :=
        congrArg CTxOut.nValue (Prod.mk.inj (Option.some.inj heq)).1
      exact hmod ▸ Int.emod_nonneg txout.nValue (by decide)
  · rw [getSerializeSize, serialize, List.length_append, length_writeVarInt, UInt32.ofNat_add,
      CScriptCompressor.getSerializeSize_eq]

end CTxOutCompressor

namespace GeneratorSample

/-- The coordinates of the generator of secp256k1. -/
def x : List UInt8 :=
  [0x79, 0xBE, 0x66, 0x7E, 0xF9, 0xDC, 0xBB, 0xAC, 0x55, 0xA0, 0x62, 0x95, 0xCE, 0x87, 0x0B, 0x07,
    0x02, 0x9B, 0xFC, 0xDB, 0x2D, 0xCE, 0x28, 0xD9, 0x59, 0xF2, 0x81, 0x5B, 0x16, 0xF8, 0x17, 0x98]

def y : List UInt8 :=
  [0x48, 0x3A, 0xDA, 0x77, 0x26, 0xA3, 0xC4, 0x65, 0x5D, 0xA4, 0xFB, 0xFC, 0x0E, 0x11, 0x08, 0xA8,
    0xFD, 0x17, 0xB4, 0x48, 0xA6, 0x85, 0x54, 0x19, 0x9C, 0x47, 0xD0, 0x8F, 0xFB, 0x10, 0xD4, 0xB8]

/-- The one key that is known is the generator, whose second coordinate is even. -/
scoped instance generator : Secp256k1 where
  PubKey := Unit
  parse bytes := if bytes = 4 :: (x ++ y) ∨ bytes = 2 :: x then some () else none
  serialize _ := 4 :: (x ++ y)

theorem parse_eq_some {bytes : List UInt8} {key : Secp256k1.PubKey} (h : Secp256k1.parse bytes = some key) :
    bytes = 4 :: (x ++ y) ∨ bytes = 2 :: x :=
  (Option.ite_none_right_eq_some.1 h).1

theorem lawful_generator : Secp256k1.Lawful where
  serialize_parse hlen h := by
    rcases parse_eq_some h with heq | heq
    · exact heq.symm
    · cases congrArg (List.headD · 0) heq
  parse_compressed hx hy h := by
    rcases parse_eq_some h with heq | heq
    · obtain ⟨rfl, rfl⟩ := List.append_inj (List.cons_eq_cons.1 heq).2 hx
      rfl
    · cases congrArg (List.headD · 0) heq

/-- Pays to the generator, uncompressed. -/
def scriptPubKey : CScript := 65 :: 4 :: (x ++ y) ++ [OP_CHECKSIG]

theorem compressor_roundTrip_generator :
    ((∀ old rest, CScriptCompressor.unserialize old (CScriptCompressor.serialize scriptPubKey ++ rest) =
        some (scriptPubKey, rest)) ↔ scriptPubKey.length < 2 ^ 32 - CScriptCompressor.nSpecialScripts) ∧
      CScriptCompressor.getSerializeSize scriptPubKey =
        UInt32.ofNat (CScriptCompressor.serialize scriptPubKey).length :=
  CScriptCompressor.compressor_roundTrip lawful_generator scriptPubKey

theorem txOut_roundTrip_generator :
    (CTxOutCompressor.unserialize ⟨0, []⟩ (CTxOutCompressor.serialize ⟨5000, scriptPubKey⟩ ++ [7]) =
        some (⟨5000, scriptPubKey⟩, [7]) ↔ (0 : ℤ) ≤ 5000) ∧
      CTxOutCompressor.getSerializeSize ⟨5000, scriptPubKey⟩ =
        UInt32.ofNat (CTxOutCompressor.serialize ⟨5000, scriptPubKey⟩).length :=
  CTxOutCompressor.txOut_roundTrip lawful_generator (by decide) (by decide) ⟨0, []⟩ [7]

end GeneratorSample

end PayDayCoin
