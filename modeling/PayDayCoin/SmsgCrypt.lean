import PayDayCoin.SmsgExchange
import PayDayCoin.Base58
import PayDayCoin.Library.Splice

/-!
# Sealing a message

`SecureMsgEncrypt` writes a message into a payload, compresses and encrypts it for the key of the receiver, and
signs the payload with a MAC; `SecureMsgSetHash` then looks for a nonce, which changes only fields that are not under
the MAC. `SecureMsgDecrypt` does the reverse. The elliptic curve, the cipher and the compression are parameters.
-/

namespace PayDayCoin

open Library.Splice

/-- `CPubKey`. -/
structure CPubKey where
  vch : List UInt8
deriving DecidableEq

namespace CPubKey

/-- `GetLen`. -/
def getLen (chHeader : UInt8) : ℕ :=
  if chHeader = 2 ∨ chHeader = 3 then 33
  else if chHeader = 4 ∨ chHeader = 6 ∨ chHeader = 7 then 65
  else 0

/-- `Set`. -/
def ofBytes (bytes : List UInt8) : CPubKey :=
  if bytes ≠ [] ∧ getLen (bytes.headD 0) ≠ 0 ∧ getLen (bytes.headD 0) = bytes.length then ⟨bytes⟩ else ⟨[0xFF]⟩

/-- `size`. -/
def size (key : CPubKey) : ℕ := getLen (key.vch.headD 0)

/-- `IsValid`. -/
def isValid (key : CPubKey) : Bool := 0 < key.size

/-- `IsCompressed`. -/
def isCompressed (key : CPubKey) : Bool := key.size = 33

/-- From `begin` to `end`. -/
def bytes (key : CPubKey) : List UInt8 := key.vch.take key.size

end CPubKey

/-- The hashes, the cipher and the compression of secure messages. -/
class SmsgCipher extends SmsgHash where
  /-- `Hash`, as bytes. -/
  hash : List UInt8 → List UInt8
  /-- `Hash160`. -/
  hash160 : List UInt8 → CKeyID
  sha512 : List UInt8 → List UInt8
  /-- AES-256 in CBC mode: the key, the initial vector and the text; `none` when it fails. -/
  aesEncrypt : List UInt8 → List UInt8 → List UInt8 → Option (List UInt8)
  aesDecrypt : List UInt8 → List UInt8 → List UInt8 → Option (List UInt8)
  /-- What `LZ4_compress` writes. -/
  lz4Compress : List UInt8 → List UInt8
  /-- What `LZ4_decompress_safe` writes into so many bytes; `none` when it fails. -/
  lz4DecompressSafe : List UInt8 → ℕ → Option (List UInt8)

/-- The elliptic curve. -/
class SmsgCurve (CKey : outParam Type) where
  getPubKey : CKey → CPubKey
  signCompact : CKey → List UInt8 → List UInt8
  /-- The key that `RecoverCompact` gives, which is not valid when it fails. -/
  recoverCompact : List UInt8 → List UInt8 → CPubKey
  /-- `CECKey::SetPubKey`. -/
  setPubKey : CPubKey → Bool
  /-- What `ECDH_compute_key` writes. -/
  ecdhComputeKey : CPubKey → CKey → List UInt8

namespace SecureMessage

/-- `iv`. -/
def iv (m : SecureMessage) : List UInt8 := field m.header 15 16

/-- `cpkR`. -/
def cpkR (m : SecureMessage) : List UInt8 := field m.header 31 33

/-- `mac`. -/
def mac (m : SecureMessage) : List UInt8 := field m.header 64 32

/-- The message with bytes written into its header. -/
def write (m : SecureMessage) (pos : ℕ) (bytes : List UInt8) : SecureMessage :=
  { m with header := splice m.header pos bytes }

end SecureMessage

/-- `MessageData`. -/
structure MessageData where
  timestamp : ℤ
  sFromAddress : String
  /-- The text, with a zero after it. -/
  vchMessage : List UInt8
deriving DecidableEq

/-- What a call of `SecureMsgEncrypt` reads besides its arguments. -/
structure EncryptEnv (CKey : Type) where
  /-- `GetTime()`. -/
  now : Int64
  /-- The random bytes for the initial vector. -/
  iv : List UInt8
  /-- The new random key. -/
  keyR : CKey
  iv_length : iv.length = 16

/-- The keys of a node. -/
structure SmsgKeys (CKey : Type) where
  /-- The public keys of the message database. -/
  storedKey : CKeyID → Option CPubKey
  /-- `GetPubKey` of the wallet. -/
  localKey : CKeyID → Option CPubKey
  /-- `GetKey` of the wallet. -/
  getKey : CKeyID → Option CKey

/-! ### The proof of work -/

/-- Whether a hash meets the proof of work: the three bits are joined by a logical or, so that only the lowest one
counts. -/
def hashMeets (sha256Hash : List UInt8) : Bool :=
  sha256Hash.getD 31 0 = 0 && sha256Hash.getD 30 0 = 0 && ~~~(sha256Hash.getD 29 0) &&& 1 ≠ 0

/-- The HMAC of the proof of work. -/
def powHash [SmsgHash] (m : SecureMessage) : Option (List UInt8) :=
  SmsgHash.hmacSha256 (List.replicate 8 m.nonse).flatten (m.header.drop 4 ++ m.payload ++ m.payload)

/-- The loop of `SecureMsgSetHash`: `left` nonces are to come, the next is `nonse`. -/
def setHashLoop [SmsgHash] (fSecMsgEnabled : ℕ → Bool) : ℕ → ℕ → SecureMessage →
    Option (SecureMessage × List UInt8)
  | 0, _, _ => none
  | left + 1, nonse, m =>
    if !fSecMsgEnabled nonse then none
    else
      match powHash (m.write 96 (leBytes 4 nonse)) with
      | none => none
      | some sha256Hash =>
        if hashMeets sha256Hash then some (m.write 96 (leBytes 4 nonse), sha256Hash)
        else setHashLoop fSecMsgEnabled left (nonse + 1) (m.write 96 (leBytes 4 nonse))

/-- `SecureMsgSetHash`: `fSecMsgEnabled` is read before each nonce and once more at the end. -/
def secureMsgSetHash [SmsgHash] (fSecMsgEnabled : ℕ → Bool) (enabledAtEnd : Bool) (m : SecureMessage) :
    Except ℕ SecureMessage :=
  if !enabledAtEnd then .error 2
  else
    match setHashLoop fSecMsgEnabled (2 ^ 32) 0 m with
    | none => .error 1
    | some (m, sha256Hash) => .ok (m.write 0 (sha256Hash.take 4))

/-! ### Encrypting -/

section Crypt

variable {CKey : Type} [SmsgCipher] [SmsgCurve CKey] (params : CChainParams)

/-- The public key of a destination: the one of the database, or a local one. -/
def SmsgKeys.destKey (keys : SmsgKeys CKey) (ckidDest : CKeyID) : Option CPubKey :=
  keys.storedKey ckidDest <|> (keys.localKey ckidDest).filter fun key => key.isValid && key.isCompressed

/-- The part of the payload that holds the text. -/
def msgData (message : List UInt8) : List UInt8 :=
  if 128 < message.length then SmsgCipher.lz4Compress message else message

/-- The payload of a message of no sender. -/
def anonPayload (message : List UInt8) : List UInt8 :=
  [250, 0, 0, 0, 0] ++ leBytes 4 message.length ++ msgData message

/-- The payload of a message of a sender. -/
def signedPayload (coinAddrFrom : CPayDaycoinAddress) (ckidFrom : CKeyID) (keyFrom : CKey) (message : List UInt8) :
    List UInt8 :=
  [coinAddrFrom.getVersion] ++ ckidFrom.pn ++
    SmsgCurve.signCompact keyFrom (SmsgCipher.hash message) ++
    leBytes 4 message.length ++ msgData message

/-- `HMAC` of the time and the payload. -/
def smsgMac (key_m : List UInt8) (m : SecureMessage) : Option (List UInt8) :=
  SmsgHash.hmacSha256 key_m (field m.header 7 8 ++ m.payload)

/-- Who a message is from: nobody, or an address of a key. -/
def senderOf (addressFrom : String) :
    Except (Option ℕ) (Option (CPayDaycoinAddress × CKeyID)) :=
  if addressFrom = "anon" then .ok none
  else
    match CPayDaycoinAddress.setString (SmsgCipher.hash) addressFrom with
    | none => .error (some 3)
    | some coinAddrFrom =>
      match coinAddrFrom.getKeyID params with
      | none => .error (some 4)
      | some ckidFrom => .ok (some (coinAddrFrom, ckidFrom))

/-- The key an address names. -/
def keyIDOf (address : String) (error : ℕ) : Except (Option ℕ) CKeyID :=
  match CPayDaycoinAddress.setString (SmsgCipher.hash) address with
  | none => .error (some error)
  | some coinAddr =>
    match coinAddr.getKeyID params with
    | none => .error (some error)
    | some ckid => .ok ckid

/-- The payload before it is encrypted. -/
def plainPayload (keys : SmsgKeys CKey) (sender : Option (CPayDaycoinAddress × CKeyID)) (message : List UInt8) :
    Except (Option ℕ) (List UInt8) :=
  if 128 < message.length ∧ (SmsgCipher.lz4Compress message).length < 1 then .error (some 9)
  else
    match sender with
    | none => .ok (anonPayload message)
    | some (coinAddrFrom, ckidFrom) =>
      match keys.getKey ckidFrom with
      | none => .error (some 7)
      | some keyFrom => .ok (signedPayload coinAddrFrom ckidFrom keyFrom message)

/-- `SecureMsgEncrypt`, into a message object; the error is what it returns. -/
def secureMsgEncrypt (env : EncryptEnv CKey) (keys : SmsgKeys CKey) (smsg : SecureMessage)
    (addressFrom addressTo : String) (message : List UInt8) : Except (Option ℕ) SecureMessage := do
  if SMSG_MAX_MSG_BYTES < message.length then throw (some 2)
  let smsg := (smsg.write 4 [1, 1]).write 7 (int64Bytes env.now.toInt)
  let sender ← senderOf params addressFrom
  let ckidDest ← keyIDOf params addressTo 4
  let some cpkDestK := keys.destKey ckidDest | throw (some 5)
  let smsg := smsg.write 15 env.iv
  if !SmsgCurve.setPubKey cpkDestK then throw (some 4)
  let vchP := SmsgCurve.ecdhComputeKey cpkDestK env.keyR
  if vchP.length ≠ 32 then throw (some 6)
  let cpkR : CPubKey := SmsgCurve.getPubKey env.keyR
  if !cpkR.isValid || !cpkR.isCompressed then throw (some 1)
  let smsg := smsg.write 31 (cpkR.bytes)
  let vchHashed := SmsgCipher.sha512 vchP
  let vchPayload ← plainPayload keys sender message
  let some vchCiphertext := SmsgCipher.aesEncrypt (vchHashed.take 32) smsg.iv vchPayload | throw (some 11)
  let smsg := { smsg.write 100 (leBytes 4 vchCiphertext.length) with payload := vchCiphertext }
  let some mac := smsgMac (vchHashed.drop 32) smsg | throw (some 10)
  return smsg.write 64 mac

/-! ### Decrypting -/

/-- `SecureMsgInsertAddress`. -/
def secureMsgInsertAddress (storedKey : CKeyID → Option CPubKey) (hashKey : CKeyID) (pubKey : CPubKey) :
    CKeyID → Option CPubKey :=
  if (storedKey hashKey).isSome then storedKey else Function.update storedKey hashKey (some pubKey)

/-- `memcpy` from the payload; there is no result when it reads past the end. -/
def readPayload (vchPayload : List UInt8) (p len : ℕ) : Except (Option ℕ) (List UInt8) :=
  match readBytes vchPayload p len with
  | none => .error none
  | some bytes => .ok bytes

/-- The text of a payload: `lenPlain` bytes of it, from a position on. -/
def readText (vchPayload : List UInt8) (p lenPlain : ℕ) :
    Except (Option ℕ) (List UInt8) :=
  if 2 ^ 32 ≤ lenPlain + 1 then .error none
  else if 128 < lenPlain then
    match SmsgCipher.lz4DecompressSafe (vchPayload.drop p) lenPlain with
    | none => .error (some 1)
    | some text => if text.length ≠ lenPlain then .error (some 1) else .ok text
  else readPayload vchPayload p lenPlain

/-- What `SecureMsgDecrypt` does with the decrypted payload. -/
def readMessage (timestamp : ℤ) (storedKey : CKeyID → Option CPubKey) (vchPayload : List UInt8) :
    Except (Option ℕ) ((CKeyID → Option CPubKey) × MessageData) := do
  if (← readPayload vchPayload 0 1) = [250] then
    let lenPlain := ofBytes (← readPayload vchPayload 5 4)
    let text ← readText vchPayload 9 lenPlain
    return (storedKey, ⟨timestamp, "anon", text ++ [0]⟩)
  else
    let lenPlain := ofBytes (← readPayload vchPayload (1 + 20 + 65) 4)
    let text ← readText vchPayload SMSG_PL_HDR_LEN lenPlain
    let vchUint160 ← readPayload vchPayload 1 20
    if hsize : vchUint160.length = 20 then
      let ckidFrom : CKeyID := ⟨vchUint160, hsize⟩
      let coinAddrFrom := CPayDaycoinAddress.ofKeyID params ckidFrom
      if !coinAddrFrom.isValid params then throw (some 1)
      let vchSig ← readPayload vchPayload (1 + 20) 65
      let cpkFromSig := SmsgCurve.recoverCompact (SmsgCipher.hash text) vchSig
      if !cpkFromSig.isValid then throw (some 1)
      let idFromSig := SmsgCipher.hash160 cpkFromSig.bytes
      if coinAddrFrom ≠ CPayDaycoinAddress.ofKeyID params idFromSig then throw (some 1)
      return (secureMsgInsertAddress storedKey ckidFrom cpkFromSig,
        ⟨timestamp, coinAddrFrom.toString (SmsgCipher.hash), text ++ [0]⟩)
    else throw none

/-- `SecureMsgDecrypt`: the public keys that are known after it and the message, if it is not a test only. -/
def secureMsgDecrypt (keys : SmsgKeys CKey) (fTestOnly : Bool) (address : String) (smsg : SecureMessage) :
    Except (Option ℕ) ((CKeyID → Option CPubKey) × Option MessageData) := do
  if smsg.version ≠ 1 then throw (some 2)
  let ckidDest ← keyIDOf params address 3
  let some keyDest := keys.getKey ckidDest | throw (some 3)
  let cpkR := CPubKey.ofBytes smsg.cpkR
  if !cpkR.isValid then throw (some 1)
  if !SmsgCurve.setPubKey cpkR then throw (some 1)
  let vchP := SmsgCurve.ecdhComputeKey cpkR keyDest
  if vchP.length ≠ 32 then throw (some 1)
  let vchHashedDec := SmsgCipher.sha512 vchP
  let some mac := smsgMac (vchHashedDec.drop 32) smsg | throw (some 1)
  if mac ≠ smsg.mac then throw (some 1)
  if fTestOnly then return (keys.storedKey, none)
  let some vchPayload := SmsgCipher.aesDecrypt (vchHashedDec.take 32) smsg.iv smsg.payload | throw (some 1)
  let (storedKey, msg) ← readMessage params smsg.timestamp keys.storedKey vchPayload
  return (storedKey, some msg)

end Crypt

end PayDayCoin
