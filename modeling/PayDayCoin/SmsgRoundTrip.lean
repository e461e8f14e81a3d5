import PayDayCoin.SmsgCrypt

/-!
# What is sealed can be opened

A message goes through `SecureMsgEncrypt` and `SecureMsgSetHash` at its sender, and through `SecureMsgDecrypt` at the
owner of the address it is for. **`decrypt_encrypt`** is the round trip: the owner gets the text, the time and the
address of the sender, and `SecureMsgValidate` accepts the message. It rests on the laws of the parameters
(`LawfulSmsg`): the shared secret is the same on both sides, the cipher and the compression can be undone, and a
signature gives back the key that made it.
-/

namespace PayDayCoin

open Library.Splice

/-- The laws of the hashes, the cipher, the compression and the curve. -/
structure LawfulSmsg (CKey : Type) [SmsgCipher] [SmsgCurve CKey] : Prop where
  hash_length : ∀ text, (SmsgCipher.hash text).length = 32
  hmac_total : ∀ key text, ∃ mac, SmsgHash.hmacSha256 key text = some mac ∧ mac.length = 32
  aes_total : ∀ key iv text, ∃ c, SmsgCipher.aesEncrypt key iv text = some c
  aes_decrypt : ∀ key iv text c, SmsgCipher.aesEncrypt key iv text = some c →
    SmsgCipher.aesDecrypt key iv c = some text
  /-- The text is padded to whole blocks, by one byte at least. -/
  aes_length : ∀ key iv text c, SmsgCipher.aesEncrypt key iv text = some c → c.length = (text.length / 16 + 1) * 16
  lz4_decompress : ∀ text, SmsgCipher.lz4DecompressSafe (SmsgCipher.lz4Compress text) text.length = some text
  lz4_pos : ∀ text, text ≠ [] → SmsgCipher.lz4Compress text ≠ []
  /-- The longest output is one run of literals: a token, and a byte for every 255 of them. -/
  lz4_length : ∀ text, (SmsgCipher.lz4Compress text).length ≤ text.length + text.length / 255 + 2
  ecdh_comm : ∀ k k' : CKey, SmsgCurve.ecdhComputeKey (SmsgCurve.getPubKey k) k' =
    SmsgCurve.ecdhComputeKey (SmsgCurve.getPubKey k') k
  ecdh_length : ∀ k k' : CKey, (SmsgCurve.ecdhComputeKey (SmsgCurve.getPubKey k) k').length = 32
  setPubKey_getPubKey : ∀ k : CKey, SmsgCurve.setPubKey (SmsgCurve.getPubKey k) = true
  getPubKey_isValid : ∀ k : CKey, (SmsgCurve.getPubKey k).isValid = true
  getPubKey_length : ∀ k : CKey, (SmsgCurve.getPubKey k).vch.length = (SmsgCurve.getPubKey k).size
  sign_length : ∀ (k : CKey) h, (SmsgCurve.signCompact k h).length = 65
  recover_sign : ∀ (k : CKey) h, SmsgCurve.recoverCompact h (SmsgCurve.signCompact k h) = SmsgCurve.getPubKey k

/-! ### Numbers and fields -/

theorem int64OfBytes_int64Bytes (n : Int64) : int64OfBytes (int64Bytes n.toInt) = n.toInt := by
  have hlt : n.toBitVec.toNat < 256 ^ 8 := n.toBitVec.isLt
  rw [int64OfBytes, int64Bytes, Int64.toInt, BitVec.ofInt_toInt, ofBytes_leBytes hlt, BitVec.ofNat_toNat,
    BitVec.setWidth_eq]

theorem length_int64Bytes (n : ℤ) : (int64Bytes n).length = 8 := length_leBytes 8 _

theorem getD_eq_field (l : List UInt8) (i : ℕ) : l.getD i 0 = (field l i 1).headD 0 := by
  rw [field, List.headD_eq_head?_getD, List.head?_take, if_neg (by omega), List.head?_drop,
    List.getD_eq_getElem?_getD]

namespace SecureMessage

theorem version_eq (m : SecureMessage) : m.version = (field m.header 4 1).headD 0 := getD_eq_field m.header 4

theorem timestamp_eq (m : SecureMessage) : m.timestamp = int64OfBytes (field m.header 7 8) := rfl

theorem nonse_eq (m : SecureMessage) : m.nonse = field m.header 96 4 := rfl

theorem nPayload_eq (m : SecureMessage) : m.nPayload = ofBytes (field m.header 100 4) := rfl

variable {m : SecureMessage} {pos : ℕ} {bytes : List UInt8}

theorem length_write (h : pos + bytes.length ≤ m.header.length) :
    (m.write pos bytes).header.length = m.header.length := length_splice h

theorem field_write_self (h : pos + bytes.length ≤ m.header.length) {len : ℕ} (hlen : bytes.length = len) :
    field (m.write pos bytes).header pos len = bytes := hlen ▸ field_splice_self h

theorem field_write {k len : ℕ} (h : pos + bytes.length ≤ m.header.length)
    (hk : k + len ≤ pos ∨ pos + bytes.length ≤ k) :
    field (m.write pos bytes).header k len = field m.header k len := field_splice_of_disjoint h hk

end SecureMessage

/-! ### The proof of work -/

/-- The messages differ in the hash and the nonce only. -/
structure SealedAlike (m m' : SecureMessage) : Prop where
  payload : m'.payload = m.payload
  length : m'.header.length = m.header.length
  field : ∀ k len, 4 ≤ k → (k + len ≤ 96 ∨ 100 ≤ k) →
    Library.Splice.field m'.header k len = Library.Splice.field m.header k len

theorem SealedAlike.trans {m m' m'' : SecureMessage} (h : SealedAlike m m') (h' : SealedAlike m' m'') :
    SealedAlike m m'' :=
  ⟨h'.payload.trans h.payload, h'.length.trans h.length, fun k len hk hlen =>
    (h'.field k len hk hlen).trans (h.field k len hk hlen)⟩

section Pow

variable [SmsgHash] {m m' : SecureMessage}

omit [SmsgHash] in
theorem sealedAlike_nonse (hm : m.header.length = SMSG_HDR_LEN) (nonse : ℕ) :
    SealedAlike m (m.write 96 (leBytes 4 nonse)) := by
  have hfits : 96 + (leBytes 4 nonse).length ≤ m.header.length := by
    rw [length_leBytes, hm]
    decide
  refine ⟨rfl, SecureMessage.length_write hfits, fun k len _ hk => SecureMessage.field_write hfits ?_⟩
  rw [length_leBytes]
  exact hk

/-- What the loop finds: the message with another nonce, and its hash, which meets the proof of work. -/
theorem setHashLoop_spec {fSecMsgEnabled : ℕ → Bool} {left nonse : ℕ} {sha256Hash : List UInt8}
    (hm : m.header.length = SMSG_HDR_LEN) (h : setHashLoop fSecMsgEnabled left nonse m = some (m', sha256Hash)) :
    SealedAlike m m' ∧ powHash m' = some sha256Hash ∧ hashMeets sha256Hash = true := by
  induction left generalizing nonse m with
  | zero => cases h
  | succ left ih =>
    have halike := sealedAlike_nonse hm nonse
    rw [setHashLoop] at h
    split at h
    · cases h
    split at h
    · cases h
    next sha hsha =>
    split at h
    · next hmeets =>
      obtain ⟨rfl, rfl⟩ := Prod.mk.inj (Option.some.inj h)
      exact ⟨halike, hsha, hmeets⟩
    · obtain ⟨hrest, hfound⟩ := ih (halike.length.trans hm) h
      exact ⟨halike.trans hrest, hfound⟩

/-- **What `SecureMsgSetHash` does**: it changes the hash and the nonce only, and the message is valid if its version
and size are. -/
theorem secureMsgSetHash_spec {fSecMsgEnabled : ℕ → Bool} {enabledAtEnd : Bool}
    (hhmac : ∀ key text mac, SmsgHash.hmacSha256 key text = some mac → mac.length = 32)
    (hm : m.header.length = SMSG_HDR_LEN) (h : secureMsgSetHash fSecMsgEnabled enabledAtEnd m = .ok m') :
    SealedAlike m m' ∧ (m'.version = 1 → m'.nPayload ≤ SMSG_MAX_MSG_WORST → secureMsgValidate m' = 0) := by
  unfold secureMsgSetHash at h
  split at h
  · cases h
  split at h
  · cases h
  next m₁ sha hloop =>
  obtain ⟨halike, hpow, hmeets⟩ := setHashLoop_spec hm hloop
  have hsha : (sha.take 4).length = 4 := by
    rw [List.length_take, hhmac _ _ _ hpow]
    rfl
  have hlen : m₁.header.length = 104 := halike.length.trans hm
  have hfits : 0 + (sha.take 4).length ≤ m₁.header.length := by omega
  cases h
  have hhash : (m₁.write 0 (sha.take 4)).hash = sha.take 4 := SecureMessage.field_write_self hfits hsha
  have hdrop : (m₁.write 0 (sha.take 4)).header.drop 4 = m₁.header.drop 4 := drop_splice hfits (by omega)
  have hnonse : (m₁.write 0 (sha.take 4)).nonse = m₁.nonse := SecureMessage.field_write hfits (Or.inr (by omega))
  have hpow' : powHash (m₁.write 0 (sha.take 4)) = some sha := by
    rw [powHash, hdrop, hnonse]
    exact hpow
  refine ⟨halike.trans ⟨rfl, SecureMessage.length_write hfits, fun k len hk _ =>
    SecureMessage.field_write hfits (Or.inr (by omega))⟩, fun hversion hsize => ?_⟩
  rw [powHash] at hpow'
  rw [hashMeets, Bool.and_eq_true, Bool.and_eq_true, decide_eq_true_iff, decide_eq_true_iff,
    decide_eq_true_iff] at hmeets
  unfold secureMsgValidate
  rw [if_neg (not_not.2 hversion), if_neg (by omega), hpow']
  simp only [hhash, ne_eq, not_true_eq_false, ↓reduceIte]
  rw [if_pos ⟨hmeets.1.1, hmeets.1.2, hmeets.2⟩]

end Pow

/-! ### The payload -/

theorem readPayload_append {front mid rest : List UInt8} {p len : ℕ} (hp : front.length = p)
    (hlen : mid.length = len) : readPayload (front ++ (mid ++ rest)) p len = .ok mid := by
  subst hp hlen
  have hread : readBytes (front ++ (mid ++ rest)) front.length mid.length = some mid := by
    rw [readBytes, if_pos (by simp only [List.length_append]; omega), List.drop_left, List.take_left]
  rw [readPayload, hread]

theorem readPayload_head (b : UInt8) (rest : List UInt8) : readPayload (b :: rest) 0 1 = .ok [b] := by
  simp [readPayload, readBytes]

theorem length_lenMsg (n : ℕ) : (leBytes 4 n).length = 4 := length_leBytes 4 n

theorem ofBytes_lenMsg {message : List UInt8} (hlen : message.length ≤ SMSG_MAX_MSG_BYTES) :
    ofBytes (leBytes 4 message.length) = message.length := by
  have hmax : SMSG_MAX_MSG_BYTES = 4096 := rfl
  exact ofBytes_leBytes (by omega)

section Payload

variable {CKey : Type} [SmsgCipher] [SmsgCurve CKey] {params : CChainParams} {message : List UInt8}

omit [SmsgCurve CKey] in
/-- The text is read as it was written. -/
theorem readText_msgData
    (hlz4 : ∀ text, SmsgCipher.lz4DecompressSafe (SmsgCipher.lz4Compress text) text.length = some text)
    (hlen : message.length ≤ SMSG_MAX_MSG_BYTES) {front : List UInt8} {p : ℕ} (hp : front.length = p) :
    readText (front ++ msgData message) p message.length = .ok message := by
  have hmax : SMSG_MAX_MSG_BYTES = 4096 := rfl
  unfold readText msgData
  rw [if_neg (by omega)]
  split
  · rw [← hp, List.drop_left, hlz4]
    simp
  · have hread : readPayload (front ++ (message ++ [])) p message.length = .ok message := readPayload_append hp rfl
    rw [List.append_nil] at hread
    exact hread

omit [SmsgCurve CKey] in
theorem length_msgData (hlz4 : ∀ text, (SmsgCipher.lz4Compress text).length ≤ text.length + text.length / 255 + 2)
    (hlen : message.length ≤ SMSG_MAX_MSG_BYTES) : (msgData message).length ≤ 4114 := by
  have hmax : SMSG_MAX_MSG_BYTES = 4096 := rfl
  have hcompress := hlz4 message
  unfold msgData
  split <;> omega

/-- The message of no sender. -/
theorem readMessage_anonPayload (hlaw : LawfulSmsg CKey) (hlen : message.length ≤ SMSG_MAX_MSG_BYTES) (timestamp : ℤ)
    (storedKey : CKeyID → Option CPubKey) :
    readMessage params timestamp storedKey (anonPayload message) =
      .ok (storedKey, ⟨timestamp, "anon", message ++ [0]⟩) := by
  have hmark : readPayload (anonPayload message) 0 1 = .ok [250] := readPayload_head _ _
  have hplain : readPayload (anonPayload message) 5 4 = .ok (leBytes 4 message.length) := by
    rw [anonPayload, List.append_assoc]
    exact readPayload_append rfl (length_lenMsg _)
  have htext : readText (anonPayload message) 9 message.length = .ok message :=
    readText_msgData hlaw.lz4_decompress hlen (by rw [List.length_append, length_lenMsg]; rfl)
  unfold readMessage
  rw [hmark]
  simp only [bind, Except.bind, ↓reduceIte, hplain, ofBytes_lenMsg hlen, htext]
  rfl

/-- The message of a sender. -/
theorem readMessage_signedPayload (hlaw : LawfulSmsg CKey) (hlen : message.length ≤ SMSG_MAX_MSG_BYTES)
    (timestamp : ℤ) (storedKey : CKeyID → Option CPubKey) {id : CKeyID} {keyFrom : CKey}
    (hid : SmsgCipher.hash160 (SmsgCurve.getPubKey keyFrom).bytes = id) :
    readMessage params timestamp storedKey
        (signedPayload (CPayDaycoinAddress.ofKeyID params id) id keyFrom message) =
      .ok (secureMsgInsertAddress storedKey id (SmsgCurve.getPubKey keyFrom),
        ⟨timestamp, (CPayDaycoinAddress.ofKeyID params id).toString SmsgCipher.hash, message ++ [0]⟩) := by
  have hsig := hlaw.sign_length keyFrom (SmsgCipher.hash message)
  generalize hpayload : signedPayload (CPayDaycoinAddress.ofKeyID params id) id keyFrom message = payload
  have hsplit : payload = [params.pubkeyAddress] ++ (id.pn ++
      (SmsgCurve.signCompact keyFrom (SmsgCipher.hash message) ++
        (leBytes 4 message.length ++ msgData message))) := by
    rw [← hpayload, signedPayload]
    simp only [List.append_assoc]
    rfl
  have hmark : readPayload payload 0 1 = .ok [params.pubkeyAddress] := by
    rw [hsplit]
    exact readPayload_head _ _
  have hpn : readPayload payload 1 20 = .ok id.pn := by
    rw [hsplit]
    exact readPayload_append rfl id.size_eq
  have hvchSig : readPayload payload (1 + 20) 65 = .ok (SmsgCurve.signCompact keyFrom (SmsgCipher.hash message)) := by
    rw [hsplit, ← List.append_assoc]
    exact readPayload_append (by rw [List.length_append, id.size_eq]; rfl) hsig
  have hfront : ([params.pubkeyAddress] ++ id.pn ++ SmsgCurve.signCompact keyFrom (SmsgCipher.hash message)).length =
      1 + 20 + 65 := by
    rw [List.length_append, List.length_append, id.size_eq, hsig]
    rfl
  have hplain : readPayload payload (1 + 20 + 65) 4 = .ok (leBytes 4 message.length) := by
    rw [hsplit, ← List.append_assoc, ← List.append_assoc]
    exact readPayload_append hfront (length_lenMsg _)
  have htext : readText payload SMSG_PL_HDR_LEN message.length = .ok message := by
    rw [hsplit, ← List.append_assoc, ← List.append_assoc, ← List.append_assoc]
    exact readText_msgData hlaw.lz4_decompress hlen (by rw [List.length_append, hfront, length_lenMsg]; rfl)
  have hnot : ([params.pubkeyAddress] = ([250] : List UInt8)) = False :=
    eq_false fun h => (pubkeyAddress_ne params).2 (List.cons.inj h).1
  have hvalid : (CPayDaycoinAddress.ofKeyID params id).isValid params = true := by
    simp [CPayDaycoinAddress.isValid, CPayDaycoinAddress.ofKeyID, id.size_eq]
  have hmk : (⟨id.pn, id.size_eq⟩ : CKeyID) = id := rfl
  unfold readMessage
  rw [hmark]
  simp only [bind, Except.bind, hnot, ↓reduceIte, hplain, ofBytes_lenMsg hlen, htext, hpn, id.size_eq, ↓reduceDIte,
    hmk, hvalid, Bool.not_true, Bool.false_eq_true, hvchSig, hlaw.recover_sign, hlaw.getPubKey_isValid, hid, ne_eq,
    not_true_eq_false]
  rfl

end Payload

/-! ### The header -/

section Header

variable {CKey : Type} (env : EncryptEnv CKey) (smsg : SecureMessage) (cpkR c mac : List UInt8)

/-- The message object with the version, the time, the initial vector and the public key. -/
def addressed : SecureMessage :=
  (((smsg.write 4 [1, 1]).write 7 (int64Bytes env.now.toInt)).write 15 env.iv).write 31 cpkR

/-- The message with its encrypted payload. -/
def filled : SecureMessage :=
  { (addressed env smsg cpkR).write 100 (leBytes 4 c.length) with payload := c }

/-- The message with its MAC. -/
def sealedMessage : SecureMessage := (filled env smsg cpkR c).write 64 mac

variable {smsg cpkR c mac}

/-- What the header says before the payload is there. -/
theorem addressed_spec (hm : smsg.header.length = SMSG_HDR_LEN) (hR : cpkR.length = 33) :
    (addressed env smsg cpkR).header.length = 104 ∧ field (addressed env smsg cpkR).header 4 1 = [1] ∧
      field (addressed env smsg cpkR).header 7 8 = int64Bytes env.now.toInt ∧
      (addressed env smsg cpkR).iv = env.iv ∧ (addressed env smsg cpkR).cpkR = cpkR := by
  have htime := length_int64Bytes env.now.toInt
  have hiv := env.iv_length
  have hversion : ([1, 1] : List UInt8).length = 2 := rfl
  have h₀ : smsg.header.length = 104 := hm
  have h₁ : (smsg.write 4 [1, 1]).header.length = 104 := (SecureMessage.length_write (by omega)).trans h₀
  have h₂ : ((smsg.write 4 [1, 1]).write 7 (int64Bytes env.now.toInt)).header.length = 104 :=
    (SecureMessage.length_write (by omega)).trans h₁
  have h₃ : (((smsg.write 4 [1, 1]).write 7 (int64Bytes env.now.toInt)).write 15 env.iv).header.length = 104 :=
    (SecureMessage.length_write (by omega)).trans h₂
  have hfirst : field (smsg.write 4 [1, 1]).header 4 1 = [1] := by
    have hpair : field (smsg.write 4 [1, 1]).header 4 2 = [1, 1] := SecureMessage.field_write_self (by omega) rfl
    have htake : field (smsg.write 4 [1, 1]).header 4 1 = (field (smsg.write 4 [1, 1]).header 4 2).take 1 := by
      rw [field, field, List.take_take]
      rfl
    rw [htake, hpair]
    rfl
  refine ⟨(SecureMessage.length_write (by omega)).trans h₃, ?_, ?_, ?_, ?_⟩
  · rw [addressed, SecureMessage.field_write (by omega) (by omega), SecureMessage.field_write (by omega) (by omega),
      SecureMessage.field_write (by omega) (by omega), hfirst]
  · rw [addressed, SecureMessage.field_write (by omega) (by omega), SecureMessage.field_write (by omega) (by omega),
      SecureMessage.field_write_self (by omega) htime]
  · rw [addressed, SecureMessage.iv, SecureMessage.field_write (by omega) (by omega),
      SecureMessage.field_write_self (by omega) hiv]
  · rw [addressed, SecureMessage.cpkR, SecureMessage.field_write_self (by omega) hR]

/-- What the header says when the message is sealed. -/
theorem sealedMessage_spec (hm : smsg.header.length = SMSG_HDR_LEN) (hR : cpkR.length = 33) (hmac : mac.length = 32)
    (hc : c.length < 2 ^ 32) :
    (sealedMessage env smsg cpkR c mac).header.length = SMSG_HDR_LEN ∧
      (∀ k len, k + len ≤ 64 → field (sealedMessage env smsg cpkR c mac).header k len =
        field (addressed env smsg cpkR).header k len) ∧
      (sealedMessage env smsg cpkR c mac).mac = mac ∧ (sealedMessage env smsg cpkR c mac).nPayload = c.length ∧
      (sealedMessage env smsg cpkR c mac).payload = c := by
  obtain ⟨h₀, -⟩ := addressed_spec env hm hR
  have hsize := length_lenMsg c.length
  have hfilled : (filled env smsg cpkR c).header =
      ((addressed env smsg cpkR).write 100 (leBytes 4 c.length)).header := rfl
  have h₁ : (filled env smsg cpkR c).header.length = 104 := by
    rw [hfilled, SecureMessage.length_write (by omega), h₀]
  refine ⟨?_, ?_, ?_, ?_, rfl⟩
  · rw [sealedMessage, SecureMessage.length_write (by omega), h₁]
    rfl
  · intro k len hk
    rw [sealedMessage, SecureMessage.field_write (by omega) (by omega), hfilled,
      SecureMessage.field_write (by omega) (by omega)]
  · rw [sealedMessage, SecureMessage.mac, SecureMessage.field_write_self (by omega) hmac]
  · rw [SecureMessage.nPayload_eq, sealedMessage, SecureMessage.field_write (by omega) (by omega), hfilled,
      SecureMessage.field_write_self (by omega) hsize, ofBytes_leBytes hc]

end Header

/-! ### The round trip -/

section RoundTrip

variable {CKey : Type} [SmsgCipher] [SmsgCurve CKey] {params : CChainParams} {message : List UInt8}

/-- How a sender is named: nobody, or the address of a key. -/
def senderAddress (params : CChainParams) : Option CKeyID → String
  | none => "anon"
  | some id => (CPayDaycoinAddress.ofKeyID params id).toString SmsgCipher.hash

omit [SmsgCurve CKey] in
theorem setString_ofKeyID (hhash : ∀ text, (SmsgCipher.hash text).length = 32) (id : CKeyID) :
    CPayDaycoinAddress.setString SmsgCipher.hash ((CPayDaycoinAddress.ofKeyID params id).toString SmsgCipher.hash) =
      some (CPayDaycoinAddress.ofKeyID params id) :=
  setString_toString hhash (pubkeyAddress_ne params).1 id.pn

omit [SmsgCurve CKey] in
theorem keyIDOf_toString (hhash : ∀ text, (SmsgCipher.hash text).length = 32) (id : CKeyID) (error : ℕ) :
    keyIDOf params ((CPayDaycoinAddress.ofKeyID params id).toString SmsgCipher.hash) error = .ok id := by
  rw [keyIDOf, setString_ofKeyID hhash]
  simp only [getKeyID_ofKeyID]

omit [SmsgCurve CKey] in
/-- No address is the word for a message of no sender. -/
theorem toString_ne_anon (hhash : ∀ text, (SmsgCipher.hash text).length = 32) (id : CKeyID) :
    (CPayDaycoinAddress.ofKeyID params id).toString SmsgCipher.hash ≠ "anon" := by
  intro h
  have hset : CPayDaycoinAddress.setString SmsgCipher.hash ((CPayDaycoinAddress.ofKeyID params id).toString
      SmsgCipher.hash) = some (CPayDaycoinAddress.ofKeyID params id) := setString_ofKeyID hhash id
  have hshort : (decodeBase58 "anon").map List.length = some 3 := by decide
  rw [h, CPayDaycoinAddress.setString, CPayDaycoinAddress.decodeBase58Check] at hset
  cases hdecode : decodeBase58 "anon" with
  | none =>
    rw [hdecode] at hset
    cases hset
  | some vch =>
    rw [hdecode, Option.map_some, Option.some.injEq] at hshort
    rw [hdecode] at hset
    simp only [hshort, show (3 < 4) = True from eq_true (by omega), ↓reduceIte] at hset
    cases hset

omit [SmsgCurve CKey] in
theorem senderOf_senderAddress (hhash : ∀ text, (SmsgCipher.hash text).length = 32) (sender : Option CKeyID) :
    senderOf params (senderAddress params sender) =
      .ok (sender.map fun id => (CPayDaycoinAddress.ofKeyID params id, id)) := by
  cases sender with
  | none => rfl
  | some id =>
    rw [senderOf, senderAddress, if_neg (toString_ne_anon hhash id), setString_ofKeyID hhash]
    simp only [getKeyID_ofKeyID]
    rfl

/-- The payload of a message, and what is read from it. -/
theorem plainPayload_spec (hlaw : LawfulSmsg CKey) (hlen : message.length ≤ SMSG_MAX_MSG_BYTES) {keys : SmsgKeys CKey}
    {sender : Option CKeyID}
    (hsender : ∀ id, sender = some id →
      ∃ keyFrom, keys.getKey id = some keyFrom ∧ SmsgCipher.hash160 (SmsgCurve.getPubKey keyFrom).bytes = id) :
    ∃ payload, plainPayload keys (sender.map fun id => (CPayDaycoinAddress.ofKeyID params id, id)) message =
        .ok payload ∧
      payload.length ≤ 4204 ∧ ∀ timestamp storedKey, ∃ storedKey', readMessage params timestamp storedKey payload =
        .ok (storedKey', ⟨timestamp, senderAddress params sender, message ++ [0]⟩) := by
  have hdata := length_msgData hlaw.lz4_length hlen
  have hcompress : ¬(128 < message.length ∧ (SmsgCipher.lz4Compress message).length < 1) := by
    rintro ⟨hlong, hnone⟩
    have hne : message ≠ [] := List.ne_nil_of_length_pos (by omega)
    exact hlaw.lz4_pos message hne (List.eq_nil_of_length_eq_zero (by omega))
  unfold plainPayload
  rw [if_neg hcompress]
  cases sender with
  | none =>
    refine ⟨anonPayload message, rfl, ?_, fun timestamp storedKey =>
      ⟨storedKey, readMessage_anonPayload hlaw hlen timestamp storedKey⟩⟩
    rw [anonPayload, List.length_append, List.length_append, length_lenMsg]
    change 5 + 4 + _ ≤ _
    omega
  | some id =>
    obtain ⟨keyFrom, hkey, hid⟩ := hsender id rfl
    simp only [Option.map_some, hkey]
    refine ⟨_, rfl, ?_, fun timestamp storedKey => ⟨_, readMessage_signedPayload hlaw hlen timestamp storedKey hid⟩⟩
    rw [signedPayload, List.length_append, List.length_append, List.length_append, List.length_append, length_lenMsg,
      id.size_eq, hlaw.sign_length]
    change 1 + 20 + 65 + 4 + _ ≤ _
    omega

omit [SmsgCipher] in
/-- A public key is read as it was written. -/
theorem ofBytes_bytes {key : CPubKey} (hvalid : key.isValid = true) (hlen : key.vch.length = key.size) :
    CPubKey.ofBytes key.bytes = key := by
  have hpos : 0 < key.size := of_decide_eq_true hvalid
  have hbytes : key.bytes = key.vch := List.take_of_length_le (by omega)
  have hne : key.vch ≠ [] := List.ne_nil_of_length_pos (by omega)
  rw [CPubKey.ofBytes, hbytes, if_pos ⟨hne, Nat.pos_iff_ne_zero.1 hpos, hlen.symm⟩]

/-- **What `SecureMsgEncrypt` gives**: a sealed message, whose cipher text and MAC are made with the secret of its
random key and the key of the destination. -/
theorem secureMsgEncrypt_spec (hlaw : LawfulSmsg CKey) (hlen : message.length ≤ SMSG_MAX_MSG_BYTES)
    (env : EncryptEnv CKey) (hcompressed : (SmsgCurve.getPubKey env.keyR).isCompressed = true) {keys : SmsgKeys CKey}
    {smsg : SecureMessage} (hm : smsg.header.length = SMSG_HDR_LEN) {sender : Option CKeyID} {dest : CKeyID}
    {keyDest : CKey} (hdest : keys.destKey dest = some (SmsgCurve.getPubKey keyDest)) {payload : List UInt8}
    (hpayload : plainPayload keys (sender.map fun id => (CPayDaycoinAddress.ofKeyID params id, id)) message =
      .ok payload) :
    ∃ c mac, secureMsgEncrypt params env keys smsg (senderAddress params sender)
          ((CPayDaycoinAddress.ofKeyID params dest).toString SmsgCipher.hash) message =
        .ok (sealedMessage env smsg (SmsgCurve.getPubKey env.keyR).bytes c mac) ∧
      SmsgCipher.aesEncrypt ((SmsgCipher.sha512
        (SmsgCurve.ecdhComputeKey (SmsgCurve.getPubKey keyDest) env.keyR)).take 32) env.iv payload = some c ∧
      SmsgHash.hmacSha256 ((SmsgCipher.sha512
        (SmsgCurve.ecdhComputeKey (SmsgCurve.getPubKey keyDest) env.keyR)).drop 32)
          (int64Bytes env.now.toInt ++ c) = some mac ∧ mac.length = 32 := by
  have hR : (SmsgCurve.getPubKey env.keyR).bytes.length = 33 := by
    have hsize : (SmsgCurve.getPubKey env.keyR).size = 33 := of_decide_eq_true hcompressed
    rw [CPubKey.bytes, List.length_take, hlaw.getPubKey_length, hsize]
    rfl
  obtain ⟨-, -, htime, hiv, -⟩ := addressed_spec env hm hR
  obtain ⟨c, hc⟩ := hlaw.aes_total ((SmsgCipher.sha512
    (SmsgCurve.ecdhComputeKey (SmsgCurve.getPubKey keyDest) env.keyR)).take 32) env.iv payload
  obtain ⟨mac, hmac, hmaclen⟩ := hlaw.hmac_total ((SmsgCipher.sha512
    (SmsgCurve.ecdhComputeKey (SmsgCurve.getPubKey keyDest) env.keyR)).drop 32) (int64Bytes env.now.toInt ++ c)
  have hmac' : smsgMac ((SmsgCipher.sha512 (SmsgCurve.ecdhComputeKey (SmsgCurve.getPubKey keyDest) env.keyR)).drop 32)
      (filled env smsg (SmsgCurve.getPubKey env.keyR).bytes c) = some mac := by
    obtain ⟨h₀, -⟩ := addressed_spec env hm hR
    rw [smsgMac, filled, SecureMessage.field_write (by rw [length_lenMsg, h₀]) (Or.inl (by omega)), htime]
    exact hmac
  have hsmall : ¬SMSG_MAX_MSG_BYTES < message.length := Nat.not_lt.2 hlen
  refine ⟨c, mac, ?_, hc, hmac, hmaclen⟩
  rw [← hiv] at hc
  unfold secureMsgEncrypt
  simp only [bind, Except.bind, hsmall, ↓reduceIte, pure, Except.pure, senderOf_senderAddress hlaw.hash_length,
    keyIDOf_toString hlaw.hash_length, hdest, hlaw.setPubKey_getPubKey, hlaw.ecdh_length, hlaw.getPubKey_isValid,
    hcompressed, hpayload, Bool.not_true, Bool.false_eq_true, Bool.or_self, ne_eq, not_true_eq_false]
  rw [addressed] at hc
  rw [filled, addressed] at hmac'
  simp only [hc, hmac']
  rfl

/-- **The round trip**: the message that `SecureMsgEncrypt` and `SecureMsgSetHash` make is valid, and the owner of the
destination gets the text, the time and the sender from it. -/
theorem decrypt_encrypt (hlaw : LawfulSmsg CKey) (hlen : message.length ≤ SMSG_MAX_MSG_BYTES) (env : EncryptEnv CKey)
    (hcompressed : (SmsgCurve.getPubKey env.keyR).isCompressed = true) {keys ownerKeys : SmsgKeys CKey}
    {smsg : SecureMessage} (hm : smsg.header.length = SMSG_HDR_LEN) {sender : Option CKeyID} {dest : CKeyID}
    {keyDest : CKey}
    (hsender : ∀ id, sender = some id →
      ∃ keyFrom, keys.getKey id = some keyFrom ∧ SmsgCipher.hash160 (SmsgCurve.getPubKey keyFrom).bytes = id)
    (hdest : keys.destKey dest = some (SmsgCurve.getPubKey keyDest)) (howner : ownerKeys.getKey dest = some keyDest) :
    ∃ smsg₁, secureMsgEncrypt params env keys smsg (senderAddress params sender)
          ((CPayDaycoinAddress.ofKeyID params dest).toString SmsgCipher.hash) message = .ok smsg₁ ∧
      ∀ fSecMsgEnabled enabledAtEnd smsg₂, secureMsgSetHash fSecMsgEnabled enabledAtEnd smsg₁ = .ok smsg₂ →
        secureMsgValidate smsg₂ = 0 ∧
          ∃ storedKey, secureMsgDecrypt params ownerKeys false
              ((CPayDaycoinAddress.ofKeyID params dest).toString SmsgCipher.hash) smsg₂ =
            .ok (storedKey, some ⟨env.now.toInt, senderAddress params sender, message ++ [0]⟩) := by
  obtain ⟨payload, hpayload, hsize, hread⟩ := plainPayload_spec hlaw hlen hsender
  obtain ⟨c, mac, hencrypt, hc, hmac, hmaclen⟩ :=
    secureMsgEncrypt_spec hlaw hlen env hcompressed hm hdest hpayload
  refine ⟨_, hencrypt, fun fSecMsgEnabled enabledAtEnd smsg₂ hset => ?_⟩
  have hR : (SmsgCurve.getPubKey env.keyR).bytes.length = 33 := by
    have hsize : (SmsgCurve.getPubKey env.keyR).size = 33 := of_decide_eq_true hcompressed
    rw [CPubKey.bytes, List.length_take, hlaw.getPubKey_length, hsize]
    rfl
  have hclen := hlaw.aes_length _ _ _ _ hc
  obtain ⟨-, hversion, htime, hiv, hcpkR⟩ := addressed_spec env hm hR
  obtain ⟨hlength, hfields, hmacfield, hnPayload, hc'⟩ := sealedMessage_spec env hm hR hmaclen
    (by omega : c.length < 2 ^ 32)
  obtain ⟨halike, hvalid⟩ := secureMsgSetHash_spec (fun key text mac h => by
    obtain ⟨mac', hmac', hlen'⟩ := hlaw.hmac_total key text
    rw [h, Option.some.injEq] at hmac'
    exact hmac' ▸ hlen') hlength hset
  -- the fields that are under the MAC, or make the secret, come through the proof of work
  have hversion₂ : smsg₂.version = 1 := by
    rw [SecureMessage.version_eq, halike.field 4 1 (by omega) (by omega), hfields 4 1 (by omega), hversion]
    rfl
  have htime₂ : field smsg₂.header 7 8 = int64Bytes env.now.toInt := by
    rw [halike.field 7 8 (by omega) (by omega), hfields 7 8 (by omega), htime]
  have hiv₂ : smsg₂.iv = env.iv := by
    rw [SecureMessage.iv, halike.field 15 16 (by omega) (by omega), hfields 15 16 (by omega)]
    exact hiv
  have hcpkR₂ : smsg₂.cpkR = (SmsgCurve.getPubKey env.keyR).bytes := by
    rw [SecureMessage.cpkR, halike.field 31 33 (by omega) (by omega), hfields 31 33 (by omega)]
    exact hcpkR
  have hmac₂ : smsg₂.mac = mac := (halike.field 64 32 (by omega) (by omega)).trans hmacfield
  have hnPayload₂ : smsg₂.nPayload = c.length := by
    rw [SecureMessage.nPayload_eq, halike.field 100 4 (by omega) (by omega)]
    exact hnPayload
  have hpayload₂ : smsg₂.payload = c := halike.payload.trans hc'
  have hworst : SMSG_MAX_MSG_WORST = 4218 := by decide
  refine ⟨hvalid hversion₂ (by omega), ?_⟩
  obtain ⟨storedKey, hmessage⟩ := hread smsg₂.timestamp ownerKeys.storedKey
  have htimestamp : smsg₂.timestamp = env.now.toInt := by
    rw [SecureMessage.timestamp_eq, htime₂, int64OfBytes_int64Bytes]
  have hkey : CPubKey.ofBytes smsg₂.cpkR = SmsgCurve.getPubKey env.keyR := by
    rw [hcpkR₂]
    exact ofBytes_bytes (hlaw.getPubKey_isValid _) (hlaw.getPubKey_length _)
  rw [hlaw.ecdh_comm] at hc hmac
  have hmac' : smsgMac ((SmsgCipher.sha512 (SmsgCurve.ecdhComputeKey (SmsgCurve.getPubKey env.keyR) keyDest)).drop 32)
      smsg₂ = some mac := by
    rw [smsgMac, htime₂, hpayload₂]
    exact hmac
  rw [htimestamp] at hmessage
  refine ⟨storedKey, ?_⟩
  unfold secureMsgDecrypt
  simp only [bind, Except.bind, hversion₂, ne_eq, not_true_eq_false, ↓reduceIte, pure, Except.pure,
    keyIDOf_toString hlaw.hash_length, howner, hkey, hlaw.getPubKey_isValid, hlaw.setPubKey_getPubKey,
    hlaw.ecdh_length, hmac', hmac₂, Bool.not_true, Bool.false_eq_true, hiv₂, hpayload₂, hlaw.aes_decrypt _ _ _ _ hc,
    hmessage, htimestamp]

end RoundTrip

namespace SmsgSample

/-- The keys of a sender and of a receiver, and a random key. -/
inductive SampleKey
  | sender | receiver | random
deriving DecidableEq

/-- Their public keys. -/
def samplePubKey : SampleKey → CPubKey
  | .sender => ⟨[2, 47, 139, 222, 77, 26, 7, 32, 147, 85, 180, 167, 37, 10, 92, 81, 40, 232, 139, 132, 189, 220, 97, 154,
      183, 203, 168, 213, 105, 178, 64, 239, 228]⟩
  | .receiver => ⟨[3, 119, 74, 231, 248, 88, 169, 65, 30, 94, 244, 36, 107, 112, 198, 90, 172, 86, 73, 152, 11, 229, 193, 120,
      145, 187, 236, 23, 137, 93, 160, 8, 203]⟩
  | .random => ⟨[2, 92, 189, 240, 100, 110, 93, 180, 234, 163, 152, 243, 101, 242, 234, 122, 14, 61, 65, 155, 126, 3, 48,
      227, 156, 233, 43, 221, 237, 202, 196, 249, 188]⟩

/-- The key ids of the sender and of the receiver. -/
def senderID : CKeyID :=
  ⟨[71, 71, 232, 116, 108, 221, 179, 59, 15, 127, 149, 169, 15, 137, 248, 159, 179, 135, 203, 182], rfl⟩
def receiverID : CKeyID :=
  ⟨[54, 41, 149, 166, 230, 146, 42, 4, 224, 184, 50, 168, 11, 197, 108, 51, 112, 154, 66, 210], rfl⟩

/-- The text `hi`. -/
def sampleText : List UInt8 := [104, 105]
/-- The signature of the sender. -/
def sampleSig : List UInt8 :=
  [32, 33, 72, 227, 183, 28, 18, 177, 56, 158, 119, 97, 224, 8, 144, 185, 149, 151, 100, 101, 224, 248, 117, 171,
   33, 63, 196, 183, 202, 172, 181, 216, 132, 28, 3, 169, 221, 126, 237, 165, 143, 126, 45, 82, 9, 155, 152, 205,
   71, 143, 161, 191, 95, 229, 42, 72, 157, 201, 113, 197, 171, 172, 170, 168, 122]

/-- The secret of the random key and the receiver, and its hash. -/
def sampleSecret : List UInt8 :=
  [89, 219, 244, 111, 140, 148, 117, 155, 162, 18, 119, 195, 55, 132, 244, 22, 69, 247, 180, 79, 108, 89, 106, 88,
   206, 146, 230, 102, 25, 26, 190, 62]
def sampleSha512 : List UInt8 :=
  [184, 218, 49, 58, 25, 193, 247, 158, 29, 78, 239, 150, 10, 205, 246, 90, 232, 238, 93, 115, 250, 85, 236, 175,
   181, 72, 248, 105, 113, 227, 118, 167, 11, 109, 46, 217, 77, 243, 203, 203, 51, 193, 100, 159, 34, 55, 93, 47,
   40, 22, 247, 200, 193, 245, 230, 7, 44, 118, 156, 93, 207, 158, 230, 171]

/-- The payload, and its cipher text. -/
def samplePayload : List UInt8 :=
  [50, 71, 71, 232, 116, 108, 221, 179, 59, 15, 127, 149, 169, 15, 137, 248, 159, 179, 135, 203, 182, 32, 33, 72,
   227, 183, 28, 18, 177, 56, 158, 119, 97, 224, 8, 144, 185, 149, 151, 100, 101, 224, 248, 117, 171, 33, 63, 196,
   183, 202, 172, 181, 216, 132, 28, 3, 169, 221, 126, 237, 165, 143, 126, 45, 82, 9, 155, 152, 205, 71, 143, 161,
   191, 95, 229, 42, 72, 157, 201, 113, 197, 171, 172, 170, 168, 122, 2, 0, 0, 0, 104, 105]
def sampleCipher : List UInt8 :=
  [46, 149, 34, 27, 143, 188, 26, 231, 252, 137, 66, 71, 19, 111, 99, 83, 106, 178, 13, 4, 166, 253, 132, 133, 27,
   122, 171, 247, 117, 10, 105, 213, 34, 195, 163, 248, 112, 228, 63, 34, 128, 44, 140, 95, 235, 29, 36, 75, 132,
   57, 146, 73, 4, 125, 172, 129, 90, 233, 216, 81, 122, 24, 184, 222, 91, 160, 75, 22, 58, 192, 207, 203, 148,
   108, 23, 77, 165, 240, 47, 1, 147, 253, 10, 249, 124, 27, 241, 47, 91, 254, 170, 6, 254, 209, 251, 162]

/-- The MAC. -/
def sampleMac : List UInt8 :=
  [97, 91, 153, 128, 112, 160, 150, 105, 141, 216, 41, 190, 16, 178, 182, 54, 167, 1, 59, 167, 160, 9, 152, 0, 89,
   6, 20, 21, 138, 86, 69, 7]

/-- A hash of zeros, but for the values that the sample needs. -/
def sampleHash (text : List UInt8) : List UInt8 :=
  if text = sampleText then
    [188, 79, 72, 215, 168, 101, 29, 201, 122, 228, 21, 240, 180, 122, 82, 239, 26, 39, 2, 9, 130, 2, 57, 43, 136,
      188, 146, 95, 110, 137, 238, 23]
  else if text = 50 :: senderID.pn then
    [111, 198, 92, 189, 148, 228, 100, 176, 248, 5, 189, 14, 245, 102, 180, 166, 23, 146, 54, 199, 135, 125, 90,
      39, 16, 42, 76, 233, 103, 174, 118, 131]
  else if text = 50 :: receiverID.pn then
    [63, 5, 87, 54, 198, 225, 210, 239, 112, 139, 78, 57, 165, 58, 251, 136, 24, 236, 107, 233, 154, 144, 189,
      130, 42, 112, 171, 62, 211, 158, 23, 214]
  else List.replicate 32 0

/-- How many bytes fill the last block. -/
def padding (text : List UInt8) : ℕ := 16 - text.length % 16

/-- The cipher of the sample, which leaves any other text as it is but for the padding. -/
def sampleEncrypt (key iv text : List UInt8) : List UInt8 :=
  if key = sampleSha512.take 32 ∧ iv = [1, 2, 3, 4, 5, 6, 7, 8, 9, 10, 11, 12, 13, 14, 15, 16] ∧
      text = samplePayload then
    sampleCipher
  else text ++ List.replicate (padding text) (UInt8.ofNat (padding text))
def sampleDecrypt (c : List UInt8) : List UInt8 :=
  if c = sampleCipher then samplePayload else c.take (c.length - (c.getLastD 0).toNat)

/-- A signature that names the key, but for the one of the sample. -/
def sampleSign : SampleKey → List UInt8 → List UInt8
  | .sender, hash => if hash = sampleHash sampleText then sampleSig else 0 :: List.replicate 64 0
  | .receiver, _ => 1 :: List.replicate 64 0
  | .random, _ => 2 :: List.replicate 64 0
def sampleRecover (sig : List UInt8) : CPubKey :=
  if sig.headD 0 = 1 then samplePubKey .receiver else if sig.headD 0 = 2 then samplePubKey .random
  else samplePubKey .sender

scoped instance smsgCipher : SmsgCipher where
  hmacSha256 key text :=
    some (if key = sampleSha512.drop 32 ∧ text = int64Bytes 1530000000 ++ sampleCipher then sampleMac
      else List.replicate 32 0)
  xxh32 _ := 0
  hash := sampleHash
  hash160 bytes := if bytes = (samplePubKey .sender).vch then senderID else receiverID
  sha512 secret := if secret = sampleSecret then sampleSha512 else List.replicate 64 0
  aesEncrypt key iv text := some (sampleEncrypt key iv text)
  aesDecrypt _ _ c := some (sampleDecrypt c)
  lz4Compress text := text
  lz4DecompressSafe text _ := some text

scoped instance smsgCurve : SmsgCurve SampleKey where
  getPubKey := samplePubKey
  signCompact := sampleSign
  recoverCompact _ := sampleRecover
  setPubKey _ := true
  ecdhComputeKey pub key :=
    if pub = samplePubKey .random ∧ key = .receiver ∨ pub = samplePubKey .receiver ∧ key = .random then sampleSecret
    else List.replicate 32 0

theorem sampleDecrypt_sampleEncrypt (key iv text : List UInt8) :
    sampleDecrypt (sampleEncrypt key iv text) = text := by
  have hpad : padding text ≤ 16 := Nat.sub_le _ _
  have hpos : 0 < padding text := by
    unfold padding
    omega
  unfold sampleEncrypt
  split
  · next h =>
    rw [sampleDecrypt, if_pos rfl, h.2.2]
  · have hlast : (text ++ List.replicate (padding text) (UInt8.ofNat (padding text))).getLastD 0 =
        UInt8.ofNat (padding text) := by
      rw [List.getLastD_eq_getLast?, List.getLast?_append, List.getLast?_replicate, if_neg (by omega)]
      rfl
    have htoNat : (UInt8.ofNat (padding text)).toNat = padding text := by
      rw [UInt8.toNat_ofNat']
      omega
    have hne : text ++ List.replicate (padding text) (UInt8.ofNat (padding text)) ≠ sampleCipher := by
      intro h
      rw [h] at hlast
      have hcipher : sampleCipher.getLastD 0 = 162 := by decide
      rw [hcipher] at hlast
      have h162 : (162 : UInt8).toNat = 162 := rfl
      rw [hlast, htoNat] at h162
      omega
    rw [sampleDecrypt, if_neg hne, hlast, htoNat, List.length_append, List.length_replicate, Nat.add_sub_cancel,
      List.take_left]

theorem length_sampleEncrypt (key iv text : List UInt8) :
    (sampleEncrypt key iv text).length = (text.length / 16 + 1) * 16 := by
  unfold sampleEncrypt
  split
  · next h =>
    rw [h.2.2]
    rfl
  · rw [List.length_append, List.length_replicate, padding]
    omega

theorem sample_lawful : LawfulSmsg SampleKey where
  hash_length text := by
    change (sampleHash text).length = 32
    unfold sampleHash
    split
    · rfl
    split
    · rfl
    split <;> rfl
  hmac_total key text := ⟨_, rfl, by split <;> rfl⟩
  aes_total key iv text := ⟨_, rfl⟩
  aes_decrypt key iv text c h := by
    rw [← Option.some.inj h]
    exact congrArg some (sampleDecrypt_sampleEncrypt key iv text)
  aes_length key iv text c h := by
    rw [← Option.some.inj h]
    exact length_sampleEncrypt key iv text
  lz4_decompress text := rfl
  lz4_pos text h := h
  lz4_length text := by
    change text.length ≤ _
    omega
  ecdh_comm k k' := by cases k <;> cases k' <;> decide
  ecdh_length k k' := by cases k <;> cases k' <;> decide
  setPubKey_getPubKey k := rfl
  getPubKey_isValid k := by cases k <;> decide
  getPubKey_length k := by cases k <;> decide
  sign_length k h := by
    cases k with
    | sender =>
      change (if h = sampleHash sampleText then sampleSig else 0 :: List.replicate 64 0).length = 65
      split <;> rfl
    | receiver => rfl
    | random => rfl
  recover_sign k h := by
    cases k with
    | sender =>
      change sampleRecover (if h = sampleHash sampleText then sampleSig else 0 :: List.replicate 64 0) = _
      split <;> rfl
    | receiver => rfl
    | random => rfl

/-- What the random numbers are, and a message object. -/
def sampleEncryptEnv : EncryptEnv SampleKey where
  now := 1530000000
  iv := [1, 2, 3, 4, 5, 6, 7, 8, 9, 10, 11, 12, 13, 14, 15, 16]
  keyR := .random
  iv_length := rfl
def blankMessage : SecureMessage := ⟨List.replicate 104 0, []⟩

/-- The keys of the sender, who knows the receiver, and those of the receiver. -/
def senderKeys : SmsgKeys SampleKey where
  storedKey id := if id = receiverID then some (samplePubKey .receiver) else none
  localKey id := if id = senderID then some (samplePubKey .sender) else none
  getKey id := if id = senderID then some .sender else none
def receiverKeys : SmsgKeys SampleKey where
  storedKey _ := none
  localKey id := if id = receiverID then some (samplePubKey .receiver) else none
  getKey id := if id = receiverID then some .receiver else none

theorem decrypt_encrypt_sample :
    ∃ smsg₁, secureMsgEncrypt CChainParams.main sampleEncryptEnv senderKeys blankMessage
          (senderAddress CChainParams.main (some senderID))
          ((CPayDaycoinAddress.ofKeyID CChainParams.main receiverID).toString SmsgCipher.hash) sampleText = .ok smsg₁ ∧
      ∀ fSecMsgEnabled enabledAtEnd smsg₂, secureMsgSetHash fSecMsgEnabled enabledAtEnd smsg₁ = .ok smsg₂ →
        secureMsgValidate smsg₂ = 0 ∧
          ∃ storedKey, secureMsgDecrypt CChainParams.main receiverKeys false
              ((CPayDaycoinAddress.ofKeyID CChainParams.main receiverID).toString SmsgCipher.hash) smsg₂ =
            .ok (storedKey, some ⟨sampleEncryptEnv.now.toInt, senderAddress CChainParams.main (some senderID),
              sampleText ++ [0]⟩) := by
  have hlen : sampleText.length ≤ SMSG_MAX_MSG_BYTES := by decide
  have hcompressed : (SmsgCurve.getPubKey sampleEncryptEnv.keyR).isCompressed = true := by decide
  have hm : blankMessage.header.length = SMSG_HDR_LEN := by decide
  have hdest : senderKeys.destKey receiverID = some (SmsgCurve.getPubKey SampleKey.receiver) := by decide
  have howner : receiverKeys.getKey receiverID = some SampleKey.receiver := by decide
  have hkey : senderKeys.getKey senderID = some SampleKey.sender := by decide
  have hid : SmsgCipher.hash160 (SmsgCurve.getPubKey SampleKey.sender).bytes = senderID := by decide
  have hsender : ∀ id, some senderID = some id → ∃ keyFrom, senderKeys.getKey id = some keyFrom ∧
      SmsgCipher.hash160 (SmsgCurve.getPubKey keyFrom).bytes = id := by
    intro id h
    rw [← Option.some.inj h]
    exact ⟨_, hkey, hid⟩
  exact decrypt_encrypt sample_lawful hlen sampleEncryptEnv hcompressed hm hsender hdest howner

end SmsgSample

end PayDayCoin
