import PayDayCoin.SmsgRoundTrip
import PayDayCoin.NetMessages
import PayDayCoin.Library.Checks

/-!
# The inside of a decrypted payload

The part of `SecureMsgDecrypt` behind the cipher, with every access to the payload and to `msg.vchMessage` and with what
`LZ4_decompress_safe` returns; `.error none` stands for an access outside of either. The sender of a message that is
authenticated chooses the bytes, and the function does not compare the lengths in them with the length of the payload.

It stays in bounds, and succeeds only when as many bytes have been decoded as the payload announces, exactly for the
payloads of `LengthsOk` (**`secureMsgDecrypt_safe_iff`**): that have a whole header, and either a text in the clear that
is not longer than what follows, or a byte or more to decompress and not the one announced length that, as an `int`, is
the error code of `LZ4_decompress_safe`.
-/

namespace PayDayCoin

open Library.Splice Library.Checks

/-! ### LZ4 -/

/-- What `LZ4_decompress_safe` returns, and the bytes that it has written. -/
structure Lz4Result where
  code : ℤ
  written : List UInt8

/-- The bytes of a literal length that follow its token: all up to the first that is not 255. -/
def runLengthBytes : List UInt8 → ℕ
  | [] => 0
  | s :: rest => if s = 255 then runLengthBytes rest + 1 else 1

/-- The bytes up to the end of the first literal length. -/
def firstRun : List UInt8 → ℕ
  | [] => 1
  | token :: rest => if token >>> 4 = 15 then runLengthBytes rest + 1 else 1

/-- What the source of `LZ4_decompress_safe` promises of an input that is not empty: the number of bytes written is
returned when it is not negative, no more are written than fit, and a negative room is an error after the first literal
length. -/
structure LawfulLz4 (lz4 : List UInt8 → ℤ → Lz4Result) : Prop where
  length_written : ∀ {source n}, 0 ≤ (lz4 source n).code → ((lz4 source n).written.length : ℤ) = (lz4 source n).code
  written_le : ∀ source n, ((lz4 source n).written.length : ℤ) ≤ max n 0
  code_of_neg : ∀ {source n}, n < 0 → (lz4 source n).code = -(firstRun source) - 1

theorem firstRun_pos (source : List UInt8) : 1 ≤ firstRun source := by
  cases source with
  | nil => exact le_rfl
  | cons token rest =>
    rw [firstRun]
    split <;> omega

/-- `(int) lenPlain`. -/
def intOf (lenPlain : ℕ) : ℤ := (BitVec.ofNat 32 lenPlain).toInt

theorem intOf_of_lt {n : ℕ} (h : n < 4294967296) : intOf n = if n < 2147483648 then (n : ℤ) else n - 4294967296 := by
  rw [intOf, BitVec.toInt_eq_toNat_cond, BitVec.toNat_ofNat, Nat.mod_eq_of_lt h]
  split <;> split <;> omega

/-! ### SecureMsgDecrypt -/

section Inner

variable {CKey : Type} [SmsgCipher] [SmsgCurve CKey] (params : CChainParams) (lz4 : List UInt8 → ℤ → Lz4Result)
  (resizes : ℕ → Bool)

/-- What `SecureMsgDecrypt` has at the end: the length that the payload announces, the bytes that have been decoded, the
public keys that are known, and the message. -/
structure DecryptedMessage where
  lenPlain : ℕ
  decoded : List UInt8
  storedKey : CKeyID → Option CPubKey
  msg : MessageData

/-- `lenPlain + 1`, in 32 bits. -/
def messageSize (lenPlain : ℕ) : ℕ := (lenPlain + 1) % 4294967296

/-- `msg.vchMessage` after it has been resized, the decoded bytes have been written and a zero after them. -/
def writtenMessage (vchMessage : List UInt8) (lenPlain : ℕ) (decoded : List UInt8) : List UInt8 :=
  (splice (resize vchMessage (messageSize lenPlain)) 0 decoded).set lenPlain 0

/-- The text at `p`: what has been decoded, before it is known to be as long as it should. -/
def decodeText (vchPayload : List UInt8) (p lenPlain : ℕ) : Except (Option ℕ) (List UInt8) :=
  if 128 < lenPlain then
    if vchPayload.drop p = [] then .error none
    else
      let r := lz4 (vchPayload.drop p) (intOf lenPlain)
      if messageSize lenPlain < r.written.length then .error none
      else if r.code ≠ intOf lenPlain then .error (some 1)
      else .ok r.written
  else readPayload vchPayload p lenPlain

/-- The sender of a message, whose signature is checked, and the public keys that are known then. -/
def readSender (storedKey : CKeyID → Option CPubKey) (fFromAnonymous : Bool) (vchPayload text : List UInt8) :
    Except (Option ℕ) ((CKeyID → Option CPubKey) × String) :=
  if fFromAnonymous then .ok (storedKey, "anon")
  else
    (readPayload vchPayload 1 20).bind fun vchUint160 =>
      if hsize : vchUint160.length = 20 then
        let ckidFrom : CKeyID := ⟨vchUint160, hsize⟩
        let coinAddrFrom := CPayDaycoinAddress.ofKeyID params ckidFrom
        if coinAddrFrom.isValid params = false then .error (some 1)
        else
          (readPayload vchPayload (1 + 20) 65).bind fun vchSig =>
            let cpkFromSig := SmsgCurve.recoverCompact (SmsgCipher.hash text) vchSig
            if cpkFromSig.isValid = false then .error (some 1)
            else if coinAddrFrom ≠ CPayDaycoinAddress.ofKeyID params (SmsgCipher.hash160 cpkFromSig.bytes) then
              .error (some 1)
            else
              .ok (secureMsgInsertAddress storedKey ckidFrom cpkFromSig, coinAddrFrom.toString (SmsgCipher.hash))
      else .error none

/-- What `SecureMsgDecrypt` does once it knows where the text is and how long it should be; `resizes` says for which
sizes there is memory. -/
def readMessageAt (timestamp : ℤ) (storedKey : CKeyID → Option CPubKey) (vchMessage vchPayload : List UInt8)
    (fFromAnonymous : Bool) (p lenPlain : ℕ) : Except (Option ℕ) DecryptedMessage :=
  if resizes (messageSize lenPlain) = false then .error (some 8)
  else
    (decodeText lz4 vchPayload p lenPlain).bind fun decoded =>
      if messageSize lenPlain ≤ lenPlain then .error none
      else
        let vchMessage := writtenMessage vchMessage lenPlain decoded
        (readSender params storedKey fFromAnonymous vchPayload vchMessage.dropLast).map
          fun (storedKey, sFromAddress) => ⟨lenPlain, decoded, storedKey, ⟨timestamp, sFromAddress, vchMessage⟩⟩

/-- What `SecureMsgDecrypt` does with the decrypted payload. -/
def readInner (timestamp : ℤ) (storedKey : CKeyID → Option CPubKey) (vchMessage vchPayload : List UInt8) :
    Except (Option ℕ) DecryptedMessage :=
  (readPayload vchPayload 0 1).bind fun first =>
    let p := if first = [250] then 9 else SMSG_PL_HDR_LEN
    (readPayload vchPayload (p - 4) 4).bind fun lenPlain =>
      readMessageAt params lz4 resizes timestamp storedKey vchMessage vchPayload (first = [250]) p (ofBytes lenPlain)

/-- `SecureMsgDecrypt` up to the decrypted payload; `none` when it is a test only. -/
def openPayload (keys : SmsgKeys CKey) (fTestOnly : Bool) (address : String) (smsg : SecureMessage) :
    Except (Option ℕ) (Option (List UInt8)) :=
  if smsg.version ≠ 1 then .error (some 2)
  else
    (keyIDOf params address 3).bind fun ckidDest =>
      match keys.getKey ckidDest with
      | none => .error (some 3)
      | some keyDest =>
        let cpkR := CPubKey.ofBytes smsg.cpkR
        if cpkR.isValid = false then .error (some 1)
        else if SmsgCurve.setPubKey cpkR = false then .error (some 1)
        else
          let vchP := SmsgCurve.ecdhComputeKey cpkR keyDest
          if vchP.length ≠ 32 then .error (some 1)
          else
            let vchHashedDec := SmsgCipher.sha512 vchP
            match smsgMac (vchHashedDec.drop 32) smsg with
            | none => .error (some 1)
            | some mac =>
              if mac ≠ smsg.mac then .error (some 1)
              else if fTestOnly then .ok none
              else
                match SmsgCipher.aesDecrypt (vchHashedDec.take 32) smsg.iv smsg.payload with
                | none => .error (some 1)
                | some vchPayload => .ok (some vchPayload)

/-- `SecureMsgDecrypt` into `msg.vchMessage`. -/
def secureMsgDecryptInto (keys : SmsgKeys CKey) (fTestOnly : Bool) (address : String) (smsg : SecureMessage)
    (vchMessage : List UInt8) : Except (Option ℕ) (Option DecryptedMessage) :=
  (openPayload params keys fTestOnly address smsg).bind fun opened =>
    match opened with
    | none => .ok none
    | some vchPayload => (readInner params lz4 resizes smsg.timestamp keys.storedKey vchMessage vchPayload).map some

/-! ### The lengths in a payload -/

/-- Where the text of a payload is. -/
def textPos (vchPayload : List UInt8) : ℕ := if vchPayload.head? = some 250 then 9 else SMSG_PL_HDR_LEN

/-- The length that a payload announces. -/
def announced (vchPayload : List UInt8) : ℕ := ofBytes ((vchPayload.drop (textPos vchPayload - 4)).take 4)

/-- Whether a payload is from nobody, or its signature is the sender's for a text. -/
def senderAccepted (vchPayload text : List UInt8) : Bool :=
  (readSender params (fun _ => none) (decide (vchPayload.head? = some 250)) vchPayload text).isOk

/-- The payloads whose lengths are in order, as far as memory is given for the text. -/
def LengthsOk (vchMessage vchPayload : List UInt8) : Prop :=
  textPos vchPayload ≤ vchPayload.length ∧
    (resizes (messageSize (announced vchPayload)) = true →
      (announced vchPayload ≤ 128 → textPos vchPayload + announced vchPayload ≤ vchPayload.length) ∧
      (128 < announced vchPayload → textPos vchPayload < vchPayload.length ∧
        ¬(intOf (announced vchPayload) = -(firstRun (vchPayload.drop (textPos vchPayload))) - 1 ∧
          senderAccepted params vchPayload (writtenMessage vchMessage (announced vchPayload) []).dropLast = true)))

/-- No access out of bounds, and success only with as many bytes as are announced. -/
def Safe (result : Except (Option ℕ) (Option DecryptedMessage)) : Prop :=
  result ≠ .error none ∧ ∀ message, result = .ok (some message) → message.lenPlain = message.decoded.length

/-! ### Reading -/

section Reading

variable {vchPayload : List UInt8} {pos len : ℕ}

omit [SmsgCipher] in
theorem readPayload_of_le (h : pos + len ≤ vchPayload.length) :
    readPayload vchPayload pos len = .ok ((vchPayload.drop pos).take len) := by
  rw [readPayload, readBytes, if_pos h]

omit [SmsgCipher] in
theorem readPayload_of_not_le (h : ¬pos + len ≤ vchPayload.length) : readPayload vchPayload pos len = .error none := by
  rw [readPayload, readBytes, if_neg h]

omit [SmsgCipher] in
theorem announced_lt (vchPayload : List UInt8) : announced vchPayload < 4294967296 := by
  refine (ofBytes_lt _).trans_le ?_
  have hle : ((vchPayload.drop (textPos vchPayload - 4)).take 4).length ≤ 4 := List.length_take_le _ _
  exact (Nat.pow_le_pow_right (by decide) hle).trans (by decide)

omit [SmsgCipher] in
theorem nine_le_textPos (vchPayload : List UInt8) : 9 ≤ textPos vchPayload := by
  rw [textPos]
  split
  · exact le_rfl
  · decide

omit [SmsgCipher] in
theorem pos_of_first {a : UInt8} (rest : List UInt8) :
    (if [a] = [(250 : UInt8)] then 9 else SMSG_PL_HDR_LEN) = textPos (a :: rest) := by
  simp [textPos]

end Reading

variable {params lz4 resizes} {timestamp : ℤ} {storedKey : CKeyID → Option CPubKey} {vchMessage vchPayload : List UInt8}

/-- A payload without a whole header is read past its end. -/
theorem readInner_of_short (h : ¬textPos vchPayload ≤ vchPayload.length) :
    readInner params lz4 resizes timestamp storedKey vchMessage vchPayload = .error none := by
  cases vchPayload with
  | nil => rfl
  | cons a rest =>
    have hfour := nine_le_textPos (a :: rest)
    rw [readInner, readPayload_of_le (by simp)]
    simp only [Except.bind, List.drop_zero, List.take_succ_cons, List.take_zero, pos_of_first rest]
    rw [readPayload_of_not_le (by omega)]

theorem readInner_of_long (h : textPos vchPayload ≤ vchPayload.length) :
    readInner params lz4 resizes timestamp storedKey vchMessage vchPayload =
      readMessageAt params lz4 resizes timestamp storedKey vchMessage vchPayload (vchPayload.head? = some 250)
        (textPos vchPayload) (announced vchPayload) := by
  cases vchPayload with
  | nil =>
    have hfour := nine_le_textPos []
    exact absurd h (by rw [List.length_nil]; omega)
  | cons a rest =>
    have hfour := nine_le_textPos (a :: rest)
    rw [readInner, readPayload_of_le (by simp)]
    simp only [Except.bind, List.drop_zero, List.take_succ_cons, List.take_zero, pos_of_first rest]
    rw [readPayload_of_le (by omega)]
    simp [announced]

/-! ### The sender and the text -/

variable (params storedKey) in
/-- With a whole header the sender is accepted or not, whatever keys are known. -/
theorem readSender_cases (h : textPos vchPayload ≤ vchPayload.length) (text : List UInt8) :
    (∃ r, readSender params storedKey (vchPayload.head? = some 250) vchPayload text = .ok r ∧
      senderAccepted params vchPayload text = true) ∨
    readSender params storedKey (vchPayload.head? = some 250) vchPayload text = .error (some 1) ∧
      senderAccepted params vchPayload text = false := by
  rw [senderAccepted, readSender, readSender]
  by_cases hanon : vchPayload.head? = some 250
  · simp only [hanon, decide_true, if_true]
    exact .inl ⟨_, rfl, rfl⟩
  · have hlen : 90 ≤ vchPayload.length := by
      rw [textPos, if_neg hanon] at h
      exact h
    have hsize : ((vchPayload.drop 1).take 20).length = 20 := by
      rw [List.length_take, List.length_drop]
      omega
    simp only [hanon, decide_false, Bool.false_eq_true, if_false]
    rw [readPayload_of_le (show 1 + 20 ≤ vchPayload.length by omega),
      readPayload_of_le (show 1 + 20 + 65 ≤ vchPayload.length by omega)]
    simp only [Except.bind, hsize, dite_true]
    split
    · exact .inr ⟨rfl, rfl⟩
    · split
      · exact .inr ⟨rfl, rfl⟩
      · split
        · exact .inr ⟨rfl, rfl⟩
        · exact .inl ⟨_, rfl, rfl⟩

omit [SmsgCipher] in
theorem messageSize_of_lt {n : ℕ} (h : n + 1 < 4294967296) : messageSize n = n + 1 := Nat.mod_eq_of_lt h

variable (lz4 vchPayload) in
omit [SmsgCipher] in
/-- Text in the clear is read when it is there. -/
theorem decodeText_plain {p lenPlain : ℕ} (h : lenPlain ≤ 128) : decodeText lz4 vchPayload p lenPlain =
    if p + lenPlain ≤ vchPayload.length then .ok ((vchPayload.drop p).take lenPlain) else .error none := by
  rw [decodeText, if_neg (not_lt.2 h)]
  split
  · next hle => exact readPayload_of_le hle
  · next hle => exact readPayload_of_not_le hle

variable (vchPayload) in
omit [SmsgCipher] in
/-- Text that is compressed is an access past the end when there is none of it; it is as long as announced, or its length
is the error code, or it is refused. -/
theorem decodeText_lz4 (hlz4 : LawfulLz4 lz4) {p lenPlain : ℕ} (h : 128 < lenPlain) (hlt : lenPlain < 4294967296) :
    (vchPayload.length ≤ p ∧ decodeText lz4 vchPayload p lenPlain = .error none) ∨
    p < vchPayload.length ∧
      ((intOf lenPlain = -(firstRun (vchPayload.drop p)) - 1 ∧ decodeText lz4 vchPayload p lenPlain = .ok []) ∨
        intOf lenPlain ≠ -(firstRun (vchPayload.drop p)) - 1 ∧
          (decodeText lz4 vchPayload p lenPlain = .error (some 1) ∨
            lenPlain + 1 < 4294967296 ∧
              ∃ text, decodeText lz4 vchPayload p lenPlain = .ok text ∧ text.length = lenPlain)) := by
  have hint := intOf_of_lt hlt
  have hrun := firstRun_pos (vchPayload.drop p)
  have hwritten := hlz4.written_le (vchPayload.drop p) (intOf lenPlain)
  rw [decodeText, if_pos h]
  split
  · next hnil => exact .inl ⟨List.drop_eq_nil_iff.1 hnil, rfl⟩
  · next hne =>
    have hp : p < vchPayload.length := by
      by_contra hle
      exact hne (List.drop_eq_nil_of_le (not_lt.1 hle))
    refine .inr ⟨hp, ?_⟩
    by_cases hneg : intOf lenPlain < 0
    · have hcode : (lz4 (vchPayload.drop p) (intOf lenPlain)).code = -(firstRun (vchPayload.drop p)) - 1 :=
        hlz4.code_of_neg hneg
      have hnone : (lz4 (vchPayload.drop p) (intOf lenPlain)).written = [] :=
        List.eq_nil_of_length_eq_zero (by omega)
      by_cases heq : intOf lenPlain = -(firstRun (vchPayload.drop p)) - 1
      · refine .inl ⟨heq, ?_⟩
        rw [if_neg (by simp [hnone]), if_neg (by rw [hcode, heq]; simp), hnone]
      · refine .inr ⟨heq, .inl ?_⟩
        rw [if_neg (by simp [hnone]), if_pos (by rw [hcode]; exact fun h => heq h.symm)]
    · have hsmall : lenPlain < 2147483648 := by
        by_contra hbig
        rw [if_neg hbig] at hint
        omega
      rw [if_pos hsmall] at hint
      have hsize := messageSize_of_lt (n := lenPlain) (by omega)
      refine .inr ⟨by omega, ?_⟩
      rw [if_neg (by rw [hsize]; omega)]
      split
      · exact .inl rfl
      · next hcode =>
        have hcode := not_not.1 hcode
        have hlen : ((lz4 (vchPayload.drop p) (intOf lenPlain)).written.length : ℤ) =
            (lz4 (vchPayload.drop p) (intOf lenPlain)).code := hlz4.length_written (by omega)
        exact .inr ⟨by omega, _, rfl, by omega⟩

/-! ### When it is safe -/

omit [SmsgCipher] in
theorem safe_error (code : ℕ) : Safe (.error (some code)) := by simp [Safe]

omit [SmsgCipher] in
theorem not_safe_error : ¬Safe (.error none) := by simp [Safe]

/-- Once the text is decoded: it is as long as announced, or the sender is refused. -/
theorem safe_of_decoded (h : textPos vchPayload ≤ vchPayload.length)
    (hres : resizes (messageSize (announced vchPayload)) = true) (hlt : announced vchPayload + 1 < 4294967296)
    {text : List UInt8} (hdec : decodeText lz4 vchPayload (textPos vchPayload) (announced vchPayload) = .ok text) :
    Safe ((readInner params lz4 resizes timestamp storedKey vchMessage vchPayload).map some) ↔
      announced vchPayload = text.length ∨
        senderAccepted params vchPayload (writtenMessage vchMessage (announced vchPayload) text).dropLast = false := by
  rw [readInner_of_long h, readMessageAt, if_neg (by simp [hres]), hdec, Except.bind, messageSize_of_lt hlt,
    if_neg (by omega)]
  rcases readSender_cases params storedKey h
    (writtenMessage vchMessage (announced vchPayload) text).dropLast with ⟨r, hr, haccepted⟩ | ⟨hr, haccepted⟩
  · simp only [hr, haccepted, Bool.true_eq_false, or_false]
    constructor
    · rintro ⟨-, hlen⟩
      exact hlen _ rfl
    · intro hlen
      refine ⟨by simp [Except.map], fun message hm => ?_⟩
      simp only [Except.map, Except.ok.injEq, Option.some.injEq] at hm
      rw [← hm]
      exact hlen
  · simp only [hr, haccepted, or_true, iff_true]
    exact safe_error 1

theorem readInner_safe_iff (hlz4 : LawfulLz4 lz4) :
    Safe ((readInner params lz4 resizes timestamp storedKey vchMessage vchPayload).map some) ↔
      LengthsOk params resizes vchMessage vchPayload := by
  have hlt := announced_lt vchPayload
  by_cases h : textPos vchPayload ≤ vchPayload.length
  swap
  · rw [readInner_of_short h]
    exact iff_of_false not_safe_error fun hok => h hok.1
  by_cases hres : resizes (messageSize (announced vchPayload)) = true
  swap
  · rw [readInner_of_long h, readMessageAt, if_pos (by simpa using hres)]
    exact iff_of_true (safe_error 8) ⟨h, fun hres' => absurd hres' hres⟩
  by_cases hplain : announced vchPayload ≤ 128
  · have hdec := decodeText_plain lz4 vchPayload (p := textPos vchPayload) hplain
    by_cases hfits : textPos vchPayload + announced vchPayload ≤ vchPayload.length
    · rw [if_pos hfits] at hdec
      rw [safe_of_decoded h hres (by omega) hdec]
      refine iff_of_true (.inl ?_) ⟨h, fun _ => ⟨fun _ => hfits, fun hlong => absurd hlong (not_lt.2 hplain)⟩⟩
      rw [List.length_take, List.length_drop]
      omega
    · rw [if_neg hfits] at hdec
      rw [readInner_of_long h, readMessageAt, if_neg (by simp [hres]), hdec]
      exact iff_of_false not_safe_error fun hok => hfits ((hok.2 hres).1 hplain)
  · have hlong : 128 < announced vchPayload := not_le.1 hplain
    rcases decodeText_lz4 vchPayload hlz4 (p := textPos vchPayload) hlong hlt with
      ⟨hend, hdec⟩ | ⟨hp, ⟨hcode, hdec⟩ | ⟨hcode, hdec | ⟨hlt', text, hdec, hlen⟩⟩⟩
    · rw [readInner_of_long h, readMessageAt, if_neg (by simp [hres]), hdec]
      exact iff_of_false not_safe_error fun hok => absurd ((hok.2 hres).2 hlong).1 (not_lt.2 hend)
    · have hrun := firstRun_pos (vchPayload.drop (textPos vchPayload))
      have hint := intOf_of_lt hlt
      have hlt' : announced vchPayload + 1 < 4294967296 := by
        split at hint <;> omega
      rw [safe_of_decoded h hres hlt' hdec]
      constructor
      · rintro (hzero | hrefused)
        · rw [List.length_nil] at hzero
          omega
        · exact ⟨h, fun _ => ⟨fun hle => absurd hle hplain, fun _ => ⟨hp, fun hbad => by simp [hrefused] at hbad⟩⟩⟩
      · intro hok
        refine .inr (Bool.eq_false_iff.2 fun haccepted => ?_)
        exact ((hok.2 hres).2 hlong).2 ⟨hcode, haccepted⟩
    · rw [readInner_of_long h, readMessageAt, if_neg (by simp [hres]), hdec]
      exact iff_of_true (safe_error 1)
        ⟨h, fun _ => ⟨fun hle => absurd hle hplain, fun _ => ⟨hp, fun hbad => hcode hbad.1⟩⟩⟩
    · rw [safe_of_decoded h hres hlt' hdec]
      exact iff_of_true (.inl hlen.symm)
        ⟨h, fun _ => ⟨fun hle => absurd hle hplain, fun _ => ⟨hp, fun hbad => hcode hbad.1⟩⟩⟩

/-- The part of `SecureMsgDecrypt` before the payload is decrypted returns an error code or gives the payload. -/
theorem openPayload_ne_none (keys : SmsgKeys CKey) (fTestOnly : Bool) (address : String) (smsg : SecureMessage) :
    openPayload params keys fTestOnly address smsg ≠ .error none := by
  have hkeyID : ∀ error, keyIDOf params address 3 = .error error → error = some 3 := by
    intro error h
    rw [keyIDOf] at h
    split at h
    · exact (Except.error.inj h).symm
    · split at h
      · exact (Except.error.inj h).symm
      · cases h
  rw [openPayload]
  split
  · simp
  · cases hkey : keyIDOf params address 3 with
    | error error => simp [Except.bind, hkeyID error hkey]
    | ok ckidDest =>
      simp only [Except.bind]
      repeat' split
      all_goals simp

/-- `SecureMsgDecrypt` stays in bounds and succeeds only with as many bytes as are announced, exactly when the lengths
in the payload that it has decrypted are in order. -/
theorem secureMsgDecrypt_safe_iff (hlz4 : LawfulLz4 lz4) (keys : SmsgKeys CKey) (fTestOnly : Bool) (address : String)
    (smsg : SecureMessage) (vchMessage : List UInt8) :
    Safe (secureMsgDecryptInto params lz4 resizes keys fTestOnly address smsg vchMessage) ↔
      ∀ vchPayload, openPayload params keys fTestOnly address smsg = .ok (some vchPayload) →
        LengthsOk params resizes vchMessage vchPayload := by
  rw [secureMsgDecryptInto]
  cases hopen : openPayload params keys fTestOnly address smsg with
  | error error =>
    cases error with
    | none => exact absurd hopen (openPayload_ne_none keys fTestOnly address smsg)
    | some code => exact iff_of_true (safe_error code) (by simp)
  | ok opened =>
    cases opened with
    | none => exact iff_of_true (by simp [Except.bind, Safe]) (by simp)
    | some vchPayload =>
      simp only [Except.bind, Except.ok.injEq, Option.some.injEq, forall_eq']
      exact readInner_safe_iff hlz4

end Inner

namespace SmsgSample

/-- A decompression that refuses what it is given after the first literal length. -/
def refuses (source : List UInt8) (_ : ℤ) : Lz4Result := ⟨-(firstRun source) - 1, []⟩

theorem lawfulLz4_refuses : LawfulLz4 refuses where
  length_written {source n} h := by
    have hrun := firstRun_pos source
    change 0 ≤ -(firstRun source : ℤ) - 1 at h
    omega
  written_le source n := by simp [refuses]
  code_of_neg _ := rfl

/-- An authenticated message of nobody to the receiver, that announces five bytes of text and has none. -/
def craftedMessage : SecureMessage where
  header := splice (splice (List.replicate 104 0) 4 [1]) 31 (samplePubKey .random).vch
  payload := [250, 0, 0, 0, 0, 5, 0, 0, 0] ++ List.replicate 7 7

/-- The address of the receiver. -/
def payloadAddress : String := (CPayDaycoinAddress.ofKeyID CChainParams.main receiverID).toString SmsgCipher.hash

theorem openPayload_crafted : openPayload CChainParams.main receiverKeys false payloadAddress craftedMessage =
    .ok (some [250, 0, 0, 0, 0, 5, 0, 0, 0]) := by
  rw [openPayload, if_neg (by decide), payloadAddress, keyIDOf_toString sample_lawful.hash_length]
  rfl

/-- `SecureMsgDecrypt` copies five bytes from the end of the decrypted payload, where there are none. -/
theorem reads_past_the_end : ¬Safe (secureMsgDecryptInto CChainParams.main refuses (fun _ => true) receiverKeys false
    payloadAddress craftedMessage []) := by
  rw [secureMsgDecryptInto, openPayload_crafted]
  exact not_safe_error

theorem safe_iff_of_crafted : Safe (secureMsgDecryptInto CChainParams.main refuses (fun _ => true) receiverKeys false
    payloadAddress craftedMessage []) ↔
      LengthsOk CChainParams.main (fun _ => true) [] [250, 0, 0, 0, 0, 5, 0, 0, 0] := by
  rw [secureMsgDecrypt_safe_iff lawfulLz4_refuses, openPayload_crafted]
  simp only [Except.ok.injEq, Option.some.injEq, forall_eq']

end SmsgSample

end PayDayCoin
