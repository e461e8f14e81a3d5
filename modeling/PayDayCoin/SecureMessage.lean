import PayDayCoin.BigNum
import Mathlib.Algebra.Group.Nat.Defs
import Mathlib.Data.List.Basic
import Mathlib.Logic.Function.Basic
import Mathlib.Data.Int.Init

/-!
# Receiving secure messages

A peer sends messages in a bunch: a head with their number and the time of a bucket, then the messages one after
the other, each a header and as many bytes of payload as the header says. `secureMsgReceive` goes through them
with a cursor, checks each (`secureMsgValidate`) and stores it (`secureMsgStore`) in the bucket of its time. A
function that reads past the end of the bunch has no result.
-/

namespace PayDayCoin

/-- `SMSG_HDR_LEN`. -/
def SMSG_HDR_LEN : ℕ := 104

/-- `SMSG_PL_HDR_LEN`. -/
def SMSG_PL_HDR_LEN : ℕ := 1 + 20 + 65 + 4

/-- `SMSG_BUCKET_LEN`, in seconds. -/
def SMSG_BUCKET_LEN : ℤ := 60 * 10

/-- `SMSG_RETENTION`, in seconds. -/
def SMSG_RETENTION : ℤ := 60 * 60 * 48

/-- `SMSG_TIME_LEEWAY`, in seconds. -/
def SMSG_TIME_LEEWAY : ℤ := 60

/-- `SMSG_MAX_MSG_BYTES`. -/
def SMSG_MAX_MSG_BYTES : ℕ := 4096

/-- `LZ4_COMPRESSBOUND`. -/
def LZ4_COMPRESSBOUND (isize : ℕ) : ℕ := if 0x7E000000 < isize then 0 else isize + isize / 255 + 16

/-- `SMSG_MAX_MSG_WORST`. -/
def SMSG_MAX_MSG_WORST : ℕ := LZ4_COMPRESSBOUND (SMSG_MAX_MSG_BYTES + SMSG_PL_HDR_LEN)

/-- The hash functions of secure messages. -/
class SmsgHash where
  /-- HMAC with SHA-256 of a message under a key; `none` when a call of the library fails. -/
  hmacSha256 : List UInt8 → List UInt8 → Option (List UInt8)
  /-- XXH32 with seed 1. -/
  xxh32 : List UInt8 → UInt32

/-- An `int64_t` from its bytes. -/
def int64OfBytes (bytes : List UInt8) : ℤ := (BitVec.ofNat 64 (ofBytes bytes)).toInt

/-! ### Messages -/

/-- `SecureMessage`: the bytes of the header, and the payload. -/
structure SecureMessage where
  header : List UInt8
  payload : List UInt8
deriving DecidableEq

namespace SecureMessage

/-- `hash`. -/
def hash (m : SecureMessage) : List UInt8 := m.header.take 4

/-- `version[0]`. -/
def version (m : SecureMessage) : UInt8 := m.header.getD 4 0

/-- `timestamp`. -/
def timestamp (m : SecureMessage) : ℤ := int64OfBytes ((m.header.drop 7).take 8)

/-- `nonse`. -/
def nonse (m : SecureMessage) : List UInt8 := (m.header.drop 96).take 4

/-- `nPayload`. -/
def nPayload (m : SecureMessage) : ℕ := ofBytes ((m.header.drop 100).take 4)

/-- The bucket of a message. -/
def bucket (m : SecureMessage) : ℤ := m.timestamp - m.timestamp.tmod SMSG_BUCKET_LEN

/-- Whether the time of the message is one that is kept. -/
def timely (now : ℤ) (m : SecureMessage) : Bool :=
  m.timestamp ≤ now + SMSG_TIME_LEEWAY && now - SMSG_RETENTION ≤ m.timestamp

/-- Whether `SecureMsgValidate` gets to the hash, and so reads the payload. -/
def readsPayload (m : SecureMessage) : Bool := m.version == 1 && m.nPayload ≤ SMSG_MAX_MSG_WORST

end SecureMessage

/-- `SecureMsgValidate`. -/
def secureMsgValidate [SmsgHash] (m : SecureMessage) : ℕ :=
  if m.version ≠ 1 then 4
  else if SMSG_MAX_MSG_WORST < m.nPayload then 5
  else
    match SmsgHash.hmacSha256 (List.replicate 8 m.nonse).flatten (m.header.drop 4 ++ m.payload ++ m.payload) with
    | none => 1
    | some sha256Hash =>
      if m.hash ≠ sha256Hash.take 4 then 3
      -- the three bits are joined by a logical or, so that only the lowest one counts
      else if sha256Hash.getD 31 0 = 0 ∧ sha256Hash.getD 30 0 = 0 ∧ ~~~(sha256Hash.getD 29 0) &&& 1 ≠ 0 then 0
      else 2

/-! ### Buckets -/

/-- `SecMsgToken`. -/
structure SecMsgToken where
  timestamp : ℤ
  /-- The first eight bytes of the payload. -/
  sample : List UInt8
  offset : ℕ
deriving DecidableEq

/-- The token of a message. -/
def SecureMessage.token (m : SecureMessage) : SecMsgToken where
  timestamp := m.timestamp
  sample := if m.payload.length < 8 then List.replicate 8 0 else m.payload.take 8
  offset := 0

namespace SecMsgToken

/-- `operator<`. -/
def lt (x y : SecMsgToken) : Bool :=
  if x.timestamp = y.timestamp then decide (x.sample < y.sample) else x.timestamp < y.timestamp

/-- The equivalence of the order. -/
def same (x y : SecMsgToken) : Bool := x.timestamp == y.timestamp && x.sample == y.sample

end SecMsgToken

/-- `SecMsgBucket`. -/
structure SecMsgBucket where
  timeChanged : ℤ := 0
  hash : UInt32 := 0
  nLockCount : UInt32 := 0
  nLockPeerId : ℤ := 0
  /-- The set of tokens, in its order. -/
  setTokens : List SecMsgToken := []
deriving DecidableEq

namespace SecMsgBucket

/-- Whether the bucket has a token. -/
def has (b : SecMsgBucket) (token : SecMsgToken) : Bool := b.setTokens.any token.same

/-- The bucket with one more token. -/
def insert (b : SecMsgBucket) (token : SecMsgToken) : SecMsgBucket :=
  { b with setTokens := (b.setTokens.takeWhile fun t => t.lt token) ++ token :: b.setTokens.dropWhile fun t => t.lt token }

/-- `SecMsgBucket::hashBucket`. -/
def hashBucket [SmsgHash] (now : ℤ) (b : SecMsgBucket) : SecMsgBucket :=
  { b with timeChanged := now, hash := SmsgHash.xxh32 (b.setTokens.flatMap SecMsgToken.sample) }

end SecMsgBucket

/-- The state of the message store. -/
structure SmsgState where
  smsgBuckets : ℤ → Option SecMsgBucket
  /-- The contents of the file of a bucket. -/
  files : ℤ → List UInt8
  /-- What `Misbehaving` has added to the score of the peer. -/
  misbehavior : ℕ := 0

/-- What a call of `SecureMsgReceive` reads besides the bunch and the state. -/
structure SmsgEnv where
  /-- `GetTime()`. -/
  now : ℤ
  /-- Whether the directory is there, or can be made, at a turn of the loop. -/
  createDirectory : ℕ → Bool
  /-- How many bytes have been written when a turn fails to write its message; `none` when it does not fail. -/
  writeFails : ℕ → Option ℕ

namespace SmsgState

/-- Whether the bucket of a message has its token. -/
def has (st : SmsgState) (m : SecureMessage) : Bool := (st.smsgBuckets m.bucket).any fun b => b.has m.token

end SmsgState

section Receive

variable [SmsgHash] (env : SmsgEnv)

/-- `SecureMsgStore`, at a turn of the loop. -/
def secureMsgStore (i : ℕ) (st : SmsgState) (m : SecureMessage) (fUpdateBucket : Bool) : SmsgState × Bool :=
  if !env.createDirectory i then (st, false)
  else if !m.timely env.now then (st, false)
  else
    let b := (st.smsgBuckets m.bucket).getD {}
    if b.has m.token then ({ st with smsgBuckets := Function.update st.smsgBuckets m.bucket (some b) }, false)
    else
      let file := st.files m.bucket
      match env.writeFails i with
      | some n =>
        ({ st with
            smsgBuckets := Function.update st.smsgBuckets m.bucket (some b)
            files := Function.update st.files m.bucket (file ++ (m.header ++ m.payload).take n) }, false)
      | none =>
        let b := b.insert { m.token with offset := file.length }
        ({ st with
            smsgBuckets := Function.update st.smsgBuckets m.bucket (some (if fUpdateBucket then b.hashBucket env.now else b))
            files := Function.update st.files m.bucket (file ++ (m.header ++ m.payload)) }, true)

/-- The message at a position of the bunch. -/
def messageAt (vchData : List UInt8) (n : ℕ) : SecureMessage :=
  let header := (vchData.drop n).take SMSG_HDR_LEN
  ⟨header, (vchData.drop (n + SMSG_HDR_LEN)).take (ofBytes ((header.drop 100).take 4))⟩

/-- The loop of `SecureMsgReceive`: `i` turns are done, `left` are to come, and the cursor is at `n`. -/
def receiveLoop (vchData : List UInt8) : ℕ → ℕ → ℕ → SmsgState → Option SmsgState
  | 0, _, _, st => some st
  | left + 1, i, n, st =>
    if vchData.length < n then none
    else if vchData.length - n < SMSG_HDR_LEN then some st
    else
      let m := messageAt vchData n
      if m.readsPayload && vchData.length < n + SMSG_HDR_LEN + m.nPayload then none
      else if secureMsgValidate m ≠ 0 then
        receiveLoop vchData left (i + 1) n { st with misbehavior := st.misbehavior + 1 }
      else
        match secureMsgStore env i st m false with
        | (st, false) => some st
        | (st, true) => receiveLoop vchData left (i + 1) ((n + SMSG_HDR_LEN + m.nPayload) % 2 ^ 32) st

/-- `nBunch`. -/
def nBunch (vchData : List UInt8) : ℕ := ofBytes (vchData.take 4)

/-- `bktTime`. -/
def bktTime (vchData : List UInt8) : ℤ := int64OfBytes ((vchData.drop 4).take 8)

/-- The end of `SecureMsgReceive`: the bucket is released and hashed. -/
def releaseBucket (bktTime : ℤ) (st : SmsgState) : SmsgState × ℕ :=
  match st.smsgBuckets bktTime with
  | none => (st, 1)
  | some b =>
    let b := ({ b with nLockCount := 0, nLockPeerId := 0 } : SecMsgBucket).hashBucket env.now
    ({ st with smsgBuckets := Function.update st.smsgBuckets bktTime (some b) }, 0)

/-- `SecureMsgReceive`: the state and the return value; `none` when it reads past the bunch. -/
def secureMsgReceive (st : SmsgState) (vchData : List UInt8) : Option (SmsgState × ℕ) :=
  if vchData.length < 12 then some (st, 1)
  else if env.now + SMSG_TIME_LEEWAY < bktTime vchData then some (st, 1)
  else if bktTime vchData < env.now - SMSG_RETENTION then some (st, 1)
  else if nBunch vchData = 0 ∨ 500 < nBunch vchData then
    let unlocked := (st.smsgBuckets (bktTime vchData)).map fun b => { b with nLockCount := 0 }
    some ({ st with
      smsgBuckets := Function.update st.smsgBuckets (bktTime vchData) unlocked
      misbehavior := st.misbehavior + 1 }, 1)
  else
    (receiveLoop env vchData (nBunch vchData) 0 12 st).map (releaseBucket env (bktTime vchData))

end Receive

end PayDayCoin
