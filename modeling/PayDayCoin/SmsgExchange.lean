import PayDayCoin.SmsgBunch
import PayDayCoin.Serialize

/-!
# The exchange of buckets

Two nodes compare their buckets before they send messages: `smsgInv` lists the buckets of one, `smsgShow` asks for
what is in some of them, `smsgHave` lists the tokens of a bucket, and `smsgWant` asks for messages. The payloads
are read with a cursor, a record at a time; a read past the end of the payload has no result.
**`secureMsgReceiveData_isSome_iff`** says when all reads are within the payload: the records of `smsgShow` are
counted by the peer, and their length is computed modulo `2 ^ 32`.
-/

namespace PayDayCoin

/-- The payload of a message: a stream gives no vector that is longer than `MAX_SIZE`. -/
structure SmsgPayload where
  vchData : List UInt8
  size_le : vchData.length ≤ MAX_SIZE

/-- `memcpy` from a payload; `none` when it reads past the end. -/
def readBytes (vchData : List UInt8) (p len : ℕ) : Option (List UInt8) :=
  if p + len ≤ vchData.length then some ((vchData.drop p).take len) else none

/-- The bytes of an `int64_t`. -/
def int64Bytes (n : ℤ) : List UInt8 := leBytes 8 (BitVec.ofInt 64 n).toNat

/-- The commands of secure messaging. -/
inductive SmsgCommand
  | smsgInv | smsgShow | smsgHave | smsgWant | smsgMsg | smsgMatch | smsgPing | smsgPong | smsgDisabled | smsgIgnore
  | unknown
deriving DecidableEq

/-- `SecMsgNode`. -/
structure SecMsgNode where
  id : ℤ
  lastMatched : ℤ := 0
  ignoreUntil : ℤ := 0
  fEnabled : Bool := false

/-- The messages that are kept, and what is known of the peer. -/
structure SmsgNode where
  store : SmsgState
  smsgData : SecMsgNode

/-- What is sent to the peer: commands with their payloads. -/
abbrev SmsgReplies := List (SmsgCommand × List UInt8)

namespace SmsgState

/-- `Misbehaving`. -/
def misbehaving (st : SmsgState) (howmuch : ℕ) : SmsgState := { st with misbehavior := st.misbehavior + howmuch }

/-- `smsgBuckets[time]`. -/
def bucketAt (st : SmsgState) (time : ℤ) : SecMsgBucket := (st.smsgBuckets time).getD {}

/-- The buckets, with a new one at a time. -/
def setBucket (st : SmsgState) (time : ℤ) (b : SecMsgBucket) : SmsgState :=
  { st with smsgBuckets := Function.update st.smsgBuckets time (some b) }

end SmsgState

/-- `SecureMsgRetrieve`: the bytes of the message of a token, `none` when they cannot be read, or are too many for a
vector whose size is an `unsigned int`. -/
def secureMsgRetrieve (st : SmsgState) (token : SecMsgToken) : Option (List UInt8) :=
  let file := st.files (token.timestamp - token.timestamp.tmod SMSG_BUCKET_LEN)
  let m := messageAt file token.offset
  if m.header.length ≠ SMSG_HDR_LEN then none
  else if m.payload.length ≠ m.nPayload ∨ 2 ^ 32 ≤ SMSG_HDR_LEN + m.nPayload then none
  else some (m.header ++ m.payload)

/-! ### `smsgInv` -/

/-- What `smsgInv` has found: the buckets to ask for, and how many are locked. -/
structure InvScan where
  store : SmsgState
  vchDataOut : List UInt8 := []
  nShowBuckets : ℕ := 0
  nLocked : ℕ := 0

/-- A turn of the loop of `smsgInv`. -/
def InvScan.turn (now : ℤ) (time : List UInt8) (ncontent hash : ℕ) (s : InvScan) : InvScan :=
  let t := int64OfBytes time
  if t < now - SMSG_RETENTION then
    if t < now - SMSG_RETENTION - SMSG_TIME_LEEWAY then { s with store := s.store.misbehaving 1 } else s
  else if now + SMSG_TIME_LEEWAY < t then { s with store := s.store.misbehaving 1 }
  else if ncontent < 1 then s
  else
    let b := s.store.bucketAt t
    let s := { s with store := s.store.setBucket t b }
    if 0 < b.nLockCount then { s with nLocked := s.nLocked + 1 }
    else if b.setTokens.length < ncontent ∨ b.setTokens.length = ncontent ∧ b.hash.toNat ≠ hash then
      { s with vchDataOut := s.vchDataOut ++ time, nShowBuckets := s.nShowBuckets + 1 }
    else s

/-- The loop of `smsgInv`: `left` bucket headers are to come, the next at `p`. -/
def invLoop (now : ℤ) (vchData : List UInt8) : ℕ → ℕ → InvScan → Option InvScan
  | 0, _, s => some s
  | left + 1, p, s => do
    let time ← readBytes vchData p 8
    let ncontent ← readBytes vchData (p + 8) 4
    let hash ← readBytes vchData (p + 12) 4
    invLoop now vchData left (p + 16) (s.turn now time (ofBytes ncontent) (ofBytes hash))

/-- What `smsgInv` sends. -/
def InvScan.replies (now : ℤ) (s : InvScan) : SmsgReplies :=
  if s.vchDataOut ≠ [] then [(.smsgShow, leBytes 4 s.nShowBuckets ++ s.vchDataOut)]
  else if s.nLocked < 1 then [(.smsgMatch, int64Bytes now)]
  else []

/-- `smsgInv`. -/
def smsgInv (now : ℤ) (node : SmsgNode) (vchData : List UInt8) : Option (SmsgNode × SmsgReplies × Bool) :=
  if vchData.length < 4 then some ({ node with store := node.store.misbehaving 1 }, [], false)
  else if now < node.smsgData.ignoreUntil then some (node, [], false)
  else do
    let nInvBuckets := ofBytes (← readBytes vchData 0 4)
    if SMSG_RETENTION / SMSG_BUCKET_LEN + 1 < nInvBuckets then
      some ({ node with store := node.store.misbehaving 1 }, [], false)
    else if vchData.length < (4 + nInvBuckets * 16) % 2 ^ 32 then
      some ({ node with store := node.store.misbehaving 1 }, [], false)
    else
      let s ← invLoop now vchData nInvBuckets 4 { store := node.store }
      some ({ node with store := s.store }, s.replies now, true)

/-! ### `smsgShow` -/

/-- The loop of `smsgShow`: `left` times are to come, the next at `pIn`. -/
def showLoop (st : SmsgState) (vchData : List UInt8) : ℕ → ℕ → SmsgReplies → Option SmsgReplies
  | 0, _, replies => some replies
  | left + 1, pIn, replies => do
    let time ← readBytes vchData pIn 8
    match st.smsgBuckets (int64OfBytes time) with
    | none => showLoop st vchData left (pIn + 8) replies
    | some b =>
      let tokens := b.setTokens.flatMap fun t => int64Bytes t.timestamp ++ t.sample
      showLoop st vchData left (pIn + 8) (replies ++ [(.smsgHave, time ++ tokens)])

/-- `smsgShow`. -/
def smsgShow (node : SmsgNode) (vchData : List UInt8) : Option (SmsgNode × SmsgReplies × Bool) :=
  if vchData.length < 4 then some (node, [], false)
  else do
    let nBuckets := ofBytes (← readBytes vchData 0 4)
    if vchData.length < (4 + nBuckets * 8) % 2 ^ 32 then some (node, [], false)
    else
      let replies ← showLoop node.store vchData nBuckets 4 []
      some (node, replies, true)

/-! ### `smsgHave` -/

/-- The number of tokens in a payload, an `int`. -/
def nTokens (vchData : List UInt8) : ℤ := (BitVec.ofNat 32 ((vchData.length - 8) / 16)).toInt

/-- The loop of `smsgHave`: `left` tokens are to come, the next at `p`. -/
def haveLoop (b : SecMsgBucket) (vchData : List UInt8) : ℕ → ℕ → List UInt8 → Option (List UInt8)
  | 0, _, vchDataOut => some vchDataOut
  | left + 1, p, vchDataOut => do
    let timestamp ← readBytes vchData p 8
    let sample ← readBytes vchData (p + 8) 8
    if b.has ⟨int64OfBytes timestamp, sample, 0⟩ then haveLoop b vchData left (p + 16) vchDataOut
    else
      let token ← readBytes vchData p 16
      haveLoop b vchData left (p + 16) (vchDataOut ++ token)

/-- `smsgHave`. -/
def smsgHave (now : ℤ) (node : SmsgNode) (vchData : List UInt8) : Option (SmsgNode × SmsgReplies × Bool) :=
  if vchData.length < 8 then some (node, [], false)
  else do
    let bytes ← readBytes vchData 0 8
    let time := int64OfBytes bytes
    if time < now - SMSG_RETENTION then some (node, [], false)
    else if now + SMSG_TIME_LEEWAY < time then some ({ node with store := node.store.misbehaving 1 }, [], false)
    else
      let b := node.store.bucketAt time
      let node := { node with store := node.store.setBucket time b }
      if 0 < b.nLockCount then some (node, [], false)
      else
        let wanted ← haveLoop b vchData (nTokens vchData).toNat 8 []
        if wanted = [] then some (node, [], true)
        else
          let b := { b with nLockCount := 3, nLockPeerId := node.smsgData.id }
          some ({ node with store := node.store.setBucket time b }, [(.smsgWant, bytes ++ wanted)], true)

/-! ### `smsgWant` -/

/-- The messages that `smsgWant` has collected. -/
structure WantScan where
  nBunch : ℕ := 0
  vchBunch : List UInt8 := []

/-- A turn of the loop of `smsgWant`, for a token that is there. -/
def WantScan.turn (st : SmsgState) (token : SecMsgToken) (s : WantScan) : WantScan :=
  match secureMsgRetrieve st token with
  | some vchOne => ⟨s.nBunch + 1, s.vchBunch ++ vchOne⟩
  | none => s

/-- The loop of `smsgWant`: `left` tokens are to come, the next at `p`. -/
def wantLoop (st : SmsgState) (b : SecMsgBucket) (vchData : List UInt8) : ℕ → ℕ → WantScan → Option WantScan
  | 0, _, s => some s
  | left + 1, p, s => do
    let timestamp ← readBytes vchData p 8
    let sample ← readBytes vchData (p + 8) 8
    match b.setTokens.find? (SecMsgToken.same ⟨int64OfBytes timestamp, sample, 0⟩) with
    | none => wantLoop st b vchData left (p + 16) s
    | some token =>
      if 500 ≤ (s.turn st token).nBunch ∨ 96000 ≤ 12 + (s.turn st token).vchBunch.length then some (s.turn st token)
      else wantLoop st b vchData left (p + 16) (s.turn st token)

/-- `smsgWant`. -/
def smsgWant (node : SmsgNode) (vchData : List UInt8) : Option (SmsgNode × SmsgReplies × Bool) :=
  if vchData.length < 8 then some (node, [], false)
  else do
    let time ← readBytes vchData 0 8
    match node.store.smsgBuckets (int64OfBytes time) with
    | none => some (node, [], false)
    | some b =>
      let s ← wantLoop node.store b vchData (nTokens vchData).toNat 8 {}
      if 0 < s.nBunch then some (node, [(.smsgMsg, leBytes 4 s.nBunch ++ time ++ s.vchBunch)], true)
      else some (node, [], true)

/-! ### The other commands -/

/-- `smsgMatch`. -/
def smsgMatch (now : ℤ) (node : SmsgNode) (vchData : List UInt8) : Option (SmsgNode × SmsgReplies × Bool) :=
  if vchData.length < 8 then some ({ node with store := node.store.misbehaving 1 }, [], false)
  else do
    let time := int64OfBytes (← readBytes vchData 0 8)
    let lastMatched := if now + SMSG_TIME_LEEWAY < time then now else time
    some ({ node with smsgData := { node.smsgData with lastMatched := lastMatched } }, [], true)

/-- `smsgIgnore`. -/
def smsgIgnore (node : SmsgNode) (vchData : List UInt8) : Option (SmsgNode × SmsgReplies × Bool) :=
  if vchData.length < 8 then some ({ node with store := node.store.misbehaving 1 }, [], false)
  else do
    let time := int64OfBytes (← readBytes vchData 0 8)
    some ({ node with smsgData := { node.smsgData with ignoreUntil := time } }, [], true)

/-- `SecureMsgReceiveData`: the node, what it sends and the return value; `none` when it reads past the payload. -/
def secureMsgReceiveData [SmsgHash] (env : SmsgEnv) (node : SmsgNode) (strCommand : SmsgCommand)
    (payload : SmsgPayload) : Option (SmsgNode × SmsgReplies × Bool) :=
  match strCommand with
  | .smsgInv => smsgInv env.now node payload.vchData
  | .smsgShow => smsgShow node payload.vchData
  | .smsgHave => smsgHave env.now node payload.vchData
  | .smsgWant => smsgWant node payload.vchData
  | .smsgMsg =>
    (secureMsgReceive env node.store payload.vchData).map fun r => ({ node with store := r.1 }, [], true)
  | .smsgMatch => smsgMatch env.now node payload.vchData
  | .smsgPing => some (node, [(.smsgPong, [])], true)
  | .smsgPong => some ({ node with smsgData := { node.smsgData with fEnabled := true } }, [], true)
  | .smsgDisabled => some ({ node with smsgData := { node.smsgData with fEnabled := false } }, [], true)
  | .smsgIgnore => smsgIgnore node payload.vchData
  | .unknown => some (node, [], true)

/-! ### Reading -/

theorem readBytes_isSome_iff {vchData : List UInt8} {p len : ℕ} :
    (readBytes vchData p len).isSome = true ↔ p + len ≤ vchData.length := by
  unfold readBytes
  split <;> simp_all

theorem readBytes_of_le {vchData : List UInt8} {p len : ℕ} (h : p + len ≤ vchData.length) :
    readBytes vchData p len = some ((vchData.drop p).take len) := if_pos h

theorem invLoop_isSome {now : ℤ} {vchData : List UInt8} {left p : ℕ} (s : InvScan)
    (h : p + left * 16 ≤ vchData.length) : (invLoop now vchData left p s).isSome = true := by
  induction left generalizing p s with
  | zero => rfl
  | succ left ih =>
    rw [Nat.succ_mul] at h
    rw [invLoop, readBytes_of_le (by omega), readBytes_of_le (by omega), readBytes_of_le (by omega)]
    exact ih _ (by omega)

/-- The loop of `smsgShow` reads all the records it is told of. -/
theorem showLoop_isSome_iff {st : SmsgState} {vchData : List UInt8} {left p : ℕ} (replies : SmsgReplies)
    (hp : p ≤ vchData.length) : (showLoop st vchData left p replies).isSome = true ↔ p + left * 8 ≤ vchData.length := by
  induction left generalizing p replies with
  | zero =>
    rw [Nat.zero_mul, Nat.add_zero]
    exact iff_of_true rfl hp
  | succ left ih =>
    rw [Nat.succ_mul, showLoop]
    by_cases hread : p + 8 ≤ vchData.length
    · rw [readBytes_of_le hread, Option.bind_eq_bind, Option.bind_some]
      cases st.smsgBuckets (int64OfBytes ((vchData.drop p).take 8)) with
      | none =>
        rw [ih _ hread]
        omega
      | some b =>
        rw [ih _ hread]
        omega
    · have hnone : readBytes vchData p 8 = none := if_neg hread
      rw [hnone]
      simp only [Option.bind_eq_bind, Option.bind_none, Option.isSome_none, Bool.false_eq_true, false_iff]
      omega

theorem haveLoop_isSome {b : SecMsgBucket} {vchData : List UInt8} {left p : ℕ} (vchDataOut : List UInt8)
    (h : p + left * 16 ≤ vchData.length) : (haveLoop b vchData left p vchDataOut).isSome = true := by
  induction left generalizing p vchDataOut with
  | zero => rfl
  | succ left ih =>
    rw [Nat.succ_mul] at h
    rw [haveLoop, readBytes_of_le (by omega), readBytes_of_le (by omega), readBytes_of_le (by omega)]
    simp only [Option.bind_eq_bind, Option.bind_some]
    split
    · exact ih _ (by omega)
    · exact ih _ (by omega)

theorem wantLoop_isSome {st : SmsgState} {b : SecMsgBucket} {vchData : List UInt8} {left p : ℕ} (s : WantScan)
    (h : p + left * 16 ≤ vchData.length) : (wantLoop st b vchData left p s).isSome = true := by
  induction left generalizing p s with
  | zero => rfl
  | succ left ih =>
    rw [Nat.succ_mul] at h
    rw [wantLoop, readBytes_of_le (by omega), readBytes_of_le (by omega)]
    simp only [Option.bind_eq_bind, Option.bind_some]
    split
    · exact ih _ (by omega)
    · split
      · rfl
      · exact ih _ (by omega)

/-- The number of tokens fits the payload: it is their number, or negative. -/
theorem nTokens_le (vchData : List UInt8) : (nTokens vchData).toNat * 16 ≤ vchData.length - 8 := by
  have hle : nTokens vchData ≤ ((vchData.length - 8) / 16 : ℕ) := by
    unfold nTokens
    have hint := BitVec.toInt_eq_toNat_cond (x := BitVec.ofNat 32 ((vchData.length - 8) / 16))
    rw [BitVec.toNat_ofNat] at hint
    have hmod := Nat.mod_le ((vchData.length - 8) / 16) (2 ^ 32)
    split at hint <;> omega
  omega

/-- `4 + n * 8` as it is computed, for a count of 32 bits. -/
theorem showSize_eq (n : ℕ) : (4 + n * 8) % 2 ^ 32 = 4 + 8 * (n % 2 ^ 29) := by omega

/-! ### The commands -/

theorem smsgInv_isSome (now : ℤ) (node : SmsgNode) (vchData : List UInt8) :
    (smsgInv now node vchData).isSome = true := by
  unfold smsgInv
  split
  · rfl
  split
  · rfl
  next hlen _ =>
  rw [readBytes_of_le (by omega), Option.bind_eq_bind, Option.bind_some]
  simp only
  split
  · rfl
  next hmany =>
  split
  · rfl
  next hsize =>
  have hcount : SMSG_RETENTION / SMSG_BUCKET_LEN + 1 = 289 := by decide
  rw [hcount] at hmany
  have hloop : (invLoop now vchData (ofBytes ((vchData.drop 0).take 4)) 4 { store := node.store }).isSome = true :=
    invLoop_isSome _ (by omega)
  obtain ⟨s, hs⟩ := Option.isSome_iff_exists.1 hloop
  rw [hs]
  rfl

theorem smsgHave_isSome (now : ℤ) (node : SmsgNode) (vchData : List UInt8) :
    (smsgHave now node vchData).isSome = true := by
  unfold smsgHave
  split
  · rfl
  next hlen =>
  rw [readBytes_of_le (by omega), Option.bind_eq_bind, Option.bind_some]
  simp only
  split
  · rfl
  split
  · rfl
  split
  · rfl
  have hfits := nTokens_le vchData
  obtain ⟨wanted, hwanted⟩ := Option.isSome_iff_exists.1
    (haveLoop_isSome (b := node.store.bucketAt (int64OfBytes ((vchData.drop 0).take 8))) [] (by omega :
      8 + (nTokens vchData).toNat * 16 ≤ vchData.length))
  rw [hwanted, Option.bind_some]
  split <;> rfl

theorem smsgWant_isSome (node : SmsgNode) (vchData : List UInt8) : (smsgWant node vchData).isSome = true := by
  unfold smsgWant
  split
  · rfl
  next hlen =>
  rw [readBytes_of_le (by omega), Option.bind_eq_bind, Option.bind_some]
  split
  · rfl
  next b hb =>
  have hfits := nTokens_le vchData
  obtain ⟨s, hs⟩ := Option.isSome_iff_exists.1
    (show (wantLoop node.store b vchData (nTokens vchData).toNat 8 {}).isSome = true from wantLoop_isSome _ (by omega))
  rw [hs, Option.bind_eq_bind, Option.bind_some]
  split <;> rfl

/-- The count of a `smsgShow`. -/
def nShowBuckets (vchData : List UInt8) : ℕ := ofBytes (vchData.take 4)

/-- Whether the count of a `smsgShow` keeps its reads within the payload: its records are counted without wrapping,
or the payload is too short even for the length that is computed. -/
def countFits (vchData : List UInt8) : Bool :=
  vchData.length < 4 || nShowBuckets vchData < 2 ^ 29 || vchData.length < 4 + 8 * (nShowBuckets vchData % 2 ^ 29)

theorem smsgShow_of_le (node : SmsgNode) {vchData : List UInt8} (hlen : 4 ≤ vchData.length) :
    smsgShow node vchData = if vchData.length < 4 + 8 * (nShowBuckets vchData % 2 ^ 29) then some (node, [], false)
      else (showLoop node.store vchData (nShowBuckets vchData) 4 []).map fun replies => (node, replies, true) := by
  unfold smsgShow
  rw [if_neg (by omega), readBytes_of_le (by omega), List.drop_zero, Option.bind_eq_bind, Option.bind_some,
    ← showSize_eq, Option.map_eq_bind]
  rfl

/-- **When the reads of `smsgShow` are within the payload**. -/
theorem smsgShow_isSome_iff (node : SmsgNode) (payload : SmsgPayload) :
    (smsgShow node payload.vchData).isSome = true ↔ countFits payload.vchData = true := by
  obtain ⟨vchData, hsize⟩ := payload
  have hmax : MAX_SIZE < 2 ^ 29 := by decide
  simp only [countFits, Bool.or_eq_true, decide_eq_true_iff]
  by_cases hlen : vchData.length < 4
  · exact iff_of_true (by rw [smsgShow, if_pos hlen]; rfl) (Or.inl (Or.inl hlen))
  rw [smsgShow_of_le node (by omega)]
  by_cases hshort : vchData.length < 4 + 8 * (nShowBuckets vchData % 2 ^ 29)
  · exact iff_of_true (by rw [if_pos hshort]; rfl) (Or.inr hshort)
  rw [if_neg hshort, Option.isSome_map, showLoop_isSome_iff [] (by omega)]
  omega

/-- **When `SecureMsgReceiveData` stays within the payload**: always for `smsgInv`, `smsgHave` and `smsgWant`, and
for `smsgShow` exactly if its count fits. -/
theorem secureMsgReceiveData_isSome_iff [SmsgHash] (env : SmsgEnv) (node : SmsgNode) (payload : SmsgPayload)
    {strCommand : SmsgCommand} (hcommand : strCommand ∈ [.smsgInv, .smsgShow, .smsgHave, .smsgWant]) :
    (secureMsgReceiveData env node strCommand payload).isSome = true ↔
      (strCommand = .smsgShow → countFits payload.vchData = true) := by
  simp only [List.mem_cons, List.not_mem_nil, or_false] at hcommand
  rcases hcommand with rfl | rfl | rfl | rfl
  · exact iff_of_true (smsgInv_isSome _ _ _) nofun
  · exact (smsgShow_isSome_iff node payload).trans ⟨fun h _ => h, fun h => h rfl⟩
  · exact iff_of_true (smsgHave_isSome _ _ _) nofun
  · exact iff_of_true (smsgWant_isSome _ _) nofun

namespace Sample

/-- A `smsgShow` of four bytes that counts `2 ^ 29` buckets. -/
def wrappedShow : SmsgPayload := ⟨[0, 0, 0, 32], by decide⟩

/-- A node that has no messages. -/
def smsgNode : SmsgNode := ⟨noMessages, { id := 0 }⟩

/-- **The payload ends before the first record that is read**. -/
theorem wrappedShow_isNone : ¬(secureMsgReceiveData smsgEnv smsgNode .smsgShow wrappedShow).isSome = true := by
  have hcount : nShowBuckets wrappedShow.vchData = 536870911 + 1 := by decide
  have hloop : showLoop smsgNode.store wrappedShow.vchData (536870911 + 1) 4 [] = none := rfl
  change ¬(smsgShow smsgNode wrappedShow.vchData).isSome = true
  rw [smsgShow_of_le smsgNode (by decide), hcount, if_neg (by decide), hloop]
  decide

theorem emptyShow_isSome : (secureMsgReceiveData smsgEnv smsgNode .smsgShow ⟨[0, 0, 0, 0], by decide⟩).isSome = true :=
  (secureMsgReceiveData_isSome_iff smsgEnv smsgNode ⟨[0, 0, 0, 0], by decide⟩ (by decide)).2 fun _ => by decide

end Sample

end PayDayCoin
