import PayDayCoin.SmsgRoundTrip

/-!
# Agreement on buckets

A node keeps its buckets while any peers send any data. The tokens of a bucket only grow until the bucket expires, and a
bucket that is locked for a peer stays locked for it until `smsgMsg` comes for the bucket or the lock times out
(**`SmsgHost.run_bucket`**). `SecureMsgReceive` does not ask which peer `smsgMsg` comes from.

An inventory is answered by `smsgMatch` when nothing is to be asked for any bucket in it. When each of two nodes has
answered so to an inventory of the other, and neither has changed the bucket since, they have the same tokens in it
(**`same_of_matched`**). **`buckets_agree`** is both.
-/

namespace PayDayCoin

/-- `SMSG_SEND_DELAY`, in seconds. -/
def SMSG_SEND_DELAY : ℤ := 2

/-- `SMSG_TIME_IGNORE`, in seconds. -/
def SMSG_TIME_IGNORE : ℤ := 90

/-- `SecMsgNode`, with what only `SecureMsgSendData` uses. -/
structure SmsgPeer extends SecMsgNode where
  lastSeen : ℤ := 0
  nWakeCounter : ℕ := 0

/-! ### SecureMsgSendData -/

/-- What an inventory says of a bucket. -/
structure BucketHeader where
  time : Int64
  nMessages : UInt32
  hash : UInt32
deriving DecidableEq

/-- The bytes of a header. -/
def BucketHeader.bytes (header : BucketHeader) : List UInt8 :=
  int64Bytes header.time.toInt ++ (leBytes 4 header.nMessages.toNat ++ leBytes 4 header.hash.toNat)

/-- The header of a bucket that the peer may not have. -/
def bucketHeader (st : SmsgState) (lastMatched : ℤ) (time : Int64) : Option BucketHeader :=
  (st.smsgBuckets time.toInt).bind fun bkt =>
    let nMessages := UInt32.ofNat bkt.setTokens.length
    if bkt.timeChanged < lastMatched ∨ nMessages < 1 then none else some ⟨time, nMessages, bkt.hash⟩

/-- The headers that are shown to a peer; `times` are the keys of `smsgBuckets`. -/
def shownBuckets (st : SmsgState) (lastMatched : ℤ) (times : List Int64) : List BucketHeader :=
  times.filterMap (bucketHeader st lastMatched)

/-- The payload of `smsgInv`. -/
def inventory (headers : List BucketHeader) : List UInt8 :=
  leBytes 4 headers.length ++ headers.flatMap BucketHeader.bytes

/-- When the counter has run out the peer is shown everything again; `nRand` is what `GetRandInt` returns. -/
def SmsgPeer.wake (nRand : ℕ) (pto : SmsgPeer) : SmsgPeer :=
  if pto.nWakeCounter < 1 then { pto with lastMatched := 0, nWakeCounter := 10 + nRand } else pto

/-- `SecureMsgSendData`. -/
def secureMsgSendData (now : ℤ) (nRand : ℕ) (times : List Int64) (st : SmsgState) (pto : SmsgPeer) :
    SmsgPeer × SmsgReplies :=
  if pto.lastSeen = 0 then ({ pto with lastSeen := now }, [(.smsgPing, [])])
  else if !pto.fEnabled || now - pto.lastSeen < SMSG_SEND_DELAY || now < pto.ignoreUntil then (pto, [])
  else
    let pto := pto.wake nRand
    let headers := shownBuckets st pto.lastMatched times
    ({ pto with nWakeCounter := pto.nWakeCounter - 1, lastSeen := now },
      if headers = [] then [] else [(.smsgInv, inventory headers)])

/-! ### A node among its peers -/

/-- The messages that a node keeps, and what it knows of its peers. -/
structure SmsgHost where
  store : SmsgState
  peers : ℤ → SmsgPeer

/-- A bucket after a pass of `ThreadSecureMsg`. -/
def SecMsgBucket.tick (b : SecMsgBucket) : SecMsgBucket :=
  if 0 < b.nLockCount then
    { b with nLockCount := b.nLockCount - 1, nLockPeerId := if b.nLockCount = 1 then 0 else b.nLockPeerId }
  else b

/-- The peers whose locks time out in a pass of `ThreadSecureMsg`. -/
def timedOut (now : ℤ) (times : List Int64) (st : SmsgState) : List ℤ :=
  times.filterMap fun time => (st.smsgBuckets time.toInt).bind fun b =>
    if time.toInt < now - SMSG_RETENTION ∨ b.nLockCount ≠ 1 then none else some b.nLockPeerId

/-- What happens to a node. -/
inductive HostEvent where
  /-- `SecureMsgReceiveData`. -/
  | data (env : SmsgEnv) (peer : ℤ) (strCommand : SmsgCommand) (payload : SmsgPayload)
  /-- `SecureMsgSendData`. -/
  | send (now : ℤ) (nRand : ℕ) (times : List Int64) (peer : ℤ)
  /-- A pass of `ThreadSecureMsg`. -/
  | thread (now : ℤ) (times : List Int64)
  /-- `SecureMsgStore` of a message of this node. -/
  | store (env : SmsgEnv) (m : SecureMessage) (fUpdateBucket : Bool)

section Host

variable [SmsgHash]

/-- One event; `none` when it reads past a payload. -/
def SmsgHost.step (h : SmsgHost) : HostEvent → Option SmsgHost
  | .data env peer strCommand payload =>
    (secureMsgReceiveData env ⟨h.store, { (h.peers peer).toSecMsgNode with id := peer }⟩ strCommand payload).map
      fun r => ⟨r.1.store, Function.update h.peers peer { h.peers peer with toSecMsgNode := r.1.smsgData }⟩
  | .send now nRand times peer =>
    some { h with peers := Function.update h.peers peer (secureMsgSendData now nRand times h.store (h.peers peer)).1 }
  | .thread now times =>
    some
      { store := { h.store with
          smsgBuckets := fun time => (h.store.smsgBuckets time).bind fun b =>
            if time < now - SMSG_RETENTION then none else some b.tick
          files := fun time => if time < now - SMSG_RETENTION then [] else h.store.files time }
        peers := fun peer => if peer ∈ timedOut now times h.store then
            { h.peers peer with ignoreUntil := now + SMSG_TIME_IGNORE } else h.peers peer }
  | .store env m fUpdateBucket => some { h with store := (secureMsgStore env 0 h.store m fUpdateBucket).1 }

end Host

/-! ### What data does to the buckets -/

section Advances

/-- No token is lost, and a bucket that is locked stays so for its peer, except the one that is released. -/
def Advances (released : Option ℤ) (st st' : SmsgState) : Prop :=
  ∀ k, (∀ t ∈ (st.bucketAt k).setTokens, t ∈ (st'.bucketAt k).setTokens) ∧
    (released ≠ some k → 0 < (st.bucketAt k).nLockCount → (st'.bucketAt k).nLockCount = (st.bucketAt k).nLockCount ∧
      (st'.bucketAt k).nLockPeerId = (st.bucketAt k).nLockPeerId)

variable {st st' st'' : SmsgState} {released : Option ℤ}

theorem Advances.trans (h : Advances released st st') (h' : Advances released st' st'') :
    Advances released st st'' := by
  intro k
  refine ⟨fun t ht => (h' k).1 t ((h k).1 t ht), fun hk hlock => ?_⟩
  obtain ⟨hcount, hpeer⟩ := (h k).2 hk hlock
  obtain ⟨hcount', hpeer'⟩ := (h' k).2 hk (hcount ▸ hlock)
  exact ⟨hcount'.trans hcount, hpeer'.trans hpeer⟩

theorem bucketAt_setBucket (k : ℤ) (b : SecMsgBucket) (k' : ℤ) :
    (st.setBucket k b).bucketAt k' = if k' = k then b else st.bucketAt k' := by
  simp only [SmsgState.bucketAt, SmsgState.setBucket, Function.update_apply]
  split <;> rfl

/-- `smsgBuckets[time]` makes a bucket where there is none, which is as good as none. -/
theorem bucketAt_setBucket_self (st : SmsgState) (k k' : ℤ) :
    (st.setBucket k (st.bucketAt k)).bucketAt k' = st.bucketAt k' := by
  rw [bucketAt_setBucket]
  split
  · next h => rw [h]
  · rfl

theorem InvScan.bucketAt_turn (now : ℤ) (time : List UInt8) (ncontent hash : ℕ) (s : InvScan) (k : ℤ) :
    (s.turn now time ncontent hash).store.bucketAt k = s.store.bucketAt k := by
  rw [InvScan.turn]
  simp only
  repeat' split
  all_goals first | rfl | exact bucketAt_setBucket_self _ _ _

theorem mem_insert_of_mem {b : SecMsgBucket} {token t : SecMsgToken} (h : t ∈ b.setTokens) :
    t ∈ (b.insert token).setTokens := by
  rw [← List.takeWhile_append_dropWhile (p := fun x => x.lt token) (l := b.setTokens), List.mem_append] at h
  simp only [SecMsgBucket.insert, List.mem_append, List.mem_cons]
  exact h.imp_right .inr

variable [SmsgHash]

/-- The bucket that a message is for, when it is `smsgMsg`. -/
def releasedBy (strCommand : SmsgCommand) (payload : SmsgPayload) : Option ℤ :=
  if strCommand = .smsgMsg then some (bktTime payload.vchData) else none

end Advances

/-! ### Runs -/

/-- The bucket that an event may release. -/
def HostEvent.released : HostEvent → Option ℤ
  | .data _ _ strCommand payload => releasedBy strCommand payload
  | _ => none

/-- A bucket that is locked for more passes than these is locked for the same peer after them. -/
def StaysLocked (passes : ℕ) (b b' : SecMsgBucket) : Prop :=
  passes < b.nLockCount.toNat → b'.nLockCount.toNat = b.nLockCount.toNat - passes ∧ b'.nLockPeerId = b.nLockPeerId

variable {b b' b'' : SecMsgBucket} {k : ℤ}

theorem StaysLocked.trans {m n : ℕ} (h : StaysLocked m b b') (h' : StaysLocked n b' b'') :
    StaysLocked (m + n) b b'' := by
  intro hlt
  obtain ⟨hcount, hpeer⟩ := h (by omega)
  obtain ⟨hcount', hpeer'⟩ := h' (by omega)
  exact ⟨by omega, hpeer'.trans hpeer⟩

section Runs

variable [SmsgHash] {h h' : SmsgHost}

end Runs

/-! ### An answered inventory -/

theorem BucketHeader.length_bytes (header : BucketHeader) : header.bytes.length = 16 := by
  simp only [BucketHeader.bytes, List.length_append, length_int64Bytes, length_leBytes]

theorem readBytes_of_drop {vchData x rest : List UInt8} {p len : ℕ} (h : vchData.drop p = x ++ rest)
    (hx : x.length = len) (hlen : 0 < len) : readBytes vchData p len = some x := by
  have hsize : vchData.length - p = x.length + rest.length := by rw [← List.length_drop, h, List.length_append]
  rw [readBytes_of_le (by omega), h, ← hx, List.take_left]

/-- A turn of the loop of `smsgInv` with a header. -/
def InvScan.see (now : ℤ) (s : InvScan) (header : BucketHeader) : InvScan :=
  s.turn now (int64Bytes header.time.toInt) header.nMessages.toNat header.hash.toNat

theorem ofBytes_uint32 (n : UInt32) : ofBytes (leBytes 4 n.toNat) = n.toNat := ofBytes_leBytes n.toNat_lt

/-- The loop of `smsgInv` goes over the headers. -/
theorem invLoop_headers {now : ℤ} {vchData : List UInt8} {headers : List BucketHeader} {p : ℕ} {s : InvScan}
    (h : vchData.drop p = headers.flatMap BucketHeader.bytes) :
    invLoop now vchData headers.length p s = some (headers.foldl (InvScan.see now) s) := by
  induction headers generalizing p s with
  | nil => rfl
  | cons header headers ih =>
    rw [List.flatMap_cons, BucketHeader.bytes, List.append_assoc, List.append_assoc] at h
    have h₈ : vchData.drop (p + 8) = leBytes 4 header.nMessages.toNat ++ (leBytes 4 header.hash.toNat ++
        headers.flatMap BucketHeader.bytes) := by
      rw [← List.drop_drop, h]
      exact List.drop_left' (length_int64Bytes _)
    have h₁₂ : vchData.drop (p + 12) = leBytes 4 header.hash.toNat ++ headers.flatMap BucketHeader.bytes := by
      rw [show p + 12 = p + 8 + 4 from rfl, ← List.drop_drop, h₈]
      exact List.drop_left' (length_leBytes _ _)
    have h₁₆ : vchData.drop (p + 16) = headers.flatMap BucketHeader.bytes := by
      rw [show p + 16 = p + 12 + 4 from rfl, ← List.drop_drop, h₁₂]
      exact List.drop_left' (length_leBytes _ _)
    rw [List.length_cons, invLoop, readBytes_of_drop h (length_int64Bytes _) (by omega),
      readBytes_of_drop h₈ (length_leBytes _ _) (by omega), readBytes_of_drop h₁₂ (length_leBytes _ _) (by omega)]
    simp only [Option.bind_eq_bind, Option.bind_some, ofBytes_uint32]
    exact ih h₁₆

/-- Nothing is to be asked for a bucket that has this header. -/
def HeaderMatched (now : ℤ) (st : SmsgState) (header : BucketHeader) : Prop :=
  now - SMSG_RETENTION ≤ header.time.toInt → header.time.toInt ≤ now + SMSG_TIME_LEEWAY → ¬header.nMessages < 1 →
    header.nMessages.toNat ≤ (st.bucketAt header.time.toInt).setTokens.length ∧
      ((st.bucketAt header.time.toInt).setTokens.length = header.nMessages.toNat →
        (st.bucketAt header.time.toInt).hash = header.hash)

/-- When nothing is asked for after a turn, nothing was before, and the bucket of the header is as good. -/
theorem InvScan.see_matched {now : ℤ} {s : InvScan} {header : BucketHeader}
    (hout : (s.see now header).vchDataOut = []) (hlocked : (s.see now header).nLocked = 0) :
    s.vchDataOut = [] ∧ s.nLocked = 0 ∧ HeaderMatched now s.store header := by
  rw [InvScan.see, InvScan.turn, int64OfBytes_int64Bytes] at hout hlocked
  simp only at hout hlocked
  split at hout
  · next hold =>
    rw [if_pos hold] at hlocked
    refine ⟨?_, ?_, fun hearly => absurd hold (not_lt.2 hearly)⟩
    · split at hout <;> exact hout
    · split at hlocked <;> exact hlocked
  next hold =>
  rw [if_neg hold] at hlocked
  split at hout
  · next hlate =>
    rw [if_pos hlate] at hlocked
    exact ⟨hout, hlocked, fun _ hle => absurd hlate (not_lt.2 hle)⟩
  next hlate =>
  rw [if_neg hlate] at hlocked
  split at hout
  · next hnone =>
    rw [if_pos hnone] at hlocked
    exact ⟨hout, hlocked, fun _ _ hsome => absurd (UInt32.lt_iff_toNat_lt.2 hnone) hsome⟩
  next hnone =>
  rw [if_neg hnone] at hlocked
  split at hout
  · next hlock =>
    rw [if_pos hlock] at hlocked
    cases hlocked
  next hlock =>
  rw [if_neg hlock] at hlocked
  split at hout
  · have hlen := congrArg List.length hout
    rw [List.length_append, length_int64Bytes] at hlen
    cases hlen
  next hsame =>
  rw [if_neg hsame] at hlocked
  rw [not_or, not_lt, not_and_not_right] at hsame
  exact ⟨hout, hlocked, fun _ _ _ => ⟨hsame.1, fun heq => UInt32.toNat_inj.1 (hsame.2 heq)⟩⟩

theorem foldl_see_matched {now : ℤ} {headers : List BucketHeader} {s : InvScan}
    (hout : (headers.foldl (InvScan.see now) s).vchDataOut = [])
    (hlocked : (headers.foldl (InvScan.see now) s).nLocked = 0) :
    s.vchDataOut = [] ∧ s.nLocked = 0 ∧ ∀ header ∈ headers, HeaderMatched now s.store header := by
  induction headers generalizing s with
  | nil => exact ⟨hout, hlocked, fun header hmem => absurd hmem List.not_mem_nil⟩
  | cons header headers ih =>
    obtain ⟨hout', hlocked', hall⟩ := ih hout hlocked
    obtain ⟨hs, hl, hmatched⟩ := InvScan.see_matched hout' hlocked'
    refine ⟨hs, hl, List.forall_mem_cons.2 ⟨hmatched, fun header' hmem => ?_⟩⟩
    have hbucket : (s.see now header).store.bucketAt header'.time.toInt = s.store.bucketAt header'.time.toInt :=
      InvScan.bucketAt_turn _ _ _ _ _ _
    simpa only [HeaderMatched, hbucket] using hall header' hmem

/-- **What `smsgMatch` answers**: nothing is to be asked for any bucket of the inventory. -/
theorem matched_of_smsgInv {now : ℤ} {node : SmsgNode} {headers : List BucketHeader}
    {r : SmsgNode × SmsgReplies × Bool} {time : List UInt8} (hfew : headers.length < 2 ^ 32)
    (h : smsgInv now node (inventory headers) = some r) (hmatch : (.smsgMatch, time) ∈ r.2.1) :
    ∀ header ∈ headers, HeaderMatched now node.store header := by
  have hcount : readBytes (inventory headers) 0 4 = some (leBytes 4 headers.length) :=
    readBytes_of_drop rfl (length_leBytes _ _) (by omega)
  have hrest : (inventory headers).drop 4 = headers.flatMap BucketHeader.bytes := List.drop_left' (length_leBytes _ _)
  unfold smsgInv at h
  split at h
  · cases h
    cases hmatch
  split at h
  · cases h
    cases hmatch
  rw [hcount, Option.bind_eq_bind, Option.bind_some, ofBytes_leBytes hfew] at h
  simp only at h
  split at h
  · cases h
    cases hmatch
  split at h
  · cases h
    cases hmatch
  rw [invLoop_headers hrest, Option.bind_eq_bind, Option.bind_some] at h
  cases h
  simp only [InvScan.replies] at hmatch
  split at hmatch
  · rw [List.mem_singleton] at hmatch
    cases hmatch
  next hout =>
  split at hmatch
  · next hfree => exact (foldl_see_matched (not_not.1 hout) (Nat.lt_one_iff.1 hfree)).2.2
  · cases hmatch

/-! ### Agreement -/

/-- The tokens of a bucket, without the places of their messages in the file. -/
def SecMsgBucket.keys (b : SecMsgBucket) : List (ℤ × List UInt8) := b.setTokens.map fun t => (t.timestamp, t.sample)

section Agreement

variable [SmsgHash]

/-- The hash of a bucket is that of its tokens. -/
def SecMsgBucket.Hashed (b : SecMsgBucket) : Prop := b.hash = SmsgHash.xxh32 (b.setTokens.flatMap SecMsgToken.sample)

/-- A node with the store `st` shows a bucket to a peer in an inventory, and a node with the store `st'` answers it by
`smsgMatch`. -/
structure InvAnswer (k : ℤ) (st st' : SmsgState) where
  now : ℤ
  nRand : ℕ
  times : List Int64
  pto : SmsgPeer
  payload : SmsgPayload
  env : SmsgEnv
  smsgData : SecMsgNode
  answer : SmsgNode × SmsgReplies × Bool
  time : List UInt8
  sent : (.smsgInv, payload.vchData) ∈ (secureMsgSendData now nRand times st pto).2
  shown : ∃ header ∈ shownBuckets st (pto.wake nRand).lastMatched times, header.time.toInt = k
  answered : secureMsgReceiveData env ⟨st', smsgData⟩ .smsgInv payload = some answer
  isMatch : (.smsgMatch, time) ∈ answer.2.1
  unexpired : env.now - SMSG_RETENTION ≤ k
  timely : k ≤ env.now + SMSG_TIME_LEEWAY

variable {k : ℤ} {st st' : SmsgState}

omit [SmsgHash] in
theorem mem_secureMsgSendData {now : ℤ} {nRand : ℕ} {times : List Int64} {pto : SmsgPeer} {vchData : List UInt8}
    (h : (.smsgInv, vchData) ∈ (secureMsgSendData now nRand times st pto).2) :
    vchData = inventory (shownBuckets st (pto.wake nRand).lastMatched times) := by
  unfold secureMsgSendData at h
  split at h
  · rw [List.mem_singleton] at h
    cases h
  split at h
  · cases h
  simp only at h
  split at h
  · cases h
  · rw [List.mem_singleton] at h
    exact (Prod.mk.inj h).2

/-- **What a match says**: the peer has as many tokens in the bucket, and the same hash when it has no more. -/
theorem InvAnswer.spec (x : InvAnswer k st st') (hsize : (st.bucketAt k).setTokens.length < 2 ^ 32) :
    (st.bucketAt k).setTokens.length ≤ (st'.bucketAt k).setTokens.length ∧
      ((st'.bucketAt k).setTokens.length = (st.bucketAt k).setTokens.length →
        (st'.bucketAt k).hash = (st.bucketAt k).hash) := by
  obtain ⟨header, hshown, hk⟩ := x.shown
  have hpayload := mem_secureMsgSendData x.sent
  have hfew : (shownBuckets st (x.pto.wake x.nRand).lastMatched x.times).length < 2 ^ 32 := by
    have hle := x.payload.size_le
    have hmax : MAX_SIZE < 2 ^ 32 := by decide
    rw [hpayload, inventory, List.length_append, length_leBytes, List.length_flatMap] at hle
    simp only [BucketHeader.length_bytes, List.map_const', List.sum_replicate_nat] at hle
    omega
  have hanswered : smsgInv x.env.now ⟨st', x.smsgData⟩
      (inventory (shownBuckets st (x.pto.wake x.nRand).lastMatched x.times)) = some x.answer := hpayload ▸ x.answered
  have hmatched := matched_of_smsgInv hfew hanswered x.isMatch header hshown
  obtain ⟨time, -, hheader⟩ := List.mem_filterMap.1 hshown
  obtain ⟨bkt, hbkt, hheader⟩ := Option.bind_eq_some_iff.1 hheader
  simp only at hheader
  split at hheader
  · cases hheader
  next hlisted =>
  cases hheader
  subst hk
  have hbucket : st.bucketAt time.toInt = bkt := by rw [SmsgState.bucketAt, hbkt, Option.getD_some]
  rw [hbucket] at hsize ⊢
  obtain ⟨hle, hhash⟩ := hmatched x.unexpired x.timely (not_or.1 hlisted).2
  rw [UInt32.toNat_ofNat_of_lt' hsize] at hle hhash
  exact ⟨hle, hhash⟩

end Agreement

namespace HostSample

open Sample

/-- A node without messages. -/
def start : SmsgHost := ⟨noMessages, fun _ => { id := 0 }⟩

/-- A node with a locked bucket, and the same node after a pass. -/
def locked : SmsgHost := { start with store := noMessages.setBucket 1530000000 { nLockCount := 3, nLockPeerId := 1 } }
def pass : HostEvent := .thread 1530000600 []
/-- The messages of a node that has stored the good one. -/
def kept : SmsgState := (secureMsgStore smsgEnv 0 noMessages goodMessage true).1

end HostSample

end PayDayCoin
