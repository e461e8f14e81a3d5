import Mathlib.Data.List.AList
import Mathlib.Data.List.Sort
import PayDayCoin.SmsgRoundTrip
import PayDayCoin.SmsgStore
import PayDayCoin.Library.Runs

/-!
# The send queue of secure messages

`SecureMsgSend` puts a message into a queue in the database, and a thread takes it from there: it does the proof of
work, erases the message and then stores it. The key in the queue is made of the time in seconds and of the
address of the payload in memory, where a sample of the payload was meant; and nobody asks whether the database took
the message or whether the store did. **`pending_iff`** says when no message is lost: a message that is sent is
written under a key that is not in use, and a message that is erased can be stored. In
`SmsgSample.second_overwrites` two messages of one second have the same key.
-/

namespace PayDayCoin

open Library.Runs Library.Splice

/-! ### Sending -/

/-- `SecMsgStored`. -/
structure SecMsgStored where
  timeReceived : ℤ
  sAddrTo : String
  sAddrOutbox : String := ""
  /-- The header and the payload. -/
  vchMessage : List UInt8
deriving DecidableEq

/-- The database of messages. -/
abbrev SmsgDB := AList fun _ : List UInt8 => SecMsgStored

/-- `"qm"`: the keys of the send queue. -/
def queuePrefix : List UInt8 := [113, 109]

/-- `"sm"`: the keys of the messages sent. -/
def sentPrefix : List UInt8 := [115, 109]

/-- A key: its prefix, the time of a message and the address of its payload. -/
def smsgKey (sPrefix : List UInt8) (smsg : SecureMessage) (pPayload : UInt64) : List UInt8 :=
  sPrefix ++ field smsg.header 7 8 ++ leBytes 8 pPayload.toNat

/-- What one encryption reads, the object it writes, and the address of the payload that it makes. -/
structure Sealing (CKey : Type) where
  env : EncryptEnv CKey
  smsg : SecureMessage
  header_length : smsg.header.length = SMSG_HDR_LEN
  pPayload : UInt64

/-- What `SecureMsgSend` meets. -/
structure SendEnv (CKey : Type) where
  /-- `pwalletMain->IsLocked()`. -/
  isLocked : Bool
  keys : SmsgKeys CKey
  sealing : Sealing CKey
  /-- `GetTime()`. -/
  now : ℤ
  /-- The database opens, and takes the message. -/
  written : Bool
  /-- The first own address of the address book, and the encryption for it. -/
  outbox : Option (String × Sealing CKey)
  /-- The database takes the copy. -/
  copyWritten : Bool

section Queue

variable {CKey : Type} [SmsgCipher] [SmsgCurve CKey] (params : CChainParams)

/-- `SecureMsgEncrypt` with what it meets. -/
def Sealing.encrypt (s : Sealing CKey) (keys : SmsgKeys CKey) (addressFrom addressTo : String)
    (message : List UInt8) : Except (Option ℕ) SecureMessage :=
  secureMsgEncrypt params s.env keys s.smsg addressFrom addressTo message

/-- What `SecureMsgSend` puts into the queue, and under which key; or what it returns. -/
def SendEnv.queueItem (env : SendEnv CKey) (addressFrom addressTo : String) (message : List UInt8) :
    Except (Option ℕ) (List UInt8 × SecMsgStored) :=
  if env.isLocked then .error (some 1)
  else if SMSG_MAX_MSG_BYTES < message.length then .error (some 1)
  else
    match env.sealing.encrypt params env.keys addressFrom addressTo message with
    | .error rv => .error rv
    | .ok smsg => .ok (smsgKey queuePrefix smsg env.sealing.pPayload, {
        timeReceived := env.now
        sAddrTo := addressTo
        vchMessage := smsg.header ++ smsg.payload })

/-- The database with a copy of a message for the outbox. -/
def SendEnv.saveCopy (env : SendEnv CKey) (addressFrom addressTo : String) (message : List UInt8) (db : SmsgDB) :
    SmsgDB :=
  match env.outbox with
  | none => db
  | some (addressOutbox, sealing) =>
    match sealing.encrypt params env.keys addressFrom addressOutbox message with
    | .error _ => db
    | .ok smsgForOutbox =>
      if env.copyWritten then
        db.insert (smsgKey sentPrefix smsgForOutbox sealing.pPayload) {
          timeReceived := env.now
          sAddrTo := addressTo
          sAddrOutbox := addressOutbox
          vchMessage := smsgForOutbox.header ++ smsgForOutbox.payload }
      else db

/-- `SecureMsgSend`. -/
def secureMsgSend (env : SendEnv CKey) (addressFrom addressTo : String) (message : List UInt8) (db : SmsgDB) :
    SmsgDB × Except (Option ℕ) Unit :=
  match env.queueItem params addressFrom addressTo message with
  | .error rv => (db, .error rv)
  | .ok (chKey, smsgSQ) =>
    (env.saveCopy params addressFrom addressTo message (if env.written then db.insert chKey smsgSQ else db), .ok ())

/-! ### The proof of work thread -/

/-- Where `ThreadSecureMsgPow` is: before it opens the database; between two messages of its iterator; at a message,
which it has read from the database. -/
inductive PowThread where
  | asleep
  | scanning (rest : List (List UInt8 × SecMsgStored))
  | working (item : List UInt8 × SecMsgStored) (rest : List (List UInt8 × SecMsgStored))

/-- The database, the message store, and the thread. -/
structure SendState where
  db : SmsgDB
  store : SmsgState
  thread : PowThread

/-- What a turn of the thread meets. -/
structure PowEnv where
  fSecMsgEnabled : ℕ → Bool
  enabledAtEnd : Bool
  store : SmsgEnv

/-- What the iterator goes over: the messages of the queue as it is, the smallest key first. -/
def SmsgDB.queue (db : SmsgDB) : List (List UInt8 × SecMsgStored) :=
  ((db.entries.map fun e => (e.1, e.2)).filter fun item => item.1.take 2 = queuePrefix).insertionSort
    fun x y => ¬y.1 < x.1

/-- The message of a record. -/
def SecMsgStored.message (smsgStored : SecMsgStored) : SecureMessage := messageAt smsgStored.vchMessage 0

/-- The end of a turn of the thread: the proof of work is done, the message is erased and stored. -/
def SendState.finish (pow : PowEnv) (st : SendState) : SendState :=
  match st.thread with
  | .working item rest =>
    match secureMsgSetHash pow.fSecMsgEnabled pow.enabledAtEnd item.2.message with
    | .error 2 => { st with thread := .asleep }
    | .error _ => { st with db := st.db.erase item.1, thread := .scanning rest }
    | .ok smsg =>
      { db := st.db.erase item.1
        store := (secureMsgStore pow.store 0 st.store smsg true).1
        thread := .scanning rest }
  | _ => st

/-- `NextSmesg`. -/
def SendState.next (st : SendState) : SendState :=
  match st.thread with
  | .scanning [] => { st with thread := .asleep }
  | .scanning (item :: rest) => { st with thread := .working item rest }
  | _ => st

/-- The thread opens the database. -/
def SendState.openQueue (st : SendState) : SendState :=
  match st.thread with
  | .asleep => { st with thread := .scanning st.db.queue }
  | _ => st

/-- A call of `SecureMsgSend`, or a move of the thread. -/
inductive SendEvent (CKey : Type) where
  | send (env : SendEnv CKey) (addressFrom addressTo : String) (message : List UInt8)
  | openQueue
  | next
  | finish (pow : PowEnv)

/-- One event. -/
def SendState.step (st : SendState) : SendEvent CKey → SendState
  | .send env addressFrom addressTo message =>
    { st with db := (secureMsgSend params env addressFrom addressTo message st.db).1 }
  | .openQueue => st.openQueue
  | .next => st.next
  | .finish pow => st.finish pow

/-! ### What is pending -/

/-- The message at which the thread is has failed its proof of work, or is stored. -/
def SendState.settles (pow : PowEnv) (st : SendState) : Option (List UInt8 × SecMsgStored) :=
  match st.thread with
  | .working item _ =>
    match secureMsgSetHash pow.fSecMsgEnabled pow.enabledAtEnd item.2.message with
    | .error 2 => none
    | .error _ => some item
    | .ok smsg => if (secureMsgStore pow.store 0 st.store smsg true).2 then some item else none
  | _ => none

/-- The state with the messages that were reported as sent, and that have neither failed their proof of work nor been
stored. -/
structure Sending where
  st : SendState
  pending : List (List UInt8 × SecMsgStored) := []

/-- One event, with what is pending. -/
def Sending.step (s : Sending) (e : SendEvent CKey) : Sending where
  st := s.st.step params e
  pending :=
    match e with
    | .send env addressFrom addressTo message =>
      match env.queueItem params addressFrom addressTo message with
      | .error _ => s.pending
      | .ok item => s.pending ++ [item]
    | .finish pow =>
      match s.st.settles pow with
      | none => s.pending
      | some item => s.pending.erase item
    | _ => s.pending

/-- Each pending message is in the queue, under a key of its own. -/
def Sending.AllQueued (s : Sending) : Prop :=
  (s.pending.map Prod.fst).Nodup ∧ ∀ item ∈ s.pending, s.st.db.lookup item.1 = some item.2

/-- A message can be stored. -/
def Storable (env : SmsgEnv) (store : SmsgState) (smsg : SecureMessage) : Prop :=
  env.createDirectory 0 = true ∧ smsg.timely env.now = true ∧ store.has smsg = false ∧ env.writeFails 0 = none

/-- A message that is sent is written under a key that is not in use, and one whose proof of work is done can be
stored. -/
def Sending.Safe (s : Sending) : SendEvent CKey → Prop
  | .send env addressFrom addressTo message =>
    ∀ item, env.queueItem params addressFrom addressTo message = .ok item → env.written = true ∧ item.1 ∉ s.st.db
  | .finish pow => ∀ item rest, s.st.thread = .working item rest →
      (secureMsgSetHash pow.fSecMsgEnabled pow.enabledAtEnd item.2.message).isOk = true →
      Storable pow.store s.st.store item.2.message
  | _ => True

end Queue

/-! ### Keys and records -/

section Records

variable {sPrefix k : List UInt8} {smsg smsg' : SecureMessage} {pPayload : UInt64} {db : SmsgDB}

theorem take_smsgKey (hmarked : sPrefix.length = 2) : (smsgKey sPrefix smsg pPayload).take 2 = sPrefix := by
  rw [smsgKey, List.append_assoc, List.take_append_of_le_length (by omega), List.take_of_length_le (by omega)]

/-- What the iterator goes over are the records under the keys of the queue. -/
theorem mem_queue {item : List UInt8 × SecMsgStored} :
    item ∈ db.queue ↔ db.lookup item.1 = some item.2 ∧ item.1.take 2 = queuePrefix := by
  rw [SmsgDB.queue, List.mem_insertionSort, List.mem_filter, decide_eq_true_eq, List.mem_map]
  refine and_congr_left fun _ => ⟨?_, fun h => ⟨⟨item.1, item.2⟩, AList.mem_lookup_iff.1 h, rfl⟩⟩
  rintro ⟨e, he, rfl⟩
  exact AList.mem_lookup_iff.2 he

theorem nodup_queue (db : SmsgDB) : (db.queue.map Prod.fst).Nodup := by
  have hall : ((db.entries.map fun e => (e.1, e.2)).map Prod.fst).Nodup := by
    rw [List.map_map]
    exact db.nodupKeys
  have hperm := (List.perm_insertionSort (fun x y : List UInt8 × SecMsgStored => ¬y.1 < x.1)
    ((db.entries.map fun e => (e.1, e.2)).filter fun item => item.1.take 2 = queuePrefix)).map Prod.fst
  exact hperm.nodup_iff.2 ((List.filter_sublist.map _).nodup hall)

theorem le_length_splice {l items : List UInt8} {pos : ℕ} : l.length ≤ (splice l pos items).length := by
  simp only [splice, List.length_append, List.length_take, List.length_drop]
  omega

theorem message_header {smsgStored : SecMsgStored} (h : SMSG_HDR_LEN ≤ smsgStored.vchMessage.length) :
    smsgStored.message.header.length = SMSG_HDR_LEN := List.length_take_of_le h

end Records

section Encrypted

variable {CKey : Type} [SmsgCipher] [SmsgCurve CKey] {params : CChainParams} {smsg smsg' : SecureMessage}

omit [SmsgCipher] in
theorem le_length_write {pos : ℕ} {bytes : List UInt8} : smsg.header.length ≤ (smsg.write pos bytes).header.length :=
  le_length_splice

/-- Encrypting makes the header no shorter. -/
theorem le_length_encrypt {env : EncryptEnv CKey} {keys : SmsgKeys CKey} {addressFrom addressTo : String}
    {message : List UInt8} (h : secureMsgEncrypt params env keys smsg addressFrom addressTo message = .ok smsg') :
    smsg.header.length ≤ smsg'.header.length := by
  unfold secureMsgEncrypt at h
  simp only [bind, Except.bind, pure, Except.pure, throw, throwThe, MonadExceptOf.throw] at h
  split at h
  · cases h
  split at h
  · cases h
  split at h
  · cases h
  split at h
  swap
  · cases h
  split at h
  · cases h
  split at h
  · cases h
  split at h
  · cases h
  split at h
  · cases h
  split at h
  swap
  · cases h
  split at h
  swap
  · cases h
  obtain rfl := Except.ok.inj h
  exact le_length_write.trans (le_length_write.trans (le_length_write.trans (le_length_write.trans
    (le_length_write.trans le_length_write))))

/-- The proof of work changes neither the time nor the payload. -/
theorem setHash_keeps {fSecMsgEnabled : ℕ → Bool} {enabledAtEnd : Bool} (hm : smsg.header.length = SMSG_HDR_LEN)
    (h : secureMsgSetHash fSecMsgEnabled enabledAtEnd smsg = .ok smsg') :
    smsg'.timestamp = smsg.timestamp ∧ smsg'.payload = smsg.payload := by
  unfold secureMsgSetHash at h
  split at h
  · cases h
  split at h
  · cases h
  next m₁ sha hloop =>
  obtain ⟨halike, -, -⟩ := setHashLoop_spec hm hloop
  have hsha : (sha.take 4).length ≤ 4 := List.length_take_le 4 sha
  have hlen : m₁.header.length = 104 := halike.length.trans hm
  have hfits : 0 + (sha.take 4).length ≤ m₁.header.length := by omega
  cases h
  refine ⟨?_, halike.payload⟩
  rw [SecureMessage.timestamp_eq, SecureMessage.timestamp_eq, SecureMessage.field_write hfits (Or.inr (by omega)),
    halike.field 7 8 (by decide) (Or.inl (by decide))]

omit [SmsgCipher] in
theorem storable_congr {env : SmsgEnv} {store : SmsgState} (htime : smsg'.timestamp = smsg.timestamp)
    (hpayload : smsg'.payload = smsg.payload) : Storable env store smsg' ↔ Storable env store smsg := by
  unfold Storable SmsgState.has SecureMessage.timely SecureMessage.token SecureMessage.bucket
  rw [htime, hpayload]

end Encrypted

/-! ### What is kept -/

/-- The messages that the thread has read from the database. -/
def PowThread.items : PowThread → List (List UInt8 × SecMsgStored)
  | .asleep => []
  | .scanning rest => rest
  | .working item rest => item :: rest

/-- What holds as long as no message is lost. -/
structure Sending.Kept (s : Sending) : Prop where
  nodup : (s.pending.map Prod.fst).Nodup
  queued : ∀ item ∈ s.pending, s.st.db.lookup item.1 = some item.2
  owned : ∀ item, s.st.db.lookup item.1 = some item.2 → item.1.take 2 = queuePrefix → item ∈ s.pending
  prefixed : ∀ item ∈ s.pending, item.1.take 2 = queuePrefix
  long : ∀ item ∈ s.pending, SMSG_HDR_LEN ≤ item.2.vchMessage.length
  thread : (s.st.thread.items.map Prod.fst).Nodup
  read : ∀ item ∈ s.st.thread.items, item ∈ s.pending

theorem Sending.Kept.allQueued {s : Sending} (h : s.Kept) : s.AllQueued := ⟨h.nodup, h.queued⟩

/-- A pending message is the one under its key. -/
theorem Sending.Kept.eq_of_key {s : Sending} (h : s.Kept) {item item' : List UInt8 × SecMsgStored}
    (hitem : item ∈ s.pending) (hitem' : item' ∈ s.pending) (hkey : item.1 = item'.1) : item = item' :=
  List.inj_on_of_nodup_map h.nodup hitem hitem' hkey

section Steps

variable {CKey : Type} [SmsgCipher] [SmsgCurve CKey] {params : CChainParams} {s : Sending}

theorem lookup_saveCopy (env : SendEnv CKey) (addressFrom addressTo : String) (message : List UInt8) (db : SmsgDB)
    {k : List UInt8} (hk : k.take 2 = queuePrefix) :
    (env.saveCopy params addressFrom addressTo message db).lookup k = db.lookup k := by
  unfold SendEnv.saveCopy
  split
  · rfl
  · split
    · rfl
    · split
      · refine AList.lookup_insert_ne fun heq => ?_
        rw [heq, take_smsgKey rfl] at hk
        exact absurd hk (by decide)
      · rfl

theorem queueItem_spec {env : SendEnv CKey} {addressFrom addressTo : String} {message : List UInt8}
    {item : List UInt8 × SecMsgStored} (h : env.queueItem params addressFrom addressTo message = .ok item) :
    item.1.take 2 = queuePrefix ∧ SMSG_HDR_LEN ≤ item.2.vchMessage.length := by
  unfold SendEnv.queueItem at h
  split at h
  · cases h
  split at h
  · cases h
  split at h
  · cases h
  rename_i smsg hencrypt
  obtain rfl := Except.ok.inj h
  refine ⟨take_smsgKey rfl, ?_⟩
  have hlen := le_length_encrypt hencrypt
  rw [env.sealing.header_length] at hlen
  simp only [List.length_append]
  omega

/-- A message that is sent under a new key is pending, and queued. -/
theorem Sending.Kept.send (h : s.Kept) {env : SendEnv CKey} {addressFrom addressTo : String} {message : List UInt8}
    (hsafe : s.Safe params (.send env addressFrom addressTo message)) :
    (s.step params (.send env addressFrom addressTo message)).Kept := by
  simp only [Sending.step, SendState.step, secureMsgSend]
  cases hitem : env.queueItem params addressFrom addressTo message with
  | error rv => exact ⟨h.nodup, h.queued, h.owned, h.prefixed, h.long, h.thread, h.read⟩
  | ok item =>
    obtain ⟨hwritten, hnew⟩ := hsafe item hitem
    obtain ⟨hmarked, hlong⟩ := queueItem_spec hitem
    have hnone : s.st.db.lookup item.1 = none := AList.lookup_eq_none.2 hnew
    have hother : ∀ item' ∈ s.pending, item'.1 ≠ item.1 := fun item' hitem' heq => by
      have hqueued := h.queued item' hitem'
      rw [heq, hnone] at hqueued
      cases hqueued
    have hlookup : ∀ k : List UInt8, k.take 2 = queuePrefix →
        (env.saveCopy params addressFrom addressTo message
          (if env.written then s.st.db.insert item.1 item.2 else s.st.db)).lookup k =
          if k = item.1 then some item.2 else s.st.db.lookup k := by
      intro k hk
      rw [lookup_saveCopy env addressFrom addressTo message _ hk, if_pos hwritten]
      split
      · rename_i heq
        rw [heq, AList.lookup_insert]
      · rename_i hne
        exact AList.lookup_insert_ne hne
    refine ⟨?_, ?_, ?_, ?_, ?_, h.thread, fun item' hitem' => List.mem_append_left _ (h.read item' hitem')⟩
    · simp only [List.map_append, List.map_cons, List.map_nil]
      refine List.nodup_append.2 ⟨h.nodup, List.nodup_singleton _, ?_⟩
      intro k hk k' hk' heq
      obtain ⟨item', hitem', rfl⟩ := List.mem_map.1 hk
      exact hother item' hitem' (heq.trans (List.mem_singleton.1 hk'))
    · intro item' hitem'
      rcases List.mem_append.1 hitem' with hitem' | hitem'
      · rw [hlookup _ (h.prefixed item' hitem'), if_neg (hother item' hitem')]
        exact h.queued item' hitem'
      · obtain rfl := List.mem_singleton.1 hitem'
        rw [hlookup _ hmarked, if_pos rfl]
    · intro item' hqueued hmarked'
      rw [hlookup _ hmarked'] at hqueued
      split at hqueued
      · rename_i heq
        rw [Option.some.injEq] at hqueued
        exact List.mem_append_right _ (List.mem_singleton.2 (Prod.ext heq hqueued.symm))
      · exact List.mem_append_left _ (h.owned item' hqueued hmarked')
    · intro item' hitem'
      rcases List.mem_append.1 hitem' with hitem' | hitem'
      · exact h.prefixed item' hitem'
      · obtain rfl := List.mem_singleton.1 hitem'
        exact hmarked
    · intro item' hitem'
      rcases List.mem_append.1 hitem' with hitem' | hitem'
      · exact h.long item' hitem'
      · obtain rfl := List.mem_singleton.1 hitem'
        exact hlong

theorem Sending.Kept.openQueue (h : s.Kept) : (s.step params (.openQueue : SendEvent CKey)).Kept := by
  simp only [Sending.step, SendState.step, SendState.openQueue]
  split
  · refine ⟨h.nodup, h.queued, h.owned, h.prefixed, h.long, nodup_queue _, fun item hitem => ?_⟩
    obtain ⟨hlookup, hmarked⟩ := mem_queue.1 hitem
    exact h.owned item hlookup hmarked
  · exact ⟨h.nodup, h.queued, h.owned, h.prefixed, h.long, h.thread, h.read⟩

theorem Sending.Kept.next (h : s.Kept) : (s.step params (.next : SendEvent CKey)).Kept := by
  have hthread := h.thread
  have hread := h.read
  simp only [Sending.step, SendState.step, SendState.next]
  split
  · exact ⟨h.nodup, h.queued, h.owned, h.prefixed, h.long, List.nodup_nil, fun _ hitem => absurd hitem List.not_mem_nil⟩
  · rename_i item rest hscanning
    rw [hscanning] at hthread hread
    exact ⟨h.nodup, h.queued, h.owned, h.prefixed, h.long, hthread, hread⟩
  · exact ⟨h.nodup, h.queued, h.owned, h.prefixed, h.long, h.thread, h.read⟩

omit [SmsgCipher] in
/-- A message that has failed its proof of work, or is stored, is erased and no longer pending. -/
theorem Sending.Kept.erase (h : s.Kept) {item : List UInt8 × SecMsgStored} {rest : List (List UInt8 × SecMsgStored)}
    (hworking : s.st.thread = .working item rest) (store : SmsgState) :
    Kept ⟨⟨s.st.db.erase item.1, store, .scanning rest⟩, s.pending.erase item⟩ := by
  have hthread := h.thread
  have hread := h.read
  rw [hworking] at hthread hread
  have hmem : item ∈ s.pending := hread item List.mem_cons_self
  have hsub : ∀ item' ∈ s.pending.erase item, item' ∈ s.pending := fun _ hitem' => List.mem_of_mem_erase hitem'
  have hpending : s.pending.Nodup := h.nodup.of_map
  have hne : ∀ item' ∈ s.pending.erase item, item'.1 ≠ item.1 := fun item' hitem' heq =>
    (hpending.mem_erase_iff.1 hitem').1 (h.eq_of_key (hsub item' hitem') hmem heq)
  refine ⟨?_, ?_, ?_, fun item' hitem' => h.prefixed item' (hsub item' hitem'),
    fun item' hitem' => h.long item' (hsub item' hitem'), (List.nodup_cons.1 hthread).2, ?_⟩
  · exact (List.erase_sublist.map _).nodup h.nodup
  · intro item' hitem'
    rw [AList.lookup_erase_ne (hne item' hitem')]
    exact h.queued item' (hsub item' hitem')
  · intro item' hlookup hmarked
    have hkey : item'.1 ≠ item.1 := fun heq => by
      rw [heq, AList.lookup_erase] at hlookup
      cases hlookup
    rw [AList.lookup_erase_ne hkey] at hlookup
    exact hpending.mem_erase_iff.2 ⟨fun heq => hkey (congrArg Prod.fst heq), h.owned item' hlookup hmarked⟩
  · intro item' hitem'
    refine hpending.mem_erase_iff.2 ⟨fun heq => ?_, hread item' (List.mem_cons_of_mem _ hitem')⟩
    rw [heq] at hitem'
    exact (List.nodup_cons.1 hthread).1 (List.mem_map_of_mem hitem')

/-- When a message whose proof of work is done is stored. -/
theorem Sending.Kept.stored_iff (h : s.Kept) {item : List UInt8 × SecMsgStored}
    {rest : List (List UInt8 × SecMsgStored)} (hworking : s.st.thread = .working item rest) {pow : PowEnv}
    {smsg : SecureMessage}
    (hhash : secureMsgSetHash pow.fSecMsgEnabled pow.enabledAtEnd item.2.message = .ok smsg) :
    (secureMsgStore pow.store 0 s.st.store smsg true).2 = true ↔ Storable pow.store s.st.store item.2.message := by
  have hread := h.read
  rw [hworking] at hread
  have hlong := message_header (h.long item (hread item List.mem_cons_self))
  obtain ⟨htime, hpayload⟩ := setHash_keeps hlong hhash
  rw [← storable_congr htime hpayload]
  exact secureMsgStore_iff 0 true

theorem Sending.Kept.finish (h : s.Kept) {pow : PowEnv} (hsafe : s.Safe params (.finish pow : SendEvent CKey)) :
    (s.step params (.finish pow : SendEvent CKey)).Kept := by
  simp only [Sending.step, SendState.step, SendState.finish, SendState.settles]
  cases hworking : s.st.thread with
  | asleep => exact h
  | scanning rest => exact h
  | working item rest =>
    simp only
    cases hhash : secureMsgSetHash pow.fSecMsgEnabled pow.enabledAtEnd item.2.message with
    | error rv =>
      by_cases hstopped : rv = 2
      · subst hstopped
        exact ⟨h.nodup, h.queued, h.owned, h.prefixed, h.long, List.nodup_nil,
          fun _ hitem => absurd hitem List.not_mem_nil⟩
      · simp only
        exact h.erase hworking s.st.store
    | ok smsg =>
      have hstored : (secureMsgStore pow.store 0 s.st.store smsg true).2 = true :=
        (h.stored_iff hworking hhash).2 (hsafe item rest hworking (by rw [hhash]; rfl))
      simp only [hstored, if_true]
      exact h.erase hworking _

/-- Each safe event keeps the messages. -/
theorem Sending.Kept.step (h : s.Kept) (e : SendEvent CKey) (hsafe : s.Safe params e) : (s.step params e).Kept := by
  cases e with
  | send env addressFrom addressTo message => exact h.send hsafe
  | openQueue => exact h.openQueue
  | next => exact h.next
  | finish pow => exact h.finish hsafe

/-- An event that is not safe loses a message. -/
theorem Sending.Kept.lost (h : s.Kept) (e : SendEvent CKey) (hrisky : ¬s.Safe params e) :
    ¬(s.step params e).AllQueued := by
  rintro ⟨hnodup, hqueued⟩
  cases e with
  | send env addressFrom addressTo message =>
    refine hrisky fun item hitem => ?_
    have hmarked := (queueItem_spec hitem).1
    simp only [Sending.step, SendState.step, secureMsgSend, hitem, List.map_append, List.map_cons, List.map_nil]
      at hnodup hqueued
    -- the pending messages have every key of the queue, so the new key is not one
    have hnew : item.1 ∉ s.st.db := fun hmem => by
      obtain ⟨v, hv⟩ := Option.isSome_iff_exists.1 (AList.lookup_isSome.2 hmem)
      have hold : (item.1, v) ∈ s.pending := h.owned (item.1, v) hv hmarked
      have hkey : item.1 ∈ s.pending.map Prod.fst := List.mem_map.2 ⟨(item.1, v), hold, rfl⟩
      exact (List.nodup_append.1 hnodup).2.2 item.1 hkey item.1 (List.mem_singleton.2 rfl) rfl
    refine ⟨?_, hnew⟩
    by_contra hwritten
    have hlookup := hqueued item (List.mem_append_right _ (List.mem_singleton.2 rfl))
    rw [lookup_saveCopy env addressFrom addressTo message _ hmarked, if_neg hwritten,
      AList.lookup_eq_none.2 hnew] at hlookup
    cases hlookup
  | openQueue => exact hrisky trivial
  | next => exact hrisky trivial
  | finish pow =>
    refine hrisky fun item rest hworking hdone => ?_
    cases hhash : secureMsgSetHash pow.fSecMsgEnabled pow.enabledAtEnd item.2.message with
    | error rv =>
      rw [hhash] at hdone
      cases hdone
    | ok smsg =>
      rw [← h.stored_iff hworking hhash]
      by_contra hnot
      simp only [Sending.step, SendState.step, SendState.finish, SendState.settles, hworking, hhash, if_neg hnot] at hqueued
      have hread := h.read
      rw [hworking] at hread
      have hlookup := hqueued item (hread item List.mem_cons_self)
      rw [AList.lookup_erase] at hlookup
      cases hlookup

/-- Nothing is sent yet. -/
def Sending.start (store : SmsgState) : Sending := ⟨⟨∅, store, .asleep⟩, []⟩

omit [SmsgCipher] in
theorem Sending.kept_start (store : SmsgState) : (Sending.start store).Kept where
  nodup := List.nodup_nil
  queued _ hitem := absurd hitem List.not_mem_nil
  owned _ hlookup := absurd hlookup nofun
  prefixed _ hitem := absurd hitem List.not_mem_nil
  long _ hitem := absurd hitem List.not_mem_nil
  thread := List.nodup_nil
  read _ hitem := absurd hitem List.not_mem_nil

/-- **When no message is lost**: in every run of calls and moves of the thread, each message that was reported as sent
is in the queue under a key of its own until its proof of work fails or it is stored, exactly if each message is written
under a new key, and each message that is erased can be stored. -/
theorem Sending.pending_iff (params : CChainParams) (store : SmsgState) (events : List (SendEvent CKey)) :
    (∀ n, (run (Sending.step params) (Sending.start store) (events.take n)).AllQueued) ↔
      Along (Sending.step params) (Sending.Safe params) (Sending.start store) events :=
  forall_take_iff_along (fun _ h => h.allQueued) (fun _ e hsafe h => h.step e hsafe)
    (fun _ e hrisky h => h.lost e hrisky) (Sending.kept_start store)

end Steps

namespace SmsgSample

/-- The address of the receiver. -/
def receiverAddress : String := (CPayDaycoinAddress.ofKeyID CChainParams.main receiverID).toString SmsgCipher.hash

/-- A call of `SecureMsgSend`: the payload is at the address at which the last one was. -/
def sendEnv : SendEnv SampleKey where
  isLocked := false
  keys := senderKeys
  sealing :=
    { env := sampleEncryptEnv
      smsg := blankMessage
      header_length := rfl
      pPayload := 0x602000 }
  now := 1530000000
  written := true
  outbox := none
  copyWritten := true

/-- Two messages are sent in one second. -/
def twoSent : Sending :=
  run (Sending.step CChainParams.main) (Sending.start Sample.noMessages)
    [.send sendEnv "anon" receiverAddress [104, 105], .send sendEnv "anon" receiverAddress [104]]

/-- **The second message overwrites the first**: both are sent, and one is in the queue. -/
theorem second_overwrites : twoSent.pending.length = 2 ∧ twoSent.st.db.entries.length = 1 ∧ ¬twoSent.AllQueued := by
  refine ⟨by decide +kernel, by decide +kernel, fun h => ?_⟩
  exact absurd h.1 (by decide +kernel)

end SmsgSample

end PayDayCoin
