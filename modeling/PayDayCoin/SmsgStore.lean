import PayDayCoin.SmsgExchange

/-!
# The files of the buckets

`SecureMsgStore` appends each message to the file of its bucket and keeps a token with the place of the message.
After a restart `SecureMsgBuildBucketSet` makes the tokens again from the files. It goes over a header whose payload
is shorter than a sample without going over the payload, and without a token. **`restores_iff`** says when a restart
gives the tokens that were kept: every message that is stored in a bucket that has not expired has a payload of
eight bytes or more.
-/

namespace PayDayCoin

/-! ### The rebuild -/

/-- The set with a token, which is left out if there is one like it. -/
def SecMsgBucket.insertNew (b : SecMsgBucket) (token : SecMsgToken) : SecMsgBucket :=
  if b.has token then b else b.insert token

/-- The loop of `SecureMsgBuildBucketSet` over a file, from a position on. -/
def readTokens (file : List UInt8) : ℕ → ℕ → SecMsgBucket → SecMsgBucket
  | 0, _, b => b
  | fuel + 1, ofs, b =>
    let smsg : SecureMessage := ⟨(file.drop ofs).take SMSG_HDR_LEN, []⟩
    let sample := (file.drop (ofs + SMSG_HDR_LEN)).take 8
    if smsg.header.length ≠ SMSG_HDR_LEN then b
    else if smsg.nPayload < 8 then readTokens file fuel (ofs + SMSG_HDR_LEN) b
    else if sample.length ≠ 8 then b
    else readTokens file fuel (ofs + SMSG_HDR_LEN + smsg.nPayload) (b.insertNew ⟨smsg.timestamp, sample, ofs⟩)

/-- `SecureMsgBuildBucketSet` after a restart: the buckets of the files that have not expired. The others are
removed. -/
def secureMsgBuildBucketSet [SmsgHash] (now : ℤ) (files : ℤ → List UInt8) : SmsgState where
  smsgBuckets fileTime :=
    if files fileTime = [] ∨ fileTime < now - SMSG_RETENTION then none
    else some ((readTokens (files fileTime) (files fileTime).length 0 {}).hashBucket now)
  files fileTime := if fileTime < now - SMSG_RETENTION then [] else files fileTime

/-- A message as `SecureMsgStore` takes it: the payload is as long as the header says. -/
structure StoredMessage extends SecureMessage where
  header_length : header.length = SMSG_HDR_LEN
  payload_length : payload.length = toSecureMessage.nPayload
  size_lt : SMSG_HDR_LEN + toSecureMessage.nPayload < 2 ^ 32

/-- The bytes of a message. -/
def StoredMessage.bytes (m : StoredMessage) : List UInt8 := m.header ++ m.payload

/-- A call of `SecureMsgStore`, at a turn of a loop. -/
structure StoreCall where
  env : SmsgEnv
  turn : ℕ
  smsg : StoredMessage
  fUpdateBucket : Bool

section Store

variable [SmsgHash]

/-- One call of `SecureMsgStore`. -/
def StoreCall.run (c : StoreCall) (st : SmsgState) : SmsgState × Bool :=
  secureMsgStore c.env c.turn st c.smsg.toSecureMessage c.fUpdateBucket

/-- The state after successful calls, from an empty store. -/
inductive Stores : List StoreCall → SmsgState → Prop
  | start : Stores [] ⟨fun _ => none, fun _ => [], 0⟩
  | store {calls : List StoreCall} {st st' : SmsgState} {c : StoreCall} :
      Stores calls st → c.run st = (st', true) → Stores (calls ++ [c]) st'

/-- A restart gives the tokens of the buckets that have not expired, and each token the message that was stored. -/
structure Restores (now : ℤ) (calls : List StoreCall) (st : SmsgState) : Prop where
  tokens : ∀ t, now - SMSG_RETENTION ≤ t →
    ((secureMsgBuildBucketSet now st.files).bucketAt t).setTokens = (st.bucketAt t).setTokens
  stored : ∀ c ∈ calls, ∃ token ∈ (st.bucketAt c.smsg.bucket).setTokens,
    token.same c.smsg.token = true ∧ secureMsgRetrieve st token = some c.smsg.bytes
  retrieved : ∀ t, ∀ token ∈ (st.bucketAt t).setTokens, ∃ c ∈ calls, c.smsg.bucket = t ∧
    token.same c.smsg.token = true ∧ secureMsgRetrieve st token = some c.smsg.bytes
  rebuilt : ∀ t, ∀ token ∈ ((secureMsgBuildBucketSet now st.files).bucketAt t).setTokens, ∃ c ∈ calls,
    c.smsg.bucket = t ∧ token.same c.smsg.token = true ∧
      secureMsgRetrieve (secureMsgBuildBucketSet now st.files) token = some c.smsg.bytes

end Store

/-! ### The contents of a file -/

/-- The token of a message at a place. -/
def StoredMessage.tokenAt (m : StoredMessage) (ofs : ℕ) : SecMsgToken := { m.token with offset := ofs }

/-- The bytes of messages one after the other. -/
def fileOf (ms : List StoredMessage) : List UInt8 := ms.flatMap StoredMessage.bytes

/-- The tokens of messages that stand one after the other from a position on. -/
def tokensFrom : ℕ → SecMsgBucket → List StoredMessage → SecMsgBucket
  | _, b, [] => b
  | ofs, b, m :: ms => tokensFrom (ofs + m.bytes.length) (b.insert (m.tokenAt ofs)) ms

theorem StoredMessage.bytes_length (m : StoredMessage) : m.bytes.length = SMSG_HDR_LEN + m.nPayload := by
  rw [StoredMessage.bytes, List.length_append, m.header_length, m.payload_length]

theorem length_fileOf_cons (m : StoredMessage) (ms : List StoredMessage) :
    (fileOf (m :: ms)).length = m.bytes.length + (fileOf ms).length := by
  rw [fileOf, List.flatMap_cons, List.length_append]
  rfl

theorem fileOf_append (ms ms' : List StoredMessage) : fileOf (ms ++ ms') = fileOf ms ++ fileOf ms' :=
  List.flatMap_append

theorem tokensFrom_append (ofs : ℕ) (b : SecMsgBucket) (ms : List StoredMessage) (m : StoredMessage) :
    tokensFrom ofs b (ms ++ [m]) =
      (tokensFrom ofs b ms).insert (m.tokenAt (ofs + (fileOf ms).length)) := by
  induction ms generalizing ofs b with
  | nil => rfl
  | cons m' ms ih =>
    rw [List.cons_append, tokensFrom, ih, tokensFrom, length_fileOf_cons, Nat.add_assoc]

theorem mem_insert {b : SecMsgBucket} {token t : SecMsgToken} :
    t ∈ (b.insert token).setTokens ↔ t = token ∨ t ∈ b.setTokens := by
  have hsplit : t ∈ b.setTokens ↔ t ∈ (b.setTokens.takeWhile fun x => x.lt token) ∨
      t ∈ b.setTokens.dropWhile fun x => x.lt token := by
    rw [← List.mem_append, List.takeWhile_append_dropWhile]
  rw [SecMsgBucket.insert, List.mem_append, List.mem_cons, hsplit]
  tauto

/-- The tokens of messages: those before, and one for each message with its place. -/
theorem mem_tokensFrom {ofs : ℕ} {b : SecMsgBucket} {ms : List StoredMessage} {t : SecMsgToken} :
    t ∈ (tokensFrom ofs b ms).setTokens ↔ t ∈ b.setTokens ∨ ∃ pre m post, ms = pre ++ m :: post ∧
      t = m.tokenAt (ofs + (fileOf pre).length) := by
  induction ms generalizing ofs b with
  | nil => simp [tokensFrom]
  | cons m ms ih =>
    rw [tokensFrom, ih, mem_insert]
    constructor
    · rintro ((rfl | hb) | ⟨pre, m', post, rfl, rfl⟩)
      · exact Or.inr ⟨[], m, ms, rfl, rfl⟩
      · exact Or.inl hb
      · refine Or.inr ⟨m :: pre, m', post, rfl, ?_⟩
        rw [length_fileOf_cons, Nat.add_assoc]
    · rintro (hb | ⟨pre, m', post, hms, rfl⟩)
      · exact Or.inl (Or.inr hb)
      · cases pre with
        | nil =>
          obtain ⟨rfl, rfl⟩ := List.cons.inj hms
          exact Or.inl (Or.inl rfl)
        | cons m'' pre =>
          obtain ⟨rfl, rfl⟩ := List.cons.inj hms
          refine Or.inr ⟨pre, m', post, rfl, ?_⟩
          rw [length_fileOf_cons, Nat.add_assoc]

theorem has_tokensFrom (ofs : ℕ) (b : SecMsgBucket) (ms : List StoredMessage) (t : SecMsgToken) :
    (tokensFrom ofs b ms).has t = (b.has t || ms.any fun m => t.same m.token) := by
  induction ms generalizing ofs b with
  | nil => simp [tokensFrom]
  | cons m ms ih =>
    rw [tokensFrom, ih, has_insert, List.any_cons, Bool.or_assoc]
    rfl

/-! ### Reading a file -/

theorem length_fileOf (ms : List StoredMessage) : ms.length * SMSG_HDR_LEN ≤ (fileOf ms).length := by
  induction ms with
  | nil => exact Nat.zero_le _
  | cons m ms ih =>
    rw [length_fileOf_cons, m.bytes_length, List.length_cons, Nat.succ_mul]
    omega

theorem eq_nil_of_fileOf {ms : List StoredMessage} (h : fileOf ms = []) : ms = [] := by
  have hlen := length_fileOf ms
  rw [h, List.length_nil, SMSG_HDR_LEN] at hlen
  exact List.eq_nil_of_length_eq_zero (by omega)

/-- One turn of the rebuild. -/
theorem readTokens_succ (file : List UInt8) (fuel ofs : ℕ) (b : SecMsgBucket) :
    readTokens file (fuel + 1) ofs b =
      let smsg : SecureMessage := ⟨(file.drop ofs).take SMSG_HDR_LEN, []⟩
      let sample := (file.drop (ofs + SMSG_HDR_LEN)).take 8
      if smsg.header.length ≠ SMSG_HDR_LEN then b
      else if smsg.nPayload < 8 then readTokens file fuel (ofs + SMSG_HDR_LEN) b
      else if sample.length ≠ 8 then b
      else readTokens file fuel (ofs + SMSG_HDR_LEN + smsg.nPayload)
        (b.insertNew ⟨smsg.timestamp, sample, ofs⟩) := rfl

section Reading

variable {front rest : List UInt8} {m : StoredMessage} {b : SecMsgBucket}

/-- A message is found at its place. -/
theorem messageAt_bytes : messageAt (front ++ (m.bytes ++ rest)) front.length = m.toSecureMessage := by
  have hheader : ((front ++ (m.bytes ++ rest)).drop front.length).take SMSG_HDR_LEN = m.header := by
    rw [List.drop_left, StoredMessage.bytes, List.append_assoc, ← m.header_length, List.take_left]
  have hpayload : (front ++ (m.bytes ++ rest)).drop (front.length + SMSG_HDR_LEN) = m.payload ++ rest := by
    rw [← List.drop_drop, List.drop_left, StoredMessage.bytes, List.append_assoc, ← m.header_length, List.drop_left]
  unfold messageAt
  rw [hheader, hpayload]
  change SecureMessage.mk m.header ((m.payload ++ rest).take m.nPayload) = m.toSecureMessage
  rw [← m.payload_length, List.take_left]

theorem header_bytes : ((front ++ (m.bytes ++ rest)).drop front.length).take SMSG_HDR_LEN = m.header :=
  congrArg SecureMessage.header messageAt_bytes

/-- The rebuild goes over a message whose payload is long enough, and makes its token. -/
theorem readTokens_long (h : 8 ≤ m.nPayload) (fuel : ℕ) :
    readTokens (front ++ (m.bytes ++ rest)) (fuel + 1) front.length b =
      readTokens (front ++ (m.bytes ++ rest)) fuel (front.length + m.bytes.length)
        (b.insertNew (m.tokenAt front.length)) := by
  have hsample : ((front ++ (m.bytes ++ rest)).drop (front.length + SMSG_HDR_LEN)).take 8 = m.payload.take 8 := by
    rw [← List.drop_drop, List.drop_left, StoredMessage.bytes, List.append_assoc, ← m.header_length, List.drop_left,
      List.take_append_of_le_length (by rw [m.payload_length]; exact h)]
  have hlen := m.payload_length
  have htoken : m.tokenAt front.length = ⟨m.timestamp, m.payload.take 8, front.length⟩ := by
    unfold StoredMessage.tokenAt SecureMessage.token
    rw [if_neg (by omega)]
  rw [readTokens_succ]
  simp only [header_bytes, hsample, m.header_length, ne_eq, not_true_eq_false, ↓reduceIte]
  change (if m.nPayload < 8 then _ else _) = _
  rw [if_neg (by omega), if_neg (by rw [not_not, List.length_take]; omega), m.bytes_length, htoken, Nat.add_assoc]
  rfl

/-- The rebuild goes over the header of a message whose payload is too short for a sample, and no further. -/
theorem readTokens_short (h : m.nPayload < 8) (fuel : ℕ) :
    readTokens (front ++ (m.bytes ++ rest)) (fuel + 1) front.length b =
      readTokens (front ++ (m.bytes ++ rest)) fuel (front.length + SMSG_HDR_LEN) b := by
  rw [readTokens_succ]
  simp only [header_bytes, m.header_length, ne_eq, not_true_eq_false, ↓reduceIte]
  change (if m.nPayload < 8 then _ else _) = _
  rw [if_pos h]

end Reading

theorem readTokens_end {file : List UInt8} {ofs : ℕ} (h : file.length ≤ ofs) (fuel : ℕ) (b : SecMsgBucket) :
    readTokens file fuel ofs b = b := by
  cases fuel with
  | zero => rfl
  | succ fuel =>
    rw [readTokens_succ, List.drop_eq_nil_of_le h]
    rfl

/-- More fuel changes nothing: a file is read to its end. -/
theorem readTokens_add (file : List UInt8) (k : ℕ) {fuel ofs : ℕ} {b : SecMsgBucket}
    (hfuel : file.length ≤ ofs + fuel) : readTokens file (fuel + k) ofs b = readTokens file fuel ofs b := by
  induction fuel generalizing ofs b with
  | zero => exact readTokens_end hfuel _ _
  | succ fuel ih =>
    have hlen : SMSG_HDR_LEN = 104 := rfl
    rw [Nat.add_right_comm, readTokens_succ, readTokens_succ]
    simp only
    rw [ih (by omega), ih (by omega)]

theorem mem_insertNew {b : SecMsgBucket} {token t : SecMsgToken} (h : t ∈ (b.insertNew token).setTokens) :
    t = token ∨ t ∈ b.setTokens := by
  unfold SecMsgBucket.insertNew at h
  split at h
  · exact Or.inr h
  · exact mem_insert.1 h

/-- The tokens that are read from a position on have places from there on. -/
theorem mem_readTokens {file : List UInt8} {fuel ofs : ℕ} {b : SecMsgBucket} {t : SecMsgToken}
    (h : t ∈ (readTokens file fuel ofs b).setTokens) : t ∈ b.setTokens ∨ ofs ≤ t.offset := by
  induction fuel generalizing ofs b with
  | zero => exact Or.inl h
  | succ fuel ih =>
    rw [readTokens_succ] at h
    simp only at h
    split at h
    · exact Or.inl h
    split at h
    · exact (ih h).imp_right fun hle => by omega
    split at h
    · exact Or.inl h
    rcases ih h with hb | hle
    · rcases mem_insertNew hb with rfl | hb
      · exact Or.inr (Nat.le_refl _)
      · exact Or.inl hb
    · exact Or.inr (by omega)

/-- No message has the token of another. -/
def Distinct (ms : List StoredMessage) : Prop := ms.Pairwise fun m m' => m'.token.same m.token = false

/-- **The rebuild of a file**: over messages with long payloads it makes the tokens that were kept. -/
theorem readTokens_messages {ms : List StoredMessage} {front rest : List UInt8} {b : SecMsgBucket} {fuel : ℕ}
    (hlong : ∀ m ∈ ms, 8 ≤ m.nPayload) (hnew : ∀ m ∈ ms, b.has m.token = false) (hms : Distinct ms)
    (hfuel : ms.length ≤ fuel) :
    readTokens (front ++ (fileOf ms ++ rest)) fuel front.length b =
      readTokens (front ++ (fileOf ms ++ rest)) (fuel - ms.length) (front.length + (fileOf ms).length)
        (tokensFrom front.length b ms) := by
  induction ms generalizing front b fuel with
  | nil => rfl
  | cons m ms ih =>
    obtain ⟨fuel, rfl⟩ : ∃ k, fuel = k + 1 := ⟨fuel - 1, by rw [List.length_cons] at hfuel; omega⟩
    obtain ⟨hm, hms⟩ := List.pairwise_cons.1 hms
    have hinsert : b.insertNew (m.tokenAt front.length) = b.insert (m.tokenAt front.length) := by
      have hb : b.has (m.tokenAt front.length) = false := hnew m (List.mem_cons_self ..)
      rw [SecMsgBucket.insertNew, hb, if_neg Bool.false_ne_true]
    have hnew' : ∀ m' ∈ ms, (b.insert (m.tokenAt front.length)).has m'.token = false := by
      intro m' hm'
      rw [has_insert, hnew m' (List.mem_cons_of_mem _ hm'), Bool.false_or]
      exact hm m' hm'
    have hfile : front ++ (fileOf (m :: ms) ++ rest) = front ++ (m.bytes ++ (fileOf ms ++ rest)) := by
      rw [fileOf, List.flatMap_cons, List.append_assoc]
      rfl
    have hrest : readTokens (front ++ m.bytes ++ (fileOf ms ++ rest)) fuel (front ++ m.bytes).length
        (b.insert (m.tokenAt front.length)) = _ :=
      ih (fun m' hm' => hlong m' (List.mem_cons_of_mem _ hm')) hnew' hms (by rw [List.length_cons] at hfuel; omega)
    rw [List.append_assoc, List.length_append] at hrest
    rw [hfile, readTokens_long (hlong m (List.mem_cons_self ..)), hinsert, hrest, length_fileOf_cons, List.length_cons,
      Nat.add_sub_add_right, tokensFrom, Nat.add_assoc]

/-! ### Retrieving -/

theorem tmod_token (m : StoredMessage) (ofs : ℕ) :
    (m.tokenAt ofs).timestamp - (m.tokenAt ofs).timestamp.tmod SMSG_BUCKET_LEN = m.bucket := rfl

/-- The token of a message retrieves it. -/
theorem secureMsgRetrieve_tokenAt {st : SmsgState} {pre post : List StoredMessage} {m : StoredMessage}
    (h : st.files m.bucket = fileOf (pre ++ m :: post)) :
    secureMsgRetrieve st (m.tokenAt (fileOf pre).length) = some m.bytes := by
  have hfile : fileOf (pre ++ m :: post) = fileOf pre ++ (m.bytes ++ fileOf post) := by
    rw [fileOf_append]
    rfl
  have hsize := m.size_lt
  have hpayload := m.payload_length
  have hat : messageAt (fileOf pre ++ (m.bytes ++ fileOf post)) (m.tokenAt (fileOf pre).length).offset =
      m.toSecureMessage := messageAt_bytes
  unfold secureMsgRetrieve
  rw [tmod_token, h, hfile]
  simp only [hat]
  rw [if_neg (not_not.2 m.header_length), if_neg (by omega)]
  rfl

/-! ### Storing -/

section Stores

variable [SmsgHash]

/-- The messages of a bucket that have been stored, in their order. -/
def inBucket (calls : List StoreCall) (t : ℤ) : List StoredMessage :=
  (calls.map StoreCall.smsg).filter fun m => m.bucket = t

omit [SmsgHash] in
theorem inBucket_append (calls : List StoreCall) (c : StoreCall) (t : ℤ) :
    inBucket (calls ++ [c]) t = if c.smsg.bucket = t then inBucket calls t ++ [c.smsg] else inBucket calls t := by
  rw [inBucket, List.map_append, List.filter_append]
  by_cases h : c.smsg.bucket = t
  · simp [h, inBucket]
  · simp [h, inBucket]

/-- What is kept: each file has the messages of its bucket, the bucket has their tokens, and no two are alike. -/
structure StoreInvariant (calls : List StoreCall) (st : SmsgState) : Prop where
  files : ∀ t, st.files t = fileOf (inBucket calls t)
  tokens : ∀ t, (st.bucketAt t).setTokens = (tokensFrom 0 {} (inBucket calls t)).setTokens
  distinct : ∀ t, Distinct (inBucket calls t)

omit [SmsgHash] in
theorem has_congr {b b' : SecMsgBucket} (h : b.setTokens = b'.setTokens) (t : SecMsgToken) : b.has t = b'.has t := by
  rw [SecMsgBucket.has, h, SecMsgBucket.has]

omit [SmsgHash] in
theorem insert_congr {b b' : SecMsgBucket} (h : b.setTokens = b'.setTokens) (t : SecMsgToken) :
    (b.insert t).setTokens = (b'.insert t).setTokens := by
  simp only [SecMsgBucket.insert, h]

/-- What a call that succeeds changes. -/
theorem run_eq {c : StoreCall} {st st' : SmsgState} (h : c.run st = (st', true)) :
    (st.bucketAt c.smsg.bucket).has c.smsg.token = false ∧
      st'.files = Function.update st.files c.smsg.bucket (st.files c.smsg.bucket ++ c.smsg.bytes) ∧
      ∀ t, (st'.bucketAt t).setTokens = if t = c.smsg.bucket then
        ((st.bucketAt t).insert (c.smsg.tokenAt (st.files t).length)).setTokens else (st.bucketAt t).setTokens := by
  obtain ⟨hdir, htime, hnew, hwrite⟩ := (secureMsgStore_iff c.turn c.fUpdateBucket).1 (congrArg Prod.snd h)
  have hhas : (st.bucketAt c.smsg.bucket).has c.smsg.token = false := by
    rw [← hnew]
    exact has_getD c.smsg.toSecureMessage c.smsg.toSecureMessage rfl
  have hhas' : ((st.smsgBuckets c.smsg.bucket).getD {}).has c.smsg.token = false := hhas
  unfold StoreCall.run secureMsgStore at h
  simp only [hdir, htime, hhas', hwrite, Bool.not_true, Bool.false_eq_true, ↓reduceIte, Prod.mk.injEq, and_true] at h
  subst h
  refine ⟨hhas, rfl, fun t => ?_⟩
  by_cases ht : t = c.smsg.bucket
  · subst ht
    simp only [SmsgState.bucketAt, Function.update_self, Option.getD_some, ↓reduceIte]
    split <;> rfl
  · simp only [SmsgState.bucketAt, Function.update_of_ne ht, if_neg ht]

/-- **What every run of stores keeps.** -/
theorem storeInvariant {calls : List StoreCall} {st : SmsgState} (h : Stores calls st) : StoreInvariant calls st := by
  induction h with
  | start => exact ⟨fun _ => rfl, fun _ => rfl, fun _ => List.Pairwise.nil⟩
  | store hprev hrun ih =>
    next calls st st' c =>
    obtain ⟨hnew, hfiles, htokens⟩ := run_eq hrun
    have hothers : ∀ m ∈ inBucket calls c.smsg.bucket, c.smsg.token.same m.token = false := by
      rw [has_congr (ih.tokens _), has_tokensFrom, Bool.or_eq_false_iff] at hnew
      intro m hm
      exact Bool.eq_false_iff.2 fun hsame => by simpa using List.any_eq_false.1 hnew.2 m hm hsame
    refine ⟨fun t => ?_, fun t => ?_, fun t => ?_⟩
    · rw [hfiles, inBucket_append]
      by_cases ht : c.smsg.bucket = t
      · subst ht
        rw [Function.update_self, if_pos rfl, fileOf_append, ih.files]
        simp [fileOf]
      · rw [Function.update_of_ne (Ne.symm ht), if_neg ht, ih.files]
    · rw [htokens, inBucket_append]
      by_cases ht : c.smsg.bucket = t
      · subst ht
        rw [if_pos rfl, if_pos rfl, tokensFrom_append, ih.files, Nat.zero_add]
        exact insert_congr (ih.tokens _) _
      · rw [if_neg (Ne.symm ht), if_neg ht, ih.tokens]
    · rw [inBucket_append]
      by_cases ht : c.smsg.bucket = t
      · subst ht
        rw [if_pos rfl]
        refine List.pairwise_append.2 ⟨ih.distinct _, List.pairwise_singleton _ _, fun m hm m' hm' => ?_⟩
        rw [List.mem_singleton.1 hm']
        exact hothers m hm
      · rw [if_neg ht]
        exact ih.distinct t

/-! ### The restart -/

omit [SmsgHash] in
theorem mem_inBucket {calls : List StoreCall} {t : ℤ} {m : StoredMessage} :
    m ∈ inBucket calls t ↔ (∃ c ∈ calls, c.smsg = m) ∧ m.bucket = t := by
  simp [inBucket]

variable {calls : List StoreCall} {st : SmsgState} {now : ℤ} {t : ℤ}

/-- The tokens that a restart makes for a bucket that has not expired. -/
theorem rebuilt_setTokens (ht : now - SMSG_RETENTION ≤ t) :
    ((secureMsgBuildBucketSet now st.files).bucketAt t).setTokens =
      (readTokens (st.files t) (st.files t).length 0 {}).setTokens := by
  simp only [SmsgState.bucketAt, secureMsgBuildBucketSet, Int.not_lt.2 ht, or_false]
  by_cases hfile : st.files t = []
  · rw [if_pos hfile, hfile]
    rfl
  · rw [if_neg hfile]
    rfl

omit [SmsgHash] in
theorem readTokens_inBucket (h : StoreInvariant calls st) (hlong : ∀ m ∈ inBucket calls t, 8 ≤ m.nPayload) :
    readTokens (st.files t) (st.files t).length 0 {} = tokensFrom 0 {} (inBucket calls t) := by
  have hsize := length_fileOf (inBucket calls t)
  have hread : readTokens ([] ++ (fileOf (inBucket calls t) ++ [])) (fileOf (inBucket calls t)).length
      ([] : List UInt8).length {} = _ :=
    readTokens_messages hlong (fun _ _ => rfl) (h.distinct t) (by rw [SMSG_HDR_LEN] at hsize; omega)
  rw [List.nil_append, List.append_nil, List.length_nil, Nat.zero_add, readTokens_end (le_refl _)] at hread
  rw [h.files, hread]

omit [SmsgHash] in
/-- A token that is kept retrieves the message that was stored with it. -/
theorem retrieve_of_mem (h : StoreInvariant calls st) {st' : SmsgState} (hfiles : st'.files t = st.files t)
    {token : SecMsgToken} (hmem : token ∈ (tokensFrom 0 {} (inBucket calls t)).setTokens) :
    ∃ c ∈ calls, c.smsg.bucket = t ∧ token.same c.smsg.token = true ∧
      secureMsgRetrieve st' token = some c.smsg.bytes := by
  obtain hnone | ⟨pre, m, post, hms, rfl⟩ := mem_tokensFrom.1 hmem
  · cases hnone
  have hm : m ∈ inBucket calls t := by rw [hms]; simp
  obtain ⟨⟨c, hc, rfl⟩, hbucket⟩ := mem_inBucket.1 hm
  refine ⟨c, hc, hbucket, by simp [SecMsgToken.same, StoredMessage.tokenAt], ?_⟩
  have hfile : st'.files c.smsg.bucket = fileOf (pre ++ c.smsg :: post) := by rw [hbucket, hfiles, h.files, hms]
  rw [Nat.zero_add]
  exact secureMsgRetrieve_tokenAt hfile

omit [SmsgHash] in
theorem retrieve_of_call (h : StoreInvariant calls st) {c : StoreCall} (hc : c ∈ calls) :
    ∃ token ∈ (st.bucketAt c.smsg.bucket).setTokens, token.same c.smsg.token = true ∧
      secureMsgRetrieve st token = some c.smsg.bytes := by
  obtain ⟨pre, post, hms⟩ :=
    List.append_of_mem (mem_inBucket.2 ⟨⟨c, hc, rfl⟩, rfl⟩ : c.smsg ∈ inBucket calls c.smsg.bucket)
  refine ⟨c.smsg.tokenAt (fileOf pre).length, ?_, by simp [SecMsgToken.same, StoredMessage.tokenAt], ?_⟩
  · rw [h.tokens]
    exact mem_tokensFrom.2 (Or.inr ⟨pre, c.smsg, post, hms, by rw [Nat.zero_add]⟩)
  · exact secureMsgRetrieve_tokenAt (by rw [h.files, hms])

omit [SmsgHash] in
/-- The token of the first message whose payload is too short for a sample is not made again. -/
theorem not_mem_readTokens (h : StoreInvariant calls st) {pre post : List StoredMessage} {m : StoredMessage}
    (hms : inBucket calls t = pre ++ m :: post) (hshort : m.nPayload < 8) (hpre : ∀ m' ∈ pre, 8 ≤ m'.nPayload) :
    m.tokenAt (fileOf pre).length ∉ (readTokens (st.files t) (st.files t).length 0 {}).setTokens := by
  intro hmem
  have hdistinct : Distinct pre := (List.pairwise_append.1 (hms ▸ h.distinct t)).1
  have hfile : st.files t = fileOf pre ++ (m.bytes ++ fileOf post) := by
    rw [h.files, hms, fileOf_append]
    rfl
  have hsize := length_fileOf pre
  have hlen : (st.files t).length = (fileOf pre).length + (m.bytes.length + (fileOf post).length) := by
    rw [hfile, List.length_append, List.length_append]
  rw [m.bytes_length] at hlen
  rw [SMSG_HDR_LEN] at hsize hlen
  obtain ⟨fuel, hfuel⟩ : ∃ k, (st.files t).length - pre.length = k + 1 :=
    ⟨(st.files t).length - pre.length - 1, by omega⟩
  have hread : readTokens ([] ++ (fileOf pre ++ (m.bytes ++ fileOf post))) (st.files t).length
      ([] : List UInt8).length {} = _ :=
    readTokens_messages hpre (fun _ _ => rfl) hdistinct (by omega)
  rw [List.nil_append, List.length_nil, Nat.zero_add, hfuel, ← hfile] at hread
  rw [hread, hfile, readTokens_short hshort, ← hfile] at hmem
  obtain hold | hlate := mem_readTokens hmem
  · obtain hnone | ⟨pre', m', post', hpre', htoken⟩ := mem_tokensFrom.1 hold
    · cases hnone
    have hofs : (fileOf pre).length = 0 + (fileOf pre').length := congrArg SecMsgToken.offset htoken
    rw [hpre', fileOf_append, List.length_append, length_fileOf_cons, m'.bytes_length, SMSG_HDR_LEN] at hofs
    omega
  · change (fileOf pre).length + SMSG_HDR_LEN ≤ (fileOf pre).length at hlate
    rw [SMSG_HDR_LEN] at hlate
    omega

/-- **When a restart gives back what was stored**: exactly if every message stored in a bucket that has not expired
has a payload of eight bytes or more. -/
theorem restores_iff (now : ℤ) (h : Stores calls st) :
    Restores now calls st ↔ ∀ c ∈ calls, now - SMSG_RETENTION ≤ c.smsg.bucket → 8 ≤ c.smsg.nPayload := by
  have hinv := storeInvariant h
  constructor
  · intro hrestores c hc htime
    by_contra hshort
    have hmem : c.smsg ∈ inBucket calls c.smsg.bucket := mem_inBucket.2 ⟨⟨c, hc, rfl⟩, rfl⟩
    have hfound : ((inBucket calls c.smsg.bucket).find? fun m => decide (m.nPayload < 8)).isSome = true :=
      List.find?_isSome.2 ⟨c.smsg, hmem, by simpa using hshort⟩
    obtain ⟨m, hm⟩ := Option.isSome_iff_exists.1 hfound
    obtain ⟨hm, pre, post, hms, hpre⟩ := List.find?_eq_some_iff_append.1 hm
    have hnot := not_mem_readTokens hinv hms (by simpa using hm) fun m' hm' => by simpa using hpre m' hm'
    rw [← rebuilt_setTokens htime, hrestores.tokens _ htime, hinv.tokens] at hnot
    exact hnot (mem_tokensFrom.2 (Or.inr ⟨pre, m, post, hms, by rw [Nat.zero_add]⟩))
  · intro hlong
    have hrebuilt : ∀ t, now - SMSG_RETENTION ≤ t →
        ((secureMsgBuildBucketSet now st.files).bucketAt t).setTokens =
          (tokensFrom 0 {} (inBucket calls t)).setTokens := by
      intro t ht
      rw [rebuilt_setTokens ht, readTokens_inBucket hinv]
      intro m hm
      obtain ⟨⟨c, hc, rfl⟩, hbucket⟩ := mem_inBucket.1 hm
      exact hlong c hc (by rw [hbucket]; exact ht)
    refine ⟨?_, fun c hc => retrieve_of_call hinv hc, ?_, ?_⟩
    · intro t ht
      rw [hrebuilt t ht, hinv.tokens]
    · intro t token htoken
      rw [hinv.tokens] at htoken
      exact retrieve_of_mem hinv rfl htoken
    · intro t token htoken
      by_cases ht : now - SMSG_RETENTION ≤ t
      · rw [hrebuilt t ht] at htoken
        exact retrieve_of_mem hinv (if_neg (Int.not_lt.2 ht)) htoken
      · have hnone : (secureMsgBuildBucketSet now st.files).bucketAt t = {} := by
          simp only [SmsgState.bucketAt, secureMsgBuildBucketSet, Int.not_le.1 ht, or_true, ↓reduceIte,
            Option.getD_none]
        rw [hnone] at htoken
        cases htoken

end Stores

namespace Sample

/-- A message with no payload, and the good message. -/
def storedEmpty : StoredMessage :=
  ⟨⟨smsgHeader 1 [0, 0, 0, 0] [0, 0, 0, 0] [0, 0, 0, 0], []⟩, by decide, by decide, by decide⟩
def storedGood : StoredMessage := ⟨goodMessage, by decide, by decide, by decide⟩

/-- A message is stored. -/
def storeCall (m : StoredMessage) : StoreCall := ⟨smsgEnv, 0, m, true⟩

/-- The state after it. -/
def storedState (m : StoredMessage) : SmsgState := ((storeCall m).run noMessages).1

/-- **The token of a message with no payload is lost** in a restart. -/
theorem storedEmpty_lost : Stores [storeCall storedEmpty] (storedState storedEmpty) ∧
    ¬Restores smsgEnv.now [storeCall storedEmpty] (storedState storedEmpty) := by
  refine ⟨Stores.store Stores.start rfl, fun hrestores => ?_⟩
  have htokens := hrestores.tokens storedEmpty.bucket (by decide)
  have hkept : ((storedState storedEmpty).bucketAt storedEmpty.bucket).setTokens.length = 1 := by decide
  have hrebuilt : ((secureMsgBuildBucketSet smsgEnv.now (storedState storedEmpty).files).bucketAt
      storedEmpty.bucket).setTokens.length = 0 := by decide
  rw [htokens, hkept] at hrebuilt
  cases hrebuilt

theorem storedGood_restores : Restores smsgEnv.now [storeCall storedGood] (storedState storedGood) :=
  (restores_iff smsgEnv.now (Stores.store Stores.start (show _ = (storedState storedGood, true) from rfl))).2
    fun c hc _ => by
      rw [List.mem_singleton.1 hc]
      decide

end Sample

end PayDayCoin
