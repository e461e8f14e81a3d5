import PayDayCoin.SecureMessage
import Mathlib.Order.Defs.LinearOrder
import Mathlib.Tactic.Common

/-!
# The messages of a bunch

The messages of a bunch stand one after the other, so each is found by the lengths of those before it. The
cursor of `SecureMsgReceive` stays at a message that is not valid, and the loop ends at one that is not stored; a
payload that is cut short is read past the end of the bunch. **`receivesAll_iff`** says when a call stays
within the bunch and stores all its valid messages: the messages up to the last valid one that is not known are all
valid, new and written, and no payload that is read is cut short.
-/

namespace PayDayCoin

section Bunch

variable [SmsgHash] {env : SmsgEnv} {st : SmsgState} {m : SecureMessage} {vchData : List UInt8}

/-! ### The bunch -/

/-- Whether a message is valid, and of a time that is kept. -/
def SecureMessage.valid (now : ℤ) (m : SecureMessage) : Bool := secureMsgValidate m = 0 && m.timely now

omit [SmsgHash] in
/-- The messages of a bunch from a position on: `left` of them, or as many as are there in full. -/
def messages (vchData : List UInt8) : ℕ → ℕ → List SecureMessage
  | 0, _ => []
  | left + 1, n =>
    let m := messageAt vchData n
    if vchData.length < n + SMSG_HDR_LEN then []
    else if vchData.length < n + SMSG_HDR_LEN + m.nPayload then []
    else m :: messages vchData left (n + SMSG_HDR_LEN + m.nPayload)

/-- Whether these messages are followed by one whose payload is cut short, and which `SecureMsgValidate` would
read. -/
def cutShort (vchData : List UInt8) : ℕ → ℕ → Bool
  | 0, _ => false
  | left + 1, n =>
    let m := messageAt vchData n
    if vchData.length < n + SMSG_HDR_LEN then false
    else if vchData.length < n + SMSG_HDR_LEN + m.nPayload then m.readsPayload
    else cutShort vchData left (n + SMSG_HDR_LEN + m.nPayload)

/-- Whether the head of a bunch is in order. -/
def headOk (env : SmsgEnv) (vchData : List UInt8) : Bool :=
  12 ≤ vchData.length && bktTime vchData ≤ env.now + SMSG_TIME_LEEWAY && env.now - SMSG_RETENTION ≤ bktTime vchData &&
    nBunch vchData != 0 && nBunch vchData ≤ 500

/-- The messages of a bunch. -/
def bunch (env : SmsgEnv) (vchData : List UInt8) : List SecureMessage :=
  if headOk env vchData then messages vchData (nBunch vchData) 12 else []

/-- A call stays within the bunch, and the valid messages of the bunch are stored after it. -/
def ReceivesAll (env : SmsgEnv) (st : SmsgState) (vchData : List UInt8) : Prop :=
  ∃ st' rv, secureMsgReceive env st vchData = some (st', rv) ∧
    ∀ m ∈ bunch env vchData, m.valid env.now = true → st'.has m = true

/-- Whether nothing is lost of these messages: each is valid and stored in its turn, or those from it on are not
valid or known already. -/
def nothingLost (env : SmsgEnv) (cut : Bool) : ℕ → List SecureMessage → SmsgState → Bool
  | _, [], _ => !cut
  | i, m :: ms, st =>
    if secureMsgValidate m = 0 && (secureMsgStore env i st m false).2 then
      nothingLost env cut (i + 1) ms (secureMsgStore env i st m false).1
    else (m :: ms).all fun m' => !m'.valid env.now || st.has m'

/-- Whether nothing is lost of a bunch. -/
def losesNothing (env : SmsgEnv) (st : SmsgState) (vchData : List UInt8) : Bool :=
  !headOk env vchData ||
    nothingLost env (cutShort vchData (nBunch vchData) 12) 0 (messages vchData (nBunch vchData) 12) st

/-! ### Storing -/

omit [SmsgHash] in
theorem has_insert (b : SecMsgBucket) (token t : SecMsgToken) :
    (b.insert token).has t = (b.has t || t.same token) := by
  have hsplit : b.setTokens.any t.same = ((b.setTokens.takeWhile fun x => x.lt token).any t.same ||
      (b.setTokens.dropWhile fun x => x.lt token).any t.same) := by
    rw [← List.any_append, List.takeWhile_append_dropWhile]
  simp only [SecMsgBucket.has, SecMsgBucket.insert, List.any_append, List.any_cons, hsplit]
  rw [Bool.or_comm (t.same token), Bool.or_assoc]

omit [SmsgHash] in
/-- The bucket of a message, made when it is not there, has the messages that are known. -/
theorem has_getD (m m' : SecureMessage) (h : m'.bucket = m.bucket) :
    ((st.smsgBuckets m.bucket).getD {}).has m'.token = st.has m' := by
  rw [SmsgState.has, h]
  cases st.smsgBuckets m.bucket <;> rfl

omit [SmsgHash] in
theorem has_update (k : ℤ) (b : SecMsgBucket) (files : ℤ → List UInt8) (n : ℕ) (m : SecureMessage) :
    SmsgState.has ⟨Function.update st.smsgBuckets k (some b), files, n⟩ m =
      if m.bucket = k then b.has m.token else st.has m := by
  simp only [SmsgState.has, Function.update_apply]
  split <;> rfl

theorem has_hashBucket (b : SecMsgBucket) (now : ℤ) (t : SecMsgToken) : (b.hashBucket now).has t = b.has t := rfl

/-- What follows the loop leaves the tokens of the buckets. -/
theorem has_releaseBucket (env : SmsgEnv) (k : ℤ) (st : SmsgState) (m : SecureMessage) :
    (releaseBucket env k st).1.has m = st.has m := by
  unfold releaseBucket
  cases hb : st.smsgBuckets k with
  | none => rfl
  | some b =>
    simp only [has_update, has_hashBucket]
    split
    · next hm =>
      rw [SmsgState.has, hm, hb]
      rfl
    · rfl

/-- When a message is stored. -/
theorem secureMsgStore_iff (i : ℕ) (fUpdateBucket : Bool) : (secureMsgStore env i st m fUpdateBucket).2 = true ↔
    env.createDirectory i = true ∧ m.timely env.now = true ∧ st.has m = false ∧ env.writeFails i = none := by
  unfold secureMsgStore
  simp only [has_getD m m rfl]
  cases env.createDirectory i <;> cases m.timely env.now <;> cases st.has m <;> cases env.writeFails i <;> simp

/-- **What `SecureMsgStore` does**: a message that is stored is known from then on, and so are those known
before. -/
theorem has_secureMsgStore (i : ℕ) (fUpdateBucket : Bool) (m' : SecureMessage) :
    (secureMsgStore env i st m fUpdateBucket).1.has m' =
      (st.has m' || (secureMsgStore env i st m fUpdateBucket).2 && m'.bucket == m.bucket && m'.token.same m.token) := by
  unfold secureMsgStore
  split
  · simp
  split
  · simp
  simp only [has_getD m m rfl]
  by_cases hb : m'.bucket = m.bucket
  · split
    · simp [has_update, hb, has_getD m m' hb]
    · cases env.writeFails i with
      | some n => simp [has_update, hb, has_getD m m' hb]
      | none =>
        have hnew : (((st.smsgBuckets m.bucket).getD {}).insert
            { m.token with offset := (st.files m.bucket).length }).has m'.token =
              (st.has m' || m'.token.same m.token) := by
          rw [has_insert, has_getD m m' hb]
          rfl
        cases fUpdateBucket <;> simp [has_update, hb, has_hashBucket, hnew]
  · split
    · simp [has_update, hb]
    · cases env.writeFails i <;> simp [has_update, hb]

/-! ### The loop -/

/-- A message that is valid is short. -/
theorem readsPayload_of_validate (h : secureMsgValidate m = 0) : m.readsPayload = true := by
  unfold secureMsgValidate at h
  split at h
  · cases h
  · next hversion =>
    split at h
    · cases h
    · next hlen =>
      rw [SecureMessage.readsPayload, Bool.and_eq_true, beq_iff_eq, decide_eq_true_iff]
      exact ⟨not_not.1 hversion, Nat.not_lt.1 hlen⟩

/-- One turn of the loop, at a cursor within the bunch. -/
theorem receiveLoop_succ {n : ℕ} (hn : n ≤ vchData.length) (left i : ℕ) (st : SmsgState) :
    receiveLoop env vchData (left + 1) i n st =
      if vchData.length < n + SMSG_HDR_LEN then some st
      else if (messageAt vchData n).readsPayload = true ∧
          vchData.length < n + SMSG_HDR_LEN + (messageAt vchData n).nPayload then none
      else if secureMsgValidate (messageAt vchData n) ≠ 0 then
        receiveLoop env vchData left (i + 1) n { st with misbehavior := st.misbehavior + 1 }
      else if (secureMsgStore env i st (messageAt vchData n) false).2 = true then
        receiveLoop env vchData left (i + 1) ((n + SMSG_HDR_LEN + (messageAt vchData n).nPayload) % 2 ^ 32)
          (secureMsgStore env i st (messageAt vchData n) false).1
      else some (secureMsgStore env i st (messageAt vchData n) false).1 := by
  have hheader : vchData.length - n < SMSG_HDR_LEN ↔ vchData.length < n + SMSG_HDR_LEN := by omega
  rw [receiveLoop, if_neg (Nat.not_lt.2 hn)]
  simp only [hheader, Bool.and_eq_true, decide_eq_true_eq]
  rcases secureMsgStore env i st (messageAt vchData n) false with ⟨st₁, _ | _⟩ <;> rfl

/-- The cursor stays at a message that is not valid. -/
theorem receiveLoop_stuck {n : ℕ} (hfits : n + SMSG_HDR_LEN ≤ vchData.length)
    (hread : (messageAt vchData n).readsPayload = true →
      n + SMSG_HDR_LEN + (messageAt vchData n).nPayload ≤ vchData.length)
    (hbad : secureMsgValidate (messageAt vchData n) ≠ 0) (left i : ℕ) (st : SmsgState) :
    receiveLoop env vchData left i n st = some { st with misbehavior := st.misbehavior + left } := by
  induction left generalizing i st with
  | zero => rfl
  | succ left ih =>
    rw [receiveLoop_succ (by omega), if_neg (by omega), if_neg fun hcut => absurd (hread hcut.1) (by omega), if_pos hbad,
      ih]
    simp only [Nat.add_right_comm, Nat.add_assoc]

/-- The loop does what its turns do: scores a message that is not valid, or stores one. -/
theorem receiveLoop_rel {R : SmsgState → SmsgState → Prop} (hrefl : ∀ st, R st st)
    (htrans : ∀ {st₁ st₂ st₃}, R st₁ st₂ → R st₂ st₃ → R st₁ st₃)
    (hscore : ∀ st : SmsgState, R st { st with misbehavior := st.misbehavior + 1 })
    (hstore : ∀ i st m, R st (secureMsgStore env i st m false).1) {left i n : ℕ} {st st' : SmsgState}
    (h : receiveLoop env vchData left i n st = some st') : R st st' := by
  induction left generalizing i n st with
  | zero => exact Option.some.inj h ▸ hrefl st
  | succ left ih =>
    rw [receiveLoop] at h
    split at h
    · cases h
    split at h
    · exact Option.some.inj h ▸ hrefl st
    simp only at h
    split at h
    · cases h
    split at h
    · exact htrans (hscore st) (ih h)
    have hturn := hstore i st (messageAt vchData n)
    split at h
    · next st₁ hst =>
      rw [hst] at hturn
      exact Option.some.inj h ▸ hturn
    · next st₁ hst =>
      rw [hst] at hturn
      exact htrans hturn (ih h)

/-- What is known stays known. -/
theorem has_receiveLoop {left i n : ℕ} {st st' : SmsgState} (h : receiveLoop env vchData left i n st = some st')
    (hm : st.has m = true) : st'.has m = true := by
  refine receiveLoop_rel (R := fun st st' => st.has m = true → st'.has m = true) (fun _ => id)
    (fun h₁ h₂ => h₂ ∘ h₁) (fun _ => id) (fun i st m' hm => ?_) h hm
  rw [has_secureMsgStore, hm, Bool.true_or]

/-- **What the loop stores**: all valid messages exactly if nothing is lost. -/
theorem receiveLoop_iff {left i n : ℕ} {st : SmsgState} (hn : n ≤ vchData.length)
    (hsize : n + left * (SMSG_HDR_LEN + SMSG_MAX_MSG_WORST) < 2 ^ 32) :
    (∃ st', receiveLoop env vchData left i n st = some st' ∧
        ∀ m ∈ messages vchData left n, m.valid env.now = true → st'.has m = true) ↔
      nothingLost env (cutShort vchData left n) i (messages vchData left n) st = true := by
  induction left generalizing i n st with
  | zero => exact ⟨fun _ => rfl, fun _ => ⟨st, rfl, fun m hm => absurd hm List.not_mem_nil⟩⟩
  | succ left ih =>
    by_cases hheader : vchData.length < n + SMSG_HDR_LEN
    · rw [receiveLoop_succ hn, if_pos hheader, messages, cutShort]
      simp [hheader, nothingLost]
    rw [Nat.not_lt] at hheader
    by_cases hpayload : vchData.length < n + SMSG_HDR_LEN + (messageAt vchData n).nPayload
    · have hmessages : messages vchData (left + 1) n = [] := by
        rw [messages]
        simp only [Nat.not_lt.2 hheader, hpayload, ↓reduceIte]
      have hcut : cutShort vchData (left + 1) n = (messageAt vchData n).readsPayload := by
        rw [cutShort]
        simp only [Nat.not_lt.2 hheader, hpayload, ↓reduceIte]
      rw [hmessages, hcut, nothingLost]
      cases hread : (messageAt vchData n).readsPayload with
      | true =>
        rw [receiveLoop_succ hn, if_neg (by omega), if_pos ⟨hread, hpayload⟩]
        simp
      | false =>
        have hbad : secureMsgValidate (messageAt vchData n) ≠ 0 := fun h => by
          rw [readsPayload_of_validate h] at hread
          cases hread
        rw [receiveLoop_stuck hheader (fun h => by rw [hread] at h; cases h) hbad]
        simp
    · rw [Nat.not_lt] at hpayload
      have hmessages : messages vchData (left + 1) n = messageAt vchData n ::
          messages vchData left (n + SMSG_HDR_LEN + (messageAt vchData n).nPayload) := by
        rw [messages]
        simp only [Nat.not_lt.2 hheader, Nat.not_lt.2 hpayload, ↓reduceIte]
      have hcut : cutShort vchData (left + 1) n =
          cutShort vchData left (n + SMSG_HDR_LEN + (messageAt vchData n).nPayload) := by
        rw [cutShort]
        simp only [Nat.not_lt.2 hheader, Nat.not_lt.2 hpayload, ↓reduceIte]
      have hall : ∀ (st' : SmsgState) (ms : List SecureMessage), (∀ m, st'.has m = st.has m) →
          ((∀ m ∈ ms, m.valid env.now = true → st'.has m = true) ↔
            (ms.all fun m' => !m'.valid env.now || st.has m') = true) := by
        intro st' ms hsame
        rw [List.all_eq_true]
        refine forall₂_congr fun m _ => ?_
        rw [hsame]
        cases m.valid env.now <;> simp
      rw [hmessages, hcut, nothingLost]
      by_cases hbad : secureMsgValidate (messageAt vchData n) ≠ 0
      · rw [receiveLoop_stuck hheader (fun _ => hpayload) hbad]
        simp only [Option.some.injEq, exists_eq_left', hbad, decide_false, Bool.false_and, Bool.false_eq_true,
          ↓reduceIte]
        exact hall _ _ fun m => rfl
      rw [not_not] at hbad
      have hstep : receiveLoop env vchData (left + 1) i n st =
          if (secureMsgStore env i st (messageAt vchData n) false).2 = true then
            receiveLoop env vchData left (i + 1) ((n + SMSG_HDR_LEN + (messageAt vchData n).nPayload) % 2 ^ 32)
              (secureMsgStore env i st (messageAt vchData n) false).1
          else some (secureMsgStore env i st (messageAt vchData n) false).1 := by
        rw [receiveLoop_succ hn, if_neg (by omega), if_neg fun hcut => absurd hcut.2 (by omega), if_neg (by simp [hbad])]
      rw [hstep, hbad]
      cases hstored : (secureMsgStore env i st (messageAt vchData n) false).2 with
      | false =>
        simp only [Bool.false_eq_true, ↓reduceIte, Option.some.injEq, exists_eq_left', decide_true, Bool.and_false]
        refine hall _ _ fun m => ?_
        rw [has_secureMsgStore, hstored]
        simp
      | true =>
        have hshort := readsPayload_of_validate hbad
        rw [SecureMessage.readsPayload, Bool.and_eq_true, decide_eq_true_iff] at hshort
        have hmod : (n + SMSG_HDR_LEN + (messageAt vchData n).nPayload) % 2 ^ 32 =
            n + SMSG_HDR_LEN + (messageAt vchData n).nPayload := by
          refine Nat.mod_eq_of_lt ?_
          rw [Nat.succ_mul] at hsize
          omega
        simp only [↓reduceIte, hmod, decide_true, Bool.and_true]
        rw [← ih hpayload (by rw [Nat.succ_mul] at hsize; omega)]
        have hhas : (secureMsgStore env i st (messageAt vchData n) false).1.has (messageAt vchData n) = true := by
          rw [has_secureMsgStore, hstored]
          simp [SecMsgToken.same]
        refine exists_congr fun st' => and_congr_right fun hloop => ?_
        rw [List.forall_mem_cons]
        exact and_iff_right fun _ => has_receiveLoop hloop hhas

/-- **When a call of `SecureMsgReceive` stores all the valid messages of a bunch** and does not read past it. -/
theorem receivesAll_iff (env : SmsgEnv) (st : SmsgState) (vchData : List UInt8) :
    ReceivesAll env st vchData ↔ losesNothing env st vchData = true := by
  unfold ReceivesAll losesNothing bunch
  cases hhead : headOk env vchData with
  | false =>
    simp only [Bool.false_eq_true, ↓reduceIte, List.not_mem_nil, false_imp_iff, implies_true, and_true, Bool.not_false,
      Bool.true_or, iff_true]
    have hhead' : ¬(12 ≤ vchData.length ∧ bktTime vchData ≤ env.now + SMSG_TIME_LEEWAY ∧
        env.now - SMSG_RETENTION ≤ bktTime vchData ∧ ¬nBunch vchData = 0 ∧ nBunch vchData ≤ 500) := by
      simpa [headOk, and_assoc] using hhead
    unfold secureMsgReceive
    split
    · exact ⟨st, 1, rfl⟩
    split
    · exact ⟨st, 1, rfl⟩
    split
    · exact ⟨st, 1, rfl⟩
    rw [if_pos (by omega)]
    exact ⟨_, 1, rfl⟩
  | true =>
    obtain ⟨hlen, hlate, hearly, hzero, hmany⟩ : 12 ≤ vchData.length ∧ bktTime vchData ≤ env.now + SMSG_TIME_LEEWAY ∧
        env.now - SMSG_RETENTION ≤ bktTime vchData ∧ ¬nBunch vchData = 0 ∧ nBunch vchData ≤ 500 := by
      simpa [headOk, and_assoc] using hhead
    simp only [↓reduceIte, Bool.not_true, Bool.false_or]
    rw [← receiveLoop_iff hlen (by
      have hworst : SMSG_HDR_LEN + SMSG_MAX_MSG_WORST = 4322 := by decide
      rw [hworst]
      omega)]
    rw [secureMsgReceive, if_neg (by omega), if_neg (by omega), if_neg (by omega), if_neg (by omega)]
    constructor
    · rintro ⟨st'', rv, hrun, hall⟩
      obtain ⟨st', hloop, hend⟩ := Option.map_eq_some_iff.1 hrun
      exact ⟨st', hloop, fun m hm hv => by
        rw [← has_releaseBucket env (bktTime vchData) st' m, hend]; exact hall m hm hv⟩
    · rintro ⟨st', hloop, hall⟩
      refine ⟨_, _, by rw [hloop, Option.map_some], fun m hm hv => ?_⟩
      rw [has_releaseBucket]
      exact hall m hm hv

end Bunch

namespace Sample

/-- The header of a message of time 1530000000. -/
def smsgHeader (version : UInt8) (hash nonse nPayload : List UInt8) : List UInt8 :=
  hash ++ [version, 0, 0] ++ [128, 242, 49, 91, 0, 0, 0, 0] ++ List.replicate 81 0 ++ nonse ++ nPayload

/-- A message of an unknown version, and one whose hash is good. -/
def unknownVersion : SecureMessage := ⟨smsgHeader 2 [0, 0, 0, 0] [0, 0, 0, 0] [0, 0, 0, 0], []⟩
def goodMessage : SecureMessage :=
  ⟨smsgHeader 1 [96, 192, 168, 30] [120, 235, 0, 0] [8, 0, 0, 0], [1, 2, 3, 4, 5, 6, 7, 8]⟩

/-- The hash of this message. -/
scoped instance smsgHash : SmsgHash where
  hmacSha256 key message :=
    if key = (List.replicate 8 [120, 235, 0, 0]).flatten ∧
        message = goodMessage.header.drop 4 ++ goodMessage.payload ++ goodMessage.payload then
      some [96, 192, 168, 30, 59, 193, 254, 1, 12, 12, 212, 43, 224, 108, 158, 40, 7, 160, 196, 123, 67, 183, 146, 54, 2,
        171, 151, 225, 2, 30, 0, 0]
    else none
  xxh32 _ := 0

/-- The bunch of the two messages. -/
def smsgBunch : List UInt8 :=
  [2, 0, 0, 0] ++ [128, 242, 49, 91, 0, 0, 0, 0] ++ unknownVersion.header ++ goodMessage.header ++ goodMessage.payload

/-- Everything can be written. -/
def smsgEnv : SmsgEnv := ⟨1530000000, fun _ => true, fun _ => none⟩

/-- No buckets. -/
def noMessages : SmsgState := ⟨fun _ => none, fun _ => [], 0⟩

/-- **A good message is lost** behind one that is not valid. -/
theorem smsgBunch_lost : ¬ReceivesAll smsgEnv noMessages smsgBunch := by
  rintro ⟨st', rv, hrun, hall⟩
  have hmem : goodMessage ∈ bunch smsgEnv smsgBunch := by decide +kernel
  have hvalid : goodMessage.valid smsgEnv.now = true := by decide
  have hlost : (secureMsgReceive smsgEnv noMessages smsgBunch).map (fun r => r.1.has goodMessage) = some false := by
    decide +kernel
  rw [hrun, Option.map_some, Option.some.injEq, hall goodMessage hmem hvalid] at hlost
  cases hlost

end Sample

end PayDayCoin
