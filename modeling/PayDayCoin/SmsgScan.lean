import PayDayCoin.SmsgExchange

/-!
# Scanning the message store

`SecureMsgScanBuckets` goes over the files of the message store to look for messages to the wallet. It should only read
them, but at the end of each file it does what `SecureMsgWalletUnlocked` does with the messages that came while the wallet
was locked: it removes the file. The buckets keep their tokens, which have no message any more. **`scan_keeps_iff`** says
when no message is lost that has not expired: when the scan does not run, or does not come to the end of any file that
holds such a message. `ScanSample.scan_loses` is a store with one message, which an ordinary scan loses.

What the messages hold makes no difference, so `SecureMsgScanMessage` is left out: it adds to the inbox alone, or to the
files of the locked wallet, which are skipped here.
-/

namespace PayDayCoin

/-! ### The scan -/

/-- What the name of an entry of the directory says. -/
inductive StoreName where
  /-- Not a file, not `.dat`, or without `_`. -/
  | other
  /-- The part before `_` is not a number, and the cast throws. -/
  | malformed
  /-- `time_01_wl.dat`. -/
  | locked (fileTime : ℤ)
  /-- `time_01.dat`: the file of a bucket. -/
  | bucket (fileTime : ℤ)
  /-- Another file with a time, and what is in it. -/
  | dated (fileTime : ℤ) (contents : List UInt8)

/-- An entry of the directory, with whether it can be opened and removed. -/
structure StoreEntry where
  name : StoreName
  opens : Bool
  removes : Bool

/-- What a scan reads besides the store. -/
structure ScanEnv where
  fSecMsgEnabled : Bool
  /-- `pwalletMain->IsLocked()`. -/
  isLocked : Bool
  /-- The directory of the store is there. -/
  storeExists : Bool
  /-- `GetTime()`. -/
  now : ℤ
  /-- Whether there is memory for a payload of this size. -/
  allocates : ℕ → Bool
  /-- The entries of the directory, in the order of the iterator. -/
  entries : List StoreEntry

section Scan

variable (env : ScanEnv)

/-- The loop over the messages of a file: whether it comes to an end, or there is no memory for a payload. -/
def scanFile (file : List UInt8) : ℕ → ℕ → Bool
  | 0, _ => true
  | fuel + 1, ofs =>
    let smsg : SecureMessage := ⟨(file.drop ofs).take SMSG_HDR_LEN, []⟩
    if smsg.header.length ≠ SMSG_HDR_LEN then true
    else if !env.allocates smsg.nPayload then false
    else if ((file.drop (ofs + SMSG_HDR_LEN)).take smsg.nPayload).length ≠ smsg.nPayload then true
    else scanFile file fuel (ofs + SMSG_HDR_LEN + smsg.nPayload)

/-- The file is scanned to its end. -/
def scansAll (file : List UInt8) : Bool := scanFile env file file.length 0

/-- A file of this time has expired. -/
def ScanEnv.expired (fileTime : ℤ) : Bool := fileTime < env.now - SMSG_RETENTION

/-- The store without the file of a bucket. -/
def SmsgState.removeFile (st : SmsgState) (fileTime : ℤ) : SmsgState :=
  { st with files := Function.update st.files fileTime [] }

/-- One turn of the loop over the directory: the store, and whether the loop goes on. -/
def scanEntry (st : SmsgState) (e : StoreEntry) : SmsgState × Bool :=
  match e.name with
  | .other => (st, true)
  | .malformed => (st, false)
  | .locked _ => (st, true)
  | .dated fileTime contents =>
    if env.expired fileTime || !e.opens then (st, true) else (st, scansAll env contents && e.removes)
  | .bucket fileTime =>
    if env.expired fileTime then (if e.removes then st.removeFile fileTime else st, true)
    else if !e.opens then (st, true)
    else if !scansAll env (st.files fileTime) then (st, false)
    -- the file is removed as if it were one of the locked wallet
    else if e.removes then (st.removeFile fileTime, true)
    else (st, false)

/-- The loop over the directory. -/
def scanLoop : List StoreEntry → SmsgState → SmsgState
  | [], st => st
  | e :: entries, st =>
    match scanEntry env st e with
    | (st, false) => st
    | (st, true) => scanLoop entries st

/-- Whether `SecureMsgScanBuckets` comes to its loop. -/
def ScanEnv.runs : Bool := env.fSecMsgEnabled && !env.isLocked && env.storeExists

/-- `SecureMsgScanBuckets`. -/
def secureMsgScanBuckets (st : SmsgState) : SmsgState := if env.runs then scanLoop env env.entries st else st

end Scan

/-! ### What is kept -/

/-- The time of the file that a token is looked up in. -/
def SecMsgToken.fileTime (token : SecMsgToken) : ℤ := token.timestamp - token.timestamp.tmod SMSG_BUCKET_LEN

/-- The tokens of the store that have not expired. -/
def SmsgState.Live (st : SmsgState) (env : ScanEnv) (token : SecMsgToken) : Prop :=
  (∃ t b, st.smsgBuckets t = some b ∧ token ∈ b.setTokens) ∧ env.expired token.fileTime = false

/-- What can be retrieved by a token that has not expired can be retrieved after the scan, and is the same. -/
def KeepsMessages (env : ScanEnv) (st : SmsgState) : Prop :=
  ∀ token, st.Live env token → ∀ vchData, secureMsgRetrieve st token = some vchData →
    secureMsgRetrieve (secureMsgScanBuckets env st) token = some vchData

/-- The loop ends at an entry: its name has no time, there is no memory for a payload, or the file cannot be removed. -/
def StoreEntry.stops (env : ScanEnv) (st : SmsgState) (e : StoreEntry) : Bool :=
  match e.name with
  | .malformed => true
  | .dated fileTime contents => !env.expired fileTime && e.opens && !(scansAll env contents && e.removes)
  | .bucket fileTime => !env.expired fileTime && e.opens && !(scansAll env (st.files fileTime) && e.removes)
  | _ => false

/-- The loop over these entries does not open the file of a bucket, or stops there or before. -/
def LeftClosed (env : ScanEnv) (st : SmsgState) (fileTime : ℤ) (entries : List StoreEntry) : Prop :=
  ∀ e ∈ entries.takeWhile (fun e : StoreEntry => !e.stops env st), e.name = .bucket fileTime → e.opens = false

/-- The scan does not come to the end of the file of a bucket. -/
def Spared (env : ScanEnv) (st : SmsgState) (fileTime : ℤ) : Prop :=
  env.runs = true → LeftClosed env st fileTime env.entries

section Keeps

variable {env : ScanEnv} {st : SmsgState} {fileTime : ℤ} {entries : List StoreEntry} {e : StoreEntry}

theorem scansAll_nil : scansAll env [] = true := rfl

theorem stops_removeFile (h : env.expired fileTime = true ∨ scansAll env (st.files fileTime) = true) (e : StoreEntry) :
    e.stops env (st.removeFile fileTime) = e.stops env st := by
  obtain ⟨name, opens, removes⟩ := e
  cases name with
  | bucket t =>
    by_cases ht : t = fileTime
    · subst ht
      rcases h with h | h <;> simp [StoreEntry.stops, SmsgState.removeFile, h, scansAll_nil]
    · simp [StoreEntry.stops, SmsgState.removeFile, Function.update_of_ne ht]
  | _ => rfl

/-- A turn goes on exactly at the entries that do not stop it. -/
theorem scanEntry_snd : (scanEntry env st e).2 = !e.stops env st := by
  obtain ⟨name, opens, removes⟩ := e
  cases name with
  | bucket t => cases hexp : env.expired t <;> cases opens <;> cases hall : scansAll env (st.files t) <;> cases removes <;>
      simp [scanEntry, StoreEntry.stops, hexp, hall]
  | dated t contents => cases hexp : env.expired t <;> cases opens <;> simp [scanEntry, StoreEntry.stops, hexp]
  | _ => rfl

/-- What a turn that goes on does to the store: it removes at most one file, which has expired or has been scanned. -/
theorem scanEntry_fst (h : e.stops env st = false) :
    ((scanEntry env st e).1 = st ∧ ∀ t, e.name = .bucket t → env.expired t = false → e.opens = false) ∨
    ∃ t, e.name = .bucket t ∧ (scanEntry env st e).1 = st.removeFile t ∧
      (env.expired t = true ∨ scansAll env (st.files t) = true ∧ e.opens = true) := by
  obtain ⟨name, opens, removes⟩ := e
  cases name with
  | bucket t =>
    cases hexp : env.expired t with
    | true =>
      cases removes with
      | true => exact .inr ⟨t, rfl, by simp [scanEntry, hexp], .inl hexp⟩
      | false =>
        refine .inl ⟨by simp [scanEntry, hexp], fun t' ht' hlive => ?_⟩
        cases ht'
        rw [hexp] at hlive
        cases hlive
    | false =>
      cases opens with
      | false => exact .inl ⟨by simp [scanEntry, hexp], fun _ _ _ => rfl⟩
      | true =>
        simp only [StoreEntry.stops, hexp, Bool.not_false, Bool.true_and, Bool.not_eq_false', Bool.and_eq_true] at h
        exact .inr ⟨t, rfl, by simp [scanEntry, hexp, h.1, h.2], .inr ⟨h.1, rfl⟩⟩
  | malformed => cases h
  | other => exact .inl ⟨rfl, fun t ht => by cases ht⟩
  | locked t => exact .inl ⟨rfl, fun t ht => by cases ht⟩
  | dated t contents =>
    refine .inl ⟨?_, fun t ht => by cases ht⟩
    cases hskip : env.expired t || !opens <;> simp [scanEntry, hskip]

/-- A turn that stops the loop removes nothing. -/
theorem scanEntry_of_stops (h : e.stops env st = true) : scanEntry env st e = (st, false) := by
  obtain ⟨name, opens, removes⟩ := e
  cases name with
  | bucket t =>
    simp only [StoreEntry.stops, Bool.and_eq_true, Bool.not_eq_true', Bool.and_eq_false_iff] at h
    obtain ⟨⟨hexp, rfl⟩, hall | rfl⟩ := h <;> simp [scanEntry, *]
  | dated t contents =>
    simp only [StoreEntry.stops, Bool.and_eq_true, Bool.not_eq_true', Bool.and_eq_false_iff] at h
    obtain ⟨⟨hexp, rfl⟩, hall | rfl⟩ := h <;> simp [scanEntry, *]
  | malformed => rfl
  | other => cases h
  | locked t => cases h

theorem leftClosed_of_stops (h : e.stops env st = true) : LeftClosed env st fileTime (e :: entries) := by
  rw [LeftClosed, List.takeWhile_cons_of_neg (by simp [h])]
  simp

theorem leftClosed_cons (h : e.stops env st = false) : LeftClosed env st fileTime (e :: entries) ↔
    (e.name = .bucket fileTime → e.opens = false) ∧ LeftClosed env st fileTime entries := by
  rw [LeftClosed, List.takeWhile_cons_of_pos (by simp [h]), List.forall_mem_cons]
  rfl

/-- **The file of a bucket that has not expired, after the loop**: it is removed if an entry for it was opened. -/
theorem files_scanLoop (hlive : env.expired fileTime = false) :
    (LeftClosed env st fileTime entries → (scanLoop env entries st).files fileTime = st.files fileTime) ∧
    (st.files fileTime = [] ∨ ¬LeftClosed env st fileTime entries →
      (scanLoop env entries st).files fileTime = []) := by
  induction entries generalizing st with
  | nil => exact ⟨fun _ => rfl, fun h => h.resolve_right fun hnot => hnot (by simp [LeftClosed])⟩
  | cons e entries ih =>
    rw [scanLoop]
    cases hstops : e.stops env st with
    | true =>
      rw [scanEntry_of_stops hstops]
      exact ⟨fun _ => rfl, fun h => h.resolve_right fun hnot => hnot (leftClosed_of_stops hstops)⟩
    | false =>
      have hgo : scanEntry env st e = ((scanEntry env st e).1, true) := Prod.ext rfl (by rw [scanEntry_snd, hstops]; rfl)
      rw [hgo, leftClosed_cons hstops]
      simp only
      rcases scanEntry_fst hstops with ⟨hsame, hclosed⟩ | ⟨t, hname, hremoved, hwhy⟩
      · rw [hsame]
        refine ⟨fun h => ih.1 h.2, fun h => ih.2 (h.imp_right fun hnot hrest => hnot ⟨fun hname => ?_, hrest⟩)⟩
        exact hclosed fileTime hname hlive
      · have hrest : LeftClosed env (st.removeFile t) fileTime entries ↔ LeftClosed env st fileTime entries := by
          simp only [LeftClosed, stops_removeFile (hwhy.imp_right And.left)]
        rw [hremoved, ← hrest]
        by_cases ht : fileTime = t
        · subst ht
          have hopens : e.opens = true := by
            rcases hwhy with hexp | ⟨-, hopens⟩
            · rw [hlive] at hexp
              cases hexp
            · exact hopens
          refine ⟨fun h => ?_, fun _ => ih.2 (.inl (Function.update_self ..))⟩
          rw [h.1 hname] at hopens
          cases hopens
        · have hfile : (st.removeFile t).files fileTime = st.files fileTime := Function.update_of_ne ht ..
          have hhead : e.name = .bucket fileTime → e.opens = false := fun hname' => by
            rw [hname] at hname'
            cases hname'
            exact absurd rfl ht
          rw [← hfile]
          exact ⟨fun h => ih.1 h.2, fun h => ih.2 (h.imp_right fun hnot hrest => hnot ⟨hhead, hrest⟩)⟩

theorem retrieve_of_files {st' : SmsgState} {token : SecMsgToken}
    (h : st'.files token.fileTime = st.files token.fileTime) :
    secureMsgRetrieve st' token = secureMsgRetrieve st token := by
  simp only [secureMsgRetrieve, SecMsgToken.fileTime] at h ⊢
  rw [h]

theorem retrieve_of_removed {token : SecMsgToken} (h : st.files token.fileTime = []) :
    secureMsgRetrieve st token = none := by
  simp only [secureMsgRetrieve, SecMsgToken.fileTime] at h ⊢
  rw [h]
  simp [messageAt, SMSG_HDR_LEN]

/-- The file of a token that has not expired, after the scan. -/
theorem files_secureMsgScanBuckets {token : SecMsgToken} (hlive : env.expired token.fileTime = false) :
    (Spared env st token.fileTime →
      (secureMsgScanBuckets env st).files token.fileTime = st.files token.fileTime) ∧
    (¬Spared env st token.fileTime → (secureMsgScanBuckets env st).files token.fileTime = []) := by
  rw [secureMsgScanBuckets, Spared]
  cases hruns : env.runs with
  | false => simp
  | true =>
    simp only [forall_const, if_true]
    exact ⟨(files_scanLoop hlive).1, fun hnot => (files_scanLoop hlive).2 (.inr hnot)⟩

/-- **When a scan loses no message.** Exactly when it spares the files of the messages that have not expired: it does not
run, it cannot open the file, or it has stopped by then. -/
theorem scan_keeps_iff (env : ScanEnv) (st : SmsgState) : KeepsMessages env st ↔
    ∀ token, st.Live env token → (secureMsgRetrieve st token).isSome → Spared env st token.fileTime := by
  constructor
  · intro hkeeps token hlive hsome
    obtain ⟨vchData, hretrieve⟩ := Option.isSome_iff_exists.1 hsome
    by_contra hnot
    have hafter := hkeeps token hlive vchData hretrieve
    rw [retrieve_of_removed ((files_secureMsgScanBuckets hlive.2).2 hnot)] at hafter
    cases hafter
  · intro hspared token hlive vchData hretrieve
    have hfile := (files_secureMsgScanBuckets hlive.2).1 (hspared token hlive (by rw [hretrieve]; rfl))
    rw [retrieve_of_files hfile, hretrieve]

end Keeps

namespace ScanSample

/-- A message of eight bytes. -/
def message : SecureMessage where
  header := List.replicate 7 0 ++ [128, 242, 49, 91, 0, 0, 0, 0] ++ List.replicate 85 0 ++ [8, 0, 0, 0]
  payload := [1, 2, 3, 4, 5, 6, 7, 8]

/-- A store with this message. -/
def store : SmsgState where
  smsgBuckets t := if t = 1530000000 then some { setTokens := [message.token] } else none
  files t := if t = 1530000000 then message.header ++ message.payload else []

/-- An unlocked wallet, a minute later. -/
def env : ScanEnv := ⟨true, false, true, 1530000060, fun _ => true, [⟨.bucket 1530000000, true, true⟩]⟩

/-- **The scan loses the message.** -/
theorem scan_loses : ¬KeepsMessages env store := by
  intro hkeeps
  have hlive : store.Live env message.token :=
    ⟨⟨1530000000, { setTokens := [message.token] }, by decide, by decide⟩, by decide⟩
  have hbefore : secureMsgRetrieve store message.token = some (message.header ++ message.payload) := by decide
  have hafter : secureMsgRetrieve (secureMsgScanBuckets env store) message.token = none := by decide
  have hkept := hkeeps message.token hlive _ hbefore
  rw [hafter] at hkept
  cases hkept

end ScanSample

end PayDayCoin
