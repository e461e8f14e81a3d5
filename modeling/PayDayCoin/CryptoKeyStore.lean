import PayDayCoin.Library.Runs
import PayDayCoin.Library.SortedMaps
import PayDayCoin.SmsgCrypt

/-!
# The encrypted key store

`CCryptoKeyStore` keeps secrets as they are until it is encrypted, and from then on encrypted under the wallet's master
key. A locked store can still take public keys whose secret is to be found later: `FindStealthTransactions` stores them
with an empty secret. `Unlock` tries a master key on the first entry of `mapCryptedKeys` only, in the order of the key
ids, and takes any key when there is no entry.

**`sealed_iff`**: the master key, and no other, unlocks the store and gives back all secrets, as long as the store is
not encrypted before it has a key, and an entry without a secret does not come first or take the place of one that has
one; and not any longer. `GetPubKey` is taken to give a key for any 32 bytes.
-/

namespace PayDayCoin

open Library.Runs Library.SortedMaps

/-- `CKey`: a secret of 32 bytes, and whether its public key is compressed. -/
structure SecretKey where
  vch : List UInt8
  fCompressed : Bool
  size_eq : vch.length = 32
deriving DecidableEq

/-- The curve, the hashes of public keys, and the cipher of secrets. -/
class SecretScheme where
  getPubKey : SecretKey → CPubKey
  getID : CPubKey → CKeyID
  getHash : CPubKey → Uint256
  /-- `CCrypter::Encrypt` under a key of 32 bytes, with an initial vector. -/
  encrypt : List UInt8 → Uint256 → List UInt8 → List UInt8
  decrypt : List UInt8 → Uint256 → List UInt8 → Option (List UInt8)

def WALLET_CRYPTO_KEY_SIZE : ℕ := 32

/-- Key ids are compared as numbers. -/
def CKeyID.number (id : CKeyID) : ℕ := ofBytes id.pn

/-- `CCryptoKeyStore`: the maps by key ids. -/
structure KeyStore where
  fUseCrypto : Bool := false
  mapKeys : List (ℕ × SecretKey) := []
  mapCryptedKeys : List (ℕ × CPubKey × List UInt8) := []
  /-- Empty when the store is locked. -/
  vMasterKey : List UInt8 := []

section KeyStore

variable [SecretScheme]

/-- Where the entry of a public key is. -/
def CPubKey.keyID (key : CPubKey) : ℕ := (SecretScheme.getID key).number

/-- `EncryptSecret`. -/
def encryptSecret (vMasterKey vchPlaintext : List UInt8) (nIV : Uint256) : Option (List UInt8) :=
  if vMasterKey.length = WALLET_CRYPTO_KEY_SIZE then some (SecretScheme.encrypt vMasterKey nIV vchPlaintext) else none

/-- `DecryptSecret`. -/
def decryptSecret (vMasterKey vchCiphertext : List UInt8) (nIV : Uint256) : Option (List UInt8) :=
  if vMasterKey.length = WALLET_CRYPTO_KEY_SIZE then SecretScheme.decrypt vMasterKey nIV vchCiphertext else none

/-- The key that an entry gives under a master key: the secret must be of 32 bytes. -/
def secretOf (vMasterKey : List UInt8) (entry : CPubKey × List UInt8) : Option SecretKey :=
  (decryptSecret vMasterKey entry.2 (SecretScheme.getHash entry.1)).bind fun vchSecret =>
    if h : vchSecret.length = 32 then some ⟨vchSecret, entry.1.isCompressed, h⟩ else none

/-- The test of `Unlock`: the entry gives the key that its public key is of. -/
def opens (vMasterKey : List UInt8) (entry : CPubKey × List UInt8) : Bool :=
  match secretOf vMasterKey entry with
  | none => false
  | some key => SecretScheme.getPubKey key == entry.1

namespace KeyStore

/-- `IsLocked`. -/
def isLocked (s : KeyStore) : Bool := s.fUseCrypto && s.vMasterKey.isEmpty

/-- `SetCrypted`. -/
def setCrypted (s : KeyStore) : Option KeyStore :=
  if s.fUseCrypto then some s
  else if s.mapKeys.isEmpty then some { s with fUseCrypto := true }
  else none

/-- `LockKeyStore`. -/
def lockKeyStore (s : KeyStore) : Bool × KeyStore :=
  match s.setCrypted with
  | none => (false, s)
  | some s => (true, { s with vMasterKey := [] })

/-- `Unlock`. -/
def unlock (s : KeyStore) (vMasterKeyIn : List UInt8) : Bool × KeyStore :=
  match s.setCrypted with
  | none => (false, s)
  | some s =>
    if s.mapCryptedKeys.head?.all fun entry => opens vMasterKeyIn entry.2 then
      (true, { s with vMasterKey := vMasterKeyIn })
    else (false, s)

/-- `AddCryptedKey`. -/
def addCryptedKey (s : KeyStore) (vchPubKey : CPubKey) (vchCryptedSecret : List UInt8) : Bool × KeyStore :=
  match s.setCrypted with
  | none => (false, s)
  | some s =>
    (true, { s with mapCryptedKeys := set s.mapCryptedKeys vchPubKey.keyID (vchPubKey, vchCryptedSecret) })

/-- `AddKeyPubKey`, with the key's own public key. -/
def addKeyPubKey (s : KeyStore) (key : SecretKey) : Bool × KeyStore :=
  let pubkey := SecretScheme.getPubKey key
  if !s.fUseCrypto then (true, { s with mapKeys := set s.mapKeys pubkey.keyID key })
  else if s.isLocked then (false, s)
  else
    match encryptSecret s.vMasterKey key.vch (SecretScheme.getHash pubkey) with
    | none => (false, s)
    | some vchCryptedSecret => s.addCryptedKey pubkey vchCryptedSecret

/-- `GetKey`. -/
def getKey (s : KeyStore) (address : ℕ) : Option SecretKey :=
  if !s.fUseCrypto then get? s.mapKeys address
  else (get? s.mapCryptedKeys address).bind fun entry => secretOf s.vMasterKey entry

/-- `HaveKey`. -/
def haveKey (s : KeyStore) (address : ℕ) : Bool :=
  if !s.fUseCrypto then (get? s.mapKeys address).isSome else (get? s.mapCryptedKeys address).isSome

/-- The loop of `EncryptKeys`. -/
def encryptLoop (vMasterKeyIn : List UInt8) : List (ℕ × SecretKey) → KeyStore → Bool × KeyStore
  | [], s => (true, s)
  | (_, key) :: mapKeys, s =>
    let vchPubKey := SecretScheme.getPubKey key
    match encryptSecret vMasterKeyIn key.vch (SecretScheme.getHash vchPubKey) with
    | none => (false, s)
    | some vchCryptedSecret =>
      match s.addCryptedKey vchPubKey vchCryptedSecret with
      | (false, s) => (false, s)
      | (true, s) => encryptLoop vMasterKeyIn mapKeys s

/-- `EncryptKeys`. -/
def encryptKeys (s : KeyStore) (vMasterKeyIn : List UInt8) : Bool × KeyStore :=
  if !s.mapCryptedKeys.isEmpty || s.fUseCrypto then (false, s)
  else
    match encryptLoop vMasterKeyIn s.mapKeys { s with fUseCrypto := true } with
    | (false, s) => (false, s)
    | (true, s) => (true, { s with mapKeys := [] })

/-- What `FindStealthTransactions` does in a locked wallet with the key of an output that it does not have. -/
def addLockedStealthKey (s : KeyStore) (cpkE : CPubKey) : KeyStore :=
  if !s.haveKey cpkE.keyID && s.isLocked then (s.addCryptedKey cpkE []).2 else s

end KeyStore

/-! ### Histories -/

/-- A call. -/
inductive KeyStoreCall where
  | encryptKeys
  | addKeyPubKey (key : SecretKey)
  | addCryptedKey (vchPubKey : CPubKey) (vchCryptedSecret : List UInt8)
  | addLockedStealthKey (cpkE : CPubKey)
  | lock
  | unlock (vMasterKeyIn : List UInt8)

/-- A key store, and the secrets that were stored in it, by key ids. -/
structure KeyHistory extends KeyStore where
  stored : ℕ → Option SecretKey := fun _ => none

/-- The secrets with one more. -/
def KeyHistory.record (stored : ℕ → Option SecretKey) (address : ℕ) (key : SecretKey) : ℕ → Option SecretKey :=
  Function.update stored address (some key)

variable (master : List UInt8)

/-- A call of the history of a wallet with a master key. The secret of an entry that the master key opens is stored. -/
def KeyHistory.step (h : KeyHistory) : KeyStoreCall → KeyHistory
  | .encryptKeys => { h with toKeyStore := (h.toKeyStore.encryptKeys master).2 }
  | .addKeyPubKey key =>
    let (fAdded, s) := h.toKeyStore.addKeyPubKey key
    { toKeyStore := s
      stored := if fAdded then KeyHistory.record h.stored (SecretScheme.getPubKey key).keyID key else h.stored }
  | .addCryptedKey vchPubKey vchCryptedSecret =>
    let (fAdded, s) := h.toKeyStore.addCryptedKey vchPubKey vchCryptedSecret
    { toKeyStore := s
      stored := match secretOf master (vchPubKey, vchCryptedSecret) with
        | none => h.stored
        | some key =>
          if fAdded && SecretScheme.getPubKey key == vchPubKey then KeyHistory.record h.stored vchPubKey.keyID key
          else h.stored }
  | .addLockedStealthKey cpkE => { h with toKeyStore := h.toKeyStore.addLockedStealthKey cpkE }
  | .lock => { h with toKeyStore := h.toKeyStore.lockKeyStore.2 }
  | .unlock vMasterKeyIn => { h with toKeyStore := (h.toKeyStore.unlock vMasterKeyIn).2 }

/-- Once the store is encrypted, no secret is left as it is; the master key unlocks it and gives back what was stored;
and any other key fails and changes nothing. -/
structure KeyHistory.Sealed (h : KeyHistory) : Prop where
  mapKeys : h.fUseCrypto = true → h.mapKeys = []
  unlock_master : h.fUseCrypto = true → (h.toKeyStore.unlock master).1 = true
  recoverable : h.fUseCrypto = true → ∀ address key, h.stored address = some key →
    (h.toKeyStore.unlock master).2.getKey address = some key
  unlock_other : h.fUseCrypto = true → ∀ vMasterKeyIn, vMasterKeyIn ≠ master →
    h.toKeyStore.unlock vMasterKeyIn = (false, h.toKeyStore)

/-- An entry can be added to the history of a wallet: the store is not encrypted, and takes none; or the master key
opens it; or it comes after the first entry and does not lose a secret. -/
def KeyHistory.Admits (h : KeyHistory) (entry : CPubKey × List UInt8) : Prop :=
  (h.fUseCrypto = false ∧ h.mapKeys ≠ []) ∨ opens master entry = true ∨
    ∃ k first, h.mapCryptedKeys.head? = some (k, first) ∧ k < entry.1.keyID ∧
      ∀ key, h.stored entry.1.keyID = some key → secretOf master entry = some key

/-- What keeps a history sealed. -/
def KeyHistory.Clean (h : KeyHistory) : KeyStoreCall → Prop
  | .encryptKeys | .lock | .unlock _ => h.fUseCrypto = true ∨ h.mapKeys ≠ []
  | .addKeyPubKey _ => True
  | .addCryptedKey vchPubKey vchCryptedSecret => h.Admits master (vchPubKey, vchCryptedSecret)
  | .addLockedStealthKey cpkE =>
    h.toKeyStore.haveKey cpkE.keyID = true ∨ h.toKeyStore.isLocked = false ∨ h.Admits master (cpkE, [])

/-! ### Entries -/

/-- The laws of the curve and the cipher: what is encrypted can be decrypted, with no other key, and a public key is
compressed when its secret says so. -/
structure LawfulKeys : Prop where
  decrypt_encrypt : ∀ k iv s, k.length = WALLET_CRYPTO_KEY_SIZE →
    SecretScheme.decrypt k iv (SecretScheme.encrypt k iv s) = some s
  rejects : ∀ k k' iv c s, k.length = WALLET_CRYPTO_KEY_SIZE → k'.length = WALLET_CRYPTO_KEY_SIZE → k' ≠ k →
    SecretScheme.decrypt k iv c = some s → SecretScheme.decrypt k' iv c = none
  isCompressed : ∀ key, (SecretScheme.getPubKey key).isCompressed = key.fCompressed

variable {master}

theorem opens_iff {entry : CPubKey × List UInt8} :
    opens master entry = true ↔ ∃ key, secretOf master entry = some key ∧ SecretScheme.getPubKey key = entry.1 := by
  rw [opens]
  cases secretOf master entry <;> simp

theorem secretOf_encryptSecret (hlaw : LawfulKeys) (hmaster : master.length = WALLET_CRYPTO_KEY_SIZE) (key : SecretKey) :
    ∃ c, encryptSecret master key.vch (SecretScheme.getHash (SecretScheme.getPubKey key)) = some c ∧
      secretOf master (SecretScheme.getPubKey key, c) = some key := by
  refine ⟨_, if_pos hmaster, ?_⟩
  rw [secretOf, decryptSecret, if_pos hmaster, hlaw.decrypt_encrypt _ _ _ hmaster, Option.bind_some, dif_pos key.size_eq]
  simp only [hlaw.isCompressed]

theorem secretOf_other (hlaw : LawfulKeys) {entry : CPubKey × List UInt8} {key : SecretKey}
    (h : secretOf master entry = some key) {k : List UInt8} (hk : k ≠ master) : secretOf k entry = none := by
  simp only [secretOf, decryptSecret, Option.bind_eq_some_iff] at h
  obtain ⟨s, hdecrypt, -⟩ := h
  split at hdecrypt
  · next hmaster =>
    rw [secretOf, decryptSecret]
    split
    · next hlen => rw [hlaw.rejects _ _ _ _ _ hmaster hlen hk hdecrypt, Option.bind_none]
    · rfl
  · cases hdecrypt

variable (master) in
/-- The master key opens the first entry. -/
def FirstOpens (mapCryptedKeys : List (ℕ × CPubKey × List UInt8)) : Prop :=
  ∃ k entry, mapCryptedKeys.head? = some (k, entry) ∧ opens master entry = true

theorem FirstOpens.set {mapCryptedKeys : List (ℕ × CPubKey × List UInt8)}
    (h : mapCryptedKeys = [] ∨ FirstOpens master mapCryptedKeys) (k : ℕ) {entry : CPubKey × List UInt8}
    (hopens : opens master entry = true) : FirstOpens master (set mapCryptedKeys k entry) := by
  by_cases hlt : ∃ k' entry', mapCryptedKeys.head? = some (k', entry') ∧ k' < k
  · obtain ⟨k', entry', hhead, hlt⟩ := hlt
    obtain rfl | ⟨k'', entry'', hhead', hopens'⟩ := h
    · cases hhead
    · rw [hhead'] at hhead
      obtain ⟨rfl, rfl⟩ := Prod.mk.inj (Option.some.inj hhead)
      exact ⟨k'', entry'', head?_set_of_lt hhead' hlt, hopens'⟩
  · exact ⟨k, entry, head?_set_of_not_lt fun k' a' hhead hlt' => hlt ⟨k', a', hhead, hlt'⟩, hopens⟩

/-! ### The calls -/

namespace KeyStore

omit [SecretScheme] in
theorem setCrypted_of_crypted {s : KeyStore} (h : s.fUseCrypto = true) : s.setCrypted = some s := by
  rw [setCrypted, if_pos h]

theorem addCryptedKey_of_crypted {s : KeyStore} (h : s.fUseCrypto = true) (vchPubKey : CPubKey)
    (vchCryptedSecret : List UInt8) : s.addCryptedKey vchPubKey vchCryptedSecret =
      (true, { s with mapCryptedKeys := set s.mapCryptedKeys vchPubKey.keyID (vchPubKey, vchCryptedSecret) }) := by
  simp only [addCryptedKey, setCrypted_of_crypted h]

omit [SecretScheme] in
theorem lockKeyStore_of_crypted {s : KeyStore} (h : s.fUseCrypto = true) :
    s.lockKeyStore = (true, { s with vMasterKey := [] }) := by
  simp only [lockKeyStore, setCrypted_of_crypted h]

/-- Unlocking rests on the first entry. -/
theorem unlock_of_head? {s : KeyStore} (h : s.fUseCrypto = true) {k : ℕ} {entry : CPubKey × List UInt8}
    (hhead : s.mapCryptedKeys.head? = some (k, entry)) (vMasterKeyIn : List UInt8) : s.unlock vMasterKeyIn =
      if opens vMasterKeyIn entry then (true, { s with vMasterKey := vMasterKeyIn }) else (false, s) := by
  simp only [unlock, setCrypted_of_crypted h, hhead, Option.all_some]

/-- Without an entry, any key unlocks. -/
theorem unlock_of_nil {s : KeyStore} (h : s.fUseCrypto = true) (hnil : s.mapCryptedKeys = [])
    (vMasterKeyIn : List UInt8) : (s.unlock vMasterKeyIn).1 = true := by
  simp only [unlock, setCrypted_of_crypted h, hnil, List.head?_nil, Option.all_none, if_true]

/-- The loop of `EncryptKeys` makes an entry of each key. -/
theorem encryptLoop_spec (hlaw : LawfulKeys) (hmaster : master.length = WALLET_CRYPTO_KEY_SIZE)
    {mapKeys : List (ℕ × SecretKey)} : ∀ {s : KeyStore}, s.fUseCrypto = true → Sorted mapKeys →
      (∀ e ∈ mapKeys, e.1 = (SecretScheme.getPubKey e.2).keyID) →
      (mapKeys ≠ [] ∧ s.mapCryptedKeys = [] ∨ FirstOpens master s.mapCryptedKeys) →
      ∃ mapCryptedKeys, encryptLoop master mapKeys s = (true, { s with mapCryptedKeys }) ∧
        FirstOpens master mapCryptedKeys ∧
        (∀ a, (∀ e ∈ mapKeys, e.1 ≠ a) → get? mapCryptedKeys a = get? s.mapCryptedKeys a) ∧
        ∀ e ∈ mapKeys, ∃ entry, get? mapCryptedKeys e.1 = some entry ∧ secretOf master entry = some e.2 := by
  induction mapKeys with
  | nil =>
    intro s _ _ _ hfirst
    refine ⟨s.mapCryptedKeys, rfl, hfirst.resolve_left fun h => h.1 rfl, fun _ _ => rfl, fun e he => ?_⟩
    exact absurd he List.not_mem_nil
  | cons e mapKeys ih =>
    obtain ⟨address, key⟩ := e
    intro s hs hsorted hids hfirst
    obtain ⟨hbefore, hsorted⟩ := List.pairwise_cons.1 hsorted
    have hid : address = (SecretScheme.getPubKey key).keyID := hids _ List.mem_cons_self
    obtain ⟨c, hc, hsecret⟩ := secretOf_encryptSecret hlaw hmaster key
    have hopens : opens master (SecretScheme.getPubKey key, c) = true := opens_iff.2 ⟨key, hsecret, rfl⟩
    obtain ⟨m, hloop, hopen, hsame, hall⟩ := @ih (s.addCryptedKey (SecretScheme.getPubKey key) c).2
      (by rw [addCryptedKey_of_crypted hs]; exact hs) hsorted (fun e he => hids e (List.mem_cons_of_mem _ he))
      (by rw [addCryptedKey_of_crypted hs]; exact .inr (FirstOpens.set (hfirst.imp_left And.right) _ hopens))
    rw [addCryptedKey_of_crypted hs] at hloop hsame
    refine ⟨m, ?_, hopen, fun a ha => ?_, fun e he => ?_⟩
    · simp only [encryptLoop, hc, addCryptedKey_of_crypted hs]
      exact hloop
    · rw [hsame a fun e he => ha e (List.mem_cons_of_mem _ he), get?_set,
        if_neg (hid ▸ ha _ List.mem_cons_self)]
    · rcases List.mem_cons.1 he with rfl | he
      · refine ⟨(SecretScheme.getPubKey key, c), ?_, hsecret⟩
        rw [hsame address fun e he => (ne_of_lt (hbefore e he)).symm, get?_set, if_pos hid.symm]
      · exact hall e he

end KeyStore

/-! ### Histories stay sealed -/

namespace KeyHistory

variable (master) in
/-- The invariant of histories. -/
structure Inv (h : KeyHistory) : Prop where
  /-- A store that is not encrypted keeps all secrets as they are. -/
  plain : h.fUseCrypto = false → h.mapCryptedKeys = [] ∧ h.vMasterKey = [] ∧ Sorted h.mapKeys ∧
    (∀ e ∈ h.mapKeys, e.1 = (SecretScheme.getPubKey e.2).keyID) ∧ ∀ a, h.stored a = get? h.mapKeys a
  mapKeys : h.fUseCrypto = true → h.mapKeys = []
  first : h.fUseCrypto = true → FirstOpens master h.mapCryptedKeys
  secrets : h.fUseCrypto = true → ∀ a key, h.stored a = some key →
    ∃ entry, get? h.mapCryptedKeys a = some entry ∧ secretOf master entry = some key
  vMasterKey : h.fUseCrypto = true → h.vMasterKey = [] ∨ h.vMasterKey = master

theorem Inv.sealed (hlaw : LawfulKeys) {h : KeyHistory} (hinv : h.Inv master) : h.Sealed master where
  mapKeys := hinv.mapKeys
  unlock_master hcrypted := by
    obtain ⟨k, entry, hhead, hopens⟩ := hinv.first hcrypted
    rw [KeyStore.unlock_of_head? hcrypted hhead, if_pos hopens]
  recoverable hcrypted a key hstored := by
    obtain ⟨k, entry, hhead, hopens⟩ := hinv.first hcrypted
    obtain ⟨entry', hget, hsecret⟩ := hinv.secrets hcrypted a key hstored
    rw [KeyStore.unlock_of_head? hcrypted hhead, if_pos hopens]
    simp only [KeyStore.getKey, hcrypted, Bool.not_true, Bool.false_eq_true, if_false, hget, Option.bind_some, hsecret]
  unlock_other hcrypted k hk := by
    obtain ⟨k', entry, hhead, hopens⟩ := hinv.first hcrypted
    obtain ⟨key, hsecret, -⟩ := opens_iff.1 hopens
    rw [KeyStore.unlock_of_head? hcrypted hhead, opens, secretOf_other hlaw hsecret hk]
    rfl

/-- An encrypted store whose entries changed keeps the invariant when the first still opens and no secret is lost. -/
theorem Inv.of_entries {h : KeyHistory} (hinv : h.Inv master) (hcrypted : h.fUseCrypto = true)
    {mapCryptedKeys : List (ℕ × CPubKey × List UInt8)} {stored : ℕ → Option SecretKey}
    (hfirst : FirstOpens master mapCryptedKeys)
    (hsecrets : ∀ a key, stored a = some key →
      ∃ entry, get? mapCryptedKeys a = some entry ∧ secretOf master entry = some key) :
    Inv master { toKeyStore := { h.toKeyStore with mapCryptedKeys }, stored } where
  plain hplain := by
    have hfalse : h.fUseCrypto = false := hplain
    rw [hcrypted] at hfalse
    cases hfalse
  mapKeys := hinv.mapKeys
  first _ := hfirst
  secrets _ := hsecrets
  vMasterKey := hinv.vMasterKey

/-- An entry that the master key opens, with its secret recorded. -/
theorem Inv.set_opens {h : KeyHistory} (hinv : h.Inv master) (hcrypted : h.fUseCrypto = true)
    {entry : CPubKey × List UInt8} {key : SecretKey} (hsecret : secretOf master entry = some key)
    (hkey : SecretScheme.getPubKey key = entry.1) :
    Inv master { toKeyStore := { h.toKeyStore with mapCryptedKeys := set h.mapCryptedKeys entry.1.keyID entry }
                 stored := record h.stored entry.1.keyID key } := by
  refine hinv.of_entries hcrypted (FirstOpens.set (.inr (hinv.first hcrypted)) _ (opens_iff.2 ⟨key, hsecret, hkey⟩)) ?_
  intro a key' hstored
  rw [get?_set]
  by_cases ha : entry.1.keyID = a
  · subst ha
    rw [record, Function.update_self] at hstored
    rw [if_pos rfl]
    exact ⟨entry, rfl, by rw [hsecret, hstored]⟩
  · rw [record, Function.update_of_ne (Ne.symm ha)] at hstored
    rw [if_neg ha]
    exact hinv.secrets hcrypted a key' hstored

/-- An entry that comes after the first and loses no secret. -/
theorem Inv.set_after {h : KeyHistory} (hinv : h.Inv master) (hcrypted : h.fUseCrypto = true)
    (entry : CPubKey × List UInt8) (hfirst : FirstOpens master (set h.mapCryptedKeys entry.1.keyID entry))
    (hloses : ∀ key, h.stored entry.1.keyID = some key → secretOf master entry = some key) :
    Inv master { toKeyStore := { h.toKeyStore with mapCryptedKeys := set h.mapCryptedKeys entry.1.keyID entry }
                 stored := h.stored } := by
  refine hinv.of_entries hcrypted hfirst fun a key hstored => ?_
  rw [get?_set]
  by_cases ha : entry.1.keyID = a
  · subst ha
    rw [if_pos rfl]
    exact ⟨entry, rfl, hloses key hstored⟩
  · rw [if_neg ha]
    exact hinv.secrets hcrypted a key hstored

theorem Inv.firstOpens_set {h : KeyHistory} (hinv : h.Inv master) (hcrypted : h.fUseCrypto = true) {k : ℕ}
    {first : CPubKey × List UInt8} (hhead : h.mapCryptedKeys.head? = some (k, first)) {entry : CPubKey × List UInt8}
    (hlt : k < entry.1.keyID) : FirstOpens master (set h.mapCryptedKeys entry.1.keyID entry) := by
  obtain ⟨k', first', hhead', hopens⟩ := hinv.first hcrypted
  rw [hhead'] at hhead
  obtain ⟨rfl, rfl⟩ := Prod.mk.inj (Option.some.inj hhead)
  exact ⟨k', first', head?_set_of_lt hhead' hlt, hopens⟩

/-- A store that turned into an encrypted one without keys, with an entry that the master key opens. -/
theorem Inv.of_empty {h : KeyHistory} (hinv : h.Inv master) (hplain : h.fUseCrypto = false) (hempty : h.mapKeys = [])
    {entry : CPubKey × List UInt8} {key : SecretKey} (hsecret : secretOf master entry = some key)
    (hkey : SecretScheme.getPubKey key = entry.1) :
    Inv master { toKeyStore := { h.toKeyStore with
                   fUseCrypto := true, mapCryptedKeys := set h.mapCryptedKeys entry.1.keyID entry }
                 stored := record h.stored entry.1.keyID key } where
  plain hfalse := by cases hfalse
  mapKeys _ := hempty
  first _ := FirstOpens.set (.inl (hinv.plain hplain).1) _ (opens_iff.2 ⟨key, hsecret, hkey⟩)
  secrets _ a key' hstored := by
    have hrecord : record h.stored entry.1.keyID key a = some key' := hstored
    by_cases ha : entry.1.keyID = a
    · subst ha
      rw [record, Function.update_self] at hrecord
      refine ⟨entry, ?_, hsecret.trans hrecord⟩
      change get? (set h.mapCryptedKeys _ entry) _ = _
      rw [get?_set, if_pos rfl]
    · rw [record, Function.update_of_ne (Ne.symm ha), (hinv.plain hplain).2.2.2.2, hempty] at hrecord
      cases hrecord
  vMasterKey _ := .inl (hinv.plain hplain).2.1

theorem Inv.encryptKeys (hlaw : LawfulKeys) (hmaster : master.length = WALLET_CRYPTO_KEY_SIZE) {h : KeyHistory}
    (hinv : h.Inv master) (hclean : h.Clean master .encryptKeys) : (h.step master .encryptKeys).Inv master := by
  obtain ⟨⟨fUseCrypto, mapKeys, mapCryptedKeys, vMasterKey⟩, stored⟩ := h
  cases fUseCrypto with
  | true =>
    simp only [step, KeyStore.encryptKeys, Bool.or_true, if_true]
    exact hinv
  | false =>
    obtain ⟨rfl, rfl, hsorted, hids, hstored⟩ := hinv.plain rfl
    have hne : mapKeys ≠ [] := hclean.resolve_left Bool.false_ne_true
    obtain ⟨m, hloop, hopen, -, hall⟩ := KeyStore.encryptLoop_spec hlaw hmaster
      (s := { fUseCrypto := true, mapKeys }) rfl hsorted hids (.inl ⟨hne, rfl⟩)
    simp only [step, KeyStore.encryptKeys, List.isEmpty_nil, Bool.not_true, Bool.or_false, Bool.false_eq_true, if_false,
      hloop]
    refine ⟨fun hfalse => ?_, fun _ => rfl, fun _ => hopen, fun _ a key hkey => ?_, fun _ => .inl rfl⟩
    · cases hfalse
    · exact hall (a, key) (mem_of_get? ((hstored a).symm.trans hkey))

theorem Inv.addKeyPubKey (hlaw : LawfulKeys) (hmaster : master.length = WALLET_CRYPTO_KEY_SIZE) {h : KeyHistory}
    (hinv : h.Inv master) (key : SecretKey) : (h.step master (.addKeyPubKey key)).Inv master := by
  obtain ⟨⟨fUseCrypto, mapKeys, mapCryptedKeys, vMasterKey⟩, stored⟩ := h
  cases fUseCrypto with
  | false =>
    obtain ⟨hnil, hlocked, hsorted, hids, hstored⟩ := hinv.plain rfl
    simp only [step, KeyStore.addKeyPubKey, Bool.not_false, if_true]
    refine ⟨fun _ => ⟨hnil, hlocked, hsorted.set _ _, fun e he => ?_, fun a => ?_⟩, ?_, ?_, ?_, ?_⟩
    · rcases mem_set he with rfl | hold
      · rfl
      · exact hids e hold
    · change record stored _ key a = get? (set mapKeys _ key) a
      rw [get?_set, record]
      by_cases ha : (SecretScheme.getPubKey key).keyID = a
      · rw [← ha, Function.update_self, if_pos rfl]
      · rw [Function.update_of_ne (Ne.symm ha), if_neg ha]
        exact hstored a
    all_goals exact fun hcrypted => absurd hcrypted Bool.false_ne_true
  | true =>
    obtain rfl | rfl : vMasterKey = [] ∨ vMasterKey = master := hinv.vMasterKey rfl
    · exact hinv
    · obtain ⟨c, hc, hsecret⟩ := secretOf_encryptSecret hlaw hmaster key
      have hne : vMasterKey.isEmpty = false := by
        rw [List.isEmpty_eq_false_iff]
        rintro rfl
        cases hmaster
      simp only [step, KeyStore.addKeyPubKey, KeyStore.isLocked, hne, Bool.not_true, Bool.and_false, Bool.false_eq_true,
        if_false, hc, KeyStore.addCryptedKey_of_crypted, if_true]
      exact hinv.set_opens rfl hsecret rfl

theorem Inv.addCryptedKey {h : KeyHistory} (hinv : h.Inv master) {vchPubKey : CPubKey} {vchCryptedSecret : List UInt8}
    (hadmits : h.Admits master (vchPubKey, vchCryptedSecret)) :
    (h.step master (.addCryptedKey vchPubKey vchCryptedSecret)).Inv master := by
  rw [step]
  by_cases hrefused : h.fUseCrypto = false ∧ h.mapKeys ≠ []
  · have hset : h.toKeyStore.setCrypted = none := by
      rw [KeyStore.setCrypted, if_neg (by rw [hrefused.1]; exact Bool.false_ne_true)]
      rw [if_neg (by simpa using hrefused.2)]
    simp only [KeyStore.addCryptedKey, hset, Bool.false_and, Bool.false_eq_true, if_false]
    split <;> exact hinv
  · replace hadmits := hadmits.resolve_left hrefused
    by_cases hopens : opens master (vchPubKey, vchCryptedSecret) = true
    · obtain ⟨key, hsecret, hkey⟩ := opens_iff.1 hopens
      have hkey' : (SecretScheme.getPubKey key == vchPubKey) = true := beq_iff_eq.2 hkey
      cases hcrypted : h.fUseCrypto with
      | true =>
        simp only [KeyStore.addCryptedKey_of_crypted hcrypted, hsecret, hkey', Bool.and_self, if_true]
        exact hinv.set_opens hcrypted hsecret hkey
      | false =>
        have hempty : h.mapKeys = [] := by
          by_contra hne
          exact hrefused ⟨hcrypted, hne⟩
        simp only [KeyStore.addCryptedKey, KeyStore.setCrypted, hcrypted, hempty, List.isEmpty_nil, hsecret, hkey',
          Bool.and_self, if_true, Bool.false_eq_true, if_false]
        have hof := hinv.of_empty hcrypted hempty hsecret hkey
        simp only [hempty] at hof
        exact hof
    · obtain ⟨k, first, hhead, hlt, hloses⟩ := hadmits.resolve_left hopens
      have hcrypted : h.fUseCrypto = true := by
        by_contra hplain
        rw [(hinv.plain (Bool.eq_false_iff.2 hplain)).1] at hhead
        cases hhead
      have hsame : (match secretOf master (vchPubKey, vchCryptedSecret) with
          | none => h.stored
          | some key => if (true && SecretScheme.getPubKey key == vchPubKey) = true then
              record h.stored vchPubKey.keyID key else h.stored) = h.stored := by
        split
        · rfl
        · next key hsecret =>
          rw [if_neg fun hkey => hopens (opens_iff.2 ⟨key, hsecret, by simpa using hkey⟩)]
      simp only [KeyStore.addCryptedKey_of_crypted hcrypted]
      rw [hsame]
      exact hinv.set_after hcrypted _ (hinv.firstOpens_set hcrypted hhead hlt) hloses

theorem Inv.addLockedStealthKey {h : KeyHistory} (hinv : h.Inv master) {cpkE : CPubKey}
    (hclean : h.Clean master (.addLockedStealthKey cpkE)) : (h.step master (.addLockedStealthKey cpkE)).Inv master := by
  rw [step, KeyStore.addLockedStealthKey]
  split
  · next hcond =>
    simp only [Bool.and_eq_true, Bool.not_eq_true'] at hcond
    have hcrypted : h.fUseCrypto = true := by
      have hlocked := hcond.2
      rw [KeyStore.isLocked, Bool.and_eq_true] at hlocked
      exact hlocked.1
    have hnew : h.stored cpkE.keyID = none := by
      rw [Option.eq_none_iff_forall_ne_some]
      intro key hkey
      obtain ⟨entry, hget, -⟩ := hinv.secrets hcrypted _ _ hkey
      have hhave := hcond.1
      simp only [KeyStore.haveKey, hcrypted, Bool.not_true, Bool.false_eq_true, if_false, hget,
        Option.isSome_some] at hhave
      cases hhave
    have hloses : ∀ key, h.stored cpkE.keyID = some key → secretOf master (cpkE, []) = some key := by
      intro key hkey
      rw [hnew] at hkey
      cases hkey
    have hadmits : h.Admits master (cpkE, []) := by
      rcases hclean with hhave | hlocked | hadmits
      · rw [hcond.1] at hhave
        cases hhave
      · rw [hcond.2] at hlocked
        cases hlocked
      · exact hadmits
    rw [KeyStore.addCryptedKey_of_crypted hcrypted]
    rcases hadmits with ⟨hplain, -⟩ | hopens | ⟨k, first, hhead, hlt, -⟩
    · rw [hcrypted] at hplain
      cases hplain
    · exact hinv.set_after hcrypted (cpkE, []) (FirstOpens.set (.inr (hinv.first hcrypted)) _ hopens) hloses
    · exact hinv.set_after hcrypted (cpkE, []) (hinv.firstOpens_set hcrypted hhead hlt) hloses
  · exact hinv

theorem Inv.lock {h : KeyHistory} (hinv : h.Inv master) (hclean : h.Clean master .lock) :
    (h.step master .lock).Inv master := by
  obtain ⟨⟨fUseCrypto, mapKeys, mapCryptedKeys, vMasterKey⟩, stored⟩ := h
  cases fUseCrypto with
  | true => exact ⟨fun hfalse => (by cases hfalse), hinv.mapKeys, hinv.first, hinv.secrets, fun _ => .inl rfl⟩
  | false =>
    have hne : mapKeys.isEmpty = false := List.isEmpty_eq_false_iff.2 (hclean.resolve_left Bool.false_ne_true)
    simp only [step, KeyStore.lockKeyStore, KeyStore.setCrypted, hne, Bool.false_eq_true, if_false]
    exact hinv

theorem Inv.unlock (hlaw : LawfulKeys) {h : KeyHistory} (hinv : h.Inv master) {vMasterKeyIn : List UInt8}
    (hclean : h.Clean master (.unlock vMasterKeyIn)) : (h.step master (.unlock vMasterKeyIn)).Inv master := by
  rw [step]
  by_cases hkey : vMasterKeyIn = master
  · subst hkey
    obtain ⟨⟨fUseCrypto, mapKeys, mapCryptedKeys, vMasterKey⟩, stored⟩ := h
    cases fUseCrypto with
    | true =>
      obtain ⟨k, entry, hhead, hopens⟩ := hinv.first rfl
      rw [KeyStore.unlock_of_head? rfl hhead, if_pos hopens]
      exact ⟨fun hfalse => (by cases hfalse), hinv.mapKeys, hinv.first, hinv.secrets, fun _ => .inr rfl⟩
    | false =>
      have hne : mapKeys.isEmpty = false := List.isEmpty_eq_false_iff.2 (hclean.resolve_left Bool.false_ne_true)
      simp only [KeyStore.unlock, KeyStore.setCrypted, hne, Bool.false_eq_true, if_false]
      exact hinv
  · cases hcrypted : h.fUseCrypto with
    | true =>
      rw [(hinv.sealed hlaw).unlock_other hcrypted _ hkey]
      exact hinv
    | false =>
      have hne : h.mapKeys.isEmpty = false := List.isEmpty_eq_false_iff.2
        (hclean.resolve_left (by rw [hcrypted]; exact Bool.false_ne_true))
      have hrefused : h.toKeyStore.unlock vMasterKeyIn = (false, h.toKeyStore) := by
        simp only [KeyStore.unlock, KeyStore.setCrypted, hcrypted, hne, Bool.false_eq_true, if_false]
      rw [hrefused]
      exact hinv

/-- A clean call keeps the invariant. -/
theorem Inv.step (hlaw : LawfulKeys) (hmaster : master.length = WALLET_CRYPTO_KEY_SIZE) {h : KeyHistory}
    (hinv : h.Inv master) {e : KeyStoreCall} (hclean : h.Clean master e) : (h.step master e).Inv master := by
  cases e with
  | encryptKeys => exact hinv.encryptKeys hlaw hmaster hclean
  | addKeyPubKey key => exact hinv.addKeyPubKey hlaw hmaster key
  | addCryptedKey vchPubKey vchCryptedSecret => exact hinv.addCryptedKey hclean
  | addLockedStealthKey cpkE => exact hinv.addLockedStealthKey hclean
  | lock => exact hinv.lock hclean
  | unlock vMasterKeyIn => exact hinv.unlock hlaw hclean

/-! ### What breaks a seal -/

theorem not_sealed_of_nil (hmaster : master.length = WALLET_CRYPTO_KEY_SIZE) {h : KeyHistory}
    (hcrypted : h.fUseCrypto = true) (hnil : h.mapCryptedKeys = []) : ¬h.Sealed master := by
  intro hsealed
  have hne : ([] : List UInt8) ≠ master := by
    rintro rfl
    cases hmaster
  have hunlock := KeyStore.unlock_of_nil hcrypted hnil []
  rw [hsealed.unlock_other hcrypted [] hne] at hunlock
  cases hunlock

theorem not_sealed_of_head? {h : KeyHistory} (k : ℕ) (entry : CPubKey × List UInt8) (hcrypted : h.fUseCrypto = true)
    (hhead : h.mapCryptedKeys.head? = some (k, entry)) (hopens : opens master entry = false) : ¬h.Sealed master := by
  intro hsealed
  have hunlock := hsealed.unlock_master hcrypted
  rw [KeyStore.unlock_of_head? hcrypted hhead, hopens] at hunlock
  cases hunlock

/-- An entry that is not admitted locks the wallet for good, or loses a secret. -/
theorem Inv.not_sealed_of_not_admits {h : KeyHistory} (hinv : h.Inv master) (hcrypted : h.fUseCrypto = true)
    {entry : CPubKey × List UInt8} (hnot : ¬h.Admits master entry) : ¬Sealed master
      { toKeyStore := { h.toKeyStore with mapCryptedKeys := set h.mapCryptedKeys entry.1.keyID entry }
        stored := h.stored } := by
  simp only [Admits, not_or, not_exists, not_and, not_forall] at hnot
  obtain ⟨-, hopens, hafter⟩ := hnot
  have hopens := Bool.eq_false_iff.2 hopens
  by_cases hlt : ∃ k first, h.mapCryptedKeys.head? = some (k, first) ∧ k < entry.1.keyID
  · obtain ⟨k, first, hhead, hlt⟩ := hlt
    obtain ⟨key, hstored, hlost⟩ := hafter k first hhead hlt
    obtain ⟨k', first', hhead', hfirst⟩ := hinv.firstOpens_set hcrypted hhead hlt
    intro hsealed
    have hget := hsealed.recoverable hcrypted _ key hstored
    rw [KeyStore.unlock_of_head? (s := { h.toKeyStore with mapCryptedKeys := set h.mapCryptedKeys entry.1.keyID entry })
      hcrypted hhead', if_pos hfirst] at hget
    simp only [KeyStore.getKey, hcrypted, Bool.not_true, Bool.false_eq_true, if_false, get?_set, if_true,
      Option.bind_some] at hget
    exact hlost hget
  · refine not_sealed_of_head? _ _ hcrypted (head?_set_of_not_lt fun k first hhead hk => ?_) hopens
    exact hlt ⟨k, first, hhead, hk⟩

/-- Any other call breaks the seal. -/
theorem Inv.broken (hmaster : master.length = WALLET_CRYPTO_KEY_SIZE) {h : KeyHistory} (hinv : h.Inv master)
    {e : KeyStoreCall} (hnot : ¬h.Clean master e) : ¬(h.step master e).Sealed master := by
  have hempty : ¬(h.fUseCrypto = true ∨ h.mapKeys ≠ []) →
      h.fUseCrypto = false ∧ h.mapKeys = [] ∧ h.mapCryptedKeys = [] := by
    simp only [not_or, Bool.not_eq_true, ne_eq, not_not]
    exact fun ⟨hplain, hkeys⟩ => ⟨hplain, hkeys, (hinv.plain hplain).1⟩
  cases e with
  | encryptKeys =>
    obtain ⟨hplain, hkeys, hnil⟩ := hempty hnot
    refine not_sealed_of_nil hmaster ?_ ?_ <;>
      simp [KeyHistory.step, KeyStore.encryptKeys, KeyStore.encryptLoop, hplain, hkeys, hnil]
  | addKeyPubKey key => exact absurd trivial hnot
  | addCryptedKey vchPubKey vchCryptedSecret =>
    have hnot' : ¬h.Admits master (vchPubKey, vchCryptedSecret) := hnot
    have hopens : ¬opens master (vchPubKey, vchCryptedSecret) = true := fun hopens => hnot' (.inr (.inl hopens))
    cases hcrypted : h.fUseCrypto with
    | true =>
      have hsame : h.step master (.addCryptedKey vchPubKey vchCryptedSecret) =
          { toKeyStore := { h.toKeyStore with
              mapCryptedKeys := set h.mapCryptedKeys vchPubKey.keyID (vchPubKey, vchCryptedSecret) }
            stored := h.stored } := by
        simp only [KeyHistory.step, KeyStore.addCryptedKey_of_crypted hcrypted]
        congr 1
        split
        · rfl
        · next key hsecret =>
          rw [if_neg fun hkey => hopens (opens_iff.2 ⟨key, hsecret, by simpa using hkey⟩)]
      rw [hsame]
      exact hinv.not_sealed_of_not_admits hcrypted hnot'
    | false =>
      have hkeys : h.mapKeys = [] := by
        by_contra hne
        exact hnot' (.inl ⟨hcrypted, hne⟩)
      have hnil := (hinv.plain hcrypted).1
      have hstep : h.toKeyStore.addCryptedKey vchPubKey vchCryptedSecret =
          (true, { h.toKeyStore with
            fUseCrypto := true, mapCryptedKeys := [(vchPubKey.keyID, vchPubKey, vchCryptedSecret)] }) := by
        simp only [KeyStore.addCryptedKey, KeyStore.setCrypted, hcrypted, hkeys, hnil, List.isEmpty_nil, if_true,
          Bool.false_eq_true, if_false]
        rfl
      refine not_sealed_of_head? vchPubKey.keyID (vchPubKey, vchCryptedSecret) ?_ ?_
        (Bool.eq_false_iff.2 hopens) <;> simp only [KeyHistory.step, hstep, List.head?_cons]
  | addLockedStealthKey cpkE =>
    simp only [Clean, not_or, Bool.not_eq_true, Bool.not_eq_false] at hnot
    obtain ⟨hhave, hlocked, hadmits⟩ := hnot
    have hcrypted : h.fUseCrypto = true := by
      rw [KeyStore.isLocked, Bool.and_eq_true] at hlocked
      exact hlocked.1
    simp only [KeyHistory.step, KeyStore.addLockedStealthKey, hhave, hlocked, Bool.not_false, Bool.and_self, if_true,
      KeyStore.addCryptedKey_of_crypted hcrypted]
    exact hinv.not_sealed_of_not_admits hcrypted hadmits
  | lock =>
    obtain ⟨hplain, hkeys, hnil⟩ := hempty hnot
    refine not_sealed_of_nil hmaster ?_ ?_ <;>
      simp [KeyHistory.step, KeyStore.lockKeyStore, KeyStore.setCrypted, hplain, hkeys, hnil]
  | unlock vMasterKeyIn =>
    obtain ⟨hplain, hkeys, hnil⟩ := hempty hnot
    refine not_sealed_of_nil hmaster ?_ ?_ <;>
      simp [KeyHistory.step, KeyStore.unlock, KeyStore.setCrypted, hplain, hkeys, hnil]

theorem inv_start : Inv master {} where
  plain _ := ⟨rfl, rfl, List.Pairwise.nil, fun e he => absurd he List.not_mem_nil, fun _ => rfl⟩
  mapKeys hcrypted := by cases hcrypted
  first hcrypted := by cases hcrypted
  secrets hcrypted := by cases hcrypted
  vMasterKey hcrypted := by cases hcrypted

/-- The history of a key store is sealed after every call exactly if all calls are clean. -/
theorem sealed_iff (hlaw : LawfulKeys) (hmaster : master.length = WALLET_CRYPTO_KEY_SIZE) (calls : List KeyStoreCall) :
    (∀ n, (run (KeyHistory.step master) {} (calls.take n)).Sealed master) ↔
      Along (KeyHistory.step master) (KeyHistory.Clean master) {} calls :=
  forall_take_iff_along (fun _ hinv => hinv.sealed hlaw) (fun _ _ hclean hinv => hinv.step hlaw hmaster hclean)
    (fun _ _ hnot hinv => hinv.broken hmaster hnot) inv_start

end KeyHistory

end KeyStore

/-! ### A wallet that cannot be unlocked -/

namespace KeyStoreSample

/-- A public key is its secret behind a first byte, the id is the start of it, and a ciphertext names its key. -/
scoped instance keyScheme : SecretScheme where
  getPubKey key := if key.fCompressed then ⟨2 :: key.vch⟩ else ⟨4 :: key.vch ++ key.vch⟩
  getID pubkey := ⟨(pubkey.vch.drop 1 ++ List.replicate 20 0).take 20, by simp⟩
  getHash _ := 0
  encrypt k _ s := k ++ s
  decrypt k _ c := if k.isPrefixOf c then some (c.drop k.length) else none

theorem lawful : LawfulKeys where
  decrypt_encrypt k iv s _ := by simp [SecretScheme.decrypt, SecretScheme.encrypt]
  rejects k k' iv c s hk hk' hne h := by
    simp only [SecretScheme.decrypt, List.isPrefixOf_iff_prefix, Option.ite_none_right_eq_some] at h ⊢
    rw [if_neg fun h' => hne ?_]
    exact (List.prefix_of_prefix_length_le h' h.1 (by omega)).eq_of_length (by omega)
  isCompressed key := by
    cases hc : key.fCompressed <;>
      simp [SecretScheme.getPubKey, hc, CPubKey.isCompressed, CPubKey.size, CPubKey.getLen]

/-- The compressed key of a secret of 32 equal bytes. -/
def keyOf (b : UInt8) : SecretKey := ⟨List.replicate 32 b, true, rfl⟩

def master : List UInt8 := List.replicate 32 1

/-- A wallet with one key is sealed when it is encrypted. -/
theorem sealed_of_one_key :
    (run (KeyHistory.step master) {} [.addKeyPubKey (keyOf 5), .encryptKeys]).Sealed master :=
  (KeyHistory.sealed_iff lawful rfl [.addKeyPubKey (keyOf 5), .encryptKeys]).2 ⟨trivial, .inr (by decide), trivial⟩ 2

/-- A stealth key that was found while the wallet was locked comes before its key, and the master key is refused. -/
theorem master_refused : ((run (KeyHistory.step master) {} [.addKeyPubKey (keyOf 5), .encryptKeys, .lock,
    .addLockedStealthKey (SecretScheme.getPubKey (keyOf 3))]).toKeyStore.unlock master).1 = false := by decide

end KeyStoreSample

end PayDayCoin
