import PayDayCoin.CryptoKeyStore

/-!
# Changing the passphrase

The master key of a wallet is kept encrypted in one or more entries of `mapMasterKeys`, each under the key that a
passphrase gives with the entry's salt. `ChangeWalletPassphrase` locks the wallet, opens an entry with the old
passphrase, and encrypts the master key under the new one. Both it and `Unlock` give up at the first entry that does not
open: they never come to the next one.

**`passphraseSound_iff`**: a change that fails leaves the entries and the lock as they were, one that succeeds leaves a
wallet that the new passphrase unlocks, and a passphrase that opens any entry is taken by both, if and only if the old
passphrase opens the first entry, or opens none and the wallet cannot be locked by the attempt. An unlocked wallet is
locked by a wrong passphrase (`PassphraseSample.locked_out`).
-/

namespace PayDayCoin

/-- The derivation of keys from passphrases, which takes a salt, the number of rounds and the method, and the cipher of
`CCrypter`. What is encrypted under a key is decrypted under it. -/
structure PassphraseCipher where
  DerivedKey : Type
  derive : List UInt8 → List UInt8 → UInt32 → UInt32 → DerivedKey
  encrypt : DerivedKey → List UInt8 → List UInt8
  decrypt : DerivedKey → List UInt8 → Option (List UInt8)
  decrypt_encrypt : ∀ key plain, decrypt key (encrypt key plain) = some plain

/-- `CMasterKey`. -/
structure CMasterKey where
  vchCryptedKey : List UInt8
  vchSalt : List UInt8
  nDerivationMethod : UInt32
  nDeriveIterations : UInt32

def WALLET_CRYPTO_SALT_SIZE : ℕ := 8

namespace CMasterKey

variable (cipher : PassphraseCipher)

/-- `SetKeyFromPassphrase`, with what the entry says. -/
def setKeyFromPassphrase (mk : CMasterKey) (strKeyData : List UInt8) : Option cipher.DerivedKey :=
  if mk.nDeriveIterations < 1 ∨ mk.vchSalt.length ≠ WALLET_CRYPTO_SALT_SIZE then none
  else if mk.nDerivationMethod = 0 ∨ mk.nDerivationMethod = 1 then
    some (cipher.derive strKeyData mk.vchSalt mk.nDeriveIterations mk.nDerivationMethod)
  else none

/-- The two steps that open an entry with a passphrase. -/
def openWith (mk : CMasterKey) (strPassphrase : List UInt8) : Option (List UInt8) :=
  (mk.setKeyFromPassphrase cipher strPassphrase).bind fun key => cipher.decrypt key mk.vchCryptedKey

end CMasterKey

/-- The part of a wallet that is sealed under passphrases. -/
structure SealedWallet where
  keys : KeyStore
  /-- `mapMasterKeys`, in the order of the numbers. -/
  mapMasterKeys : List (ℕ × CMasterKey)
  fWalletUnlockAnonymizeOnly : Bool := false

namespace SealedWallet

variable [SecretScheme] (cipher : PassphraseCipher)

/-- `IsLocked`. -/
def isLocked (w : SealedWallet) : Bool := w.keys.isLocked

/-- `CWallet::Lock`. -/
def lock (w : SealedWallet) : SealedWallet := if w.isLocked then w else { w with keys := w.keys.lockKeyStore.2 }

/-- The loop of `Unlock`, which ends with the first entry. -/
def unlockLoop (strWalletPassphrase : List UInt8) (keys : KeyStore) : List (ℕ × CMasterKey) → Bool × KeyStore
  | [] => (true, keys)
  | (_, masterKey) :: _ =>
    match masterKey.openWith cipher strWalletPassphrase with
    | none => (false, keys)
    | some vMasterKey => keys.unlock vMasterKey

/-- `CWallet::Unlock`. -/
def unlock (strWalletPassphrase : List UInt8) (anonymizeOnly : Bool) (w : SealedWallet) : Bool × SealedWallet :=
  if !w.isLocked then (true, { w with fWalletUnlockAnonymizeOnly := anonymizeOnly })
  else
    match unlockLoop cipher strWalletPassphrase w.keys w.mapMasterKeys with
    | (false, keys) => (false, { w with keys })
    | (true, keys) => (true, { w with keys, fWalletUnlockAnonymizeOnly := anonymizeOnly })

/-- The loop of `ChangeWalletPassphrase`. `measured` is the number of rounds that the two measurements of the new
derivation come to. -/
def changeLoop (strOld strNew : List UInt8) (measured : UInt32) :
    List (ℕ × CMasterKey) → KeyStore → Bool × List (ℕ × CMasterKey) × KeyStore
  | [], keys => (false, [], keys)
  | (id, masterKey) :: rest, keys =>
    match masterKey.openWith cipher strOld with
    | none => (false, (id, masterKey) :: rest, keys)
    | some vMasterKey =>
      match keys.unlock vMasterKey with
      | (false, keys) =>
        let (fRet, rest, keys) := changeLoop strOld strNew measured rest keys
        (fRet, (id, masterKey) :: rest, keys)
      | (true, keys) =>
        let masterKey := { masterKey with nDeriveIterations := if measured < 25000 then 25000 else measured }
        match masterKey.setKeyFromPassphrase cipher strNew with
        | none => (false, (id, masterKey) :: rest, keys)
        | some key => (true, (id, { masterKey with vchCryptedKey := cipher.encrypt key vMasterKey }) :: rest, keys)

/-- `CWallet::ChangeWalletPassphrase`. -/
def changeWalletPassphrase (strOld strNew : List UInt8) (measured : UInt32) (w : SealedWallet) : Bool × SealedWallet :=
  let (fRet, mapMasterKeys, keys) := changeLoop cipher strOld strNew measured w.mapMasterKeys w.lock.keys
  let w' := { w with mapMasterKeys, keys }
  (fRet, if fRet && w.isLocked then w'.lock else w')

/-! ### What a change should do -/

/-- A passphrase opens an entry. -/
def Opens (strPassphrase : List UInt8) (masterKey : CMasterKey) : Prop := (masterKey.openWith cipher strPassphrase).isSome

/-- Wrong keys are rejected: whatever opens an entry gives a master key that the store takes. -/
def WellSealed (w : SealedWallet) : Prop :=
  ∀ e ∈ w.mapMasterKeys, ∀ key vMasterKey, cipher.decrypt key e.2.vchCryptedKey = some vMasterKey →
    vMasterKey ≠ [] ∧ (w.keys.unlock vMasterKey).1 = true

/-- A change that fails leaves the entries and the lock as they were, after one that succeeds the new passphrase
unlocks, and a passphrase that opens any entry is taken by both. -/
structure PassphraseSound (strOld strNew : List UInt8) (measured : UInt32) (w : SealedWallet) : Prop where
  failed : (w.changeWalletPassphrase cipher strOld strNew measured).1 = false →
    (w.changeWalletPassphrase cipher strOld strNew measured).2.mapMasterKeys = w.mapMasterKeys ∧
      (w.changeWalletPassphrase cipher strOld strNew measured).2.isLocked = w.isLocked
  changed : (w.changeWalletPassphrase cipher strOld strNew measured).1 = true →
    ∀ anonymizeOnly,
      ((w.changeWalletPassphrase cipher strOld strNew measured).2.lock.unlock cipher strNew anonymizeOnly).1 = true
  accepted : (∃ e ∈ w.mapMasterKeys, Opens cipher strOld e.2) →
    (w.changeWalletPassphrase cipher strOld strNew measured).1 = true ∧
      ∀ anonymizeOnly, (w.unlock cipher strOld anonymizeOnly).1 = true

/-- The old passphrase opens the first entry; or it opens none, and the wallet is locked or cannot be. -/
def Allows (strOld : List UInt8) (w : SealedWallet) : Prop :=
  (∃ e ∈ w.mapMasterKeys.head?, Opens cipher strOld e.2) ∨
    (∀ e ∈ w.mapMasterKeys, ¬Opens cipher strOld e.2) ∧ (w.isLocked = true ∨ w.keys.setCrypted = none)

/-! ### One entry -/

variable {cipher} {w : SealedWallet} {strOld strNew : List UInt8} {measured : UInt32} {id : ℕ} {masterKey : CMasterKey}
  {rest : List (ℕ × CMasterKey)} {keys : KeyStore} {vMasterKey : List UInt8}

/-- An entry that does not open ends the loop. -/
theorem changeLoop_closed (h : masterKey.openWith cipher strOld = none) :
    changeLoop cipher strOld strNew measured ((id, masterKey) :: rest) keys = (false, (id, masterKey) :: rest, keys) := by
  rw [changeLoop, h]

omit [SecretScheme] in
/-- The new derivation does not fail for an entry that opens: the salt and the method are the same. -/
theorem setKey_of_openWith (h : masterKey.openWith cipher strOld = some vMasterKey) {rounds : UInt32}
    (hrounds : ¬rounds < 1) (vchCryptedKey : List UInt8) :
    { masterKey with nDeriveIterations := rounds, vchCryptedKey }.setKeyFromPassphrase cipher strNew =
      some (cipher.derive strNew masterKey.vchSalt rounds masterKey.nDerivationMethod) := by
  obtain ⟨key, hkey, -⟩ := Option.bind_eq_some_iff.1 h
  rw [CMasterKey.setKeyFromPassphrase] at hkey ⊢
  split at hkey
  · cases hkey
  rename_i hsalt
  split at hkey
  · rename_i hmethod
    rw [if_neg (not_or.2 ⟨hrounds, (not_or.1 hsalt).2⟩), if_pos hmethod]
  · cases hkey

variable (strNew measured id rest) in
/-- **An entry that opens** is sealed again, under the new passphrase. -/
theorem changeLoop_open (h : masterKey.openWith cipher strOld = some vMasterKey) {keys' : KeyStore}
    (hunlock : keys.unlock vMasterKey = (true, keys')) :
    ∃ masterKey', changeLoop cipher strOld strNew measured ((id, masterKey) :: rest) keys =
        (true, (id, masterKey') :: rest, keys') ∧
      masterKey'.openWith cipher strNew = some vMasterKey := by
  have hrounds : ¬(if measured < 25000 then 25000 else measured) < 1 := by
    split
    · decide
    · rename_i hmany
      intro hless
      rw [UInt32.lt_iff_toNat_lt] at hmany hless
      have h1 : (1 : UInt32).toNat = 1 := rfl
      have h2 : (25000 : UInt32).toNat = 25000 := rfl
      omega
  refine ⟨{ masterKey with
    nDeriveIterations := if measured < 25000 then 25000 else measured
    vchCryptedKey := cipher.encrypt (cipher.derive strNew masterKey.vchSalt (if measured < 25000 then 25000 else measured)
      masterKey.nDerivationMethod) vMasterKey }, ?_, ?_⟩
  · rw [changeLoop, h]
    dsimp only
    rw [hunlock]
    dsimp only
    rw [setKey_of_openWith h hrounds masterKey.vchCryptedKey]
  · rw [CMasterKey.openWith, setKey_of_openWith h hrounds, Option.bind_some]
    exact cipher.decrypt_encrypt _ _

/-! ### The lock -/

theorem unlock_fst (keys : KeyStore) (vMasterKey : List UInt8) : (keys.unlock vMasterKey).1 =
    (keys.setCrypted.isSome && keys.mapCryptedKeys.head?.all fun entry => opens vMasterKey entry.2) := by
  rw [KeyStore.unlock]
  cases hcrypted : keys.setCrypted with
  | none => rfl
  | some keys' =>
    have hmap : keys'.mapCryptedKeys = keys.mapCryptedKeys := by
      rw [KeyStore.setCrypted] at hcrypted
      split at hcrypted
      · cases hcrypted
        rfl
      · split at hcrypted
        · cases hcrypted
          rfl
        · cases hcrypted
    dsimp only
    rw [hmap, Option.isSome_some, Bool.true_and]
    split
    · rename_i hall
      exact hall.symm
    · rename_i hall
      exact (Bool.not_eq_true _ ▸ hall).symm

omit [SecretScheme] in
theorem setCrypted_eq_some {keys keys' : KeyStore} (h : keys.setCrypted = some keys') :
    keys' = { keys with fUseCrypto := true } := by
  rw [KeyStore.setCrypted] at h
  split at h
  · rename_i hcrypto
    cases h
    rw [← hcrypto]
  · split at h
    · exact (Option.some.inj h).symm
    · cases h

/-- An unlocked store has the master key. -/
theorem unlock_snd (h : (keys.unlock vMasterKey).1 = true) :
    keys.unlock vMasterKey = (true, { keys with fUseCrypto := true, vMasterKey := vMasterKey }) := by
  rw [unlock_fst, Bool.and_eq_true] at h
  obtain ⟨keys', hkeys'⟩ := Option.isSome_iff_exists.1 h.1
  rw [KeyStore.unlock, hkeys']
  obtain rfl := setCrypted_eq_some hkeys'
  exact if_pos h.2

omit [SecretScheme] in
theorem lock_keys : w.lock.keys = w.keys ∨ w.lock.keys = { w.keys with fUseCrypto := true, vMasterKey := [] } := by
  rw [lock]
  split
  · exact .inl rfl
  · rw [KeyStore.lockKeyStore]
    cases hcrypted : w.keys.setCrypted with
    | none => exact .inl rfl
    | some keys' =>
      obtain rfl := setCrypted_eq_some hcrypted
      exact .inr rfl

omit [SecretScheme] in
theorem isLocked_lock : w.lock.isLocked = (w.isLocked || w.keys.setCrypted.isSome) := by
  rw [lock]
  split
  · rename_i hlocked
    rw [hlocked, Bool.true_or]
  · rename_i hlocked
    rw [Bool.not_eq_true] at hlocked
    rw [hlocked, Bool.false_or, isLocked, KeyStore.lockKeyStore]
    cases hcrypted : w.keys.setCrypted with
    | none => exact hlocked
    | some keys' =>
      obtain rfl := setCrypted_eq_some hcrypted
      rfl

/-- Locking does not change what the store takes. -/
theorem unlock_lock (h : (w.keys.unlock vMasterKey).1 = true) : (w.lock.keys.unlock vMasterKey).1 = true := by
  rcases lock_keys (w := w) with hkeys | hkeys
  · rwa [hkeys]
  · rw [hkeys, unlock_fst]
    rw [unlock_fst, Bool.and_eq_true] at h
    exact h.2

/-! ### A change -/

variable (strNew measured) in
/-- An old passphrase that does not open the first entry only locks the wallet. -/
theorem change_closed (h : ∀ e ∈ w.mapMasterKeys.head?, ¬Opens cipher strOld e.2) :
    w.changeWalletPassphrase cipher strOld strNew measured = (false, { w with keys := w.lock.keys }) := by
  rw [changeWalletPassphrase]
  cases hmap : w.mapMasterKeys with
  | nil => rfl
  | cons e rest =>
    obtain ⟨id, masterKey⟩ := e
    have hclosed : masterKey.openWith cipher strOld = none := by
      rw [hmap] at h
      exact Option.not_isSome_iff_eq_none.1 (h _ rfl)
    rw [changeLoop_closed hclosed]
    rfl

/-- The wallet behind a change, locked. -/
def sealedAgain (w : SealedWallet) (mapMasterKeys : List (ℕ × CMasterKey)) : SealedWallet :=
  { w with mapMasterKeys, keys := { w.lock.keys with fUseCrypto := true, vMasterKey := [] } }

variable (strNew measured) in
/-- **A change** succeeds if the old passphrase opens the first entry. -/
theorem change_open (hmap : w.mapMasterKeys = (id, masterKey) :: rest)
    (hopen : masterKey.openWith cipher strOld = some vMasterKey) (hne : vMasterKey ≠ [])
    (hunlock : (w.keys.unlock vMasterKey).1 = true) :
    ∃ masterKey', masterKey'.openWith cipher strNew = some vMasterKey ∧
      (w.changeWalletPassphrase cipher strOld strNew measured).1 = true ∧
      (w.changeWalletPassphrase cipher strOld strNew measured).2.lock = w.sealedAgain ((id, masterKey') :: rest) := by
  obtain ⟨masterKey', hloop, hnew⟩ := changeLoop_open strNew measured id rest
    hopen (unlock_snd (unlock_lock hunlock))
  have hlock : ({ w with
      mapMasterKeys := (id, masterKey') :: rest
      keys := { w.lock.keys with fUseCrypto := true, vMasterKey := vMasterKey } } : SealedWallet).lock =
        w.sealedAgain ((id, masterKey') :: rest) := by
    have hopened : (true && vMasterKey.isEmpty) = false := by
      rw [Bool.true_and, List.isEmpty_eq_false_iff]
      exact hne
    rw [lock, isLocked, KeyStore.isLocked, hopened]
    rfl
  refine ⟨masterKey', hnew, ?_, ?_⟩
  · rw [changeWalletPassphrase, hmap, hloop]
  · rw [changeWalletPassphrase, hmap, hloop]
    dsimp only
    split
    · rw [hlock]
      rfl
    · exact hlock

/-- **A change is sound** if and only if the old passphrase opens the first entry, or opens none, and the wallet is
locked or cannot be. -/
theorem passphraseSound_iff (hsealed : w.WellSealed cipher) :
    PassphraseSound cipher strOld strNew measured w ↔ w.Allows cipher strOld := by
  by_cases hfirst : ∃ e ∈ w.mapMasterKeys.head?, Opens cipher strOld e.2
  · refine iff_of_true ?_ (.inl hfirst)
    obtain ⟨⟨id, masterKey⟩, hhead, hopens⟩ := hfirst
    obtain ⟨rest, hmap⟩ : ∃ rest, w.mapMasterKeys = (id, masterKey) :: rest := by
      cases hcase : w.mapMasterKeys with
      | nil =>
        rw [hcase] at hhead
        cases hhead
      | cons e rest =>
        rw [hcase] at hhead
        cases hhead
        exact ⟨rest, rfl⟩
    obtain ⟨vMasterKey, hopen⟩ := Option.isSome_iff_exists.1 hopens
    obtain ⟨key, -, hdecrypt⟩ := Option.bind_eq_some_iff.1 hopen
    obtain ⟨hne, hunlock⟩ := hsealed (id, masterKey) (hmap ▸ List.mem_cons_self) key vMasterKey hdecrypt
    obtain ⟨masterKey', hnew, hret, hlock⟩ :=
      change_open strNew measured hmap hopen hne hunlock
    refine ⟨fun hfalse => absurd (hret.symm.trans hfalse) (by decide), fun _ anonymizeOnly => ?_, fun _ =>
      ⟨hret, fun anonymizeOnly => ?_⟩⟩
    · have htakes : ((w.sealedAgain ((id, masterKey') :: rest)).keys.unlock vMasterKey).1 = true := by
        have hlocked := unlock_lock hunlock
        rw [unlock_fst, Bool.and_eq_true] at hlocked
        rw [unlock_fst]
        exact hlocked.2
      have hisLocked : (w.sealedAgain ((id, masterKey') :: rest)).isLocked = true := rfl
      rw [hlock, unlock, hisLocked, if_neg (by decide), sealedAgain, unlockLoop, hnew]
      dsimp only
      rw [sealedAgain] at htakes
      rw [unlock_snd htakes]
    · rw [unlock]
      split
      · rfl
      · rw [hmap, unlockLoop, hopen]
        dsimp only
        rw [unlock_snd hunlock]
  · have hclosed := change_closed strNew measured fun e he hopens => hfirst ⟨e, he, hopens⟩
    have hisLocked : ({ w with keys := w.lock.keys } : SealedWallet).isLocked = w.isLocked ↔
        w.isLocked = true ∨ w.keys.setCrypted = none := by
      have hlock : ({ w with keys := w.lock.keys } : SealedWallet).isLocked = w.lock.isLocked := rfl
      rw [hlock, isLocked_lock]
      cases w.isLocked <;> cases w.keys.setCrypted <;> simp
    constructor
    · intro h
      refine .inr ⟨fun e he hopens => ?_, hisLocked.1 ?_⟩
      · have hret := (h.accepted ⟨e, he, hopens⟩).1
        rw [hclosed] at hret
        cases hret
      · have hfailed := h.failed (by rw [hclosed])
        rw [hclosed] at hfailed
        exact hfailed.2
    · rintro (hopens | ⟨hnone, hlock⟩)
      · exact absurd hopens hfirst
      · refine ⟨fun _ => ?_, fun hret => ?_, fun ⟨e, he, hopens⟩ => absurd hopens (hnone e he)⟩
        · rw [hclosed]
          exact ⟨rfl, hisLocked.2 hlock⟩
        · rw [hclosed] at hret
          cases hret

end SealedWallet

namespace PassphraseSample

open KeyStoreSample

/-- The first byte of a passphrase is its key, and stands in front of what is encrypted. -/
def cipher : PassphraseCipher where
  DerivedKey := UInt8
  derive pass _ _ _ := pass.headD 0
  encrypt key plain := key :: plain
  decrypt key c := if c.head? = some key then some c.tail else none
  decrypt_encrypt _ _ := if_pos rfl

/-- An unlocked wallet with one entry, under the passphrase 1. -/
def wallet : SealedWallet where
  keys := { fUseCrypto := true, vMasterKey := [9] }
  mapMasterKeys := [(1, ⟨[1, 9], [0, 0, 0, 0, 0, 0, 0, 0], 0, 25000⟩)]

theorem wellSealed : wallet.WellSealed cipher := by
  intro e he key vMasterKey h
  obtain rfl := List.mem_singleton.1 he
  have hkey : some vMasterKey = some [9] := by
    rw [← h]
    by_cases hone : (1 : UInt8) = key
    · exact if_pos (congrArg some hone)
    · have hnone : cipher.decrypt key [1, 9] = none := if_neg fun heq => hone (Option.some.inj heq)
      rw [h] at hnone
      cases hnone
  obtain rfl := Option.some.inj hkey
  exact ⟨by decide, by decide⟩

/-- The right passphrase. -/
theorem right_passphrase : SealedWallet.PassphraseSound cipher [1] [2] 30000 wallet :=
  (SealedWallet.passphraseSound_iff wellSealed).2 (.inl ⟨_, rfl, rfl⟩)

/-- **A wrong passphrase locks the wallet**, which was unlocked. -/
theorem locked_out : (wallet.changeWalletPassphrase cipher [3] [2] 30000).1 = false ∧ wallet.isLocked = false ∧
    (wallet.changeWalletPassphrase cipher [3] [2] 30000).2.isLocked = true := by
  decide

end PassphraseSample

end PayDayCoin
