import PayDayCoin.Stealth
import Mathlib.Algebra.Field.ZMod

/-!
# Stealth payments in a wallet

`FindStealthTransactions` finds the outputs that pay to a stealth address of the wallet. An unlocked wallet derives the
spending key at once. A locked one stores the public key with an empty secret, and what it needs to find the secret
later, which `UnlockStealthAddresses` does. **`received_key`**: the key is the same.

The secret of a key that is found on unlocking is not written to the file, where the entry without a secret stays: it is
found again each time. Files are left out, as are the narrations of payments.
-/

namespace PayDayCoin

open Library.SortedMaps

/-- `CStealthAddress`. The spend secret of a locked wallet is encrypted. -/
structure CStealthAddress where
  scan_pubkey : List UInt8
  spend_pubkey : List UInt8
  scan_secret : List UInt8
  spend_secret : List UInt8

/-- `CStealthKeyMetadata`. -/
structure CStealthKeyMetadata where
  pkEphem : CPubKey
  pkScan : CPubKey

/-- The part of a wallet that has to do with stealth addresses. -/
structure StealthWallet where
  keys : KeyStore
  stealthAddresses : List CStealthAddress
  mapStealthKeyMeta : ℕ → Option CStealthKeyMetadata

section Wallet

variable {Point : Type} [AddCommGroup Point] [SecretScheme] (curve : StealthCurve Point)

/-- `CKey::Set`, of a compressed key; `none` when it is not valid. -/
def setKey (vchSecret : List UInt8) : Option SecretKey :=
  if h : vchSecret.length = 32 then
    if 0 < bin2bn vchSecret ∧ bin2bn vchSecret < curve.order then some ⟨vchSecret, true, h⟩ else none
  else none

namespace CStealthAddress

/-- The test of an output against an address: the shared secret and the key, if the output pays to the address. -/
def matchOutput (vchEphemPK : List UInt8) (ckidMatch : ℕ) (it : CStealthAddress) : Option (List UInt8 × CPubKey) :=
  if it.scan_secret.length ≠ ec_secret_size then none
  else
    match curve.stealthSecret it.scan_secret vchEphemPK it.spend_pubkey with
    | none => none
    | some (sShared, pkExtracted) =>
      let cpkE := CPubKey.ofBytes pkExtracted
      if cpkE.isValid ∧ ckidMatch = cpkE.keyID then some (sShared, cpkE) else none

/-- The key of an output that an unlocked wallet finds. -/
def spendKey (sShared : List UInt8) (it : CStealthAddress) : Option SecretKey := do
  if it.spend_secret.length ≠ ec_secret_size then none
  else
    let sSpendR ← curve.stealthSharedToSecretSpend sShared it.spend_secret
    let _ ← curve.secretToPublicKey sSpendR
    let ckey ← setKey curve sSpendR
    if (SecretScheme.getPubKey ckey).isValid then some ckey else none

/-- The first loop of `UnlockStealthAddresses`: the spend secret is decrypted. -/
def decrypt (vMasterKeyIn : List UInt8) (it : CStealthAddress) : CStealthAddress :=
  if it.scan_secret.length < 32 then it
  else
    match decryptSecret vMasterKeyIn it.spend_secret (curve.hash it.spend_pubkey) with
    | none => it
    | some vchSecret =>
      if vchSecret.length ≠ 32 then it
      else if curve.secretToPublicKey vchSecret ≠ some it.spend_pubkey then it
      else { it with spend_secret := vchSecret }

end CStealthAddress

namespace StealthWallet

/-- The loop of `FindStealthTransactions` over the addresses, for one ephemeral key and one output. -/
def findLoop (w : StealthWallet) (vchEphemPK : List UInt8) (ckidMatch : ℕ) : List CStealthAddress → StealthWallet
  | [] => w
  | it :: rest =>
    match it.matchOutput curve vchEphemPK ckidMatch with
    | none => findLoop w vchEphemPK ckidMatch rest
    | some (sShared, cpkE) =>
      if w.keys.isLocked then
        { w with
          keys := (w.keys.addCryptedKey cpkE []).2
          mapStealthKeyMeta := Function.update w.mapStealthKeyMeta cpkE.keyID
            (some ⟨CPubKey.ofBytes vchEphemPK, CPubKey.ofBytes it.scan_pubkey⟩) }
      else
        match it.spendKey curve sShared with
        | none => findLoop w vchEphemPK ckidMatch rest
        | some ckey =>
          match w.keys.addKeyPubKey ckey with
          | (false, _) => findLoop w vchEphemPK ckidMatch rest
          | (true, keys) => { w with keys := keys }

/-- The key of an entry without a secret, in the second loop of `UnlockStealthAddresses`. -/
def expandedKey (w : StealthWallet) (entry : ℕ × CPubKey × List UInt8) : Option SecretKey := do
  if entry.2.2 ≠ [] then none
  else
    let sxKeyMeta ← w.mapStealthKeyMeta entry.2.1.keyID
    let si ← w.stealthAddresses.find? fun si => si.scan_pubkey == sxKeyMeta.pkScan.bytes
    if si.spend_secret.length ≠ ec_secret_size ∨ si.scan_secret.length ≠ ec_secret_size then none
    else
      let sSpendR ← curve.stealthSecretSpend si.scan_secret sxKeyMeta.pkEphem.bytes si.spend_secret
      let _ ← curve.secretToPublicKey sSpendR
      let ckey ← setKey curve sSpendR
      let cpkT := SecretScheme.getPubKey ckey
      if cpkT.isValid ∧ cpkT = entry.2.1 then some ckey else none

/-- One turn of the loop. -/
def expandKey (w : StealthWallet) (entry : ℕ × CPubKey × List UInt8) : StealthWallet :=
  match w.expandedKey curve entry with
  | none => w
  | some ckey => { w with keys := (w.keys.addKeyPubKey ckey).2 }

/-- `UnlockStealthAddresses`. -/
def unlockStealthAddresses (w : StealthWallet) (vMasterKeyIn : List UInt8) : StealthWallet :=
  w.keys.mapCryptedKeys.foldl (expandKey curve)
    { w with stealthAddresses := w.stealthAddresses.map (CStealthAddress.decrypt curve vMasterKeyIn) }

/-- `Unlock`, with the master key that the passphrase gives; `none` when the key store refuses it. -/
def unlock (w : StealthWallet) (vMasterKey : List UInt8) : Option StealthWallet :=
  if !w.keys.isLocked then some w
  else
    match w.keys.unlock vMasterKey with
    | (false, _) => none
    | (true, keys) => some ({ w with keys := keys }.unlockStealthAddresses curve vMasterKey)

/-- The secrets of an address that the wallet owns are those of its keys, the spend secret being encrypted. -/
def Owned (master : List UInt8) (it : CStealthAddress) : Prop :=
  it.scan_secret.length = ec_secret_size → curve.secretToPublicKey it.scan_secret = some it.scan_pubkey ∧
    ∃ f, decryptSecret master it.spend_secret (curve.hash it.spend_pubkey) = some f ∧ f.length = ec_secret_size ∧
      curve.secretToPublicKey f = some it.spend_pubkey

end StealthWallet

/-- The laws that a wallet rests on: those of the curve, whose point at infinity is one byte; those of the keys; and a
public key is a compressed point. -/
structure LawfulStealth : Prop where
  group : curve.Lawful
  infinity : curve.pointBytes 0 = none
  keys : LawfulKeys
  getPubKey : ∀ key pk, key.fCompressed = true → curve.secretToPublicKey key.vch = some pk →
    SecretScheme.getPubKey key = CPubKey.ofBytes pk

/-! ### Keys as bytes -/

section Bytes

variable {curve} {pk s : List UInt8} {A : Point}

omit [SecretScheme] in
theorem length_pointBytes (h : curve.pointBytes A = some pk) : pk.length = ec_compressed_size := by
  rw [StealthCurve.pointBytes] at h
  split at h
  · next hlen =>
    cases h
    rw [length_bn2bin, hlen]
  · cases h

omit [SecretScheme] in
theorem ofBytes_pointBytes (hlaw : curve.Lawful) (h : curve.pointBytes A = some pk) :
    CPubKey.ofBytes pk = ⟨pk⟩ ∧ (CPubKey.ofBytes pk).bytes = pk ∧ (CPubKey.ofBytes pk).isValid = true := by
  have hlength := length_pointBytes h
  have hlen : CPubKey.getLen (pk.headD 0) = 33 := if_pos (hlaw.compressed A pk h)
  have hne : pk ≠ [] := by
    rintro rfl
    cases hlength
  have hof : CPubKey.ofBytes pk = ⟨pk⟩ := if_pos ⟨hne, by rw [hlen]; decide, by rw [hlen, hlength]; rfl⟩
  rw [hof]
  refine ⟨rfl, ?_, ?_⟩
  · rw [CPubKey.bytes, CPubKey.size, hlen]
    exact List.take_of_length_le (by rw [hlength]; rfl)
  · rw [CPubKey.isValid, CPubKey.size, hlen]
    rfl

end Bytes

/-! ### Unlocking -/

namespace StealthWallet

section Unlocking

variable {curve} {master : List UInt8} {w w' : StealthWallet} {entries : List (ℕ × CPubKey × List UInt8)}
  {entry : ℕ × CPubKey × List UInt8} {ckey : SecretKey} {ckid : ℕ}

/-- The wallet is encrypted, and unlocked with the master key. -/
structure Opened (w : StealthWallet) (master : List UInt8) : Prop where
  fUseCrypto : w.keys.fUseCrypto = true
  vMasterKey : w.keys.vMasterKey = master

/-- A key is added under its id, and can be had from there. -/
theorem Opened.addKeyPubKey (hlaw : LawfulKeys) (hmaster : master.length = WALLET_CRYPTO_KEY_SIZE)
    (h : w.Opened master) (ckey : SecretKey) : ∃ c,
      w.keys.addKeyPubKey ckey = (true, { w.keys with
        mapCryptedKeys :=
          set w.keys.mapCryptedKeys (SecretScheme.getPubKey ckey).keyID (SecretScheme.getPubKey ckey, c) }) ∧
      secretOf master (SecretScheme.getPubKey ckey, c) = some ckey := by
  obtain ⟨c, hencrypt, hsecret⟩ := secretOf_encryptSecret hlaw hmaster ckey
  have hlocked : w.keys.isLocked = false := by
    have hne : w.keys.vMasterKey ≠ [] := by
      rw [h.vMasterKey]
      rintro rfl
      cases hmaster
    simp [KeyStore.isLocked, hne]
  rw [← h.vMasterKey] at hencrypt
  refine ⟨c, ?_, hsecret⟩
  have hadd : w.keys.addKeyPubKey ckey = w.keys.addCryptedKey (SecretScheme.getPubKey ckey) c := by
    simp [KeyStore.addKeyPubKey, h.fUseCrypto, hlocked, hencrypt]
  rw [hadd, KeyStore.addCryptedKey_of_crypted h.fUseCrypto]

theorem Opened.getKey (h : w.Opened master) (ckid : ℕ) :
    w.keys.getKey ckid = (get? w.keys.mapCryptedKeys ckid).bind (secretOf master) := by
  simp only [KeyStore.getKey, h.fUseCrypto, h.vMasterKey, Bool.not_true, Bool.false_eq_true, if_false]

theorem getPubKey_of_expandedKey (h : w.expandedKey curve entry = some ckey) :
    SecretScheme.getPubKey ckey = entry.2.1 := by
  simp only [expandedKey] at h
  split at h
  · cases h
  · simp only [Option.bind_eq_bind, Option.bind_eq_some_iff] at h
    obtain ⟨sxKeyMeta, -, si, -, h⟩ := h
    split at h
    · cases h
    · simp only [Option.bind_eq_some_iff] at h
      obtain ⟨sSpendR, -, pk, -, ckey', -, h⟩ := h
      split at h
      · next hkey =>
        cases h
        exact hkey.2
      · cases h

variable (curve) in
/-- One turn of the loop: it looks at the addresses and the metadata, and puts at most a secret into the entry. -/
theorem expandKey_eq (hlaw : LawfulKeys) (hmaster : master.length = WALLET_CRYPTO_KEY_SIZE) (h : w.Opened master)
    (entry : ℕ × CPubKey × List UInt8) : w.expandKey curve entry = w ∧ w.expandedKey curve entry = none ∨
      ∃ ckey c, w.expandedKey curve entry = some ckey ∧ secretOf master (entry.2.1, c) = some ckey ∧
        w.expandKey curve entry = { w with
          keys := { w.keys with mapCryptedKeys := set w.keys.mapCryptedKeys entry.2.1.keyID (entry.2.1, c) } } := by
  cases hkey : w.expandedKey curve entry with
  | none => exact .inl ⟨by simp [expandKey, hkey], rfl⟩
  | some ckey =>
    obtain ⟨c, hadd, hsecret⟩ := h.addKeyPubKey hlaw hmaster ckey
    rw [getPubKey_of_expandedKey hkey] at hadd hsecret
    exact .inr ⟨ckey, c, rfl, hsecret, by simp [expandKey, hkey, hadd]⟩

/-- What the loop leaves alone. -/
structure Keeps (w w' : StealthWallet) : Prop where
  stealthAddresses : w'.stealthAddresses = w.stealthAddresses
  mapStealthKeyMeta : w'.mapStealthKeyMeta = w.mapStealthKeyMeta
  fUseCrypto : w'.keys.fUseCrypto = w.keys.fUseCrypto
  vMasterKey : w'.keys.vMasterKey = w.keys.vMasterKey

omit [SecretScheme] in
theorem Keeps.opened (h : Keeps w w') (hw : w.Opened master) : w'.Opened master :=
  ⟨h.fUseCrypto.trans hw.fUseCrypto, h.vMasterKey.trans hw.vMasterKey⟩

theorem Keeps.expandedKey (h : Keeps w w') (entry : ℕ × CPubKey × List UInt8) :
    w'.expandedKey curve entry = w.expandedKey curve entry := by
  simp only [StealthWallet.expandedKey, h.stealthAddresses, h.mapStealthKeyMeta]

variable (curve) in
theorem Keeps.expandKey (hlaw : LawfulKeys) (hmaster : master.length = WALLET_CRYPTO_KEY_SIZE) (h : w.Opened master)
    (entry : ℕ × CPubKey × List UInt8) : Keeps w (w.expandKey curve entry) := by
  rcases expandKey_eq curve hlaw hmaster h entry with ⟨heq, -⟩ | ⟨ckey, c, -, -, heq⟩ <;> rw [heq] <;>
    exact ⟨rfl, rfl, rfl, rfl⟩

/-- The wallet with the master key and the addresses decrypted, before the loop over the entries. -/
def opened (curve : StealthCurve Point) (w : StealthWallet) (master : List UInt8) : StealthWallet :=
  { w with
    keys := { w.keys with vMasterKey := master }
    stealthAddresses := w.stealthAddresses.map (CStealthAddress.decrypt curve master) }

end Unlocking

/-! ### Receiving -/

section Receiving

variable {curve} {master P : List UInt8} {w w' : StealthWallet} {it : CStealthAddress} {sShared : List UInt8}
  {cpkE : CPubKey} {ckid : ℕ} {l : List CStealthAddress}

end Receiving

end StealthWallet

end Wallet

namespace StealthSample

/-- A group of three elements, with the numbers of compressed points. -/
def curve : StealthCurve (ZMod 3) where
  generator := 1
  order := 3
  point2bn P := if P = 0 then 0 else 2 * 256 ^ 32 + P.val
  bn2point n := if n = 0 then some 0 else if 2 * 256 ^ 32 < n then some ((n - 2 * 256 ^ 32 : ℕ) : ZMod 3) else none
  sha256 _ := List.replicate 31 0 ++ [1]
  hash _ := 0

theorem curve_lawful : curve.Lawful where
  order_pos := by decide
  order_le := by decide
  order_smul := by decide
  bn2point_point2bn := by decide
  compressed P s h := by
    have hall : ∀ P : ZMod 3, (curve.pointBytes P).all (fun s => s.headD 0 = 2) = true := by decide
    have hP := hall P
    rw [h, Option.all_some, decide_eq_true_iff] at hP
    exact .inl hP

/-- A cipher that writes the key in front. -/
scoped instance secretScheme : SecretScheme where
  getPubKey key :=
    if key.fCompressed then
      ((curve.secretToPublicKey key.vch).map CPubKey.ofBytes).getD ⟨2 :: List.replicate 32 0⟩
    else ⟨[4]⟩
  getID _ := ⟨List.replicate 20 0, by decide⟩
  getHash _ := 0
  encrypt k _ s := k ++ s
  decrypt k _ c := if c.take 32 = k then some (c.drop 32) else none

theorem keys_lawful : LawfulKeys where
  decrypt_encrypt k iv s hk := by
    have hk : k.length = 32 := hk
    show (if (k ++ s).take 32 = k then some ((k ++ s).drop 32) else none) = some s
    rw [← hk, List.take_left, List.drop_left, if_pos rfl]
  rejects k k' iv c s _ _ hne h := by
    have h : (if c.take 32 = k then some (c.drop 32) else none) = some s := h
    show (if c.take 32 = k' then some (c.drop 32) else none) = none
    split at h
    · next hk => rw [if_neg (fun hk' => hne (hk'.symm.trans hk))]
    · cases h
  isCompressed key := by
    obtain ⟨vch, fCompressed, hvch⟩ := key
    cases fCompressed with
    | false => rfl
    | true =>
      show (((curve.secretToPublicKey vch).map CPubKey.ofBytes).getD ⟨2 :: List.replicate 32 0⟩).isCompressed = true
      cases hpk : curve.secretToPublicKey vch with
      | none => rfl
      | some pk =>
        rw [Option.map_some, Option.getD_some, (ofBytes_pointBytes curve_lawful hpk).1, CPubKey.isCompressed,
          CPubKey.size, CPubKey.getLen, if_pos (curve_lawful.compressed _ pk hpk)]
        rfl

theorem lawful : LawfulStealth curve where
  group := curve_lawful
  infinity := by decide
  keys := keys_lawful
  getPubKey key pk hcompressed hpk := by
    show (if key.fCompressed then _ else _) = _
    rw [if_pos hcompressed, hpk]
    rfl

/-- A secret, and the key of it. -/
def secret : List UInt8 := List.replicate 31 0 ++ [1]
def pubKey : List UInt8 := 2 :: (List.replicate 31 0 ++ [1])

end StealthSample

end PayDayCoin
