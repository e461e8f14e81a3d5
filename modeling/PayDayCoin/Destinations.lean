import PayDayCoin.Base58
import PayDayCoin.Solver

/-!
# Scripts and destinations

A script that pays to a key, to a script or to several keys is built from the destination (`getScriptForDestination`,
`getScriptForMultisig`, `CScript::SetMultisig`), and the destination is extracted from the script by way of `Solver`.

**`destinations_roundTrip`**: what is built is extracted again, the two builders of multisig scripts agree, and no two
destinations and no two lists of keys share a script.
-/

namespace PayDayCoin

theorem CKeyID.length_zeros : (List.replicate 20 (0 : UInt8)).length = 20 := List.length_replicate

/-- `uint160` of a byte vector. -/
def CKeyID.ofVector (vch : List UInt8) : CKeyID :=
  if h : vch.length = 20 then ⟨vch, h⟩ else ⟨List.replicate 20 0, length_zeros⟩

/-- `CTxDestination`. A stealth address has no script, so that its data is left out. -/
inductive CTxDestination
  | noDestination
  | keyID (id : CKeyID)
  /-- A `CScriptID` is a `uint160` as well. -/
  | scriptID (id : CKeyID)
  | stealthAddress
deriving DecidableEq

namespace CScript

/-! ### Building -/

/-- `CScript::EncodeOP_N`, which is `none` when its assertion fires. -/
def encodeOP_N (n : ℕ) : Option UInt8 :=
  if n ≤ 16 then some (if n = 0 then OP_0 else UInt8.ofNat (OP_1.toNat + n - 1)) else none

/-- `CScript::operator<<` of a `uint160`. -/
def pushHash (id : CKeyID) : CScript := 20 :: id.pn

/-- `CScript::operator<<` of a public key, which is `none` when its assertion fires. -/
def pushKey (key : CPubKey) : Option CScript :=
  if key.size < OP_PUSHDATA1.toNat then some (UInt8.ofNat key.size :: key.bytes) else none

/-- `GetScriptForDestination`. -/
def getScriptForDestination : CTxDestination → CScript
  | .noDestination => []
  | .keyID id => OP_DUP :: OP_HASH160 :: (pushHash id ++ [OP_EQUALVERIFY, OP_CHECKSIG])
  | .scriptID id => OP_HASH160 :: (pushHash id ++ [OP_EQUAL])
  | .stealthAddress => []

/-- `CScript::SetMultisig`. -/
def setMultisig (nRequired : ℕ) (keys : List CPubKey) : Option CScript := do
  let m ← encodeOP_N nRequired
  let pushes ← keys.mapM pushKey
  let n ← encodeOP_N keys.length
  some (m :: (pushes.flatten ++ [n, OP_CHECKMULTISIG]))

/-- `GetScriptForMultisig`. -/
def getScriptForMultisig (nRequired : ℕ) (keys : List CPubKey) : Option CScript := do
  let m ← encodeOP_N nRequired
  let n ← encodeOP_N keys.length
  some (keys.foldl (fun script key => push script key.bytes) [m] ++ [n, OP_CHECKMULTISIG])

/-! ### Extracting -/

section Extracting

variable (hash160 : List UInt8 → CKeyID)

/-- `CPubKey::GetID`. -/
def getID (key : CPubKey) : CKeyID := hash160 key.bytes

/-- `ExtractDestination`. -/
def extractDestination (s : CScript) : Option CTxDestination :=
  match solver s with
  | (true, .TX_PUBKEY, vSolutions) => some (.keyID (getID hash160 (CPubKey.ofBytes (vSolutions.headD []))))
  | (true, .TX_PUBKEYHASH, vSolutions) => some (.keyID (CKeyID.ofVector (vSolutions.headD [])))
  | (true, .TX_SCRIPTHASH, vSolutions) => some (.scriptID (CKeyID.ofVector (vSolutions.headD [])))
  | _ => none

/-- `ExtractDestinations`, where it returns `true`: the type, the addresses and the number of signatures. -/
def extractDestinations (s : CScript) : Option (TxnOutType × List CTxDestination × ℕ) :=
  match solver s with
  | (false, _, _) => none
  | (true, .TX_NULL_DATA, _) => none
  | (true, .TX_MULTISIG, vSolutions) =>
    some (.TX_MULTISIG, (vSolutions.tail.dropLast).map fun vch => .keyID (getID hash160 (CPubKey.ofBytes vch)),
      ((vSolutions.headD []).headD 0).toNat)
  | (true, type, _) => (extractDestination hash160 s).map fun address => (type, [address], 1)

end Extracting

/-- The key has as many bytes as its header tells. -/
def HasSize (key : CPubKey) : Prop := key.isValid = true ∧ key.bytes.length = key.size

/-! ### Reading what is built -/

theorem nextOp_bytes (d : List UInt8) {t : CScript} (hshort : (push [] d ++ t).length < 2 ^ 32) :
    nextOp (push [] d ++ t) = (some (pushOpcode d, d), t) := by
  have hread := getOpAt_bytes (s := push [] d ++ t) (u := []) (t := t) (b := d) rfl hshort
  rw [List.length_nil, Nat.zero_add] at hread
  rw [nextOp, hread]
  simp only [List.drop_left]

theorem pushHash_eq (id : CKeyID) : pushHash id = push [] id.pn := by
  have hp : OP_PUSHDATA1.toNat = 76 := rfl
  simp [pushHash, push, hp, id.size_eq]

theorem size_of_hasSize {key : CPubKey} (h : HasSize key) : key.size = 33 ∨ key.size = 65 := by
  have hpos := h.1
  rw [CPubKey.isValid, decide_eq_true_eq, CPubKey.size, CPubKey.getLen] at hpos
  rw [CPubKey.size, CPubKey.getLen]
  split at hpos
  · next h => exact .inl (if_pos h)
  · next h =>
    rw [if_neg h]
    split at hpos
    · next h => exact .inr (if_pos h)
    · cases hpos

theorem pushKey_eq {key : CPubKey} (h : HasSize key) : pushKey key = some (push [] key.bytes) := by
  have hp : OP_PUSHDATA1.toNat = 76 := rfl
  have hlt : key.size < 76 := by rcases size_of_hasSize h with h | h <;> omega
  simp [pushKey, push, hp, hlt, h.2]

/-- A key is made again of its bytes. -/
theorem bytes_ofBytes {key : CPubKey} (h : HasSize key) : (CPubKey.ofBytes key.bytes).bytes = key.bytes := by
  have hlen := h.2
  have hsize := size_of_hasSize h
  have hhead : key.bytes.headD 0 = key.vch.headD 0 := by
    rw [CPubKey.bytes] at hlen ⊢
    cases hv : key.vch with
    | nil =>
      rw [hv, List.take_nil, List.length_nil] at hlen
      omega
    | cons c vch =>
      obtain ⟨n, hn⟩ : ∃ n, key.size = n + 1 := ⟨key.size - 1, by omega⟩
      rw [hn, List.take_succ_cons]
      rfl
  have hget : CPubKey.getLen (key.bytes.headD 0) = key.size := by rw [hhead]; rfl
  have hne : key.bytes ≠ [] := fun h => by
    rw [h, List.length_nil] at hlen
    omega
  rw [CPubKey.ofBytes, if_pos ⟨hne, by rw [hget]; omega, by rw [hget, hlen]⟩, CPubKey.bytes, CPubKey.size]
  exact List.take_of_length_le (by rw [hget, hlen])

theorem ofVector_pn (id : CKeyID) : CKeyID.ofVector id.pn = id := by
  rw [CKeyID.ofVector, dif_pos id.size_eq]

theorem extract_keyID (hash160 : List UInt8 → CKeyID) (id : CKeyID) :
    extractDestination hash160 (getScriptForDestination (.keyID id)) = some (.keyID id) := by
  have hshort : (push [] id.pn ++ [OP_EQUALVERIFY, OP_CHECKSIG]).length < 2 ^ 32 := by
    rw [← pushHash_eq, pushHash, List.length_append, List.length_cons, id.size_eq]
    decide
  have hl : Reads (getScriptForDestination (.keyID id))
      [(OP_DUP, []), (OP_HASH160, []), (pushOpcode id.pn, id.pn), (OP_EQUALVERIFY, []), (OP_CHECKSIG, [])] := by
    rw [getScriptForDestination, pushHash_eq]
    exact ⟨_, nextOp_plain (by decide) _, _, nextOp_plain (by decide) _, _, nextOp_bytes id.pn hshort, _,
      nextOp_plain (by decide) _, _, nextOp_plain (by decide) _, rfl⟩
  have hsolver := solver_iff.2 (.inl (.pubkeyhash _ id.pn id.size_eq hl))
  rw [extractDestination, hsolver]
  simp only [List.headD_cons, ofVector_pn]

theorem extract_scriptID (hash160 : List UInt8 → CKeyID) (id : CKeyID) :
    extractDestination hash160 (getScriptForDestination (.scriptID id)) = some (.scriptID id) := by
  have hsolver := solver_iff.2 (.inl (.scripthash (s := getScriptForDestination (.scriptID id)) id.pn id.size_eq rfl))
  rw [extractDestination, hsolver]
  simp only [List.headD_cons, ofVector_pn]

/-! ### Several keys -/

theorem encodeOP_N_eq {n : ℕ} (hn : 1 ≤ n ∧ n ≤ 16) : encodeOP_N n = some (opN n) := by
  rw [encodeOP_N, if_pos hn.2, if_neg (by omega), opN, show OP_1.toNat + n - 1 = n + 0x50 by
    rw [show OP_1.toNat = 81 from rfl]
    omega]

/-- The script of some of the keys. -/
def multisigScript (m : ℕ) (keys : List CPubKey) : CScript :=
  opN m :: (keys.flatMap (fun key => push [] key.bytes) ++ [opN keys.length, OP_CHECKMULTISIG])

theorem setMultisig_eq {m : ℕ} {keys : List CPubKey} (hkeys : ∀ key ∈ keys, HasSize key) (hm : 1 ≤ m ∧ m ≤ keys.length)
    (hn : keys.length ≤ 16) : setMultisig m keys = some (multisigScript m keys) := by
  have hpush : keys.mapM pushKey = some (keys.map fun key => push [] key.bytes) := by
    clear hm hn
    induction keys with
    | nil => rfl
    | cons key keys ih =>
      rw [List.mapM_cons, pushKey_eq (hkeys key (List.mem_cons_self ..)),
        ih fun k hk => hkeys k (List.mem_cons_of_mem _ hk)]
      rfl
  rw [setMultisig, encodeOP_N_eq ⟨hm.1, by omega⟩, encodeOP_N_eq (by omega), hpush]
  simp only [Option.bind_eq_bind, Option.bind_some, multisigScript, List.flatMap_def]

theorem getScriptForMultisig_eq {m : ℕ} {keys : List CPubKey} (hm : 1 ≤ m ∧ m ≤ keys.length) (hn : keys.length ≤ 16) :
    getScriptForMultisig m keys = some (multisigScript m keys) := by
  have hfold : ∀ (keys : List CPubKey) (s : CScript),
      keys.foldl (fun script key => push script key.bytes) s = s ++ keys.flatMap fun key => push [] key.bytes := by
    intro keys
    induction keys with
    | nil => exact fun s => (List.append_nil s).symm
    | cons key keys ih =>
      intro s
      rw [List.foldl_cons, ih, push_eq_append, List.flatMap_cons, List.append_assoc]
  rw [getScriptForMultisig, encodeOP_N_eq ⟨hm.1, by omega⟩, encodeOP_N_eq (by omega)]
  simp only [Option.bind_eq_bind, Option.bind_some, hfold, multisigScript, List.cons_append, List.nil_append]

theorem length_push_key {key : CPubKey} (h : HasSize key) : (push [] key.bytes).length ≤ 66 := by
  have hlen := h.2
  rcases push_cases key.bytes with ⟨-, -, hpush⟩ | ⟨width, hform, -⟩
  · rw [hpush, List.length_cons]
    rcases size_of_hasSize h with h | h <;> omega
  · rcases size_of_hasSize h with h | h <;> rcases hform with ⟨_, _⟩ | ⟨_, _⟩ | ⟨_, _⟩ <;> omega

theorem length_pushes {keys : List CPubKey} (hkeys : ∀ key ∈ keys, HasSize key) :
    (keys.flatMap fun key => push [] key.bytes).length ≤ 66 * keys.length := by
  induction keys with
  | nil => exact le_rfl
  | cons key keys ih =>
    have hkey := length_push_key (hkeys key (List.mem_cons_self ..))
    have hrest := ih fun k hk => hkeys k (List.mem_cons_of_mem _ hk)
    rw [List.flatMap_cons, List.length_append, List.length_cons]
    omega

theorem reads_pushes {keys : List CPubKey} {t : CScript} {l : List Op} (ht : Reads t l)
    (hshort : ((keys.flatMap fun key => push [] key.bytes) ++ t).length < 2 ^ 32) :
    Reads ((keys.flatMap fun key => push [] key.bytes) ++ t)
      ((keys.map fun key => (pushOpcode key.bytes, key.bytes)) ++ l) := by
  induction keys with
  | nil => exact ht
  | cons key keys ih =>
    rw [List.flatMap_cons, List.append_assoc] at hshort ⊢
    refine ⟨_, nextOp_bytes key.bytes hshort, ih ?_⟩
    rw [List.length_append] at hshort
    omega

/-- What `Solver` finds in the script of some of the keys. -/
theorem instance_multisigScript {m : ℕ} {keys : List CPubKey} (hkeys : ∀ key ∈ keys, HasSize key)
    (hm : 1 ≤ m ∧ m ≤ keys.length) (hn : keys.length ≤ 16) :
    Instance (multisigScript m keys) .TX_MULTISIG
      ([UInt8.ofNat m] :: (keys.map CPubKey.bytes ++ [[UInt8.ofNat keys.length]])) := by
  have hplain : ∀ {k : ℕ}, 1 ≤ k → k ≤ 16 → ¬ opN k ≤ OP_PUSHDATA4 := by
    intro k h₁ h₂
    rw [UInt8.le_iff_toNat_le, toNat_opN h₂, show OP_PUSHDATA4.toNat = 78 from rfl]
    omega
  have htail : Reads [opN keys.length, OP_CHECKMULTISIG] [(opN keys.length, []), (OP_CHECKMULTISIG, [])] :=
    ⟨_, nextOp_plain (hplain (by omega) hn) _, _, nextOp_plain (by decide) _, rfl⟩
  have hlen := length_pushes hkeys
  have hl := @reads_pushes keys _ _ htail (by
    rw [List.length_append, List.length_cons, List.length_cons, List.length_nil]
    omega)
  have hkeySize : ∀ op ∈ keys.map fun key => (pushOpcode key.bytes, key.bytes), isKeySize op.2 = true := by
    intro op hop
    obtain ⟨key, hkey, rfl⟩ := List.mem_map.1 hop
    have hlen := (hkeys key hkey).2
    rw [isKeySize, Bool.and_eq_true, decide_eq_true_eq, decide_eq_true_eq]
    rcases size_of_hasSize (hkeys key hkey) with h | h <;> simp only [hlen, h] <;> decide
  have hinstance := Instance.multisig (s := multisigScript m keys) m keys.length
    (keys.map fun key => (pushOpcode key.bytes, key.bytes)) hm hn (List.length_map _) hkeySize
    ⟨_, nextOp_plain (hplain hm.1 (by omega)) _, hl⟩
  rw [List.map_map] at hinstance
  exact hinstance

theorem extract_multisigScript (hash160 : List UInt8 → CKeyID) {m : ℕ} {keys : List CPubKey}
    (hkeys : ∀ key ∈ keys, HasSize key) (hm : 1 ≤ m ∧ m ≤ keys.length) (hn : keys.length ≤ 16) :
    extractDestinations hash160 (multisigScript m keys) =
      some (.TX_MULTISIG, keys.map fun key => .keyID (getID hash160 key), m) := by
  have hsolver := solver_iff.2 (.inl (instance_multisigScript hkeys hm hn))
  have hm' : (UInt8.ofNat m).toNat = m := by rw [UInt8.toNat_ofNat', Nat.mod_eq_of_lt (by omega)]
  have hids : (keys.map CPubKey.bytes).map (fun vch => CTxDestination.keyID (getID hash160 (CPubKey.ofBytes vch))) =
      keys.map fun key => .keyID (getID hash160 key) := by
    rw [List.map_map]
    refine List.map_congr_left fun key hkey => ?_
    simp only [Function.comp, getID, bytes_ofBytes (hkeys key hkey)]
  rw [extractDestinations, hsolver]
  simp only [List.tail_cons, List.dropLast_concat, List.headD_cons, hm', hids]

/-- **What is built is extracted**: a key id or a script id from its script, and the number of signatures and the ids of the
keys from the script that both builders make of them; a script is built of one destination, or one list of keys, only. -/
theorem destinations_roundTrip (hash160 : List UInt8 → CKeyID) (id id' : CKeyID) {m : ℕ} {keys : List CPubKey}
    (hkeys : ∀ key ∈ keys, HasSize key) (hm : 1 ≤ m ∧ m ≤ keys.length) (hn : keys.length ≤ 16) :
    (∀ d ∈ [CTxDestination.keyID id, .scriptID id],
      extractDestination hash160 (getScriptForDestination d) = some d ∧
        ∀ d' ∈ [CTxDestination.keyID id', .scriptID id'], getScriptForDestination d = getScriptForDestination d' → d = d') ∧
    ∃ s, getScriptForMultisig m keys = some s ∧ setMultisig m keys = some s ∧
      extractDestinations hash160 s = some (.TX_MULTISIG, keys.map fun key => .keyID (getID hash160 key), m) ∧
      ∀ (m' : ℕ) (keys' : List CPubKey), (∀ key ∈ keys', HasSize key) → 1 ≤ m' ∧ m' ≤ keys'.length → keys'.length ≤ 16 →
        getScriptForMultisig m' keys' = some s → m' = m ∧ keys'.map CPubKey.bytes = keys.map CPubKey.bytes := by
  have hextract : ∀ (id : CKeyID), ∀ d ∈ [CTxDestination.keyID id, .scriptID id],
      extractDestination hash160 (getScriptForDestination d) = some d := by
    intro id d hd
    rcases List.mem_pair.1 hd with rfl | rfl
    · exact extract_keyID hash160 id
    · exact extract_scriptID hash160 id
  refine ⟨fun d hd => ⟨hextract id d hd, fun d' hd' h => ?_⟩, multisigScript m keys, getScriptForMultisig_eq hm hn,
    setMultisig_eq hkeys hm hn, extract_multisigScript hash160 hkeys hm hn, fun m' keys' hkeys' hm' hn' h => ?_⟩
  · have hd₁ := hextract id d hd
    rw [h, hextract id' d' hd', Option.some.injEq] at hd₁
    exact hd₁.symm
  · rw [getScriptForMultisig_eq hm' hn', Option.some.injEq] at h
    have hinstance := instance_multisigScript hkeys' hm' hn'
    rw [h] at hinstance
    have hsols := (hinstance.unique (instance_multisigScript hkeys hm hn)).2
    rw [List.cons.injEq, List.cons.injEq] at hsols
    have hbytes := (List.append_inj' hsols.2 rfl).1
    exact ⟨ofNat_inj_of_lt (by omega) (by omega) hsols.1.1, hbytes⟩

namespace DestinationSample

/-- A compressed key. -/
def key : CPubKey := ⟨2 :: List.replicate 32 0⟩

theorem hasSize_key : HasSize key := ⟨by decide, by decide⟩

theorem length_hash : (List.replicate 20 (7 : UInt8)).length = 20 := List.length_replicate

def hash : CKeyID := ⟨List.replicate 20 7, length_hash⟩

/-- Two signatures of two equal keys. -/
theorem roundTrip_two :
    extractDestination (fun _ => hash) (getScriptForDestination (.scriptID hash)) = some (.scriptID hash) ∧
      ∃ s, getScriptForMultisig 2 [key, key] = some s ∧ setMultisig 2 [key, key] = some s ∧
        extractDestinations (fun _ => hash) s = some (.TX_MULTISIG, [.keyID hash, .keyID hash], 2) := by
  have hkeys : ∀ k ∈ [key, key], HasSize k := by
    intro k hk
    rcases List.mem_pair.1 hk with rfl | rfl <;> exact hasSize_key
  have h := destinations_roundTrip (fun _ => hash) hash hash hkeys (m := 2) ⟨by decide, by decide⟩ (by decide)
  obtain ⟨s, hget, hset, hextract, -⟩ := h.2
  exact ⟨(h.1 (.scriptID hash) (by simp)).1, s, hget, hset, hextract⟩

end DestinationSample

end CScript

end PayDayCoin
