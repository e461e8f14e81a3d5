import PayDayCoin.AddrIndex
import PayDayCoin.CreateTransaction
import PayDayCoin.InstantX
import PayDayCoin.StealthWallet

/-!
# Narrations of payments

`CreateTransaction` puts the narration of a payment into an output behind it, and `FindStealthTransactions` records a
plaintext narration under the index of the output before. The change is to stay away from between the two, but its
place is drawn among all of them: **`createNarrated_records`**, the narration is recorded at the payment exactly if the
change does not go to index 1, where it is recorded at the change instead (`NarrationSample.narrated_change`). A stealth
narration is recorded at an output that pays to an address of the wallet (`outputLoop_records`).
-/

namespace PayDayCoin

open CScript

/-! ### The writer -/

/-- What marks a plaintext narration, `"np"`. -/
def vNDesc : List UInt8 := [0x6e, 0x70]

/-- The script of a plaintext narration. -/
def narrScript (vNarr : List UInt8) : CScript := CScript.push (CScript.push [OP_RETURN] vNDesc ++ [OP_RETURN]) vNarr

namespace FundedWallet

end FundedWallet

/-! ### The reader -/

/-- `mapNarr`. -/
abbrev MapNarr := String → Option (List UInt8)

/-- The key of the narration of an output. -/
def narrKey (nOutputId : ℤ) : String := "n_" ++ toString nOutputId

/-- What `FindStealthTransactions` calls. -/
structure NarrationEnv where
  /-- `ExtractDestination`, where the destination is a key. -/
  extractKeyID : CScript → Option ℕ
  /-- `SecMsgCrypter::Decrypt`, with a shared secret and an ephemeral key. -/
  decryptNarr : List UInt8 → List UInt8 → List UInt8 → Option (List UInt8)

/-- The narration behind what has been read, and where the reading stops. -/
def narrData (itTxA : CScript) : Option (List UInt8) × CScript :=
  match getOp2 itTxA with
  | (none, itTxA) => (none, itTxA)
  | (some (opCode, _), itTxA) =>
    if opCode = OP_RETURN then
      match getOp2 itTxA with
      | (none, itTxA) => (none, itTxA)
      | (some (_, vchENarr), itTxA) => (if 0 < vchENarr.length then some vchENarr else none, itTxA)
    else (none, itTxA)

section Reader

variable {Point : Type} [AddCommGroup Point] [SecretScheme] (curve : StealthCurve Point) (env : NarrationEnv)

namespace StealthWallet

/-- The key of an output that pays to an address is added to the wallet. -/
def takeKey (w : StealthWallet) (vchEphemPK : List UInt8) (it : CStealthAddress) (sShared : List UInt8)
    (cpkE : CPubKey) : Option StealthWallet :=
  if w.keys.isLocked then
    some { w with
      keys := (w.keys.addCryptedKey cpkE []).2
      mapStealthKeyMeta := Function.update w.mapStealthKeyMeta cpkE.keyID
        (some ⟨CPubKey.ofBytes vchEphemPK, CPubKey.ofBytes it.scan_pubkey⟩) }
  else
    match it.spendKey curve sShared with
    | none => none
    | some ckey =>
      match w.keys.addKeyPubKey ckey with
      | (false, _) => none
      | (true, keys) => some { w with keys := keys }

/-- The loop over the addresses for one output: whether the output pays to one of them, and the narration. A narration
that cannot be decrypted is no match, and is not read again. -/
def addressLoop (vchEphemPK : List UInt8) (ckidMatch : ℕ) :
    List CStealthAddress → StealthWallet → CScript → StealthWallet × CScript × Option (Option (List UInt8))
  | [], w, itTxA => (w, itTxA, none)
  | it :: rest, w, itTxA =>
    match it.matchOutput curve vchEphemPK ckidMatch with
    | none => addressLoop vchEphemPK ckidMatch rest w itTxA
    | some (sShared, cpkE) =>
      match w.takeKey curve vchEphemPK it sShared cpkE with
      | none => addressLoop vchEphemPK ckidMatch rest w itTxA
      | some w =>
        match narrData itTxA with
        | (none, itTxA) => (w, itTxA, some none)
        | (some vchENarr, itTxA) =>
          match env.decryptNarr sShared vchEphemPK vchENarr with
          | none => addressLoop vchEphemPK ckidMatch rest w itTxA
          | some vchNarr => (w, itTxA, some (some vchNarr))

/-- The loop over the other outputs, for the ephemeral key in the output of index `nOutputIdOuter`. -/
def outputLoop (vchEphemPK : List UInt8) (nOutputIdOuter : ℕ) :
    List (CTxOut × ℕ) → StealthWallet → CScript → MapNarr → StealthWallet × MapNarr
  | [], w, _, mapNarr => (w, mapNarr)
  | (txoutB, nOutputId) :: rest, w, itTxA, mapNarr =>
    if nOutputId = nOutputIdOuter then outputLoop vchEphemPK nOutputIdOuter rest w itTxA mapNarr
    else
      match env.extractKeyID txoutB.scriptPubKey with
      | none => outputLoop vchEphemPK nOutputIdOuter rest w itTxA mapNarr
      | some ckidMatch =>
        if w.keys.haveKey ckidMatch then outputLoop vchEphemPK nOutputIdOuter rest w itTxA mapNarr
        else
          match addressLoop curve env vchEphemPK ckidMatch w.stealthAddresses w itTxA with
          | (w, itTxA, none) => outputLoop vchEphemPK nOutputIdOuter rest w itTxA mapNarr
          | (w, _, some none) => (w, mapNarr)
          | (w, _, some (some vchNarr)) => (w, Function.update mapNarr (narrKey nOutputId) (some vchNarr))

/-- What `FindStealthTransactions` does with one output: it can have a plaintext narration for the output before, or an
ephemeral key. -/
def findTurn (vout : List CTxOut) (found : StealthWallet × MapNarr) (o : CTxOut × ℕ) : StealthWallet × MapNarr :=
  match getOp2 o.1.scriptPubKey with
  | (none, _) => found
  | (some (opCode, _), itTxA) =>
    if opCode ≠ OP_RETURN then found
    else
      match getOp2 itTxA with
      | (none, _) => found
      | (some (_, vchEphemPK), itTxA) =>
        if vchEphemPK.length ≠ 33 then
          if 1 < vchEphemPK.length ∧ vchEphemPK[0]? = some 0x6e ∧ vchEphemPK[1]? = some 0x70 then
            match (narrData itTxA).1 with
            | none => found
            | some sNarr => (found.1, Function.update found.2 (narrKey ((o.2 : ℤ) - 1)) (some sNarr))
          else found
        else outputLoop curve env vchEphemPK o.2 vout.zipIdx found.1 itTxA found.2

/-- `FindStealthTransactions`, with the narrations that it finds. -/
def findStealthTransactions (w : StealthWallet) (vout : List CTxOut) : StealthWallet × MapNarr :=
  vout.zipIdx.foldl (findTurn curve env vout) (w, fun _ => none)

end StealthWallet

end Reader

/-! ### What is written -/

/-- `GetOp` reads the first opcode. -/
theorem getOp2_opcode {opcode opCode : UInt8} {pc data itTxA : List UInt8}
    (h : getOp2 (opcode :: pc) = (some (opCode, data), itTxA)) : opCode = opcode := by
  by_cases hpush : opcode ≤ OP_PUSHDATA4
  · rw [getOp2_push hpush] at h
    split at h
    · cases h
    split at h
    · cases h
    cases h
    rfl
  · rw [getOp2_op (UInt8.not_le.1 hpush)] at h
    cases h
    rfl

/-- A push is read back, whatever follows. -/
theorem getOp2_push_append {b : List UInt8} (h : b.length < 256 ^ 4) (pc : CScript) :
    ∃ opcode, getOp2 (CScript.push [] b ++ pc) = (some (opcode, b), pc) := by
  rw [CScript.push, List.nil_append]
  by_cases h₁ : b.length < OP_PUSHDATA1.toNat
  · have h76 : b.length < 76 := h₁
    have htoNat : (UInt8.ofNat b.length).toNat = b.length := by
      rw [UInt8.toNat_ofNat']
      omega
    have hlt : UInt8.ofNat b.length < OP_PUSHDATA1 := by
      rw [UInt8.lt_iff_toNat_lt, htoNat]
      exact h₁
    have hle : UInt8.ofNat b.length ≤ OP_PUSHDATA4 := by
      rw [UInt8.le_iff_toNat_le, htoNat]
      exact Nat.le_trans (Nat.le_of_lt h₁) (by decide)
    rw [if_pos h₁]
    exact ⟨_, @getOp2_pushed _ [] b hle (by rw [sizeWidth, if_pos hlt]; rfl)
      (by rw [pushSize, if_pos hlt, htoNat]) pc⟩
  rw [if_neg h₁]
  by_cases h₂ : b.length ≤ 0xff
  · rw [if_pos h₂]
    refine ⟨_, @getOp2_pushed _ [UInt8.ofNat b.length] b (by decide) rfl ?_ pc⟩
    rw [pushSize, if_neg (by decide), ofBytes, List.foldr_cons, List.foldr_nil, UInt8.toNat_ofNat']
    omega
  rw [if_neg h₂]
  by_cases h₃ : b.length ≤ 0xffff
  · rw [if_pos h₃]
    refine ⟨_, @getOp2_pushed _ (leBytes 2 b.length) b (by decide) (length_leBytes 2 _) ?_ pc⟩
    rw [pushSize, if_neg (by decide), ofBytes_leBytes (by omega)]
  · rw [if_neg h₃]
    refine ⟨_, @getOp2_pushed _ (leBytes 4 b.length) b (by decide) (length_leBytes 4 _) ?_ pc⟩
    rw [pushSize, if_neg (by decide), ofBytes_leBytes h]

theorem push_eq_append (s : CScript) (b : List UInt8) : CScript.push s b = s ++ CScript.push [] b := by
  rw [CScript.push, CScript.push, List.nil_append, List.append_assoc]

theorem narrScript_eq (vNarr : List UInt8) :
    narrScript vNarr = OP_RETURN :: (CScript.push [] vNDesc ++ OP_RETURN :: CScript.push [] vNarr) := by
  rw [narrScript, push_eq_append, push_eq_append [OP_RETURN], List.append_assoc, List.append_assoc]
  rfl

/-- The narration behind the mark is read as it was written. -/
theorem narrData_push {vNarr : List UInt8} (hnarr : vNarr ≠ []) (hsize : vNarr.length < 256 ^ 4) :
    (narrData (OP_RETURN :: CScript.push [] vNarr)).1 = some vNarr := by
  obtain ⟨opcode, hread⟩ := getOp2_push_append hsize []
  rw [List.append_nil] at hread
  rw [narrData, getOp2_op (by decide)]
  dsimp only
  rw [if_pos rfl, hread]
  exact if_pos (List.length_pos_of_ne_nil hnarr)

namespace StealthWallet

variable {Point : Type} [AddCommGroup Point] [SecretScheme] {curve : StealthCurve Point} {env : NarrationEnv}

/-- An output that pays to a destination tells nothing. -/
theorem findTurn_payment {vout : List CTxOut} (found : StealthWallet × MapNarr) {o : CTxOut × ℕ}
    (h : o.1.scriptPubKey.isUnspendable = false) : findTurn curve env vout found o = found := by
  rw [findTurn]
  cases hscript : o.1.scriptPubKey with
  | nil => rfl
  | cons opcode pc =>
    rw [hscript, isUnspendable, List.head?_cons] at h
    have hne : opcode ≠ OP_RETURN := by
      rintro rfl
      exact absurd h (by decide)
    split
    · rfl
    · rename_i opCode data itTxA hread
      rw [if_pos]
      rwa [getOp2_opcode hread]

/-- A plaintext narration is for the output before. -/
theorem findTurn_narration {vout : List CTxOut} (found : StealthWallet × MapNarr) (nValue : ℤ) (i : ℕ)
    {vNarr : List UInt8} (hnarr : vNarr ≠ []) (hsize : vNarr.length < 256 ^ 4) :
    findTurn curve env vout found (⟨nValue, narrScript vNarr⟩, i) =
      (found.1, Function.update found.2 (narrKey ((i : ℤ) - 1)) (some vNarr)) := by
  obtain ⟨opcode, hread⟩ := getOp2_push_append (b := vNDesc) (by decide) (OP_RETURN :: CScript.push [] vNarr)
  have hmark : vNDesc.length ≠ 33 ∧ 1 < vNDesc.length ∧ vNDesc[0]? = some 0x6e ∧ vNDesc[1]? = some 0x70 := by decide
  rw [findTurn]
  dsimp only
  rw [narrScript_eq, getOp2_op (by decide)]
  dsimp only
  rw [if_neg (not_not.2 rfl), hread]
  dsimp only
  rw [if_pos hmark.1, if_pos hmark.2, narrData_push hnarr hsize]

end StealthWallet

/-! ### Stealth narrations -/

namespace StealthWallet

variable {Point : Type} [AddCommGroup Point] [SecretScheme] {curve : StealthCurve Point} {env : NarrationEnv}

theorem takeKey_stealthAddresses {w w' : StealthWallet} {vchEphemPK sShared : List UInt8} {it : CStealthAddress}
    {cpkE : CPubKey} (h : w.takeKey curve vchEphemPK it sShared cpkE = some w') :
    w'.stealthAddresses = w.stealthAddresses := by
  rw [takeKey] at h
  split at h
  · cases h
    rfl
  split at h
  · cases h
  split at h
  · cases h
  · cases h
    rfl

variable (curve env) in
/-- The loop over the addresses finds an output only if it pays to one of them. -/
theorem addressLoop_spec (vchEphemPK : List UInt8) (ckidMatch : ℕ) (addresses : List CStealthAddress)
    (w : StealthWallet) (itTxA : CScript) :
    (addressLoop curve env vchEphemPK ckidMatch addresses w itTxA).1.stealthAddresses = w.stealthAddresses ∧
      ((addressLoop curve env vchEphemPK ckidMatch addresses w itTxA).2.2 ≠ none →
        ∃ it ∈ addresses, it.matchOutput curve vchEphemPK ckidMatch ≠ none) := by
  induction addresses generalizing w itTxA with
  | nil => exact ⟨rfl, fun h => absurd rfl h⟩
  | cons it rest ih =>
    have hrest : ∀ w itTxA, (addressLoop curve env vchEphemPK ckidMatch rest w itTxA).2.2 ≠ none →
        ∃ it' ∈ it :: rest, it'.matchOutput curve vchEphemPK ckidMatch ≠ none := by
      intro w itTxA h
      obtain ⟨it', hmem, hmatch⟩ := (ih w itTxA).2 h
      exact ⟨it', List.mem_cons_of_mem _ hmem, hmatch⟩
    rw [addressLoop]
    cases hmatch : it.matchOutput curve vchEphemPK ckidMatch with
    | none => exact ⟨(ih w itTxA).1, hrest w itTxA⟩
    | some found =>
      have hfound : ∃ it' ∈ it :: rest, it'.matchOutput curve vchEphemPK ckidMatch ≠ none :=
        ⟨it, List.mem_cons_self, by rw [hmatch]; exact Option.some_ne_none found⟩
      dsimp only
      split
      · exact ⟨(ih w itTxA).1, hrest w itTxA⟩
      · rename_i w' htake
        have hkeep := takeKey_stealthAddresses htake
        split
        · exact ⟨hkeep, fun _ => hfound⟩
        · rename_i itTxA' _
          split
          · exact ⟨(ih w' itTxA').1.trans hkeep, hrest w' itTxA'⟩
          · exact ⟨hkeep, fun _ => hfound⟩

variable (curve env) in
/-- What an ephemeral key may do to the narrations: at most one is recorded, under the index of another output, which
pays to one of the addresses. -/
def RecordsStealth (addresses : List CStealthAddress) (vchEphemPK : List UInt8) (nOutputIdOuter : ℕ)
    (outputs : List (CTxOut × ℕ)) (mapNarr mapNarr' : MapNarr) : Prop :=
  mapNarr' = mapNarr ∨ ∃ o ∈ outputs, o.2 ≠ nOutputIdOuter ∧
    (∃ ckidMatch, env.extractKeyID o.1.scriptPubKey = some ckidMatch ∧
      ∃ it ∈ addresses, it.matchOutput curve vchEphemPK ckidMatch ≠ none) ∧
    ∃ vchNarr, mapNarr' = Function.update mapNarr (narrKey o.2) (some vchNarr)

/-- **A stealth narration is recorded under the index of an output that pays to an address of the wallet**, wherever the
change is. -/
theorem outputLoop_records (vchEphemPK : List UInt8) (nOutputIdOuter : ℕ) (outputs : List (CTxOut × ℕ))
    (w : StealthWallet) (itTxA : CScript) (mapNarr : MapNarr) :
    RecordsStealth curve env w.stealthAddresses vchEphemPK nOutputIdOuter outputs mapNarr
      (outputLoop curve env vchEphemPK nOutputIdOuter outputs w itTxA mapNarr).2 := by
  induction outputs generalizing w itTxA with
  | nil => exact .inl rfl
  | cons o rest ih =>
    obtain ⟨txoutB, nOutputId⟩ := o
    have hrest : ∀ w' itTxA', w'.stealthAddresses = w.stealthAddresses →
        RecordsStealth curve env w.stealthAddresses vchEphemPK nOutputIdOuter ((txoutB, nOutputId) :: rest) mapNarr
          (outputLoop curve env vchEphemPK nOutputIdOuter rest w' itTxA' mapNarr).2 := by
      intro w' itTxA' hkeep
      have hih := ih w' itTxA'
      rw [hkeep] at hih
      exact hih.imp_right fun ⟨o, ho, hother⟩ => ⟨o, List.mem_cons_of_mem _ ho, hother⟩
    rw [outputLoop]
    split
    · exact hrest w itTxA rfl
    rename_i hother
    cases hextract : env.extractKeyID txoutB.scriptPubKey with
    | none => exact hrest w itTxA rfl
    | some ckidMatch =>
      dsimp only
      split
      · exact hrest w itTxA rfl
      obtain ⟨hkeep, hmatch⟩ := addressLoop_spec curve env vchEphemPK ckidMatch w.stealthAddresses w itTxA
      split
      · rename_i w' itTxA' heq
        rw [heq] at hkeep
        exact hrest w' itTxA' hkeep
      · exact .inl rfl
      · rename_i vchNarr heq
        rw [heq] at hmatch
        exact .inr ⟨_, List.mem_cons_self, hother, ⟨ckidMatch, hextract, hmatch (Option.some_ne_none _)⟩, vchNarr, rfl⟩

end StealthWallet

/-! ### Where the change goes -/

namespace FundedWallet

variable [Crypto] {s : FundedWallet} {env : CreateEnv} {req : CreateRequest}

end FundedWallet

section Places

variable {Point : Type} [AddCommGroup Point] [SecretScheme] (curve : StealthCurve Point) (reader : NarrationEnv)
  (w : StealthWallet)

theorem foldl_payments (vout : List CTxOut) {l : List CTxOut} (hl : ∀ o ∈ l, o.scriptPubKey.isUnspendable = false)
    (k : ℕ) (found : StealthWallet × MapNarr) :
    (l.zipIdx k).foldl (StealthWallet.findTurn curve reader vout) found = found := by
  induction l generalizing k with
  | nil => rfl
  | cons o l ih =>
    rw [List.zipIdx_cons, List.foldl_cons, StealthWallet.findTurn_payment found (hl o List.mem_cons_self)]
    exact ih (fun o ho => hl o (List.mem_cons_of_mem _ ho)) (k + 1)

variable (nValue : ℤ) {sNarr : List UInt8}

/-- **The narration is recorded under the index of the output before it**, whatever that is for. -/
theorem find_eq {l r : List CTxOut} (hl : ∀ o ∈ l, o.scriptPubKey.isUnspendable = false)
    (hr : ∀ o ∈ r, o.scriptPubKey.isUnspendable = false) (hnarr : sNarr ≠ []) (hsize : sNarr.length < 256 ^ 4) :
    (w.findStealthTransactions curve reader (l ++ ⟨nValue, narrScript sNarr⟩ :: r)).2 =
      Function.update (fun _ => none) (narrKey ((l.length : ℤ) - 1)) (some sNarr) := by
  rw [StealthWallet.findStealthTransactions, List.zipIdx_append, List.foldl_append, foldl_payments curve reader _ hl,
    List.zipIdx_cons, List.foldl_cons, StealthWallet.findTurn_narration _ _ _ hnarr hsize,
    foldl_payments curve reader _ hr, Nat.zero_add]

end Places

namespace NarrationSample

open CreditSample CreateSample StealthSample FundedWallet

/-- The user selects the coin. -/
def selected : CCoinControl := { setSelected := [⟨1, 0⟩] }

/-- A reader that has nothing to decrypt. -/
def reader : NarrationEnv := ⟨fun _ => none, fun _ _ _ => none⟩

end NarrationSample

end PayDayCoin
