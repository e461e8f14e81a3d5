import PayDayCoin.ScriptFlags
import PayDayCoin.SignFinalTransaction

/-!
# Signing an input

`SignSignature` asks `Solver` with the keys of a store for the script of an input, for a payment to a script once more for
the script behind the hash, and verifies what it has made.

**`signSignature_spends`**: what is paid to keys of the store, alone, in common or behind the hash of a script, the store
spends, and validation accepts the input whatever flags it takes.
-/

namespace PayDayCoin

open CScript

/-! ### Signing -/

/-- `CKeyStore`: `GetKey`, with what `CKey::Sign` of the key makes of a hash, `GetPubKey` and `GetCScript`. -/
structure CKeyStore where
  getKey : CKeyID → Option (Uint256 → Option Valtype)
  getPubKey : CKeyID → Option CPubKey
  getCScript : CKeyID → Option CScript

/-- `Sign1`, and the script after it. -/
def sign1 (address : CKeyID) (keystore : CKeyStore) (hash : Uint256) (nHashType : Int32) (scriptSigRet : CScript) :
    Bool × CScript :=
  match keystore.getKey address with
  | none => (false, scriptSigRet)
  | some key =>
    match key hash with
    | none => (false, scriptSigRet)
    | some vchSig => (true, push scriptSigRet (vchSig ++ [nHashType.toUInt32.toUInt8]))

section Solver

variable [ScriptCrypto]

/-- The loop of `SignN`: how many have signed, and the script. -/
def signNLoop (keystore : CKeyStore) (hash : Uint256) (nHashType : Int32) (nRequired : ℕ) :
    List Valtype → ℕ → CScript → ℕ × CScript
  | [], nSigned, scriptSigRet => (nSigned, scriptSigRet)
  | pubkey :: pubkeys, nSigned, scriptSigRet =>
    if nSigned < nRequired then
      let r := sign1 (getID ScriptCrypto.hash160 (.ofBytes pubkey)) keystore hash nHashType scriptSigRet
      signNLoop keystore hash nHashType nRequired pubkeys (if r.1 then nSigned + 1 else nSigned) r.2
    else (nSigned, scriptSigRet)

/-- `SignN`, and the script after it. -/
def signN (multisigdata : List Valtype) (keystore : CKeyStore) (hash : Uint256) (nHashType : Int32) (scriptSigRet : CScript) :
    Bool × CScript :=
  let nRequired := ((multisigdata.headD []).headD 0).toNat
  let r := signNLoop keystore hash nHashType nRequired multisigdata.tail.dropLast 0 scriptSigRet
  (r.1 == nRequired, r.2)

/-- `Solver` with keys: whether it has solved the script, the script of the input and the type. -/
def solverSign (keystore : CKeyStore) (scriptPubKey : CScript) (hash : Uint256) (nHashType : Int32) :
    Bool × CScript × TxnOutType :=
  match solver scriptPubKey with
  | (false, whichTypeRet, _) => (false, [], whichTypeRet)
  | (true, .TX_PUBKEY, vSolutions) =>
    let r := sign1 (getID ScriptCrypto.hash160 (.ofBytes (vSolutions.headD []))) keystore hash nHashType []
    (r.1, r.2, .TX_PUBKEY)
  | (true, .TX_PUBKEYHASH, vSolutions) =>
    let keyID := CKeyID.ofVector (vSolutions.headD [])
    let r := sign1 keyID keystore hash nHashType []
    if r.1 then
      -- a key that is not found is pushed as it was made, and is never too long to be pushed
      (true, r.2 ++ (pushKey ((keystore.getPubKey keyID).getD ⟨[0xFF]⟩)).getD [], .TX_PUBKEYHASH)
    else (false, r.2, .TX_PUBKEYHASH)
  | (true, .TX_SCRIPTHASH, vSolutions) =>
    match keystore.getCScript (CKeyID.ofVector (vSolutions.headD [])) with
    | none => (false, [], .TX_SCRIPTHASH)
    | some script => (true, script, .TX_SCRIPTHASH)
  | (true, .TX_MULTISIG, vSolutions) =>
    let r := signN vSolutions keystore hash nHashType [OP_0]
    (r.1, r.2, .TX_MULTISIG)
  | (true, whichTypeRet, _) => (false, [], whichTypeRet)

/-- `SignSignature` of an input that the transaction has, and the transaction after it. -/
def signSignature (keystore : CKeyStore) (fromPubKey : CScript) (txTo : CTransaction) (nIn : ℕ) (nHashType : Int32) :
    Bool × CTransaction :=
  let r := solverSign keystore fromPubKey (signatureHash fromPubKey txTo nIn nHashType) nHashType
  let signed := txTo.setScriptSig nIn r.2.1
  if !r.1 then (false, signed)
  else if r.2.2 = .TX_SCRIPTHASH then
    let subscript := r.2.1
    let sub := solverSign keystore subscript (signatureHash subscript signed nIn nHashType) nHashType
    let scriptSig := push sub.2.1 subscript
    let signed := signed.setScriptSig nIn scriptSig
    if !(sub.1 && sub.2.2 != .TX_SCRIPTHASH) then (false, signed)
    else (verifyScriptChecker scriptSig fromPubKey STANDARD_SCRIPT_VERIFY_FLAGS signed nIn, signed)
  else (verifyScriptChecker r.2.1 fromPubKey STANDARD_SCRIPT_VERIFY_FLAGS signed nIn, signed)

end Solver

/-! ### The hash that is signed -/

theorem setScriptSig_setScriptSig (tx : CTransaction) (nIn : ℕ) (s s' : CScript) :
    (tx.setScriptSig nIn s).setScriptSig nIn s' = tx.setScriptSig nIn s' := by
  simp only [CTransaction.setScriptSig, CTransaction.mk.injEq, and_true, true_and]
  refine List.ext_getElem? fun i => ?_
  simp only [List.getElem?_modify]
  split <;> cases tx.vin[i]? <;> rfl

theorem blankInputs_modify (scriptCode s : CScript) (nIn : ℕ) (fWildcard : Bool) (vin : List CTxIn) :
    blankInputs scriptCode nIn fWildcard (vin.modify nIn fun txin => { txin with scriptSig := s }) =
      blankInputs scriptCode nIn fWildcard vin := by
  refine List.ext_getElem? fun i => ?_
  simp only [blankInputs, List.getElem?_mapIdx, List.getElem?_modify]
  by_cases hi : nIn = i
  · subst hi
    simp only [if_true]
    cases vin[nIn]? <;> rfl
  · simp only [if_neg hi]
    cases vin[i]? <;> rfl

/-- A signature does not sign the script of the input. -/
theorem signatureHash_setScriptSig [SignatureScheme] (scriptCode s : CScript) (txTo : CTransaction) (nIn : ℕ)
    (nHashType : Int32) :
    signatureHash scriptCode (txTo.setScriptSig nIn s) nIn nHashType = signatureHash scriptCode txTo nIn nHashType := by
  have hsigned : signedTx scriptCode (txTo.setScriptSig nIn s) nIn nHashType = signedTx scriptCode txTo nIn nHashType := by
    simp only [signedTx, CTransaction.setScriptSig, blankInputs_modify]
    rfl
  rw [signatureHash, signatureHash, hsigned]
  simp only [CTransaction.setScriptSig, List.length_modify]

/-! ### What FindAndDelete leaves -/

theorem split_flatten {l : List CScript} (hl : ∀ b ∈ l, IsInstruction b) (hshort : l.flatten.length < 2 ^ 32) :
    split l.flatten = (l, []) := by
  induction l with
  | nil => rfl
  | cons b l ih =>
    have hb := split_instruction (hl b List.mem_cons_self)
    rw [List.flatten_cons] at hshort ⊢
    have hrest : l.flatten.length < 2 ^ 32 := by
      rw [List.length_append] at hshort
      omega
    rw [split_append (by rw [hb]) hshort, hb, ih (fun b' hb' => hl b' (List.mem_cons_of_mem _ hb')) hrest]
    rfl

/-- Signatures that a script does not push are not deleted from it. -/
theorem dropSigs_flatten {l : List CScript} (hl : ∀ b ∈ l, IsInstruction b) (hshort : l.flatten.length < 2 ^ 32)
    {sigs : List Valtype} (hsigs : ∀ vchSig ∈ sigs, (push [] vchSig).length < 2 ^ 32 ∧ push [] vchSig ∉ l) :
    dropSigs l.flatten sigs = l.flatten := by
  induction sigs with
  | nil => rfl
  | cons vchSig sigs ih =>
    obtain ⟨hlen, hnot⟩ := hsigs vchSig List.mem_cons_self
    have hkeep : l.filter (· ≠ push [] vchSig) = l := by
      rw [List.filter_eq_self]
      intro b hb
      rw [decide_eq_true_eq]
      rintro rfl
      exact hnot hb
    have hdelete : findAndDelete l.flatten (push [] vchSig) = l.flatten := by
      rw [← fst_findAndDeleteCounting hshort, findAndDelete_eq (isInstruction_push hlen) hshort, split_flatten hl hshort,
        hkeep, List.append_nil]
    rw [dropSigs, List.foldl_cons, hdelete]
    exact ih fun s hs => hsigs s (List.mem_cons_of_mem _ hs)

/-! ### Scripts of pushes -/

theorem length_push_nil_le (d : Valtype) : (push [] d).length ≤ d.length + 5 := by
  rcases push_cases d with ⟨-, -, h⟩ | ⟨width, hform, h⟩
  · rw [h, List.length_cons]
    omega
  · rw [h, List.length_cons, List.length_append, length_leBytes]
    rcases hform with ⟨_, _, hwidth, _⟩ | ⟨_, _, hwidth, _⟩ | ⟨_, hwidth, _⟩ <;> omega

theorem length_lt_push (d : Valtype) : d.length < (push [] d).length := by
  rcases push_cases d with ⟨-, -, h⟩ | ⟨width, -, h⟩
  · rw [h, List.length_cons]
    omega
  · rw [h, List.length_cons, List.length_append]
    omega

theorem length_flatMap_push {l : List Valtype} (hl : ∀ d ∈ l, d.length ≤ 73) :
    (l.flatMap (push [])).length ≤ 78 * l.length := by
  induction l with
  | nil => exact le_rfl
  | cons d l ih =>
    have hd := length_push_nil_le d
    have hsmall := hl d List.mem_cons_self
    have hrest := ih fun d hd => hl d (List.mem_cons_of_mem _ hd)
    rw [List.flatMap_cons, List.length_append, List.length_cons]
    omega

theorem isPushOnly_pushes {l : List Valtype} (hshort : (l.flatMap (push [])).length < 2 ^ 32) :
    CScript.isPushOnly (l.flatMap (push [])) = true := by
  have hloop : ∀ fuel, (l.flatMap (push [])).length ≤ fuel → pushOnlyLoop fuel (l.flatMap (push [])) = true := by
    induction l with
    | nil => exact fun fuel _ => by cases fuel <;> rfl
    | cons d l ih =>
      intro fuel hfuel
      rw [List.flatMap_cons] at hshort hfuel ⊢
      have hget : getOp2 (push [] d ++ l.flatMap (push [])) = (some (pushOpcode d, d), l.flatMap (push [])) := by
        rw [← nextOp_eq_getOp2 hshort, nextOp_bytes d hshort]
      have hlt := length_getOp2_lt hget
      have h16 : ¬ OP_16 < pushOpcode d := fun h => absurd (UInt8.lt_of_lt_of_le h (pushOpcode_le d)) (by decide)
      obtain ⟨n, rfl⟩ : ∃ n, fuel = n + 1 := ⟨fuel - 1, by omega⟩
      obtain ⟨c, pc, hpc⟩ : ∃ c pc, push [] d ++ l.flatMap (push []) = c :: pc :=
        List.exists_cons_of_length_pos (by omega)
      rw [hpc] at hget hfuel hlt hshort ⊢
      rw [pushOnlyLoop, hget]
      dsimp only
      rw [if_neg h16]
      exact ih (by omega) n (by omega)
  exact hloop _ le_rfl

theorem push_ne_op (d : Valtype) {c : UInt8} (hc : ¬ c ≤ OP_PUSHDATA4) : push [] d ≠ [c] := by
  intro h
  have hle := pushOpcode_le d
  rcases push_cases d with ⟨-, -, hpush⟩ | ⟨width, -, hpush⟩
  all_goals
    rw [hpush] at h
    rw [(List.cons.inj h).1] at hle
    exact hc hle

theorem isInstruction_op {c : UInt8} (hc : ¬ c ≤ OP_PUSHDATA4) : IsInstruction [c] := ⟨(c, []), nextOp_plain hc []⟩

/-- A signature starts unlike a key. -/
theorem ne_of_isCompressedOrUncompressedPubKey {vchSig vchPubKey : Valtype} (hsig : vchSig.getD 0 0 = 0x30)
    (hkey : isCompressedOrUncompressedPubKey vchPubKey = true) : vchSig ≠ vchPubKey := by
  rintro rfl
  have hhead : vchSig.headD 0 = 0x30 := by
    rw [← hsig]
    cases vchSig <;> rfl
  rw [isCompressedOrUncompressedPubKey, hhead] at hkey
  simp at hkey

theorem push_ne_push {d d' : Valtype} (hd : d.length ≤ 73) (hne : d ≠ d') : push [] d ≠ push [] d' := fun h =>
  hne (push_inj (by have := length_push_nil_le d; omega) h)

/-- Signatures that are none of the data that a script pushes are not deleted from it. -/
theorem dropSigs_instructions {sigs : List Valtype} (hsigs : ∀ vchSig ∈ sigs, vchSig.length ≤ 73) {l : List CScript}
    (hl : ∀ b ∈ l, (∃ c, ¬ c ≤ OP_PUSHDATA4 ∧ b = [c]) ∨ ∃ d : Valtype, d.length ≤ 73 ∧ d ∉ sigs ∧ b = push [] d)
    (hshort : l.flatten.length < 2 ^ 32) : dropSigs l.flatten sigs = l.flatten := by
  refine dropSigs_flatten (fun b hb => ?_) hshort fun vchSig hsig => ?_
  · rcases hl b hb with ⟨c, hc, rfl⟩ | ⟨d, hd, -, rfl⟩
    · exact isInstruction_op hc
    · have hle := length_push_nil_le d
      exact isInstruction_push (by omega)
  · have hmax := hsigs vchSig hsig
    have hle := length_push_nil_le vchSig
    refine ⟨by omega, fun hmem => ?_⟩
    rcases hl _ hmem with ⟨c, hc, heq⟩ | ⟨d, hd, hnot, heq⟩
    · exact push_ne_op vchSig hc heq
    · exact push_ne_push hmax (fun h : vchSig = d => hnot (h ▸ hsig)) heq

/-! ### The standard scripts -/

theorem solver_keyID (id : CKeyID) :
    solver (getScriptForDestination (.keyID id)) = (true, .TX_PUBKEYHASH, [id.pn]) := by
  have hshort : (push [] id.pn ++ [OP_EQUALVERIFY, OP_CHECKSIG]).length < 2 ^ 32 := by
    rw [← pushHash_eq, pushHash, List.length_append, List.length_cons, id.size_eq]
    decide
  refine solver_iff.2 (.inl (.pubkeyhash (pushOpcode id.pn) id.pn id.size_eq ?_))
  rw [getScriptForDestination, pushHash_eq]
  exact ⟨_, nextOp_plain (by decide) _, _, nextOp_plain (by decide) _, _, nextOp_bytes id.pn hshort, _,
    nextOp_plain (by decide) _, _, nextOp_plain (by decide) _, rfl⟩

theorem solver_scriptID (id : CKeyID) :
    solver (getScriptForDestination (.scriptID id)) = (true, .TX_SCRIPTHASH, [id.pn]) :=
  solver_iff.2 (.inl (.scripthash (s := getScriptForDestination (.scriptID id)) id.pn id.size_eq rfl))

theorem opN_not_push {n : ℕ} (h₁ : 1 ≤ n) (h₂ : n ≤ 16) : ¬ opN n ≤ OP_PUSHDATA4 := by
  rw [UInt8.le_iff_toNat_le, toNat_opN h₂, show OP_PUSHDATA4.toNat = 78 from rfl]
  omega

theorem length_multisigScript {m : ℕ} {keys : List CPubKey} (hkeys : ∀ key ∈ keys, HasSize key)
    (hm : 1 ≤ m ∧ m ≤ keys.length) (hn : keys.length ≤ 16) :
    36 ≤ (multisigScript m keys).length ∧ (multisigScript m keys).length ≤ 1059 := by
  have hmax := length_pushes hkeys
  simp only [multisigScript, List.length_cons, List.length_append, List.length_nil]
  refine ⟨?_, by omega⟩
  cases keys with
  | nil => exact absurd (hm.1.trans hm.2) (by decide)
  | cons key keys =>
    have hkey := hkeys key List.mem_cons_self
    have hlt := length_lt_push key.bytes
    rw [hkey.2] at hlt
    rw [List.flatMap_cons, List.length_append]
    rcases size_of_hasSize hkey with h | h <;> omega

/-- Signatures are not deleted from the script of several keys. -/
theorem dropSigs_multisigScript {m : ℕ} {keys : List CPubKey}
    (hkeys : ∀ key ∈ keys, HasSize key ∧ isCompressedOrUncompressedPubKey key.bytes = true) (hm : 1 ≤ m)
    (hn : keys.length ≤ 16) (hle : m ≤ keys.length) {sigs : List Valtype}
    (hsigs : ∀ vchSig ∈ sigs, vchSig.length ≤ 73 ∧ vchSig.getD 0 0 = 0x30) :
    dropSigs (multisigScript m keys) sigs = multisigScript m keys := by
  have hlen := length_multisigScript (fun key hkey => (hkeys key hkey).1) ⟨hm, hle⟩ hn
  have hscript : multisigScript m keys =
      ([opN m] :: ((keys.map fun key => push [] key.bytes) ++ [[opN keys.length], [OP_CHECKMULTISIG]])).flatten := by
    rw [multisigScript, List.flatMap_def]
    simp
  rw [hscript] at hlen ⊢
  refine dropSigs_instructions (fun s hs => (hsigs s hs).1) ?_ (by omega)
  intro b hb
  rcases List.mem_cons.1 hb with rfl | hb
  · exact .inl ⟨_, opN_not_push hm (by omega), rfl⟩
  rcases List.mem_append.1 hb with hb | hb
  · obtain ⟨key, hkey, rfl⟩ := List.mem_map.1 hb
    obtain ⟨hsize, hencoding⟩ := hkeys key hkey
    refine .inr ⟨key.bytes, ?_, fun hin => ?_, rfl⟩
    · rw [hsize.2]
      rcases size_of_hasSize hsize with h | h <;> omega
    · exact ne_of_isCompressedOrUncompressedPubKey (hsigs _ hin).2 hencoding rfl
  · rcases List.mem_pair.1 hb with rfl | rfl
    · exact .inl ⟨_, opN_not_push (by omega) hn, rfl⟩
    · exact .inl ⟨_, by decide, rfl⟩

section Pushed

variable [ScriptCrypto] {E : Evaluator} (hE : ∀ vch c, E.checkPush vch c = true)

include hE

theorem evalScript_pushes {l : List Valtype} (hl : ∀ d ∈ l, d.length ≤ MAX_SCRIPT_ELEMENT_SIZE)
    (hlen : (l.flatMap (push [])).length ≤ 10000) (hfew : l.length ≤ 1000) :
    evalScript E [] (l.flatMap (push [])) = some l.reverse := by
  have hpushes := @evalFrom_pushes _ _ hE l hl [] (by rw [List.append_nil]; omega) [] (by decide) 0 (l.flatMap (push []))
  rw [List.append_nil, List.append_nil, List.length_nil, Nat.zero_add, if_pos hfew, evalFrom_nil] at hpushes
  rw [evalScript_eq hlen, startFrame, hpushes]
  rfl

/-- A payment to a key that is written out. -/
theorem evalScript_pubkey {pubKey : CPubKey} (hkey : HasSize pubKey) {vchSig : Valtype}
    (henc : E.checkEncodings vchSig pubKey.bytes = true)
    (hsig : E.checkSig vchSig pubKey.bytes (dropSigs (push [] pubKey.bytes ++ [OP_CHECKSIG]) [vchSig]) = true) :
    evalScript E [vchSig] (push [] pubKey.bytes ++ [OP_CHECKSIG]) = some [vchTrue] := by
  have hlen := length_push_key hkey
  have hsize : pubKey.bytes.length ≤ MAX_SCRIPT_ELEMENT_SIZE := by
    rw [hkey.2, MAX_SCRIPT_ELEMENT_SIZE]
    rcases size_of_hasSize hkey with h | h <;> omega
  have hscript : (push [] pubKey.bytes ++ [OP_CHECKSIG]).length ≤ 67 := by
    rw [List.length_append, List.length_singleton]
    omega
  rw [evalScript_eq (by omega), startFrame, evalFrom_push hE (by omega) hsize rfl, sizeLimit, if_neg (by simp),
    Option.bind_some, evalFrom_case (.OP_CHECKSIG false) (by decide) (by decide) (by decide) _ rfl (by norm_num)]
  simp only [evalCase, henc, hsig, Frame.pushCheck, Bool.not_true, Bool.false_eq_true, if_false, if_true, Option.bind_some]
  rw [sizeLimit, if_neg (by simp), Option.bind_some, evalFrom_nil]
  rfl

end Pushed

/-! ### Spending -/

section Spending

variable [ScriptCrypto]

theorem isLowDERSignature_bounds {vchSig : Valtype} (h : isLowDERSignature vchSig = true) :
    9 ≤ vchSig.length ∧ vchSig.length ≤ 73 ∧ vchSig.getD 0 0 = 0x30 := by
  rw [isLowDERSignature, Bool.and_eq_true] at h
  have hder := h.1
  simp only [isDERSignature, Bool.and_eq_true, decide_eq_true_eq, beq_iff_eq] at hder
  exact ⟨hder.1.1.1.1.1.1.1, hder.1.1.1.1.1.1.2, hder.1.1.1.1.1.2⟩

/-- What a script of the input has to push so that a script is spent, whatever flags validation takes. -/
structure SpentBy (script : CScript) (tx : CTransaction) (nIn : ℕ) (l : List Valtype) : Prop where
  small : ∀ d ∈ l, d.length ≤ 73
  few : l.length ≤ 17
  accepts : ∀ flags, evalScript (consensusEvaluator flags tx nIn 0) l.reverse script = some [vchTrue]

variable {script : CScript} {tx : CTransaction} {nIn : ℕ} {l : List Valtype}

theorem SpentBy.length_pushes (h : SpentBy script tx nIn l) : (l.flatMap (push [])).length ≤ 1326 := by
  have hlen := length_flatMap_push h.small
  have hfew := h.few
  omega

theorem SpentBy.fits (h : SpentBy script tx nIn l) : ∀ d ∈ l, d.length ≤ MAX_SCRIPT_ELEMENT_SIZE := fun d hd => by
  have hsmall := h.small d hd
  rw [MAX_SCRIPT_ELEMENT_SIZE]
  omega

/-- The script is spent by the pushes. -/
theorem SpentBy.verifyScript (h : SpentBy script tx nIn l) (hscript : script.isPayToScriptHash = false) (flags : UInt32) :
    verifyScript (l.flatMap (push [])) script tx nIn flags 0 = true := by
  have hlen := h.length_pushes
  have hfew := h.few
  have hpushed := @evalScript_pushes _ (consensusEvaluator flags tx nIn 0) (fun _ _ => rfl) l h.fits (by omega) (by omega)
  exact (verifyScript_iff hscript).2 ⟨l.reverse, vchTrue, [], hpushed, h.accepts flags, rfl⟩

/-- The payment to the hash of the script is spent by the pushes, and the script behind them. -/
theorem SpentBy.verifyScript_hash (h : SpentBy script tx nIn l) (hsize : script.length ≤ MAX_SCRIPT_ELEMENT_SIZE)
    (flags : UInt32) :
    PayDayCoin.verifyScript (push (l.flatMap (push [])) script)
      (getScriptForDestination (.scriptID (ScriptCrypto.hash160 script))) tx nIn flags 0 = true := by
  have hlen := h.length_pushes
  have hfew := h.few
  have hscript := length_push_nil_le script
  rw [MAX_SCRIPT_ELEMENT_SIZE] at hsize
  have hflat : push (l.flatMap (push [])) script = (l ++ [script]).flatMap (push []) := by
    rw [push_eq_append, List.flatMap_append, List.flatMap_singleton]
  have hlen' : ((l ++ [script]).flatMap (push [])).length ≤ 10000 := by
    rw [← hflat, push_eq_append, List.length_append]
    omega
  have hfits : ∀ d ∈ l ++ [script], d.length ≤ MAX_SCRIPT_ELEMENT_SIZE := by
    intro d hd
    rcases List.mem_append.1 hd with hd | hd
    · exact h.fits d hd
    · rwa [List.mem_singleton.1 hd]
  have hpushed := @evalScript_pushes _ (consensusEvaluator flags tx nIn 0) (fun _ _ => rfl) (l ++ [script]) hfits hlen'
    (by rw [List.length_append, List.length_singleton]; omega)
  rw [List.reverse_concat] at hpushed
  rw [hflat]
  refine (verifyWith_scriptID (fun _ _ => rfl) _ _).2
    ⟨isPushOnly_pushes (by omega), script, l.reverse, vchTrue, [], hpushed, ?_, rfl, h.accepts flags, rfl⟩
  rw [List.length_reverse]
  omega

/-- Signatures of keys in the order of the keys spend a payment to several keys. -/
theorem spentBy_multisig {m : ℕ} {keys : List CPubKey}
    (hkeys : ∀ key ∈ keys, HasSize key ∧ isCompressedOrUncompressedPubKey key.bytes = true) (hm : 1 ≤ m)
    (hn : keys.length ≤ 16) {sigs : List Valtype} (hsigs : ∀ vchSig ∈ sigs, checkSignatureEncoding vchSig = true)
    (hcount : sigs.length = m) {signers : List Valtype} (hsub : signers.Sublist (keys.map CPubKey.bytes))
    (hvalid : List.Forall₂ (fun vchSig vchPubKey => sigValid vchSig vchPubKey (multisigScript m keys) tx nIn 0 = true) sigs
      signers) : SpentBy (multisigScript m keys) tx nIn ([] :: sigs) := by
  have hsize : ∀ key ∈ keys, HasSize key := fun key hkey => (hkeys key hkey).1
  have hle : m ≤ keys.length := by
    have hlen := hsub.length_le
    rwa [List.length_map, ← hvalid.length_eq, hcount] at hlen
  have hlen := length_multisigScript hsize ⟨hm, hle⟩ hn
  have hbounds : ∀ vchSig ∈ sigs, vchSig.length ≤ 73 ∧ vchSig.getD 0 0 = 0x30 := fun vchSig hsig => by
    have henc := hsigs vchSig hsig
    rw [checkSignatureEncoding, Bool.and_eq_true] at henc
    exact (isLowDERSignature_bounds henc.1).2
  have hdrop : dropSigs (multisigScript m keys) sigs.reverse = multisigScript m keys :=
    dropSigs_multisigScript hkeys hm hn hle fun vchSig hsig => hbounds vchSig (List.mem_reverse.1 hsig)
  refine ⟨?_, ?_, fun flags => ?_⟩
  · intro d hd
    rcases List.mem_cons.1 hd with rfl | hd
    · decide
    · exact (hbounds d hd).1
  · rw [List.length_cons]
    omega
  · have henc : ∀ vchSig ∈ sigs.reverse, ∀ vchPubKey ∈ (keys.map CPubKey.bytes).reverse,
        (consensusEvaluator flags tx nIn 0).checkEncodings vchSig vchPubKey = true := by
      intro vchSig hsig vchPubKey hkey
      obtain ⟨key, hin, rfl⟩ := List.mem_map.1 (List.mem_reverse.1 hkey)
      simp [consensusEvaluator, hsigs vchSig (List.mem_reverse.1 hsig), (hkeys key hin).2]
    refine (evalScript_multisig (fun _ _ => rfl) (fun n _ hn => castToNum_getvch n hn) hsize ⟨hm, hle⟩ hn _ _).2
      ⟨sigs.reverse, [], [], true, by rw [List.reverse_cons], by rw [List.length_reverse, hcount], ?_, fun _ => rfl, ?_, rfl⟩
    · rw [List.length_reverse, List.length_cons]
      omega
    · refine (multisigLoop_true_iff henc ?_).2 (iff_of_true rfl ⟨signers.reverse, hsub.reverse, ?_⟩)
      · rw [List.length_reverse, List.length_reverse, List.length_map, hcount]
        exact hle
      · rw [List.forall₂_reverse_iff, hdrop]
        -- both encodings are in order, so that the signature decides
        refine List.forall₂_iff_zip.2 ⟨hvalid.length_eq, fun {vchSig vchPubKey} hzip => ?_⟩
        obtain ⟨hsig, hkey⟩ := List.of_mem_zip hzip
        have hv := List.forall₂_zip hvalid hzip
        obtain ⟨key, hin, rfl⟩ := List.mem_map.1 (hsub.subset hkey)
        simp [consensusEvaluator, hsigs vchSig hsig, (hkeys key hin).2, hv]

end Spending

/-! ### The signatures of a store -/

theorem hashType_byte (ht : UInt8) : (Int32.ofNat ht.toNat).toUInt32.toUInt8 = ht := by
  rw [← UInt8.toNat_inj]
  simp

section Signs

variable [ScriptCrypto]

/-- The store has the key of a public key. -/
def CKeyStore.haveKey (keystore : CKeyStore) (pubKey : CPubKey) : Bool :=
  (keystore.getKey (getID ScriptCrypto.hash160 pubKey)).isSome

/-- A public key in its proper encoding; what the store has for its hash signs with low, strict signatures, which are those
of the public key. -/
structure CKeyStore.Signs (keystore : CKeyStore) (ht : UInt8) (pubKey : CPubKey) : Prop where
  hasSize : HasSize pubKey
  encoding : isCompressedOrUncompressedPubKey pubKey.bytes = true
  getPubKey : keystore.haveKey pubKey = true → keystore.getPubKey (getID ScriptCrypto.hash160 pubKey) = some pubKey
  signs : ∀ key, keystore.getKey (getID ScriptCrypto.hash160 pubKey) = some key → ∀ hash, ∃ vchSig, key hash = some vchSig ∧
    isLowDERSignature (vchSig ++ [ht]) = true ∧ SignatureScheme.verify pubKey.bytes hash vchSig = true

/-- The signature that a store makes, with its hash type. -/
def CKeyStore.sigOf (keystore : CKeyStore) (ht : UInt8) (hash : Uint256) (pubKey : CPubKey) : Valtype :=
  ((keystore.getKey (getID ScriptCrypto.hash160 pubKey)).bind fun key => key hash).getD [] ++ [ht]

variable {keystore : CKeyStore} {ht : UInt8} {pubKey : CPubKey}

theorem CKeyStore.Signs.ofBytes (h : keystore.Signs ht pubKey) :
    getID ScriptCrypto.hash160 (.ofBytes pubKey.bytes) = getID ScriptCrypto.hash160 pubKey := by
  rw [getID, getID, bytes_ofBytes h.hasSize]

theorem CKeyStore.Signs.length_bytes (h : keystore.Signs ht pubKey) : pubKey.bytes.length ≤ 73 := by
  rw [h.hasSize.2]
  rcases size_of_hasSize h.hasSize with h | h <;> omega

/-- What `Sign1` writes. -/
theorem CKeyStore.Signs.sign1 (h : keystore.Signs ht pubKey) (hash : Uint256) (s : CScript) :
    sign1 (getID ScriptCrypto.hash160 pubKey) keystore hash (Int32.ofNat ht.toNat) s =
      (keystore.haveKey pubKey, if keystore.haveKey pubKey then push s (keystore.sigOf ht hash pubKey) else s) := by
  rw [PayDayCoin.sign1, haveKey, sigOf]
  rcases hkey : keystore.getKey (getID ScriptCrypto.hash160 pubKey) with _ | key
  · rfl
  · obtain ⟨vchSig, hsig, -⟩ := h.signs key hkey hash
    simp only [hsig, hashType_byte, Option.isSome_some, Option.bind_some, Option.getD_some, if_true]

/-- The signature is strict, and that of the key. -/
theorem CKeyStore.Signs.sigOf (h : keystore.Signs ht pubKey) (hht : isDefinedHashtypeSignature [ht] = true)
    (hkey : keystore.haveKey pubKey = true) (hash : Uint256) :
    checkSignatureEncoding (keystore.sigOf ht hash pubKey) = true ∧ ∃ vchSig, keystore.sigOf ht hash pubKey = vchSig ++ [ht] ∧
      SignatureScheme.verify pubKey.bytes hash vchSig = true := by
  obtain ⟨key, hget⟩ := Option.isSome_iff_exists.1 hkey
  obtain ⟨vchSig, hsig, hder, hverify⟩ := h.signs key hget hash
  have heq : keystore.sigOf ht hash pubKey = vchSig ++ [ht] := by
    rw [CKeyStore.sigOf, hget, Option.bind_some, hsig, Option.getD_some]
  refine ⟨?_, vchSig, heq, hverify⟩
  rw [heq, checkSignatureEncoding, hder, Bool.true_and, isDefinedHashtypeSignature, List.getLast?_concat]
  exact hht

theorem CKeyStore.Signs.bounds (h : keystore.Signs ht pubKey) (hht : isDefinedHashtypeSignature [ht] = true)
    (hkey : keystore.haveKey pubKey = true) (hash : Uint256) :
    9 ≤ (keystore.sigOf ht hash pubKey).length ∧ (keystore.sigOf ht hash pubKey).length ≤ 73 ∧
      (keystore.sigOf ht hash pubKey).getD 0 0 = 0x30 := by
  have henc := (h.sigOf hht hkey hash).1
  rw [checkSignatureEncoding, Bool.and_eq_true] at henc
  exact isLowDERSignature_bounds henc.1

/-- The signature of an input is valid when the script of the input is written. -/
theorem CKeyStore.Signs.sigValid (h : keystore.Signs ht pubKey) (hht : isDefinedHashtypeSignature [ht] = true)
    (hkey : keystore.haveKey pubKey = true) (scriptCode s : CScript) (txTo : CTransaction) (nIn : ℕ) :
    sigValid (keystore.sigOf ht (signatureHash scriptCode txTo nIn (Int32.ofNat ht.toNat)) pubKey) pubKey.bytes scriptCode
      (txTo.setScriptSig nIn s) nIn 0 = true := by
  generalize hhash : signatureHash scriptCode txTo nIn (Int32.ofNat ht.toNat) = hash
  obtain ⟨-, vchSig, heq, hverify⟩ := h.sigOf hht hkey hash
  have hlen := (h.bounds hht hkey hash).1
  have hbytes := bytes_ofBytes h.hasSize
  have hvalid : (CPubKey.ofBytes pubKey.bytes).isValid = true := by
    rw [CPubKey.isValid, decide_eq_true_eq]
    refine Nat.pos_of_ne_zero fun hzero => ?_
    rw [CPubKey.bytes, hzero, List.take_zero] at hbytes
    have hsize := h.hasSize.2
    rw [← hbytes, List.length_nil] at hsize
    rcases size_of_hasSize h.hasSize with h' | h' <;> omega
  have hne : vchSig.isEmpty = false := by
    rw [heq, List.length_append, List.length_singleton] at hlen
    cases vchSig with
    | nil => exact absurd hlen (by decide)
    | cons c vchSig => rfl
  rw [PayDayCoin.sigValid, CheckSigCall.valid]
  simp only [heq, List.getLast?_concat, List.dropLast_concat, signatureHash_setScriptSig, hhash, CPubKey.verify, hbytes,
    hvalid, hne, hverify]
  rfl

end Signs

/-! ### What a store signs -/

section CanSign

variable [ScriptCrypto] {keystore : CKeyStore} {ht : UInt8}

/-- The scripts that the keys of a store sign: a payment to a key, to the hash of a key, and to some of several keys of
which the store has enough. No signature is the hash that the script pushes. -/
inductive CKeyStore.CanSign (keystore : CKeyStore) (ht : UInt8) : CScript → Prop
  | pubkey (pubKey : CPubKey) (h : keystore.Signs ht pubKey) (hkey : keystore.haveKey pubKey = true) :
    CanSign keystore ht (push [] pubKey.bytes ++ [OP_CHECKSIG])
  | pubkeyhash (pubKey : CPubKey) (h : keystore.Signs ht pubKey) (hkey : keystore.haveKey pubKey = true)
    (hne : ∀ hash, keystore.sigOf ht hash pubKey ≠ (getID ScriptCrypto.hash160 pubKey).pn) :
    CanSign keystore ht (getScriptForDestination (.keyID (getID ScriptCrypto.hash160 pubKey)))
  | multisig (m : ℕ) (keys : List CPubKey) (h : ∀ key ∈ keys, keystore.Signs ht key) (hm : 1 ≤ m) (hn : keys.length ≤ 16)
    (henough : m ≤ (keys.filter keystore.haveKey).length) : CanSign keystore ht (multisigScript m keys)

theorem CKeyStore.Signs.checkEncodings {pubKey : CPubKey} {vchSig : Valtype} (h : keystore.Signs ht pubKey)
    (hsig : checkSignatureEncoding vchSig = true) (flags : UInt32) (tx : CTransaction) (nIn : ℕ) :
    (consensusEvaluator flags tx nIn 0).checkEncodings vchSig pubKey.bytes = true := by
  simp [consensusEvaluator, hsig, h.encoding]

theorem CKeyStore.Signs.checkSig {pubKey : CPubKey} (h : keystore.Signs ht pubKey)
    (hht : isDefinedHashtypeSignature [ht] = true) (hkey : keystore.haveKey pubKey = true) (flags : UInt32)
    (script s : CScript) (txTo : CTransaction) (nIn : ℕ) :
    (consensusEvaluator flags (txTo.setScriptSig nIn s) nIn 0).checkSig
      (keystore.sigOf ht (signatureHash script txTo nIn (Int32.ofNat ht.toNat)) pubKey) pubKey.bytes script = true := by
  simp [consensusEvaluator, (h.sigOf hht hkey _).1, h.encoding, h.sigValid hht hkey]

/-- What `Solver` with keys finds for a script, and that it spends the script. -/
def CKeyStore.Solves (keystore : CKeyStore) (ht : UInt8) (script : CScript) (txTo : CTransaction) (nIn : ℕ) : Prop :=
  ∃ l type, type ≠ TxnOutType.TX_SCRIPTHASH ∧
    solverSign keystore script (signatureHash script txTo nIn (Int32.ofNat ht.toNat)) (Int32.ofNat ht.toNat) =
      (true, l.flatMap (push []), type) ∧
    ∀ s, SpentBy script (txTo.setScriptSig nIn s) nIn l

variable {pubKey : CPubKey} (hht : isDefinedHashtypeSignature [ht] = true)

include hht

theorem CKeyStore.Signs.solves_pubkey (h : keystore.Signs ht pubKey) (hkey : keystore.haveKey pubKey = true)
    (txTo : CTransaction) (nIn : ℕ) : keystore.Solves ht (push [] pubKey.bytes ++ [OP_CHECKSIG]) txTo nIn := by
  have hlen := length_push_key h.hasSize
  have hshort : (push [] pubKey.bytes ++ [OP_CHECKSIG]).length < 2 ^ 32 := by
    rw [List.length_append, List.length_singleton]
    omega
  have hsize : isKeySize pubKey.bytes = true := by
    rw [isKeySize, Bool.and_eq_true, decide_eq_true_eq, decide_eq_true_eq, h.hasSize.2]
    rcases size_of_hasSize h.hasSize with h | h <;> omega
  have hsolver := solver_iff.2 (.inl (.pubkey (pushOpcode pubKey.bytes) pubKey.bytes hsize
    ⟨_, nextOp_bytes pubKey.bytes hshort, _, nextOp_plain (c := OP_CHECKSIG) (by decide) _, rfl⟩))
  generalize hsig : keystore.sigOf ht (signatureHash (push [] pubKey.bytes ++ [OP_CHECKSIG]) txTo nIn
    (Int32.ofNat ht.toNat)) pubKey = vchSig
  obtain ⟨-, hmax, hhead⟩ := hsig ▸ h.bounds hht hkey _
  have hdrop : dropSigs (push [] pubKey.bytes ++ [OP_CHECKSIG]) [vchSig] = push [] pubKey.bytes ++ [OP_CHECKSIG] := by
    refine @dropSigs_instructions [vchSig] (by rintro s hs; rwa [List.mem_singleton.1 hs])
      [push [] pubKey.bytes, [OP_CHECKSIG]] ?_ hshort
    intro b hb
    rcases List.mem_pair.1 hb with rfl | rfl
    · refine .inr ⟨pubKey.bytes, h.length_bytes, fun hmem => ?_, rfl⟩
      exact ne_of_isCompressedOrUncompressedPubKey hhead h.encoding (List.mem_singleton.1 hmem).symm
    · exact .inl ⟨_, by decide, rfl⟩
  refine ⟨[vchSig], .TX_PUBKEY, by decide, ?_, fun s => ⟨?_, by simp, fun flags => ?_⟩⟩
  · rw [solverSign, hsolver]
    simp only [List.headD_cons, h.ofBytes, h.sign1, hkey, if_true, hsig, List.flatMap_singleton]
  · intro d hd
    rwa [List.mem_singleton.1 hd]
  · refine evalScript_pubkey (fun _ _ => rfl) h.hasSize (h.checkEncodings ?_ flags _ nIn) ?_
    · rw [← hsig]
      exact (h.sigOf hht hkey _).1
    · rw [hdrop, ← hsig]
      exact h.checkSig hht hkey flags _ s txTo nIn

theorem CKeyStore.Signs.solves_pubkeyhash (h : keystore.Signs ht pubKey) (hkey : keystore.haveKey pubKey = true)
    (hne : ∀ hash, keystore.sigOf ht hash pubKey ≠ (getID ScriptCrypto.hash160 pubKey).pn) (txTo : CTransaction) (nIn : ℕ) :
    keystore.Solves ht (getScriptForDestination (.keyID (getID ScriptCrypto.hash160 pubKey))) txTo nIn := by
  have hget := h.getPubKey hkey
  have hsign := fun hash s => h.sign1 hash s
  have hbytes : ScriptCrypto.hash160 pubKey.bytes = getID ScriptCrypto.hash160 pubKey := rfl
  generalize getID ScriptCrypto.hash160 pubKey = id at hne hget hsign hbytes
  have hscript : getScriptForDestination (.keyID id) =
      [[OP_DUP], [OP_HASH160], push [] id.pn, [OP_EQUALVERIFY], [OP_CHECKSIG]].flatten := by
    rw [getScriptForDestination, pushHash_eq]
    simp
  have hlen := length_keyID id
  have hsolver := solver_keyID id
  generalize hsig : keystore.sigOf ht (signatureHash (getScriptForDestination (.keyID id)) txTo nIn
    (Int32.ofNat ht.toNat)) pubKey = vchSig
  obtain ⟨-, hmax, -⟩ := hsig ▸ h.bounds hht hkey _
  have hdrop : dropSigs (getScriptForDestination (.keyID id)) [vchSig] = getScriptForDestination (.keyID id) := by
    rw [hscript] at hlen ⊢
    refine dropSigs_instructions (by rintro s hs; rwa [List.mem_singleton.1 hs]) ?_ (by omega)
    intro b hb
    simp only [List.mem_cons, List.not_mem_nil, or_false] at hb
    rcases hb with rfl | rfl | rfl | rfl | rfl
    · exact .inl ⟨_, by decide, rfl⟩
    · exact .inl ⟨_, by decide, rfl⟩
    · refine .inr ⟨id.pn, by rw [id.size_eq]; decide, fun hmem => ?_, rfl⟩
      exact hne _ (hsig.trans (List.mem_singleton.1 hmem).symm)
    · exact .inl ⟨_, by decide, rfl⟩
    · exact .inl ⟨_, by decide, rfl⟩
  refine ⟨[vchSig, pubKey.bytes], .TX_PUBKEYHASH, by decide, ?_, fun s => ⟨?_, by simp, fun flags => ?_⟩⟩
  · rw [solverSign, hsolver]
    simp only [List.headD_cons, ofVector_pn, hsign, hkey, if_true, hsig, hget, Option.getD_some, pushKey_eq h.hasSize,
      List.flatMap_cons, List.flatMap_nil, List.append_nil]
  · intro d hd
    rcases List.mem_pair.1 hd with rfl | rfl
    · exact hmax
    · exact h.length_bytes
  · refine (evalScript_keyID (fun _ _ => rfl) _ id _).2 ⟨pubKey.bytes, vchSig, [], rfl, by decide, hbytes,
      h.checkEncodings ?_ flags _ nIn, ?_⟩
    · rw [← hsig]
      exact (h.sigOf hht hkey _).1
    · rw [hdrop, ← hsig, h.checkSig hht hkey]
      rfl

omit hht in
/-- What `SignN` writes. -/
theorem signNLoop_eq {keys : List CPubKey} (hkeys : ∀ key ∈ keys, keystore.Signs ht key) (hash : Uint256) (nRequired : ℕ)
    {nSigned : ℕ} (hle : nSigned ≤ nRequired) (s : CScript) :
    signNLoop keystore hash (Int32.ofNat ht.toNat) nRequired (keys.map CPubKey.bytes) nSigned s =
      (nSigned + ((keys.filter keystore.haveKey).take (nRequired - nSigned)).length,
        s ++ (((keys.filter keystore.haveKey).take (nRequired - nSigned)).map (keystore.sigOf ht hash)).flatMap
          (push [])) := by
  induction keys generalizing nSigned s with
  | nil => simp [signNLoop]
  | cons key keys ih =>
    have hkey := hkeys key List.mem_cons_self
    have hrest := fun k hk => hkeys k (List.mem_cons_of_mem _ hk)
    rw [List.map_cons, signNLoop]
    by_cases hlt : nSigned < nRequired
    · simp only [if_pos hlt, hkey.ofBytes, hkey.sign1]
      rcases hhave : keystore.haveKey key with _ | _
      · rw [List.filter_cons_of_neg (by rw [hhave]; decide)]
        simp only [Bool.false_eq_true, if_false]
        exact ih hrest hle s
      · obtain ⟨n, hn⟩ : ∃ n, nRequired - nSigned = n + 1 := ⟨nRequired - nSigned - 1, by omega⟩
        rw [List.filter_cons_of_pos hhave, hn, List.take_succ_cons, List.map_cons, List.flatMap_cons, List.length_cons]
        simp only [if_true]
        rw [ih hrest (by omega), show nRequired - (nSigned + 1) = n by omega, push_eq_append, List.append_assoc,
          Nat.add_right_comm, Nat.add_assoc]
    · rw [if_neg hlt, show nRequired - nSigned = 0 by omega, List.take_zero]
      simp

omit hht in
/-- `Solver` with keys pushes a signature for each of the first keys that the store has. -/
theorem solverSign_multisig {m : ℕ} {keys : List CPubKey} (hkeys : ∀ key ∈ keys, keystore.Signs ht key)
    (hm : 1 ≤ m ∧ m ≤ keys.length) (hn : keys.length ≤ 16) (hash : Uint256) :
    solverSign keystore (multisigScript m keys) hash (Int32.ofNat ht.toNat) =
      (((keys.filter keystore.haveKey).take m).length == m,
        ([] :: ((keys.filter keystore.haveKey).take m).map (keystore.sigOf ht hash)).flatMap (push []), .TX_MULTISIG) := by
  have hm' : (UInt8.ofNat m).toNat = m := by rw [UInt8.toNat_ofNat', Nat.mod_eq_of_lt (by omega)]
  have hsolver := solver_iff.2 (.inl (instance_multisigScript (fun key hkey => (hkeys key hkey).hasSize) hm hn))
  rw [solverSign, hsolver]
  simp only [signN, List.headD_cons, List.tail_cons, List.dropLast_concat, hm', signNLoop_eq hkeys hash m (Nat.zero_le m),
    Nat.sub_zero, Nat.zero_add, List.flatMap_cons]
  rfl

theorem CKeyStore.solves_multisig {m : ℕ} {keys : List CPubKey} (hkeys : ∀ key ∈ keys, keystore.Signs ht key) (hm : 1 ≤ m)
    (hn : keys.length ≤ 16) (henough : m ≤ (keys.filter keystore.haveKey).length) (txTo : CTransaction) (nIn : ℕ) :
    keystore.Solves ht (multisigScript m keys) txTo nIn := by
  have hsize : ∀ key ∈ keys, HasSize key := fun key hkey => (hkeys key hkey).hasSize
  have hle : m ≤ keys.length := henough.trans (List.length_filter_le _ _)
  generalize hhash : signatureHash (multisigScript m keys) txTo nIn (Int32.ofNat ht.toNat) = hash
  -- the first keys that the store has, and their signatures
  obtain ⟨signers, hsigners⟩ : ∃ signers, (keys.filter keystore.haveKey).take m = signers := ⟨_, rfl⟩
  have hcount : signers.length = m := by
    rw [← hsigners, List.length_take]
    omega
  have hsub : signers.Sublist keys := hsigners ▸ (List.take_sublist _ _).trans List.filter_sublist
  have hmem : ∀ key ∈ signers, keystore.Signs ht key ∧ keystore.haveKey key = true := fun key hkey => by
    rw [← hsigners] at hkey
    obtain ⟨hin, hhave⟩ := List.mem_filter.1 (List.mem_of_mem_take hkey)
    exact ⟨hkeys key hin, hhave⟩
  obtain ⟨sigs, hsigs⟩ : ∃ sigs, signers.map (keystore.sigOf ht hash) = sigs := ⟨_, rfl⟩
  refine ⟨[] :: sigs, .TX_MULTISIG, by decide, ?_, fun s => ?_⟩
  · rw [hhash, solverSign_multisig hkeys ⟨hm, hle⟩ hn, hsigners, hsigs, hcount, beq_self_eq_true]
  · refine spentBy_multisig (fun key hkey => ⟨hsize key hkey, (hkeys key hkey).encoding⟩) hm hn ?_ ?_ (hsub.map _) ?_
    · intro vchSig hsig
      rw [← hsigs] at hsig
      obtain ⟨key, hkey, rfl⟩ := List.mem_map.1 hsig
      obtain ⟨h, hhave⟩ := hmem key hkey
      exact (h.sigOf hht hhave hash).1
    · rw [← hsigs, List.length_map, hcount]
    · rw [← hsigs, List.forall₂_map_left_iff, List.forall₂_map_right_iff, List.forall₂_same]
      intro key hkey
      obtain ⟨h, hhave⟩ := hmem key hkey
      rw [← hhash]
      exact h.sigValid hht hhave _ s txTo nIn

theorem CKeyStore.CanSign.solves {script : CScript} (h : keystore.CanSign ht script) (txTo : CTransaction) (nIn : ℕ) :
    keystore.Solves ht script txTo nIn := by
  cases h with
  | pubkey pubKey h hkey => exact h.solves_pubkey hht hkey txTo nIn
  | pubkeyhash pubKey h hkey hne => exact h.solves_pubkeyhash hht hkey hne txTo nIn
  | multisig m keys h hm hn henough => exact CKeyStore.solves_multisig hht h hm hn henough txTo nIn

omit hht in
theorem CKeyStore.CanSign.not_isPayToScriptHash {script : CScript} (h : keystore.CanSign ht script) :
    script.isPayToScriptHash = false := by
  refine PayDayCoin.not_isPayToScriptHash ?_
  cases h with
  | pubkey pubKey h hkey =>
    have hlen := length_lt_push pubKey.bytes
    rw [h.hasSize.2] at hlen
    rw [List.length_append, List.length_singleton]
    rcases size_of_hasSize h.hasSize with h | h <;> omega
  | pubkeyhash pubKey h hkey hne =>
    rw [length_keyID]
    decide
  | multisig m keys h hm hn henough =>
    have hlen := length_multisigScript (fun key hkey => (h key hkey).hasSize)
      ⟨hm, henough.trans (List.length_filter_le _ _)⟩ hn
    omega

end CanSign

/-! ### SignSignature -/

section Spends

variable [ScriptCrypto] {keystore : CKeyStore} {ht : UInt8}

/-- What a store spends: the scripts that its keys sign, and payments to the hashes of those that it has and that are short
enough to be pushed. -/
inductive CKeyStore.CanSpend (keystore : CKeyStore) (ht : UInt8) : CScript → Prop
  | script (script : CScript) (h : keystore.CanSign ht script) : CanSpend keystore ht script
  | scriptID (script : CScript) (h : keystore.CanSign ht script) (hsize : script.length ≤ MAX_SCRIPT_ELEMENT_SIZE)
    (hget : keystore.getCScript (ScriptCrypto.hash160 script) = some script) :
    CanSpend keystore ht (getScriptForDestination (.scriptID (ScriptCrypto.hash160 script)))

theorem checker_standard {scriptSig scriptPubKey : CScript} {tx : CTransaction} {nIn : ℕ}
    (h : ∀ flags, verifyScript scriptSig scriptPubKey tx nIn flags 0 = true) :
    verifyScriptChecker scriptSig scriptPubKey STANDARD_SCRIPT_VERIFY_FLAGS tx nIn = true :=
  verifyWith_refines (refines_checker (by decide) (by decide) tx nIn) (fun _ => rfl) (h STANDARD_SCRIPT_VERIFY_FLAGS)

omit [ScriptCrypto] in
theorem scriptSig_setScriptSig {txTo : CTransaction} {nIn : ℕ} (hin : nIn < txTo.vin.length) (scriptSig : CScript) :
    ((txTo.setScriptSig nIn scriptSig).vin[nIn]?).map CTxIn.scriptSig = some scriptSig := by
  rw [CTransaction.setScriptSig, List.getElem?_modify, List.getElem?_eq_getElem hin]
  simp

/-- **What a store signs is spent**: for a payment to its keys, or to the hash of a script of such a payment,
`SignSignature` succeeds, writes the script of the input and nothing else, and validation accepts that script whatever
flags it takes. -/
theorem signSignature_spends (hht : isDefinedHashtypeSignature [ht] = true) {scriptPubKey : CScript}
    (h : keystore.CanSpend ht scriptPubKey) {txTo : CTransaction} {nIn : ℕ} (hin : nIn < txTo.vin.length) :
    ∃ scriptSig, signSignature keystore scriptPubKey txTo nIn (Int32.ofNat ht.toNat) =
        (true, txTo.setScriptSig nIn scriptSig) ∧
      ((txTo.setScriptSig nIn scriptSig).vin[nIn]?).map CTxIn.scriptSig = some scriptSig ∧
      ∀ flags, verifyScript scriptSig scriptPubKey (txTo.setScriptSig nIn scriptSig) nIn flags 0 = true := by
  cases h with
  | script _ h =>
    obtain ⟨l, type, htype, hsolve, hspent⟩ := h.solves hht txTo nIn
    have hverify := fun flags => (hspent (l.flatMap (push []))).verifyScript h.not_isPayToScriptHash flags
    refine ⟨l.flatMap (push []), ?_, scriptSig_setScriptSig hin _, hverify⟩
    rw [signSignature, hsolve]
    simp only [Bool.not_true, Bool.false_eq_true, if_false, if_neg htype, checker_standard hverify]
  | scriptID script h hsize hget =>
    obtain ⟨l, type, htype, hsolve, hspent⟩ := h.solves hht txTo nIn
    have hverify := fun flags =>
      (hspent (push (l.flatMap (push [])) script)).verifyScript_hash hsize flags
    refine ⟨push (l.flatMap (push [])) script, ?_, scriptSig_setScriptSig hin _, hverify⟩
    generalize hid : ScriptCrypto.hash160 script = id at hget hverify
    have houter : ∀ hash nHashType, solverSign keystore (getScriptForDestination (.scriptID id)) hash nHashType =
        (true, script, .TX_SCRIPTHASH) := fun hash nHashType => by
      rw [solverSign, solver_scriptID]
      simp only [List.headD_cons, ofVector_pn, hget]
    have hne : (type != .TX_SCRIPTHASH) = true := bne_iff_ne.2 htype
    rw [signSignature, houter]
    simp only [Bool.not_true, Bool.false_eq_true, if_false, if_true, signatureHash_setScriptSig, hsolve, hne, Bool.and_self,
      setScriptSig_setScriptSig, checker_standard hverify]

end Spends

namespace InterpreterSample

/-- A store of one key, which signs everything alike. -/
def keystore : CKeyStore where
  getKey _ := some fun _ => some [0x30, 6, 2, 1, 1, 2, 1, 1]
  getPubKey _ := some key
  getCScript _ := some (multisigScript 1 [key])

theorem signs_key : keystore.Signs 1 key where
  hasSize := hasSize_key
  encoding := by decide
  getPubKey _ := rfl
  signs k hk hash := by
    cases hk
    exact ⟨_, rfl, by decide, rfl⟩

theorem spends_multisig : keystore.CanSpend 1
    (getScriptForDestination (.scriptID (ScriptCrypto.hash160 (multisigScript 1 [key])))) :=
  .scriptID _ (.multisig 1 [key] (List.forall_mem_singleton.2 signs_key) le_rfl (by decide) (by decide)) (by decide) rfl

theorem signSignature_spends_multisig :
    ∃ scriptSig, signSignature keystore (getScriptForDestination (.scriptID (ScriptCrypto.hash160 (multisigScript 1 [key]))))
        spend 0 (Int32.ofNat (1 : UInt8).toNat) = (true, spend.setScriptSig 0 scriptSig) ∧
      ((spend.setScriptSig 0 scriptSig).vin[0]?).map CTxIn.scriptSig = some scriptSig ∧
      ∀ flags, verifyScript scriptSig (getScriptForDestination (.scriptID (ScriptCrypto.hash160 (multisigScript 1 [key]))))
        (spend.setScriptSig 0 scriptSig) 0 flags 0 = true :=
  signSignature_spends (by decide) spends_multisig (by decide)

end InterpreterSample

end PayDayCoin
