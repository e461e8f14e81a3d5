import PayDayCoin.VerifyScript

/-!
# What the flags of the interpreter do

An interpreter that tests more than another fails more scripts and does the same on those that it does not fail
(`Evaluator.Refines`, **`evalScript_refines`**).

* **`verifyScript_mono`**: with fewer flags, `VerifyScript` accepts all that it accepts with more, so that a transaction that
  was checked as a standard one passes in a block.
* **`checker_of_verifyScript`**: what validation accepts with strict encodings, the test of a signer accepts.
-/

namespace PayDayCoin

open CScript

/-- `E` tests no less than `E'`, and does the same where it fails nothing. -/
structure Evaluator.Refines (E E' : Evaluator) : Prop where
  castToNum : ∀ vch, E.castToNum vch = E'.castToNum vch
  checkPush : ∀ vch c, E.checkPush vch c = true → E'.checkPush vch c = true
  checkEncodings : ∀ vchSig vchPubKey, E.checkEncodings vchSig vchPubKey = true → E'.checkEncodings vchSig vchPubKey = true
  checkSig : ∀ vchSig vchPubKey scriptCode, E.checkEncodings vchSig vchPubKey = true →
    E.checkSig vchSig vchPubKey scriptCode = E'.checkSig vchSig vchPubKey scriptCode
  discourageNops : E'.discourageNops = true → E.discourageNops = true
  nullDummy : E'.nullDummy = true → E.nullDummy = true

variable {E E' : Evaluator}

theorem multisigLoop_refines (h : E.Refines E') {scriptCode : CScript} {sigs keys : List Valtype} {b : Bool}
    (hloop : multisigLoop E scriptCode sigs keys = some b) : multisigLoop E' scriptCode sigs keys = some b := by
  induction keys generalizing sigs with
  | nil => cases sigs <;> exact hloop
  | cons vchPubKey keys ih =>
    cases sigs with
    | nil => exact hloop
    | cons vchSig sigs =>
      rw [multisigLoop] at hloop ⊢
      by_cases henc : E.checkEncodings vchSig vchPubKey = true
      · rw [henc] at hloop
        rw [h.checkEncodings _ _ henc, ← h.checkSig _ _ scriptCode henc]
        simp only [Bool.not_true, Bool.false_eq_true, if_false] at hloop ⊢
        by_cases hfew : keys.length < (if E.checkSig vchSig vchPubKey scriptCode then sigs else vchSig :: sigs).length
        · rw [if_pos hfew] at hloop ⊢
          exact hloop
        · rw [if_neg hfew] at hloop ⊢
          exact ih hloop
      · rw [Bool.not_eq_true] at henc
        rw [henc] at hloop
        cases hloop

theorem evalMultisig_refines (h : E.Refines E') {verify : Bool} {f f' : Frame} (heval : evalMultisig E verify f = some f') :
    evalMultisig E' verify f = some f' := by
  obtain ⟨kn, sn, dummy, keys, sigs, s, hstack, hkn, hkeys, hcount, hsn, hsigs, hdummy, fSuccess, hloop, hcheck⟩ :=
    evalMultisig_iff.1 heval
  exact evalMultisig_iff.2 ⟨kn, sn, dummy, keys, sigs, s, hstack, h.castToNum kn ▸ hkn, hkeys, hcount, h.castToNum sn ▸ hsn,
    hsigs, fun hnull => hdummy (h.nullDummy hnull), fSuccess, multisigLoop_refines h hloop, hcheck⟩

theorem castToScriptNum_false (vch : Valtype) : castToScriptNum false vch = castToBigNum vch := by
  rw [castToBigNum_eq, castToScriptNum]
  by_cases hlen : vch.length ≤ 4
  · rw [CScriptNum.ofVch_false hlen, if_pos hlen, ← CScriptNum.toInt_set_vch hlen]
  · rw [CScriptNum.ofVch, CScriptNum.nMaxNumSize, if_pos (Nat.not_le.1 hlen), if_neg hlen]

section Flags

variable [ScriptCrypto]

theorem evalCase_refines (h : E.Refines E') {rest : CScript} {f f' : Frame} {op : OpCase}
    (heval : evalCase E rest f op = some f') : evalCase E' rest f op = some f' := by
  have hnum : E.castToNum = E'.castToNum := funext h.castToNum
  cases op with
  | upgradableNop =>
    rw [evalCase] at heval ⊢
    by_cases hnop : E'.discourageNops = true
    · rw [if_pos (h.discourageNops hnop)] at heval
      cases heval
    · rw [if_neg hnop]
      split at heval
      · cases heval
      · exact heval
  | OP_PICK roll =>
    rw [evalCase] at heval ⊢
    rw [← hnum]
    exact heval
  | unary op =>
    rw [evalCase] at heval ⊢
    rw [← hnum]
    exact heval
  | binary op verify =>
    rw [evalCase] at heval ⊢
    rw [← hnum]
    exact heval
  | OP_WITHIN =>
    rw [evalCase] at heval ⊢
    rw [← hnum]
    exact heval
  | OP_CHECKSIG verify =>
    rw [evalCase] at heval ⊢
    split at heval
    · next vchPubKey vchSig s _ =>
      by_cases henc : E.checkEncodings vchSig vchPubKey = true
      · rw [henc, h.checkSig _ _ _ henc] at heval
        rw [h.checkEncodings _ _ henc]
        exact heval
      · rw [Bool.not_eq_true] at henc
        rw [henc] at heval
        cases heval
    · cases heval
  | OP_CHECKMULTISIG verify => exact evalMultisig_refines h heval
  | _ => exact heval

theorem evalStep_refines (h : E.Refines E') {opcode : UInt8} {vch : Valtype} {rest : CScript} {f f' : Frame}
    (heval : evalStep E opcode vch rest f = some f') : evalStep E' opcode vch rest f = some f' := by
  obtain ⟨g, hcount, heval⟩ := Option.bind_eq_some_iff.1 heval
  obtain ⟨g', hop, hlimit⟩ := Option.bind_eq_some_iff.1 heval
  have hop' : evalOp E' opcode vch rest g = some g' := by
    rw [evalOp] at hop ⊢
    by_cases hpush : g.fExec = true ∧ opcode ≤ OP_PUSHDATA4
    · rw [if_pos hpush] at hop ⊢
      by_cases hcheck : E.checkPush vch opcode = true
      · rw [if_pos hcheck] at hop
        rw [if_pos (h.checkPush _ _ hcheck)]
        exact hop
      · rw [if_neg hcheck] at hop
        cases hop
    · rw [if_neg hpush] at hop ⊢
      by_cases hexec : g.fExec = true ∨ (0x63 ≤ opcode ∧ opcode ≤ 0x68)
      · rw [if_pos hexec] at hop ⊢
        rcases hcase : opCase opcode with _ | op <;> rw [hcase] at hop
        · cases hop
        · exact evalCase_refines h hop
      · rw [if_neg hexec] at hop ⊢
        exact hop
  rw [evalStep, hcount, Option.bind_some, hop', Option.bind_some, hlimit]

/-- **An interpreter that tests more** does the same on the scripts that it does not fail. -/
theorem evalScript_refines (h : E.Refines E') {stack s : List Valtype} {script : CScript}
    (heval : evalScript E stack script = some s) : evalScript E' stack script = some s := by
  obtain ⟨hlen, f, hreach, hopen, hstack⟩ := evalScript_iff.1 heval
  refine evalScript_iff.2 ⟨hlen, f, Relation.ReflTransGen.mono ?_ _ _ hreach, hopen, hstack⟩
  rintro a b ⟨opcode, vch, hget, hstep⟩
  exact ⟨opcode, vch, hget, evalStep_refines h hstep⟩

theorem leavesTrue_refines (h : E.Refines E') {stack : List Valtype} {script : CScript}
    (heval : leavesTrue (evalScript E stack script) = true) : leavesTrue (evalScript E' stack script) = true := by
  obtain ⟨top, s, heval, htop⟩ := leavesTrue_iff.1 heval
  exact leavesTrue_iff.2 ⟨top, s, evalScript_refines h heval, htop⟩

theorem verifyWith_refines (h : E.Refines E') {scriptSig scriptPubKey : CScript} {p2sh p2sh' : Bool}
    (hp2sh : p2sh' = true → p2sh = true) (hverify : verifyWith E false p2sh scriptSig scriptPubKey = true) :
    verifyWith E' false p2sh' scriptSig scriptPubKey = true := by
  rw [verifyWith, Bool.false_and, if_neg Bool.false_ne_true] at hverify ⊢
  rcases hsig : evalScript E [] scriptSig with _ | stack <;> rw [hsig] at hverify
  · cases hverify
  rw [evalScript_refines h hsig]
  dsimp only at hverify ⊢
  rcases htrue : leavesTrue (evalScript E stack scriptPubKey) with _ | _ <;> rw [htrue] at hverify
  · cases hverify
  rw [leavesTrue_refines h htrue]
  simp only [Bool.not_true, Bool.false_eq_true, if_false] at hverify ⊢
  by_cases hscript : (p2sh' && scriptPubKey.isPayToScriptHash) = true
  · rw [if_pos hscript]
    rw [Bool.and_eq_true] at hscript
    rw [if_pos (by rw [hp2sh hscript.1, hscript.2]; rfl)] at hverify
    rcases hpush : scriptSig.isPushOnly with _ | _ <;> rw [hpush] at hverify
    · cases hverify
    · cases stack with
      | nil => cases hverify
      | cons pubKey2 s => exact leavesTrue_refines h hverify
  · rw [if_neg hscript]

/-! ### Flags -/

/-- `flags` has no bit that `flags'` has not. -/
def FewerFlags (flags flags' : UInt32) : Prop := ∀ bit, flags &&& bit ≠ 0 → flags' &&& bit ≠ 0

theorem refines_of_fewerFlags {flags flags' : UInt32} (h : FewerFlags flags flags') (txTo : CTransaction) (nIn : ℕ)
    (nHashType : Int32) :
    (consensusEvaluator flags' txTo nIn nHashType).Refines (consensusEvaluator flags txTo nIn nHashType) where
  castToNum _ := rfl
  checkPush _ _ _ := rfl
  checkEncodings vchSig vchPubKey henc := by
    simp only [consensusEvaluator, Bool.or_eq_true, beq_iff_eq] at henc ⊢
    exact henc.imp_left fun hstrict => by_contra fun hne => h _ hne hstrict
  checkSig _ _ _ _ := rfl
  discourageNops hnop := by
    simp only [consensusEvaluator, bne_iff_ne] at hnop ⊢
    exact h _ hnop
  nullDummy hnull := by
    simp only [consensusEvaluator, bne_iff_ne] at hnull ⊢
    exact h _ hnull

/-- **Fewer flags accept more**: what `VerifyScript` accepts with some flags it accepts without some of them. -/
theorem verifyScript_mono {flags flags' : UInt32} (h : FewerFlags flags flags') {scriptSig scriptPubKey : CScript}
    {txTo : CTransaction} {nIn : ℕ} {nHashType : Int32}
    (hverify : verifyScript scriptSig scriptPubKey txTo nIn flags' nHashType = true) :
    verifyScript scriptSig scriptPubKey txTo nIn flags nHashType = true :=
  verifyWith_refines (refines_of_fewerFlags h txTo nIn nHashType) id hverify

end Flags

theorem fewerFlags_zero (flags : UInt32) : FewerFlags 0 flags := fun _ h => absurd UInt32.zero_and h

open InterpreterSample in
theorem verifyScript_mono_spend : verifyScript [] [OP_1] spend 0 0 0 = true :=
  verifyScript_mono (fewerFlags_zero SCRIPT_VERIFY_STRICTENC) (by decide)

/-- With strict encodings, validation tests more than the interpreter that tests what was signed. -/
theorem refines_checker [ScriptCrypto] {flags : UInt32} (hstrict : flags &&& SCRIPT_VERIFY_STRICTENC ≠ 0)
    (hminimal : flags &&& SCRIPT_VERIFY_MINIMALDATA = 0) (txTo : CTransaction) (nIn : ℕ) :
    (consensusEvaluator flags txTo nIn 0).Refines (checkerEvaluator flags txTo nIn) := by
  constructor
  · intro vch
    simp only [consensusEvaluator, checkerEvaluator, hminimal, bne_self_eq_false]
    exact (castToScriptNum_false vch).symm
  · intro vch c _
    simp [checkerEvaluator, hminimal]
  · intro vchSig vchPubKey henc
    simp only [consensusEvaluator, Bool.or_eq_true, beq_iff_eq, hstrict, false_or, Bool.and_eq_true] at henc
    obtain ⟨hsig, hkey⟩ := henc
    rw [checkSignatureEncoding, Bool.and_eq_true] at hsig
    have hder := hsig.1
    rw [isLowDERSignature, Bool.and_eq_true] at hder
    simp [checkerEvaluator, checkSignatureEncodingFlags, checkPubKeyEncodingFlags, hder.1, hsig.1, hsig.2, hkey]
  · intro vchSig vchPubKey scriptCode henc
    simp only [consensusEvaluator, Bool.or_eq_true, beq_iff_eq, hstrict, false_or, Bool.and_eq_true] at henc
    simp [consensusEvaluator, checkerEvaluator, henc.1, henc.2]
  · exact id
  · exact id

/-- **The two interpreters**: what validation accepts with strict encodings, the interpreter that tests what was signed
accepts with the same flags, as long as they do not ask for the shortest pushes and numbers or for pushes alone. -/
theorem checker_of_verifyScript [ScriptCrypto] {flags : UInt32} (hstrict : flags &&& SCRIPT_VERIFY_STRICTENC ≠ 0)
    (hminimal : flags &&& SCRIPT_VERIFY_MINIMALDATA = 0) (hpush : flags &&& SCRIPT_VERIFY_SIGPUSHONLY = 0)
    {scriptSig scriptPubKey : CScript} {txTo : CTransaction} {nIn : ℕ}
    (hverify : verifyScript scriptSig scriptPubKey txTo nIn flags 0 = true) :
    verifyScriptChecker scriptSig scriptPubKey flags txTo nIn = true := by
  rw [verifyScriptChecker, hpush]
  exact verifyWith_refines (refines_checker hstrict hminimal txTo nIn) (fun _ => rfl) hverify

open InterpreterSample in
theorem checker_of_verifyScript_spend :
    verifyScriptChecker [] [OP_1] CScript.STANDARD_SCRIPT_VERIFY_FLAGS spend 0 = true :=
  checker_of_verifyScript (by decide) (by decide) (by decide) (by decide)

end PayDayCoin
