import PayDayCoin.InterpreterBounds
import PayDayCoin.Multisig

/-!
# Spending the standard scripts

`VerifyScript` evaluates the script of an input, then the script that it spends on the stack that the first leaves; for a
script that pays to a hash of a script, the script found on the stack is evaluated as well.

The standard scripts are evaluated once and for all, on any stack: **`verifyScript_keyID`**, **`verifyScript_scriptID`** and
**`verifyScript_multisig`** say for every script of an input, whatever it does, when it spends a payment to a key, to a
script or to several keys.
-/

namespace PayDayCoin

open CScript

/-! ### VerifyScript -/

/-- The loop of `CScript::IsPushOnly`; `fuel` bounds its turns by the bytes left. -/
def pushOnlyLoop : ℕ → CScript → Bool
  | _, [] => true
  | 0, _ :: _ => false
  | fuel + 1, c :: pc =>
    match getOp2 (c :: pc) with
    | (none, _) => false
    | (some (opcode, _), rest) => if OP_16 < opcode then false else pushOnlyLoop fuel rest

/-- `CScript::IsPushOnly`. -/
def CScript.isPushOnly (s : CScript) : Bool := pushOnlyLoop s.length s

theorem pushOpcode_le (d : Valtype) : pushOpcode d ≤ OP_PUSHDATA4 := by
  rw [pushOpcode]
  split
  · next h =>
    rw [UInt8.le_iff_toNat_le, UInt8.toNat_ofNat']
    have h76 : OP_PUSHDATA1.toNat = 76 := rfl
    have h78 : OP_PUSHDATA4.toNat = 78 := rfl
    omega
  · split
    · decide
    · split <;> decide

theorem length_keyID (id : CKeyID) : (getScriptForDestination (.keyID id)).length = 25 := by
  simp [getScriptForDestination, pushHash, id.size_eq]

theorem length_scriptID (id : CKeyID) : (getScriptForDestination (.scriptID id)).length = 23 := by
  simp [getScriptForDestination, pushHash, id.size_eq]

theorem pn_inj {a b : CKeyID} : a.pn = b.pn ↔ a = b := by
  cases a
  cases b
  simp

theorem castToBool_check (b : Bool) : castToBool (if b then vchTrue else vchFalse) = b := by
  cases b <;> rfl

theorem isPayToScriptHash_scriptID (id : CKeyID) : (getScriptForDestination (.scriptID id)).isPayToScriptHash = true := by
  rw [isPayToScriptHash_iff]
  exact ⟨id.pn, id.size_eq, rfl⟩

theorem not_isPayToScriptHash {s : CScript} (h : s.length ≠ 23) : s.isPayToScriptHash = false := by
  rw [isPayToScriptHash, beq_eq_false_iff_ne.2 h]
  rfl

/-- The script went through and left true on top. -/
def leavesTrue : Option (List Valtype) → Bool
  | some (top :: _) => castToBool top
  | _ => false

theorem leavesTrue_iff {o : Option (List Valtype)} :
    leavesTrue o = true ↔ ∃ top s, o = some (top :: s) ∧ castToBool top = true := by
  rcases o with _ | ⟨_ | ⟨top, s⟩⟩ <;> simp [leavesTrue]

theorem not_isDisabled {c : UInt8} (hc : c ≤ OP_16) : isDisabled c = false := by
  rw [isDisabled, List.contains_eq_any_beq, List.any_eq_false]
  intro d hd
  rw [beq_iff_eq]
  rintro rfl
  simp only [List.mem_cons, List.not_mem_nil, or_false] at hd
  rcases hd with rfl | rfl | rfl | rfl | rfl | rfl | rfl | rfl | rfl | rfl | rfl | rfl | rfl | rfl | rfl
  all_goals exact absurd hc (by decide)

section Crypto

variable [ScriptCrypto]

/-- `VerifyScript` with an interpreter: `sigPushOnly` and `p2sh` say whether the script of the input has to be of pushes
alone, and whether the script that is hashed is evaluated. -/
def verifyWith (E : Evaluator) (sigPushOnly p2sh : Bool) (scriptSig scriptPubKey : CScript) : Bool :=
  if sigPushOnly && !scriptSig.isPushOnly then false
  else
    match evalScript E [] scriptSig with
    | none => false
    | some stack =>
      if !leavesTrue (evalScript E stack scriptPubKey) then false
      else if p2sh && scriptPubKey.isPayToScriptHash then
        if !scriptSig.isPushOnly then false
        else
          match stack with
          -- not reached: the script that hashes has failed on an empty stack
          | [] => false
          | pubKeySerialized :: stackCopy => leavesTrue (evalScript E stackCopy pubKeySerialized)
      else true

/-- `VerifyScript` of the inputs of transactions. -/
def verifyScript (scriptSig scriptPubKey : CScript) (txTo : CTransaction) (nIn : ℕ) (flags : UInt32) (nHashType : Int32) :
    Bool :=
  verifyWith (consensusEvaluator flags txTo nIn nHashType) false true scriptSig scriptPubKey

/-- `VerifyScript` with a `SignatureChecker`. -/
def verifyScriptChecker (scriptSig scriptPubKey : CScript) (flags : UInt32) (txTo : CTransaction) (nIn : ℕ) : Bool :=
  verifyWith (checkerEvaluator flags txTo nIn) (flags &&& SCRIPT_VERIFY_SIGPUSHONLY != 0) (flags &&& SCRIPT_VERIFY_P2SH != 0)
    scriptSig scriptPubKey

/-! ### One instruction after the other -/

variable {E : Evaluator}

/-- The loop of `EvalScript` from a position on. -/
def evalFrom (E : Evaluator) (pc : CScript) (f : Frame) : Option Frame := evalLoop E pc.length pc f

theorem evalFrom_nil (f : Frame) : evalFrom E [] f = some f := rfl

theorem evalLoop_fuel {fuel : ℕ} {pc : CScript} (hfuel : pc.length ≤ fuel) (f : Frame) :
    evalLoop E fuel pc f = evalFrom E pc f :=
  Option.ext fun _ => (evalLoop_iff hfuel).trans (evalLoop_iff le_rfl).symm

theorem evalFrom_turn {pc rest : CScript} {c : UInt8} {vch : Valtype} (hget : getOp2 pc = (some (c, vch), rest)) (f : Frame) :
    evalFrom E pc f = (evalStep E c vch rest f).bind (evalFrom E rest) := by
  have hlt := length_getOp2_lt hget
  obtain ⟨n, hn⟩ : ∃ n, pc.length = n + 1 := ⟨pc.length - 1, by omega⟩
  rw [evalFrom, hn, evalLoop_turn hget]
  exact congrArg _ (funext fun g => evalLoop_fuel (by omega) g)

theorem evalFrom_op {c : UInt8} (hc : ¬ c ≤ OP_PUSHDATA4) (pc : CScript) (f : Frame) :
    evalFrom E (c :: pc) f = (evalStep E c [] pc f).bind (evalFrom E pc) :=
  evalFrom_turn (by rw [getOp2, if_neg hc]) f

/-- An operation that is carried out outside of every conditional. -/
theorem evalStep_case {c : UInt8} {op : OpCase} (hop : opCase c = some op) (hc : OP_16 < c) (hdisabled : isDisabled c = false)
    (rest : CScript) {f : Frame} (hf : f.vfExec = []) :
    evalStep E c [] rest f = if 201 < f.nOpCount + 1 then none
      else (evalCase E rest { f with nOpCount := f.nOpCount + 1 } op).bind sizeLimit := by
  have hpush : ¬ c ≤ OP_PUSHDATA4 := fun h => absurd (UInt8.lt_of_lt_of_le hc h) (by decide)
  have hexec : ({ f with nOpCount := f.nOpCount + 1 } : Frame).fExec = true := by rw [Frame.fExec, hf]; rfl
  rw [evalStep, countOp, if_pos hc, hdisabled]
  by_cases hcount : 201 < f.nOpCount + 1
  · rw [if_pos hcount, if_pos (.inr (.inl ⟨hc, hcount⟩))]
    rfl
  · rw [if_neg hcount, if_neg]
    · rw [Option.bind_some, evalOp, hexec, if_neg (fun h => hpush h.2), if_pos (.inl rfl), hop]
    · rintro (h | ⟨-, h⟩ | h)
      · cases h
      · exact hcount h
      · cases h

theorem evalStep_push {c : UInt8} {vch : Valtype} (hc : c ≤ OP_PUSHDATA4) (hvch : vch.length ≤ MAX_SCRIPT_ELEMENT_SIZE)
    (hpush : E.checkPush vch c = true) (rest : CScript) {f : Frame} (hf : f.vfExec = []) :
    evalStep E c vch rest f = sizeLimit { f with stack := vch :: f.stack } := by
  have h16 : ¬ OP_16 < c := fun h => absurd (UInt8.lt_of_lt_of_le h hc) (by decide)
  have hdisabled : isDisabled c = false := not_isDisabled (UInt8.le_trans hc (by decide : OP_PUSHDATA4 ≤ OP_16))
  have hexec : f.fExec = true := by rw [Frame.fExec, hf]; rfl
  rw [evalStep, countOp, if_neg h16, hdisabled, if_neg, Option.bind_some, evalOp]
  · rw [if_pos ⟨hexec, hc⟩, if_pos hpush, Option.bind_some]
  · rintro (h | ⟨h, -⟩ | h)
    · exact absurd hvch (Nat.not_le.2 h)
    · exact h16 h
    · cases h

/-- A small number that is pushed. -/
theorem evalStep_value {n : ℕ} (hn : 1 ≤ n ∧ n ≤ 16) (rest : CScript) {f : Frame} (hf : f.vfExec = []) :
    evalStep E (opN n) [] rest f = sizeLimit { f with stack := getvch n :: f.stack } := by
  have htoNat := toNat_opN hn.2
  have h16 : ¬ OP_16 < opN n := by
    rw [UInt8.lt_iff_toNat_lt, htoNat, show OP_16.toNat = 96 from rfl]
    omega
  have hrange : OP_1 ≤ opN n ∧ opN n ≤ OP_16 := by
    rw [UInt8.le_iff_toNat_le, UInt8.le_iff_toNat_le, htoNat, show OP_16.toNat = 96 from rfl, show OP_1.toNat = 81 from rfl]
    omega
  have hpush : ¬ opN n ≤ OP_PUSHDATA4 := by
    rw [UInt8.le_iff_toNat_le, htoNat, show OP_PUSHDATA4.toNat = 78 from rfl]
    omega
  have hdisabled : isDisabled (opN n) = false := not_isDisabled hrange.2
  have hexec : f.fExec = true := by rw [Frame.fExec, hf]; rfl
  have hcase : opCase (opN n) = some (.value n) := by
    rw [opCase, if_pos (.inr hrange), htoNat]
    congr 2
    omega
  rw [evalStep, countOp, if_neg h16, hdisabled, if_neg, Option.bind_some, evalOp]
  · rw [if_neg (fun h => hpush h.2), if_pos (.inl hexec), hcase]
    rfl
  · rintro (h | ⟨h, -⟩ | h)
    · cases h
    · exact h16 h
    · cases h

theorem evalFrom_case {c : UInt8} (op : OpCase) (hop : opCase c = some op) (hc : OP_16 < c) (hdisabled : isDisabled c = false)
    (rest : CScript) {f : Frame} (hf : f.vfExec = []) (hcount : f.nOpCount + 1 ≤ 201) :
    evalFrom E (c :: rest) f =
      ((evalCase E rest { f with nOpCount := f.nOpCount + 1 } op).bind sizeLimit).bind (evalFrom E rest) := by
  have hpush : ¬ c ≤ OP_PUSHDATA4 := fun h => absurd (UInt8.lt_of_lt_of_le hc h) (by decide)
  rw [evalFrom_op hpush, evalStep_case hop hc hdisabled rest hf, if_neg (Nat.not_lt.2 hcount)]

theorem evalScript_eq {stack : List Valtype} {script : CScript} (hlen : script.length ≤ 10000) :
    evalScript E stack script = (evalFrom E script (startFrame stack script)).bind fun f =>
      if f.vfExec.isEmpty then some f.stack else none := by
  rw [evalScript, if_neg (Nat.not_lt.2 hlen), evalFrom]
  cases evalLoop E script.length script (startFrame stack script) <;> rfl

theorem evalFrom_value {n : ℕ} (hn : 1 ≤ n ∧ n ≤ 16) (t : CScript) {r : List Valtype} {k : ℕ} {code : CScript} :
    evalFrom E (opN n :: t) ⟨r, [], [], k, code⟩ =
      if r.length + 1 ≤ 1000 then evalFrom E t ⟨getvch n :: r, [], [], k, code⟩ else none := by
  have hpush : ¬ opN n ≤ OP_PUSHDATA4 := by
    rw [UInt8.le_iff_toNat_le, toNat_opN hn.2, show OP_PUSHDATA4.toNat = 78 from rfl]
    omega
  rw [evalFrom_op hpush, evalStep_value hn t rfl, sizeLimit]
  by_cases hsize : r.length + 1 ≤ 1000
  · rw [if_neg (by simp only [List.length_cons, List.length_nil]; omega), if_pos hsize]
    rfl
  · rw [if_pos (by simp only [List.length_cons, List.length_nil]; omega), if_neg hsize]
    rfl

section Pushes

variable (hE : ∀ vch c, E.checkPush vch c = true)

include hE

theorem evalFrom_push {d : Valtype} {t : CScript} (hshort : (push [] d ++ t).length < 2 ^ 32)
    (hd : d.length ≤ MAX_SCRIPT_ELEMENT_SIZE) {f : Frame} (hf : f.vfExec = []) :
    evalFrom E (push [] d ++ t) f = (sizeLimit { f with stack := d :: f.stack }).bind (evalFrom E t) := by
  have hget : getOp2 (push [] d ++ t) = (some (pushOpcode d, d), t) := by
    rw [← nextOp_eq_getOp2 hshort, nextOp_bytes d hshort]
  rw [evalFrom_turn hget, evalStep_push (pushOpcode_le d) hd (hE _ _) t hf]

/-! ### The standard scripts -/

/-- The hash of the top of the stack, and the bytes that it is compared with. -/
theorem evalFrom_hash {id : CKeyID} {t code : CScript} {r : List Valtype} {vch : Valtype} {n : ℕ}
    (hshort : (push [] id.pn ++ t).length < 2 ^ 32) (hn : n + 1 ≤ 201) :
    evalFrom E (OP_HASH160 :: (push [] id.pn ++ t)) ⟨vch :: r, [], [], n, code⟩ =
      if r.length + 2 ≤ 1000 then evalFrom E t ⟨id.pn :: (ScriptCrypto.hash160 vch).pn :: r, [], [], n + 1, code⟩
      else none := by
  rw [evalFrom_case (.hash .OP_HASH160) (by decide) (by decide) (by decide) _ rfl hn]
  simp only [evalCase, HashOp.eval, Option.bind_some, sizeLimit, List.length_cons, List.length_nil, Nat.add_zero]
  by_cases hsize : r.length + 2 ≤ 1000
  · rw [if_neg (by omega), if_pos hsize, Option.bind_some, evalFrom_push hE hshort (by rw [id.size_eq]; decide) rfl,
      sizeLimit, if_neg (by simp only [List.length_cons, List.length_nil]; omega)]
    rfl
  · rw [if_neg hsize]
    by_cases hsize' : 1000 < r.length + 1
    · rw [if_pos hsize']
      rfl
    · rw [if_neg hsize', Option.bind_some, evalFrom_push hE hshort (by rw [id.size_eq]; decide) rfl, sizeLimit,
        if_pos (by simp only [List.length_cons, List.length_nil]; omega)]
      rfl

/-- A payment to a key, on any stack. -/
theorem evalScript_keyID (stack : List Valtype) (id : CKeyID) (t : List Valtype) :
    evalScript E stack (getScriptForDestination (.keyID id)) = some t ↔
      ∃ vchPubKey vchSig s, stack = vchPubKey :: vchSig :: s ∧ s.length + 4 ≤ 1000 ∧ ScriptCrypto.hash160 vchPubKey = id ∧
        E.checkEncodings vchSig vchPubKey = true ∧
        t = (if E.checkSig vchSig vchPubKey (dropSigs (getScriptForDestination (.keyID id)) [vchSig]) then vchTrue
          else vchFalse) :: s := by
  have hscript : getScriptForDestination (.keyID id) =
      OP_DUP :: OP_HASH160 :: (push [] id.pn ++ [OP_EQUALVERIFY, OP_CHECKSIG]) := by rw [getScriptForDestination, pushHash_eq]
  have hlen := length_keyID id
  have hshort : (push [] id.pn ++ [OP_EQUALVERIFY, OP_CHECKSIG]).length < 2 ^ 32 := by
    rw [hscript] at hlen
    simp only [List.length_cons] at hlen
    omega
  rw [evalScript_eq (by rw [hlen]; norm_num), startFrame]
  generalize getScriptForDestination (.keyID id) = code at hscript
  rw [show evalFrom E code = evalFrom E (OP_DUP :: OP_HASH160 :: (push [] id.pn ++ [OP_EQUALVERIFY, OP_CHECKSIG])) by
      rw [hscript],
    evalFrom_case (.stack .OP_DUP) (by decide) (by decide) (by decide) _ rfl (by norm_num)]
  cases stack with
  | nil =>
    refine iff_of_false (fun h => by cases h) ?_
    rintro ⟨vchPubKey, vchSig, s, h, -⟩
    cases h
  | cons vchPubKey r =>
    simp only [evalCase, StackOp.eval, Option.bind_eq_bind, Option.bind_some, sizeLimit, List.length_cons, List.length_nil,
      Nat.add_zero]
    by_cases hsize : 1000 < r.length + 1 + 1
    · rw [if_pos hsize]
      refine iff_of_false (fun h => by cases h) ?_
      rintro ⟨key, vchSig, s, h, hle, -⟩
      cases h
      rw [List.length_cons] at hsize
      omega
    rw [if_neg hsize, Option.bind_some, evalFrom_hash hE hshort (by decide), List.length_cons]
    by_cases hsize' : r.length + 1 + 2 ≤ 1000
    · rw [if_pos hsize', evalFrom_case (.OP_EQUAL true) (by decide) (by decide) (by decide) _ rfl (by norm_num)]
      simp only [evalCase, Frame.pushCheck, if_true, beq_iff_eq, pn_inj]
      by_cases hhash : ScriptCrypto.hash160 vchPubKey = id
      · rw [if_pos hhash]
        simp only [Option.bind_some, sizeLimit, List.length_cons, List.length_nil, Nat.add_zero]
        rw [if_neg (by omega), Option.bind_some,
          evalFrom_case (.OP_CHECKSIG false) (by decide) (by decide) (by decide) _ rfl (by norm_num)]
        cases r with
        | nil =>
          refine iff_of_false (fun h => by cases h) ?_
          rintro ⟨key, vchSig, s, h, -⟩
          cases h
        | cons vchSig s =>
          rw [List.length_cons] at hsize'
          simp only [evalCase, Frame.pushCheck, Bool.false_eq_true, if_false]
          by_cases henc : E.checkEncodings vchSig vchPubKey = true
          · rw [henc]
            simp only [Bool.not_true, Bool.false_eq_true, if_false, Option.bind_some, sizeLimit, List.length_cons,
              List.length_nil, Nat.add_zero]
            rw [if_neg (by omega), Option.bind_some, evalFrom_nil, Option.bind_some]
            constructor
            · intro h
              exact ⟨vchPubKey, vchSig, s, rfl, by omega, hhash, henc, (Option.some.inj h).symm⟩
            · rintro ⟨key, sig, s', h, -, -, -, rfl⟩
              cases h
              rfl
          · rw [Bool.not_eq_true] at henc
            rw [henc]
            refine iff_of_false (fun h => by cases h) ?_
            rintro ⟨key, sig, s', h, -, -, henc', -⟩
            cases h
            rw [henc] at henc'
            cases henc'
      · rw [if_neg hhash]
        refine iff_of_false (fun h => by cases h) ?_
        rintro ⟨key, sig, s', h, -, hhash', -⟩
        cases h
        exact hhash hhash'
    · rw [if_neg hsize']
      refine iff_of_false (fun h => by cases h) ?_
      rintro ⟨key, vchSig, s, h, hle, -⟩
      cases h
      rw [List.length_cons] at hsize'
      omega

/-- A payment to a script, on any stack. -/
theorem evalScript_scriptID (stack : List Valtype) (id : CKeyID) (t : List Valtype) :
    evalScript E stack (getScriptForDestination (.scriptID id)) = some t ↔
      ∃ vch s, stack = vch :: s ∧ s.length + 2 ≤ 1000 ∧
        t = (if ScriptCrypto.hash160 vch = id then vchTrue else vchFalse) :: s := by
  have hscript : getScriptForDestination (.scriptID id) = OP_HASH160 :: (push [] id.pn ++ [OP_EQUAL]) := by
    rw [getScriptForDestination, pushHash_eq]
  have hlen := length_scriptID id
  have hshort : (push [] id.pn ++ [OP_EQUAL]).length < 2 ^ 32 := by
    rw [hscript, List.length_cons] at hlen
    omega
  rw [evalScript_eq (by rw [hlen]; norm_num), startFrame]
  generalize getScriptForDestination (.scriptID id) = code at hscript
  rw [show evalFrom E code = evalFrom E (OP_HASH160 :: (push [] id.pn ++ [OP_EQUAL])) by rw [hscript]]
  cases stack with
  | nil =>
    rw [evalFrom_case (.hash .OP_HASH160) (by decide) (by decide) (by decide) _ rfl (by norm_num)]
    refine iff_of_false (fun h => by cases h) ?_
    rintro ⟨vch, s, h, -⟩
    cases h
  | cons vch s =>
    rw [evalFrom_hash hE hshort (by decide)]
    by_cases hsize : s.length + 2 ≤ 1000
    · rw [if_pos hsize, evalFrom_case (.OP_EQUAL false) (by decide) (by decide) (by decide) _ rfl (by norm_num)]
      simp only [evalCase, Frame.pushCheck, Bool.false_eq_true, if_false, beq_iff_eq, pn_inj, Option.bind_some, sizeLimit,
        List.length_cons, List.length_nil, Nat.add_zero]
      rw [if_neg (by omega), Option.bind_some, evalFrom_nil, Option.bind_some]
      constructor
      · intro h
        exact ⟨vch, s, rfl, hsize, (Option.some.inj h).symm⟩
      · rintro ⟨vch', s', h, -, rfl⟩
        cases h
        rfl
    · rw [if_neg hsize]
      refine iff_of_false (fun h => by cases h) ?_
      rintro ⟨vch', s', h, hle, -⟩
      cases h
      exact hsize hle

/-- Elements pushed one after the other. -/
theorem evalFrom_pushes {l : List Valtype} (hl : ∀ d ∈ l, d.length ≤ MAX_SCRIPT_ELEMENT_SIZE) {t : CScript}
    (hshort : (l.flatMap (push []) ++ t).length < 2 ^ 32) {r : List Valtype} (hr : r.length ≤ 1000) {n : ℕ} {code : CScript} :
    evalFrom E (l.flatMap (push []) ++ t) ⟨r, [], [], n, code⟩ =
      if r.length + l.length ≤ 1000 then evalFrom E t ⟨l.reverse ++ r, [], [], n, code⟩ else none := by
  induction l generalizing r with
  | nil =>
    rw [List.length_nil, Nat.add_zero, if_pos hr]
    rfl
  | cons d l ih =>
    rw [List.flatMap_cons, List.append_assoc] at hshort ⊢
    rw [evalFrom_push hE hshort (hl d List.mem_cons_self) rfl, sizeLimit]
    have hrest : (l.flatMap (push []) ++ t).length < 2 ^ 32 := by
      rw [List.length_append] at hshort
      omega
    by_cases hsize : r.length + 1 ≤ 1000
    · rw [if_neg (by simp only [List.length_cons, List.length_nil]; omega), Option.bind_some,
        ih (fun d hd => hl d (List.mem_cons_of_mem _ hd)) hrest (by rwa [List.length_cons])]
      simp only [List.length_cons, List.reverse_cons, List.append_assoc, List.singleton_append]
      rw [Nat.add_right_comm, Nat.add_assoc]
    · rw [if_pos (by simp only [List.length_cons, List.length_nil]; omega), if_neg (by rw [List.length_cons]; omega)]
      rfl

/-- A payment to some of several keys, on any stack. -/
theorem evalScript_multisig (hnum : ∀ n : ℕ, 1 ≤ n → n ≤ 16 → E.castToNum (getvch n) = some (n : ℤ)) {m : ℕ}
    {keys : List CPubKey} (hkeys : ∀ key ∈ keys, HasSize key) (hm : 1 ≤ m ∧ m ≤ keys.length)
    (hn : keys.length ≤ 16) (stack t : List Valtype) :
    evalScript E stack (multisigScript m keys) = some t ↔
      ∃ sigs dummy s fSuccess, stack = sigs ++ dummy :: s ∧ sigs.length = m ∧ stack.length + keys.length + 2 ≤ 1000 ∧
        (E.nullDummy = true → dummy = []) ∧
        multisigLoop E (dropSigs (multisigScript m keys) sigs) sigs (keys.map CPubKey.bytes).reverse = some fSuccess ∧
        t = (if fSuccess then vchTrue else vchFalse) :: s := by
  have hpushes : ∀ keys : List CPubKey,
      (keys.flatMap fun key => push [] key.bytes) = (keys.map CPubKey.bytes).flatMap (push []) :=
    fun keys => by rw [List.flatMap_map]
  have hscript : multisigScript m keys =
      opN m :: ((keys.map CPubKey.bytes).flatMap (push []) ++ [opN keys.length, OP_CHECKMULTISIG]) := by
    rw [multisigScript, hpushes]
  have hlen : (multisigScript m keys).length ≤ 1059 := by
    have := length_pushes hkeys
    simp only [multisigScript, List.length_cons, List.length_append, List.length_nil]
    omega
  have hshort : ((keys.map CPubKey.bytes).flatMap (push []) ++ [opN keys.length, OP_CHECKMULTISIG]).length < 2 ^ 32 := by
    rw [hscript, List.length_cons] at hlen
    omega
  have hfits : ∀ d ∈ keys.map CPubKey.bytes, d.length ≤ MAX_SCRIPT_ELEMENT_SIZE := by
    intro d hd
    obtain ⟨key, hkey, rfl⟩ := List.mem_map.1 hd
    rw [(hkeys key hkey).2, MAX_SCRIPT_ELEMENT_SIZE]
    rcases size_of_hasSize (hkeys key hkey) with h | h <;> omega
  rw [evalScript_eq (by omega), startFrame]
  generalize multisigScript m keys = code at hscript
  rw [show evalFrom E code = evalFrom E (opN m :: ((keys.map CPubKey.bytes).flatMap (push []) ++
    [opN keys.length, OP_CHECKMULTISIG])) by rw [hscript], evalFrom_value ⟨hm.1, by omega⟩]
  have hlarge : ¬ stack.length + keys.length + 2 ≤ 1000 → ¬ ∃ sigs dummy s fSuccess, stack = sigs ++ dummy :: s ∧
      sigs.length = m ∧ stack.length + keys.length + 2 ≤ 1000 ∧ (E.nullDummy = true → dummy = []) ∧
      multisigLoop E (dropSigs code sigs) sigs (keys.map CPubKey.bytes).reverse = some fSuccess ∧
      t = (if fSuccess then vchTrue else vchFalse) :: s := by
    rintro hsize ⟨_, _, _, _, -, -, hle, -⟩
    exact hsize hle
  by_cases hsize₁ : stack.length + 1 ≤ 1000
  swap
  · rw [if_neg hsize₁]
    exact iff_of_false (fun h => by cases h) (hlarge (by omega))
  rw [if_pos hsize₁, evalFrom_pushes hE hfits hshort (by rwa [List.length_cons]), List.length_cons, List.length_map]
  by_cases hsize₂ : stack.length + 1 + keys.length ≤ 1000
  swap
  · rw [if_neg hsize₂]
    exact iff_of_false (fun h => by cases h) (hlarge (by omega))
  rw [if_pos hsize₂, evalFrom_value ⟨by omega, hn⟩]
  simp only [List.length_append, List.length_reverse, List.length_map, List.length_cons]
  by_cases hsize₃ : keys.length + (stack.length + 1) + 1 ≤ 1000
  swap
  · rw [if_neg hsize₃]
    exact iff_of_false (fun h => by cases h) (hlarge (by omega))
  rw [if_pos hsize₃, evalFrom_case (.OP_CHECKMULTISIG false) (by decide) (by decide) (by decide) _ rfl (by norm_num)]
  simp only [evalCase]
  rw [Option.bind_assoc, Option.bind_assoc, Option.bind_eq_some_iff]
  constructor
  · rintro ⟨f', hmulti, hend⟩
    obtain ⟨kn, sn, dummy, keys', sigs, s, hstack, hkn, -, -, hsn, -, hdummy, fSuccess, hloop, hcheck⟩ :=
      evalMultisig_iff.1 hmulti
    obtain ⟨rfl, hstack₁⟩ := List.cons.inj hstack
    rw [hnum _ (by omega) hn, Option.some_inj, Nat.cast_inj] at hkn
    obtain ⟨rfl, hstack₂⟩ := List.append_inj hstack₁ (by rw [List.length_reverse, List.length_map, hkn])
    obtain ⟨rfl, hstack₃⟩ := List.cons.inj hstack₂
    rw [hnum _ hm.1 (by omega), Option.some_inj, Nat.cast_inj] at hsn
    refine ⟨sigs, dummy, s, fSuccess, hstack₃, hsn.symm, by omega, hdummy, hloop, ?_⟩
    rw [Frame.pushCheck, if_neg Bool.false_ne_true] at hcheck
    cases hcheck
    obtain ⟨g, hlimit, hend⟩ := Option.bind_eq_some_iff.1 hend
    obtain rfl := sizeLimit_eq_some hlimit
    exact (Option.some.inj hend).symm
  · rintro ⟨sigs, dummy, s, fSuccess, rfl, rfl, -, hdummy, hloop, rfl⟩
    refine ⟨_, evalMultisig_iff.2 ⟨getvch keys.length, getvch sigs.length, dummy, (keys.map CPubKey.bytes).reverse, sigs, s,
      rfl, ?_, ?_, ?_, hnum _ hm.1 (by omega), ?_, hdummy, fSuccess, hloop, rfl⟩, ?_⟩
    · rw [List.length_reverse, List.length_map]
      exact hnum _ (by omega) hn
    · rw [List.length_reverse, List.length_map]
      omega
    · rw [List.length_reverse, List.length_map]
      dsimp only
      omega
    · rw [List.length_reverse, List.length_map]
      exact hm.2
    · rw [List.length_append, List.length_cons] at hsize₁
      rw [sizeLimit, if_neg (by simp only [List.length_cons, List.length_nil]; omega)]
      rfl

end Pushes

/-! ### Who spends them -/

/-- A script that is no hash of a script is spent when it leaves true on the stack that the script of the input leaves. -/
theorem verifyScript_iff {scriptSig scriptPubKey : CScript} {txTo : CTransaction} {nIn : ℕ} {flags : UInt32}
    {nHashType : Int32} (hscript : scriptPubKey.isPayToScriptHash = false) :
    verifyScript scriptSig scriptPubKey txTo nIn flags nHashType = true ↔
      ∃ stack top s, evalScript (consensusEvaluator flags txTo nIn nHashType) [] scriptSig = some stack ∧
        evalScript (consensusEvaluator flags txTo nIn nHashType) stack scriptPubKey = some (top :: s) ∧
          castToBool top = true := by
  rw [verifyScript, verifyWith, Bool.false_and, if_neg Bool.false_ne_true, hscript, Bool.and_false]
  generalize consensusEvaluator flags txTo nIn nHashType = E
  rcases evalScript E [] scriptSig with _ | stack
  · exact iff_of_false (fun h => by cases h) fun ⟨_, _, _, h, _⟩ => by cases h
  dsimp only
  constructor
  · intro h
    rcases htrue : leavesTrue (evalScript E stack scriptPubKey) with _ | _
    · rw [htrue] at h
      cases h
    · obtain ⟨top, s, heval, htop⟩ := leavesTrue_iff.1 htrue
      exact ⟨stack, top, s, rfl, heval, htop⟩
  · rintro ⟨_, top, s, hstack, heval, htop⟩
    obtain rfl := Option.some.inj hstack
    rw [leavesTrue_iff.2 ⟨top, s, heval, htop⟩]
    rfl

theorem castToNum_getvch {flags : UInt32} {txTo : CTransaction} {nIn : ℕ} {nHashType : Int32} (n : ℕ) (hn : n ≤ 16) :
    (consensusEvaluator flags txTo nIn nHashType).castToNum (getvch n) = some (n : ℤ) := by
  have hlen : (getvch n).length ≤ 4 := by
    have : ∀ k ≤ 16, (getvch (k : ℕ)).length ≤ 4 := by decide
    exact this n hn
  change castToBigNum (getvch n) = some (n : ℤ)
  rw [castToBigNum_eq, if_pos hlen, setvch_getvch]

/-- **Spending a payment to a key**: the script of the input, whatever it does, has to leave the key of the hash on top of a
signature that the key has made, both in their proper encodings. -/
theorem verifyScript_keyID (scriptSig : CScript) (id : CKeyID) (txTo : CTransaction) (nIn : ℕ) (flags : UInt32)
    (nHashType : Int32) :
    verifyScript scriptSig (getScriptForDestination (.keyID id)) txTo nIn flags nHashType = true ↔
      ∃ vchPubKey vchSig s,
        evalScript (consensusEvaluator flags txTo nIn nHashType) [] scriptSig = some (vchPubKey :: vchSig :: s) ∧
        s.length + 4 ≤ 1000 ∧ ScriptCrypto.hash160 vchPubKey = id ∧ checkSignatureEncoding vchSig = true ∧
        isCompressedOrUncompressedPubKey vchPubKey = true ∧
        sigValid vchSig vchPubKey (dropSigs (getScriptForDestination (.keyID id)) [vchSig]) txTo nIn nHashType = true := by
  rw [verifyScript_iff (not_isPayToScriptHash (by rw [length_keyID]; decide))]
  simp only [evalScript_keyID (E := consensusEvaluator flags txTo nIn nHashType) fun _ _ => rfl]
  constructor
  · rintro ⟨stack, top, t, heval, ⟨vchPubKey, vchSig, s, rfl, hsize, hhash, -, ht⟩, htop⟩
    obtain ⟨rfl, rfl⟩ := List.cons.inj ht
    rw [castToBool_check] at htop
    simp only [consensusEvaluator, Bool.and_eq_true] at htop
    exact ⟨vchPubKey, vchSig, t, heval, hsize, hhash, htop.1.1, htop.1.2, htop.2⟩
  · rintro ⟨vchPubKey, vchSig, s, heval, hsize, hhash, hsig, hkey, hvalid⟩
    refine ⟨_, _, s, heval, ⟨vchPubKey, vchSig, s, rfl, hsize, hhash, ?_, rfl⟩, ?_⟩
    · simp [consensusEvaluator, hsig, hkey]
    · rw [castToBool_check]
      simp [consensusEvaluator, hsig, hkey, hvalid]

/-- A payment to a script, with any interpreter that lets everything be pushed. -/
theorem verifyWith_scriptID (hE : ∀ vch c, E.checkPush vch c = true) (scriptSig : CScript) (id : CKeyID) :
    verifyWith E false true scriptSig (getScriptForDestination (.scriptID id)) = true ↔
      scriptSig.isPushOnly = true ∧ ∃ pubKey2 s top t, evalScript E [] scriptSig = some (pubKey2 :: s) ∧
        s.length + 2 ≤ 1000 ∧ ScriptCrypto.hash160 pubKey2 = id ∧ evalScript E s pubKey2 = some (top :: t) ∧
        castToBool top = true := by
  rw [verifyWith, Bool.false_and, if_neg Bool.false_ne_true, isPayToScriptHash_scriptID, Bool.and_true]
  have hscript := evalScript_scriptID hE
  rcases evalScript E [] scriptSig with _ | stack
  · exact iff_of_false (fun h => by cases h) fun ⟨_, _, _, _, _, h, _⟩ => by cases h
  dsimp only
  constructor
  · intro h
    rcases htrue : leavesTrue (evalScript E stack (getScriptForDestination (.scriptID id))) with _ | _ <;> rw [htrue] at h
    · cases h
    obtain ⟨top, t, heval, htop⟩ := leavesTrue_iff.1 htrue
    obtain ⟨pubKey2, s, rfl, hsize, ht⟩ := (hscript stack id _).1 heval
    rcases hpush : scriptSig.isPushOnly with _ | _ <;> rw [hpush] at h
    · cases h
    obtain ⟨top', t', hinner, htop'⟩ := leavesTrue_iff.1 h
    refine ⟨rfl, pubKey2, s, top', t', rfl, hsize, by_contra fun hhash => ?_, hinner, htop'⟩
    rw [if_neg hhash] at ht
    cases ht
    cases htop
  · rintro ⟨hpush, pubKey2, s, top, t, hstack, hsize, hhash, hinner, htop⟩
    obtain rfl := Option.some.inj hstack
    rw [(hscript (pubKey2 :: s) id _).2 ⟨pubKey2, s, rfl, hsize, rfl⟩, if_pos hhash, hpush]
    exact leavesTrue_iff.2 ⟨top, t, hinner, htop⟩

/-- **Spending a payment to a script**: the script of the input has to push, at last the script of the hash, which has to
leave true on what was pushed before. -/
theorem verifyScript_scriptID (scriptSig : CScript) (id : CKeyID) (txTo : CTransaction) (nIn : ℕ) (flags : UInt32)
    (nHashType : Int32) :
    verifyScript scriptSig (getScriptForDestination (.scriptID id)) txTo nIn flags nHashType = true ↔
      scriptSig.isPushOnly = true ∧ ∃ pubKey2 s top t,
        evalScript (consensusEvaluator flags txTo nIn nHashType) [] scriptSig = some (pubKey2 :: s) ∧
        s.length + 2 ≤ 1000 ∧ ScriptCrypto.hash160 pubKey2 = id ∧
        evalScript (consensusEvaluator flags txTo nIn nHashType) s pubKey2 = some (top :: t) ∧ castToBool top = true :=
  verifyWith_scriptID (fun _ _ => rfl) scriptSig id

/-- **Spending a payment to some of several keys**: the script of the input has to leave as many signatures as are wanted
on top of one element more, the signatures of keys in the order of the keys. -/
theorem verifyScript_multisig {m : ℕ} {keys : List CPubKey} (hkeys : ∀ key ∈ keys, HasSize key) (hm : 1 ≤ m ∧ m ≤ keys.length)
    (hn : keys.length ≤ 16) (scriptSig : CScript) (txTo : CTransaction) (nIn : ℕ) {flags : UInt32} (nHashType : Int32)
    (hflags : flags &&& SCRIPT_VERIFY_STRICTENC = 0) :
    verifyScript scriptSig (multisigScript m keys) txTo nIn flags nHashType = true ↔
      ∃ sigs dummy s, evalScript (consensusEvaluator flags txTo nIn nHashType) [] scriptSig = some (sigs ++ dummy :: s) ∧
        sigs.length = m ∧ m + s.length + keys.length + 3 ≤ 1000 ∧ (flags &&& SCRIPT_VERIFY_NULLDUMMY ≠ 0 → dummy = []) ∧
        SigsMatch (consensusEvaluator flags txTo nIn nHashType) (multisigScript m keys) sigs
          (keys.map CPubKey.bytes).reverse := by
  have hp2sh : (multisigScript m keys).isPayToScriptHash = false := by
    rw [isPayToScriptHash, multisigScript]
    have hne : opN m ≠ OP_HASH160 := by
      rw [Ne, ← UInt8.toNat_inj, toNat_opN (by omega), show OP_HASH160.toNat = 169 from rfl]
      omega
    simp [hne]
  have henc : ∀ vchSig vchPubKey, (consensusEvaluator flags txTo nIn nHashType).checkEncodings vchSig vchPubKey = true :=
    fun _ _ => by simp [consensusEvaluator, hflags]
  have hlen : ∀ sigs : List Valtype, sigs.length = m → sigs.length ≤ (keys.map CPubKey.bytes).reverse.length :=
    fun sigs h => by rw [List.length_reverse, List.length_map, h]; exact hm.2
  rw [verifyScript_iff hp2sh]
  simp only [evalScript_multisig (E := consensusEvaluator flags txTo nIn nHashType) (fun _ _ => rfl)
    (fun n _ hn => castToNum_getvch n hn) hkeys hm hn]
  constructor
  · rintro ⟨stack, top, t, heval, ⟨sigs, dummy, s, fSuccess, rfl, hsigs, hsize, hdummy, hloop, ht⟩, htop⟩
    obtain ⟨rfl, rfl⟩ := List.cons.inj ht
    rw [castToBool_check] at htop
    rw [List.length_append, List.length_cons] at hsize
    refine ⟨sigs, dummy, t, heval, hsigs, by omega, fun h => hdummy ?_, ?_⟩
    · simp [consensusEvaluator, h]
    · exact ((multisigLoop_true_iff (fun _ _ _ _ => henc _ _) (hlen sigs hsigs)).1 hloop).1 htop
  · rintro ⟨sigs, dummy, s, heval, hsigs, hsize, hdummy, hmatch⟩
    refine ⟨_, _, s, heval, ⟨sigs, dummy, s, true, rfl, hsigs, ?_, fun h => hdummy ?_, ?_, rfl⟩, rfl⟩
    · rw [List.length_append, List.length_cons]
      omega
    · simpa [consensusEvaluator] using h
    · exact (multisigLoop_true_iff (fun _ _ _ _ => henc _ _) (hlen sigs hsigs)).2 (iff_of_true rfl hmatch)

end Crypto

theorem hasSize_key : HasSize InterpreterSample.key := ⟨rfl, rfl⟩

open InterpreterSample in
theorem verifyScript_multisig_key :
    verifyScript [OP_0, OP_0] (multisigScript 1 [key]) spend 0 0 0 = true ↔
      ∃ sigs dummy s, evalScript (consensusEvaluator 0 spend 0 0) [] [OP_0, OP_0] = some (sigs ++ dummy :: s) ∧
        sigs.length = 1 ∧ 1 + s.length + [key].length + 3 ≤ 1000 ∧
        (0 &&& SCRIPT_VERIFY_NULLDUMMY ≠ 0 → dummy = []) ∧
        SigsMatch (consensusEvaluator 0 spend 0 0) (multisigScript 1 [key]) sigs ([key].map CPubKey.bytes).reverse :=
  verifyScript_multisig (List.forall_mem_singleton.2 hasSize_key) (by decide) (by decide) [OP_0, OP_0] spend 0 0 rfl

end PayDayCoin
