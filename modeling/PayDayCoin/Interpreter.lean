import PayDayCoin.Destinations
import PayDayCoin.ScriptNum
import PayDayCoin.SignatureEncoding

/-!
# The script interpreter

`EvalScript` walks over the bytes of a script and works on a stack of byte vectors, a second stack, and the values of the
conditionals that it is inside of. There are two of them, which differ in how they read a number, which encodings they
refuse and how they check a signature (`Evaluator`): the one that checks the inputs of transactions
(`consensusEvaluator`) and the one that tests what was signed (`checkerEvaluator`). A stack is a list whose head is
the top.
-/

namespace PayDayCoin

open CScript

/-! ### Opcodes -/

/-- The opcodes that only rearrange the stack. -/
inductive StackOp
  | OP_2DROP | OP_2DUP | OP_3DUP | OP_2OVER | OP_2ROT | OP_2SWAP | OP_IFDUP | OP_DROP | OP_DUP | OP_NIP | OP_OVER | OP_ROT
  | OP_SWAP | OP_TUCK
deriving DecidableEq

/-- The opcodes from one number to one number. -/
inductive UnaryOp
  | OP_1ADD | OP_1SUB | OP_NEGATE | OP_ABS | OP_NOT | OP_0NOTEQUAL
deriving DecidableEq

/-- The opcodes from two numbers to one number. -/
inductive BinaryOp
  | OP_ADD | OP_SUB | OP_BOOLAND | OP_BOOLOR | OP_NUMEQUAL | OP_NUMNOTEQUAL | OP_LESSTHAN | OP_GREATERTHAN
  | OP_LESSTHANOREQUAL | OP_GREATERTHANOREQUAL | OP_MIN | OP_MAX
deriving DecidableEq

/-- The opcodes that hash. -/
inductive HashOp
  | OP_RIPEMD160 | OP_SHA1 | OP_SHA256 | OP_HASH160 | OP_HASH256
deriving DecidableEq

/-- The cases of the `switch` of `EvalScript`, without those of the disabled opcodes, which it is never reached with. -/
inductive OpCase
  /-- `OP_1NEGATE` and `OP_1` to `OP_16`. -/
  | value (n : ℤ)
  | OP_NOP
  /-- `OP_NOP1` to `OP_NOP10`. -/
  | upgradableNop
  /-- `OP_IF`, and `OP_NOTIF` where the value is negated. -/
  | OP_IF (negated : Bool)
  | OP_ELSE
  | OP_ENDIF
  | OP_VERIFY
  | OP_RETURN
  | OP_TOALTSTACK
  | OP_FROMALTSTACK
  | stack (op : StackOp)
  | OP_DEPTH
  /-- `OP_PICK`, and `OP_ROLL` where the element is taken away. -/
  | OP_PICK (roll : Bool)
  | OP_SIZE
  /-- `OP_EQUAL` and `OP_EQUALVERIFY`. -/
  | OP_EQUAL (verify : Bool)
  | unary (op : UnaryOp)
  /-- The opcodes from two numbers to one, and `OP_NUMEQUALVERIFY`. -/
  | binary (op : BinaryOp) (verify : Bool)
  | OP_WITHIN
  | hash (op : HashOp)
  | OP_CODESEPARATOR
  /-- `OP_CHECKSIG` and `OP_CHECKSIGVERIFY`. -/
  | OP_CHECKSIG (verify : Bool)
  /-- `OP_CHECKMULTISIG` and `OP_CHECKMULTISIGVERIFY`. -/
  | OP_CHECKMULTISIG (verify : Bool)
deriving DecidableEq

/-- The values of `opcodetype` with a case of their own. -/
def opCases : List (UInt8 × OpCase) :=
  [(0x61, .OP_NOP), (0x63, .OP_IF false), (0x64, .OP_IF true), (0x67, .OP_ELSE), (0x68, .OP_ENDIF), (0x69, .OP_VERIFY),
    (0x6a, .OP_RETURN), (0x6b, .OP_TOALTSTACK), (0x6c, .OP_FROMALTSTACK), (0x6d, .stack .OP_2DROP),
    (0x6e, .stack .OP_2DUP), (0x6f, .stack .OP_3DUP), (0x70, .stack .OP_2OVER), (0x71, .stack .OP_2ROT),
    (0x72, .stack .OP_2SWAP), (0x73, .stack .OP_IFDUP), (0x74, .OP_DEPTH), (0x75, .stack .OP_DROP),
    (0x76, .stack .OP_DUP), (0x77, .stack .OP_NIP), (0x78, .stack .OP_OVER), (0x79, .OP_PICK false), (0x7a, .OP_PICK true),
    (0x7b, .stack .OP_ROT), (0x7c, .stack .OP_SWAP), (0x7d, .stack .OP_TUCK), (0x82, .OP_SIZE), (0x87, .OP_EQUAL false),
    (0x88, .OP_EQUAL true), (0x8b, .unary .OP_1ADD), (0x8c, .unary .OP_1SUB), (0x8f, .unary .OP_NEGATE),
    (0x90, .unary .OP_ABS), (0x91, .unary .OP_NOT), (0x92, .unary .OP_0NOTEQUAL), (0x93, .binary .OP_ADD false),
    (0x94, .binary .OP_SUB false), (0x9a, .binary .OP_BOOLAND false), (0x9b, .binary .OP_BOOLOR false),
    (0x9c, .binary .OP_NUMEQUAL false), (0x9d, .binary .OP_NUMEQUAL true), (0x9e, .binary .OP_NUMNOTEQUAL false),
    (0x9f, .binary .OP_LESSTHAN false), (0xa0, .binary .OP_GREATERTHAN false), (0xa1, .binary .OP_LESSTHANOREQUAL false),
    (0xa2, .binary .OP_GREATERTHANOREQUAL false), (0xa3, .binary .OP_MIN false), (0xa4, .binary .OP_MAX false),
    (0xa5, .OP_WITHIN), (0xa6, .hash .OP_RIPEMD160), (0xa7, .hash .OP_SHA1), (0xa8, .hash .OP_SHA256),
    (0xa9, .hash .OP_HASH160), (0xaa, .hash .OP_HASH256), (0xab, .OP_CODESEPARATOR), (0xac, .OP_CHECKSIG false),
    (0xad, .OP_CHECKSIG true), (0xae, .OP_CHECKMULTISIG false), (0xaf, .OP_CHECKMULTISIG true)]

/-- The case of an opcode, and `none` for `default`. -/
def opCase (opcode : UInt8) : Option OpCase :=
  if opcode = 0x4f ∨ (OP_1 ≤ opcode ∧ opcode ≤ OP_16) then some (.value (opcode.toNat - 0x50))
  else if 0xb0 ≤ opcode ∧ opcode ≤ 0xb9 then some .upgradableNop
  else opCases.lookup opcode

/-- The disabled opcodes: `OP_CAT`, `OP_SUBSTR`, `OP_LEFT`, `OP_RIGHT`, `OP_INVERT`, `OP_AND`, `OP_OR`, `OP_XOR`,
`OP_2MUL`, `OP_2DIV`, `OP_MUL`, `OP_DIV`, `OP_MOD`, `OP_LSHIFT` and `OP_RSHIFT`. -/
def isDisabled (opcode : UInt8) : Bool :=
  [0x7e, 0x7f, 0x80, 0x81, 0x83, 0x84, 0x85, 0x86, 0x8d, 0x8e, 0x95, 0x96, 0x97, 0x98, 0x99].contains opcode

/-! ### Values -/

/-- An element of the stack. -/
abbrev Valtype := List UInt8

def vchFalse : Valtype := []
def vchTrue : Valtype := [1]

/-- `CastToBool`: some byte is not zero, other than the sign of a negative zero. -/
def castToBool : Valtype → Bool
  | [] => false
  | [b] => b != 0 && b != 0x80
  | b :: vch => b != 0 || castToBool vch

/-- `CastToBigNum`, which is `none` where it throws. -/
def castToBigNum (vch : Valtype) : Option ℤ :=
  if CScriptNum.nMaxNumSize < vch.length then none else some (setvch (getvch (setvch vch)))

/-- `CBigNum::getint` and `CScriptNum::getint`. -/
def getint (n : ℤ) : ℤ := if 0 ≤ n then min n (2 ^ 31 - 1) else max n (-2 ^ 31)

/-- A comparison as a number. -/
def numOfBool (b : Bool) : ℤ := if b then 1 else 0

def UnaryOp.eval : UnaryOp → ℤ → ℤ
  | .OP_1ADD, bn => bn + 1
  | .OP_1SUB, bn => bn - 1
  | .OP_NEGATE, bn => -bn
  | .OP_ABS, bn => if bn < 0 then -bn else bn
  | .OP_NOT, bn => numOfBool (bn == 0)
  | .OP_0NOTEQUAL, bn => numOfBool (bn != 0)

def BinaryOp.eval : BinaryOp → ℤ → ℤ → ℤ
  | .OP_ADD, bn1, bn2 => bn1 + bn2
  | .OP_SUB, bn1, bn2 => bn1 - bn2
  | .OP_BOOLAND, bn1, bn2 => numOfBool (bn1 != 0 && bn2 != 0)
  | .OP_BOOLOR, bn1, bn2 => numOfBool (bn1 != 0 || bn2 != 0)
  | .OP_NUMEQUAL, bn1, bn2 => numOfBool (bn1 == bn2)
  | .OP_NUMNOTEQUAL, bn1, bn2 => numOfBool (bn1 != bn2)
  | .OP_LESSTHAN, bn1, bn2 => numOfBool (bn1 < bn2)
  | .OP_GREATERTHAN, bn1, bn2 => numOfBool (bn1 > bn2)
  | .OP_LESSTHANOREQUAL, bn1, bn2 => numOfBool (bn1 ≤ bn2)
  | .OP_GREATERTHANOREQUAL, bn1, bn2 => numOfBool (bn1 ≥ bn2)
  | .OP_MIN, bn1, bn2 => if bn1 < bn2 then bn1 else bn2
  | .OP_MAX, bn1, bn2 => if bn1 > bn2 then bn1 else bn2

/-- What the opcodes that only rearrange the stack leave, top first. -/
def StackOp.eval : StackOp → List Valtype → Option (List Valtype)
  | .OP_2DROP, _ :: _ :: s => some s
  | .OP_2DUP, x2 :: x1 :: s => some (x2 :: x1 :: x2 :: x1 :: s)
  | .OP_3DUP, x3 :: x2 :: x1 :: s => some (x3 :: x2 :: x1 :: x3 :: x2 :: x1 :: s)
  | .OP_2OVER, x4 :: x3 :: x2 :: x1 :: s => some (x2 :: x1 :: x4 :: x3 :: x2 :: x1 :: s)
  | .OP_2ROT, x6 :: x5 :: x4 :: x3 :: x2 :: x1 :: s => some (x2 :: x1 :: x6 :: x5 :: x4 :: x3 :: s)
  | .OP_2SWAP, x4 :: x3 :: x2 :: x1 :: s => some (x2 :: x1 :: x4 :: x3 :: s)
  | .OP_IFDUP, x :: s => some (if castToBool x then x :: x :: s else x :: s)
  | .OP_DROP, _ :: s => some s
  | .OP_DUP, x :: s => some (x :: x :: s)
  | .OP_NIP, x2 :: _ :: s => some (x2 :: s)
  | .OP_OVER, x2 :: x1 :: s => some (x1 :: x2 :: x1 :: s)
  | .OP_ROT, x3 :: x2 :: x1 :: s => some (x1 :: x3 :: x2 :: s)
  | .OP_SWAP, x2 :: x1 :: s => some (x1 :: x2 :: s)
  | .OP_TUCK, x2 :: x1 :: s => some (x2 :: x1 :: x2 :: s)
  | _, _ => none

/-! ### Numbers of elements -/

theorem natAbs_setvch {vch : Valtype} (hlen : vch.length ≤ 4) : (setvch vch).natAbs < 2 ^ 31 := by
  rw [← CScriptNum.toInt_set_vch hlen]
  exact CScriptNum.natAbs_of_ofVch (CScriptNum.ofVch_false hlen)

theorem castToBigNum_eq (vch : Valtype) : castToBigNum vch = if vch.length ≤ 4 then some (setvch vch) else none := by
  rw [castToBigNum, setvch_getvch, CScriptNum.nMaxNumSize]
  by_cases h : 4 < vch.length
  · rw [if_pos h, if_neg (Nat.not_le.2 h)]
  · rw [if_neg h, if_pos (Nat.le_of_not_lt h)]

theorem castToBigNum_lt (vch : Valtype) (n : ℤ) (h : castToBigNum vch = some n) : n.natAbs < 2 ^ 31 := by
  rw [castToBigNum_eq] at h
  obtain ⟨hlen, h⟩ := Option.ite_none_right_eq_some.1 h
  rw [← Option.some.inj h]
  exact natAbs_setvch hlen

/-- The number of an element by way of `CScriptNum`. -/
def castToScriptNum (fRequireMinimal : Bool) (vch : Valtype) : Option ℤ :=
  match CScriptNum.ofVch vch fRequireMinimal with
  | .ok x => some x.m_value.toInt
  | .error _ => none

theorem castToScriptNum_lt (fRequireMinimal : Bool) (vch : Valtype) (n : ℤ)
    (h : castToScriptNum fRequireMinimal vch = some n) : n.natAbs < 2 ^ 31 := by
  rw [castToScriptNum] at h
  split at h
  · next x hx =>
    obtain rfl := Option.some.inj h
    exact CScriptNum.natAbs_of_ofVch hx
  · cases h

/-! ### Encodings -/

/-- The libraries that the interpreter calls. -/
class ScriptCrypto extends SignatureScheme where
  ripemd160 : List UInt8 → CKeyID
  sha1 : List UInt8 → CKeyID
  sha256 : List UInt8 → Uint256
  hash160 : List UInt8 → CKeyID
  /-- `CPubKey::CheckLowS`. -/
  checkLowS : List UInt8 → Bool

def SCRIPT_VERIFY_P2SH : UInt32 := 1
def SCRIPT_VERIFY_DERSIG : UInt32 := 4
def SCRIPT_VERIFY_LOW_S : UInt32 := 8
def SCRIPT_VERIFY_SIGPUSHONLY : UInt32 := 32
def SCRIPT_VERIFY_MINIMALDATA : UInt32 := 64

/-- `IsCompressedOrUncompressedPubKey`. -/
def isCompressedOrUncompressedPubKey (vchPubKey : Valtype) : Bool :=
  33 ≤ vchPubKey.length &&
    if vchPubKey.headD 0 = 4 then vchPubKey.length == 65
    else if vchPubKey.headD 0 = 2 ∨ vchPubKey.headD 0 = 3 then vchPubKey.length == 33
    else false

/-- `IsDefinedHashtypeSignature`. -/
def isDefinedHashtypeSignature (vchSig : Valtype) : Bool :=
  match vchSig.getLast? with
  | none => false
  | some back => 1 ≤ back &&& ~~~0x80 && back &&& ~~~0x80 ≤ 3

/-- `CheckMinimalPush`. -/
def checkMinimalPush (data : Valtype) (opcode : UInt8) : Bool :=
  if data.length = 0 then opcode == OP_0
  else if data.length = 1 ∧ 1 ≤ data.headD 0 ∧ data.headD 0 ≤ 16 then opcode == OP_1 + (data.headD 0 - 1)
  else if data.length = 1 ∧ data.headD 0 = 0x81 then opcode == 0x4f
  else if data.length ≤ 75 then opcode.toNat == data.length
  else if data.length ≤ 255 then opcode == OP_PUSHDATA1
  else if data.length ≤ 65535 then opcode == OP_PUSHDATA2
  else true

section Crypto

variable [ScriptCrypto]

/-- `IsLowDERSignature`. -/
def isLowDERSignature (vchSig : Valtype) : Bool :=
  isDERSignature vchSig true && ScriptCrypto.checkLowS vchSig.dropLast

/-- `CheckSignatureEncoding`. -/
def checkSignatureEncoding (vchSig : Valtype) : Bool := isLowDERSignature vchSig && isDefinedHashtypeSignature vchSig

/-- What a hash writes onto the stack. -/
def HashOp.eval : HashOp → Valtype → Valtype
  | .OP_RIPEMD160, vch => (ScriptCrypto.ripemd160 vch).pn
  | .OP_SHA1, vch => (ScriptCrypto.sha1 vch).pn
  | .OP_SHA256, vch => leBytes 32 (ScriptCrypto.sha256 vch).toNat
  | .OP_HASH160, vch => (ScriptCrypto.hash160 vch).pn
  | .OP_HASH256, vch => leBytes 32 (SignatureScheme.hash vch).toNat

end Crypto

/-! ### EvalScript -/

/-- What the two interpreters do each in their own way. -/
structure Evaluator where
  /-- The number of an element, and `none` where reading it throws. -/
  castToNum : Valtype → Option ℤ
  castToNum_lt : ∀ vch n, castToNum vch = some n → n.natAbs < 2 ^ 31
  /-- Whether data may be pushed with an opcode. -/
  checkPush : Valtype → UInt8 → Bool
  /-- Whether a signature and a key may be checked against each other at all. -/
  checkEncodings : Valtype → Valtype → Bool
  /-- Whether a signature is that of a key for a script. -/
  checkSig : Valtype → Valtype → CScript → Bool
  /-- `SCRIPT_VERIFY_DISCOURAGE_UPGRADABLE_NOPS`. -/
  discourageNops : Bool
  /-- `SCRIPT_VERIFY_NULLDUMMY`. -/
  nullDummy : Bool

/-- The variables of `EvalScript` but for the position. -/
structure Frame where
  /-- Top first. -/
  stack : List Valtype
  /-- Top first. -/
  altstack : List Valtype
  /-- The values of the conditionals around the position, the innermost first. -/
  vfExec : List Bool
  nOpCount : ℕ
  /-- The script from `pbegincodehash` on. -/
  codehash : CScript
deriving DecidableEq

/-- `fExec`. -/
def Frame.fExec (f : Frame) : Bool := f.vfExec.all id

/-- The result of a check onto the stack, from which `VERIFY` takes it off again. -/
def Frame.pushCheck (f : Frame) (verify fSuccess : Bool) (s : List Valtype) : Option Frame :=
  if verify then if fSuccess then some { f with stack := s } else none
  else some { f with stack := (if fSuccess then vchTrue else vchFalse) :: s }

variable [ScriptCrypto] (E : Evaluator)

/-- The signatures that `OP_CHECKMULTISIG` has left against the keys that it has left, and `none` where it fails the
script. -/
def multisigLoop (scriptCode : CScript) : List Valtype → List Valtype → Option Bool
  | [], _ => some true
  -- with fewer keys than signatures the loop is not entered
  | _ :: _, [] => some false
  | vchSig :: sigs, vchPubKey :: keys =>
    if !E.checkEncodings vchSig vchPubKey then none
    else
      let sigs := if E.checkSig vchSig vchPubKey scriptCode then sigs else vchSig :: sigs
      if keys.length < sigs.length then some false else multisigLoop scriptCode sigs keys

/-- `scriptCode.FindAndDelete(CScript(vchSig))` for each signature. -/
def dropSigs (scriptCode : CScript) (sigs : List Valtype) : CScript :=
  sigs.foldl (fun code vchSig => code.findAndDelete (push [] vchSig)) scriptCode

/-- `OP_CHECKMULTISIG`. -/
def evalMultisig (verify : Bool) (f : Frame) : Option Frame :=
  match f.stack with
  | [] => none
  | top :: s => do
    let nKeysCount ← (E.castToNum top).map getint
    if nKeysCount < 0 ∨ 20 < nKeysCount then none
    else
      let nOpCount := f.nOpCount + nKeysCount.toNat
      if 201 < nOpCount then none
      else
        let keys := s.take nKeysCount.toNat
        match s.drop nKeysCount.toNat with
        | [] => none
        | top :: s => do
          let nSigsCount ← (E.castToNum top).map getint
          if nSigsCount < 0 ∨ nKeysCount < nSigsCount then none
          else
            let sigs := s.take nSigsCount.toNat
            match s.drop nSigsCount.toNat with
            | [] => none
            | dummy :: s => do
              let fSuccess ← multisigLoop E (dropSigs f.codehash sigs) sigs keys
              if E.nullDummy ∧ dummy ≠ [] then none
              else Frame.pushCheck { f with nOpCount } verify fSuccess s

/-- The `switch` of `EvalScript`; `rest` is the script behind the opcode. -/
def evalCase (rest : CScript) (f : Frame) : OpCase → Option Frame
  | .value n => some { f with stack := getvch n :: f.stack }
  | .OP_NOP => some f
  | .upgradableNop => if E.discourageNops then none else some f
  | .OP_IF negated =>
    if f.fExec then
      match f.stack with
      | [] => none
      | vch :: s => some { f with stack := s, vfExec := (castToBool vch != negated) :: f.vfExec }
    else some { f with vfExec := false :: f.vfExec }
  | .OP_ELSE =>
    match f.vfExec with
    | [] => none
    | b :: vfExec => some { f with vfExec := (!b) :: vfExec }
  | .OP_ENDIF =>
    match f.vfExec with
    | [] => none
    | _ :: vfExec => some { f with vfExec }
  | .OP_VERIFY =>
    match f.stack with
    | [] => none
    | vch :: s => if castToBool vch then some { f with stack := s } else none
  | .OP_RETURN => none
  | .OP_TOALTSTACK =>
    match f.stack with
    | [] => none
    | vch :: s => some { f with stack := s, altstack := vch :: f.altstack }
  | .OP_FROMALTSTACK =>
    match f.altstack with
    | [] => none
    | vch :: s => some { f with stack := vch :: f.stack, altstack := s }
  | .stack op => do
    let s ← op.eval f.stack
    some { f with stack := s }
  | .OP_DEPTH => some { f with stack := getvch f.stack.length :: f.stack }
  | .OP_PICK roll =>
    match f.stack with
    | [] => none
    | [_] => none
    | top :: s => do
      let n ← (E.castToNum top).map getint
      if n < 0 then none
      else
        let vch ← s[n.toNat]?
        some { f with stack := vch :: if roll then s.eraseIdx n.toNat else s }
  | .OP_SIZE =>
    match f.stack with
    | [] => none
    | vch :: s => some { f with stack := getvch vch.length :: vch :: s }
  | .OP_EQUAL verify =>
    match f.stack with
    | vch2 :: vch1 :: s => f.pushCheck verify (vch1 == vch2) s
    | _ => none
  | .unary op =>
    match f.stack with
    | [] => none
    | vch :: s => do
      let bn ← E.castToNum vch
      some { f with stack := getvch (op.eval bn) :: s }
  | .binary op verify =>
    match f.stack with
    | vch2 :: vch1 :: s => do
      let bn1 ← E.castToNum vch1
      let bn2 ← E.castToNum vch2
      let vch := getvch (op.eval bn1 bn2)
      if verify then if castToBool vch then some { f with stack := s } else none
      else some { f with stack := vch :: s }
    | _ => none
  | .OP_WITHIN =>
    match f.stack with
    | vch3 :: vch2 :: vch1 :: s => do
      let bn1 ← E.castToNum vch1
      let bn2 ← E.castToNum vch2
      let bn3 ← E.castToNum vch3
      f.pushCheck false (bn2 ≤ bn1 && bn1 < bn3) s
    | _ => none
  | .hash op =>
    match f.stack with
    | [] => none
    | vch :: s => some { f with stack := op.eval vch :: s }
  | .OP_CODESEPARATOR => some { f with codehash := rest }
  | .OP_CHECKSIG verify =>
    match f.stack with
    | vchPubKey :: vchSig :: s =>
      if !E.checkEncodings vchSig vchPubKey then none
      else f.pushCheck verify (E.checkSig vchSig vchPubKey (dropSigs f.codehash [vchSig])) s
    | _ => none
  | .OP_CHECKMULTISIG verify => evalMultisig E verify f

/-- `MAX_SCRIPT_ELEMENT_SIZE`. -/
def MAX_SCRIPT_ELEMENT_SIZE : ℕ := 520

/-- The tests that each instruction is put to, in a branch that is not taken as well. -/
def countOp (opcode : UInt8) (vchPushValue : Valtype) (f : Frame) : Option Frame :=
  let nOpCount := if OP_16 < opcode then f.nOpCount + 1 else f.nOpCount
  if MAX_SCRIPT_ELEMENT_SIZE < vchPushValue.length ∨ (OP_16 < opcode ∧ 201 < nOpCount) ∨ isDisabled opcode then none
  else some { f with nOpCount }

/-- What an instruction does. -/
def evalOp (opcode : UInt8) (vchPushValue : Valtype) (rest : CScript) (f : Frame) : Option Frame :=
  if f.fExec ∧ opcode ≤ OP_PUSHDATA4 then
    if E.checkPush vchPushValue opcode then some { f with stack := vchPushValue :: f.stack } else none
  else if f.fExec ∨ (0x63 ≤ opcode ∧ opcode ≤ 0x68) then
    match opCase opcode with
    | none => none
    | some op => evalCase E rest f op
  else some f

/-- The limit on the sizes of the stacks. -/
def sizeLimit (f : Frame) : Option Frame := if 1000 < f.stack.length + f.altstack.length then none else some f

/-- A turn of the loop of `EvalScript`. -/
def evalStep (opcode : UInt8) (vchPushValue : Valtype) (rest : CScript) (f : Frame) : Option Frame :=
  (countOp opcode vchPushValue f).bind fun f => (evalOp E opcode vchPushValue rest f).bind sizeLimit

/-- The loop of `EvalScript` over the rest `pc` of the script; `fuel` bounds its turns by the bytes left. -/
def evalLoop : ℕ → CScript → Frame → Option Frame
  | _, [], f => some f
  | 0, _ :: _, _ => none
  | fuel + 1, c :: pc, f =>
    match getOp2 (c :: pc) with
    | (none, _) => none
    | (some (opcode, vchPushValue), rest) => (evalStep E opcode vchPushValue rest f).bind (evalLoop fuel rest)

/-- The variables that `EvalScript` starts with. -/
def startFrame (stack : List Valtype) (script : CScript) : Frame := ⟨stack, [], [], 0, script⟩

/-- `EvalScript`: the stack that it leaves, and `none` where it returns false. -/
def evalScript (stack : List Valtype) (script : CScript) : Option (List Valtype) :=
  if 10000 < script.length then none
  else
    match evalLoop E script.length script (startFrame stack script) with
    | some f => if f.vfExec.isEmpty then some f.stack else none
    | none => none

/-! ### The two interpreters -/

/-- `CheckSignatureEncoding` with flags. -/
def checkSignatureEncodingFlags (vchSig : Valtype) (flags : UInt32) : Bool :=
  (flags &&& (SCRIPT_VERIFY_DERSIG ||| SCRIPT_VERIFY_LOW_S ||| SCRIPT_VERIFY_STRICTENC) == 0 || isDERSignature vchSig true) &&
    (flags &&& SCRIPT_VERIFY_LOW_S == 0 || isLowDERSignature vchSig) &&
    (flags &&& SCRIPT_VERIFY_STRICTENC == 0 || isDefinedHashtypeSignature vchSig)

/-- `CheckPubKeyEncoding` with flags. -/
def checkPubKeyEncodingFlags (vchPubKey : Valtype) (flags : UInt32) : Bool :=
  flags &&& SCRIPT_VERIFY_STRICTENC == 0 || isCompressedOrUncompressedPubKey vchPubKey

/-- What `CheckSig` says; the cache of signatures does not change it. -/
def sigValid (vchSig vchPubKey : Valtype) (scriptCode : CScript) (txTo : CTransaction) (nIn : ℕ) (nHashType : Int32) : Bool :=
  CheckSigCall.valid
    { vchSig, vchPubKey, scriptCode, txTo, nIn, nHashType, flags := SCRIPT_VERIFY_NOCACHE, nMaxCacheSize := 0,
      getRandHash := fun _ => 0 }

/-- The interpreter of the inputs of transactions. -/
def consensusEvaluator (flags : UInt32) (txTo : CTransaction) (nIn : ℕ) (nHashType : Int32) : Evaluator where
  castToNum := castToBigNum
  castToNum_lt := castToBigNum_lt
  checkPush _ _ := true
  checkEncodings vchSig vchPubKey :=
    flags &&& SCRIPT_VERIFY_STRICTENC == 0 || checkSignatureEncoding vchSig && isCompressedOrUncompressedPubKey vchPubKey
  checkSig vchSig vchPubKey scriptCode :=
    checkSignatureEncoding vchSig && isCompressedOrUncompressedPubKey vchPubKey &&
      sigValid vchSig vchPubKey scriptCode txTo nIn nHashType
  discourageNops := flags &&& SCRIPT_VERIFY_DISCOURAGE_UPGRADABLE_NOPS != 0
  nullDummy := flags &&& SCRIPT_VERIFY_NULLDUMMY != 0

/-- The interpreter with a `SignatureChecker`. -/
def checkerEvaluator (flags : UInt32) (txTo : CTransaction) (nIn : ℕ) : Evaluator where
  castToNum := castToScriptNum (flags &&& SCRIPT_VERIFY_MINIMALDATA != 0)
  castToNum_lt := castToScriptNum_lt _
  checkPush vchPushValue opcode := flags &&& SCRIPT_VERIFY_MINIMALDATA == 0 || checkMinimalPush vchPushValue opcode
  checkEncodings vchSig vchPubKey := checkSignatureEncodingFlags vchSig flags && checkPubKeyEncodingFlags vchPubKey flags
  checkSig vchSig vchPubKey scriptCode := sigValid vchSig vchPubKey scriptCode txTo nIn 0
  discourageNops := flags &&& SCRIPT_VERIFY_DISCOURAGE_UPGRADABLE_NOPS != 0
  nullDummy := flags &&& SCRIPT_VERIFY_NULLDUMMY != 0

namespace InterpreterSample

/-- Every hash is zero, and every signature is good. -/
scoped instance crypto : ScriptCrypto where
  hash _ := 0
  verify _ _ _ := true
  ripemd160 _ := ⟨List.replicate 20 0, CKeyID.length_zeros⟩
  sha1 _ := ⟨List.replicate 20 0, CKeyID.length_zeros⟩
  sha256 _ := 0
  hash160 _ := ⟨List.replicate 20 0, CKeyID.length_zeros⟩
  checkLowS _ := true

def spend : CTransaction := ⟨1, 1, [⟨⟨0, 0⟩, [], 0⟩], [], 0⟩

def key : CPubKey := ⟨2 :: List.replicate 32 0⟩

end InterpreterSample

end PayDayCoin
