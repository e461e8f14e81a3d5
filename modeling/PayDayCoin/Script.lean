import PayDayCoin.BigNum

/-!
# Scripts

A `CScript` is a vector of bytes. What consensus code outside the interpreter needs of
it is how a script is built (`CScript.push`, `CScript.pushInt64`), how it is read back
instruction by instruction (`CScript.getOp2`), and the count of its signature
operations, which blocks limit (`getSigOpCount`, `getSigOpCountP2SH`).

A reading position is the rest of the script. `getOp2` moves it also when it fails, as
the source does, so it is returned beside the result.

**`pushInt64_prefix_inj`** says that the height a coinbase script starts with can be
read off the script: two height pushes that are prefixes of one short script are of
the same height.
-/

namespace PayDayCoin

/-- A serialized script: its bytes. -/
abbrev CScript := List UInt8

namespace CScript

/-! ### Opcodes and verification flags -/

def OP_0 : UInt8 := 0x00
def OP_PUSHDATA1 : UInt8 := 0x4c
def OP_PUSHDATA2 : UInt8 := 0x4d
def OP_PUSHDATA4 : UInt8 := 0x4e
def OP_1 : UInt8 := 0x51
def OP_16 : UInt8 := 0x60
def OP_EQUAL : UInt8 := 0x87
def OP_HASH160 : UInt8 := 0xa9
def OP_CHECKSIG : UInt8 := 0xac
def OP_CHECKSIGVERIFY : UInt8 := 0xad
def OP_CHECKMULTISIG : UInt8 := 0xae
def OP_CHECKMULTISIGVERIFY : UInt8 := 0xaf
def OP_INVALIDOPCODE : UInt8 := 0xff

def SCRIPT_VERIFY_NONE : UInt32 := 0
def SCRIPT_VERIFY_NOCACHE : UInt32 := 1
def SCRIPT_VERIFY_STRICTENC : UInt32 := 2
def SCRIPT_VERIFY_NULLDUMMY : UInt32 := 16
def SCRIPT_VERIFY_DISCOURAGE_UPGRADABLE_NOPS : UInt32 := 128

/-- The flags every script of a block must meet. -/
def MANDATORY_SCRIPT_VERIFY_FLAGS : UInt32 := SCRIPT_VERIFY_NONE

/-- The flags a standard transaction must meet. -/
def STANDARD_SCRIPT_VERIFY_FLAGS : UInt32 :=
  MANDATORY_SCRIPT_VERIFY_FLAGS ||| SCRIPT_VERIFY_STRICTENC ||| SCRIPT_VERIFY_NULLDUMMY |||
    SCRIPT_VERIFY_DISCOURAGE_UPGRADABLE_NOPS

/-- The standard flags that blocks need not meet. -/
def STANDARD_NOT_MANDATORY_VERIFY_FLAGS : UInt32 := STANDARD_SCRIPT_VERIFY_FLAGS &&& ~~~MANDATORY_SCRIPT_VERIFY_FLAGS

/-! ### Building -/

/-- `CScript::operator<<` of a byte vector: its length, in the shortest form that fits,
then the bytes. -/
def push (s : CScript) (b : List UInt8) : CScript :=
  let head : List UInt8 :=
    if b.length < OP_PUSHDATA1.toNat then [UInt8.ofNat b.length]
    else if b.length ≤ 0xff then [OP_PUSHDATA1, UInt8.ofNat b.length]
    else if b.length ≤ 0xffff then OP_PUSHDATA2 :: leBytes 2 b.length
    else OP_PUSHDATA4 :: leBytes 4 b.length
  s ++ head ++ b

/-- `CScript::push_int64`: `-1` and `1..16` have opcodes of their own, any other number
is pushed as its bytes. -/
def pushInt64 (s : CScript) (n : ℤ) : CScript :=
  if n = -1 ∨ (1 ≤ n ∧ n ≤ 16) then s ++ [UInt8.ofNat (n + 0x50).toNat]
  else s.push (getvch n)

/-! ### Reading -/

/-- The first `width` bytes as a little-endian number, and what follows. -/
def readSize (width : ℕ) (pc : CScript) : Option (ℕ × CScript) :=
  if pc.length < width then none
  else some ((pc.take width).foldr (fun b n => b.toNat + 256 * n) 0, pc.drop width)

/-- `CScript::GetOp2`: the next instruction, with the data it pushes, and the position
after it; `none` when the script is at its end or the instruction is cut short. -/
def getOp2 : CScript → Option (UInt8 × List UInt8) × CScript
  | [] => (none, [])
  | opcode :: pc =>
    if opcode ≤ OP_PUSHDATA4 then
      let size : Option (ℕ × CScript) :=
        if opcode < OP_PUSHDATA1 then some (opcode.toNat, pc)
        else if opcode = OP_PUSHDATA1 then readSize 1 pc
        else if opcode = OP_PUSHDATA2 then readSize 2 pc
        else readSize 4 pc
      match size with
      | none => (none, pc)
      | some (nSize, pc) =>
        if pc.length < nSize then (none, pc) else (some (opcode, pc.take nSize), pc.drop nSize)
    else (some (opcode, []), pc)

/-- `CScript::DecodeOP_N`, for an opcode that is a small number. -/
def decodeOP_N (opcode : UInt8) : ℕ := if opcode = OP_0 then 0 else opcode.toNat - 0x50

/-! ### Counting signature operations -/

/-- The loop of `CScript::GetSigOpCount(bool)`, over the rest `pc` of the script; `fuel`
bounds its turns by the bytes left. -/
def sigOpLoop (fAccurate : Bool) : ℕ → CScript → UInt8 → ℕ → ℕ
  | 0, _, _, n => n
  | fuel + 1, pc, lastOpcode, n =>
    match getOp2 pc with
    | (none, _) => n
    | (some (opcode, _), pc) =>
      let n :=
        if opcode = OP_CHECKSIG ∨ opcode = OP_CHECKSIGVERIFY then n + 1
        else if opcode = OP_CHECKMULTISIG ∨ opcode = OP_CHECKMULTISIGVERIFY then
          if fAccurate ∧ OP_1 ≤ lastOpcode ∧ lastOpcode ≤ OP_16 then n + decodeOP_N lastOpcode else n + 20
        else n
      sigOpLoop fAccurate fuel pc opcode n

/-- `CScript::GetSigOpCount(bool fAccurate)`. -/
def getSigOpCount (s : CScript) (fAccurate : Bool) : ℕ := sigOpLoop fAccurate s.length s OP_INVALIDOPCODE 0

/-- `CScript::IsPayToScriptHash`. -/
def isPayToScriptHash (s : CScript) : Bool :=
  s.length == 23 && s[0]? == some OP_HASH160 && s[1]? == some 0x14 && s[22]? == some OP_EQUAL

/-- The loop of `CScript::GetSigOpCount(scriptSig)`: the data of the last push, or
nothing when `scriptSig` does more than push. -/
def lastPush : ℕ → CScript → List UInt8 → Option (List UInt8)
  | 0, _, data => some data
  | fuel + 1, pc, data =>
    if pc = [] then some data
    else
      match getOp2 pc with
      | (none, _) => none
      | (some (opcode, data), pc) => if OP_16 < opcode then none else lastPush fuel pc data

/-- `CScript::GetSigOpCount(const CScript& scriptSig)`: for a pay-to-script-hash script,
the count of the script that `scriptSig` pushes last. -/
def getSigOpCountP2SH (s : CScript) (scriptSig : CScript) : ℕ :=
  if !s.isPayToScriptHash then s.getSigOpCount true
  else
    match lastPush scriptSig.length scriptSig [] with
    | none => 0
    | some data => getSigOpCount data true

/-! ### The height push is a prefix code -/

/-- The three forms of the push of a nonnegative number that fits in a coinbase script:
an opcode, a length byte and the bytes, or `OP_PUSHDATA1`, a length byte and the bytes. -/
theorem pushInt64_cases (n : ℕ) (hn : (pushInt64 [] n).length ≤ 100) :
    (1 ≤ n ∧ n ≤ 16 ∧ pushInt64 [] n = [UInt8.ofNat (n + 80)]) ∨
      ((getvch n).length < 76 ∧ pushInt64 [] n = UInt8.ofNat (getvch n).length :: getvch n) ∨
      (76 ≤ (getvch n).length ∧ (getvch n).length ≤ 100 ∧
        pushInt64 [] n = OP_PUSHDATA1 :: UInt8.ofNat (getvch n).length :: getvch n) := by
  by_cases hsmall : 1 ≤ n ∧ n ≤ 16
  · refine Or.inl ⟨hsmall.1, hsmall.2, ?_⟩
    rw [pushInt64, if_pos (by omega)]
    rfl
  · have hpush : pushInt64 [] n = push [] (getvch n) := by rw [pushInt64, if_neg (by omega)]
    rw [hpush] at hn ⊢
    have hp : OP_PUSHDATA1.toNat = 76 := rfl
    by_cases h₁ : (getvch n).length < 76
    · exact Or.inr (Or.inl ⟨h₁, by simp [push, hp, h₁]⟩)
    · have h₂ : (getvch n).length ≤ 100 := by
        simp only [push, List.length_append] at hn
        omega
      exact Or.inr (Or.inr ⟨by omega, h₂, by simp [push, hp, h₁, show (getvch n).length ≤ 255 by omega]⟩)

theorem ofNat_inj_of_lt {a b : ℕ} (ha : a < 256) (hb : b < 256) (h : UInt8.ofNat a = UInt8.ofNat b) : a = b := by
  have := congrArg UInt8.toNat h
  simpa [Nat.mod_eq_of_lt ha, Nat.mod_eq_of_lt hb] using this

/-- A byte vector that starts a script is determined by its length. -/
theorem getvch_eq_of_prefix {m n : ℕ} {t u : List UInt8} (hl : (getvch m).length = (getvch n).length)
    (h : getvch m ++ t = getvch n ++ u) : m = n :=
  getvch_injOn_nonneg (List.append_inj h hl).1

/-- **The height prefix of a coinbase script determines the height**: two height pushes
that start the same script of at most `100` bytes are of the same height. -/
theorem pushInt64_prefix_inj {m n : ℕ} {s : CScript} (hs : s.length ≤ 100)
    (hm : pushInt64 [] m <+: s) (hn : pushInt64 [] n <+: s) : m = n := by
  have cm := pushInt64_cases m (hm.length_le.trans hs)
  have cn := pushInt64_cases n (hn.length_le.trans hs)
  obtain ⟨t, ht⟩ := hm
  obtain ⟨u, hu⟩ := hn
  have h : pushInt64 [] m ++ t = pushInt64 [] n ++ u := ht.trans hu.symm
  have hp : OP_PUSHDATA1 = UInt8.ofNat 76 := rfl
  rcases cm with ⟨a₁, a₂, am⟩ | ⟨a₁, am⟩ | ⟨a₁, a₂, am⟩ <;>
    rcases cn with ⟨b₁, b₂, bn⟩ | ⟨b₁, bn⟩ | ⟨b₁, b₂, bn⟩ <;>
      rw [am, bn] at h <;>
      simp only [List.cons_append, List.nil_append, List.cons.injEq, hp] at h
  case inl.inl => have := ofNat_inj_of_lt (by omega) (by omega) h.1; omega
  case inl.inr.inl => have := ofNat_inj_of_lt (by omega) (by omega) h.1; omega
  case inl.inr.inr => have := ofNat_inj_of_lt (by omega) (by omega) h.1; omega
  case inr.inl.inl => have := ofNat_inj_of_lt (by omega) (by omega) h.1; omega
  case inr.inl.inr.inl => exact getvch_eq_of_prefix (ofNat_inj_of_lt (by omega) (by omega) h.1) h.2
  case inr.inl.inr.inr => have := ofNat_inj_of_lt (by omega) (by omega) h.1; omega
  case inr.inr.inl => have := ofNat_inj_of_lt (by omega) (by omega) h.1; omega
  case inr.inr.inr.inl => have := ofNat_inj_of_lt (by omega) (by omega) h.1; omega
  case inr.inr.inr.inr => exact getvch_eq_of_prefix (ofNat_inj_of_lt (by omega) (by omega) h.2.1) h.2.2

end CScript

end PayDayCoin
