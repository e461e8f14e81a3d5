import PayDayCoin.Mpi
import PayDayCoin.Script

/-!
# Building and parsing a script

A program of opcodes, numbers and byte vectors is written with `operator<<` (`CScript.build`) and read with `GetOp`
(`CScript.getOpAt`), whose position is an index here, and which fails with no result where it would read past the end of
the script. `GetOp` compares the size of a push with the low 32 bits of the number of bytes left.

**`build_parses`**: a script of fewer than `2 ^ 32` bytes that is made without the bare opcodes of pushes is read as it
was written, its pushes are canonical but for vectors of one small byte, and on any bytes `GetOp` stays inside them and
moves ahead.
-/

namespace PayDayCoin

namespace CScript

/-! ### Writing -/

/-- `CScript::push_uint64`. -/
def pushUint64 (s : CScript) (n : UInt64) : CScript :=
  if 1 ≤ n.toNat ∧ n.toNat ≤ 16 then s ++ [UInt8.ofNat (n.toNat + 0x50)] else s.push (getvch n.toNat)

/-- What `operator<<` takes. -/
inductive Instruction
  | opcode (c : UInt8)
  | int (n : Int64)
  | uint (n : UInt64)
  | bytes (b : List UInt8)

/-- `CScript::operator<<`. -/
def append (s : CScript) : Instruction → CScript
  | .opcode c => s ++ [c]
  | .int n => s.pushInt64 n.toInt
  | .uint n => s.pushUint64 n
  | .bytes b => s.push b

/-- A script from its instructions. -/
def build (l : List Instruction) : CScript := l.foldl append []

/-- The opcode that a byte vector is pushed with. -/
def pushOpcode (b : List UInt8) : UInt8 :=
  if b.length < OP_PUSHDATA1.toNat then UInt8.ofNat b.length
  else if b.length ≤ 0xff then OP_PUSHDATA1
  else if b.length ≤ 0xffff then OP_PUSHDATA2
  else OP_PUSHDATA4

/-! ### Reading -/

/-- The copy of `width` bytes at `pc` into a number; `none` when they are not all in the script. -/
def copySize (s : CScript) (pc width : ℕ) : Option ℕ :=
  if pc + width ≤ s.length then some (ofBytes ((s.drop pc).take width)) else none

/-- The size of a push and the position behind it; the inner `none` when `GetOp2` finds it cut short. -/
def sizeAt (s : CScript) (pc : ℕ) (opcode : UInt8) : Option (Option (ℕ × ℕ)) :=
  if opcode < OP_PUSHDATA1 then some (some (opcode.toNat, pc))
  else
    let width := if opcode = OP_PUSHDATA1 then 1 else if opcode = OP_PUSHDATA2 then 2 else 4
    if s.length - pc < width then some none else (copySize s pc width).map fun nSize => some (nSize, pc + width)

/-- `CScript::GetOp2` at a position: the instruction, if one is returned, and the next position; `none` when it reads past
the end of the script. -/
def getOpAt (s : CScript) (pc : ℕ) : Option (Option (UInt8 × List UInt8) × ℕ) :=
  if s.length ≤ pc then some (none, pc)
  else do
    let opcode ← s[pc]?
    if opcode ≤ OP_PUSHDATA4 then
      match ← sizeAt s (pc + 1) opcode with
      | none => some (none, pc + 1)
      | some (nSize, pc) =>
        if s.length < pc ∨ (s.length - pc) % 2 ^ 32 < nSize then some (none, pc)
        else if pc + nSize ≤ s.length then some (some (opcode, (s.drop pc).take nSize), pc + nSize)
        else none
    else some (some (opcode, []), pc + 1)

/-- The instructions that `GetOp` returns one after the other from a position on, and where it stops. -/
def getOps (s : CScript) : ℕ → ℕ → List (UInt8 × List UInt8) × ℕ
  | 0, pc => ([], pc)
  | fuel + 1, pc =>
    match getOpAt s pc with
    | some (some instruction, next) => (instruction :: (getOps s fuel next).1, (getOps s fuel next).2)
    | _ => ([], pc)

/-- The tests of `HasCanonicalPushes` on an instruction. -/
def isCanonicalPush (opcode : UInt8) (data : List UInt8) : Bool :=
  if opcode > OP_16 then true
  else if opcode < OP_PUSHDATA1 ∧ opcode > OP_0 ∧ data.length = 1 ∧ data.headD 0 ≤ 16 then false
  else if opcode = OP_PUSHDATA1 ∧ data.length < OP_PUSHDATA1.toNat then false
  else if opcode = OP_PUSHDATA2 ∧ data.length ≤ 0xff then false
  else if opcode = OP_PUSHDATA4 ∧ data.length ≤ 0xffff then false
  else true

/-- The loop of `HasCanonicalPushes` from a position on. -/
def canonicalLoop (s : CScript) : ℕ → ℕ → Bool
  | 0, _ => true
  | fuel + 1, pc =>
    if s.length ≤ pc then true
    else
      match getOpAt s pc with
      | some (some (opcode, data), next) => isCanonicalPush opcode data && canonicalLoop s fuel next
      | _ => false

/-- `CScript::HasCanonicalPushes`. -/
def hasCanonicalPushes (s : CScript) : Bool := canonicalLoop s (s.length + 1) 0

/-! ### The reader stays inside -/

theorem sizeAt_bounds {s : CScript} {pc : ℕ} (hpc : pc ≤ s.length) (opcode : UInt8) :
    ∃ r, sizeAt s pc opcode = some r ∧ ∀ nSize next, r = some (nSize, next) → pc ≤ next ∧ next ≤ s.length := by
  rw [sizeAt]
  by_cases hsmall : opcode < OP_PUSHDATA1
  · refine ⟨some (opcode.toNat, pc), if_pos hsmall, fun nSize next h => ?_⟩
    cases h
    exact ⟨le_rfl, hpc⟩
  rw [if_neg hsmall]
  generalize (if opcode = OP_PUSHDATA1 then 1 else if opcode = OP_PUSHDATA2 then 2 else 4) = width
  by_cases hshort : s.length - pc < width
  · refine ⟨none, if_pos hshort, fun nSize next h => ?_⟩
    cases h
  · refine ⟨some (ofBytes ((s.drop pc).take width), pc + width), ?_, fun nSize next h => ?_⟩
    · simp only [if_neg hshort, copySize, if_pos (show pc + width ≤ s.length by omega), Option.map_some]
    · cases h
      omega

/-- `GetOp` never reads past the end, and it moves ahead when it returns an instruction. -/
theorem getOpAt_inside {s : CScript} {pc : ℕ} (hpc : pc ≤ s.length) :
    ∃ r next, getOpAt s pc = some (r, next) ∧ pc ≤ next ∧ next ≤ s.length ∧ (r.isSome → pc < next) := by
  rw [getOpAt]
  by_cases hend : s.length ≤ pc
  · exact ⟨none, pc, if_pos hend, le_rfl, hpc, fun h => by cases h⟩
  have hget : s[pc]? = some s[pc] := List.getElem?_eq_getElem (Nat.lt_of_not_le hend)
  simp only [if_neg hend, hget, Option.bind_eq_bind, Option.bind_some]
  split
  · obtain ⟨r, hr, hnext⟩ := sizeAt_bounds (Nat.lt_of_not_le hend) s[pc]
    simp only [Nat.succ_eq_add_one] at hr
    simp only [hr, Option.bind_some]
    rcases r with _ | ⟨nSize, next⟩
    · exact ⟨none, pc + 1, rfl, by omega, by omega, fun h => by cases h⟩
    · have hbounds := hnext nSize next rfl
      by_cases hcut : s.length < next ∨ (s.length - next) % 2 ^ 32 < nSize
      · exact ⟨none, next, if_pos hcut, by omega, by omega, fun h => by cases h⟩
      · have hle := Nat.mod_le (s.length - next) (2 ^ 32)
        have hin : next + nSize ≤ s.length := by omega
        simp only [if_neg hcut, if_pos hin]
        exact ⟨_, _, rfl, by omega, by omega, fun _ => by omega⟩
  · exact ⟨_, _, rfl, by omega, by omega, fun _ => by omega⟩

/-! ### What is written is read -/

/-- The bytes of an instruction. -/
def encode (i : Instruction) : CScript := append [] i

/-- What `GetOp` returns of an instruction. -/
def readBack : Instruction → UInt8 × List UInt8
  | .opcode c => (c, [])
  | .int n =>
    if n.toInt = -1 ∨ (1 ≤ n.toInt ∧ n.toInt ≤ 16) then (UInt8.ofNat (n.toInt + 0x50).toNat, [])
    else (pushOpcode (getvch n.toInt), getvch n.toInt)
  | .uint n =>
    if 1 ≤ n.toNat ∧ n.toNat ≤ 16 then (UInt8.ofNat (n.toNat + 0x50), [])
    else (pushOpcode (getvch n.toNat), getvch n.toNat)
  | .bytes b => (pushOpcode b, b)

theorem push_eq_append (s : CScript) (b : List UInt8) : s.push b = s ++ push [] b := by simp [push]

theorem append_eq (s : CScript) (i : Instruction) : s.append i = s ++ encode i := by
  cases i with
  | opcode c => rfl
  | int n =>
    simp only [append, encode, pushInt64]
    split
    · rfl
    · exact push_eq_append s _
  | uint n =>
    simp only [append, encode, pushUint64]
    split
    · rfl
    · exact push_eq_append s _
  | bytes b => exact push_eq_append s b

theorem build_eq_flatMap (l : List Instruction) : build l = l.flatMap encode := by
  have hfold : ∀ (l : List Instruction) (s : CScript), l.foldl append s = s ++ l.flatMap encode := by
    intro l
    induction l with
    | nil => exact fun s => (List.append_nil s).symm
    | cons i l ih =>
      intro s
      rw [List.foldl_cons, ih, append_eq, List.flatMap_cons, List.append_assoc]
  rw [build, hfold, List.nil_append]

/-- The bytes of a push are its opcode, its size where the opcode does not hold it, and the vector. -/
theorem push_cases (b : List UInt8) :
    (b.length < 76 ∧ pushOpcode b = UInt8.ofNat b.length ∧ push [] b = pushOpcode b :: b) ∨
      ∃ width, (76 ≤ b.length ∧ b.length ≤ 0xff ∧ width = 1 ∧ pushOpcode b = OP_PUSHDATA1 ∨
          0xff < b.length ∧ b.length ≤ 0xffff ∧ width = 2 ∧ pushOpcode b = OP_PUSHDATA2 ∨
          0xffff < b.length ∧ width = 4 ∧ pushOpcode b = OP_PUSHDATA4) ∧
        push [] b = pushOpcode b :: (leBytes width b.length ++ b) := by
  have hp : OP_PUSHDATA1.toNat = 76 := rfl
  by_cases h₁ : b.length < 76
  · exact .inl ⟨h₁, by rw [pushOpcode, hp, if_pos h₁], by simp [push, pushOpcode, hp, h₁]⟩
  by_cases h₂ : b.length ≤ 0xff
  · have hsize : leBytes 1 b.length = [UInt8.ofNat b.length] := by simp [leBytes]
    exact .inr ⟨1, .inl ⟨by omega, h₂, rfl, by simp [pushOpcode, hp, h₁, h₂]⟩, by simp [push, pushOpcode, hp, h₁, h₂, hsize]⟩
  by_cases h₃ : b.length ≤ 0xffff
  · exact .inr ⟨2, .inr (.inl ⟨by omega, h₃, rfl, by simp [pushOpcode, hp, h₁, h₂, h₃]⟩),
      by simp [push, pushOpcode, hp, h₁, h₂, h₃]⟩
  · exact .inr ⟨4, .inr (.inr ⟨by omega, rfl, by simp [pushOpcode, hp, h₁, h₂, h₃]⟩),
      by simp [push, pushOpcode, hp, h₁, h₂, h₃]⟩

/-- An instruction of one byte is read with no data. -/
theorem getOpAt_opcode {s u t : CScript} {c : UInt8} (hs : s = u ++ c :: t) (hc : ¬ c ≤ OP_PUSHDATA4) :
    getOpAt s u.length = some (some (c, []), u.length + 1) := by
  have hlen : ¬ s.length ≤ u.length := by
    rw [hs, List.length_append, List.length_cons]
    omega
  have hget : s[u.length]? = some c := by simp [hs]
  simp only [getOpAt, if_neg hlen, hget, Option.bind_eq_bind, Option.bind_some, if_neg hc]

/-- A push is read with its data, when its size and its data stand behind its opcode. -/
theorem getOpAt_push {s u t z b : CScript} {c : UInt8} (hs : s = u ++ c :: (z ++ b ++ t))
    (hshort : s.length < 2 ^ 32) (hc : c ≤ OP_PUSHDATA4)
    (hsize : sizeAt s (u.length + 1) c = some (some (b.length, u.length + 1 + z.length))) :
    getOpAt s u.length = some (some (c, b), u.length + 1 + z.length + b.length) := by
  have hlen : s.length = u.length + 1 + z.length + b.length + t.length := by
    rw [hs]
    simp only [List.length_append, List.length_cons]
    omega
  have hget : s[u.length]? = some c := by simp [hs]
  have hdrop : s.drop (u.length + 1 + z.length) = b ++ t := by
    rw [hs, show u ++ c :: (z ++ b ++ t) = (u ++ c :: z) ++ (b ++ t) by simp]
    exact List.drop_left' (by simp only [List.length_append, List.length_cons]; omega)
  have hmod : (s.length - (u.length + 1 + z.length)) % 2 ^ 32 = b.length + t.length := by
    rw [Nat.mod_eq_of_lt (by omega)]
    omega
  simp only [getOpAt, if_neg (show ¬ s.length ≤ u.length by omega), hget, Option.bind_eq_bind, Option.bind_some,
    if_pos hc, hsize, hmod, hdrop]
  rw [if_neg (by omega), if_pos (by omega), List.take_left]

/-- A vector is read as it was pushed. -/
theorem getOpAt_bytes {s u t : CScript} {b : List UInt8} (hs : s = u ++ (push [] b ++ t))
    (hshort : s.length < 2 ^ 32) :
    getOpAt s u.length = some (some (pushOpcode b, b), u.length + (push [] b).length) := by
  have hp₁ : OP_PUSHDATA1.toNat = 76 := rfl
  rcases push_cases b with ⟨hlen, hopcode, hpush⟩ | ⟨width, hform, hpush⟩
  · have hnat : (pushOpcode b).toNat = b.length := by
      rw [hopcode, UInt8.toNat_ofNat', Nat.mod_eq_of_lt (by omega)]
    have hsmall : pushOpcode b < OP_PUSHDATA1 := by rwa [UInt8.lt_iff_toNat_lt, hnat, hp₁]
    have hread := getOpAt_push (z := []) (b := b) (c := pushOpcode b) (by rw [hs, hpush]; rfl) hshort
      (UInt8.le_of_lt (UInt8.lt_trans hsmall (by decide : OP_PUSHDATA1 < OP_PUSHDATA4)))
      (by rw [sizeAt, if_pos hsmall, hnat]; rfl)
    rw [hread, hpush, List.length_cons, List.length_nil]
    congr 2
    omega
  · have hs' : s = u ++ pushOpcode b :: (leBytes width b.length ++ b ++ t) := by rw [hs, hpush]; simp
    have htotal : s.length = u.length + 1 + width + b.length + t.length := by
      rw [hs']
      simp only [List.length_append, List.length_cons, length_leBytes]
      omega
    have hdrop : (s.drop (u.length + 1)).take width = leBytes width b.length := by
      rw [hs', show u ++ pushOpcode b :: (leBytes width b.length ++ b ++ t) =
        (u ++ [pushOpcode b]) ++ (leBytes width b.length ++ (b ++ t)) by simp,
        List.drop_left' (by simp), List.take_left' (length_leBytes _ _)]
    have hvalue : ofBytes (leBytes width b.length) = b.length := by
      refine ofBytes_leBytes ?_
      rcases hform with ⟨_, _, rfl, _⟩ | ⟨_, _, rfl, _⟩ | ⟨_, rfl, _⟩ <;> omega
    have hlarge : ¬ pushOpcode b < OP_PUSHDATA1 ∧ pushOpcode b ≤ OP_PUSHDATA4 ∧
        (if pushOpcode b = OP_PUSHDATA1 then 1 else if pushOpcode b = OP_PUSHDATA2 then 2 else 4) = width := by
      rcases hform with ⟨_, _, rfl, h⟩ | ⟨_, _, rfl, h⟩ | ⟨_, rfl, h⟩ <;> rw [h] <;> decide
    have hsize : sizeAt s (u.length + 1) (pushOpcode b) =
        some (some (b.length, u.length + 1 + (leBytes width b.length).length)) := by
      simp only [sizeAt, if_neg hlarge.1, hlarge.2.2, copySize, hdrop, hvalue, length_leBytes]
      rw [if_neg (by omega), if_pos (by omega)]
      rfl
    rw [getOpAt_push hs' hshort hlarge.2.1 hsize, hpush, List.length_cons, List.length_append]
    congr 2
    omega

/-- The opcode does not start a push, unless of the empty vector. -/
def IsPlain : Instruction → Prop
  | .opcode c => c = OP_0 ∨ OP_PUSHDATA4 < c
  | _ => True

/-- A vector that an opcode stands for. -/
def IsSmall (b : List UInt8) : Prop := b.length = 1 ∧ b.headD 0 ≤ 16

/-- An instruction is read back wherever it stands in a short script. -/
theorem getOpAt_encode {s u t : CScript} {i : Instruction} (hs : s = u ++ (encode i ++ t))
    (hshort : s.length < 2 ^ 32) (hplain : IsPlain i) :
    getOpAt s u.length = some (some (readBack i), u.length + (encode i).length) := by
  cases i with
  | opcode c =>
    rcases hplain with rfl | hc
    · exact getOpAt_bytes (b := []) hs hshort
    · exact getOpAt_opcode hs (UInt8.not_le.2 hc)
  | int n =>
    simp only [encode, append, pushInt64, readBack] at hs ⊢
    split at hs
    · next hn =>
      have hc : ¬ UInt8.ofNat (n.toInt + 0x50).toNat ≤ OP_PUSHDATA4 := by
        rw [UInt8.le_iff_toNat_le, UInt8.toNat_ofNat', show OP_PUSHDATA4.toNat = 78 from rfl]
        omega
      simp only [if_pos hn]
      exact getOpAt_opcode hs hc
    · next hn =>
      simp only [if_neg hn]
      exact getOpAt_bytes hs hshort
  | uint n =>
    simp only [encode, append, pushUint64, readBack] at hs ⊢
    split at hs
    · next hn =>
      have hc : ¬ UInt8.ofNat (n.toNat + 0x50) ≤ OP_PUSHDATA4 := by
        rw [UInt8.le_iff_toNat_le, UInt8.toNat_ofNat', show OP_PUSHDATA4.toNat = 78 from rfl]
        omega
      simp only [if_pos hn]
      exact getOpAt_opcode hs hc
    · next hn =>
      simp only [if_neg hn]
      exact getOpAt_bytes hs hshort
  | bytes b => exact getOpAt_bytes hs hshort

theorem getOpAt_end (s : CScript) : getOpAt s s.length = some (none, s.length) := if_pos le_rfl

theorem encode_ne_nil (i : Instruction) : 1 ≤ (encode i).length := by
  have hpush : ∀ b, 1 ≤ (push [] b).length := fun b => by
    rcases push_cases b with ⟨_, _, h⟩ | ⟨_, _, h⟩ <;> simp [h]
  cases i with
  | opcode c => exact le_rfl
  | int n =>
    simp only [encode, append, pushInt64]
    split
    · exact le_rfl
    · exact hpush _
  | uint n =>
    simp only [encode, append, pushUint64]
    split
    · exact le_rfl
    · exact hpush _
  | bytes b => exact hpush b

theorem length_le_build (l : List Instruction) : l.length ≤ (build l).length := by
  rw [build_eq_flatMap]
  induction l with
  | nil => exact le_rfl
  | cons i l ih =>
    have hi := encode_ne_nil i
    rw [List.flatMap_cons, List.length_append, List.length_cons]
    omega

theorem getOps_flatMap {s u : CScript} {l : List Instruction} (hs : s = u ++ l.flatMap encode)
    (hshort : s.length < 2 ^ 32) (hplain : ∀ i ∈ l, IsPlain i) {fuel : ℕ} (hfuel : l.length < fuel) :
    getOps s fuel u.length = (l.map readBack, s.length) := by
  induction l generalizing u fuel with
  | nil =>
    cases fuel with
    | zero => cases hfuel
    | succ fuel =>
      have hend : u.length = s.length := by rw [hs, List.flatMap_nil, List.append_nil]
      simp only [getOps, hend, getOpAt_end, List.map_nil]
  | cons i l ih =>
    cases fuel with
    | zero => cases hfuel
    | succ fuel =>
      rw [List.flatMap_cons] at hs
      have hread := getOpAt_encode hs hshort (hplain i (List.mem_cons_self ..))
      have hrest := ih (u := u ++ encode i) (by rw [hs, List.append_assoc])
        (fun j hj => hplain j (List.mem_cons_of_mem _ hj)) (Nat.lt_of_succ_lt_succ hfuel)
      rw [List.length_append] at hrest
      simp only [getOps, hread, hrest, List.map_cons]

theorem canonicalLoop_flatMap {s u : CScript} {l : List Instruction} (hs : s = u ++ l.flatMap encode)
    (hshort : s.length < 2 ^ 32) (hplain : ∀ i ∈ l, IsPlain i) {fuel : ℕ} (hfuel : l.length < fuel) :
    canonicalLoop s fuel u.length = l.all fun i => isCanonicalPush (readBack i).1 (readBack i).2 := by
  induction l generalizing u fuel with
  | nil =>
    cases fuel with
    | zero => cases hfuel
    | succ fuel =>
      have hend : s.length ≤ u.length := by rw [hs, List.flatMap_nil, List.append_nil]
      rw [canonicalLoop, if_pos hend, List.all_nil]
  | cons i l ih =>
    cases fuel with
    | zero => cases hfuel
    | succ fuel =>
      rw [List.flatMap_cons] at hs
      have hi := encode_ne_nil i
      have hlen : ¬ s.length ≤ u.length := by
        rw [hs, List.length_append, List.length_append]
        omega
      have hread := getOpAt_encode hs hshort (hplain i (List.mem_cons_self ..))
      have hrest := ih (u := u ++ encode i) (by rw [hs, List.append_assoc])
        (fun j hj => hplain j (List.mem_cons_of_mem _ hj)) (Nat.lt_of_succ_lt_succ hfuel)
      rw [List.length_append] at hrest
      simp only [canonicalLoop, if_neg hlen, hread, hrest, List.all_cons]

/-- The push of a vector is canonical unless an opcode stands for the vector. -/
theorem isCanonicalPush_push (b : List UInt8) : isCanonicalPush (pushOpcode b) b = true ↔ ¬ IsSmall b := by
  have hp : OP_PUSHDATA1.toNat = 76 := rfl
  rcases push_cases b with ⟨hlen, hopcode, -⟩ | ⟨width, hform, -⟩
  · have hnat : (pushOpcode b).toNat = b.length := by
      rw [hopcode, UInt8.toNat_ofNat', Nat.mod_eq_of_lt (by omega)]
    have hlt : pushOpcode b < OP_PUSHDATA1 := by rwa [UInt8.lt_iff_toNat_lt, hnat, hp]
    have hne : ∀ c : UInt8, 76 ≤ c.toNat → pushOpcode b ≠ c := fun c hc h => by
      rw [← h, hnat] at hc
      omega
    have hle : ¬ pushOpcode b > OP_16 := by
      rw [gt_iff_lt, UInt8.lt_iff_toNat_lt, hnat, show OP_16.toNat = 96 from rfl]
      omega
    rw [isCanonicalPush, if_neg hle]
    by_cases hsmall : b.length = 1 ∧ b.headD 0 ≤ 16
    · have hpos : pushOpcode b > OP_0 := by
        rw [gt_iff_lt, UInt8.lt_iff_toNat_lt, hnat, hsmall.1]
        exact Nat.one_pos
      rw [if_pos ⟨hlt, hpos, hsmall⟩]
      exact iff_of_false Bool.false_ne_true (not_not_intro hsmall)
    · rw [if_neg (fun h => hsmall h.2.2), if_neg (fun h => hne OP_PUSHDATA1 le_rfl h.1),
        if_neg (fun h => hne OP_PUSHDATA2 (by decide) h.1), if_neg (fun h => hne OP_PUSHDATA4 (by decide) h.1)]
      exact iff_of_true rfl hsmall
  · have hsmall : ¬ IsSmall b := fun h => by
      have hone := h.1
      rcases hform with ⟨h₁, _⟩ | ⟨h₁, _⟩ | ⟨h₁, _⟩ <;> omega
    refine iff_of_true ?_ hsmall
    rcases hform with ⟨h₁, _, _, h⟩ | ⟨h₁, _, _, h⟩ | ⟨h₁, _, h⟩ <;>
      simp only [isCanonicalPush, h] <;>
      simp [OP_PUSHDATA1, OP_PUSHDATA2, OP_PUSHDATA4, OP_16, OP_0] <;> omega

theorem not_isSmall_getvch {n : ℤ} (hn : ¬ (1 ≤ n ∧ n ≤ 16)) : ¬ IsSmall (getvch n) := by
  rintro ⟨hlen, hhead⟩
  obtain ⟨v, hv⟩ := List.length_eq_one_iff.1 hlen
  have hback := setvch_getvch n
  rw [hv] at hback hhead
  have hle : v.toNat ≤ 16 := UInt8.le_iff_toNat_le.1 hhead
  rw [setvch, List.reverse_singleton, mpi2bn_cons, if_pos (by omega)] at hback
  have hzero : n ≠ 0 := by
    rintro rfl
    cases hv
  rw [show beValue [] = 0 from rfl, List.length_nil, pow_zero] at hback
  omega

/-- An instruction is canonical unless it pushes a vector that an opcode stands for. -/
theorem isCanonicalPush_readBack {i : Instruction} (hplain : IsPlain i) :
    isCanonicalPush (readBack i).1 (readBack i).2 = true ↔ ∀ b, i = .bytes b → ¬ IsSmall b := by
  cases i with
  | opcode c =>
    refine iff_of_true ?_ (fun b h => by cases h)
    rcases hplain with rfl | hc
    · decide
    · rw [readBack, isCanonicalPush]
      have hnat := UInt8.lt_iff_toNat_lt.1 hc
      have hne : ∀ d : UInt8, d.toNat ≤ OP_PUSHDATA4.toNat → c ≠ d := fun d hd h => by
        rw [h] at hnat
        omega
      have hlt : ¬ c < OP_PUSHDATA1 := fun h => by
        have := UInt8.lt_iff_toNat_lt.1 h
        have hp : OP_PUSHDATA1.toNat ≤ OP_PUSHDATA4.toNat := by decide
        omega
      split
      · rfl
      rw [if_neg (fun h => hlt h.1), if_neg (fun h => hne _ (by decide) h.1), if_neg (fun h => hne _ (by decide) h.1),
        if_neg (fun h => hne _ le_rfl h.1)]
  | int n =>
    refine iff_of_true ?_ (fun b h => by cases h)
    rw [readBack]
    split
    · next hn =>
      rcases hn with hn | hn
      · rw [hn]
        decide
      · have hall : ∀ k < 17, 1 ≤ k → isCanonicalPush (UInt8.ofNat (k + 80)) [] = true := by decide
        have := hall n.toInt.toNat (by omega) (by omega)
        rwa [show n.toInt.toNat + 80 = (n.toInt + 0x50).toNat by omega] at this
    · next hn => exact (isCanonicalPush_push _).2 (not_isSmall_getvch fun h => hn (.inr h))
  | uint n =>
    refine iff_of_true ?_ (fun b h => by cases h)
    rw [readBack]
    split
    · next hn =>
      have hall : ∀ k < 17, 1 ≤ k → isCanonicalPush (UInt8.ofNat (k + 80)) [] = true := by decide
      exact hall n.toNat (by omega) hn.1
    · next hn => exact (isCanonicalPush_push _).2 (not_isSmall_getvch fun h => hn (by omega))
  | bytes b =>
    rw [readBack, isCanonicalPush_push]
    exact ⟨fun h b' hb => by cases hb; exact h, fun h => h b rfl⟩

/-- **A script is read as it was written**: the instructions come back in order up to the end, the pushes are canonical
but for vectors of one small byte, and on any script the reader stays inside and moves ahead. -/
theorem build_parses {l : List Instruction} (hplain : ∀ i ∈ l, IsPlain i) (hshort : (build l).length < 2 ^ 32)
    {s : CScript} {pc : ℕ} (hpc : pc ≤ s.length) :
    getOps (build l) ((build l).length + 1) 0 = (l.map readBack, (build l).length) ∧
      (hasCanonicalPushes (build l) = true ↔ ∀ b, Instruction.bytes b ∈ l → ¬ IsSmall b) ∧
      ∃ r next, getOpAt s pc = some (r, next) ∧ pc ≤ next ∧ next ≤ s.length ∧ (r.isSome → pc < next) := by
  have hlen := length_le_build l
  refine ⟨getOps_flatMap (u := []) (build_eq_flatMap l) hshort hplain (Nat.lt_succ_of_le hlen), ?_, getOpAt_inside hpc⟩
  have hloop := canonicalLoop_flatMap (u := []) (build_eq_flatMap l) hshort hplain (Nat.lt_succ_of_le hlen)
  rw [List.length_nil] at hloop
  rw [hasCanonicalPushes, hloop, List.all_eq_true]
  constructor
  · exact fun h b hb => (isCanonicalPush_readBack (hplain _ hb)).1 (h _ hb) b rfl
  · exact fun h i hi => (isCanonicalPush_readBack (hplain i hi)).2 fun b hb => h b (hb ▸ hi)

/-- A number and a vector are read back. -/
theorem build_parses_pair :
    getOps (build [.int 17, .bytes [5, 6]]) 6 0 = ([.int 17, .bytes [5, 6]].map readBack, 5) ∧
      hasCanonicalPushes (build [.int 17, .bytes [5, 6]]) = true := by
  have h := build_parses (l := [.int 17, .bytes [5, 6]]) (fun i hi => by
    rcases List.mem_pair.1 hi with rfl | rfl <;> trivial) (by decide) (Nat.le_refl ([] : CScript).length)
  exact ⟨h.1, by decide⟩

/-- A push of one byte is not read when the bytes behind it are `2 ^ 32`. -/
theorem getOpAt_wraps {t : CScript} (ht : t.length + 1 = 2 ^ 32) : getOpAt (1 :: 0 :: t) 0 = some (none, 1) := by
  have hlen : ¬ (1 :: 0 :: t : CScript).length ≤ 0 := by simp
  have hmod : ((1 :: 0 :: t : CScript).length - 1) % 2 ^ 32 = 0 := by
    rw [List.length_cons, List.length_cons, Nat.add_sub_cancel, ht, Nat.mod_self]
  have hsize : sizeAt (1 :: 0 :: t) 1 1 = some (some (1, 1)) := if_pos (by decide)
  simp only [getOpAt, if_neg hlen, List.getElem?_cons_zero, Option.bind_eq_bind, Option.bind_some, Nat.zero_add, hsize,
    hmod]
  rw [if_pos (by decide), if_pos (.inr Nat.one_pos)]

theorem build_stops {b : List UInt8} (hlen : b.length = 2 ^ 32 - 6) :
    getOps (build [.bytes [0], .bytes b]) ((build [.bytes [0], .bytes b]).length + 1) 0 = ([], 0) := by
  have hbuild : build [.bytes [0], .bytes b] = 1 :: 0 :: push [] b := push_eq_append [1, 0] b
  have hpush : (push [] b).length + 1 = 2 ^ 32 := by
    rcases push_cases b with ⟨hsmall, -⟩ | ⟨width, hform, hpush⟩
    · omega
    · rw [hpush, List.length_cons, List.length_append, length_leBytes]
      rcases hform with ⟨_, _, _, _⟩ | ⟨_, _, _, _⟩ | ⟨_, _, _⟩ <;> omega
  rw [hbuild, getOps, getOpAt_wraps hpush]

/-- A bare opcode of a push takes what follows it for its size, and a script of `2 ^ 32` bytes behind a push stops. -/
theorem build_misread :
    getOps (build [.opcode OP_PUSHDATA1]) 2 0 ≠ ([(OP_PUSHDATA1, [])], 1) ∧
      ∃ l, (∀ i ∈ l, IsPlain i) ∧ getOps (build l) ((build l).length + 1) 0 ≠ (l.map readBack, (build l).length) := by
  obtain ⟨b, hb⟩ : ∃ b : List UInt8, b.length = 2 ^ 32 - 6 := ⟨_, List.length_replicate (a := 0)⟩
  refine ⟨by decide, [.bytes [0], .bytes b], fun i hi => ?_, fun h => ?_⟩
  · rcases List.mem_pair.1 hi with rfl | rfl <;> exact True.intro
  · have hstop := congrArg Prod.fst (h.symm.trans (build_stops hb))
    cases hstop

end CScript

end PayDayCoin
