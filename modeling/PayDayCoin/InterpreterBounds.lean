import PayDayCoin.Interpreter
import Mathlib.Logic.Relation

/-!
# The limits of the interpreter

A turn of the loop of `EvalScript` (`EvalTurn`) reads one instruction and works on the variables; the loop comes from a
position to another by turns (`EvalReaches`).

**`evalReaches_bounded`**: wherever the loop comes to in a script, whatever bytes it is, the two stacks have at most 1000
elements together, no element is longer than 520 bytes, at most 201 operations were counted and as many conditionals are
open, and the code that signatures commit to is the end of the script.
-/

namespace PayDayCoin

open CScript

/-! ### Positions -/

theorem sizeBytes_rest {width n : ℕ} {pc u : CScript} (h : CScript.readSize width pc = some (n, u)) : ∃ z, pc = z ++ u := by
  rw [CScript.readSize] at h
  split at h
  · cases h
  · cases h
    exact ⟨pc.take width, (List.take_append_drop width pc).symm⟩

theorem pushData_rest {c : UInt8} {pc rest : CScript} {i : UInt8 × List UInt8} {size : Option (ℕ × CScript)}
    (hsize : ∀ n u, size = some (n, u) → ∃ z, pc = z ++ u) (h : pushData c pc size = (some i, rest)) :
    i.1 = c ∧ ∃ z, pc = z ++ rest := by
  rcases hs : size with _ | ⟨nSize, u⟩ <;> rw [hs, pushData] at h
  · cases h
  · obtain ⟨z, hz⟩ := hsize nSize u hs
    split at h
    · cases h
    · cases h
      exact ⟨rfl, z ++ u.take nSize, by rw [List.append_assoc, List.take_append_drop, hz]⟩

theorem sizeOf_rest (c : UInt8) {n : ℕ} {pc u : CScript}
    (h : (if c < OP_PUSHDATA1 then some (c.toNat, pc)
      else if c = OP_PUSHDATA1 then CScript.readSize 1 pc
      else if c = OP_PUSHDATA2 then CScript.readSize 2 pc
      else CScript.readSize 4 pc) = some (n, u)) : ∃ z, pc = z ++ u := by
  by_cases hsmall : c < OP_PUSHDATA1
  · rw [if_pos hsmall] at h
    cases h
    exact ⟨[], rfl⟩
  · rw [if_neg hsmall] at h
    split_ifs at h <;> exact sizeBytes_rest h

/-- An instruction is read off the front, from its opcode on. -/
theorem getOp2_rest {pc rest : CScript} {i : UInt8 × List UInt8} (h : getOp2 pc = (some i, rest)) :
    ∃ z, pc = i.1 :: (z ++ rest) := by
  cases pc with
  | nil => cases h
  | cons c pc =>
    by_cases hc : c ≤ OP_PUSHDATA4
    · rw [getOp2_cons_push hc] at h
      obtain ⟨hi, z, hz⟩ := pushData_rest (fun n u => sizeOf_rest c) h
      exact ⟨z, by rw [hi, hz]⟩
    · rw [getOp2, if_neg hc] at h
      cases h
      exact ⟨[], rfl⟩

theorem length_getOp2_lt {pc rest : CScript} {i : UInt8 × List UInt8} (h : getOp2 pc = (some i, rest)) :
    rest.length < pc.length := by
  obtain ⟨z, rfl⟩ := getOp2_rest h
  simp only [List.length_cons, List.length_append]
  omega

/-! ### The case of an opcode -/

/-- The cases that an opcode may have. -/
theorem opCase_cases {c : UInt8} {op : OpCase} (h : opCase c = some op) :
    op = .value (c.toNat - 0x50) ∨ op = .upgradableNop ∨ (c, op) ∈ opCases := by
  rw [opCase] at h
  split at h
  · exact .inl (Option.some.inj h).symm
  split at h
  · exact .inr (.inl (Option.some.inj h).symm)
  · obtain ⟨l, m, hl, -⟩ := List.lookup_eq_some_iff.1 h
    exact .inr (.inr (by rw [hl]; simp))

theorem not_value_of_mem_opCases : ∀ p ∈ opCases, ∀ n, p.2 ≠ .value n := by
  have h : (opCases.all fun p => match p.2 with | .value _ => false | _ => true) = true := by decide
  intro p hp n hn
  have := List.all_eq_true.1 h p hp
  rw [hn] at this
  cases this

theorem natAbs_of_opCase {c : UInt8} {n : ℤ} (h : opCase c = some (.value n)) : n.natAbs < 2 ^ 39 := by
  obtain hvalue | hnop | hmem := opCase_cases h
  · have := c.toNat_lt
    cases hvalue
    omega
  · cases hnop
  · exact absurd rfl (not_value_of_mem_opCases _ hmem n)

/-! ### Sizes of elements -/

/-- No element is longer than the limit. -/
def ElementsFit (s : List Valtype) : Prop := ∀ vch ∈ s, vch.length ≤ MAX_SCRIPT_ELEMENT_SIZE

@[simp] theorem elementsFit_nil : ElementsFit [] := fun _ h => by cases h

@[simp] theorem elementsFit_cons {vch : Valtype} {s : List Valtype} :
    ElementsFit (vch :: s) ↔ vch.length ≤ MAX_SCRIPT_ELEMENT_SIZE ∧ ElementsFit s := List.forall_mem_cons

theorem ElementsFit.of_subset {s t : List Valtype} (h : ElementsFit s) (hsub : t ⊆ s) : ElementsFit t :=
  fun vch hvch => h vch (hsub hvch)

theorem length_getvch_le {n : ℤ} (hn : n.natAbs < 2 ^ 39) : (getvch n).length ≤ 5 := by
  rw [getvch, length_leBytes, mpiSize]
  split
  · exact Nat.zero_le 5
  · next hne =>
    have := (Nat.log2_lt hne).2 hn
    omega

theorem elementsFit_getvch {n : ℤ} (hn : n.natAbs < 2 ^ 39) : (getvch n).length ≤ MAX_SCRIPT_ELEMENT_SIZE :=
  (length_getvch_le hn).trans (by decide)

theorem natAbs_numOfBool_le (b : Bool) : (numOfBool b).natAbs ≤ 1 := by
  cases b <;> decide

theorem UnaryOp.natAbs_eval_lt {op : UnaryOp} {bn : ℤ} (hbn : bn.natAbs < 2 ^ 31) : (op.eval bn).natAbs < 2 ^ 39 := by
  have hbool := natAbs_numOfBool_le
  cases op <;> simp only [UnaryOp.eval]
  case OP_1ADD => omega
  case OP_1SUB => omega
  case OP_NEGATE => omega
  case OP_ABS => split <;> omega
  case OP_NOT => have := hbool (bn == 0); omega
  case OP_0NOTEQUAL => have := hbool (bn != 0); omega

theorem BinaryOp.natAbs_eval_lt {op : BinaryOp} {bn1 bn2 : ℤ} (h1 : bn1.natAbs < 2 ^ 31) (h2 : bn2.natAbs < 2 ^ 31) :
    (op.eval bn1 bn2).natAbs < 2 ^ 39 := by
  have hbool : ∀ b, (numOfBool b).natAbs < 2 ^ 39 := fun b => (natAbs_numOfBool_le b).trans_lt (by norm_num)
  cases op <;> simp only [BinaryOp.eval, hbool]
  case OP_ADD => omega
  case OP_SUB => omega
  case OP_MIN => split <;> omega
  case OP_MAX => split <;> omega

theorem StackOp.eval_subset {op : StackOp} {s t : List Valtype} (h : op.eval s = some t) : t ⊆ s := by
  unfold StackOp.eval at h
  split at h <;> cases h
  case h_7 => split <;> simp
  all_goals simp +contextual [List.subset_def]

/-! ### The tests of each instruction -/

theorem countOp_eq_some {opcode : UInt8} {vch : Valtype} {f g : Frame} (h : countOp opcode vch f = some g) :
    vch.length ≤ MAX_SCRIPT_ELEMENT_SIZE ∧ (f.nOpCount ≤ 201 → g.nOpCount ≤ 201) ∧ isDisabled opcode = false ∧
      g = { f with nOpCount := if OP_16 < opcode then f.nOpCount + 1 else f.nOpCount } := by
  rw [countOp] at h
  by_cases hlimits : MAX_SCRIPT_ELEMENT_SIZE < vch.length ∨
      (OP_16 < opcode ∧ 201 < if OP_16 < opcode then f.nOpCount + 1 else f.nOpCount) ∨ isDisabled opcode = true
  · rw [if_pos hlimits] at h
    cases h
  rw [if_neg hlimits] at h
  cases h
  refine ⟨Nat.le_of_not_lt fun hlong => hlimits (.inl hlong), fun hcount => ?_, ?_, rfl⟩
  · split
    · next hop =>
      rw [if_pos hop] at hlimits
      exact Nat.le_of_not_lt fun hmany => hlimits (.inr (.inl ⟨hop, hmany⟩))
    · exact hcount
  · exact Bool.eq_false_iff.2 fun hdisabled => hlimits (.inr (.inr hdisabled))

theorem sizeLimit_eq_some {f g : Frame} (h : sizeLimit f = some g) : g = f := by
  rw [sizeLimit] at h
  split at h <;> cases h
  rfl

/-! ### What a case keeps -/

theorem elementsFit_check (b : Bool) : (if b then vchTrue else vchFalse).length ≤ MAX_SCRIPT_ELEMENT_SIZE := by
  cases b <;> decide

/-- What a case of the `switch` may do to the variables. -/
structure Keeps (rest : CScript) (f f' : Frame) : Prop where
  stack : ElementsFit f.stack → f.stack.length ≤ 1000 → ElementsFit f.altstack → ElementsFit f'.stack
  altstack : ElementsFit f.stack → ElementsFit f.altstack → ElementsFit f'.altstack
  codehash : f'.codehash = f.codehash ∨ f'.codehash = rest
  count : f.nOpCount ≤ f'.nOpCount ∧ (f.nOpCount ≤ 201 → f'.nOpCount ≤ 201)

theorem Keeps.ofStack {rest : CScript} {f : Frame} {s : List Valtype}
    (h : ElementsFit f.stack → f.stack.length ≤ 1000 → ElementsFit f.altstack → ElementsFit s) :
    Keeps rest f { f with stack := s } :=
  ⟨h, fun _ ha => ha, .inl rfl, le_rfl, id⟩

theorem Keeps.pushCheck {rest : CScript} {f f' : Frame} {verify fSuccess : Bool} {s : List Valtype} (hs : s ⊆ f.stack)
    (h : f.pushCheck verify fSuccess s = some f') : Keeps rest f f' := by
  rw [Frame.pushCheck] at h
  split at h
  · split at h <;> cases h
    exact .ofStack fun hf _ _ => hf.of_subset hs
  · cases h
    exact .ofStack fun hf _ _ => elementsFit_cons.2 ⟨elementsFit_check fSuccess, hf.of_subset hs⟩

theorem take_drop_of_le {s t : List Valtype} {x : Valtype} {n : ℕ} (h : s.drop n = x :: t) :
    (s.take n).length = n ∧ s = s.take n ++ x :: t := by
  have hlen := congrArg List.length h
  rw [List.length_drop, List.length_cons] at hlen
  refine ⟨by rw [List.length_take]; omega, ?_⟩
  rw [← h, List.take_append_drop]

variable {E : Evaluator}

theorem getint_of_castToNum {vch : Valtype} {n : ℤ} (h : E.castToNum vch = some n) : getint n = n := by
  have := E.castToNum_lt vch n h
  rw [getint]
  split <;> omega

/-! ### OP_CHECKMULTISIG -/

/-- What `OP_CHECKMULTISIG` finds on the stack, and what it leaves. -/
structure MultisigArgs (f : Frame) (verify : Bool) (f' : Frame) (kn sn dummy : Valtype) (keys sigs s : List Valtype) :
    Prop where
  stack : f.stack = kn :: (keys ++ sn :: (sigs ++ dummy :: s))
  nKeysCount : E.castToNum kn = some (keys.length : ℤ)
  keys_le : keys.length ≤ 20
  count : f.nOpCount + keys.length ≤ 201
  nSigsCount : E.castToNum sn = some (sigs.length : ℤ)
  sigs_le : sigs.length ≤ keys.length
  nullDummy : E.nullDummy = true → dummy = []
  result : ∃ fSuccess, multisigLoop E (dropSigs f.codehash sigs) sigs keys = some fSuccess ∧
    Frame.pushCheck { f with nOpCount := f.nOpCount + keys.length } verify fSuccess s = some f'

theorem evalMultisig_iff {f f' : Frame} {verify : Bool} :
    evalMultisig E verify f = some f' ↔
      ∃ kn sn dummy keys sigs s, MultisigArgs (E := E) f verify f' kn sn dummy keys sigs s := by
  constructor
  · intro h
    rw [evalMultisig] at h
    split at h
    · cases h
    next kn s₁ hstack =>
    obtain ⟨k, hk, h⟩ := Option.bind_eq_some_iff.1 h
    obtain ⟨k, hkn, rfl⟩ := Option.map_eq_some_iff.1 hk
    rw [getint_of_castToNum hkn] at h
    by_cases hkeys : k < 0 ∨ 20 < k
    · rw [if_pos hkeys] at h
      cases h
    rw [if_neg hkeys] at h
    dsimp only at h
    by_cases hcount : 201 < f.nOpCount + k.toNat
    · rw [if_pos hcount] at h
      cases h
    rw [if_neg hcount] at h
    rcases hs₂ : s₁.drop k.toNat with _ | ⟨sn, s₂⟩ <;> rw [hs₂] at h
    · cases h
    obtain ⟨m, hm, h⟩ := Option.bind_eq_some_iff.1 h
    obtain ⟨m, hsn, rfl⟩ := Option.map_eq_some_iff.1 hm
    rw [getint_of_castToNum hsn] at h
    by_cases hsigs : m < 0 ∨ k < m
    · rw [if_pos hsigs] at h
      cases h
    rw [if_neg hsigs] at h
    rcases hs : s₂.drop m.toNat with _ | ⟨dummy, s⟩ <;> rw [hs] at h
    · cases h
    obtain ⟨fSuccess, hloop, h⟩ := Option.bind_eq_some_iff.1 h
    split at h
    · cases h
    next hdummy =>
    obtain ⟨hkeyslen, hs₁⟩ := take_drop_of_le hs₂
    obtain ⟨hsigslen, hs₂'⟩ := take_drop_of_le hs
    refine ⟨kn, sn, dummy, s₁.take k.toNat, s₂.take m.toNat, s, ⟨?_, ?_, ?_, ?_, ?_, ?_, ?_, fSuccess, hloop, ?_⟩⟩
    · rw [hstack, ← hs₂', ← hs₁]
    · rw [hkn, hkeyslen, Int.toNat_of_nonneg (by omega)]
    · omega
    · omega
    · rw [hsn, hsigslen, Int.toNat_of_nonneg (by omega)]
    · omega
    · exact fun hnull => by_contra fun hne => hdummy ⟨hnull, hne⟩
    · rw [hkeyslen]
      exact h
  · rintro ⟨kn, sn, dummy, keys, sigs, s, hstack, hkn, hkeys, hcount, hsn, hsigs, hdummy, fSuccess, hloop, hcheck⟩
    rw [evalMultisig, hstack]
    dsimp only
    rw [hkn, Option.map_some, getint_of_castToNum hkn]
    simp only [Option.bind_eq_bind, Option.bind_some]
    rw [if_neg (by omega), Int.toNat_natCast, if_neg (by omega), List.drop_left, List.take_left]
    dsimp only
    rw [hsn, Option.map_some, getint_of_castToNum hsn]
    simp only [Option.bind_some]
    rw [if_neg (by omega), Int.toNat_natCast, List.drop_left, List.take_left]
    dsimp only
    rw [hloop, Option.bind_some, if_neg fun h => h.2 (hdummy h.1)]
    exact hcheck

theorem Keeps.evalMultisig {rest : CScript} {f f' : Frame} {verify : Bool} (h : evalMultisig E verify f = some f') :
    Keeps rest f f' := by
  obtain ⟨kn, sn, dummy, keys, sigs, s, hargs⟩ := evalMultisig_iff.1 h
  obtain ⟨fSuccess, -, hcheck⟩ := hargs.result
  have hkeep : Keeps rest { f with nOpCount := f.nOpCount + keys.length } f' :=
    .pushCheck (by rw [hargs.stack]; simp +contextual [List.subset_def]) hcheck
  obtain ⟨hstack, haltstack, hcodehash, hle, hlimit⟩ := hkeep
  exact ⟨hstack, haltstack, hcodehash, le_trans (Nat.le_add_right _ _) hle, fun _ => hlimit hargs.count⟩

/-! ### Turns -/

section Turns

variable [ScriptCrypto]

theorem HashOp.length_eval_le (op : HashOp) (vch : Valtype) : (op.eval vch).length ≤ 32 := by
  cases op <;> simp [HashOp.eval, CKeyID.size_eq, length_leBytes]

variable (E) in
/-- A turn of the loop, from a position and the variables there to the next. -/
def EvalTurn (a b : CScript × Frame) : Prop :=
  ∃ opcode vchPushValue, getOp2 a.1 = (some (opcode, vchPushValue), b.1) ∧ evalStep E opcode vchPushValue b.1 a.2 = some b.2

variable (E) in
/-- The loop comes from one position to the other. -/
def EvalReaches : CScript × Frame → CScript × Frame → Prop := Relation.ReflTransGen (EvalTurn E)

theorem evalLoop_turn {fuel : ℕ} {pc rest : CScript} {f : Frame} {opcode : UInt8} {vch : Valtype}
    (hget : getOp2 pc = (some (opcode, vch), rest)) :
    evalLoop E (fuel + 1) pc f = (evalStep E opcode vch rest f).bind (evalLoop E fuel rest) := by
  cases pc with
  | nil => cases hget
  | cons c pc => rw [evalLoop, hget]

/-- The loop ends with the variables that it comes to the end of the script with. -/
theorem evalLoop_iff {fuel : ℕ} {pc : CScript} {f f' : Frame} (hfuel : pc.length ≤ fuel) :
    evalLoop E fuel pc f = some f' ↔ EvalReaches E (pc, f) ([], f') := by
  induction fuel generalizing pc f with
  | zero =>
    obtain rfl := List.length_eq_zero_iff.1 (Nat.le_zero.1 hfuel)
    rw [evalLoop]
    constructor
    · rintro ⟨⟩
      exact .refl
    · intro h
      obtain h | ⟨b, ⟨opcode, vch, hget, -⟩, -⟩ := h.cases_head
      · cases h
        rfl
      · cases hget
  | succ fuel ih =>
    cases pc with
    | nil =>
      rw [evalLoop]
      constructor
      · rintro ⟨⟩
        exact .refl
      · intro h
        obtain h | ⟨b, ⟨opcode, vch, hget, -⟩, -⟩ := h.cases_head
        · cases h
          rfl
        · cases hget
    | cons c pc =>
      rcases hget : getOp2 (c :: pc) with ⟨_ | ⟨opcode, vch⟩, rest⟩
      · rw [evalLoop, hget]
        refine iff_of_false (fun h => by cases h) fun h => ?_
        obtain h | ⟨b, ⟨opcode, vch, hget', -⟩, -⟩ := h.cases_head
        · cases h
        · rw [hget] at hget'
          cases hget'
      · have hlt := length_getOp2_lt hget
        rw [evalLoop_turn hget, Option.bind_eq_some_iff]
        constructor
        · rintro ⟨g, hstep, hrun⟩
          exact .head ⟨opcode, vch, hget, hstep⟩ ((ih (by omega)).1 hrun)
        · intro h
          obtain h | ⟨⟨rest', g⟩, ⟨opcode', vch', hget', hstep⟩, hrun⟩ := h.cases_head
          · cases h
          · rw [hget] at hget'
            cases hget'
            exact ⟨g, hstep, (ih (by omega)).2 hrun⟩

/-- `EvalScript` returns true with a stack exactly when its loop comes to the end of a script that is not too long, with
every conditional closed. -/
theorem evalScript_iff {stack s : List Valtype} {script : CScript} :
    evalScript E stack script = some s ↔ script.length ≤ 10000 ∧
      ∃ f, EvalReaches E (script, startFrame stack script) ([], f) ∧ f.vfExec = [] ∧ f.stack = s := by
  rw [evalScript]
  by_cases hlen : 10000 < script.length
  · rw [if_pos hlen]
    exact iff_of_false (fun h => by cases h) fun h => absurd h.1 (Nat.not_le.2 hlen)
  · rw [if_neg hlen, and_iff_right (Nat.le_of_not_lt hlen)]
    rcases hrun : evalLoop E script.length script (startFrame stack script) with _ | f
    · refine iff_of_false (fun h => by cases h) ?_
      rintro ⟨f, hreach, -⟩
      rw [(evalLoop_iff le_rfl).2 hreach] at hrun
      cases hrun
    · have hreach := (evalLoop_iff le_rfl).1 hrun
      constructor
      · intro h
        dsimp only at h
        split at h
        · next hempty => exact ⟨f, hreach, List.isEmpty_iff.1 hempty, Option.some.inj h⟩
        · cases h
      · rintro ⟨g, hreach', hempty, rfl⟩
        rw [(evalLoop_iff le_rfl).2 hreach'] at hrun
        cases hrun
        dsimp only
        rw [if_pos (List.isEmpty_iff.2 hempty)]

/-! ### Bounds -/

theorem evalCase_keeps {rest : CScript} {f f' : Frame} {op : OpCase} (hvalue : ∀ n, op = .value n → n.natAbs < 2 ^ 39)
    (h : evalCase E rest f op = some f') : Keeps rest f f' := by
  cases op with
  | value n =>
    cases h
    exact .ofStack fun hs _ _ => elementsFit_cons.2 ⟨elementsFit_getvch (hvalue n rfl), hs⟩
  | OP_NOP =>
    cases h
    exact .ofStack fun hs _ _ => hs
  | upgradableNop =>
    rw [evalCase] at h
    split at h <;> cases h
    exact .ofStack fun hs _ _ => hs
  | OP_IF negated =>
    rw [evalCase] at h
    split at h
    · split at h
      · cases h
      next vch s hstack =>
      cases h
      exact ⟨fun hs _ _ => hs.of_subset (by simp [hstack]), fun _ ha => ha, .inl rfl, le_rfl, id⟩
    · cases h
      exact ⟨fun hs _ _ => hs, fun _ ha => ha, .inl rfl, le_rfl, id⟩
  | OP_ELSE =>
    rw [evalCase] at h
    split at h <;> cases h
    exact ⟨fun hs _ _ => hs, fun _ ha => ha, .inl rfl, le_rfl, id⟩
  | OP_ENDIF =>
    rw [evalCase] at h
    split at h <;> cases h
    exact ⟨fun hs _ _ => hs, fun _ ha => ha, .inl rfl, le_rfl, id⟩
  | OP_VERIFY =>
    rw [evalCase] at h
    split at h
    · cases h
    next vch s hstack =>
    split at h <;> cases h
    exact .ofStack fun hs _ _ => hs.of_subset (by simp [hstack])
  | OP_RETURN => cases h
  | OP_TOALTSTACK =>
    rw [evalCase] at h
    split at h
    · cases h
    next vch s hstack =>
    cases h
    refine ⟨fun hs _ _ => hs.of_subset (by simp [hstack]), fun hs ha => ?_, .inl rfl, le_rfl, id⟩
    rw [hstack, elementsFit_cons] at hs
    exact elementsFit_cons.2 ⟨hs.1, ha⟩
  | OP_FROMALTSTACK =>
    rw [evalCase] at h
    split at h
    · cases h
    next vch s haltstack =>
    cases h
    refine ⟨fun hs _ ha => ?_, fun _ ha => ha.of_subset (by simp [haltstack]), .inl rfl, le_rfl, id⟩
    rw [haltstack, elementsFit_cons] at ha
    exact elementsFit_cons.2 ⟨ha.1, hs⟩
  | stack op =>
    obtain ⟨s, hs, h⟩ := Option.bind_eq_some_iff.1 h
    cases h
    exact .ofStack fun hf _ _ => hf.of_subset (StackOp.eval_subset hs)
  | OP_DEPTH =>
    cases h
    refine .ofStack fun hs hsize _ => elementsFit_cons.2 ⟨elementsFit_getvch ?_, hs⟩
    rw [Int.natAbs_natCast]
    omega
  | OP_PICK roll =>
    rw [evalCase] at h
    split at h
    · cases h
    · cases h
    next top s _ hstack =>
    obtain ⟨n, -, h⟩ := Option.bind_eq_some_iff.1 h
    split at h
    · cases h
    obtain ⟨vch, hvch, h⟩ := Option.bind_eq_some_iff.1 h
    cases h
    refine .ofStack fun hs _ _ => ?_
    rw [hstack, elementsFit_cons] at hs
    refine elementsFit_cons.2 ⟨hs.2 vch (List.mem_of_getElem? hvch), hs.2.of_subset ?_⟩
    split
    · exact (List.eraseIdx_sublist s n.toNat).subset
    · exact List.Subset.refl s
  | OP_SIZE =>
    rw [evalCase] at h
    split at h
    · cases h
    next vch s hstack =>
    cases h
    refine .ofStack fun hs _ _ => ?_
    rw [hstack] at hs
    refine elementsFit_cons.2 ⟨elementsFit_getvch ?_, hs⟩
    have := (elementsFit_cons.1 hs).1
    rw [Int.natAbs_natCast]
    rw [MAX_SCRIPT_ELEMENT_SIZE] at this
    omega
  | OP_EQUAL verify =>
    rw [evalCase] at h
    split at h
    next vch2 vch1 s hstack => exact .pushCheck (by rw [hstack]; simp +contextual [List.subset_def]) h
    · cases h
  | unary op =>
    rw [evalCase] at h
    split at h
    · cases h
    next vch s hstack =>
    obtain ⟨bn, hbn, h⟩ := Option.bind_eq_some_iff.1 h
    cases h
    refine .ofStack fun hs _ _ => ?_
    rw [hstack, elementsFit_cons] at hs
    exact elementsFit_cons.2 ⟨elementsFit_getvch (UnaryOp.natAbs_eval_lt (E.castToNum_lt _ _ hbn)), hs.2⟩
  | binary op verify =>
    rw [evalCase] at h
    split at h
    next vch2 vch1 s hstack =>
      obtain ⟨bn1, hbn1, h⟩ := Option.bind_eq_some_iff.1 h
      obtain ⟨bn2, hbn2, h⟩ := Option.bind_eq_some_iff.1 h
      have hrest : ElementsFit f.stack → ElementsFit s := fun hs =>
        hs.of_subset (by rw [hstack]; simp +contextual [List.subset_def])
      dsimp only at h
      split at h
      · split at h <;> cases h
        exact .ofStack fun hs _ _ => hrest hs
      · cases h
        exact .ofStack fun hs _ _ => elementsFit_cons.2
          ⟨elementsFit_getvch (BinaryOp.natAbs_eval_lt (E.castToNum_lt _ _ hbn1) (E.castToNum_lt _ _ hbn2)), hrest hs⟩
    · cases h
  | OP_WITHIN =>
    rw [evalCase] at h
    split at h
    next vch3 vch2 vch1 s hstack =>
      obtain ⟨bn1, -, h⟩ := Option.bind_eq_some_iff.1 h
      obtain ⟨bn2, -, h⟩ := Option.bind_eq_some_iff.1 h
      obtain ⟨bn3, -, h⟩ := Option.bind_eq_some_iff.1 h
      exact .pushCheck (by rw [hstack]; simp +contextual [List.subset_def]) h
    · cases h
  | hash op =>
    rw [evalCase] at h
    split at h
    · cases h
    next vch s hstack =>
    cases h
    refine .ofStack fun hs _ _ => ?_
    rw [hstack, elementsFit_cons] at hs
    exact elementsFit_cons.2 ⟨(op.length_eval_le vch).trans (by decide), hs.2⟩
  | OP_CODESEPARATOR =>
    cases h
    exact ⟨fun hs _ _ => hs, fun _ ha => ha, .inr rfl, le_rfl, id⟩
  | OP_CHECKSIG verify =>
    rw [evalCase] at h
    split at h
    next vchPubKey vchSig s hstack =>
      split at h
      · cases h
      · exact .pushCheck (by rw [hstack]; simp +contextual [List.subset_def]) h
    · cases h
  | OP_CHECKMULTISIG verify => exact .evalMultisig h

/-- What holds wherever the loop comes to in a script. -/
structure Bounded (script : CScript) (a : CScript × Frame) : Prop where
  position : a.1 <:+ script
  codehash : a.2.codehash <:+ script
  stack : ElementsFit a.2.stack
  altstack : ElementsFit a.2.altstack
  sizes : a.2.stack.length + a.2.altstack.length ≤ 1000
  count : a.2.nOpCount ≤ 201

theorem evalOp_keeps {opcode : UInt8} {vch : Valtype} {rest : CScript} {f f' : Frame}
    (hvch : vch.length ≤ MAX_SCRIPT_ELEMENT_SIZE) (h : evalOp E opcode vch rest f = some f') : Keeps rest f f' := by
  rw [evalOp] at h
  split at h
  · split at h <;> cases h
    exact .ofStack fun hs _ _ => elementsFit_cons.2 ⟨hvch, hs⟩
  split at h
  · split at h
    · cases h
    next op hop => exact evalCase_keeps (fun n hn => natAbs_of_opCase (hn ▸ hop)) h
  · cases h
    exact .ofStack fun hs _ _ => hs

/-- A turn of the loop keeps the bounds. -/
theorem Bounded.turn {script : CScript} {a b : CScript × Frame} (h : Bounded script a) (hturn : EvalTurn E a b) :
    Bounded script b := by
  obtain ⟨opcode, vch, hget, hstep⟩ := hturn
  obtain ⟨z, hz⟩ := getOp2_rest hget
  have hposition : b.1 <:+ script := (show b.1 <:+ a.1 from ⟨opcode :: z, by rw [hz]; rfl⟩).trans h.position
  obtain ⟨g, hcount, hstep⟩ := Option.bind_eq_some_iff.1 hstep
  obtain ⟨f', hop, hlimit⟩ := Option.bind_eq_some_iff.1 hstep
  obtain ⟨hvch, hle, -, hg⟩ := countOp_eq_some hcount
  have hkeep := evalOp_keeps hvch hop
  rw [sizeLimit] at hlimit
  split at hlimit
  · cases hlimit
  next hsizes =>
  cases hlimit
  have hstack : g.stack = a.2.stack := by rw [hg]
  have haltstack : g.altstack = a.2.altstack := by rw [hg]
  refine ⟨hposition, ?_, hkeep.stack (hstack ▸ h.stack) ?_ (haltstack ▸ h.altstack),
    hkeep.altstack (hstack ▸ h.stack) (haltstack ▸ h.altstack), Nat.le_of_not_lt hsizes, hkeep.count.2 (hle h.count)⟩
  · obtain hcode | hcode := hkeep.codehash
    · rw [hcode, hg]
      exact h.codehash
    · rw [hcode]
      exact hposition
  · rw [hstack]
    exact le_trans (Nat.le_add_right _ _) h.sizes

/-- **The limits hold all the way**: from a stack within the limits, wherever the loop comes to in a script, the position
and the code that signatures commit to are ends of the script, the elements and the stacks are within their limits, and so
is the number of operations. -/
theorem evalReaches_bounded {script : CScript} {stack : List Valtype} (hstack : ElementsFit stack)
    (hsize : stack.length ≤ 1000) {a : CScript × Frame} (h : EvalReaches E (script, startFrame stack script) a) :
    Bounded script a := by
  induction h with
  | refl =>
    exact ⟨List.suffix_rfl, List.suffix_rfl, hstack, elementsFit_nil, by simpa [startFrame] using hsize, Nat.zero_le 201⟩
  | tail _ hturn ih => exact ih.turn hturn

/-- `EvalScript` goes from turn to turn within the limits, and what it leaves at the end of a script with every conditional
closed is what it returns. -/
theorem evalScript_bounded {script : CScript} {stack : List Valtype} (hstack : ElementsFit stack)
    (hsize : stack.length ≤ 1000) :
    (∀ a, EvalReaches E (script, startFrame stack script) a → Bounded script a) ∧
      ∀ s, evalScript E stack script = some s ↔ script.length ≤ 10000 ∧
        ∃ f, EvalReaches E (script, startFrame stack script) ([], f) ∧ f.vfExec = [] ∧ f.stack = s :=
  ⟨fun _ => evalReaches_bounded hstack hsize, fun _ => evalScript_iff⟩

end Turns

open InterpreterSample in
theorem evalScript_bounded_spend :
    let E := consensusEvaluator 0 spend 0 0
    (∀ a, EvalReaches E ([OP_1], startFrame [[7]] [OP_1]) a → Bounded [OP_1] a) ∧
      ∀ s, evalScript E [[7]] [OP_1] = some s ↔ [OP_1].length ≤ 10000 ∧
        ∃ f, EvalReaches E ([OP_1], startFrame [[7]] [OP_1]) ([], f) ∧ f.vfExec = [] ∧ f.stack = s :=
  evalScript_bounded (by simp [ElementsFit, MAX_SCRIPT_ELEMENT_SIZE]) (by decide)

end PayDayCoin
