import PayDayCoin.InterpreterBounds
import PayDayCoin.Library.Conditionals

/-!
# Scripts as nested code

`EvalScript` carries an instruction out when all the values in `vfExec` are true. The instructions of a script are tokens of
flat code (`CScript.tokens`), and what an instruction does depends on whether it is carried out and on nothing else of
`vfExec` (`evalStep_within`), so that the interpreter is a machine for flat code (`scriptMachine`).

**`evalScript_structured`**: `EvalScript` returns true exactly on the scripts that are nested code whose meaning goes
through, and leaves the stack that the code means; an arm that is not carried out leaves both stacks and the code that
signatures commit to as they are, but its operations count.
-/

namespace PayDayCoin

open CScript Library.Conditionals

/-! ### Tokens -/

/-- An instruction, with the script behind it. -/
structure ReadOp where
  opcode : UInt8
  vchPushValue : Valtype
  rest : CScript

/-- The token of an instruction. -/
def ReadOp.token (i : ReadOp) : Token ReadOp ReadOp :=
  match opCase i.opcode with
  | some (.OP_IF _) => .test i
  | some .OP_ELSE => .other
  | some .OP_ENDIF => .close
  | _ => .plain i

/-- The tokens from a position on, unless the script ends inside of an instruction. -/
def CScript.tokens : ℕ → CScript → Option (List (Token ReadOp ReadOp))
  | _, [] => some []
  | 0, _ :: _ => none
  | fuel + 1, c :: pc =>
    match getOp2 (c :: pc) with
    | (none, _) => none
    | (some (opcode, vchPushValue), rest) => (tokens fuel rest).map (ReadOp.token ⟨opcode, vchPushValue, rest⟩ :: ·)

/-- The variables with other conditionals around the position. -/
def Frame.within (f : Frame) (vfExec : List Bool) : Frame := { f with vfExec }

@[simp] theorem Frame.within_within (f : Frame) (v w : List Bool) : (f.within v).within w = f.within w := rfl

@[simp] theorem Frame.within_self (f : Frame) : f.within f.vfExec = f := rfl

@[simp] theorem Frame.fExec_within (f : Frame) (v : List Bool) : (f.within v).fExec = v.all id := rfl

@[simp] theorem Frame.stack_within (f : Frame) (v : List Bool) : (f.within v).stack = f.stack := rfl

@[simp] theorem Frame.altstack_within (f : Frame) (v : List Bool) : (f.within v).altstack = f.altstack := rfl

variable {E : Evaluator}

theorem within_inj {f f' : Frame} {v v' : List Bool} (hf : f.vfExec = []) (hf' : f'.vfExec = []) :
    f.within v = f'.within v' ↔ (v, f) = (v', f') := by
  constructor
  · intro h
    have hv : v = v' := congrArg Frame.vfExec h
    have hback := congrArg (·.within []) h
    dsimp only [Frame.within_within] at hback
    rw [← hf, Frame.within_self, hf, ← hf', Frame.within_self] at hback
    rw [hv, hback]
  · rintro ⟨⟩
    rfl

/-! ### What depends on the conditionals -/

theorem pushCheck_within (f : Frame) (v : List Bool) (verify fSuccess : Bool) (s : List Valtype) :
    (f.within v).pushCheck verify fSuccess s = (f.pushCheck verify fSuccess s).map (·.within v) := by
  cases verify <;> cases fSuccess <;> rfl

theorem evalMultisig_within (f : Frame) (v : List Bool) (verify : Bool) :
    evalMultisig E verify (f.within v) = (evalMultisig E verify f).map (·.within v) := by
  have hargs : ∀ g kn sn dummy keys sigs s, MultisigArgs (E := E) (f.within v) verify g kn sn dummy keys sigs s ↔
      ∃ g', MultisigArgs (E := E) f verify g' kn sn dummy keys sigs s ∧ g'.within v = g := by
    intro g kn sn dummy keys sigs s
    constructor
    · rintro ⟨hstack, hkn, hkeys, hcount, hsn, hsigs, hdummy, fSuccess, hloop, hcheck⟩
      have hcheck' := (pushCheck_within { f with nOpCount := f.nOpCount + keys.length } v verify fSuccess s).symm.trans hcheck
      obtain ⟨g', hg', rfl⟩ := Option.map_eq_some_iff.1 hcheck'
      exact ⟨g', ⟨hstack, hkn, hkeys, hcount, hsn, hsigs, hdummy, fSuccess, hloop, hg'⟩, rfl⟩
    · rintro ⟨g', ⟨hstack, hkn, hkeys, hcount, hsn, hsigs, hdummy, fSuccess, hloop, hcheck⟩, rfl⟩
      refine ⟨hstack, hkn, hkeys, hcount, hsn, hsigs, hdummy, fSuccess, hloop, ?_⟩
      exact (pushCheck_within { f with nOpCount := f.nOpCount + keys.length } v verify fSuccess s).trans (by rw [hcheck]; rfl)
  ext g
  rw [evalMultisig_iff, Option.map_eq_some_iff]
  simp only [hargs, evalMultisig_iff]
  constructor
  · rintro ⟨kn, sn, dummy, keys, sigs, s, g', h, rfl⟩
    exact ⟨g', ⟨kn, sn, dummy, keys, sigs, s, h⟩, rfl⟩
  · rintro ⟨g', ⟨kn, sn, dummy, keys, sigs, s, h⟩, rfl⟩
    exact ⟨kn, sn, dummy, keys, sigs, s, g', h, rfl⟩

/-- The cases that work on the list of conditionals. -/
def OpCase.isControl : OpCase → Bool
  | .OP_IF _ | .OP_ELSE | .OP_ENDIF => true
  | _ => false

theorem countOp_within (opcode : UInt8) (vch : Valtype) (f : Frame) (v : List Bool) :
    countOp opcode vch (f.within v) = (countOp opcode vch f).map (·.within v) := by
  rw [countOp, countOp, apply_ite (Option.map fun g : Frame => g.within v)]
  rfl

theorem sizeLimit_within (f : Frame) (v : List Bool) : sizeLimit (f.within v) = (sizeLimit f).map (·.within v) := by
  rw [sizeLimit, sizeLimit, apply_ite (Option.map fun g : Frame => g.within v)]
  rfl

theorem control_of_mem : ∀ p ∈ opCases, p.2.isControl = true → 0x63 ≤ p.1 ∧ p.1 ≤ 0x68 := by
  decide

theorem control_of_range_mem : ∀ p ∈ opCases, 0x63 ≤ p.1 ∧ p.1 ≤ 0x68 → p.2.isControl = true := by
  decide

theorem control_range {c : UInt8} {op : OpCase} (h : opCase c = some op) (hop : op.isControl = true) :
    0x63 ≤ c ∧ c ≤ 0x68 := by
  obtain rfl | rfl | hmem := opCase_cases h
  · cases hop
  · cases hop
  · exact control_of_mem _ hmem hop

theorem all_singleton (b : Bool) : [b].all id = b := by cases b <;> rfl

theorem opcode_of_mem : ∀ p ∈ opCases, (p.2 = .OP_ELSE → p.1 = 0x67) ∧ (p.2 = .OP_ENDIF → p.1 = 0x68) := by
  decide

theorem opcode_of_else {c : UInt8} (h : opCase c = some .OP_ELSE) : c = 0x67 := by
  obtain h | h | h := opCase_cases h
  · cases h
  · cases h
  · exact (opcode_of_mem _ h).1 rfl

theorem opcode_of_endif {c : UInt8} (h : opCase c = some .OP_ENDIF) : c = 0x68 := by
  obtain h | h | h := opCase_cases h
  · cases h
  · cases h
  · exact (opcode_of_mem _ h).2 rfl

/-- An opcode that pushes nothing is read without data. -/
theorem data_of_getOp2 {pc rest : CScript} {c : UInt8} {vch : Valtype} (h : getOp2 pc = (some (c, vch), rest))
    (hc : ¬ c ≤ OP_PUSHDATA4) : vch = [] := by
  obtain ⟨z, rfl⟩ := getOp2_rest h
  rw [getOp2, if_neg hc, Prod.mk.injEq, Option.some.injEq, Prod.mk.injEq] at h
  exact h.1.2.symm

/-! ### What is not carried out -/

/-- What the instructions keep that are not carried out. -/
def SameStacks (f g : Frame) : Prop :=
  g.stack = f.stack ∧ g.altstack = f.altstack ∧ g.codehash = f.codehash ∧ f.nOpCount ≤ g.nOpCount

theorem SameStacks.countOp {opcode : UInt8} {vch : Valtype} {f g : Frame} (h : countOp opcode vch f = some g) :
    SameStacks f g := by
  obtain ⟨-, -, -, rfl⟩ := countOp_eq_some h
  refine ⟨rfl, rfl, rfl, ?_⟩
  dsimp only
  split
  · exact Nat.le_succ _
  · exact le_rfl

theorem control_of_range {c : UInt8} {op : OpCase} (hc : 0x63 ≤ c ∧ c ≤ 0x68) (h : opCase c = some op) :
    op.isControl = true := by
  have hvalue : ¬ (c = 0x4f ∨ (OP_1 ≤ c ∧ c ≤ OP_16)) := by
    rintro (rfl | ⟨-, h16⟩)
    · exact absurd hc.1 (by decide)
    · exact absurd (UInt8.le_trans hc.1 h16) (by decide)
  have hnop : ¬ (0xb0 ≤ c ∧ c ≤ 0xb9) := fun h => absurd (UInt8.le_trans h.1 hc.2) (by decide)
  rw [opCase, if_neg hvalue, if_neg hnop] at h
  obtain ⟨l, m, hl, -⟩ := List.lookup_eq_some_iff.1 h
  exact control_of_range_mem (c, op) (by rw [hl]; simp) hc

variable [ScriptCrypto]

theorem evalCase_within {rest : CScript} {op : OpCase} (hop : op.isControl = false) (f : Frame) (v : List Bool) :
    evalCase E rest (f.within v) op = (evalCase E rest f op).map (·.within v) := by
  cases op with
  | OP_IF negated => cases hop
  | OP_ELSE => cases hop
  | OP_ENDIF => cases hop
  | OP_CHECKMULTISIG verify => exact evalMultisig_within f v verify
  | upgradableNop =>
    simp only [evalCase]
    split <;> rfl
  | OP_VERIFY =>
    simp only [evalCase, Frame.stack_within]
    split
    · rfl
    · split <;> rfl
  | OP_TOALTSTACK =>
    simp only [evalCase, Frame.stack_within]
    split <;> rfl
  | OP_FROMALTSTACK =>
    simp only [evalCase, Frame.altstack_within]
    split <;> rfl
  | stack op =>
    simp only [evalCase, Frame.stack_within]
    cases op.eval f.stack <;> rfl
  | OP_PICK roll =>
    simp only [evalCase, Frame.stack_within]
    split
    · rfl
    · rfl
    next top s _ _ =>
    rcases E.castToNum top with _ | n
    · rfl
    simp only [Option.map_some, Option.bind_eq_bind, Option.bind_some]
    split
    · rfl
    · cases s[(getint n).toNat]? <;> rfl
  | OP_SIZE =>
    simp only [evalCase, Frame.stack_within]
    split <;> rfl
  | OP_EQUAL verify =>
    simp only [evalCase, Frame.stack_within]
    split
    · exact pushCheck_within f v verify _ _
    · rfl
  | unary op =>
    simp only [evalCase, Frame.stack_within]
    split
    · rfl
    next vch s _ => cases E.castToNum vch <;> rfl
  | binary op verify =>
    simp only [evalCase, Frame.stack_within]
    split
    next vch2 vch1 s _ =>
      rcases E.castToNum vch1 with _ | bn1
      · rfl
      rcases E.castToNum vch2 with _ | bn2
      · rfl
      simp only [Option.bind_eq_bind, Option.bind_some]
      split
      · split <;> rfl
      · rfl
    · rfl
  | OP_WITHIN =>
    simp only [evalCase, Frame.stack_within]
    split
    next vch3 vch2 vch1 s _ =>
      rcases E.castToNum vch1 with _ | bn1
      · rfl
      rcases E.castToNum vch2 with _ | bn2
      · rfl
      rcases E.castToNum vch3 with _ | bn3
      · rfl
      exact pushCheck_within f v false _ s
    · rfl
  | hash op =>
    simp only [evalCase, Frame.stack_within]
    split <;> rfl
  | OP_CHECKSIG verify =>
    simp only [evalCase, Frame.stack_within]
    split
    · split
      · rfl
      · exact pushCheck_within f v verify _ _
    · rfl
  | value n => rfl
  | OP_NOP => rfl
  | OP_RETURN => rfl
  | OP_DEPTH => rfl
  | OP_CODESEPARATOR => rfl

theorem evalOp_control {c : UInt8} {op : OpCase} (h : opCase c = some op) (hop : op.isControl = true) (vch : Valtype)
    (rest : CScript) (f : Frame) : evalOp E c vch rest f = evalCase E rest f op := by
  have hrange := control_range h hop
  have hpush : ¬ c ≤ OP_PUSHDATA4 := fun hc => absurd (UInt8.le_trans hrange.1 hc) (by decide)
  rw [evalOp, if_neg (fun h => hpush h.2), if_pos (.inr hrange), h]

theorem evalOp_within {opcode : UInt8} (hop : ∀ op, opCase opcode = some op → op.isControl = false) {v w : List Bool}
    (hvw : v.all id = w.all id) (vch : Valtype) (rest : CScript) (f : Frame) :
    evalOp E opcode vch rest (f.within v) = (evalOp E opcode vch rest (f.within w)).map (·.within v) := by
  rw [evalOp, evalOp, Frame.fExec_within, Frame.fExec_within, hvw]
  split
  · split <;> rfl
  split
  · rcases hcase : opCase opcode with _ | op
    · rfl
    · dsimp only
      rw [evalCase_within (hop op hcase), evalCase_within (hop op hcase) f w, Option.map_map]
      rfl
  · rfl

/-- An instruction that is no part of a conditional depends on whether it is carried out. -/
theorem evalStep_within {opcode : UInt8} (hop : ∀ op, opCase opcode = some op → op.isControl = false) {v w : List Bool}
    (hvw : v.all id = w.all id) (vch : Valtype) (rest : CScript) (f : Frame) :
    evalStep E opcode vch rest (f.within v) = (evalStep E opcode vch rest (f.within w)).map (·.within v) := by
  rw [evalStep, evalStep, countOp_within, countOp_within]
  rcases countOp opcode vch f with _ | g
  · rfl
  simp only [Option.map_some, Option.bind_some]
  rw [evalOp_within hop hvw]
  rcases evalOp E opcode vch rest (g.within w) with _ | g'
  · rfl
  · exact sizeLimit_within g' v

/-- The value that `OP_IF` and `OP_NOTIF` add, and what is left of the stack. -/
def ifValue (fExec negated : Bool) (s : List Valtype) : Option (Bool × List Valtype) :=
  if fExec then
    match s with
    | [] => none
    | vch :: s => some (castToBool vch != negated, s)
  else some (false, s)

theorem evalStep_if {i : ReadOp} {negated : Bool} (h : opCase i.opcode = some (.OP_IF negated)) (v : List Bool) (f : Frame) :
    evalStep E i.opcode i.vchPushValue i.rest (f.within v) = (countOp i.opcode i.vchPushValue f).bind fun g =>
      (ifValue (v.all id) negated g.stack).bind fun a => sizeLimit { g with stack := a.2, vfExec := a.1 :: v } := by
  rw [evalStep, countOp_within]
  rcases countOp i.opcode i.vchPushValue f with _ | g
  · rfl
  simp only [Option.map_some, Option.bind_some]
  rw [evalOp_control h rfl]
  simp only [evalCase, Frame.fExec_within, Frame.stack_within, ifValue]
  by_cases hexec : v.all id = true
  · simp only [hexec, if_true]
    rcases g.stack with _ | ⟨vch, s⟩ <;> rfl
  · simp only [hexec]
    rfl

theorem evalStep_else {c : UInt8} (h : opCase c = some .OP_ELSE) (vch : Valtype) (rest : CScript) (b : Bool) (v : List Bool)
    (f : Frame) : evalStep E c vch rest (f.within (b :: v)) =
      (countOp c vch f).bind fun g => (sizeLimit g).map (·.within ((!b) :: v)) := by
  rw [evalStep, countOp_within]
  rcases countOp c vch f with _ | g
  · rfl
  simp only [Option.map_some, Option.bind_some]
  rw [evalOp_control h rfl]
  exact sizeLimit_within g _

theorem evalStep_endif {c : UInt8} (h : opCase c = some .OP_ENDIF) (vch : Valtype) (rest : CScript) (b : Bool)
    (v : List Bool) (f : Frame) : evalStep E c vch rest (f.within (b :: v)) =
      (countOp c vch f).bind fun g => (sizeLimit g).map (·.within v) := by
  rw [evalStep, countOp_within]
  rcases countOp c vch f with _ | g
  · rfl
  simp only [Option.map_some, Option.bind_some]
  rw [evalOp_control h rfl]
  exact sizeLimit_within g _

/-! ### The machine -/

variable (E) in
/-- The interpreter as a machine for flat code: on each token it does what the instruction does inside of one conditional
of the value that says whether the token is carried out. -/
def scriptMachine : Machine ReadOp ReadOp Frame where
  plain b i f := (evalStep E i.opcode i.vchPushValue i.rest (f.within [b])).map (·.within [])
  test b i f := (evalStep E i.opcode i.vchPushValue i.rest (f.within [b])).bind fun g =>
    match g.vfExec with
    | [] => none
    | v :: _ => some (v, g.within [])
  other f := (evalStep E 0x67 [] [] (f.within [true])).map (·.within [])
  close f := (evalStep E 0x68 [] [] (f.within [true])).map (·.within [])

/-- A turn of the loop is a step of the machine on the token of the instruction. -/
theorem evalStep_eq_step {i : ReadOp} (hdata : ¬ i.opcode ≤ OP_PUSHDATA4 → i.vchPushValue = []) (f : Frame)
    (v : List Bool) :
    evalStep E i.opcode i.vchPushValue i.rest (f.within v) =
      (step (scriptMachine E) (v, f) i.token).map fun a => a.2.within a.1 := by
  have hplain : (∀ op, opCase i.opcode = some op → op.isControl = false) →
      evalStep E i.opcode i.vchPushValue i.rest (f.within v) =
        (step (scriptMachine E) (v, f) (.plain i)).map fun a => a.2.within a.1 := by
    intro hop
    rw [step, scriptMachine, evalStep_within hop (all_singleton (v.all id)).symm, Option.map_map, Option.map_map]
    rfl
  rcases hcase : opCase i.opcode with _ | op
  · have htoken : i.token = .plain i := by rw [ReadOp.token, hcase]
    rw [htoken]
    exact hplain fun op hop => by rw [hcase] at hop; cases hop
  by_cases hcontrol : op.isControl = true
  · have hrange := control_range hcase hcontrol
    have hnil := hdata fun hc => absurd (UInt8.le_trans hrange.1 hc) (by decide)
    cases op with
    | OP_IF negated =>
      have htoken : i.token = .test i := by rw [ReadOp.token, hcase]
      rw [htoken, step, scriptMachine]
      dsimp only
      rw [evalStep_if hcase, evalStep_if hcase, all_singleton]
      rcases countOp i.opcode i.vchPushValue f with _ | g
      · rfl
      simp only [Option.bind_some]
      rcases ifValue (v.all id) negated g.stack with _ | a
      · rfl
      simp only [Option.bind_some, sizeLimit]
      split <;> rfl
    | OP_ELSE =>
      have htoken : i.token = .other := by rw [ReadOp.token, hcase]
      have hopcode := opcode_of_else hcase
      rw [htoken, hopcode, hnil]
      rw [hopcode] at hcase
      cases v with
      | nil =>
        rw [step, evalStep, countOp_within]
        rcases countOp 0x67 [] f with _ | g
        · rfl
        simp only [Option.map_some, Option.bind_some]
        rw [evalOp_control hcase rfl]
        rfl
      | cons b v =>
        rw [step, scriptMachine, evalStep_else hcase]
        dsimp only
        rw [evalStep_else hcase]
        rcases countOp 0x67 [] f with _ | g
        · rfl
        simp only [Option.bind_some]
        cases sizeLimit g <;> rfl
    | OP_ENDIF =>
      have htoken : i.token = .close := by rw [ReadOp.token, hcase]
      have hopcode := opcode_of_endif hcase
      rw [htoken, hopcode, hnil]
      rw [hopcode] at hcase
      cases v with
      | nil =>
        rw [step, evalStep, countOp_within]
        rcases countOp 0x68 [] f with _ | g
        · rfl
        simp only [Option.map_some, Option.bind_some]
        rw [evalOp_control hcase rfl]
        rfl
      | cons b v =>
        rw [step, scriptMachine, evalStep_endif hcase]
        dsimp only
        rw [evalStep_endif hcase]
        rcases countOp 0x68 [] f with _ | g
        · rfl
        simp only [Option.bind_some]
        cases sizeLimit g <;> rfl
    | _ => cases hcontrol
  · have htoken : i.token = .plain i := by
      rw [ReadOp.token, hcase]
      cases op <;> first | rfl | exact absurd rfl hcontrol
    rw [htoken]
    exact hplain fun op' hop => by
      rw [hcase] at hop
      cases hop
      exact Bool.eq_false_iff.2 hcontrol

/-! ### Whole scripts -/

theorem vfExec_step {a b : List Bool × Frame} {t : Token ReadOp ReadOp} (h : step (scriptMachine E) a t = some b) :
    b.2.vfExec = [] := by
  cases t with
  | plain i =>
    obtain ⟨s, hs, rfl⟩ := Option.map_eq_some_iff.1 h
    obtain ⟨g, -, rfl⟩ := Option.map_eq_some_iff.1 hs
    rfl
  | test i =>
    obtain ⟨⟨v, s⟩, hs, rfl⟩ := Option.map_eq_some_iff.1 h
    obtain ⟨g, -, hg⟩ := Option.bind_eq_some_iff.1 hs
    split at hg <;> cases hg
    rfl
  | other =>
    rw [step] at h
    split at h
    · cases h
    · obtain ⟨s, hs, rfl⟩ := Option.map_eq_some_iff.1 h
      obtain ⟨g, -, rfl⟩ := Option.map_eq_some_iff.1 hs
      rfl
  | close =>
    rw [step] at h
    split at h
    · cases h
    · obtain ⟨s, hs, rfl⟩ := Option.map_eq_some_iff.1 h
      obtain ⟨g, -, rfl⟩ := Option.map_eq_some_iff.1 hs
      rfl

theorem vfExec_run {ts : List (Token ReadOp ReadOp)} {v v' : List Bool} {f f' : Frame} (hf : f.vfExec = [])
    (h : run (scriptMachine E) ts (v, f) = some (v', f')) : f'.vfExec = [] := by
  induction ts generalizing v f with
  | nil =>
    cases h
    exact hf
  | cons t ts ih =>
    obtain ⟨⟨v₁, f₁⟩, hstep, h⟩ := Option.bind_eq_some_iff.1 h
    exact ih (vfExec_step hstep) h

/-- The loop of `EvalScript` is a run of the machine over the tokens of the script. -/
theorem evalLoop_eq_run {fuel : ℕ} {pc : CScript} {f f' : Frame} {v v' : List Bool} (hf : f.vfExec = [])
    (hf' : f'.vfExec = []) :
    evalLoop E fuel pc (f.within v) = some (f'.within v') ↔
      ∃ ts, tokens fuel pc = some ts ∧ run (scriptMachine E) ts (v, f) = some (v', f') := by
  have hend : ∀ fuel {f : Frame} {v : List Bool}, f.vfExec = [] →
      (evalLoop E fuel [] (f.within v) = some (f'.within v') ↔
        ∃ ts, tokens fuel [] = some ts ∧ run (scriptMachine E) ts (v, f) = some (v', f')) := by
    intro fuel f v hf
    have htokens : tokens fuel [] = some [] := by cases fuel <;> rfl
    rw [evalLoop, Option.some_inj, within_inj hf hf', htokens]
    constructor
    · rintro ⟨⟩
      exact ⟨[], rfl, rfl⟩
    · rintro ⟨ts, hts, hrun⟩
      cases hts
      exact Option.some.inj hrun
  induction fuel generalizing pc f v with
  | zero =>
    cases pc with
    | nil => exact hend 0 hf
    | cons c pc =>
      refine iff_of_false (fun h => by cases h) ?_
      rintro ⟨ts, hts, -⟩
      cases hts
  | succ fuel ih =>
    cases pc with
    | nil => exact hend (fuel + 1) hf
    | cons c pc =>
      rcases hget : getOp2 (c :: pc) with ⟨_ | ⟨opcode, vch⟩, rest⟩
      · rw [evalLoop, tokens, hget]
        refine iff_of_false (fun h => by cases h) ?_
        rintro ⟨ts, hts, -⟩
        cases hts
      · rw [evalLoop_turn hget, tokens, hget,
          evalStep_eq_step (i := ⟨opcode, vch, rest⟩) (data_of_getOp2 hget) f v]
        rcases hstep : step (scriptMachine E) (v, f) (ReadOp.token ⟨opcode, vch, rest⟩) with _ | ⟨v₁, f₁⟩
        · refine iff_of_false (fun h => by cases h) ?_
          rintro ⟨ts, hts, hrun⟩
          obtain ⟨ts, -, rfl⟩ := Option.map_eq_some_iff.1 hts
          rw [run, hstep] at hrun
          cases hrun
        · have hrest := @ih rest f₁ v₁ (vfExec_step hstep)
          rw [Option.map_some, Option.bind_some]
          refine hrest.trans ?_
          constructor
          · rintro ⟨ts, hts, hrun⟩
            exact ⟨ReadOp.token ⟨opcode, vch, rest⟩ :: ts, Option.map_eq_some_iff.2 ⟨ts, hts, rfl⟩, by
              rw [run, hstep]
              exact hrun⟩
          · rintro ⟨ts, hts, hrun⟩
            obtain ⟨ts', hts', rfl⟩ := Option.map_eq_some_iff.1 hts
            rw [run, hstep] at hrun
            exact ⟨ts', hts', hrun⟩

theorem evalOp_skipped {c : UInt8} {vch : Valtype} {rest : CScript} {f f' : Frame} (hf : f.fExec = false)
    (h : evalOp E c vch rest f = some f') : SameStacks f f' := by
  rw [evalOp, hf] at h
  simp only [Bool.false_eq_true, false_and, if_false, false_or] at h
  split at h
  · next hc =>
    split at h
    · cases h
    next op hop =>
    have hcontrol := control_of_range hc hop
    cases op with
    | OP_IF negated =>
      rw [evalCase, hf] at h
      cases h
      exact ⟨rfl, rfl, rfl, le_rfl⟩
    | OP_ELSE =>
      rw [evalCase] at h
      split at h <;> cases h
      exact ⟨rfl, rfl, rfl, le_rfl⟩
    | OP_ENDIF =>
      rw [evalCase] at h
      split at h <;> cases h
      exact ⟨rfl, rfl, rfl, le_rfl⟩
    | _ => cases hcontrol
  · cases h
    exact ⟨rfl, rfl, rfl, le_rfl⟩

theorem evalStep_skipped {i : ReadOp} {f g : Frame}
    (h : evalStep E i.opcode i.vchPushValue i.rest (f.within [false]) = some g) : SameStacks f g := by
  rw [evalStep, countOp_within] at h
  obtain ⟨g₁, hcount, h⟩ := Option.bind_eq_some_iff.1 h
  obtain ⟨g₀, hcount₀, rfl⟩ := Option.map_eq_some_iff.1 hcount
  obtain ⟨g₂, hop, hlimit⟩ := Option.bind_eq_some_iff.1 h
  rw [sizeLimit_eq_some hlimit]
  have hskip := evalOp_skipped rfl hop
  have hsame := SameStacks.countOp hcount₀
  exact ⟨hskip.1.trans hsame.1, hskip.2.1.trans hsame.2.1, hskip.2.2.1.trans hsame.2.2.1,
    hsame.2.2.2.trans hskip.2.2.2⟩

theorem quiet_scriptMachine : Quiet (scriptMachine E) SameStacks where
  refl f := ⟨rfl, rfl, rfl, le_rfl⟩
  trans h k := ⟨k.1.trans h.1, k.2.1.trans h.2.1, k.2.2.1.trans h.2.2.1, h.2.2.2.trans k.2.2.2⟩
  plain i f g h := by
    obtain ⟨g', hg', rfl⟩ := Option.map_eq_some_iff.1 h
    exact (evalStep_skipped hg' : SameStacks f g')
  test i f v g h := by
    obtain ⟨g', hg', hg⟩ := Option.bind_eq_some_iff.1 h
    split at hg <;> cases hg
    exact (evalStep_skipped hg' : SameStacks f g')
  other f g h := by
    obtain ⟨g', hg', rfl⟩ := Option.map_eq_some_iff.1 h
    rw [evalStep_else (by decide)] at hg'
    obtain ⟨g₁, hcount, hg'⟩ := Option.bind_eq_some_iff.1 hg'
    obtain ⟨g₂, hlimit, rfl⟩ := Option.map_eq_some_iff.1 hg'
    obtain rfl := sizeLimit_eq_some hlimit
    exact (SameStacks.countOp hcount : SameStacks f g₂)
  close f g h := by
    obtain ⟨g', hg', rfl⟩ := Option.map_eq_some_iff.1 h
    rw [evalStep_endif (by decide)] at hg'
    obtain ⟨g₁, hcount, hg'⟩ := Option.bind_eq_some_iff.1 hg'
    obtain ⟨g₂, hlimit, rfl⟩ := Option.map_eq_some_iff.1 hg'
    obtain rfl := sizeLimit_eq_some hlimit
    exact (SameStacks.countOp hcount : SameStacks f g₂)

/-- **`EvalScript` runs nested code**: it returns true with a stack exactly when the script is not too long and is nested
code whose meaning goes through and leaves the stack. Whatever code an arm holds, where it is not carried out both stacks
and the code that signatures commit to stay, and operations are only counted. -/
theorem evalScript_structured (E : Evaluator) (stack : List Valtype) (script : CScript) :
    (∀ s, evalScript E stack script = some s ↔ script.length ≤ 10000 ∧
      ∃ (ts : List (Token ReadOp ReadOp)) (code : Code ReadOp ReadOp) (f : Frame),
        tokens script.length script = some ts ∧ code.flatten = ts ∧
        code.exec (scriptMachine E) true (startFrame stack script) = some f ∧ f.stack = s) ∧
      ∀ (code : Code ReadOp ReadOp) (f g : Frame), code.exec (scriptMachine E) false f = some g → SameStacks f g := by
  refine ⟨fun s => ?_, fun code f g h => code.exec_false quiet_scriptMachine h⟩
  rw [evalScript]
  by_cases hlen : 10000 < script.length
  · rw [if_pos hlen]
    exact iff_of_false (fun h => by cases h) fun h => absurd h.1 (Nat.not_le.2 hlen)
  rw [if_neg hlen, and_iff_right (Nat.le_of_not_lt hlen)]
  have hrun : ∀ f' : Frame, f'.vfExec = [] → (evalLoop E script.length script (startFrame stack script) = some f' ↔
      ∃ ts, tokens script.length script = some ts ∧ ∃ code : Code ReadOp ReadOp, code.flatten = ts ∧
        code.exec (scriptMachine E) true (startFrame stack script) = some f') := by
    intro f' hf'
    have h : evalLoop E script.length script ((startFrame stack script).within []) = some (f'.within []) ↔
        ∃ ts, tokens script.length script = some ts ∧
          run (scriptMachine E) ts ([], startFrame stack script) = some ([], f') := evalLoop_eq_run rfl hf'
    have hself : f'.within [] = f' := by rw [← hf', Frame.within_self]
    rw [hself] at h
    refine h.trans ?_
    exact exists_congr fun ts => and_congr_right fun _ => run_iff
  constructor
  · intro h
    rcases hloop : evalLoop E script.length script (startFrame stack script) with _ | f' <;> rw [hloop] at h
    · cases h
    · dsimp only at h
      split at h
      · next hempty =>
        obtain ⟨ts, hts, code, hcode, hexec⟩ := (hrun f' (List.isEmpty_iff.1 hempty)).1 hloop
        exact ⟨ts, code, f', hts, hcode, hexec, Option.some.inj h⟩
      · cases h
  · rintro ⟨ts, code, f', hts, hcode, hexec, rfl⟩
    have hf' : f'.vfExec = [] := vfExec_run rfl (run_iff.2 ⟨code, hcode, hexec⟩)
    rw [(hrun f' hf').2 ⟨ts, hts, code, hcode, hexec⟩]
    dsimp only
    rw [hf']
    rfl

end PayDayCoin
