import PayDayCoin.CoinStake
import PayDayCoin.InstantX
import PayDayCoin.ScriptDelete

/-!
# The types of scripts

`Solver` reads a script beside each of five templates, whose pseudo-opcodes take public keys, hashes, small numbers and
data, and returns the type of the first template that both walks end with, and what the pseudo-opcodes took.
`IsNormalPaymentScript` looks for one of the types by itself.

**`solvesRight_iff`**: a script is given a type exactly when it is an instance of that type's template, and
`IsNormalPaymentScript` picks out the scripts of 25 bytes that pay to the hash of a key, unless the script is `OP_RETURN`
with an opcode that pushes nothing, or the instruction behind `OP_DUP OP_HASH160` is anything but a push of 20 bytes with
the rest of the script as it may be.
-/

namespace PayDayCoin

namespace CScript

def OP_SMALLDATA : UInt8 := 0xf9
def OP_SMALLINTEGER : UInt8 := 0xfa
def OP_PUBKEYS : UInt8 := 0xfb
def OP_PUBKEYHASH : UInt8 := 0xfd
def OP_PUBKEY : UInt8 := 0xfe

/-- `MAX_OP_RETURN_RELAY`. -/
def MAX_OP_RETURN_RELAY : ℕ := 40

/-- An opcode and the data that it pushes. -/
abbrev Op := UInt8 × List UInt8

/-- The templates, in the order of their types. -/
def mTemplates : List (TxnOutType × CScript) :=
  [(.TX_PUBKEY, [OP_PUBKEY, OP_CHECKSIG]),
    (.TX_PUBKEYHASH, [OP_DUP, OP_HASH160, OP_PUBKEYHASH, OP_EQUALVERIFY, OP_CHECKSIG]),
    (.TX_MULTISIG, [OP_SMALLINTEGER, OP_PUBKEYS, OP_SMALLINTEGER, OP_CHECKMULTISIG]),
    (.TX_NULL_DATA, [OP_RETURN, OP_SMALLDATA]),
    (.TX_NULL_DATA, [OP_RETURN])]

/-- The size of a public key. -/
def isKeySize (vch : List UInt8) : Bool := 33 ≤ vch.length && vch.length ≤ 120

/-- The branches of `Solver` on an opcode of the template: the solutions, or `none` for `break`. -/
def matchOp (op1 op2 : Op) (vSolutions : List (List UInt8)) : Option (List (List UInt8)) :=
  if op2.1 = OP_PUBKEY then if isKeySize op1.2 then some (vSolutions ++ [op1.2]) else none
  else if op2.1 = OP_PUBKEYHASH then if op1.2.length = 20 then some (vSolutions ++ [op1.2]) else none
  else if op2.1 = OP_SMALLINTEGER then
    if op1.1 = OP_0 ∨ (OP_1 ≤ op1.1 ∧ op1.1 ≤ OP_16) then some (vSolutions ++ [[UInt8.ofNat (decodeOP_N op1.1)]]) else none
  else if op2.1 = OP_SMALLDATA then if op1.2.length > MAX_OP_RETURN_RELAY then none else some vSolutions
  else if op1 ≠ op2 then none
  else some vSolutions

/-- The loop of `Solver` over the keys: the instruction it stops at, the position behind that, and the solutions. -/
def pubkeysLoop : ℕ → Op → CScript → List (List UInt8) → Op × CScript × List (List UInt8)
  | 0, op1, pc1, vSolutions => (op1, pc1, vSolutions)
  | fuel + 1, op1, pc1, vSolutions =>
    if isKeySize op1.2 then
      match nextOp pc1 with
      | (none, pc1) => ((OP_INVALIDOPCODE, []), pc1, vSolutions ++ [op1.2])
      | (some next, pc1) => pubkeysLoop fuel next pc1 (vSolutions ++ [op1.2])
    else (op1, pc1, vSolutions)

/-- The comparison of a script and a template. -/
def matchLoop : ℕ → CScript → CScript → List (List UInt8) → Option (List (List UInt8))
  | 0, _, _, _ => none
  | fuel + 1, pc1, pc2, vSolutions =>
    if pc1 = [] ∧ pc2 = [] then some vSolutions
    else
      match nextOp pc1 with
      | (none, _) => none
      | (some op1, pc1) =>
        match nextOp pc2 with
        | (none, _) => none
        | (some op2, pc2) =>
          if op2.1 = OP_PUBKEYS then
            match nextOp pc2, pubkeysLoop (pc1.length + 1) op1 pc1 vSolutions with
            | (none, _), _ => none
            | (some op2, pc2), (op1, pc1, vSolutions) => (matchOp op1 op2 vSolutions).bind (matchLoop fuel pc1 pc2)
          else (matchOp op1 op2 vSolutions).bind (matchLoop fuel pc1 pc2)

/-- The checks of a match with the template of `TX_MULTISIG`. -/
def multisigFits (vSolutions : List (List UInt8)) : Bool :=
  let m := (vSolutions.headD []).headD 0
  let n := (vSolutions.getLastD []).headD 0
  !(m < 1 || n < 1 || m > n || vSolutions.length - 2 != n.toNat)

/-- The scan of the templates. -/
def scanTemplates (s : CScript) : List (TxnOutType × CScript) → Bool × TxnOutType × List (List UInt8)
  | [] => (false, .TX_NONSTANDARD, [])
  | (type, tplate) :: rest =>
    match matchLoop (tplate.length + 1) s tplate [] with
    | some vSolutions =>
      if type = .TX_MULTISIG ∧ ¬ multisigFits vSolutions then (false, type, vSolutions) else (true, type, vSolutions)
    | none => scanTemplates s rest

/-- `Solver`: what it returns, the type and the solutions. -/
def solver (s : CScript) : Bool × TxnOutType × List (List UInt8) :=
  if s.isPayToScriptHash then (true, .TX_SCRIPTHASH, [(s.drop 2).take 20]) else scanTemplates s mTemplates

/-! ### Instances of the templates -/

/-- The script is these instructions and nothing more. -/
def Reads : CScript → List Op → Prop
  | pc, [] => pc = []
  | pc, op :: l => ∃ rest, nextOp pc = (some op, rest) ∧ Reads rest l

/-- The opcode of a small number. -/
def opN (n : ℕ) : UInt8 := UInt8.ofNat (n + 0x50)

/-- An instance of the template of a type, with the data that stands for its solutions. -/
inductive Instance (s : CScript) : TxnOutType → List (List UInt8) → Prop
  | pubkey (c : UInt8) (key : List UInt8) (hkey : isKeySize key) (h : Reads s [(c, key), (OP_CHECKSIG, [])]) :
    Instance s .TX_PUBKEY [key]
  | pubkeyhash (c : UInt8) (hash : List UInt8) (hhash : hash.length = 20)
    (h : Reads s [(OP_DUP, []), (OP_HASH160, []), (c, hash), (OP_EQUALVERIFY, []), (OP_CHECKSIG, [])]) :
    Instance s .TX_PUBKEYHASH [hash]
  | scripthash (hash : List UInt8) (hhash : hash.length = 20) (h : s = OP_HASH160 :: 0x14 :: (hash ++ [OP_EQUAL])) :
    Instance s .TX_SCRIPTHASH [hash]
  | multisig (m n : ℕ) (keys : List Op) (hm : 1 ≤ m ∧ m ≤ n) (hn : n ≤ 16) (hlen : keys.length = n)
    (hkeys : ∀ key ∈ keys, isKeySize key.2)
    (h : Reads s ((opN m, []) :: (keys ++ [(opN n, []), (OP_CHECKMULTISIG, [])]))) :
    Instance s .TX_MULTISIG ([UInt8.ofNat m] :: (keys.map Prod.snd ++ [[UInt8.ofNat n]]))
  | nullData (h : Reads s [(OP_RETURN, [])]) : Instance s .TX_NULL_DATA []
  | nullDataPush (c : UInt8) (data : List UInt8) (hc : c ≤ OP_16) (hdata : data.length ≤ MAX_OP_RETURN_RELAY)
    (h : Reads s [(OP_RETURN, []), (c, data)]) : Instance s .TX_NULL_DATA []

/-- The types are those of the templates, and `IsNormalPaymentScript` picks out the scripts of 25 bytes of one type. -/
def SolvesRight (s : CScript) : Prop :=
  (∀ type vSolutions, solver s = (true, type, vSolutions) ↔ Instance s type vSolutions) ∧
    (s.isNormalPaymentScript = true ↔ s.length = 25 ∧ ∃ vSolutions, solver s = (true, .TX_PUBKEYHASH, vSolutions))

/-- `OP_RETURN`, and an opcode that pushes nothing. -/
def ReturnsOpcode (s : CScript) : Prop := ∃ c, OP_16 < c ∧ s = [OP_RETURN, c]

/-- Behind `OP_DUP OP_HASH160`, an instruction that is no push of a hash is followed by what may follow the hash, or by
less. -/
def HashMissing (s : CScript) : Prop :=
  s.length = 25 ∧ ∃ pc, s = OP_DUP :: OP_HASH160 :: pc ∧
    ((nextOp pc).2 = [] ∨ (nextOp pc).2 = [OP_EQUALVERIFY] ∨
      ((nextOp pc).2 = [OP_EQUALVERIFY, OP_CHECKSIG] ∧ ∀ op, (nextOp pc).1 = some op → op.2.length ≠ 20))

/-! ### Reading -/

theorem nextOp_plain {c : UInt8} (hc : ¬ c ≤ OP_PUSHDATA4) (pc : CScript) : nextOp (c :: pc) = (some (c, []), pc) := by
  have hlen : ¬ (c :: pc : CScript).length ≤ 0 := by simp
  simp only [nextOp, getOpAt, if_neg hlen, List.getElem?_cons_zero, Option.bind_eq_bind, Option.bind_some,
    Nat.zero_add, if_neg hc, List.drop_one, List.tail_cons]

/-- The instruction that is returned has the first byte for its opcode, and data only if that is the opcode of a push. -/
theorem nextOp_opcode {pc rest : CScript} {op : Op} (h : nextOp pc = (some op, rest)) :
    (∃ tail, pc = op.1 :: tail) ∧ (¬ op.1 ≤ OP_PUSHDATA4 → op.2 = [] ∧ pc = op.1 :: rest) := by
  cases pc with
  | nil => cases h
  | cons c pc =>
    have hop : op.1 = c := by
      have hlen : ¬ (c :: pc : CScript).length ≤ 0 := by simp
      obtain ⟨r, hr, -⟩ := sizeAt_bounds (show 1 ≤ (c :: pc : CScript).length by simp) c
      simp only [nextOp, getOpAt, if_neg hlen, List.getElem?_cons_zero, Option.bind_eq_bind, Option.bind_some,
        Nat.zero_add, hr] at h
      by_cases hc : c ≤ OP_PUSHDATA4
      · rw [if_pos hc] at h
        rcases r with _ | ⟨nSize, next⟩
        · cases h
        · simp only at h
          split at h
          · next hread =>
            split at hread
            · cases hread
              cases h
            · split at hread
              · cases hread
                cases h
                rfl
              · cases hread
          · cases h
      · rw [if_neg hc] at h
        cases h
        rfl
    refine ⟨⟨pc, by rw [hop]⟩, fun hc => ?_⟩
    rw [hop] at hc ⊢
    rw [nextOp_plain hc] at h
    cases h
    exact ⟨rfl, rfl⟩

theorem Reads.unique {pc : CScript} {l l' : List Op} (h : Reads pc l) (h' : Reads pc l') : l = l' := by
  induction l generalizing pc l' with
  | nil =>
    cases l' with
    | nil => rfl
    | cons op l' =>
      obtain ⟨rest, hop, -⟩ := h'
      rw [show pc = [] from h] at hop
      cases hop
  | cons op l ih =>
    obtain ⟨rest, hop, hrest⟩ := h
    cases l' with
    | nil =>
      rw [show pc = [] from h'] at hop
      cases hop
    | cons op' l' =>
      obtain ⟨rest', hop', hrest'⟩ := h'
      rw [hop] at hop'
      cases hop'
      rw [ih hrest hrest']

/-! ### Matching -/

/-- The comparison of instructions with a template without `OP_PUBKEYS`. -/
def matchOps : List Op → CScript → List (List UInt8) → Option (List (List UInt8))
  | [], [], vSolutions => some vSolutions
  | op :: l, c :: tplate, vSolutions => (matchOp op (c, []) vSolutions).bind (matchOps l tplate)
  | _, _, _ => none

theorem matchLoop_nil (fuel : ℕ) (pc : CScript) (vSolutions : List (List UInt8)) :
    matchLoop (fuel + 1) pc [] vSolutions = if pc = [] then some vSolutions else none := by
  rw [matchLoop]
  by_cases hpc : pc = []
  · rw [if_pos ⟨hpc, rfl⟩, if_pos hpc]
  · rw [if_neg (fun h => hpc h.1), if_neg hpc]
    rcases nextOp pc with ⟨_ | op, rest⟩
    · rfl
    · rfl

theorem matchLoop_cons {c : UInt8} (hc : ¬ c ≤ OP_PUSHDATA4) (hkeys : c ≠ OP_PUBKEYS) (fuel : ℕ) (pc tplate : CScript)
    (vSolutions : List (List UInt8)) :
    matchLoop (fuel + 1) pc (c :: tplate) vSolutions =
      match nextOp pc with
      | (none, _) => none
      | (some op, rest) => (matchOp op (c, []) vSolutions).bind (matchLoop fuel rest tplate) := by
  rw [matchLoop, if_neg (fun h => List.cons_ne_nil _ _ h.2)]
  rcases nextOp pc with ⟨_ | op, rest⟩
  · rfl
  · simp only [nextOp_plain hc, if_neg hkeys]

theorem matchLoop_eq_some_iff {tplate : CScript} (ht : ∀ c ∈ tplate, ¬ c ≤ OP_PUSHDATA4 ∧ c ≠ OP_PUBKEYS) {fuel : ℕ}
    (hfuel : tplate.length < fuel) {pc : CScript} {vSolutions out : List (List UInt8)} :
    matchLoop fuel pc tplate vSolutions = some out ↔ ∃ l, Reads pc l ∧ matchOps l tplate vSolutions = some out := by
  induction tplate generalizing fuel pc vSolutions with
  | nil =>
    cases fuel with
    | zero => cases hfuel
    | succ fuel =>
      rw [matchLoop_nil]
      constructor
      · intro h
        split at h
        · next hpc => exact ⟨[], hpc, h⟩
        · cases h
      · rintro ⟨l, hl, h⟩
        cases l with
        | nil => rwa [if_pos (show pc = [] from hl)]
        | cons op l => cases h
  | cons c tplate ih =>
    cases fuel with
    | zero => cases hfuel
    | succ fuel =>
      have hc := ht c (List.mem_cons_self ..)
      have hrest : ∀ {pc : CScript} {sols : List (List UInt8)},
          matchLoop fuel pc tplate sols = some out ↔ ∃ l, Reads pc l ∧ matchOps l tplate sols = some out :=
        ih (fun d hd => ht d (List.mem_cons_of_mem _ hd)) (Nat.lt_of_succ_lt_succ hfuel)
      rw [matchLoop_cons hc.1 hc.2]
      constructor
      · intro h
        rcases hop : nextOp pc with ⟨_ | op, rest⟩
        · rw [hop] at h
          cases h
        · rw [hop] at h
          obtain ⟨sols, hsols, hloop⟩ := Option.bind_eq_some_iff.1 h
          obtain ⟨l, hl, hops⟩ := hrest.1 hloop
          refine ⟨op :: l, ⟨rest, hop, hl⟩, ?_⟩
          rw [matchOps, hsols]
          exact hops
      · rintro ⟨l, hl, h⟩
        cases l with
        | nil => cases h
        | cons op l =>
          obtain ⟨rest, hop, hl⟩ := hl
          rw [matchOps] at h
          obtain ⟨sols, hsols, hops⟩ := Option.bind_eq_some_iff.1 h
          rw [hop]
          simp only [hsols, Option.bind_some]
          exact hrest.2 ⟨l, hl, hops⟩

theorem plain_of_all {tplate : CScript} (h : (tplate.all fun c => OP_PUSHDATA4 < c && c != OP_PUBKEYS) = true) :
    ∀ c ∈ tplate, ¬ c ≤ OP_PUSHDATA4 ∧ c ≠ OP_PUBKEYS := by
  intro c hc
  have hall := List.all_eq_true.1 h c hc
  rw [Bool.and_eq_true, decide_eq_true_eq, bne_iff_ne] at hall
  exact ⟨UInt8.not_le.2 hall.1, hall.2⟩

/-- An opcode of a template that is not a pseudo-opcode stands for itself. -/
theorem matchOp_exact {c : UInt8} (hc : c < OP_SMALLDATA) {op : Op} {vSolutions out : List (List UInt8)} :
    matchOp op (c, []) vSolutions = some out ↔ op = (c, []) ∧ vSolutions = out := by
  have hne : ∀ d : UInt8, OP_SMALLDATA ≤ d → c ≠ d := fun d hd h => by
    rw [h] at hc
    exact UInt8.lt_irrefl _ (UInt8.lt_of_le_of_lt hd hc)
  rw [matchOp, if_neg (hne _ (by decide)), if_neg (hne _ (by decide)), if_neg (hne _ (by decide)),
    if_neg (hne _ (by decide))]
  by_cases h : op = (c, [])
  · rw [if_neg (not_not_intro h), Option.some.injEq]
    exact ⟨fun hout => ⟨h, hout⟩, And.right⟩
  · rw [if_pos h]
    exact ⟨fun hout => (by cases hout), fun hout => absurd hout.1 h⟩

theorem matchOp_pubkey {op : Op} {vSolutions out : List (List UInt8)} :
    matchOp op (OP_PUBKEY, []) vSolutions = some out ↔ isKeySize op.2 = true ∧ vSolutions ++ [op.2] = out := by
  rw [matchOp, if_pos rfl]
  split
  · next h => simp [h]
  · next h => simp [h]

theorem matchOp_pubkeyhash {op : Op} {vSolutions out : List (List UInt8)} :
    matchOp op (OP_PUBKEYHASH, []) vSolutions = some out ↔ op.2.length = 20 ∧ vSolutions ++ [op.2] = out := by
  rw [matchOp, if_neg (by decide), if_pos rfl]
  split
  · next h => simp [h]
  · next h => simp [h]

theorem matchOp_smalldata {op : Op} {vSolutions out : List (List UInt8)} :
    matchOp op (OP_SMALLDATA, []) vSolutions = some out ↔ op.2.length ≤ MAX_OP_RETURN_RELAY ∧ vSolutions = out := by
  rw [matchOp, if_neg (by decide), if_neg (by decide), if_neg (by decide), if_pos rfl]
  split
  · next h => simp [Nat.not_le.2 h]
  · next h => simp [Nat.not_lt.1 h]

theorem matchOp_smallinteger {op : Op} {vSolutions out : List (List UInt8)} :
    matchOp op (OP_SMALLINTEGER, []) vSolutions = some out ↔
      (op.1 = OP_0 ∨ (OP_1 ≤ op.1 ∧ op.1 ≤ OP_16)) ∧ vSolutions ++ [[UInt8.ofNat (decodeOP_N op.1)]] = out := by
  rw [matchOp, if_neg (by decide), if_neg (by decide), if_pos rfl]
  split
  · next h => simp [h]
  · next h => simp [h]

theorem match_pubkey {s : CScript} {out : List (List UInt8)} :
    matchLoop 3 s [OP_PUBKEY, OP_CHECKSIG] [] = some out ↔
      ∃ c key, isKeySize key = true ∧ Reads s [(c, key), (OP_CHECKSIG, [])] ∧ out = [key] := by
  rw [matchLoop_eq_some_iff (plain_of_all (by decide)) (by decide)]
  constructor
  · rintro ⟨l, hl, h⟩
    rcases l with _ | ⟨⟨c, key⟩, _ | ⟨op, _ | ⟨op', l⟩⟩⟩ <;> simp only [matchOps, Option.bind_eq_some_iff] at h
    · cases h
    · obtain ⟨_, _, h⟩ := h
      cases h
    · obtain ⟨sols, hkey, sols', hsig, h⟩ := h
      rw [matchOp_pubkey] at hkey
      rw [matchOp_exact (by decide)] at hsig
      obtain ⟨rfl, rfl⟩ := hsig
      cases h
      exact ⟨c, key, hkey.1, hl, hkey.2.symm⟩
    · obtain ⟨_, _, _, _, h⟩ := h
      cases h
  · rintro ⟨c, key, hkey, hl, rfl⟩
    refine ⟨_, hl, ?_⟩
    simp only [matchOps, Option.bind_eq_some_iff]
    exact ⟨[key], matchOp_pubkey.2 ⟨hkey, rfl⟩, [key], (matchOp_exact (by decide)).2 ⟨rfl, rfl⟩, rfl⟩

theorem match_pubkeyhash {s : CScript} {out : List (List UInt8)} :
    matchLoop 6 s [OP_DUP, OP_HASH160, OP_PUBKEYHASH, OP_EQUALVERIFY, OP_CHECKSIG] [] = some out ↔
      ∃ c hash, hash.length = 20 ∧
        Reads s [(OP_DUP, []), (OP_HASH160, []), (c, hash), (OP_EQUALVERIFY, []), (OP_CHECKSIG, [])] ∧ out = [hash] := by
  rw [matchLoop_eq_some_iff (plain_of_all (by decide)) (by decide)]
  constructor
  · rintro ⟨l, hl, h⟩
    rcases l with _ | ⟨o₁, _ | ⟨o₂, _ | ⟨⟨c, hash⟩, _ | ⟨o₄, _ | ⟨o₅, _ | ⟨o₆, l⟩⟩⟩⟩⟩⟩ <;>
      simp only [matchOps, Option.bind_eq_some_iff, reduceCtorEq, and_false, exists_false, Option.some.injEq] at h
    obtain ⟨s₁, h₁, s₂, h₂, s₃, h₃, s₄, h₄, s₅, h₅, rfl⟩ := h
    rw [matchOp_exact (by decide)] at h₁ h₂ h₄ h₅
    rw [matchOp_pubkeyhash] at h₃
    obtain ⟨rfl, rfl⟩ := h₁
    obtain ⟨rfl, rfl⟩ := h₂
    obtain ⟨rfl, rfl⟩ := h₄
    obtain ⟨rfl, rfl⟩ := h₅
    exact ⟨c, hash, h₃.1, hl, h₃.2.symm⟩
  · rintro ⟨c, hash, hhash, hl, rfl⟩
    refine ⟨_, hl, ?_⟩
    simp only [matchOps, Option.bind_eq_some_iff]
    exact ⟨_, (matchOp_exact (by decide)).2 ⟨rfl, rfl⟩, _, (matchOp_exact (by decide)).2 ⟨rfl, rfl⟩, [hash],
      matchOp_pubkeyhash.2 ⟨hhash, rfl⟩, _, (matchOp_exact (by decide)).2 ⟨rfl, rfl⟩, _,
      (matchOp_exact (by decide)).2 ⟨rfl, rfl⟩, rfl⟩

theorem match_nullData {s : CScript} {out : List (List UInt8)} :
    matchLoop 2 s [OP_RETURN] [] = some out ↔ Reads s [(OP_RETURN, [])] ∧ out = [] := by
  rw [matchLoop_eq_some_iff (plain_of_all (by decide)) (by decide)]
  constructor
  · rintro ⟨l, hl, h⟩
    rcases l with _ | ⟨o₁, _ | ⟨o₂, l⟩⟩ <;>
      simp only [matchOps, Option.bind_eq_some_iff, reduceCtorEq, and_false, exists_false, Option.some.injEq] at h
    obtain ⟨s₁, h₁, rfl⟩ := h
    rw [matchOp_exact (by decide)] at h₁
    obtain ⟨rfl, rfl⟩ := h₁
    exact ⟨hl, rfl⟩
  · rintro ⟨hl, rfl⟩
    refine ⟨_, hl, ?_⟩
    simp only [matchOps, Option.bind_eq_some_iff]
    exact ⟨_, (matchOp_exact (by decide)).2 ⟨rfl, rfl⟩, rfl⟩

theorem match_nullDataPush {s : CScript} {out : List (List UInt8)} :
    matchLoop 3 s [OP_RETURN, OP_SMALLDATA] [] = some out ↔
      ∃ c data, data.length ≤ MAX_OP_RETURN_RELAY ∧ Reads s [(OP_RETURN, []), (c, data)] ∧ out = [] := by
  rw [matchLoop_eq_some_iff (plain_of_all (by decide)) (by decide)]
  constructor
  · rintro ⟨l, hl, h⟩
    rcases l with _ | ⟨o₁, _ | ⟨⟨c, data⟩, _ | ⟨o₃, l⟩⟩⟩ <;>
      simp only [matchOps, Option.bind_eq_some_iff, reduceCtorEq, and_false, exists_false, Option.some.injEq] at h
    obtain ⟨s₁, h₁, s₂, h₂, rfl⟩ := h
    rw [matchOp_exact (by decide)] at h₁
    rw [matchOp_smalldata] at h₂
    obtain ⟨rfl, rfl⟩ := h₁
    exact ⟨c, data, h₂.1, hl, h₂.2.symm⟩
  · rintro ⟨c, data, hdata, hl, rfl⟩
    refine ⟨_, hl, ?_⟩
    simp only [matchOps, Option.bind_eq_some_iff]
    exact ⟨_, (matchOp_exact (by decide)).2 ⟨rfl, rfl⟩, [], matchOp_smalldata.2 ⟨hdata, rfl⟩, rfl⟩

/-! ### The keys of a multisig script -/

/-- The opcode of a small number. -/
def IsSmallOp (op : Op) : Prop := op.1 = OP_0 ∨ (OP_1 ≤ op.1 ∧ op.1 ≤ OP_16)

theorem data_of_isSmallOp {pc rest : CScript} {op : Op} (h : nextOp pc = (some op, rest)) (hop : IsSmallOp op) :
    op.2 = [] := by
  rcases hop with hzero | ⟨hone, -⟩
  · obtain ⟨⟨tail, rfl⟩, -⟩ := nextOp_opcode h
    rw [hzero] at h
    have hlen : ¬ (OP_0 :: tail : CScript).length ≤ 0 := by simp
    have hsize : sizeAt (OP_0 :: tail) 1 OP_0 = some (some (0, 1)) := if_pos (by decide)
    simp only [nextOp, getOpAt, if_neg hlen, List.getElem?_cons_zero, Option.bind_eq_bind, Option.bind_some,
      Nat.zero_add, if_pos (show OP_0 ≤ OP_PUSHDATA4 by decide), hsize] at h
    rw [if_neg (by simp), if_pos (by simp)] at h
    cases h
    rfl
  · refine ((nextOp_opcode h).2 fun hle => ?_).1
    exact absurd (UInt8.le_trans hone hle) (by decide)

theorem not_isKeySize_nil : ¬ isKeySize ([] : List UInt8) = true := by decide

/-- The loop over the keys and the rest of the template match instructions that are keys up to a small number. -/
theorem pubkeysLoop_spec {tplate : CScript} (ht : ∀ c ∈ tplate, ¬ c ≤ OP_PUSHDATA4 ∧ c ≠ OP_PUBKEYS) {k : ℕ}
    (hk : tplate.length < k) {out : List (List UInt8)} {fuel : ℕ} {op : Op} {pc : CScript} {vSolutions : List (List UInt8)}
    (hop : IsSmallOp op → op.2 = []) (hfuel : pc.length < fuel) :
    (matchOp (pubkeysLoop fuel op pc vSolutions).1 (OP_SMALLINTEGER, []) (pubkeysLoop fuel op pc vSolutions).2.2).bind
        (matchLoop k (pubkeysLoop fuel op pc vSolutions).2.1 tplate) = some out ↔
      ∃ l keys rest, Reads pc l ∧ op :: l = keys ++ rest ∧ (∀ key ∈ keys, isKeySize key.2 = true) ∧
        matchOps rest (OP_SMALLINTEGER :: tplate) (vSolutions ++ keys.map Prod.snd) = some out := by
  have hnotsmall : ∀ {op : Op} {l : List Op} {sols}, (IsSmallOp op → op.2 = []) → isKeySize op.2 = true →
      ¬ matchOps (op :: l) (OP_SMALLINTEGER :: tplate) sols = some out := by
    intro op l sols hop hkey h
    rw [matchOps] at h
    obtain ⟨_, h, -⟩ := Option.bind_eq_some_iff.1 h
    rw [hop (matchOp_smallinteger.1 h).1] at hkey
    exact not_isKeySize_nil hkey
  induction fuel generalizing op pc vSolutions with
  | zero => cases hfuel
  | succ fuel ih =>
    by_cases hkey : isKeySize op.2 = true
    · rcases hnext : nextOp pc with ⟨_ | op', pc'⟩
      · simp only [pubkeysLoop, if_pos hkey, hnext]
        refine iff_of_false (fun h => ?_) ?_
        · obtain ⟨_, h, -⟩ := Option.bind_eq_some_iff.1 h
          exact absurd (matchOp_smallinteger.1 h).1 (by decide)
        · rintro ⟨l, keys, rest, hl, heq, -, hmatch⟩
          cases l with
          | nil =>
            cases keys with
            | nil =>
              rw [List.nil_append] at heq
              rw [← heq] at hmatch
              exact hnotsmall hop hkey hmatch
            | cons key keys =>
              rw [List.cons_append, List.cons.injEq] at heq
              rw [(List.append_eq_nil_iff.1 heq.2.symm).2] at hmatch
              cases hmatch
          | cons op'' l =>
            obtain ⟨rest', hread, -⟩ := hl
            rw [hnext] at hread
            cases hread
      · have hlen : pc'.length < fuel := by
          obtain ⟨c, hc, rfl⟩ := nextOp_shorter hnext
          have hpos := List.length_pos_iff.2 hc
          rw [List.length_append] at hfuel
          omega
        simp only [pubkeysLoop, if_pos hkey, hnext]
        refine (@ih op' pc' (vSolutions ++ [op.2]) (data_of_isSmallOp hnext) hlen).trans ?_
        constructor
        · rintro ⟨l, keys, rest, hl, heq, hkeys, hmatch⟩
          refine ⟨op' :: l, op :: keys, rest, ⟨pc', hnext, hl⟩, by rw [heq, List.cons_append], ?_, ?_⟩
          · exact fun key hmem => (List.mem_cons.1 hmem).elim (fun h => h ▸ hkey) (hkeys key)
          · rwa [List.map_cons, List.append_cons]
        · rintro ⟨l, keys, rest, hl, heq, hkeys, hmatch⟩
          cases keys with
          | nil =>
            rw [List.nil_append] at heq
            rw [← heq] at hmatch
            exact absurd hmatch (hnotsmall hop hkey)
          | cons key keys =>
            rw [List.cons_append, List.cons.injEq] at heq
            obtain ⟨rfl, rfl⟩ := heq
            rw [List.map_cons, List.append_cons] at hmatch
            rcases hkr : keys ++ rest with _ | ⟨op'', l⟩
            · rw [(List.append_eq_nil_iff.1 hkr).2] at hmatch
              cases hmatch
            · rw [hkr] at hl
              obtain ⟨pc'', hread, hl⟩ := hl
              rw [hnext] at hread
              cases hread
              exact ⟨l, keys, rest, hl, hkr.symm, fun k hmem => hkeys k (List.mem_cons_of_mem _ hmem), hmatch⟩
    · simp only [pubkeysLoop, if_neg hkey]
      constructor
      · intro h
        obtain ⟨sols, hsols, hloop⟩ := Option.bind_eq_some_iff.1 h
        obtain ⟨l, hl, hops⟩ := (matchLoop_eq_some_iff ht hk).1 hloop
        refine ⟨l, [], op :: l, hl, rfl, (fun key hmem => by cases hmem), ?_⟩
        rw [List.map_nil, List.append_nil, matchOps, hsols]
        exact hops
      · rintro ⟨l, keys, rest, hl, heq, hkeys, hmatch⟩
        cases keys with
        | nil =>
          rw [List.nil_append] at heq
          rw [← heq, List.map_nil, List.append_nil, matchOps] at hmatch
          obtain ⟨sols, hsols, hops⟩ := Option.bind_eq_some_iff.1 hmatch
          rw [hsols]
          exact (matchLoop_eq_some_iff ht hk).2 ⟨l, hl, hops⟩
        | cons key keys =>
          rw [List.cons_append, List.cons.injEq] at heq
          exact absurd (heq.1 ▸ hkeys key (List.mem_cons_self ..)) hkey

theorem match_multisig {s : CScript} {out : List (List UInt8)} :
    matchLoop 5 s [OP_SMALLINTEGER, OP_PUBKEYS, OP_SMALLINTEGER, OP_CHECKMULTISIG] [] = some out ↔
      ∃ a keys b, IsSmallOp a ∧ IsSmallOp b ∧ (∀ key ∈ keys, isKeySize key.2 = true) ∧
        Reads s (a :: (keys ++ [b, (OP_CHECKMULTISIG, [])])) ∧
        out = [UInt8.ofNat (decodeOP_N a.1)] :: (keys.map Prod.snd ++ [[UInt8.ofNat (decodeOP_N b.1)]]) := by
  have hrest : ∀ (rest : CScript) (sols : List (List UInt8)),
      matchLoop 4 rest [OP_PUBKEYS, OP_SMALLINTEGER, OP_CHECKMULTISIG] sols = some out ↔
        ∃ keys b, IsSmallOp b ∧ (∀ key ∈ keys, isKeySize key.2 = true) ∧ Reads rest (keys ++ [b, (OP_CHECKMULTISIG, [])]) ∧
          out = sols ++ keys.map Prod.snd ++ [[UInt8.ofNat (decodeOP_N b.1)]] := by
    intro rest sols
    rw [matchLoop, if_neg (fun h => List.cons_ne_nil _ _ h.2)]
    rcases hop : nextOp rest with ⟨_ | op, pc⟩
    · refine iff_of_false (by simp) ?_
      rintro ⟨keys, b, -, -, hl, -⟩
      cases keys <;> obtain ⟨_, hread, -⟩ := hl <;> rw [hop] at hread <;> cases hread
    · simp only [nextOp_plain (c := OP_PUBKEYS) (by decide), nextOp_plain (c := OP_SMALLINTEGER) (by decide), if_true]
      rw [pubkeysLoop_spec (plain_of_all (by decide)) (by decide) (data_of_isSmallOp hop) (Nat.lt_succ_self _)]
      constructor
      · rintro ⟨l, keys, last, hl, heq, hkeys, hmatch⟩
        rcases last with _ | ⟨b, _ | ⟨o₂, _ | ⟨o₃, last⟩⟩⟩ <;>
          simp only [matchOps, Option.bind_eq_some_iff, reduceCtorEq, and_false, exists_false, Option.some.injEq] at hmatch
        obtain ⟨s₁, h₁, s₂, h₂, rfl⟩ := hmatch
        rw [matchOp_smallinteger] at h₁
        rw [matchOp_exact (by decide)] at h₂
        obtain ⟨rfl, rfl⟩ := h₂
        exact ⟨keys, b, h₁.1, hkeys, heq ▸ ⟨pc, hop, hl⟩, h₁.2.symm⟩
      · rintro ⟨keys, b, hb, hkeys, hl, rfl⟩
        rcases hlist : keys ++ [b, (OP_CHECKMULTISIG, [])] with _ | ⟨op', l⟩
        · simp at hlist
        · rw [hlist] at hl
          obtain ⟨pc', hread, hl⟩ := hl
          rw [hop] at hread
          cases hread
          refine ⟨l, keys, [b, (OP_CHECKMULTISIG, [])], hl, hlist.symm, hkeys, ?_⟩
          simp only [matchOps, Option.bind_eq_some_iff]
          exact ⟨_, matchOp_smallinteger.2 ⟨hb, rfl⟩, _, (matchOp_exact (by decide)).2 ⟨rfl, rfl⟩, rfl⟩
  rw [matchLoop_cons (by decide) (by decide)]
  constructor
  · intro h
    rcases hop : nextOp s with ⟨_ | a, rest⟩
    · rw [hop] at h
      cases h
    · rw [hop] at h
      obtain ⟨sols, hsols, hloop⟩ := Option.bind_eq_some_iff.1 h
      rw [matchOp_smallinteger] at hsols
      obtain ⟨keys, b, hb, hkeys, hl, rfl⟩ := (hrest rest sols).1 hloop
      refine ⟨a, keys, b, hsols.1, hb, hkeys, ⟨rest, hop, hl⟩, ?_⟩
      rw [← hsols.2]
      rfl
  · rintro ⟨a, keys, b, ha, hb, hkeys, ⟨rest, hop, hl⟩, rfl⟩
    rw [hop]
    refine Option.bind_eq_some_iff.2 ⟨_, matchOp_smallinteger.2 ⟨ha, rfl⟩, ?_⟩
    exact (hrest rest _).2 ⟨keys, b, hb, hkeys, hl, rfl⟩

/-! ### The type of a script -/

theorem toNat_opN {n : ℕ} (hn : n ≤ 16) : (opN n).toNat = n + 80 := by
  rw [opN, UInt8.toNat_ofNat', Nat.mod_eq_of_lt (by omega)]

theorem isSmallOp_opN {n : ℕ} (hn : 1 ≤ n ∧ n ≤ 16) : IsSmallOp (opN n, []) := by
  refine .inr ⟨?_, ?_⟩ <;> rw [UInt8.le_iff_toNat_le, toNat_opN hn.2]
  · exact Nat.add_le_add_right hn.1 80
  · exact Nat.add_le_add_right hn.2 80

theorem decodeOP_N_opN {n : ℕ} (hn : 1 ≤ n ∧ n ≤ 16) : decodeOP_N (opN n) = n := by
  have hzero : opN n ≠ OP_0 := fun h => by
    have hnat := congrArg UInt8.toNat h
    rw [toNat_opN hn.2] at hnat
    cases hnat
  rw [decodeOP_N, if_neg hzero, toNat_opN hn.2, Nat.add_sub_cancel]

/-- A small number that is not zero has an opcode of its own. -/
theorem eq_opN_of_isSmallOp {op : Op} (h : IsSmallOp op) (hne : decodeOP_N op.1 ≠ 0) :
    1 ≤ decodeOP_N op.1 ∧ decodeOP_N op.1 ≤ 16 ∧ op.1 = opN (decodeOP_N op.1) := by
  rcases h with h | ⟨hone, hsixteen⟩
  · exact absurd (by rw [h]; rfl) hne
  · rw [UInt8.le_iff_toNat_le, show OP_1.toNat = 81 from rfl] at hone
    rw [UInt8.le_iff_toNat_le, show OP_16.toNat = 96 from rfl] at hsixteen
    have hzero : op.1 ≠ OP_0 := fun h => by
      rw [h] at hone
      cases hone
    have hdecode : decodeOP_N op.1 = op.1.toNat - 80 := by rw [decodeOP_N, if_neg hzero]
    refine ⟨by omega, by omega, UInt8.toNat_inj.1 ?_⟩
    rw [toNat_opN (by omega)]
    omega

theorem multisigFits_iff {m n : ℕ} (hm : m ≤ 16) (hn : n ≤ 16) (keys : List (List UInt8)) :
    multisigFits ([UInt8.ofNat m] :: (keys ++ [[UInt8.ofNat n]])) = true ↔ 1 ≤ m ∧ m ≤ n ∧ keys.length = n := by
  have hlast : ([UInt8.ofNat m] :: (keys ++ [[UInt8.ofNat n]])).getLastD [] = [UInt8.ofNat n] := by
    rw [← List.cons_append, List.getLastD_eq_getLast?, List.getLast?_concat]
    rfl
  have hmn : (UInt8.ofNat m).toNat = m ∧ (UInt8.ofNat n).toNat = n := by
    constructor <;> rw [UInt8.toNat_ofNat', Nat.mod_eq_of_lt (by omega)]
  simp only [multisigFits, hlast, List.headD_cons, List.length_cons, List.length_append, List.length_nil,
    Bool.not_eq_true', Bool.or_eq_false_iff, decide_eq_false_iff_not, bne_eq_false_iff_eq, gt_iff_lt,
    UInt8.lt_iff_toNat_lt, hmn]
  have hone : (1 : UInt8).toNat = 1 := rfl
  rw [hone]
  omega

theorem decodeOP_N_le {op : Op} (h : IsSmallOp op) : decodeOP_N op.1 ≤ 16 := by
  by_cases hne : decodeOP_N op.1 = 0
  · rw [hne]
    exact Nat.zero_le _
  · exact (eq_opN_of_isSmallOp h hne).2.1

/-- The scripts of the form that `IsPayToScriptHash` tests. -/
theorem isPayToScriptHash_iff (s : CScript) :
    s.isPayToScriptHash = true ↔ ∃ hash, hash.length = 20 ∧ s = OP_HASH160 :: 0x14 :: (hash ++ [OP_EQUAL]) := by
  simp only [isPayToScriptHash, Bool.and_eq_true, beq_iff_eq]
  constructor
  · rintro ⟨⟨⟨hlen, h₀⟩, h₁⟩, h₂⟩
    rcases s with _ | ⟨c₀, _ | ⟨c₁, t⟩⟩
    · cases h₀
    · cases h₁
    · rw [List.getElem?_cons_zero, Option.some.injEq] at h₀
      rw [List.getElem?_cons_succ, List.getElem?_cons_zero, Option.some.injEq] at h₁
      rw [List.getElem?_cons_succ, List.getElem?_cons_succ] at h₂
      rw [List.length_cons, List.length_cons] at hlen
      subst h₀ h₁
      rcases List.eq_nil_or_concat t with rfl | ⟨hash, c, rfl⟩
      · cases h₂
      · rw [List.concat_eq_append] at hlen h₂ ⊢
        rw [List.length_append, List.length_singleton] at hlen
        have hhash : hash.length = 20 := by omega
        rw [← hhash, List.getElem?_append_right le_rfl, Nat.sub_self, List.getElem?_cons_zero, Option.some.injEq] at h₂
        exact ⟨hash, hhash, by rw [h₂]⟩
  · rintro ⟨hash, hhash, rfl⟩
    refine ⟨⟨⟨by simp [hhash], rfl⟩, rfl⟩, ?_⟩
    rw [List.getElem?_cons_succ, List.getElem?_cons_succ, ← hhash, List.getElem?_append_right le_rfl, Nat.sub_self]
    rfl

/-- What the templates take for data is `Instance`, and `OP_RETURN` with an opcode that pushes nothing. -/
theorem instance_of_solver {s : CScript} {type : TxnOutType} {vSolutions : List (List UInt8)}
    (h : solver s = (true, type, vSolutions)) :
    Instance s type vSolutions ∨ (ReturnsOpcode s ∧ type = .TX_NULL_DATA ∧ vSolutions = []) := by
  rw [solver] at h
  split at h
  · next hp2sh =>
    obtain ⟨hash, hhash, hs⟩ := (isPayToScriptHash_iff s).1 hp2sh
    have hdrop : (s.drop 2).take 20 = hash := by
      rw [hs, List.drop_succ_cons, List.drop_succ_cons, List.drop_zero, ← hhash, List.take_left]
    cases h
    rw [hdrop]
    exact .inl (.scripthash hash hhash hs)
  simp only [mTemplates, scanTemplates, List.length_cons, List.length_nil, Nat.zero_add, Nat.reduceAdd] at h
  split at h
  · next out hmatch =>
    obtain ⟨c, key, hkey, hl, rfl⟩ := match_pubkey.1 hmatch
    rw [if_neg (by simp)] at h
    cases h
    exact .inl (.pubkey c key hkey hl)
  split at h
  · next out hmatch =>
    obtain ⟨c, hash, hhash, hl, rfl⟩ := match_pubkeyhash.1 hmatch
    rw [if_neg (by simp)] at h
    cases h
    exact .inl (.pubkeyhash c hash hhash hl)
  split at h
  · next out hmatch =>
    obtain ⟨a, keys, b, ha, hb, hkeys, hl, rfl⟩ := match_multisig.1 hmatch
    split at h
    · cases h
    · next hfits =>
      cases h
      rw [not_and, not_not] at hfits
      have hfits := (multisigFits_iff (decodeOP_N_le ha) (decodeOP_N_le hb) _).1 (hfits trivial)
      obtain ⟨-, hm, hopa⟩ := eq_opN_of_isSmallOp ha (by omega)
      obtain ⟨-, hn, hopb⟩ := eq_opN_of_isSmallOp hb (by omega)
      have hdata : a = (opN (decodeOP_N a.1), []) ∧ b = (opN (decodeOP_N b.1), []) := by
        have hreads : ∀ {pc : CScript} {l : List Op} {op : Op}, Reads pc l → op ∈ l → IsSmallOp op → op.2 = [] := by
          intro pc l op hl hmem hsmall
          induction l generalizing pc with
          | nil => cases hmem
          | cons op' l ih =>
            obtain ⟨rest, hread, hl⟩ := hl
            rcases List.mem_cons.1 hmem with rfl | hmem
            · exact data_of_isSmallOp hread hsmall
            · exact ih hl hmem
        exact ⟨Prod.ext hopa (hreads hl (by simp) ha), Prod.ext hopb (hreads hl (by simp) hb)⟩
      rw [List.length_map] at hfits
      rw [hdata.1, hdata.2] at hl
      exact .inl (.multisig _ _ keys ⟨hfits.1, hfits.2.1⟩ hn hfits.2.2 hkeys hl)
  split at h
  · next out hmatch =>
    obtain ⟨c, data, hdata, hl, rfl⟩ := match_nullDataPush.1 hmatch
    rw [if_neg (by simp)] at h
    cases h
    by_cases hc : c ≤ OP_16
    · exact .inl (.nullDataPush c data hc hdata hl)
    · obtain ⟨rest, hread, rest', hread', hend⟩ := hl
      have hret := ((nextOp_opcode hread).2 (by decide)).2
      have hlarge : ¬ c ≤ OP_PUSHDATA4 := fun h => hc (UInt8.le_trans h (by decide))
      have hop := ((nextOp_opcode hread').2 hlarge).2
      rw [show rest' = [] from hend] at hop
      exact .inr ⟨⟨c, UInt8.not_le.1 hc, by rw [hret, hop]⟩, rfl, rfl⟩
  split at h
  · next out hmatch =>
    obtain ⟨hl, rfl⟩ := match_nullData.1 hmatch
    rw [if_neg (by simp)] at h
    cases h
    exact .inl (.nullData hl)
  · cases h

/-- The type that the first instruction tells. -/
def typeOf (op : Op) : TxnOutType :=
  if isKeySize op.2 then .TX_PUBKEY
  else if op.1 = OP_DUP then .TX_PUBKEYHASH
  else if op.1 = OP_HASH160 then .TX_SCRIPTHASH
  else if op.1 = OP_RETURN then .TX_NULL_DATA
  else .TX_MULTISIG

theorem Instance.typeOf_first {s : CScript} {type : TxnOutType} {vSolutions : List (List UInt8)}
    (h : Instance s type vSolutions) : ∃ op rest, nextOp s = (some op, rest) ∧ typeOf op = type := by
  cases h with
  | pubkey c key hkey h =>
    obtain ⟨rest, hop, -⟩ := h
    exact ⟨_, rest, hop, if_pos hkey⟩
  | pubkeyhash c hash hhash h =>
    obtain ⟨rest, hop, -⟩ := h
    exact ⟨_, rest, hop, rfl⟩
  | scripthash hash hhash h => exact ⟨(OP_HASH160, []), _, h ▸ nextOp_plain (by decide) _, rfl⟩
  | multisig m n keys hm hn hlen hkeys h =>
    obtain ⟨rest, hop, -⟩ := h
    refine ⟨_, rest, hop, ?_⟩
    have hne : ∀ c : UInt8, 96 < c.toNat → opN m ≠ c := fun c hc h => by
      rw [← h, toNat_opN (by omega)] at hc
      omega
    rw [typeOf, if_neg not_isKeySize_nil, if_neg (hne _ (by decide)), if_neg (hne _ (by decide)),
      if_neg (hne _ (by decide))]
  | nullData h =>
    obtain ⟨rest, hop, -⟩ := h
    exact ⟨_, rest, hop, rfl⟩
  | nullDataPush c data hc hdata h =>
    obtain ⟨rest, hop, -⟩ := h
    exact ⟨_, rest, hop, rfl⟩

/-- A script is an instance of one type, with one list of solutions. -/
theorem Instance.unique {s : CScript} {type type' : TxnOutType} {vSolutions vSolutions' : List (List UInt8)}
    (h : Instance s type vSolutions) (h' : Instance s type' vSolutions') : type = type' ∧ vSolutions = vSolutions' := by
  have htype : type = type' := by
    obtain ⟨op, rest, hop, rfl⟩ := h.typeOf_first
    obtain ⟨op', rest', hop', rfl⟩ := h'.typeOf_first
    rw [hop] at hop'
    cases hop'
    rfl
  subst htype
  refine ⟨rfl, ?_⟩
  cases h with
  | pubkey c key hkey h =>
    cases h' with
    | pubkey c' key' hkey' h' =>
      cases h.unique h'
      rfl
  | pubkeyhash c hash hhash h =>
    cases h' with
    | pubkeyhash c' hash' hhash' h' =>
      cases h.unique h'
      rfl
  | scripthash hash hhash h =>
    cases h' with
    | scripthash hash' hhash' h' =>
      rw [h] at h'
      rw [List.append_cancel_right (List.cons.inj (List.cons.inj h').2).2]
  | multisig m n keys hm hn hlen hkeys h =>
    cases h' with
    | multisig m' n' keys' hm' hn' hlen' hkeys' h' =>
      have hlist := h.unique h'
      rw [List.cons.injEq, Prod.mk.injEq] at hlist
      obtain ⟨⟨hm₁, -⟩, hlist⟩ := hlist
      have hkeysLen : keys.length = keys'.length := by
        have := congrArg List.length hlist
        simpa using this
      obtain ⟨rfl, -⟩ := List.append_inj hlist hkeysLen
      have hmm : m = m' := by
        rw [← decodeOP_N_opN (n := m) ⟨hm.1, by omega⟩, hm₁, decodeOP_N_opN ⟨hm'.1, by omega⟩]
      rw [hmm, ← hlen, hlen']
  | nullData h => cases h' <;> rfl
  | nullDataPush c data hc hdata h => cases h' <;> rfl

/-- An instance of a template is given some type. -/
theorem solver_of_instance {s : CScript} {type : TxnOutType} {vSolutions : List (List UInt8)}
    (h : Instance s type vSolutions ∨ ReturnsOpcode s) : ∃ type vSolutions, solver s = (true, type, vSolutions) := by
  rw [solver]
  split
  · exact ⟨_, _, rfl⟩
  next hp2sh =>
  simp only [mTemplates, scanTemplates, List.length_cons, List.length_nil, Nat.zero_add, Nat.reduceAdd]
  split
  · rw [if_neg (by simp)]
    exact ⟨_, _, rfl⟩
  next hpubkey =>
  split
  · rw [if_neg (by simp)]
    exact ⟨_, _, rfl⟩
  next hpubkeyhash =>
  have hnull : ∀ {l : List Op}, Reads s ((OP_RETURN, []) :: l) →
      matchLoop 5 s [OP_SMALLINTEGER, OP_PUBKEYS, OP_SMALLINTEGER, OP_CHECKMULTISIG] [] = none := by
    rintro l ⟨rest, hop, -⟩
    refine Option.eq_none_iff_forall_ne_some.2 fun out hmatch => ?_
    obtain ⟨a, keys, b, ha, -, -, ⟨rest', hread, -⟩, -⟩ := match_multisig.1 hmatch
    rw [hop] at hread
    cases hread
    exact absurd ha (by rw [IsSmallOp]; decide)
  have hpush : ∀ {c : UInt8} {data : List UInt8}, data.length ≤ MAX_OP_RETURN_RELAY →
      Reads s [(OP_RETURN, []), (c, data)] → matchLoop 3 s [OP_RETURN, OP_SMALLDATA] [] = some [] :=
    fun hdata hl => match_nullDataPush.2 ⟨_, _, hdata, hl, rfl⟩
  rcases h with h | ⟨c, hc, hs⟩
  · cases h with
    | pubkey c key hkey h => cases hpubkey.symm.trans (match_pubkey.2 ⟨c, key, hkey, h, rfl⟩)
    | pubkeyhash c hash hhash h => cases hpubkeyhash.symm.trans (match_pubkeyhash.2 ⟨c, hash, hhash, h, rfl⟩)
    | scripthash hash hhash h => exact absurd ((isPayToScriptHash_iff s).2 ⟨hash, hhash, h⟩) hp2sh
    | multisig m n keys hm hn hlen hkeys h =>
      have hsmall : IsSmallOp (opN m, []) ∧ IsSmallOp (opN n, []) :=
        ⟨isSmallOp_opN ⟨hm.1, by omega⟩, isSmallOp_opN ⟨by omega, hn⟩⟩
      have hmatch := match_multisig.2 ⟨_, keys, _, hsmall.1, hsmall.2, hkeys, h, rfl⟩
      simp only [decodeOP_N_opN (n := m) ⟨hm.1, by omega⟩, decodeOP_N_opN (n := n) ⟨by omega, hn⟩] at hmatch
      have hfits := (multisigFits_iff (m := m) (n := n) (by omega) hn (keys.map Prod.snd)).2
        ⟨hm.1, hm.2, by rw [List.length_map, hlen]⟩
      simp only [hmatch]
      rw [if_neg (fun h => h.2 hfits)]
      exact ⟨_, _, rfl⟩
    | nullData h =>
      simp only [hnull h]
      split
      · rw [if_neg (by simp)]
        exact ⟨_, _, rfl⟩
      · simp only [match_nullData.2 ⟨h, rfl⟩]
        rw [if_neg (by simp)]
        exact ⟨_, _, rfl⟩
    | nullDataPush c data hc hdata h =>
      simp only [hnull h, hpush hdata h]
      rw [if_neg (by simp)]
      exact ⟨_, _, rfl⟩
  · have hlarge : ¬ c ≤ OP_PUSHDATA4 := fun h => absurd (UInt8.lt_of_lt_of_le hc h) (by decide)
    have hl : Reads s [(OP_RETURN, []), (c, [])] := by
      rw [hs]
      exact ⟨[c], nextOp_plain (by decide) _, [], nextOp_plain hlarge _, rfl⟩
    simp only [hnull hl, hpush (Nat.zero_le _) hl]
    rw [if_neg (by simp)]
    exact ⟨_, _, rfl⟩

theorem not_instance_of_returnsOpcode {s : CScript} (h : ReturnsOpcode s) (type : TxnOutType)
    (vSolutions : List (List UInt8)) : ¬ Instance s type vSolutions := by
  obtain ⟨c, hc, rfl⟩ := h
  have hlarge : ¬ c ≤ OP_PUSHDATA4 := fun h => absurd (UInt8.lt_of_lt_of_le hc h) (by decide)
  have hl : Reads [OP_RETURN, c] [(OP_RETURN, []), (c, [])] :=
    ⟨[c], nextOp_plain (by decide) _, [], nextOp_plain hlarge _, rfl⟩
  intro h
  cases h with
  | pubkey c' key hkey h =>
    cases hl.unique h
    exact not_isKeySize_nil hkey
  | pubkeyhash c' hash hhash h => cases hl.unique h
  | scripthash hash hhash h => exact absurd (List.cons.inj h).1 (by decide)
  | multisig m n keys hm hn hlen hkeys h =>
    have hlist := congrArg List.length (hl.unique h)
    simp only [List.length_cons, List.length_append, List.length_nil] at hlist
    omega
  | nullData h => cases hl.unique h
  | nullDataPush c' data hc' hdata h =>
    cases hl.unique h
    exact absurd hc (UInt8.not_lt.2 hc')

/-- `Solver` tells the instances of the templates, and `OP_RETURN` with an opcode that pushes nothing. -/
theorem solver_iff {s : CScript} {type : TxnOutType} {vSolutions : List (List UInt8)} :
    solver s = (true, type, vSolutions) ↔
      Instance s type vSolutions ∨ (ReturnsOpcode s ∧ type = .TX_NULL_DATA ∧ vSolutions = []) := by
  refine ⟨instance_of_solver, fun h => ?_⟩
  obtain ⟨type', vSolutions', hsolver⟩ := solver_of_instance (h.imp_right And.left)
  have hother := instance_of_solver hsolver
  rcases h with h | ⟨hret, rfl, rfl⟩
  · rcases hother with hother | ⟨hret, -⟩
    · obtain ⟨rfl, rfl⟩ := h.unique hother
      exact hsolver
    · exact absurd h (not_instance_of_returnsOpcode hret _ _)
  · rcases hother with hother | ⟨-, rfl, rfl⟩
    · exact absurd hother (not_instance_of_returnsOpcode hret _ _)
    · exact hsolver

/-! ### `IsNormalPaymentScript` -/

theorem opcode_eq_iff {pc : CScript} {c : UInt8} (hc : ¬ c ≤ OP_PUSHDATA4) (hinvalid : c ≠ OP_INVALIDOPCODE) :
    ((nextOp pc).1.map Prod.fst).getD OP_INVALIDOPCODE = c ↔ pc = c :: (nextOp pc).2 := by
  constructor
  · intro h
    rcases hop : nextOp pc with ⟨_ | op, rest⟩
    · rw [hop] at h
      exact absurd h.symm hinvalid
    · rw [hop] at h
      have hfst : op.1 = c := h
      rw [← hfst] at hc ⊢
      exact ((nextOp_opcode hop).2 hc).2
  · intro h
    rw [h, nextOp_plain hc]
    rfl

theorem normalPaymentLoop_step {pc : CScript} (hpc : pc ≠ []) (hshort : pc.length < 2 ^ 32) (fuel i : ℕ) :
    normalPaymentLoop (fuel + 1) i pc =
      if i = 0 ∧ ((nextOp pc).1.map Prod.fst).getD OP_INVALIDOPCODE ≠ OP_DUP then false
      else if i = 1 ∧ ((nextOp pc).1.map Prod.fst).getD OP_INVALIDOPCODE ≠ OP_HASH160 then false
      else if i = 3 ∧ ((nextOp pc).1.map Prod.fst).getD OP_INVALIDOPCODE ≠ OP_EQUALVERIFY then false
      else if i = 4 ∧ ((nextOp pc).1.map Prod.fst).getD OP_INVALIDOPCODE ≠ OP_CHECKSIG then false
      else if i = 5 then false
      else normalPaymentLoop fuel (i + 1) (nextOp pc).2 := by
  rw [nextOp_eq_getOp2 hshort]
  cases pc with
  | nil => exact absurd rfl hpc
  | cons c pc => rfl

theorem normalPaymentLoop_nil (fuel i : ℕ) : normalPaymentLoop fuel i [] = true := by
  cases fuel <;> rfl

theorem length_nextOp_le (pc : CScript) : (nextOp pc).2.length ≤ pc.length := by
  rw [nextOp]
  split
  · rw [List.length_drop]
    exact Nat.sub_le _ _
  · exact le_rfl

theorem isNormalPaymentScript_iff (s : CScript) :
    s.isNormalPaymentScript = true ↔ s.length = 25 ∧ ∃ pc, s = OP_DUP :: OP_HASH160 :: pc ∧
      ((nextOp pc).2 = [] ∨ (nextOp pc).2 = [OP_EQUALVERIFY] ∨ (nextOp pc).2 = [OP_EQUALVERIFY, OP_CHECKSIG]) := by
  rw [isNormalPaymentScript, Bool.and_eq_true, beq_iff_eq]
  refine and_congr_right fun hlen => ?_
  have hlast : ∀ (fuel : ℕ) {p : CScript}, p.length < 2 ^ 32 → (normalPaymentLoop (fuel + 1) 5 p = true ↔ p = []) := by
    intro fuel pc hshort
    by_cases hpc : pc = []
    · rw [hpc, normalPaymentLoop_nil]
      exact iff_of_true rfl rfl
    · rw [normalPaymentLoop_step hpc hshort]
      simp [hpc]
  have hplain : ∀ {c : UInt8}, ¬ c ≤ OP_PUSHDATA4 → c ≠ OP_INVALIDOPCODE → ∀ {p : CScript} (P : CScript → Prop),
      (((nextOp p).1.map Prod.fst).getD OP_INVALIDOPCODE = c ∧ P (nextOp p).2) ↔ ∃ rest, p = c :: rest ∧ P rest := by
    intro c hc hinvalid pc P
    rw [opcode_eq_iff hc hinvalid]
    constructor
    · exact fun h => ⟨_, h⟩
    · rintro ⟨rest, rfl, hrest⟩
      rw [nextOp_plain hc]
      exact ⟨rfl, hrest⟩
  have hsig : ∀ (fuel : ℕ) {p : CScript}, p.length < 2 ^ 32 →
      (normalPaymentLoop (fuel + 2) 4 p = true ↔ p = [] ∨ p = [OP_CHECKSIG]) := by
    intro fuel pc hshort
    by_cases hpc : pc = []
    · rw [hpc, normalPaymentLoop_nil]
      exact iff_of_true rfl (.inl rfl)
    · have hnext := hlast fuel (p := (nextOp pc).2) ((length_nextOp_le pc).trans_lt hshort)
      have hop := hplain (c := OP_CHECKSIG) (by decide) (by decide) (p := pc) (· = [])
      simp only [exists_eq_right] at hop
      rw [normalPaymentLoop_step hpc hshort, or_iff_right hpc, ← hop, ← hnext]
      by_cases hc : ((nextOp pc).1.map Prod.fst).getD OP_INVALIDOPCODE = OP_CHECKSIG <;> simp [hc]
  have hverify : ∀ (fuel : ℕ) {p : CScript}, p.length < 2 ^ 32 →
      (normalPaymentLoop (fuel + 3) 3 p = true ↔
        p = [] ∨ p = [OP_EQUALVERIFY] ∨ p = [OP_EQUALVERIFY, OP_CHECKSIG]) := by
    intro fuel pc hshort
    by_cases hpc : pc = []
    · rw [hpc, normalPaymentLoop_nil]
      exact iff_of_true rfl (.inl rfl)
    · have hnext := hsig fuel (p := (nextOp pc).2) ((length_nextOp_le pc).trans_lt hshort)
      have hop := hplain (c := OP_EQUALVERIFY) (by decide) (by decide) (p := pc) fun r => r = [] ∨ r = [OP_CHECKSIG]
      have hcases : (∃ rest, pc = OP_EQUALVERIFY :: rest ∧ (rest = [] ∨ rest = [OP_CHECKSIG])) ↔
          pc = [OP_EQUALVERIFY] ∨ pc = [OP_EQUALVERIFY, OP_CHECKSIG] := by
        constructor
        · rintro ⟨rest, rfl, rfl | rfl⟩
          · exact .inl rfl
          · exact .inr rfl
        · rintro (rfl | rfl)
          · exact ⟨_, rfl, .inl rfl⟩
          · exact ⟨_, rfl, .inr rfl⟩
      rw [normalPaymentLoop_step hpc hshort, or_iff_right hpc, ← hcases, ← hop, ← hnext]
      by_cases hc : ((nextOp pc).1.map Prod.fst).getD OP_INVALIDOPCODE = OP_EQUALVERIFY <;> simp [hc]
  have hhash : ∀ {pc : CScript}, pc.length = 23 →
      (normalPaymentLoop 23 2 pc = true ↔
        (nextOp pc).2 = [] ∨ (nextOp pc).2 = [OP_EQUALVERIFY] ∨ (nextOp pc).2 = [OP_EQUALVERIFY, OP_CHECKSIG]) := by
    intro pc hpc
    have hne : pc ≠ [] := fun h => by
      rw [h] at hpc
      cases hpc
    rw [normalPaymentLoop_step hne (by omega), ← hverify 19 (p := (nextOp pc).2)
      ((length_nextOp_le pc).trans_lt (by omega))]
    simp
  have hne : s ≠ [] := fun h => by
    rw [h] at hlen
    cases hlen
  rw [hlen, normalPaymentLoop_step hne (by omega)]
  have hdup := hplain (c := OP_DUP) (by decide) (by decide) (p := s) fun r => normalPaymentLoop 24 1 r = true
  constructor
  · intro h
    have hs : ((nextOp s).1.map Prod.fst).getD OP_INVALIDOPCODE = OP_DUP ∧ normalPaymentLoop 24 1 (nextOp s).2 = true := by
      by_cases hc : ((nextOp s).1.map Prod.fst).getD OP_INVALIDOPCODE = OP_DUP
      · exact ⟨hc, by simpa [hc] using h⟩
      · simp [hc] at h
    obtain ⟨r, rfl, hr⟩ := hdup.1 hs
    rw [List.length_cons] at hlen
    have hrne : r ≠ [] := fun h => by
      rw [h] at hlen
      cases hlen
    rw [normalPaymentLoop_step hrne (by omega)] at hr
    have hhash160 := hplain (c := OP_HASH160) (by decide) (by decide) (p := r) fun r => normalPaymentLoop 23 2 r = true
    have hr' : ((nextOp r).1.map Prod.fst).getD OP_INVALIDOPCODE = OP_HASH160 ∧
        normalPaymentLoop 23 2 (nextOp r).2 = true := by
      by_cases hc : ((nextOp r).1.map Prod.fst).getD OP_INVALIDOPCODE = OP_HASH160
      · exact ⟨hc, by simpa [hc] using hr⟩
      · simp [hc] at hr
    obtain ⟨pc, rfl, hpc⟩ := hhash160.1 hr'
    rw [List.length_cons] at hlen
    exact ⟨pc, rfl, (hhash (by omega)).1 hpc⟩
  · rintro ⟨pc, rfl, hpc⟩
    rw [List.length_cons, List.length_cons] at hlen
    have hinner : normalPaymentLoop 24 1 (OP_HASH160 :: pc) = true := by
      rw [normalPaymentLoop_step (List.cons_ne_nil _ _) (by rw [List.length_cons]; omega), nextOp_plain (by decide)]
      simpa using (hhash (by omega)).2 hpc
    rw [nextOp_plain (by decide)]
    simpa using hinner

/-- The scripts that pay to the hash of a key. -/
theorem solver_pubkeyhash_iff (s : CScript) :
    (∃ vSolutions, solver s = (true, .TX_PUBKEYHASH, vSolutions)) ↔
      ∃ pc, s = OP_DUP :: OP_HASH160 :: pc ∧ (nextOp pc).2 = [OP_EQUALVERIFY, OP_CHECKSIG] ∧
        ∃ op, (nextOp pc).1 = some op ∧ op.2.length = 20 := by
  constructor
  · rintro ⟨vSolutions, hsolver⟩
    rcases solver_iff.1 hsolver with h | ⟨-, h, -⟩
    · cases h with
      | pubkeyhash c hash hhash hl =>
        obtain ⟨r₁, h₁, r₂, h₂, r₃, h₃, r₄, h₄, r₅, h₅, hend⟩ := hl
        have hs := ((nextOp_opcode h₁).2 (by decide)).2
        have hr₁ := ((nextOp_opcode h₂).2 (by decide)).2
        have hr₃ := ((nextOp_opcode h₄).2 (by decide)).2
        have hr₄ := ((nextOp_opcode h₅).2 (by decide)).2
        rw [show r₅ = [] from hend] at hr₄
        refine ⟨r₂, by rw [hs, hr₁], ?_, (c, hash), by rw [h₃], hhash⟩
        rw [h₃, hr₃, hr₄]
    · exact absurd h (by decide)
  · rintro ⟨pc, rfl, hrest, ⟨c, hash⟩, hop, hhash⟩
    refine ⟨[hash], solver_iff.2 (.inl (.pubkeyhash c hash hhash ?_))⟩
    exact ⟨_, nextOp_plain (by decide) _, _, nextOp_plain (by decide) _, _, Prod.ext hop hrest, _,
      nextOp_plain (by decide) _, _, nextOp_plain (by decide) _, rfl⟩

/-- **When a script is typed as the templates say**: unless `OP_RETURN` is followed by an opcode that pushes nothing, or the
place of the hash is taken by something else in a script that pays to a hash otherwise. -/
theorem solvesRight_iff (s : CScript) : SolvesRight s ↔ ¬ ReturnsOpcode s ∧ ¬ HashMissing s := by
  constructor
  · rintro ⟨htype, hnormal⟩
    refine ⟨fun hret => ?_, fun ⟨hlen, pc, hs, hrest⟩ => ?_⟩
    · have hsolver := solver_iff.2 (.inr ⟨hret, rfl, rfl⟩)
      exact not_instance_of_returnsOpcode hret _ _ ((htype _ _).1 hsolver)
    · have hpay := (hnormal.1 ((isNormalPaymentScript_iff s).2 ⟨hlen, pc, hs, hrest.imp_right (Or.imp_right And.left)⟩)).2
      obtain ⟨pc', hs', hrest', op, hop, hlen'⟩ := (solver_pubkeyhash_iff s).1 hpay
      rw [hs] at hs'
      cases hs'
      rcases hrest with h | h | ⟨-, h⟩
      · rw [h] at hrest'
        cases hrest'
      · rw [h] at hrest'
        cases hrest'
      · exact h op hop hlen'
  · rintro ⟨hret, hmissing⟩
    refine ⟨fun type vSolutions => ?_, ?_⟩
    · rw [solver_iff]
      exact or_iff_left fun h => hret h.1
    · rw [isNormalPaymentScript_iff, solver_pubkeyhash_iff]
      refine and_congr_right fun hlen => ⟨fun ⟨pc, hs, hrest⟩ => ⟨pc, hs, ?_⟩, fun ⟨pc, hs, hrest, _⟩ =>
        ⟨pc, hs, .inr (.inr hrest)⟩⟩
      have hno : ¬ ((nextOp pc).2 = [] ∨ (nextOp pc).2 = [OP_EQUALVERIFY] ∨
          ((nextOp pc).2 = [OP_EQUALVERIFY, OP_CHECKSIG] ∧ ∀ op, (nextOp pc).1 = some op → op.2.length ≠ 20)) :=
        fun h => hmissing ⟨hlen, pc, hs, h⟩
      rw [not_or, not_or, not_and] at hno
      rcases hrest with h | h | h
      · exact absurd h hno.1
      · exact absurd h hno.2.1
      · obtain ⟨op, hop⟩ := not_forall.1 (hno.2.2 h)
        rw [Classical.not_imp, ne_eq, not_not] at hop
        exact ⟨h, op, hop⟩

/-- `OP_RETURN OP_CHECKSIG` is taken for data, and a push of 22 bytes for a whole payment. -/
theorem types_wrong :
    ¬ SolvesRight [OP_RETURN, OP_CHECKSIG] ∧
      ¬ SolvesRight ([OP_DUP, OP_HASH160, 22] ++ List.replicate 22 0) := by
  have hreturns : ReturnsOpcode [OP_RETURN, OP_CHECKSIG] := ⟨OP_CHECKSIG, by decide, rfl⟩
  refine ⟨fun h => ?_, fun h => ?_⟩
  · have hsolver : solver [OP_RETURN, OP_CHECKSIG] = (true, .TX_NULL_DATA, []) := by decide
    exact not_instance_of_returnsOpcode hreturns _ _ ((h.1 _ _).1 hsolver)
  · obtain ⟨-, hsols, hpay⟩ := h.2.1 (by decide)
    revert hpay
    have hsolver : (solver ([OP_DUP, OP_HASH160, 22] ++ List.replicate 22 0)).1 = false := by decide
    intro hpay
    rw [hpay] at hsolver
    cases hsolver

end CScript

end PayDayCoin
