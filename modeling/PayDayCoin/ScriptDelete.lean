import PayDayCoin.ScriptBuild
import PayDayCoin.SignatureCache

/-!
# Deleting instructions of a script

`FindAndDelete` erases the copies of some bytes from the script that it walks over, wherever an instruction begins, and
counts them. The signature hash deletes `OP_CODESEPARATOR` so.

**`findAndDelete_removes`**: of a script of fewer than `2 ^ 32` bytes, the instructions that are written as one given
instruction go, the others and the tail that is no instruction stay; a signature hash is the same with and without a
separator between instructions, and the bytes that it hashes differ when a push differs, whatever bytes the push holds.
-/

namespace PayDayCoin

namespace CScript

/-- `GetOp` at the front of the rest of a script. -/
def nextOp (pc : CScript) : Option (UInt8 × List UInt8) × CScript :=
  match getOpAt pc 0 with
  | some (r, next) => (r, pc.drop next)
  | none => (none, pc)

/-- The inner loop of `FindAndDelete`, with `nFound`. -/
def dropCounting (b : CScript) : ℕ → CScript → CScript × ℕ
  | 0, pc => (pc, 0)
  | fuel + 1, pc =>
    if b.isPrefixOf pc then ((dropCounting b fuel (pc.drop b.length)).1, (dropCounting b fuel (pc.drop b.length)).2 + 1)
    else (pc, 0)

/-- The loop of `FindAndDelete` over the rest `pc` of the script, with `nFound`. -/
def deleteCounting (b : CScript) : ℕ → CScript → CScript × ℕ
  | 0, pc => (pc, 0)
  | fuel + 1, pc =>
    let (pc, nFound) := dropCounting b pc.length pc
    match nextOp pc with
    | (none, _) => (pc, nFound)
    | (some _, rest) =>
      (pc.take (pc.length - rest.length) ++ (deleteCounting b fuel rest).1, nFound + (deleteCounting b fuel rest).2)

/-- `CScript::FindAndDelete`: the script that is left, and what is returned. -/
def findAndDeleteCounting (s b : CScript) : CScript × ℕ := if b.isEmpty then (s, 0) else deleteCounting b (s.length + 1) s

/-- The bytes of the instructions that `GetOp` returns one after the other, and the tail that it returns none of. -/
def splitFuel : ℕ → CScript → List CScript × CScript
  | 0, pc => ([], pc)
  | fuel + 1, pc =>
    match nextOp pc with
    | (none, _) => ([], pc)
    | (some _, rest) => (pc.take (pc.length - rest.length) :: (splitFuel fuel rest).1, (splitFuel fuel rest).2)

/-- The instructions of a script, and its tail. -/
def split (s : CScript) : List CScript × CScript := splitFuel (s.length + 1) s

/-- The bytes are those of one instruction. -/
def IsInstruction (b : CScript) : Prop := ∃ i, nextOp b = (some i, [])

/-! ### One instruction -/

theorem nextOp_shorter {pc rest : CScript} {i : UInt8 × List UInt8} (h : nextOp pc = (some i, rest)) :
    ∃ c, c ≠ [] ∧ pc = c ++ rest := by
  obtain ⟨r, next, hget, -, hle, hmove⟩ := getOpAt_inside (Nat.zero_le pc.length)
  rw [nextOp, hget] at h
  cases h
  refine ⟨pc.take next, fun hnil => ?_, (List.take_append_drop next pc).symm⟩
  have hlen := congrArg List.length hnil
  rw [List.length_take, List.length_nil] at hlen
  have := hmove rfl
  omega

theorem take_of_nextOp {pc rest c : CScript} (h : pc = c ++ rest) : pc.take (pc.length - rest.length) = c := by
  rw [h, List.length_append, Nat.add_sub_cancel, List.take_left]

theorem nextOp_cut {c : UInt8} {pc : CScript} (hc : c ≤ OP_PUSHDATA4) (hsize : sizeAt (c :: pc) 1 c = some none) :
    nextOp (c :: pc) = (none, pc) := by
  have hlen : ¬ (c :: pc : CScript).length ≤ 0 := by simp
  simp only [nextOp, getOpAt, if_neg hlen, List.getElem?_cons_zero, Option.bind_eq_bind, Option.bind_some, Nat.zero_add,
    if_pos hc, hsize]
  rfl

theorem nextOp_push {c : UInt8} {pc u t : CScript} {nSize : ℕ} (hpc : pc = u ++ t) (hshort : pc.length < 2 ^ 32)
    (hc : c ≤ OP_PUSHDATA4) (hsize : sizeAt (c :: pc) 1 c = some (some (nSize, 1 + u.length))) :
    nextOp (c :: pc) = if t.length < nSize then (none, t) else (some (c, t.take nSize), t.drop nSize) := by
  have hlen : ¬ (c :: pc : CScript).length ≤ 0 := by simp
  have hdrop : (c :: pc : CScript).drop (1 + u.length) = t := by
    rw [hpc, Nat.add_comm, List.drop_succ_cons, List.drop_left]
  have htotal : (c :: pc : CScript).length = 1 + u.length + t.length := by
    rw [hpc, List.length_cons, List.length_append]
    omega
  have hmod : ((c :: pc : CScript).length - (1 + u.length)) % 2 ^ 32 = t.length := by
    rw [List.length_cons] at htotal
    rw [List.length_cons, Nat.mod_eq_of_lt (by omega)]
    omega
  simp only [nextOp, getOpAt, if_neg hlen, List.getElem?_cons_zero, Option.bind_eq_bind, Option.bind_some, Nat.zero_add,
    if_pos hc, hsize, hmod, hdrop]
  by_cases hcut : t.length < nSize
  · rw [if_pos hcut, if_pos (.inr hcut)]
    simp only [hdrop]
  · rw [if_neg hcut, if_neg (by omega), if_pos (by omega)]
    simp only [← List.drop_drop, hdrop]

theorem sizeAt_wide {c : UInt8} (pc : CScript) {width : ℕ} (hc : ¬ c < OP_PUSHDATA1)
    (hwidth : (if c = OP_PUSHDATA1 then 1 else if c = OP_PUSHDATA2 then 2 else 4) = width) :
    sizeAt (c :: pc) 1 c =
      if pc.length < width then some none else some (some (ofBytes (pc.take width), 1 + width)) := by
  simp only [sizeAt, if_neg hc, hwidth, copySize, List.length_cons, Nat.add_sub_cancel, List.drop_one, List.tail_cons]
  split
  · rfl
  · rw [if_pos (by omega)]
    rfl

/-- What `getOp2` makes of the size of a push and the position behind it. -/
def pushData (opcode : UInt8) (pc : CScript) (size : Option (ℕ × CScript)) : Option (UInt8 × List UInt8) × CScript :=
  match size with
  | none => (none, pc)
  | some (nSize, pc) => if pc.length < nSize then (none, pc) else (some (opcode, pc.take nSize), pc.drop nSize)

theorem getOp2_cons_push {c : UInt8} (hc : c ≤ OP_PUSHDATA4) (pc : CScript) :
    getOp2 (c :: pc) = pushData c pc (if c < OP_PUSHDATA1 then some (c.toNat, pc)
      else if c = OP_PUSHDATA1 then readSize 1 pc
      else if c = OP_PUSHDATA2 then readSize 2 pc
      else readSize 4 pc) := by
  rw [getOp2, if_pos hc]
  rfl

/-- Cutting the number of bytes left to 32 bits changes nothing on short scripts. -/
theorem nextOp_eq_getOp2 {pc : CScript} (hshort : pc.length < 2 ^ 32) : nextOp pc = getOp2 pc := by
  cases pc with
  | nil => rfl
  | cons c pc =>
    rw [List.length_cons] at hshort
    have hwide : ∀ width, ¬ c < OP_PUSHDATA1 → c ≤ OP_PUSHDATA4 →
        (if c = OP_PUSHDATA1 then 1 else if c = OP_PUSHDATA2 then 2 else 4) = width →
        nextOp (c :: pc) = pushData c pc (readSize width pc) := by
      intro width hlarge hc hwidth
      have hsize := sizeAt_wide pc hlarge hwidth
      by_cases hcut : pc.length < width
      · rw [if_pos hcut] at hsize
        rw [nextOp_cut hc hsize, readSize, if_pos hcut, pushData]
      · rw [if_neg hcut] at hsize
        rw [readSize, if_neg hcut]
        refine nextOp_push (u := pc.take width) (List.take_append_drop width pc).symm (by omega) hc ?_
        rw [hsize, List.length_take, Nat.min_eq_left (Nat.not_lt.1 hcut)]
        rfl
    by_cases hc : c ≤ OP_PUSHDATA4
    · rw [getOp2_cons_push hc]
      by_cases hsmall : c < OP_PUSHDATA1
      · rw [if_pos hsmall]
        refine nextOp_push (u := []) rfl (by omega) hc ?_
        rw [sizeAt, if_pos hsmall]
        rfl
      · rw [if_neg hsmall]
        by_cases h₁ : c = OP_PUSHDATA1
        · rw [if_pos h₁]
          exact hwide 1 hsmall hc (if_pos h₁)
        by_cases h₂ : c = OP_PUSHDATA2
        · rw [if_neg h₁, if_pos h₂]
          exact hwide 2 hsmall hc (by rw [if_neg h₁, if_pos h₂])
        · rw [if_neg h₁, if_neg h₂]
          exact hwide 4 hsmall hc (by rw [if_neg h₁, if_neg h₂])
    · have hlen : ¬ (c :: pc : CScript).length ≤ 0 := by simp
      rw [getOp2, if_neg hc]
      simp only [nextOp, getOpAt, if_neg hlen, List.getElem?_cons_zero, Option.bind_eq_bind, Option.bind_some,
        Nat.zero_add, if_neg hc, List.drop_one, List.tail_cons]

theorem pushData_append {c : UInt8} {pc r t : CScript} {i : UInt8 × List UInt8} {size size' : Option (ℕ × CScript)}
    (hsize : ∀ n u, size = some (n, u) → size' = some (n, u ++ t)) (h : pushData c pc size = (some i, r)) :
    pushData c (pc ++ t) size' = (some i, r ++ t) := by
  rcases size with _ | ⟨n, u⟩
  · cases h
  · rw [hsize n u rfl]
    simp only [pushData] at h ⊢
    by_cases hcut : u.length < n
    · rw [if_pos hcut] at h
      cases h
    · rw [if_neg hcut] at h
      cases h
      have hcut' : ¬ (u ++ t).length < n := by
        rw [List.length_append]
        omega
      rw [if_neg hcut', List.take_append_of_le_length (Nat.not_lt.1 hcut),
        List.drop_append_of_le_length (Nat.not_lt.1 hcut)]

theorem readSize_append {width n : ℕ} {pc t u : CScript} (h : readSize width pc = some (n, u)) :
    readSize width (pc ++ t) = some (n, u ++ t) := by
  rw [readSize] at h ⊢
  split at h
  · cases h
  · next hlen =>
    cases h
    rw [if_neg (by rw [List.length_append]; omega), List.take_append_of_le_length (Nat.not_lt.1 hlen),
      List.drop_append_of_le_length (Nat.not_lt.1 hlen)]

/-- What is behind an instruction does not change how it is read. -/
theorem getOp2_append {b r t : CScript} {i : UInt8 × List UInt8} (h : getOp2 b = (some i, r)) :
    getOp2 (b ++ t) = (some i, r ++ t) := by
  cases b with
  | nil => cases h
  | cons c pc =>
    rw [List.cons_append]
    by_cases hc : c ≤ OP_PUSHDATA4
    · rw [getOp2_cons_push hc] at h ⊢
      refine pushData_append (fun n u hn => ?_) h
      split at hn
      · next hsmall =>
        cases hn
        rw [if_pos hsmall]
      next hsmall =>
      rw [if_neg hsmall]
      split at hn
      · next h₁ =>
        rw [if_pos h₁]
        exact readSize_append hn
      next h₁ =>
      rw [if_neg h₁]
      split at hn
      · next h₂ =>
        rw [if_pos h₂]
        exact readSize_append hn
      next h₂ =>
      rw [if_neg h₂]
      exact readSize_append hn
    · rw [getOp2, if_neg hc] at h ⊢
      cases h
      rfl

/-! ### The walk -/

theorem nextOp_append {b t : CScript} {i : UInt8 × List UInt8} (h : nextOp b = (some i, []))
    (hshort : (b ++ t).length < 2 ^ 32) : nextOp (b ++ t) = (some i, t) := by
  have hb : b.length < 2 ^ 32 := by
    rw [List.length_append] at hshort
    omega
  rw [nextOp_eq_getOp2 hb] at h
  rw [nextOp_eq_getOp2 hshort, getOp2_append h, List.nil_append]

theorem dropCounting_fuel {b : CScript} (hb : b ≠ []) {k j : ℕ} {pc : CScript} (hk : pc.length ≤ k) (hj : pc.length ≤ j) :
    dropCounting b k pc = dropCounting b j pc := by
  have hpos : 0 < b.length := List.length_pos_iff.2 hb
  have hnil : ∀ fuel, dropCounting b fuel [] = ([], 0) := fun fuel => by
    cases fuel with
    | zero => rfl
    | succ fuel =>
      rw [dropCounting, if_neg]
      rw [List.isPrefixOf_iff_prefix]
      exact fun h => hb (List.prefix_nil.1 h)
  induction k generalizing j pc with
  | zero =>
    rw [List.length_eq_zero_iff.1 (Nat.le_zero.1 hk), hnil, hnil]
  | succ k ih =>
    cases j with
    | zero => rw [List.length_eq_zero_iff.1 (Nat.le_zero.1 hj), hnil, hnil]
    | succ j =>
      have hlen := List.length_drop (i := b.length) (l := pc)
      rw [dropCounting, dropCounting, ih (j := j) (by omega) (by omega)]

theorem dropCounting_append {b : CScript} (hb : b ≠ []) (t : CScript) :
    dropCounting b (b ++ t).length (b ++ t) = ((dropCounting b t.length t).1, (dropCounting b t.length t).2 + 1) := by
  have hpos : 0 < b.length := List.length_pos_iff.2 hb
  have hlen : (b ++ t).length = (b.length - 1 + t.length) + 1 := by
    rw [List.length_append]
    omega
  rw [hlen, dropCounting, if_pos (List.isPrefixOf_iff_prefix.2 (List.prefix_append b t)), List.drop_left,
    dropCounting_fuel hb (by omega : t.length ≤ b.length - 1 + t.length) le_rfl]

theorem dropCounting_not_prefix {b pc : CScript} (h : ¬ b <+: pc) (fuel : ℕ) : dropCounting b fuel pc = (pc, 0) := by
  cases fuel with
  | zero => rfl
  | succ fuel => rw [dropCounting, if_neg (mt List.isPrefixOf_iff_prefix.1 h)]

/-- The walk keeps the instructions that are not the given one, and the tail. -/
theorem deleteCounting_eq {b : CScript} (hb : IsInstruction b) {f g : ℕ} {s : CScript} (hshort : s.length < 2 ^ 32)
    (hf : s.length < f) (hg : s.length < g) :
    deleteCounting b f s =
      (((splitFuel g s).1.filter (· ≠ b)).flatten ++ (splitFuel g s).2, (splitFuel g s).1.count b) := by
  obtain ⟨i, hi⟩ := hb
  have hne : b ≠ [] := fun h => by
    rw [h] at hi
    cases hi
  induction hn : s.length using Nat.strong_induction_on generalizing s f g with
  | _ n ih =>
    subst hn
    obtain ⟨f, rfl⟩ : ∃ k, f = k + 1 := ⟨f - 1, by omega⟩
    obtain ⟨g, rfl⟩ : ∃ k, g = k + 1 := ⟨g - 1, by omega⟩
    by_cases hprefix : b <+: s
    · obtain ⟨t, rfl⟩ := hprefix
      have hpos : 0 < b.length := List.length_pos_iff.2 hne
      have hlen : (b ++ t).length = b.length + t.length := List.length_append
      have hrest := ih t.length (by omega) (s := t) (f := f + 1) (g := g) (by omega) (by omega) (by omega) rfl
      have hstep : deleteCounting b (f + 1) (b ++ t) =
          ((deleteCounting b (f + 1) t).1, (deleteCounting b (f + 1) t).2 + 1) := by
        simp only [deleteCounting, dropCounting_append hne]
        split
        · rfl
        · simp only [Nat.add_right_comm]
      have hsplit : splitFuel (g + 1) (b ++ t) = (b :: (splitFuel g t).1, (splitFuel g t).2) := by
        simp only [splitFuel, nextOp_append hi hshort, take_of_nextOp rfl]
      rw [hstep, hrest, hsplit]
      simp
    · have hdrop := dropCounting_not_prefix hprefix s.length
      rcases hop : nextOp s with ⟨_ | j, rest⟩
      · simp only [deleteCounting, splitFuel, hdrop, hop, List.filter_nil, List.flatten_nil, List.nil_append,
          List.count_nil]
      · obtain ⟨c, hc, hpc⟩ := nextOp_shorter hop
        have hcb : c ≠ b := fun h => hprefix ⟨rest, by rw [hpc, h]⟩
        have hpos : 0 < c.length := List.length_pos_iff.2 hc
        have hlen : s.length = c.length + rest.length := by rw [hpc, List.length_append]
        have hrest := ih rest.length (by omega) (s := rest) (f := f) (g := g) (by omega) (by omega) (by omega) rfl
        simp only [deleteCounting, splitFuel, hdrop, hop, take_of_nextOp hpc, hrest]
        simp [hcb]

/-- The script that is left is the one that the signature hash takes. -/
theorem fst_findAndDeleteCounting {s b : CScript} (hshort : s.length < 2 ^ 32) :
    (findAndDeleteCounting s b).1 = s.findAndDelete b := by
  have hdrop : ∀ fuel pc, (dropCounting b fuel pc).1 = dropCopies b fuel pc := fun fuel => by
    induction fuel with
    | zero => exact fun _ => rfl
    | succ fuel ih =>
      intro pc
      rw [dropCounting, dropCopies]
      split
      · exact ih _
      · rfl
  have hlen : ∀ fuel pc, (dropCopies b fuel pc).length ≤ pc.length := fun fuel => by
    induction fuel with
    | zero => exact fun _ => le_rfl
    | succ fuel ih =>
      intro pc
      rw [dropCopies]
      split
      · exact (ih _).trans (by rw [List.length_drop]; exact Nat.sub_le _ _)
      · exact le_rfl
  have hloop : ∀ (f : ℕ) (pc : CScript), pc.length ≤ f → pc.length < 2 ^ 32 →
      (deleteCounting b (f + 1) pc).1 = deleteLoop b f pc := by
    intro f
    induction f with
    | zero =>
      intro pc hpc _
      rw [List.length_eq_zero_iff.1 (Nat.le_zero.1 hpc)]
      rfl
    | succ f ih =>
      intro pc hpc hs
      have hle := hlen pc.length pc
      rw [deleteLoop, deleteCounting]
      simp only [hdrop]
      rw [nextOp_eq_getOp2 (by omega)]
      rcases hop : getOp2 (dropCopies b pc.length pc) with ⟨_ | j, rest⟩
      · rfl
      · have hnext : nextOp (dropCopies b pc.length pc) = (some j, rest) := by rw [nextOp_eq_getOp2 (by omega), hop]
        obtain ⟨c, hc, hsplit⟩ := nextOp_shorter hnext
        have hpos : 0 < c.length := List.length_pos_iff.2 hc
        have hlen' := congrArg List.length hsplit
        rw [List.length_append] at hlen'
        simp only [ih rest (by omega) (by omega)]
  rw [findAndDeleteCounting, findAndDelete]
  split
  · rfl
  · exact hloop s.length s le_rfl hshort

/-! ### The signature hash -/

theorem splitFuel_fuel {f g : ℕ} {s : CScript} (hf : s.length < f) (hg : s.length < g) :
    splitFuel f s = splitFuel g s := by
  induction f generalizing g s with
  | zero => cases hf
  | succ f ih =>
    cases g with
    | zero => cases hg
    | succ g =>
      rw [splitFuel, splitFuel]
      rcases hop : nextOp s with ⟨_ | i, rest⟩
      · rfl
      · obtain ⟨c, hc, rfl⟩ := nextOp_shorter hop
        have hpos : 0 < c.length := List.length_pos_iff.2 hc
        rw [List.length_append] at hf hg
        simp only [ih (g := g) (s := rest) (by omega) (by omega)]

/-- The instructions of a script in front of another are instructions of both together. -/
theorem split_append {x y : CScript} (hx : (split x).2 = []) (hshort : (x ++ y).length < 2 ^ 32) :
    split (x ++ y) = ((split x).1 ++ (split y).1, (split y).2) := by
  induction hn : x.length using Nat.strong_induction_on generalizing x with
  | _ n ih =>
    subst hn
    rw [List.length_append] at hshort
    rcases hop : nextOp x with ⟨_ | i, rest⟩
    · have hsplit : split x = ([], x) := by simp only [split, splitFuel, hop]
      rw [hsplit] at hx ⊢
      rw [show x = [] from hx, List.nil_append, List.nil_append]
    · obtain ⟨c, hc, hxc⟩ := nextOp_shorter hop
      have hpos : 0 < c.length := List.length_pos_iff.2 hc
      have hlen : x.length = c.length + rest.length := by rw [hxc, List.length_append]
      have hunfold : ∀ z, nextOp (x ++ z) = (some i, rest ++ z) →
          split (x ++ z) = (c :: (split (rest ++ z)).1, (split (rest ++ z)).2) := by
        intro z hz
        have hfuel := splitFuel_fuel (f := (x ++ z).length) (g := (rest ++ z).length + 1) (s := rest ++ z)
          (by rw [List.length_append, List.length_append]; omega) (Nat.lt_succ_self _)
        rw [split, splitFuel, hz]
        simp only [hfuel, take_of_nextOp (show x ++ z = c ++ (rest ++ z) by rw [hxc, List.append_assoc])]
        rfl
      have hself := hunfold [] (by rw [List.append_nil, List.append_nil, hop])
      rw [List.append_nil, List.append_nil] at hself
      rw [hself] at hx
      have hnext : nextOp (x ++ y) = (some i, rest ++ y) := by
        rw [nextOp_eq_getOp2 (by omega)] at hop
        rw [nextOp_eq_getOp2 (by rw [List.length_append]; omega), getOp2_append hop]
      have hrest := ih rest.length (by omega) hx (by rw [List.length_append]; omega) rfl
      rw [hunfold y hnext, hself, hrest]
      rfl

theorem split_instruction {b : CScript} (hb : IsInstruction b) : split b = ([b], []) := by
  obtain ⟨i, hi⟩ := hb
  have hnil : splitFuel b.length [] = ([], []) := by
    cases b with
    | nil => rfl
    | cons c b => rfl
  simp only [split, splitFuel, hi, hnil, List.length_nil, Nat.sub_zero, List.take_length]

theorem findAndDelete_eq {s b : CScript} (hb : IsInstruction b) (hshort : s.length < 2 ^ 32) :
    findAndDeleteCounting s b = (((split s).1.filter (· ≠ b)).flatten ++ (split s).2, (split s).1.count b) := by
  have hne : b.isEmpty = false := by
    obtain ⟨i, hi⟩ := hb
    cases b with
    | nil => cases hi
    | cons c b => rfl
  rw [findAndDeleteCounting, hne, if_neg Bool.false_ne_true]
  exact deleteCounting_eq hb hshort (Nat.lt_succ_self _) (Nat.lt_succ_self _)

theorem isInstruction_separator : IsInstruction [OP_CODESEPARATOR] := ⟨(OP_CODESEPARATOR, []), rfl⟩

theorem isInstruction_push {d : List UInt8} (hshort : (push [] d).length < 2 ^ 32) : IsInstruction (push [] d) := by
  have hread := getOpAt_bytes (s := push [] d) (u := []) (t := []) (b := d) (by simp) hshort
  rw [List.length_nil, Nat.zero_add] at hread
  exact ⟨(pushOpcode d, d), by rw [nextOp, hread]; simp only [List.drop_length]⟩

theorem push_inj {d d' : List UInt8} (hshort : (push [] d).length < 2 ^ 32) (h : push [] d = push [] d') : d = d' := by
  have hread := getOpAt_bytes (s := push [] d) (u := []) (t := []) (b := d) (by simp) hshort
  have hread' := getOpAt_bytes (s := push [] d') (u := []) (t := []) (b := d') (by simp) (h ▸ hshort)
  rw [← h, hread] at hread'
  simp only [Option.some.injEq, Prod.mk.injEq] at hread'
  exact hread'.1.2

/-- What the signature hash makes of a script: the instructions but the separators. -/
theorem findAndDelete_separator {s : CScript} (hshort : s.length < 2 ^ 32) :
    s.findAndDelete [OP_CODESEPARATOR] = ((split s).1.filter (· ≠ [OP_CODESEPARATOR])).flatten ++ (split s).2 := by
  rw [← fst_findAndDeleteCounting hshort, findAndDelete_eq isInstruction_separator hshort]

theorem findAndDelete_insert {x y : CScript} (hx : (split x).2 = []) (hshort : (x ++ OP_CODESEPARATOR :: y).length < 2 ^ 32) :
    (x ++ OP_CODESEPARATOR :: y).findAndDelete [OP_CODESEPARATOR] = (x ++ y).findAndDelete [OP_CODESEPARATOR] := by
  have hlen : (x ++ y).length < 2 ^ 32 ∧ (OP_CODESEPARATOR :: y).length < 2 ^ 32 := by
    rw [List.length_append, List.length_cons] at hshort
    rw [List.length_append, List.length_cons]
    omega
  have hsep := split_instruction isInstruction_separator
  have hy : split (OP_CODESEPARATOR :: y) = ([OP_CODESEPARATOR] :: (split y).1, (split y).2) := by
    have happend := split_append (x := [OP_CODESEPARATOR]) (y := y) (by rw [hsep]) hlen.2
    rwa [hsep] at happend
  rw [findAndDelete_separator hshort, findAndDelete_separator hlen.1, split_append hx hshort, split_append hx hlen.1, hy]
  simp

theorem findAndDelete_push {x y : CScript} {d : List UInt8} (hx : (split x).2 = [])
    (hshort : (x ++ (push [] d ++ y)).length < 2 ^ 32) (hd : push [] d ≠ [OP_CODESEPARATOR]) :
    (x ++ (push [] d ++ y)).findAndDelete [OP_CODESEPARATOR] =
      ((split x).1.filter (· ≠ [OP_CODESEPARATOR])).flatten ++
        (push [] d ++ (((split y).1.filter (· ≠ [OP_CODESEPARATOR])).flatten ++ (split y).2)) := by
  have hlen : (push [] d ++ y).length < 2 ^ 32 ∧ (push [] d).length < 2 ^ 32 := by
    rw [List.length_append, List.length_append] at hshort
    rw [List.length_append]
    omega
  have hpush := split_instruction (isInstruction_push hlen.2)
  rw [findAndDelete_separator hshort, split_append hx hshort, split_append (by rw [hpush]) hlen.1, hpush]
  simp [hd]

theorem push_ne_separator (d : List UInt8) : push [] d ≠ [OP_CODESEPARATOR] := by
  rcases push_cases d with ⟨hlen, hopcode, hpush⟩ | ⟨width, hform, hpush⟩
  · rw [hpush]
    rintro h
    obtain ⟨hc, rfl⟩ := List.cons.inj h
    exact absurd hc (by decide)
  · rw [hpush]
    intro h
    have hnil := congrArg List.length (List.cons.inj h).2
    rw [List.length_append, List.length_nil] at hnil
    rcases hform with ⟨h₁, _⟩ | ⟨h₁, _⟩ | ⟨h₁, _⟩ <;> omega

/-- The script of the signed input, in the transaction that is hashed. -/
theorem scriptSig_of_signedTx {scriptCode : CScript} {txTo tx : CTransaction} {nIn : ℕ} {nHashType : Int32}
    (hin : nIn < txTo.vin.length) (h : signedTx scriptCode txTo nIn nHashType = some tx) :
    (tx.vin[if nHashType &&& SIGHASH_ANYONECANPAY ≠ 0 then 0 else nIn]?).map CTxIn.scriptSig =
      some (scriptCode.findAndDelete [OP_CODESEPARATOR]) := by
  rw [signedTx] at h
  obtain ⟨vout, -, rfl⟩ := Option.map_eq_some_iff.1 h
  have hblank : ∀ fWildcard, ((blankInputs (scriptCode.findAndDelete [OP_CODESEPARATOR]) nIn fWildcard txTo.vin)[nIn]?).map
      CTxIn.scriptSig = some (scriptCode.findAndDelete [OP_CODESEPARATOR]) := fun fWildcard => by
    rw [blankInputs, List.getElem?_mapIdx, List.getElem?_eq_getElem hin, Option.map_some, if_pos rfl]
    rfl
  by_cases hany : nHashType &&& SIGHASH_ANYONECANPAY ≠ 0
  · simp only [if_pos hany]
    rw [List.getElem?_take_of_lt Nat.one_pos, List.getElem?_drop, Nat.add_zero]
    exact hblank _
  · simp only [if_neg hany]
    exact hblank _

/-- **`FindAndDelete` deletes instructions**: the instructions that are written as `b` go and are counted, everything else
stays. A separator between instructions leaves the signature hash as it is, and two pushes of different bytes at one place
make different bytes to hash. -/
theorem findAndDelete_removes [SignatureScheme] (s b x y : CScript) (d d' : List UInt8) (txTo : CTransaction) (nIn : ℕ)
    (nHashType : Int32) :
    (s.length < 2 ^ 32 → IsInstruction b →
      findAndDeleteCounting s b = (((split s).1.filter (· ≠ b)).flatten ++ (split s).2, (split s).1.count b) ∧
        s.findAndDelete b = (findAndDeleteCounting s b).1) ∧
    ((split x).2 = [] → (x ++ OP_CODESEPARATOR :: y).length < 2 ^ 32 →
      signatureHash (x ++ OP_CODESEPARATOR :: y) txTo nIn nHashType = signatureHash (x ++ y) txTo nIn nHashType) ∧
    ∀ tx tx', (split x).2 = [] → d ≠ d' → (x ++ (push [] d ++ y)).length < 2 ^ 32 →
      (x ++ (push [] d' ++ y)).length < 2 ^ 32 → nIn < txTo.vin.length →
      signedTx (x ++ (push [] d ++ y)) txTo nIn nHashType = some tx →
      signedTx (x ++ (push [] d' ++ y)) txTo nIn nHashType = some tx' → tx.Fits → tx'.Fits →
      ∃ bytes bytes', bytes ≠ bytes' ∧
        signatureHash (x ++ (push [] d ++ y)) txTo nIn nHashType = SignatureScheme.hash bytes ∧
        signatureHash (x ++ (push [] d' ++ y)) txTo nIn nHashType = SignatureScheme.hash bytes' := by
  refine ⟨fun hshort hb => ⟨findAndDelete_eq hb hshort, (fst_findAndDeleteCounting hshort).symm⟩, fun hx hshort => ?_,
    fun tx tx' hx hd hshort hshort' hin htx htx' hfits hfits' => ?_⟩
  · simp only [signatureHash, signedTx, findAndDelete_insert hx hshort]
  · refine ⟨CTransaction.codec.write tx ++ int32.write nHashType, CTransaction.codec.write tx' ++ int32.write nHashType,
      fun h => hd ?_, ?_, ?_⟩
    · have hscript := scriptSig_of_signedTx hin htx
      rw [CTransaction.lawful.write_inj hfits hfits' h, scriptSig_of_signedTx hin htx', Option.some.injEq,
        findAndDelete_push hx hshort (push_ne_separator d), findAndDelete_push hx hshort' (push_ne_separator d')] at hscript
      refine push_inj ?_ (List.append_cancel_right (List.append_cancel_left hscript)).symm
      rw [List.length_append, List.length_append] at hshort
      omega
    · rw [signatureHash, if_neg (Nat.not_le.2 hin), htx]
    · rw [signatureHash, if_neg (Nat.not_le.2 hin), htx']

/-- A separator between instructions goes, and the same byte in a push stays. -/
theorem findAndDelete_removes_separator :
    findAndDeleteCounting [0xab, 0x01, 0xab] [0xab] = ([0x01, 0xab], 1) ∧
      @signatureHash ⟨fun _ => 0, fun _ _ _ => false⟩ [0x51, 0xab, 0x51] ⟨1, 0, [], [], 0⟩ 0 1 =
        @signatureHash ⟨fun _ => 0, fun _ _ _ => false⟩ [0x51, 0x51] ⟨1, 0, [], [], 0⟩ 0 1 := by
  have h := @findAndDelete_removes ⟨fun _ => 0, fun _ _ _ => false⟩ [0xab, 0x01, 0xab] [0xab] [0x51] [0x51] [] []
    ⟨1, 0, [], [], 0⟩ 0 1
  refine ⟨?_, h.2.1 (by decide) (by decide)⟩
  rw [(h.1 (by decide) isInstruction_separator).1]
  decide

/-- A copy in front of `2 ^ 32` bytes is deleted, though no instruction is read there. -/
theorem deletes_unread :
    ¬ ∀ s b : CScript, IsInstruction b →
      findAndDeleteCounting s b = (((split s).1.filter (· ≠ b)).flatten ++ (split s).2, (split s).1.count b) := by
  intro h
  obtain ⟨t, ht⟩ : ∃ t : CScript, t.length + 1 = 2 ^ 32 :=
    ⟨List.replicate (2 ^ 32 - 1) 0, by rw [List.length_replicate]; omega⟩
  have hb : IsInstruction [1, 0] := ⟨(1, [0]), rfl⟩
  have hsplit : split ([1, 0] ++ t) = ([], [1, 0] ++ t) := by
    have hnext : (nextOp (1 :: 0 :: t)).1 = none := by rw [nextOp, getOpAt_wraps ht]
    rcases hop : nextOp (1 :: 0 :: t) with ⟨_ | i, rest⟩
    · simp only [split, splitFuel, List.cons_append, List.nil_append, hop]
    · rw [hop] at hnext
      cases hnext
  have hcount := congrArg Prod.snd (h ([1, 0] ++ t) [1, 0] hb)
  rw [hsplit, findAndDeleteCounting, List.isEmpty_cons, if_neg Bool.false_ne_true] at hcount
  simp only [deleteCounting, dropCounting_append (List.cons_ne_nil 1 [0]), List.count_nil] at hcount
  split at hcount
  · cases hcount
  · omega

end CScript

end PayDayCoin
