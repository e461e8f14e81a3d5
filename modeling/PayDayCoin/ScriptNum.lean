import PayDayCoin.Mpi

/-!
# Script numbers

The interpreter that signs computes with `CScriptNum`, a 64-bit integer that reads and writes the bytes of a script by
shifts; the interpreter of consensus computes with `CBigNum`, which goes through the MPI format. A number that a script
holds has at most four bytes.

**`formats_agree`**: both read the same integer off four bytes and write the same bytes for every 64-bit integer, the
strict reading takes just the bytes that some integer is written as, and arithmetic on two numbers of four bytes stays
within 64 bits.
-/

namespace PayDayCoin

/-! ### Big numbers of machine integers -/

/-- The eight turns of the loop of `setint64` that take the highest byte off a number. -/
def topBytes : ℕ → UInt64 → List UInt8
  | 0, _ => []
  | i + 1, n => (n >>> 56).toUInt8 :: topBytes i (n <<< 8)

/-- `CBigNum::setint64`. -/
def setint64 (sn : Int64) : ℤ :=
  if sn < 0 then mpi2bn (mpiBytes true (topBytes 8 ((-(sn + 1)).toUInt64 + 1)))
  else mpi2bn (mpiBytes false (topBytes 8 sn.toUInt64))

/-- `CBigNum(long n)`, where `BN_set_word` takes what is not negative. -/
def ofLong (n : Int64) : ℤ := if 0 ≤ n then (n.toUInt64.toNat : ℤ) else setint64 n

/-- A script number, `CScriptNum`. -/
structure CScriptNum where
  m_value : Int64
deriving DecidableEq, Repr

namespace CScriptNum

/-! ### Bytes -/

/-- `nMaxNumSize`. -/
def nMaxNumSize : ℕ := 4

/-- The loop of `set_vch`, on the bits of its result. -/
def setVchLoop : ℕ → UInt64 → List UInt8 → UInt64
  | _, result, [] => result
  | i, result, b :: vch => setVchLoop (i + 1) (result ||| b.toUInt64 <<< UInt64.ofNat (8 * i)) vch

/-- `CScriptNum::set_vch`. -/
def set_vch (vch : List UInt8) : Int64 :=
  match vch.getLast? with
  | none => 0
  | some back =>
    let result := setVchLoop 0 0 vch
    if back &&& 0x80 ≠ 0 then -(result &&& ~~~(0x80 <<< UInt64.ofNat (8 * (vch.length - 1)))).toInt64
    else result.toInt64

/-- The bytes are more than the number needs. -/
def nonMinimal (vch : List UInt8) : Bool :=
  match vch.getLast? with
  | none => false
  | some back =>
    back &&& 0x7f = 0 ∧ (vch.length ≤ 1 ∨ vch[vch.length - 2]?.getD 0 &&& 0x80 = 0)

/-- The constructor from the bytes of a script. -/
def ofVch (vch : List UInt8) (fRequireMinimal : Bool) : Except String CScriptNum :=
  if vch.length > nMaxNumSize then .error "script number overflow"
  else if fRequireMinimal && nonMinimal vch then .error "non-minimally encoded script number"
  else .ok ⟨set_vch vch⟩

/-- The loop of `serialize`. -/
def absBytes (absvalue : UInt64) : List UInt8 :=
  if absvalue = 0 then [] else absvalue.toUInt8 :: absBytes (absvalue >>> 8)
termination_by absvalue.toNat
decreasing_by
  rename_i hne
  have hpos : 0 < absvalue.toNat := Nat.pos_of_ne_zero fun h => hne (UInt64.toNat_inj.1 h)
  rw [UInt64.toNat_shiftRight]
  change absvalue.toNat >>> 8 < _
  rw [Nat.shiftRight_eq_div_pow]
  omega

/-- `CScriptNum::serialize`. The negation of the least integer wraps around. -/
def serialize (value : Int64) : List UInt8 :=
  if value = 0 then []
  else
    let neg := value < 0
    let result := absBytes (if neg then -value else value).toUInt64
    match result.getLast? with
    | none => []
    | some back =>
      if back &&& 0x80 ≠ 0 then result ++ [if neg then 0x80 else 0]
      else if neg then result.dropLast ++ [back ||| 0x80]
      else result

/-- `CScriptNum::getvch`. -/
def getvch (x : CScriptNum) : List UInt8 := serialize x.m_value

/-! ### Arithmetic -/

/-- Unary `-`, which is `none` when its assertion fires. -/
def neg (x : CScriptNum) : Option CScriptNum := if x.m_value ≠ Int64.minValue then some ⟨-x.m_value⟩ else none

/-- `+=`, which is `none` when its assertion fires. -/
def addAssign (x rhs : CScriptNum) : Option CScriptNum :=
  if rhs.m_value = 0 ∨ (rhs.m_value > 0 ∧ x.m_value ≤ Int64.maxValue - rhs.m_value) ∨
      (rhs.m_value < 0 ∧ x.m_value ≥ Int64.minValue - rhs.m_value) then some ⟨x.m_value + rhs.m_value⟩
  else none

/-- `-=`, which is `none` when its assertion fires. -/
def subAssign (x rhs : CScriptNum) : Option CScriptNum :=
  if rhs.m_value = 0 ∨ (rhs.m_value > 0 ∧ x.m_value ≥ Int64.minValue + rhs.m_value) ∨
      (rhs.m_value < 0 ∧ x.m_value ≤ Int64.maxValue + rhs.m_value) then some ⟨x.m_value - rhs.m_value⟩
  else none

/-- Binary `+`, without an assertion. -/
def add (x rhs : CScriptNum) : CScriptNum := ⟨x.m_value + rhs.m_value⟩

/-- Binary `-`, without an assertion. -/
def sub (x rhs : CScriptNum) : CScriptNum := ⟨x.m_value - rhs.m_value⟩

/-- Two numbers, and what one operation makes of them. -/
def results (a b : CScriptNum) : List CScriptNum :=
  [a, b, a.add b, a.sub b] ++ a.neg.toList ++ (a.addAssign b).toList ++ (a.subAssign b).toList

end CScriptNum

/-! ### Writing -/

theorem beValue_topBytes {i : ℕ} (hi : i ≤ 8) (n : UInt64) : beValue (topBytes i n) = n.toNat / 2 ^ (64 - 8 * i) := by
  induction i generalizing n with
  | zero => exact (Nat.div_eq_of_lt n.toNat_lt).symm
  | succ i ih =>
    have hlt := n.toNat_lt
    have hlen : ∀ (i : ℕ) (n : UInt64), (topBytes i n).length = i := fun i => by
      induction i with
      | zero => exact fun _ => rfl
      | succ i ih => exact fun n => congrArg (· + 1) (ih _)
    have htop : (n >>> 56).toUInt8.toNat = n.toNat / 2 ^ 56 := by
      rw [UInt64.toNat_toUInt8, UInt64.toNat_shiftRight]
      change n.toNat >>> 56 % 256 = _
      rw [Nat.shiftRight_eq_div_pow]
      omega
    have hrest : (n <<< 8).toNat = n.toNat % 2 ^ 56 * 2 ^ 8 := by
      rw [UInt64.toNat_shiftLeft]
      change n.toNat <<< 8 % 2 ^ 64 = _
      rw [Nat.shiftLeft_eq]
      omega
    have hpow : (256 : ℕ) ^ i * 2 ^ (56 - 8 * i) = 2 ^ 56 := by
      rw [show (256 : ℕ) = 2 ^ 8 by norm_num, ← pow_mul, ← pow_add, show 8 * i + (56 - 8 * i) = 56 by omega]
    have hsplit : n.toNat = 2 ^ (56 - 8 * i) * (n.toNat / 2 ^ 56 * 256 ^ i) + n.toNat % 2 ^ 56 := by
      calc n.toNat = n.toNat / 2 ^ 56 * 2 ^ 56 + n.toNat % 2 ^ 56 := (Nat.div_add_mod' _ _).symm
        _ = _ := by rw [← hpow]; ring
    rw [topBytes, beValue_cons, hlen, htop, ih (by omega), hrest, show 64 - 8 * i = 56 - 8 * i + 8 by omega, pow_add,
      Nat.mul_div_mul_right _ _ (by norm_num), show 64 - 8 * (i + 1) = 56 - 8 * i by omega]
    conv_rhs => rw [hsplit]
    rw [Nat.mul_add_div (by positivity)]

theorem beValue_topBytes_eight (n : UInt64) : beValue (topBytes 8 n) = n.toNat := by
  rw [beValue_topBytes le_rfl]
  exact Nat.div_one _

theorem toInt_eq (n : Int64) :
    n.toInt = if n.toUInt64.toNat < 2 ^ 63 then (n.toUInt64.toNat : ℤ) else n.toUInt64.toNat - 2 ^ 64 := by
  have hcond := BitVec.toInt_eq_toNat_cond n.toBitVec
  rw [Int64.toNat_toBitVec] at hcond
  change n.toInt = _ at hcond
  rw [hcond]
  split <;> split <;> omega

theorem lt_zero_iff (n : Int64) : n < 0 ↔ 2 ^ 63 ≤ n.toUInt64.toNat := by
  have hlt := n.toUInt64.toNat_lt
  have hint := toInt_eq n
  rw [Int64.lt_iff_toInt_lt, Int64.toInt_zero]
  split at hint <;> omega

theorem toNat_neg_toUInt64 (n : Int64) :
    (-n).toUInt64.toNat = (18446744073709551616 - n.toUInt64.toNat) % 18446744073709551616 := by
  rw [Int64.toUInt64_neg, UInt64.toNat_neg]

/-- `setint64` is exact. -/
theorem setint64_eq (n : Int64) : setint64 n = n.toInt := by
  have hlt := n.toUInt64.toNat_lt
  have hint := toInt_eq n
  rw [setint64]
  by_cases h : n < 0
  · have hneg := (lt_zero_iff n).1 h
    have hmag : ((-(n + 1)).toUInt64 + 1).toNat = 18446744073709551616 - n.toUInt64.toNat := by
      have hone : (1 : Int64).toUInt64 = 1 := rfl
      have honeNat : (1 : UInt64).toNat = 1 := rfl
      rw [UInt64.toNat_add, toNat_neg_toUInt64, Int64.toUInt64_add, UInt64.toNat_add, hone, honeNat]
      omega
    rw [if_pos h, mpi2bn_mpiBytes, if_pos rfl, beValue_topBytes_eight, hmag, hint, if_neg (by omega)]
    omega
  · have hpos := mt (lt_zero_iff n).2 h
    rw [if_neg h, mpi2bn_mpiBytes, if_neg Bool.false_ne_true, beValue_topBytes_eight, hint, if_pos (by omega)]

theorem ofLong_eq (n : Int64) : ofLong n = n.toInt := by
  rw [ofLong]
  split
  · next h =>
    have hpos : ¬ n < 0 := by
      rw [Int64.lt_iff_toInt_lt]
      rw [Int64.le_iff_toInt_le] at h
      omega
    have hsmall := mt (lt_zero_iff n).2 hpos
    rw [toInt_eq n, if_pos (by omega)]
  · exact setint64_eq n

/-- What the loops of the big number write has no superfluous byte. -/
theorem isMinimal_mpiBytes (fNegative : Bool) (bytes : List UInt8) : IsMinimal (mpiBytes fNegative bytes) := by
  induction bytes with
  | nil => trivial
  | cons c bytes ih =>
    rw [mpiBytes]
    by_cases hzero : c = 0
    · rwa [if_pos hzero]
    rw [if_neg hzero]
    by_cases hc : c.toNat < 128
    · rw [if_neg (not_not_intro ((and_top c).2 hc))]
      intro hlow
      have hpos : c.toNat ≠ 0 := fun h => hzero (UInt8.toNat_inj.1 h)
      have hmod := congrArg UInt8.toNat hlow
      rw [toNat_and_low, UInt8.toNat_zero] at hmod
      cases fNegative
      · rw [if_neg Bool.false_ne_true] at hmod
        omega
      · rw [if_pos rfl, toNat_or_top hc] at hmod
        omega
    · have htop : c &&& 0x80 ≠ 0 := fun h => hc ((and_top c).1 h)
      rw [if_pos htop]
      exact fun _ => ⟨c, rfl, htop⟩

namespace CScriptNum

theorem absBytes_spec (absvalue : UInt64) :
    ofBytes (absBytes absvalue) = absvalue.toNat ∧ ∀ c ∈ (absBytes absvalue).getLast?, c ≠ 0 := by
  induction absvalue using absBytes.induct with
  | case1 =>
    rw [absBytes, if_pos rfl]
    exact ⟨rfl, fun c hc => by cases hc⟩
  | case2 absvalue hne ih =>
    have hrest : (absvalue >>> 8).toNat = absvalue.toNat / 256 := by
      rw [UInt64.toNat_shiftRight]
      exact Nat.shiftRight_eq_div_pow _ _
    rw [absBytes, if_neg hne]
    refine ⟨?_, fun c hc => ?_⟩
    · change absvalue.toUInt8.toNat + 256 * ofBytes (absBytes (absvalue >>> 8)) = _
      rw [ih.1, hrest, UInt64.toNat_toUInt8]
      omega
    · by_cases hlast : absvalue >>> 8 = 0
      · rw [hlast, absBytes, if_pos rfl] at hc
        rw [List.getLast?_singleton, Option.mem_some_iff] at hc
        subst hc
        intro hzero
        have hlow := congrArg UInt8.toNat hzero
        have hhigh := congrArg UInt64.toNat hlast
        rw [UInt64.toNat_toUInt8, UInt8.toNat_zero] at hlow
        rw [hrest, UInt64.toNat_zero] at hhigh
        exact hne (UInt64.toNat_inj.1 (by rw [UInt64.toNat_zero]; omega))
      · refine ih.2 c ?_
        rw [absBytes, if_neg hlast] at hc ⊢
        rwa [List.getLast?_cons_cons] at hc

/-- `serialize` writes what the loop of the big number writes, the other way round. -/
theorem serialize_eq (value : Int64) :
    serialize value =
      (mpiBytes (decide (value < 0)) (absBytes (if value < 0 then -value else value).toUInt64).reverse).reverse := by
  rw [serialize]
  have hspec := absBytes_spec (if value < 0 then -value else value).toUInt64
  by_cases hzero : value = 0
  · subst hzero
    rw [if_pos rfl, if_neg (by decide), show (0 : Int64).toUInt64 = 0 from rfl, absBytes, if_pos rfl]
    rfl
  simp only [if_neg hzero]
  generalize absBytes (if value < 0 then -value else value).toUInt64 = result at hspec ⊢
  rcases List.eq_nil_or_concat result with rfl | ⟨front, back, rfl⟩
  · rfl
  have hback : back ≠ 0 := hspec.2 back (by simp)
  simp only [List.concat_eq_append, List.getLast?_append, List.getLast?_singleton, Option.some_or, List.dropLast_concat,
    List.reverse_append, List.reverse_singleton, List.singleton_append, mpiBytes, if_neg hback, decide_eq_true_eq]
  split
  · simp
  · split <;> simp

/-- The two formats write the same bytes. -/
theorem serialize_eq_getvch (value : Int64) : serialize value = PayDayCoin.getvch value.toInt := by
  have hmag : (if value < 0 then -value else value).toUInt64.toNat = value.toInt.natAbs := by
    have hlt := value.toUInt64.toNat_lt
    have hint := toInt_eq value
    have hnegNat := toNat_neg_toUInt64 value
    by_cases hneg : value < 0
    · have hhigh := (lt_zero_iff value).1 hneg
      rw [if_neg (by omega)] at hint
      rw [if_pos hneg]
      omega
    · have hlow := mt (lt_zero_iff value).2 hneg
      rw [if_pos (by omega)] at hint
      rw [if_neg hneg]
      omega
  have hset : setvch (serialize value) = value.toInt := by
    rw [serialize_eq, setvch, List.reverse_reverse, mpi2bn_mpiBytes, beValue, List.reverse_reverse, (absBytes_spec _).1,
      hmag]
    simp only [decide_eq_true_eq, Int64.lt_iff_toInt_lt, Int64.toInt_zero]
    split <;> omega
  have hmin : IsMinimal (serialize value).reverse := by
    rw [serialize_eq, List.reverse_reverse]
    exact isMinimal_mpiBytes _ _
  rw [← hset, (getvch_setvch_iff _).2 hmin]

/-! ### Reading -/

theorem toNat_setVchLoop {i : ℕ} {result : UInt64} {vch : List UInt8} (hi : i + vch.length ≤ 8)
    (hlt : result.toNat < 2 ^ (8 * i)) : (setVchLoop i result vch).toNat = result.toNat + 2 ^ (8 * i) * ofBytes vch := by
  induction vch generalizing i result with
  | nil => rfl
  | cons b vch ih =>
    rw [List.length_cons] at hi
    have hb := b.toNat_lt
    have hshift : (b.toUInt64 <<< UInt64.ofNat (8 * i)).toNat = 2 ^ (8 * i) * b.toNat := by
      have hsmall : b.toNat * 2 ^ (8 * i) < 2 ^ 64 := by
        calc b.toNat * 2 ^ (8 * i) < 2 ^ 8 * 2 ^ (8 * i) := Nat.mul_lt_mul_of_pos_right hb (by positivity)
          _ = 2 ^ (8 + 8 * i) := (pow_add _ _ _).symm
          _ ≤ 2 ^ 64 := Nat.pow_le_pow_right (by norm_num) (by omega)
      rw [UInt64.toNat_shiftLeft, UInt64.toNat_ofNat', Nat.mod_eq_of_lt (a := 8 * i) (by omega),
        Nat.mod_eq_of_lt (a := 8 * i) (by omega), UInt8.toNat_toUInt64, Nat.shiftLeft_eq, Nat.mod_eq_of_lt hsmall, mul_comm]
    have hor : (result ||| b.toUInt64 <<< UInt64.ofNat (8 * i)).toNat = result.toNat + 2 ^ (8 * i) * b.toNat := by
      rw [UInt64.toNat_or, hshift, Nat.or_comm, ← Nat.two_pow_add_eq_or_of_lt hlt, Nat.add_comm]
    have hnext : result.toNat + 2 ^ (8 * i) * b.toNat < 2 ^ (8 * (i + 1)) := by
      rw [Nat.mul_succ, pow_add]
      have := Nat.mul_le_mul_left (2 ^ (8 * i)) (Nat.le_of_lt_succ hb : b.toNat ≤ 255)
      omega
    rw [setVchLoop, ih (by omega) (by rwa [hor]), hor, show ofBytes (b :: vch) = b.toNat + 256 * ofBytes vch from rfl,
      Nat.mul_succ, pow_add]
    ring

/-- The mask of `set_vch` takes the sign off. -/
theorem toNat_clear_sign {x : UInt64} {s m : ℕ} (hs : s < 8) (hm : m < 2 ^ (8 * s + 7))
    (hx : x.toNat = 2 ^ (8 * s + 7) + m) : (x &&& ~~~(0x80 <<< UInt64.ofNat (8 * s))).toNat = m := by
  have hbit : ((0x80 : UInt64) <<< UInt64.ofNat (8 * s)).toNat = 2 ^ (8 * s + 7) := by
    have hsmall : 2 ^ (8 * s + 7) < 2 ^ 64 := Nat.pow_lt_pow_right (by norm_num) (by omega)
    rw [UInt64.toNat_shiftLeft, UInt64.toNat_ofNat', Nat.mod_eq_of_lt (a := 8 * s) (by omega),
      Nat.mod_eq_of_lt (a := 8 * s) (by omega), Nat.shiftLeft_eq]
    change 2 ^ 7 * 2 ^ (8 * s) % 2 ^ 64 = _
    rw [← pow_add, Nat.add_comm, Nat.mod_eq_of_lt hsmall]
  have hmask : UInt64.size - 1 - 2 ^ (8 * s + 7) = 2 ^ 64 - (2 ^ (8 * s + 7) + 1) := by
    rw [Nat.sub_sub, Nat.add_comm]
    rfl
  have hsmall : 2 ^ (8 * s + 7) < 2 ^ 64 := Nat.pow_lt_pow_right (by norm_num) (by omega)
  rw [UInt64.toNat_and, UInt64.toNat_not, hbit, hx, hmask]
  refine Nat.eq_of_testBit_eq fun i => ?_
  rw [Nat.testBit_and, Nat.testBit_two_pow_sub_succ hsmall, Nat.testBit_two_pow]
  rcases Nat.lt_trichotomy i (8 * s + 7) with hi | hi | hi
  · rw [Nat.testBit_two_pow_add_gt hi, decide_eq_true (by omega : i < 64), decide_eq_false (by omega)]
    simp
  · rw [hi, Nat.testBit_lt_two_pow hm]
    simp
  · have hpow : 2 ^ (8 * s + 7 + 1) ≤ 2 ^ i := Nat.pow_le_pow_right (by norm_num) hi
    rw [pow_succ] at hpow
    rw [Nat.testBit_lt_two_pow (by omega), Nat.testBit_lt_two_pow (by omega : m < 2 ^ i)]
    simp

theorem toInt_toInt64_of_lt {u : UInt64} (hu : u.toNat < 2 ^ 63) : u.toInt64.toInt = u.toNat := by
  rw [toInt_eq, UInt64.toUInt64_toInt64, if_pos hu]

theorem toInt_neg_of_bounds {n : Int64} (h : -2 ^ 62 < n.toInt ∧ n.toInt < 2 ^ 62) : (-n).toInt = -n.toInt := by
  rw [Int64.toInt_neg, Int.bmod_eq_of_le (by omega) (by omega)]

/-- Four bytes are read as the big number reads them. -/
theorem toInt_set_vch {vch : List UInt8} (hlen : vch.length ≤ 4) : (set_vch vch).toInt = setvch vch := by
  rcases List.eq_nil_or_concat vch with rfl | ⟨front, back, rfl⟩
  · rfl
  rw [List.concat_eq_append] at hlen ⊢
  rw [List.length_append, List.length_singleton] at hlen
  have hb := back.toNat_lt
  have hlow : ofBytes front < 2 ^ (8 * front.length) := by
    rw [pow_mul]
    exact ofBytes_lt front
  have hbytes : ofBytes (front ++ [back]) = ofBytes front + 2 ^ (8 * front.length) * back.toNat := by
    rw [ofBytes_append, pow_mul]
    rfl
  have hloop : (setVchLoop 0 0 (front ++ [back])).toNat = ofBytes front + 2 ^ (8 * front.length) * back.toNat := by
    rw [toNat_setVchLoop (by simp; omega) (by decide), hbytes]
    simp
  have hpow : 2 ^ (8 * front.length) ≤ 2 ^ 24 := Nat.pow_le_pow_right (by norm_num) (by omega)
  rw [set_vch, setvch, List.getLast?_append, List.getLast?_singleton, Option.some_or, List.reverse_append,
    List.reverse_singleton, List.singleton_append, mpi2bn_cons, List.length_reverse, beValue, List.reverse_reverse,
    show (256 : ℕ) ^ front.length = 2 ^ (8 * front.length) from (pow_mul 2 8 _).symm]
  generalize setVchLoop 0 0 (front ++ [back]) = result at hloop
  by_cases hc : back.toNat < 128
  · have hmul := Nat.mul_le_mul hpow (Nat.le_of_lt_succ hc : back.toNat ≤ 127)
    simp only [if_neg (not_not_intro ((and_top back).2 hc)), if_pos hc]
    rw [toInt_toInt64_of_lt (by omega), hloop]
    push_cast
    ring
  · have htop : back &&& 0x80 ≠ 0 := fun h => hc ((and_top back).1 h)
    obtain ⟨d, hd⟩ : ∃ d, back.toNat = 128 + d := ⟨back.toNat - 128, by omega⟩
    have hmul := Nat.mul_le_mul_left (2 ^ (8 * front.length)) (by omega : d ≤ 127)
    have hm : ofBytes front + 2 ^ (8 * front.length) * d < 2 ^ (8 * front.length + 7) := by
      rw [pow_add]
      omega
    have hclear := toNat_clear_sign (x := result) (s := front.length) (by omega) hm
      (by rw [hloop, hd, pow_add]; ring)
    simp only [if_pos htop, if_neg hc, List.length_append, List.length_singleton, Nat.add_sub_cancel]
    have hvalue := toInt_toInt64_of_lt (u := result &&& ~~~(0x80 <<< UInt64.ofNat (8 * front.length))) (by
      rw [hclear]
      omega)
    rw [toInt_neg_of_bounds (by rw [hvalue, hclear]; omega), hvalue, hclear, hd, Nat.add_sub_cancel_left]
    push_cast
    ring

/-- The test of the strict reading. -/
theorem nonMinimal_iff (vch : List UInt8) : nonMinimal vch = true ↔ ¬ IsMinimal vch.reverse := by
  rcases List.eq_nil_or_concat vch with rfl | ⟨front, back, rfl⟩
  · exact iff_of_false Bool.false_ne_true (not_not_intro trivial)
  rw [List.concat_eq_append, nonMinimal, List.getLast?_append, List.getLast?_singleton, Option.some_or,
    List.reverse_append, List.reverse_singleton, List.singleton_append, IsMinimal, List.head?_reverse]
  simp only [decide_eq_true_eq, Classical.not_imp, List.length_append, List.length_singleton]
  refine and_congr_right fun _ => ?_
  rcases List.eq_nil_or_concat front with rfl | ⟨front, second, rfl⟩
  · simp
  · simp

theorem ofVch_false {vch : List UInt8} (hlen : vch.length ≤ 4) : ofVch vch false = .ok ⟨set_vch vch⟩ := by
  rw [ofVch, nMaxNumSize, if_neg (Nat.not_lt.2 hlen), if_neg (by simp)]

theorem ofVch_true {vch : List UInt8} (hlen : vch.length ≤ 4) (hmin : IsMinimal vch.reverse) :
    ofVch vch true = .ok ⟨set_vch vch⟩ := by
  have hnon : nonMinimal vch ≠ true := mt (nonMinimal_iff vch).1 (not_not_intro hmin)
  rw [ofVch, nMaxNumSize, if_neg (Nat.not_lt.2 hlen), if_neg (by simpa using hnon)]

/-- The strict reading takes the bytes that are written. -/
theorem ofVch_true_isOk_iff (vch : List UInt8) :
    (∃ x, ofVch vch true = .ok x) ↔ vch.length ≤ 4 ∧ ∃ n : ℤ, PayDayCoin.getvch n = vch := by
  constructor
  · rintro ⟨x, hx⟩
    rw [ofVch] at hx
    split at hx
    · cases hx
    next hlen =>
    split at hx
    · cases hx
    next hmin =>
    rw [Bool.true_and, nonMinimal_iff, not_not] at hmin
    exact ⟨Nat.not_lt.1 hlen, setvch vch, (getvch_setvch_iff vch).2 hmin⟩
  · rintro ⟨hlen, n, rfl⟩
    have hmin := (getvch_setvch_iff (PayDayCoin.getvch n)).1 (by rw [setvch_getvch])
    exact ⟨_, ofVch_true hlen hmin⟩

/-! ### Arithmetic -/

/-- A number read off a script has 31 bits and a sign. -/
theorem natAbs_of_ofVch {vch : List UInt8} {fRequireMinimal : Bool} {x : CScriptNum}
    (h : ofVch vch fRequireMinimal = .ok x) : x.m_value.toInt.natAbs < 2 ^ 31 := by
  rw [ofVch] at h
  split at h
  · cases h
  next hlen =>
  split at h
  · cases h
  cases h
  rw [toInt_set_vch (Nat.not_lt.1 hlen), setvch]
  have hlen : vch.reverse.length ≤ 4 := by
    rw [List.length_reverse]
    exact Nat.not_lt.1 hlen
  generalize vch.reverse = bytes at hlen ⊢
  rcases bytes with _ | ⟨c, rest⟩
  · exact Nat.two_pow_pos 31
  rw [List.length_cons] at hlen
  have hlow := beValue_lt rest
  have hpow : 256 ^ rest.length ≤ 256 ^ 3 := Nat.pow_le_pow_right (by norm_num) (by omega)
  have hhigh := Nat.mul_le_mul_right (256 ^ rest.length) (by omega : c.toNat % 128 ≤ 127)
  rw [natAbs_mpi2bn]
  omega

/-- No assertion fires on small numbers, and no operation wraps around. -/
theorem exact_of_small {x y : CScriptNum} (hx : x.m_value.toInt.natAbs < 2 ^ 40) (hy : y.m_value.toInt.natAbs < 2 ^ 40) :
    x.neg = some ⟨-x.m_value⟩ ∧ x.addAssign y = some (x.add y) ∧ x.subAssign y = some (x.sub y) ∧
      (-x.m_value).toInt = -x.m_value.toInt ∧ (x.add y).m_value.toInt = x.m_value.toInt + y.m_value.toInt ∧
      (x.sub y).m_value.toInt = x.m_value.toInt - y.m_value.toInt := by
  have hmin : Int64.minValue.toInt = -2 ^ 63 := rfl
  have hmax : Int64.maxValue.toInt = 2 ^ 63 - 1 := rfl
  have hzero : (0 : Int64).toInt = 0 := rfl
  refine ⟨?_, ?_, ?_, toInt_neg_of_bounds (by omega), ?_, ?_⟩
  · rw [neg, if_pos]
    intro h
    rw [h] at hx
    omega
  · rw [addAssign, if_pos]
    · rfl
    simp only [← Int64.toInt_inj, gt_iff_lt, ge_iff_le, Int64.lt_iff_toInt_lt, Int64.le_iff_toInt_le, Int64.toInt_sub, hmin,
      hmax, hzero]
    rcases Int.lt_trichotomy y.m_value.toInt 0 with hlt | heq | hgt
    · refine .inr (.inr ⟨hlt, ?_⟩)
      rw [Int.bmod_eq_of_le (by omega) (by omega)]
      omega
    · exact .inl heq
    · refine .inr (.inl ⟨hgt, ?_⟩)
      rw [Int.bmod_eq_of_le (by omega) (by omega)]
      omega
  · rw [subAssign, if_pos]
    · rfl
    simp only [← Int64.toInt_inj, gt_iff_lt, ge_iff_le, Int64.lt_iff_toInt_lt, Int64.le_iff_toInt_le, Int64.toInt_add, hmin,
      hmax, hzero]
    rcases Int.lt_trichotomy y.m_value.toInt 0 with hlt | heq | hgt
    · refine .inr (.inr ⟨hlt, ?_⟩)
      rw [Int.bmod_eq_of_le (by omega) (by omega)]
      omega
    · exact .inl heq
    · refine .inr (.inl ⟨hgt, ?_⟩)
      rw [Int.bmod_eq_of_le (by omega) (by omega)]
      omega
  · rw [add, Int64.toInt_add, Int.bmod_eq_of_le (by omega) (by omega)]
  · rw [sub, Int64.toInt_sub, Int.bmod_eq_of_le (by omega) (by omega)]

theorem natAbs_of_mem_results {a b x : CScriptNum} (ha : a.m_value.toInt.natAbs < 2 ^ 31)
    (hb : b.m_value.toInt.natAbs < 2 ^ 31) (hx : x ∈ results a b) : x.m_value.toInt.natAbs < 2 ^ 40 := by
  obtain ⟨hneg, hadd, hsub, hnegInt, haddInt, hsubInt⟩ :=
    exact_of_small (x := a) (y := b) (by omega) (by omega)
  rw [results, hneg, hadd, hsub] at hx
  simp only [Option.toList_some, List.cons_append, List.nil_append, List.mem_cons, List.not_mem_nil, or_false] at hx
  rcases hx with rfl | rfl | rfl | rfl | rfl | rfl | rfl <;> try simp only [haddInt, hsubInt, hnegInt]
  all_goals omega

/-- **Two formats, one number**: four bytes are read as the same integer, every 64-bit integer is written as the same
bytes, the strict reading takes the bytes of an integer and nothing else, an integer of four bytes is read back, and on
what operations make of two such numbers every operation is exact. -/
theorem formats_agree (v w : List UInt8) (n : Int64) (fRequireMinimal fRequireMinimal' : Bool) :
    (v.length ≤ 4 → ∃ x, ofVch v false = .ok x ∧ x.m_value.toInt = setvch v) ∧
      (getvch ⟨n⟩ = PayDayCoin.getvch (setint64 n) ∧ getvch ⟨n⟩ = PayDayCoin.getvch (ofLong n)) ∧
      ((∃ x, ofVch v true = .ok x) ↔ v.length ≤ 4 ∧ ∃ k : ℤ, PayDayCoin.getvch k = v) ∧
      ((getvch ⟨n⟩).length ≤ 4 → ofVch (getvch ⟨n⟩) fRequireMinimal = .ok ⟨n⟩ ∧ setvch (getvch ⟨n⟩) = n.toInt) ∧
      ∀ a b, ofVch v fRequireMinimal = .ok a → ofVch w fRequireMinimal' = .ok b → ∀ x ∈ results a b, ∀ y ∈ results a b,
        x.neg = some ⟨-x.m_value⟩ ∧ x.addAssign y = some (x.add y) ∧ x.subAssign y = some (x.sub y) ∧
          (-x.m_value).toInt = -x.m_value.toInt ∧ (x.add y).m_value.toInt = x.m_value.toInt + y.m_value.toInt ∧
          (x.sub y).m_value.toInt = x.m_value.toInt - y.m_value.toInt := by
  refine ⟨fun hlen => ⟨_, ofVch_false hlen, toInt_set_vch hlen⟩, ⟨?_, ?_⟩, ofVch_true_isOk_iff v, fun hlen => ?_,
    fun a b ha hb x hx y hy => ?_⟩
  · rw [setint64_eq]
    exact serialize_eq_getvch n
  · rw [ofLong_eq]
    exact serialize_eq_getvch n
  · have hset : setvch (getvch ⟨n⟩) = n.toInt := by rw [getvch, serialize_eq_getvch, setvch_getvch]
    have hmin : IsMinimal (getvch ⟨n⟩).reverse := by
      rw [← getvch_setvch_iff, hset]
      exact (serialize_eq_getvch n).symm
    have hvalue : set_vch (getvch ⟨n⟩) = n := Int64.toInt_inj.1 (by rw [toInt_set_vch hlen, hset])
    refine ⟨?_, hset⟩
    cases fRequireMinimal
    · rw [ofVch_false hlen, hvalue]
    · rw [ofVch_true hlen hmin, hvalue]
  · exact exact_of_small (natAbs_of_mem_results (natAbs_of_ofVch ha) (natAbs_of_ofVch hb) hx)
      (natAbs_of_mem_results (natAbs_of_ofVch ha) (natAbs_of_ofVch hb) hy)

/-- `-255` and `2` are read off their bytes, and their difference is exact. -/
theorem formats_agree_255 :
    (∃ x, ofVch [0xff, 0x80] false = .ok x ∧ x.m_value.toInt = setvch [0xff, 0x80]) ∧
      (ofVch (getvch ⟨-255⟩) true = .ok ⟨-255⟩ ∧ setvch (getvch ⟨-255⟩) = (-255 : Int64).toInt) ∧
      (sub ⟨-255⟩ ⟨2⟩).m_value.toInt = (-255 : Int64).toInt - (2 : Int64).toInt := by
  obtain ⟨hread, -, -, hback, hexact⟩ := formats_agree [0xff, 0x80] [2] (-255) true false
  have hlen : (getvch ⟨-255⟩).length ≤ 4 := by
    rw [getvch, serialize_eq_getvch]
    decide
  exact ⟨hread (by decide), hback hlen,
    (hexact ⟨-255⟩ ⟨2⟩ (by decide) (by decide) ⟨-255⟩ (by simp [results]) ⟨2⟩ (by simp [results])).2.2.2.2.2⟩

end CScriptNum

end PayDayCoin
