import Mathlib.Data.Nat.Digits.Lemmas
import Mathlib.Tactic.NormNum

/-!
# Big numbers: the script byte format and the compact format

`CBigNum` is OpenSSL's signed integer, here `ℤ`. Two of its formats carry consensus
data: the little-endian sign-and-magnitude bytes that a script push holds (`getvch`),
and the 32-bit floating form of a target in a block header (`setCompact`,
`getCompact`). Both go through OpenSSL's MPI form: the magnitude's bytes, most
significant first, with one more byte when the top bit is taken (`mpiSize`), and the
sign in the top bit.

**`getvch_injOn_nonneg`** is what the height prefix of a coinbase rests on: two
nonnegative numbers with the same bytes are equal.
-/

namespace PayDayCoin

/-- 256-bit hashes. -/
abbrev Uint256 := BitVec 256

/-- Number of data bytes of the MPI form of a magnitude: its bytes, and one more when
the top bit of the first would be taken for the sign. -/
def mpiSize (mag : ℕ) : ℕ := if mag = 0 then 0 else (Nat.log2 mag + 1) / 8 + 1

/-- The `width` low bytes of a magnitude, least significant first. -/
def leBytes (width mag : ℕ) : List UInt8 := (List.range width).map fun i => UInt8.ofNat (mag / 256 ^ i)

/-- A number from its bytes, the lowest first. -/
def ofBytes (bytes : List UInt8) : ℕ := bytes.foldr (fun b n => b.toNat + 256 * n) 0

/-- `CBigNum::getvch`: sign and magnitude, least significant byte first. -/
def getvch (n : ℤ) : List UInt8 :=
  let mag := n.natAbs
  let nSize := mpiSize mag
  leBytes nSize (if n < 0 then mag + 128 * 256 ^ (nSize - 1) else mag)

/-- `CBigNum::SetCompact`: the top byte is the size, the other three are the leading
bytes of the magnitude, with the sign in the top bit. -/
def setCompact (nCompact : UInt32) : ℤ :=
  let nSize := nCompact.toNat / 2 ^ 24
  let word := nCompact.toNat % 2 ^ 23
  let mag : ℕ := if nSize ≤ 3 then word / 256 ^ (3 - nSize) else word * 256 ^ (nSize - 3)
  if nCompact.toNat / 2 ^ 23 % 2 = 1 then -(mag : ℤ) else mag

/-- `CBigNum::GetCompact`. -/
def getCompact (n : ℤ) : UInt32 :=
  let mag := n.natAbs
  let nSize := mpiSize mag
  let word := if nSize ≤ 3 then mag * 256 ^ (3 - nSize) else mag / 256 ^ (nSize - 3)
  UInt32.ofNat (nSize * 2 ^ 24 + word + if n < 0 then 2 ^ 23 else 0)

/-- `CBigNum::getuint256`: the low 256 bits of the magnitude. -/
def getuint256 (n : ℤ) : Uint256 := BitVec.ofNat 256 n.natAbs

/-- `CBigNum::getuint64`: the low 64 bits of the magnitude. -/
def getuint64 (n : ℤ) : UInt64 := UInt64.ofNat n.natAbs

/-! ### Bytes determine a nonnegative number -/

theorem length_leBytes (width mag : ℕ) : (leBytes width mag).length = width := by simp [leBytes]

theorem leBytes_succ (width mag : ℕ) : leBytes (width + 1) mag = UInt8.ofNat mag :: leBytes width (mag / 256) := by
  rw [leBytes, List.range_succ_eq_map, List.map_cons, List.map_map, leBytes]
  congr 1
  · simp
  · refine List.map_congr_left fun i _ => ?_
    simp only [Function.comp, Nat.pow_succ', Nat.div_div_eq_div_mul]

theorem leBytes_inj {width : ℕ} : ∀ {a b : ℕ}, a < 256 ^ width → b < 256 ^ width →
    leBytes width a = leBytes width b → a = b := by
  induction width with
  | zero => intro a b ha hb _; simp only [pow_zero, Nat.lt_one_iff] at ha hb; rw [ha, hb]
  | succ width ih =>
    intro a b ha hb h
    rw [leBytes_succ, leBytes_succ, List.cons.injEq] at h
    have hlow : a % 256 = b % 256 := by
      have := congrArg UInt8.toNat h.1
      simpa using this
    have hhigh : a / 256 = b / 256 := by
      refine ih ?_ ?_ h.2 <;> rw [Nat.div_lt_iff_lt_mul (by norm_num)] <;> rwa [← pow_succ]
    rw [← Nat.div_add_mod a 256, ← Nat.div_add_mod b 256, hlow, hhigh]

theorem ofBytes_leBytes {width n : ℕ} (h : n < 256 ^ width) : ofBytes (leBytes width n) = n := by
  induction width generalizing n with
  | zero =>
    rw [pow_zero] at h
    have hn : n = 0 := by omega
    rw [hn]
    rfl
  | succ width ih =>
    rw [pow_succ] at h
    have hrest := ih (show n / 256 < 256 ^ width by omega)
    rw [leBytes_succ, ofBytes, List.foldr_cons]
    change (UInt8.ofNat n).toNat + 256 * ofBytes (leBytes width (n / 256)) = n
    rw [hrest, UInt8.toNat_ofNat']
    omega

theorem ofBytes_lt (bytes : List UInt8) : ofBytes bytes < 256 ^ bytes.length := by
  induction bytes with
  | nil => simp [ofBytes]
  | cons b bytes ih =>
    have hb := b.toNat_lt
    rw [List.length_cons, pow_succ]
    change b.toNat + 256 * ofBytes bytes < _
    omega

theorem leBytes_ofBytes (bytes : List UInt8) : leBytes bytes.length (ofBytes bytes) = bytes := by
  induction bytes with
  | nil => rfl
  | cons b bytes ih =>
    have hb := b.toNat_lt
    rw [List.length_cons, leBytes_succ]
    change UInt8.ofNat (b.toNat + 256 * ofBytes bytes) :: leBytes _ ((b.toNat + 256 * ofBytes bytes) / 256) = _
    rw [show (b.toNat + 256 * ofBytes bytes) / 256 = ofBytes bytes by omega, ih]
    congr 1
    exact UInt8.toNat_inj.1 (by rw [UInt8.toNat_ofNat']; omega)

theorem lt_pow_mpiSize (mag : ℕ) : mag < 256 ^ mpiSize mag := by
  rw [mpiSize]
  split
  · next h => simp [h]
  · next h =>
    have hlog : mag < 2 ^ (Nat.log2 mag + 1) := Nat.lt_log2_self
    refine hlog.trans_le ?_
    rw [show 256 = 2 ^ 8 by norm_num, ← pow_mul]
    exact Nat.pow_le_pow_right (by norm_num) (by omega)

theorem getvch_of_nonneg (n : ℕ) : getvch n = leBytes (mpiSize n) n := by
  simp only [getvch, Int.natAbs_natCast]
  rw [if_neg (by omega)]

/-- Two nonnegative numbers with the same script bytes are equal. -/
theorem getvch_injOn_nonneg {m n : ℕ} (h : getvch m = getvch n) : m = n := by
  rw [getvch_of_nonneg, getvch_of_nonneg] at h
  have hsize : mpiSize m = mpiSize n := by
    have := congrArg List.length h
    rwa [length_leBytes, length_leBytes] at this
  rw [hsize] at h
  exact leBytes_inj (hsize ▸ lt_pow_mpiSize m) (lt_pow_mpiSize n) h

end PayDayCoin
