import PayDayCoin.Library.Numerals
import Mathlib.Algebra.Order.Ring.Int
import Mathlib.Tactic.Ring

/-!
# Integers of variable length

`WriteVarInt` writes an integer as base-128 digits with the highest first, and all but the last have their top bit
set; `ReadVarInt` reads them back into an integer type, and what does not fit wraps around. The loops are compared
with numerals of base 128 in which no number is written in two ways.

**`readVarInt_eq_some`** says exactly what is read: the bytes of one number and no more, brought into the type. Hence
two inputs can be read as one value, if the numbers behind them agree modulo the size of the type.
**`varInt_roundTrip`**: an integer of the type is read back exactly when it is not negative, the buffer that digits are
collected in is never too small, and `GetSizeOfVarInt` counts the bytes.
-/

namespace PayDayCoin

open Library.Codecs Library.Numerals

/-- A type of integers: its `sizeof`, and whether it has negative values. -/
structure IntType where
  sizeof : ℕ
  sizeof_pos : 0 < sizeof
  signed : Bool

namespace IntType

/-- `unsigned int`. -/
def unsignedInt : IntType := ⟨4, by decide, false⟩

/-- `int64_t`. -/
def int64 : IntType := ⟨8, by decide, true⟩

/-- The number of its values. -/
def modulus (I : IntType) : ℕ := 2 ^ (I.sizeof * 8)

/-- An integer brought into the type. -/
def cast (I : IntType) (n : ℤ) : ℤ := if I.signed then n.bmod I.modulus else n % I.modulus

/-- The integer is a value of the type. -/
def Holds (I : IntType) (n : ℤ) : Prop := I.cast n = n

instance (I : IntType) (n : ℤ) : Decidable (I.Holds n) := inferInstanceAs (Decidable (I.cast n = n))

theorem cast_emod (I : IntType) (n : ℤ) : I.cast n % I.modulus = n % I.modulus := by
  rw [cast]
  split
  · exact Int.bmod_emod
  · exact Int.emod_emod_of_dvd n (dvd_refl _)

theorem cast_eq_cast {I : IntType} {a b : ℤ} (h : a % I.modulus = b % I.modulus) : I.cast a = I.cast b := by
  rw [cast, cast, h, ← Int.emod_bmod a, h, Int.emod_bmod]

theorem holds_cast (I : IntType) (n : ℤ) : I.Holds (I.cast n) := cast_eq_cast (I.cast_emod n)

/-- Digits can be put behind what was brought into the type. -/
theorem cast_mul_add (I : IntType) (n d c : ℤ) : I.cast (I.cast n * d + c) = I.cast (n * d + c) := by
  apply cast_eq_cast
  rw [Int.add_emod, Int.mul_emod, cast_emod, ← Int.mul_emod, ← Int.add_emod]

theorem Holds.lt_modulus {I : IntType} {n : ℤ} (h : I.Holds n) : n < I.modulus := by
  have hpos : 0 < I.modulus := Nat.two_pow_pos _
  rw [← h, cast]
  split
  · have := Int.bmod_lt (x := n) hpos
    omega
  · exact Int.emod_lt_of_pos n (by exact_mod_cast hpos)

end IntType

/-! ### The loops -/

/-- The loop of `GetSizeOfVarInt`. -/
def getSizeOfVarIntLoop (n : ℤ) (nRet : ℕ) : ℕ :=
  if n ≤ 0x7F then nRet + 1 else getSizeOfVarIntLoop (n / 128 - 1) (nRet + 1)
termination_by n.toNat
decreasing_by omega

/-- `GetSizeOfVarInt`. -/
def getSizeOfVarInt (n : ℤ) : ℕ := getSizeOfVarIntLoop n 0

/-- The first loop of `WriteVarInt`, which fills `tmp`; its last byte, the first that is written, stands in front. -/
def writeVarIntLoop (n : ℤ) (tmp : List UInt8) : List UInt8 :=
  let digit := UInt8.ofNat (n % 128).toNat ||| if tmp = [] then 0x00 else 0x80
  if n ≤ 0x7F then digit :: tmp else writeVarIntLoop (n / 128 - 1) (digit :: tmp)
termination_by n.toNat
decreasing_by omega

/-- `WriteVarInt`. -/
def writeVarInt (n : ℤ) : List UInt8 := writeVarIntLoop n []

/-- The loop of `ReadVarInt`. -/
def readVarIntLoop (I : IntType) (n : ℤ) : List UInt8 → Option (ℤ × List UInt8)
  | [] => none
  | chData :: s =>
    let n := I.cast (n * 128 + (chData &&& 0x7F).toNat)
    if chData &&& 0x80 ≠ 0 then readVarIntLoop I (I.cast (n + 1)) s else some (n, s)

/-- `ReadVarInt`. -/
def readVarInt (I : IntType) (s : List UInt8) : Option (ℤ × List UInt8) := readVarIntLoop I 0 s

/-! ### Bytes as digits -/

/-- A byte is a digit of base 128, and whether another follows. -/
def varIntByte : Bool × Fin 128 ≃ UInt8 where
  toFun p := UInt8.ofNat (p.2 + if p.1 then 128 else 0)
  invFun x := (decide (128 ≤ x.toNat), ⟨x.toNat % 128, Nat.mod_lt _ (by decide)⟩)
  left_inv := by
    rintro ⟨c, d, hd⟩
    cases c <;> simp [UInt8.toNat_ofNat'] <;> omega
  right_inv x := by
    have hx := x.toNat_lt
    apply UInt8.toNat_inj.1
    rw [UInt8.toNat_ofNat']
    simp only [decide_eq_true_eq]
    split <;> omega

theorem toNat_and_0x7F (x : UInt8) : (x &&& 0x7F).toNat = x.toNat % 128 := by
  rw [UInt8.toNat_and]
  exact Nat.and_two_pow_sub_one_eq_mod x.toNat 7

theorem and_0x80_ne_zero : ∀ x : UInt8, x &&& 0x80 ≠ 0 ↔ 128 ≤ x.toNat := by
  intro x
  obtain ⟨n, rfl⟩ : ∃ n : Fin 256, x = UInt8.ofNat n := ⟨⟨x.toNat, x.toNat_lt⟩, by simp⟩
  revert n
  decide +kernel

theorem or_0x80_eq (d : Fin 128) : (UInt8.ofNat d ||| 0x80) = varIntByte (true, d) := by
  revert d
  decide

theorem or_0x00_eq (d : Fin 128) : (UInt8.ofNat d ||| 0x00) = varIntByte (false, d) := by
  revert d
  decide

theorem digit_eq (n : ℕ) (tmp : List UInt8) :
    (UInt8.ofNat ((n : ℤ) % 128).toNat ||| if tmp = [] then 0x00 else 0x80) =
      varIntByte (decide (tmp ≠ []), Fin.ofNat 128 n) := by
  have hn : ((n : ℤ) % 128).toNat = (Fin.ofNat 128 n : ℕ) := by
    rw [Fin.val_ofNat]
    omega
  rw [hn]
  by_cases htmp : tmp = []
  · simp only [htmp, if_true, ne_eq, not_true_eq_false, decide_false]
    exact or_0x00_eq _
  · simp only [htmp, if_false, ne_eq, not_false_eq_true, decide_true]
    exact or_0x80_eq _

theorem natCast_div_sub_one {n : ℕ} (h : ¬(n : ℤ) ≤ 0x7F) : (n : ℤ) / 128 - 1 = ((n / 128 - 1 : ℕ) : ℤ) := by omega

theorem writeVarIntLoop_eq (n : ℕ) (tmp : List UInt8) :
    writeVarIntLoop n tmp =
      high varIntByte (n / 128) ++ varIntByte (decide (tmp ≠ []), Fin.ofNat 128 n) :: tmp := by
  induction n using Nat.strongRecOn generalizing tmp with
  | ind n ih =>
    rw [writeVarIntLoop]
    simp only [digit_eq]
    split
    · next hle =>
      rw [Nat.div_eq_of_lt (by omega), high_zero, List.nil_append]
    · next hlt =>
      obtain ⟨m, hm⟩ : ∃ m, n / 128 = m + 1 := ⟨n / 128 - 1, by omega⟩
      rw [natCast_div_sub_one hlt, ih _ (by omega), hm, Nat.add_sub_cancel, high, List.append_assoc]
      simp

/-- A number is written as its numeral. -/
theorem writeVarInt_natCast (n : ℕ) : writeVarInt n = encode varIntByte n := by
  rw [writeVarInt, writeVarIntLoop_eq, encode]
  simp

theorem writeVarInt_of_neg {n : ℤ} (h : n < 0) : writeVarInt n = writeVarInt ((n % 128).toNat : ℕ) := by
  have hle : ((n % 128).toNat : ℤ) ≤ 0x7F := by omega
  have hmod : ((n % 128).toNat : ℤ) % 128 = n % 128 := by omega
  rw [writeVarInt, writeVarIntLoop, if_pos (by omega), writeVarInt, writeVarIntLoop, if_pos hle, hmod]

theorem readVarIntLoop_cast (I : IntType) (m : ℕ) (s : List UInt8) :
    readVarIntLoop I (I.cast m) s = (scan varIntByte m s).map fun p => (I.cast p.1, p.2) := by
  induction s generalizing m with
  | nil => rfl
  | cons x s ih =>
    have hsymm : varIntByte.symm x = (decide (128 ≤ x.toNat), ⟨x.toNat % 128, Nat.mod_lt _ (by decide)⟩) := rfl
    have hsum : I.cast (I.cast m * 128 + (x &&& 0x7F).toNat) = I.cast ((m * 128 + x.toNat % 128 : ℕ) : ℤ) := by
      rw [IntType.cast_mul_add, toNat_and_0x7F]
      push_cast
      rfl
    have hnext : I.cast (I.cast ((m * 128 + x.toNat % 128 : ℕ) : ℤ) + 1) =
        I.cast ((m * 128 + x.toNat % 128 + 1 : ℕ) : ℤ) := by
      simpa using I.cast_mul_add ((m * 128 + x.toNat % 128 : ℕ) : ℤ) 1 1
    rw [readVarIntLoop, scan, hsymm]
    simp only [hsum, hnext, and_0x80_ne_zero, ih, decide_eq_true_eq]
    split <;> rfl

theorem readVarInt_eq_map (I : IntType) (s : List UInt8) :
    readVarInt I s = (scan varIntByte 0 s).map fun p => (I.cast p.1, p.2) := by
  have hzero : I.cast ((0 : ℕ) : ℤ) = 0 := by simp [IntType.cast]
  rw [readVarInt, ← readVarIntLoop_cast, hzero]

theorem getSizeOfVarIntLoop_eq (n : ℤ) (tmp : List UInt8) :
    getSizeOfVarIntLoop n tmp.length = (writeVarIntLoop n tmp).length := by
  induction n, tmp using writeVarIntLoop.induct with
  | case1 n tmp hle =>
    rw [getSizeOfVarIntLoop, writeVarIntLoop, if_pos hle, if_pos hle, List.length_cons]
  | case2 n tmp digit hlt ih =>
    rw [getSizeOfVarIntLoop, writeVarIntLoop, if_neg hlt, if_neg hlt]
    exact ih

theorem length_writeVarInt (n : ℤ) : (writeVarInt n).length = getSizeOfVarInt n :=
  (getSizeOfVarIntLoop_eq n []).symm

/-! ### What is read and what is written -/

theorem readVarInt_writeVarInt (I : IntType) (n : ℕ) (rest : List UInt8) :
    readVarInt I (writeVarInt n ++ rest) = some (I.cast n, rest) := by
  rw [readVarInt_eq_map, writeVarInt_natCast, scan_encode, Option.map_some]

/-- Whatever is read is the bytes of one number, brought into the type. -/
theorem readVarInt_eq_some (I : IntType) (s rest : List UInt8) (v : ℤ) :
    readVarInt I s = some (v, rest) ↔ ∃! n : ℕ, s = writeVarInt n ++ rest ∧ v = I.cast n := by
  constructor
  · intro h
    rw [readVarInt_eq_map, Option.map_eq_some_iff] at h
    obtain ⟨⟨n, t⟩, hread, heq⟩ := h
    obtain ⟨rfl, rfl⟩ := Prod.mk.inj heq
    have hs : s = writeVarInt n ++ t := by
      simpa [writeVarInt_natCast] using high_append_of_scan varIntByte hread
    refine ⟨n, ⟨hs, rfl⟩, fun k hk => ?_⟩
    refine (lawful_codec varIntByte).write_inj trivial trivial (s := t) (t := t) ?_
    simpa [codec, writeVarInt_natCast] using hk.1.symm.trans hs
  · rintro ⟨n, ⟨rfl, rfl⟩, -⟩
    exact readVarInt_writeVarInt I n rest

/-- The buffer of `WriteVarInt` has room for a value of the type. -/
theorem length_writeVarInt_le {I : IntType} {n : ℤ} (h : I.Holds n) :
    (writeVarInt n).length ≤ (I.sizeof * 8 + 6) / 7 := by
  have hpos := I.sizeof_pos
  have hlt := h.lt_modulus
  obtain ⟨k, hk⟩ : ∃ k, (I.sizeof * 8 + 6) / 7 = k + 1 := ⟨(I.sizeof * 8 + 6) / 7 - 1, by omega⟩
  have hmodulus : I.modulus ≤ 128 ^ (k + 1) := by
    rw [IntType.modulus, show 128 = 2 ^ 7 from rfl, ← pow_mul]
    exact Nat.pow_le_pow_right (by decide) (by omega)
  rw [hk]
  rcases lt_or_ge n 0 with hneg | hnonneg
  · rw [writeVarInt_of_neg hneg, writeVarInt_natCast]
    exact length_encode_le varIntByte (lt_of_lt_of_le (by omega) (Nat.le_self_pow (by omega) 128))
  · obtain ⟨m, rfl⟩ := Int.eq_ofNat_of_zero_le hnonneg
    rw [writeVarInt_natCast]
    exact length_encode_le varIntByte (by omega)

/-- What is read back of a value that was written. -/
theorem readVarInt_written {I : IntType} {n : ℤ} (h : I.Holds n) (rest : List UInt8) :
    readVarInt I (writeVarInt n ++ rest) = some (if 0 ≤ n then n else I.cast (n % 128), rest) := by
  split
  · next hnonneg =>
    obtain ⟨m, rfl⟩ := Int.eq_ofNat_of_zero_le hnonneg
    rw [readVarInt_writeVarInt, h]
  · next hneg =>
    rw [writeVarInt_of_neg (by omega), readVarInt_writeVarInt, Int.toNat_of_nonneg (by omega)]

theorem IntType.cast_of_lt (I : IntType) {v : ℤ} (h : 0 ≤ v) (hv : v < 128) : I.cast v = v := by
  have hmodulus : 256 ≤ I.modulus := by
    have hpos := I.sizeof_pos
    exact Nat.pow_le_pow_right (n := 2) (i := 8) (by decide) (by omega)
  rw [cast]
  split
  · exact Int.bmod_eq_of_le (by omega) (by omega)
  · exact Int.emod_eq_of_lt h (by omega)

/-- A value is read back exactly when it is not negative; its digits fit in the buffer and are counted. -/
theorem varInt_roundTrip {I : IntType} {n : ℤ} (h : I.Holds n) (rest : List UInt8) :
    (readVarInt I (writeVarInt n ++ rest) = some (n, rest) ↔ 0 ≤ n) ∧
      (writeVarInt n).length = getSizeOfVarInt n ∧ (writeVarInt n).length ≤ (I.sizeof * 8 + 6) / 7 := by
  refine ⟨?_, length_writeVarInt n, length_writeVarInt_le h⟩
  rw [readVarInt_written h]
  split
  · next hnonneg => exact iff_of_true rfl hnonneg
  · next hneg =>
    rw [I.cast_of_lt (Int.emod_nonneg n (by decide)) (Int.emod_lt_of_pos n (by decide))]
    refine iff_of_false (fun heq => hneg ?_) hneg
    have hn : n % 128 = n := (Prod.mk.inj (Option.some.inj heq)).1
    exact hn ▸ Int.emod_nonneg n (by decide)

theorem varInt_roundTrip_minus_one :
    IntType.int64.Holds (-1) ∧
      (readVarInt IntType.int64 (writeVarInt (-1) ++ []) = some (-1, []) ↔ (0 : ℤ) ≤ -1) ∧
      (writeVarInt (-1)).length = getSizeOfVarInt (-1) ∧
      (writeVarInt (-1)).length ≤ (IntType.int64.sizeof * 8 + 6) / 7 :=
  ⟨by decide, varInt_roundTrip (I := IntType.int64) (by decide) []⟩

/-- Bytes are integers written one after the other, in one way, exactly when the last of them has its top bit clear. -/
theorem existsUnique_varInts (s : List UInt8) :
    (∃! ns : List ℕ, (ns.flatMap fun n : ℕ => writeVarInt n) = s) ↔ ∀ x ∈ s.getLast?, x < 0x80 := by
  have hwrite : (fun n : ℕ => writeVarInt n) = encode varIntByte := funext writeVarInt_natCast
  have hlast : Ended varIntByte s ↔ ∀ x ∈ s.getLast?, x < 0x80 := by
    refine forall₂_congr fun x _ => ?_
    rw [UInt8.lt_iff_toNat_lt]
    exact decide_eq_false_iff_not.trans Nat.not_le
  rw [hwrite, ← hlast]
  exact existsUnique_numerals varIntByte s

end PayDayCoin
