import PayDayCoin.BigNum

/-!
# The MPI format

OpenSSL reads and writes a big number as bytes, the most significant first, with the sign in the top bit. `CBigNum` makes
such bytes of machine integers (`mpiBytes`) and of the bytes of a script (`setvch`).

**`setvch_getvch`** and **`getvch_setvch_iff`**: the bytes of a number are read as the number, and the bytes that are
written again as they were are those without a superfluous first byte.
-/

namespace PayDayCoin

/-! ### Numbers of bytes -/

/-- A number from its bytes, the highest first. -/
def beValue (bytes : List UInt8) : ℕ := ofBytes bytes.reverse

/-- `BN_mpi2bn`, of the bytes behind the size. -/
def mpi2bn : List UInt8 → ℤ
  | [] => 0
  | c :: rest => if c &&& 0x80 ≠ 0 then -(beValue ((c &&& 0x7f) :: rest) : ℤ) else beValue (c :: rest)

/-- The loops of `setint64`, `setuint64` and `setuint256` over the bytes of a number, the highest first. -/
def mpiBytes (fNegative : Bool) : List UInt8 → List UInt8
  | [] => []
  | c :: bytes =>
    if c = 0 then mpiBytes fNegative bytes
    else if c &&& 0x80 ≠ 0 then (if fNegative then 0x80 else 0) :: c :: bytes
    else (if fNegative then c ||| 0x80 else c) :: bytes

/-- `CBigNum::setvch`. -/
def setvch (vch : List UInt8) : ℤ := mpi2bn vch.reverse

/-- No first byte is superfluous: one that holds at most the sign stands in front of a byte with the top bit set. -/
def IsMinimal : List UInt8 → Prop
  | [] => True
  | c :: rest => c &&& 0x7f = 0 → ∃ d ∈ rest.head?, d &&& 0x80 ≠ 0

theorem and_top (c : UInt8) : c &&& 0x80 = 0 ↔ c.toNat < 128 := by
  have hall : ∀ n < 256, n &&& 128 = 0 ↔ n < 128 := by decide +kernel
  rw [← UInt8.toNat_inj, UInt8.toNat_and]
  exact hall _ c.toNat_lt

theorem toNat_and_low (c : UInt8) : (c &&& 0x7f).toNat = c.toNat % 128 := by
  rw [UInt8.toNat_and]
  exact Nat.and_two_pow_sub_one_eq_mod c.toNat 7

theorem toNat_or_top {c : UInt8} (h : c.toNat < 128) : (c ||| 0x80).toNat = c.toNat + 128 := by
  have hall : ∀ n < 128, n ||| 128 = n + 128 := by decide
  rw [UInt8.toNat_or]
  exact hall _ h

theorem ofBytes_append (l m : List UInt8) : ofBytes (l ++ m) = ofBytes l + 256 ^ l.length * ofBytes m := by
  induction l with
  | nil => simp [ofBytes]
  | cons b l ih =>
    change b.toNat + 256 * ofBytes (l ++ m) = b.toNat + 256 * ofBytes l + 256 ^ (l.length + 1) * ofBytes m
    rw [ih, pow_succ]
    ring

theorem beValue_cons (c : UInt8) (rest : List UInt8) : beValue (c :: rest) = c.toNat * 256 ^ rest.length + beValue rest := by
  rw [beValue, List.reverse_cons, ofBytes_append, List.length_reverse, beValue]
  change _ + 256 ^ rest.length * (c.toNat + 256 * 0) = _
  ring

theorem beValue_lt (bytes : List UInt8) : beValue bytes < 256 ^ bytes.length := by
  have hlt := ofBytes_lt bytes.reverse
  rwa [List.length_reverse] at hlt

/-- The sign and the magnitude of bytes. -/
theorem mpi2bn_cons (c : UInt8) (rest : List UInt8) :
    mpi2bn (c :: rest) =
      if c.toNat < 128 then ((c.toNat * 256 ^ rest.length + beValue rest : ℕ) : ℤ)
      else -((c.toNat - 128) * 256 ^ rest.length + beValue rest : ℕ) := by
  have hlt := c.toNat_lt
  rw [mpi2bn, beValue_cons, beValue_cons, toNat_and_low]
  by_cases hc : c.toNat < 128
  · rw [if_neg (not_not_intro ((and_top c).2 hc)), if_pos hc]
  · rw [if_pos (fun h => hc ((and_top c).1 h)), if_neg hc, show c.toNat % 128 = c.toNat - 128 by omega]

/-- The bytes that are made of a number are read as the number. -/
theorem mpi2bn_mpiBytes (fNegative : Bool) (bytes : List UInt8) :
    mpi2bn (mpiBytes fNegative bytes) = if fNegative then -(beValue bytes : ℤ) else beValue bytes := by
  induction bytes with
  | nil => cases fNegative <;> rfl
  | cons c bytes ih =>
    have hlt := c.toNat_lt
    rw [mpiBytes]
    by_cases hzero : c = 0
    · subst hzero
      rw [if_pos rfl, ih, beValue_cons]
      simp
    rw [if_neg hzero]
    by_cases hc : c.toNat < 128
    · rw [if_neg (not_not_intro ((and_top c).2 hc)), mpi2bn_cons, beValue_cons]
      cases fNegative
      · simp only [Bool.false_eq_true, if_false, if_pos hc]
      · simp only [if_true, toNat_or_top hc]
        rw [if_neg (by omega), Nat.add_sub_cancel]
    · rw [if_pos (fun h => hc ((and_top c).1 h)), mpi2bn_cons, beValue_cons]
      cases fNegative
      · simp
      · have htop : (0x80 : UInt8).toNat = 128 := rfl
        simp only [if_true, htop]
        rw [if_neg (by omega), Nat.sub_self, Nat.zero_mul, Nat.zero_add]

/-! ### The bytes of a script -/

/-- The size of the bytes of a number. -/
theorem mpiSize_eq_succ {mag s : ℕ} (hpos : mag ≠ 0) :
    mpiSize mag = s + 1 ↔ mag < 128 * 256 ^ s ∧ (s = 0 ∨ 128 * 256 ^ (s - 1) ≤ mag) := by
  have hpow : ∀ s, 128 * 256 ^ s = 2 ^ (8 * s + 7) := fun s => by
    rw [pow_add, pow_mul, mul_comm]
    norm_num
  rw [mpiSize, if_neg hpos, hpow, hpow, ← Nat.log2_lt hpos, ← Nat.le_log2 hpos]
  omega

/-- Bytes as long as `getvch` makes them, with its value, are the bytes of the number. -/
theorem getvch_eq_of_size {n : ℤ} {v : List UInt8} (hsize : mpiSize n.natAbs = v.length)
    (hvalue : ofBytes v = if n < 0 then n.natAbs + 128 * 256 ^ (v.length - 1) else n.natAbs) : getvch n = v := by
  simp only [getvch, hsize, ← hvalue, leBytes_ofBytes]

theorem natAbs_mpi2bn (c : UInt8) (rest : List UInt8) :
    (mpi2bn (c :: rest)).natAbs = c.toNat % 128 * 256 ^ rest.length + beValue rest := by
  have hlt := c.toNat_lt
  rw [mpi2bn_cons]
  by_cases hc : c.toNat < 128
  · rw [if_pos hc, Int.natAbs_natCast, Nat.mod_eq_of_lt hc]
  · rw [if_neg hc, Int.natAbs_neg, Int.natAbs_natCast, show c.toNat % 128 = c.toNat - 128 by omega]

/-- The bytes without a superfluous first byte are those that are as long as the number needs. -/
theorem isMinimal_cons (c : UInt8) (rest : List UInt8) :
    IsMinimal (c :: rest) ↔ mpiSize (mpi2bn (c :: rest)).natAbs = rest.length + 1 := by
  have hlow := beValue_lt rest
  have hzero : c &&& 0x7f = 0 ↔ c.toNat % 128 = 0 := by
    rw [← UInt8.toNat_inj, toNat_and_low]
    exact Iff.rfl
  rw [natAbs_mpi2bn, IsMinimal, hzero]
  have hhigh : c.toNat % 128 * 256 ^ rest.length ≤ 127 * 256 ^ rest.length := Nat.mul_le_mul_right _ (by omega)
  by_cases hmag : c.toNat % 128 * 256 ^ rest.length + beValue rest = 0
  · have hpos : 0 < 256 ^ rest.length := by positivity
    have hc : c.toNat % 128 = 0 := by
      rcases Nat.mul_eq_zero.1 (by omega : c.toNat % 128 * 256 ^ rest.length = 0) with h | h <;> omega
    rw [hmag]
    refine iff_of_false (fun hmin => ?_) (by simp [mpiSize])
    obtain ⟨d, hd, htop⟩ := hmin hc
    cases rest with
    | nil => cases hd
    | cons e rest =>
      cases hd
      rw [beValue_cons] at hmag
      have hd' : 128 ≤ d.toNat := Nat.le_of_not_lt fun h => htop ((and_top d).2 h)
      have := Nat.mul_le_mul_right (256 ^ rest.length) hd'
      have hpos : 0 < 256 ^ rest.length := by positivity
      omega
  rw [mpiSize_eq_succ hmag]
  constructor
  · intro hmin
    refine ⟨by omega, ?_⟩
    cases rest with
    | nil => exact .inl rfl
    | cons d rest =>
      refine .inr ?_
      rw [List.length_cons, Nat.add_sub_cancel, beValue_cons, pow_succ]
      by_cases hc : c.toNat % 128 = 0
      · obtain ⟨e, he, htop⟩ := hmin hc
        cases he
        have hd : 128 ≤ d.toNat := Nat.le_of_not_lt fun h => htop ((and_top d).2 h)
        have := Nat.mul_le_mul_right (256 ^ rest.length) hd
        omega
      · have := Nat.mul_le_mul_right (256 ^ rest.length * 256) (Nat.one_le_iff_ne_zero.2 hc)
        omega
  · rintro ⟨-, hsize⟩ hc
    cases rest with
    | nil =>
      rw [hc] at hmag
      exact absurd rfl hmag
    | cons d rest =>
      refine ⟨d, rfl, fun htop => ?_⟩
      have hd := (and_top d).1 htop
      rw [List.length_cons, Nat.add_sub_cancel, beValue_cons, hc] at hsize
      have hrest := beValue_lt rest
      have := Nat.mul_le_mul_right (256 ^ rest.length) (Nat.le_of_lt_succ hd : d.toNat ≤ 127)
      omega

/-- Bytes are written again as they were just when no byte of them is superfluous. -/
theorem getvch_setvch_iff (v : List UInt8) : getvch (setvch v) = v ↔ IsMinimal v.reverse := by
  rcases hv : v.reverse with _ | ⟨c, rest⟩
  · rw [List.reverse_eq_nil_iff.1 hv]
    exact iff_of_true rfl trivial
  have hlen : v.length = rest.length + 1 := by rw [← List.length_reverse, hv, List.length_cons]
  have hset : setvch v = mpi2bn (c :: rest) := by rw [setvch, hv]
  have hvalue : ofBytes v = c.toNat * 256 ^ rest.length + beValue rest := by
    rw [← beValue_cons, ← hv, beValue, List.reverse_reverse]
  rw [isMinimal_cons, ← hset]
  constructor
  · intro h
    have hsize := congrArg List.length h
    simp only [getvch, length_leBytes] at hsize
    rw [hsize, hlen]
  · intro hsize
    refine getvch_eq_of_size (by rw [hsize, hlen]) ?_
    have hmag := natAbs_mpi2bn c rest
    have hlt := c.toNat_lt
    rw [hvalue, hlen, Nat.add_sub_cancel, hset, hmag]
    by_cases hc : c.toNat < 128
    · rw [mpi2bn_cons, if_pos hc, if_neg (by omega), Nat.mod_eq_of_lt hc]
    · have hne : mpi2bn (c :: rest) ≠ 0 := fun h => by
        rw [hset, h] at hsize
        exact absurd hsize (by simp [mpiSize])
      rw [mpi2bn_cons, if_neg hc] at hne ⊢
      rw [if_pos (by omega), show c.toNat % 128 = c.toNat - 128 by omega, Nat.sub_mul]
      have := Nat.mul_le_mul_right (256 ^ rest.length) (Nat.le_of_not_lt hc)
      omega

/-- The bytes of a number are read as the number. -/
theorem setvch_getvch (n : ℤ) : setvch (getvch n) = n := by
  by_cases hn : n.natAbs = 0
  · rw [Int.natAbs_eq_zero.1 hn]
    rfl
  obtain ⟨s, hs⟩ : ∃ s, mpiSize n.natAbs = s + 1 := ⟨mpiSize n.natAbs - 1, by rw [mpiSize, if_neg hn]; omega⟩
  have hmag := ((mpiSize_eq_succ hn).1 hs).1
  have hlen : (getvch n).length = s + 1 := by simp only [getvch, length_leBytes, hs]
  have hvalue : ofBytes (getvch n) = if n < 0 then n.natAbs + 128 * 256 ^ s else n.natAbs := by
    simp only [getvch, hs, Nat.add_sub_cancel]
    refine ofBytes_leBytes ?_
    rw [pow_succ]
    split <;> omega
  rcases hv : (getvch n).reverse with _ | ⟨c, rest⟩
  · rw [List.reverse_eq_nil_iff.1 hv] at hlen
    cases hlen
  have hrest : rest.length = s := by
    rw [← List.length_reverse, hv, List.length_cons] at hlen
    omega
  rw [← List.reverse_reverse (getvch n), hv, ← beValue, beValue_cons, hrest] at hvalue
  have hlow := beValue_lt rest
  rw [hrest] at hlow
  rw [setvch, hv, mpi2bn_cons, hrest]
  by_cases hneg : n < 0
  · rw [if_pos hneg] at hvalue
    have hc : ¬ c.toNat < 128 := fun hc => by
      have := Nat.mul_le_mul_right (256 ^ s) (Nat.le_of_lt_succ hc : c.toNat ≤ 127)
      omega
    have hstep := Nat.mul_le_mul_right (256 ^ s) (Nat.le_of_not_lt hc)
    rw [if_neg hc, Nat.sub_mul]
    omega
  · rw [if_neg hneg] at hvalue
    have hc : c.toNat < 128 := Nat.lt_of_not_le fun hc => by
      have := Nat.mul_le_mul_right (256 ^ s) hc
      omega
    rw [if_pos hc]
    omega

end PayDayCoin
