import PayDayCoin.NextTarget
import PayDayCoin.ScriptNum

/-!
# Numbers of eight words

`base_uint` computes with 256 bits in eight words of 32 bits, the lowest first; `CBigNum` takes such a number in and gives
it back through the bytes of the MPI format; and the compact format keeps the size and the first three bytes of a big
number.

**`words_arithmetic`**: the operators of `base_uint` are arithmetic modulo `2 ^ 256` and the order of numbers, the way
through a big number is the identity, and the compact format rounds down, keeps sixteen bits, and is monotone.
-/

namespace PayDayCoin

namespace BaseUint

/-- The number that words stand for, the lowest first. -/
def value (pn : List UInt32) : ℕ := pn.foldr (fun p n => 2 ^ 32 * n + p.toNat) 0

/-! ### Operators -/

/-- `operator~`. -/
def complement (pn : List UInt32) : List UInt32 := pn.map (~~~ ·)

/-- The loop of `operator+=`. -/
def addLoop : UInt64 → List UInt32 → List UInt32 → List UInt32
  | carry, p :: pn, q :: b =>
    let n := carry + p.toUInt64 + q.toUInt64
    (n &&& 0xffffffff).toUInt32 :: addLoop (n >>> 32) pn b
  | _, _, _ => []

/-- `operator+=`. -/
def add (pn b : List UInt32) : List UInt32 := addLoop 0 pn b

/-- `operator++`. -/
def increment : List UInt32 → List UInt32
  | [] => []
  | p :: pn => (p + 1) :: if p + 1 = 0 then increment pn else pn

/-- `operator--`. -/
def decrement : List UInt32 → List UInt32
  | [] => []
  | p :: pn => (p - 1) :: if p - 1 = -1 then decrement pn else pn

/-- Unary `operator-`. -/
def neg (pn : List UInt32) : List UInt32 := increment (complement pn)

/-- `operator-=`. -/
def sub (pn b : List UInt32) : List UInt32 := add pn (neg b)

/-- `|=` on a word. -/
def orAt (pn : List UInt32) (i : ℕ) (w : UInt32) : List UInt32 := pn.modify i (· ||| w)

/-- A turn of the loop of `operator<<=`. -/
def leftTurn (a : List UInt32) (k : ℕ) (shift : UInt32) (pn : List UInt32) (i : ℕ) : List UInt32 :=
  let pn := if i + k + 1 < 8 ∧ shift ≠ 0 then orAt pn (i + k + 1) (a.getD i 0 >>> (32 - shift)) else pn
  if i + k < 8 then orAt pn (i + k) (a.getD i 0 <<< shift) else pn

/-- `operator<<=`. -/
def shiftLeft (a : List UInt32) (shift : UInt32) : List UInt32 :=
  (List.range 8).foldl (leftTurn a (shift / 32).toNat (shift % 32)) (List.replicate 8 0)

/-- A turn of the loop of `operator>>=`. -/
def rightTurn (a : List UInt32) (k : ℕ) (shift : UInt32) (pn : List UInt32) (i : ℕ) : List UInt32 :=
  let pn := if k + 1 ≤ i ∧ shift ≠ 0 then orAt pn (i - k - 1) (a.getD i 0 <<< (32 - shift)) else pn
  if k ≤ i then orAt pn (i - k) (a.getD i 0 >>> shift) else pn

/-- `operator>>=`. -/
def shiftRight (a : List UInt32) (shift : UInt32) : List UInt32 :=
  (List.range 8).foldl (rightTurn a (shift / 32).toNat (shift % 32)) (List.replicate 8 0)

/-- The loops of the comparisons, over the words from the highest on. -/
def compareLoop (less whenEqual : Bool) : List UInt32 → List UInt32 → Bool
  | p :: a, q :: b => if p < q then less else if p > q then !less else compareLoop less whenEqual a b
  | _, _ => whenEqual

/-- `operator<`. -/
def lt (a b : List UInt32) : Bool := compareLoop true false a.reverse b.reverse

/-- `operator<=`. -/
def le (a b : List UInt32) : Bool := compareLoop true true a.reverse b.reverse

/-- `operator>`. -/
def gt (a b : List UInt32) : Bool := compareLoop false false a.reverse b.reverse

/-- `operator>=`. -/
def ge (a b : List UInt32) : Bool := compareLoop false true a.reverse b.reverse

/-- `operator==`. -/
def equal : List UInt32 → List UInt32 → Bool
  | p :: a, q :: b => if p ≠ q then false else equal a b
  | _, _ => true

/-! ### Big numbers -/

/-- The bytes of the words in memory. -/
def memory (pn : List UInt32) : List UInt8 := pn.flatMap fun p => leBytes 4 p.toNat

/-- Some words from bytes in memory, with zeros behind the bytes. -/
def fromMemory : ℕ → List UInt8 → List UInt32
  | 0, _ => []
  | k + 1, bytes => UInt32.ofNat (ofBytes (bytes.take 4)) :: fromMemory k (bytes.drop 4)

/-- `CBigNum::setuint256`. -/
def setuint256 (n : List UInt32) : ℤ := mpi2bn (mpiBytes false (memory n).reverse)

/-- The bytes of `BN_bn2mpi` without the sign, the lowest first. -/
def unsignedBytes (n : ℤ) : List UInt8 :=
  match (PayDayCoin.getvch n).reverse with
  | [] => []
  | c :: rest => ((c &&& 0x7f) :: rest).reverse

/-- `CBigNum::getuint256`. -/
def getuint256 (n : ℤ) : List UInt32 := fromMemory 8 (unsignedBytes n)

/-! ### Words and numbers -/

theorem value_cons (p : UInt32) (pn : List UInt32) : value (p :: pn) = 2 ^ 32 * value pn + p.toNat := rfl

theorem value_lt (pn : List UInt32) : value pn < 2 ^ (32 * pn.length) := by
  induction pn with
  | nil => exact Nat.one_pos
  | cons p pn ih =>
    have hp := p.toNat_lt
    rw [value_cons, List.length_cons, Nat.mul_succ, pow_add]
    omega

theorem testBit_value (pn : List UInt32) (n : ℕ) :
    (value pn).testBit n = (pn.getD (n / 32) 0).toNat.testBit (n % 32) := by
  induction pn generalizing n with
  | nil => simp [value]
  | cons p pn ih =>
    rw [value_cons, Nat.testBit_two_pow_mul_add _ p.toNat_lt]
    split
    · next hn => rw [Nat.div_eq_of_lt hn, Nat.mod_eq_of_lt hn, List.getD_cons_zero]
    · next hn => rw [ih, show n / 32 = (n - 32) / 32 + 1 by omega, List.getD_cons_succ, show n % 32 = (n - 32) % 32 by omega]

theorem value_inj {a b : List UInt32} (hlen : a.length = b.length) (h : value a = value b) : a = b := by
  induction a generalizing b with
  | nil => exact (List.length_eq_zero_iff.1 hlen.symm).symm
  | cons p a ih =>
    cases b with
    | nil => cases hlen
    | cons q b =>
      have hp := p.toNat_lt
      have hq := q.toNat_lt
      rw [value_cons, value_cons] at h
      rw [UInt32.toNat_inj.1 (by omega : p.toNat = q.toNat), ih (Nat.succ.inj hlen) (by omega)]

/-- One word and the rest, modulo one word and the rest. -/
theorem mod_word (x y k : ℕ) :
    (x + 2 ^ 32 * y) % 2 ^ (32 * (k + 1)) = 2 ^ 32 * ((x / 2 ^ 32 + y) % 2 ^ (32 * k)) + x % 2 ^ 32 := by
  rw [Nat.mul_succ, Nat.add_comm (32 * k), pow_add, Nat.mod_mul, Nat.add_mul_mod_self_left,
    Nat.add_mul_div_left _ _ (by positivity), Nat.add_comm]

theorem value_addLoop {a b : List UInt32} (hlen : a.length = b.length) {carry : UInt64} (hcarry : carry.toNat ≤ 1) :
    value (addLoop carry a b) = (carry.toNat + value a + value b) % 2 ^ (32 * a.length) := by
  induction a generalizing b carry with
  | nil =>
    rw [List.length_nil, Nat.mul_zero, pow_zero, Nat.mod_one]
    rfl
  | cons p a ih =>
    cases b with
    | nil => cases hlen
    | cons q b =>
      have hp := p.toNat_lt
      have hq := q.toNat_lt
      have hn : (carry + p.toUInt64 + q.toUInt64).toNat = carry.toNat + p.toNat + q.toNat := by
        rw [UInt64.toNat_add, UInt64.toNat_add, UInt32.toNat_toUInt64, UInt32.toNat_toUInt64]
        omega
      have hlow : ((carry + p.toUInt64 + q.toUInt64) &&& 0xffffffff).toUInt32.toNat =
          (carry.toNat + p.toNat + q.toNat) % 2 ^ 32 := by
        rw [UInt64.toNat_toUInt32, UInt64.toNat_and, hn, show (0xffffffff : UInt64).toNat = 2 ^ 32 - 1 from rfl,
          Nat.and_two_pow_sub_one_eq_mod, Nat.mod_mod]
      have hhigh : ((carry + p.toUInt64 + q.toUInt64) >>> 32).toNat = (carry.toNat + p.toNat + q.toNat) / 2 ^ 32 := by
        rw [UInt64.toNat_shiftRight, hn]
        exact Nat.shiftRight_eq_div_pow _ _
      rw [addLoop, value_cons, hlow, ih (Nat.succ.inj hlen) (by rw [hhigh]; omega), hhigh, value_cons, value_cons,
        List.length_cons,
        show carry.toNat + (2 ^ 32 * value a + p.toNat) + (2 ^ 32 * value b + q.toNat) =
          (carry.toNat + p.toNat + q.toNat) + 2 ^ 32 * (value a + value b) by ring, mod_word, Nat.add_assoc]

theorem value_increment (pn : List UInt32) : value (increment pn) = (value pn + 1) % 2 ^ (32 * pn.length) := by
  induction pn with
  | nil => rfl
  | cons p pn ih =>
    have hp := p.toNat_lt
    have hnext : (p + 1).toNat = (p.toNat + 1) % 2 ^ 32 := UInt32.toNat_add p 1
    have hlt := value_lt pn
    rw [increment, value_cons, value_cons, List.length_cons,
      show 2 ^ 32 * value pn + p.toNat + 1 = (p.toNat + 1) + 2 ^ 32 * value pn by ring, mod_word, hnext]
    by_cases hwrap : p + 1 = 0
    · rw [if_pos hwrap, ih]
      rw [hwrap, UInt32.toNat_zero] at hnext
      rw [show (p.toNat + 1) / 2 ^ 32 = 1 by omega, Nat.add_comm 1]
    · have hne : (p + 1).toNat ≠ 0 := fun h => hwrap (UInt32.toNat_inj.1 h)
      rw [hnext] at hne
      rw [if_neg hwrap, show (p.toNat + 1) / 2 ^ 32 = 0 by omega, Nat.zero_add, Nat.mod_eq_of_lt hlt]

theorem value_decrement (pn : List UInt32) :
    value (decrement pn) = (value pn + (2 ^ (32 * pn.length) - 1)) % 2 ^ (32 * pn.length) := by
  induction pn with
  | nil => rfl
  | cons p pn ih =>
    have hp := p.toNat_lt
    have hlt := value_lt pn
    have hpos : 0 < 2 ^ (32 * pn.length) := by positivity
    have hprev : (p - 1).toNat = (p.toNat + (2 ^ 32 - 1)) % 2 ^ 32 := by
      rw [UInt32.toNat_sub, show (1 : UInt32).toNat = 1 from rfl, Nat.add_comm]
    have hpow : 2 ^ (32 * (pn.length + 1)) - 1 = (2 ^ 32 - 1) + 2 ^ 32 * (2 ^ (32 * pn.length) - 1) := by
      rw [Nat.mul_succ, pow_add]
      omega
    rw [decrement, value_cons, value_cons, List.length_cons, hpow,
      show 2 ^ 32 * value pn + p.toNat + (2 ^ 32 - 1 + 2 ^ 32 * (2 ^ (32 * pn.length) - 1)) =
        (p.toNat + (2 ^ 32 - 1)) + 2 ^ 32 * (value pn + (2 ^ (32 * pn.length) - 1)) by ring, mod_word, hprev]
    by_cases hwrap : p - 1 = -1
    · rw [if_pos hwrap, ih]
      rw [hwrap, show (-1 : UInt32).toNat = 2 ^ 32 - 1 from rfl] at hprev
      rw [show (p.toNat + (2 ^ 32 - 1)) / 2 ^ 32 = 0 by omega, Nat.zero_add]
    · have hne : (p - 1).toNat ≠ 2 ^ 32 - 1 := fun h => hwrap (UInt32.toNat_inj.1 h)
      rw [hprev] at hne
      rw [if_neg hwrap, show (p.toNat + (2 ^ 32 - 1)) / 2 ^ 32 = 1 by omega,
        show 1 + (value pn + (2 ^ (32 * pn.length) - 1)) = value pn + 2 ^ (32 * pn.length) by omega,
        Nat.add_mod_right, Nat.mod_eq_of_lt hlt]

theorem value_complement (pn : List UInt32) : value (complement pn) = 2 ^ (32 * pn.length) - 1 - value pn := by
  induction pn with
  | nil => rfl
  | cons p pn ih =>
    have hp := p.toNat_lt
    have hlt := value_lt pn
    have hnot : (~~~p).toNat = 2 ^ 32 - 1 - p.toNat := UInt32.toNat_not p
    rw [complement] at ih
    rw [complement, List.map_cons, value_cons, ih, hnot, value_cons, List.length_cons, Nat.mul_succ, pow_add]
    omega

theorem value_neg (pn : List UInt32) : value (neg pn) = (2 ^ (32 * pn.length) - value pn) % 2 ^ (32 * pn.length) := by
  have hlt := value_lt pn
  rw [neg, value_increment, value_complement, complement, List.length_map]
  congr 1
  omega

theorem length_addLoop {a b : List UInt32} (hlen : a.length = b.length) (carry : UInt64) :
    (addLoop carry a b).length = a.length := by
  induction a generalizing b carry with
  | nil => rfl
  | cons p a ih =>
    cases b with
    | nil => cases hlen
    | cons q b => exact congrArg (· + 1) (ih (Nat.succ.inj hlen) _)

theorem length_increment (pn : List UInt32) : (increment pn).length = pn.length := by
  induction pn with
  | nil => rfl
  | cons p pn ih =>
    rw [increment, List.length_cons, List.length_cons]
    split
    · rw [ih]
    · rfl

theorem length_decrement (pn : List UInt32) : (decrement pn).length = pn.length := by
  induction pn with
  | nil => rfl
  | cons p pn ih =>
    rw [decrement, List.length_cons, List.length_cons]
    split
    · rw [ih]
    · rfl

theorem length_neg (pn : List UInt32) : (neg pn).length = pn.length := by
  rw [neg, length_increment, complement, List.length_map]

theorem value_sub {a b : List UInt32} (hlen : a.length = b.length) :
    value (sub a b) = (value a + (2 ^ (32 * a.length) - value b)) % 2 ^ (32 * a.length) := by
  rw [sub, add, value_addLoop (b := neg b) (by rw [length_neg, hlen]) (by decide), value_neg, ← hlen,
    UInt64.toNat_zero, Nat.zero_add,
    Nat.add_mod_mod]

theorem value_append (a b : List UInt32) : value (a ++ b) = value a + 2 ^ (32 * a.length) * value b := by
  induction a with
  | nil => simp [value]
  | cons p a ih =>
    rw [List.cons_append, value_cons, ih, value_cons, List.length_cons, Nat.mul_succ, pow_add]
    ring

theorem compareLoop_eq {a b : List UInt32} (hlen : a.length = b.length) (less whenEqual : Bool) :
    compareLoop less whenEqual a b =
      if value a.reverse < value b.reverse then less
      else if value b.reverse < value a.reverse then !less
      else whenEqual := by
  induction a generalizing b with
  | nil =>
    rw [List.length_eq_zero_iff.1 hlen.symm]
    rfl
  | cons p a ih =>
    cases b with
    | nil => cases hlen
    | cons q b =>
      have hab : a.length = b.length := Nat.succ.inj hlen
      have ha := value_lt a.reverse
      have hb := value_lt b.reverse
      have hone : ∀ p : UInt32, value [p] = p.toNat := fun p => by simp [value]
      rw [List.length_reverse] at ha hb
      rw [← hab] at hb
      rw [compareLoop, List.reverse_cons, List.reverse_cons, value_append, value_append, hone, hone, List.length_reverse,
        List.length_reverse, ← hab]
      by_cases hlt : p < q
      · have hstep := Nat.mul_le_mul_left (2 ^ (32 * a.length)) (Nat.succ_le_of_lt (UInt32.lt_iff_toNat_lt.1 hlt))
        rw [Nat.mul_succ] at hstep
        rw [if_pos hlt, if_pos (by omega)]
      by_cases hgt : p > q
      · have hstep := Nat.mul_le_mul_left (2 ^ (32 * a.length)) (Nat.succ_le_of_lt (UInt32.lt_iff_toNat_lt.1 hgt))
        rw [Nat.mul_succ] at hstep
        rw [if_neg hlt, if_pos hgt, if_neg (by omega), if_pos (by omega)]
      · have heq : p.toNat = q.toNat := by
          have h₁ := mt UInt32.lt_iff_toNat_lt.2 hlt
          have h₂ := mt UInt32.lt_iff_toNat_lt.2 hgt
          omega
        rw [if_neg hlt, if_neg hgt, ih hab, heq]
        simp only [Nat.add_lt_add_iff_right]

theorem equal_iff {a b : List UInt32} (hlen : a.length = b.length) : equal a b = true ↔ value a = value b := by
  have hlist : equal a b = true ↔ a = b := by
    induction a generalizing b with
    | nil =>
      rw [List.length_eq_zero_iff.1 hlen.symm]
      exact iff_of_true rfl rfl
    | cons p a ih =>
      cases b with
      | nil => cases hlen
      | cons q b =>
        rw [equal, List.cons.injEq]
        by_cases hpq : p = q
        · rw [if_neg (not_not_intro hpq), ih (Nat.succ.inj hlen)]
          exact (and_iff_right hpq).symm
        · rw [if_pos hpq]
          exact iff_of_false Bool.false_ne_true fun h => hpq h.1
  rw [hlist]
  exact ⟨fun h => h ▸ rfl, value_inj hlen⟩

/-! ### Shifts -/

theorem length_orAt (pn : List UInt32) (i : ℕ) (w : UInt32) : (orAt pn i w).length = pn.length := List.length_modify ..

theorem length_orIf {pn : List UInt32} (hlen : pn.length = 8) (c : Prop) [Decidable c] (i : ℕ) (w : UInt32) :
    (if c then orAt pn i w else pn).length = 8 := by
  split
  · rw [length_orAt, hlen]
  · exact hlen

theorem getD_orIf {pn : List UInt32} (hlen : pn.length = 8) (c : Prop) [Decidable c] {i j : ℕ} (hj : j < 8) (w : UInt32) :
    (if c then orAt pn i w else pn).getD j 0 = pn.getD j 0 ||| if c ∧ i = j then w else 0 := by
  by_cases hc : c
  · rw [if_pos hc, orAt, List.getD_eq_getElem?_getD, List.getElem?_modify, List.getD_eq_getElem?_getD,
      List.getElem?_eq_getElem (by omega)]
    by_cases hij : i = j
    · rw [if_pos ⟨hc, hij⟩]
      simp [hij]
    · rw [if_neg (fun h => hij h.2)]
      simp [hij]
  · rw [if_neg hc, if_neg (fun h => hc h.1), UInt32.or_zero]

/-- A condition that comes true in one more turn. -/
theorem ite_or {P R Q : Prop} [Decidable P] [Decidable R] [Decidable Q] {x y : UInt32} (h : R ↔ P ∨ Q) (hy : Q → y = x) :
    (if R then x else 0) = (if P then x else 0) ||| if Q then y else 0 := by
  by_cases hQ : Q
  · rw [if_pos (h.2 (.inr hQ)), if_pos hQ, hy hQ]
    split <;> simp
  · rw [if_neg hQ, UInt32.or_zero]
    exact if_congr (by rw [h, or_iff_left hQ]) rfl rfl

theorem getD_zeros {j : ℕ} (hj : j < 8) : (List.replicate 8 (0 : UInt32)).getD j 0 = 0 := by
  rw [List.getD_eq_getElem?_getD, List.getElem?_replicate, if_pos hj]
  rfl

/-- What a word has gathered after some turns of the loop of `operator<<=`. -/
theorem leftTurn_run (a : List UInt32) (k : ℕ) (shift : UInt32) (n : ℕ) :
    ((List.range n).foldl (leftTurn a k shift) (List.replicate 8 0)).length = 8 ∧
      ∀ j < 8, ((List.range n).foldl (leftTurn a k shift) (List.replicate 8 0)).getD j 0 =
        (if (k + 1 ≤ j ∧ j < n + k + 1) ∧ shift ≠ 0 then a.getD (j - k - 1) 0 >>> (32 - shift) else 0) |||
          if k ≤ j ∧ j < n + k then a.getD (j - k) 0 <<< shift else 0 := by
  induction n with
  | zero =>
    refine ⟨rfl, fun j hj => ?_⟩
    rw [if_neg (by omega), if_neg (by omega), List.range_zero, List.foldl_nil, getD_zeros hj, UInt32.or_zero]
  | succ n ih =>
    rw [List.range_succ, List.foldl_append, List.foldl_cons, List.foldl_nil]
    obtain ⟨hlen, hpn⟩ := ih
    have hfirst := length_orIf hlen (n + k + 1 < 8 ∧ shift ≠ 0) (n + k + 1) (a.getD n 0 >>> (32 - shift))
    refine ⟨length_orIf hfirst _ _ _, fun j hj => ?_⟩
    rw [leftTurn, getD_orIf hfirst _ hj, getD_orIf hlen _ hj, hpn j hj,
      ite_or (P := (k + 1 ≤ j ∧ j < n + k + 1) ∧ shift ≠ 0) (Q := (n + k + 1 < 8 ∧ shift ≠ 0) ∧ n + k + 1 = j)
        (R := (k + 1 ≤ j ∧ j < n + 1 + k + 1) ∧ shift ≠ 0) (y := a.getD n 0 >>> (32 - shift)) (by grind)
        (fun h => by rw [← h.2, show n + k + 1 - k - 1 = n by omega]),
      ite_or (P := k ≤ j ∧ j < n + k) (Q := n + k < 8 ∧ n + k = j) (R := k ≤ j ∧ j < n + 1 + k)
        (y := a.getD n 0 <<< shift) (by omega) (fun h => by rw [← h.2, Nat.add_sub_cancel])]
    ac_rfl

/-- What a word has gathered after some turns of the loop of `operator>>=`. -/
theorem rightTurn_run (a : List UInt32) (k : ℕ) (shift : UInt32) (n : ℕ) :
    ((List.range n).foldl (rightTurn a k shift) (List.replicate 8 0)).length = 8 ∧
      ∀ j < 8, ((List.range n).foldl (rightTurn a k shift) (List.replicate 8 0)).getD j 0 =
        (if j + k + 1 < n ∧ shift ≠ 0 then a.getD (j + k + 1) 0 <<< (32 - shift) else 0) |||
          if j + k < n then a.getD (j + k) 0 >>> shift else 0 := by
  induction n with
  | zero =>
    refine ⟨rfl, fun j hj => ?_⟩
    rw [if_neg (by omega), if_neg (by omega), List.range_zero, List.foldl_nil, getD_zeros hj, UInt32.or_zero]
  | succ n ih =>
    rw [List.range_succ, List.foldl_append, List.foldl_cons, List.foldl_nil]
    obtain ⟨hlen, hpn⟩ := ih
    have hfirst := length_orIf hlen (k + 1 ≤ n ∧ shift ≠ 0) (n - k - 1) (a.getD n 0 <<< (32 - shift))
    refine ⟨length_orIf hfirst _ _ _, fun j hj => ?_⟩
    rw [rightTurn, getD_orIf hfirst _ hj, getD_orIf hlen _ hj, hpn j hj,
      ite_or (P := j + k + 1 < n ∧ shift ≠ 0) (Q := (k + 1 ≤ n ∧ shift ≠ 0) ∧ n - k - 1 = j)
        (R := j + k + 1 < n + 1 ∧ shift ≠ 0) (y := a.getD n 0 <<< (32 - shift)) (by grind)
        (fun h => by rw [show j + k + 1 = n by omega]),
      ite_or (P := j + k < n) (Q := k ≤ n ∧ n - k = j) (R := j + k < n + 1)
        (y := a.getD n 0 >>> shift) (by omega) (fun h => by rw [show j + k = n by omega])]
    ac_rfl

theorem getD_shiftLeft (a : List UInt32) (shift : UInt32) (j : ℕ) :
    (shiftLeft a shift).getD j 0 =
      if j < 8 then
        (if (shift / 32).toNat + 1 ≤ j ∧ shift % 32 ≠ 0 then a.getD (j - (shift / 32).toNat - 1) 0 >>> (32 - shift % 32)
          else 0) ||| if (shift / 32).toNat ≤ j then a.getD (j - (shift / 32).toNat) 0 <<< (shift % 32) else 0
      else 0 := by
  obtain ⟨hlen, hword⟩ := leftTurn_run a (shift / 32).toNat (shift % 32) 8
  rw [shiftLeft]
  by_cases hj : j < 8
  · rw [if_pos hj, hword j hj]
    congr 1
    · exact if_congr (and_congr_left fun _ => by omega) rfl rfl
    · exact if_congr (by omega) rfl rfl
  · rw [if_neg hj, List.getD_eq_getElem?_getD, List.getElem?_eq_none (by omega)]
    rfl

theorem getD_shiftRight (a : List UInt32) (shift : UInt32) (j : ℕ) :
    (shiftRight a shift).getD j 0 =
      if j < 8 then
        (if j + (shift / 32).toNat + 1 < 8 ∧ shift % 32 ≠ 0 then
          a.getD (j + (shift / 32).toNat + 1) 0 <<< (32 - shift % 32) else 0) |||
          if j + (shift / 32).toNat < 8 then a.getD (j + (shift / 32).toNat) 0 >>> (shift % 32) else 0
      else 0 := by
  obtain ⟨hlen, hword⟩ := rightTurn_run a (shift / 32).toNat (shift % 32) 8
  rw [shiftRight]
  by_cases hj : j < 8
  · rw [if_pos hj, hword j hj]
  · rw [if_neg hj, List.getD_eq_getElem?_getD, List.getElem?_eq_none (by omega)]
    rfl

theorem testBit_shiftLeft_word (p s : UInt32) (hs : s.toNat < 32) (r : ℕ) :
    (p <<< s).toNat.testBit r = (decide (r < 32) && (decide (s.toNat ≤ r) && p.toNat.testBit (r - s.toNat))) := by
  rw [UInt32.toNat_shiftLeft, Nat.mod_eq_of_lt hs, Nat.testBit_mod_two_pow, Nat.testBit_shiftLeft]

theorem testBit_shiftRight_word (p s : UInt32) (hs : s.toNat < 32) (r : ℕ) :
    (p >>> s).toNat.testBit r = p.toNat.testBit (s.toNat + r) := by
  rw [UInt32.toNat_shiftRight, Nat.mod_eq_of_lt hs, Nat.testBit_shiftRight]

theorem testBit_word_high (p : UInt32) {i : ℕ} (hi : 32 ≤ i) : p.toNat.testBit i = false :=
  Nat.testBit_lt_two_pow (p.toNat_lt.trans_le (Nat.pow_le_pow_right (by norm_num) hi))

theorem mod_eq_zero_iff (shift : UInt32) : shift % 32 = 0 ↔ shift.toNat % 32 = 0 := by
  rw [← UInt32.toNat_inj, UInt32.toNat_mod]
  exact Iff.rfl

theorem toNat_sub_mod (shift : UInt32) : (32 - shift % 32).toNat = 32 - shift.toNat % 32 := by
  have hs : (shift % 32).toNat = shift.toNat % 32 := UInt32.toNat_mod shift 32
  have hle : shift % 32 ≤ 32 := by
    rw [UInt32.le_iff_toNat_le, hs]
    exact (Nat.mod_lt _ (by norm_num)).le
  rw [UInt32.toNat_sub_of_le _ _ hle, hs]
  rfl

theorem value_shiftLeft (a : List UInt32) (shift : UInt32) :
    value (shiftLeft a shift) = value a * 2 ^ shift.toNat % 2 ^ 256 := by
  refine Nat.eq_of_testBit_eq fun n => ?_
  have hs : (shift % 32).toNat = shift.toNat % 32 := UInt32.toNat_mod shift 32
  have hk : (shift / 32).toNat = shift.toNat / 32 := UInt32.toNat_div shift 32
  have hsub := toNat_sub_mod shift
  have hzero := mod_eq_zero_iff shift
  rw [testBit_value, getD_shiftLeft, Nat.testBit_mod_two_pow, ← Nat.shiftLeft_eq, Nat.testBit_shiftLeft,
    testBit_value]
  by_cases hn : n < 256
  swap
  · rw [if_neg (by omega), decide_eq_false hn, Bool.false_and]
    exact Nat.zero_testBit _
  rw [if_pos (by omega), decide_eq_true hn, Bool.true_and, UInt32.toNat_or, Nat.testBit_or]
  by_cases hlow : shift.toNat % 32 ≤ n % 32
  · have hfirst : ((if (shift / 32).toNat + 1 ≤ n / 32 ∧ shift % 32 ≠ 0 then
        a.getD (n / 32 - (shift / 32).toNat - 1) 0 >>> (32 - shift % 32) else 0) :
        UInt32).toNat.testBit (n % 32) = false := by
      split
      · next h =>
        have hne := hzero.not.1 h.2
        rw [testBit_shiftRight_word _ _ (by rw [hsub]; omega), hsub]
        exact testBit_word_high _ (by omega)
      · exact Nat.zero_testBit _
    rw [hfirst, Bool.false_or]
    by_cases hk' : shift.toNat / 32 ≤ n / 32
    · rw [if_pos (by rw [hk]; exact hk'), testBit_shiftLeft_word _ _ (by rw [hs]; omega), hs, hk,
        decide_eq_true (by omega : n % 32 < 32), decide_eq_true hlow, decide_eq_true (by omega : shift.toNat ≤ n),
        Bool.true_and, Bool.true_and, Bool.true_and, show (n - shift.toNat) / 32 = n / 32 - shift.toNat / 32 by omega,
        show (n - shift.toNat) % 32 = n % 32 - shift.toNat % 32 by omega]
    · rw [if_neg (by rw [hk]; exact hk'), decide_eq_false (by omega : ¬ shift.toNat ≤ n), Bool.false_and]
      exact Nat.zero_testBit _
  · have hne : shift % 32 ≠ 0 := fun h => by
      have := hzero.1 h
      omega
    have hsecond : ((if (shift / 32).toNat ≤ n / 32 then a.getD (n / 32 - (shift / 32).toNat) 0 <<< (shift % 32)
        else 0) : UInt32).toNat.testBit (n % 32) = false := by
      split
      · rw [testBit_shiftLeft_word _ _ (by rw [hs]; omega), hs, decide_eq_false hlow, Bool.false_and, Bool.and_false]
      · exact Nat.zero_testBit _
    rw [hsecond, Bool.or_false]
    by_cases hk' : shift.toNat / 32 + 1 ≤ n / 32
    · rw [if_pos ⟨by rw [hk]; exact hk', hne⟩, testBit_shiftRight_word _ _ (by rw [hsub]; omega), hsub, hk,
        decide_eq_true (by omega : shift.toNat ≤ n), Bool.true_and,
        show (n - shift.toNat) / 32 = n / 32 - shift.toNat / 32 - 1 by omega,
        show (n - shift.toNat) % 32 = 32 - shift.toNat % 32 + n % 32 by omega]
    · rw [if_neg (by rw [hk]; exact fun h => hk' h.1), decide_eq_false (by omega : ¬ shift.toNat ≤ n), Bool.false_and]
      exact Nat.zero_testBit _

theorem value_shiftRight {a : List UInt32} (ha : a.length = 8) (shift : UInt32) :
    value (shiftRight a shift) = value a / 2 ^ shift.toNat := by
  refine Nat.eq_of_testBit_eq fun n => ?_
  have hs : (shift % 32).toNat = shift.toNat % 32 := UInt32.toNat_mod shift 32
  have hk : (shift / 32).toNat = shift.toNat / 32 := UInt32.toNat_div shift 32
  have hsub := toNat_sub_mod shift
  have hzero := mod_eq_zero_iff shift
  have hout : ∀ j, 8 ≤ j → a.getD j 0 = 0 := fun j hj => by
    rw [List.getD_eq_getElem?_getD, List.getElem?_eq_none (by omega)]
    rfl
  rw [testBit_value, getD_shiftRight, ← Nat.shiftRight_eq_div_pow, Nat.testBit_shiftRight, testBit_value]
  by_cases hn : n / 32 < 8
  swap
  · rw [if_neg hn, hout _ (by omega)]
    rw [UInt32.toNat_zero, Nat.zero_testBit, Nat.zero_testBit]
  rw [if_pos hn, UInt32.toNat_or, Nat.testBit_or]
  by_cases hlow : n % 32 + shift.toNat % 32 < 32
  · have hfirst : ((if n / 32 + (shift / 32).toNat + 1 < 8 ∧ shift % 32 ≠ 0 then
        a.getD (n / 32 + (shift / 32).toNat + 1) 0 <<< (32 - shift % 32) else 0) :
        UInt32).toNat.testBit (n % 32) = false := by
      split
      · next h =>
        have hne := hzero.not.1 h.2
        rw [testBit_shiftLeft_word _ _ (by rw [hsub]; omega), hsub,
          decide_eq_false (by omega : ¬ 32 - shift.toNat % 32 ≤ n % 32), Bool.false_and, Bool.and_false]
      · exact Nat.zero_testBit _
    rw [hfirst, Bool.false_or, show (shift.toNat + n) / 32 = n / 32 + shift.toNat / 32 by omega,
      show (shift.toNat + n) % 32 = shift.toNat % 32 + n % 32 by omega, hk]
    split
    · rw [testBit_shiftRight_word _ _ (by rw [hs]; omega), hs]
    · rw [hout _ (by omega), UInt32.toNat_zero, Nat.zero_testBit, Nat.zero_testBit]
  · have hne : shift % 32 ≠ 0 := fun h => by
      have := hzero.1 h
      omega
    have hsecond : ((if n / 32 + (shift / 32).toNat < 8 then a.getD (n / 32 + (shift / 32).toNat) 0 >>> (shift % 32)
        else 0) : UInt32).toNat.testBit (n % 32) = false := by
      split
      · rw [testBit_shiftRight_word _ _ (by rw [hs]; omega), hs]
        exact testBit_word_high _ (by omega)
      · exact Nat.zero_testBit _
    rw [hsecond, Bool.or_false, show (shift.toNat + n) / 32 = n / 32 + shift.toNat / 32 + 1 by omega,
      show (shift.toNat + n) % 32 = n % 32 - (32 - shift.toNat % 32) by omega, hk]
    by_cases hin : n / 32 + shift.toNat / 32 + 1 < 8
    · rw [if_pos ⟨hin, hne⟩, testBit_shiftLeft_word _ _ (by rw [hsub]; omega), hsub,
        decide_eq_true (by omega : n % 32 < 32), decide_eq_true (by omega : 32 - shift.toNat % 32 ≤ n % 32),
        Bool.true_and, Bool.true_and]
    · rw [if_neg (fun h => hin h.1), hout _ (by omega), UInt32.toNat_zero, Nat.zero_testBit, Nat.zero_testBit]

/-! ### The way through a big number -/

theorem ofBytes_memory (pn : List UInt32) : ofBytes (memory pn) = value pn := by
  induction pn with
  | nil => rfl
  | cons p pn ih =>
    rw [memory] at ih
    rw [memory, List.flatMap_cons, ofBytes_append, ih, length_leBytes, ofBytes_leBytes p.toNat_lt, value_cons]
    ring

theorem value_fromMemory (k : ℕ) (bytes : List UInt8) : value (fromMemory k bytes) = ofBytes bytes % 2 ^ (32 * k) := by
  induction k generalizing bytes with
  | zero => rw [Nat.mul_zero, pow_zero, Nat.mod_one]; rfl
  | succ k ih =>
    have hlt := ofBytes_lt (bytes.take 4)
    have hword : ofBytes (bytes.take 4) < 2 ^ 32 :=
      hlt.trans_le (Nat.pow_le_pow_right (n := 256) (by norm_num) (List.length_take_le 4 bytes))
    have hsplit : ofBytes bytes = ofBytes (bytes.take 4) + 2 ^ 32 * ofBytes (bytes.drop 4) := by
      have happend := ofBytes_append (bytes.take 4) (bytes.drop 4)
      rw [List.take_append_drop] at happend
      rw [happend]
      by_cases hlen : 4 ≤ bytes.length
      · rw [List.length_take, Nat.min_eq_left hlen]
        norm_num
      · rw [List.drop_eq_nil_of_le (by omega)]
        rfl
    rw [fromMemory, value_cons, ih, hsplit, mod_word, UInt32.toNat_ofNat', Nat.div_eq_of_lt hword, Nat.zero_add]

theorem length_fromMemory (k : ℕ) (bytes : List UInt8) : (fromMemory k bytes).length = k := by
  induction k generalizing bytes with
  | zero => rfl
  | succ k ih => exact congrArg (· + 1) (ih _)

theorem setuint256_eq (n : List UInt32) : setuint256 n = value n := by
  rw [setuint256, mpi2bn_mpiBytes, if_neg Bool.false_ne_true, beValue, List.reverse_reverse, ofBytes_memory]

theorem ofBytes_unsignedBytes (n : ℤ) : ofBytes (unsignedBytes n) = n.natAbs := by
  have hback := setvch_getvch n
  rw [setvch] at hback
  rw [unsignedBytes]
  rcases hv : (PayDayCoin.getvch n).reverse with _ | ⟨c, rest⟩
  · rw [hv] at hback
    rw [← hback]
    rfl
  · rw [hv] at hback
    rw [← hback, natAbs_mpi2bn, ← toNat_and_low, ← beValue_cons, beValue]

theorem value_getuint256 (n : ℤ) : value (getuint256 n) = n.natAbs % 2 ^ 256 := by
  rw [getuint256, value_fromMemory, ofBytes_unsignedBytes]

theorem getuint256_setuint256 {x : List UInt32} (hx : x.length = 8) : getuint256 (setuint256 x) = x := by
  refine value_inj (by rw [getuint256, length_fromMemory, hx]) ?_
  have hlt := value_lt x
  rw [hx] at hlt
  rw [value_getuint256, setuint256_eq, Int.natAbs_natCast, Nat.mod_eq_of_lt hlt]

/-! ### The compact format -/

theorem mpiSize_mono {v w : ℕ} (h : v ≤ w) : mpiSize v ≤ mpiSize w := by
  rw [mpiSize, mpiSize]
  by_cases hv : v = 0
  · rw [if_pos hv]
    exact Nat.zero_le _
  · have hlog : Nat.log2 v ≤ Nat.log2 w := (Nat.le_log2 (by omega)).2 ((Nat.log2_self_le hv).trans h)
    rw [if_neg hv, if_neg (by omega)]
    omega

theorem mpiSize_lt {v : ℕ} (hv : v < 256 ^ 254) : mpiSize v < 256 := by
  by_cases hzero : v = 0
  · rw [hzero]
    decide
  · obtain ⟨s, hs⟩ : ∃ s, mpiSize v = s + 1 := ⟨mpiSize v - 1, by rw [mpiSize, if_neg hzero]; omega⟩
    rw [hs]
    rcases ((mpiSize_eq_succ hzero).1 hs).2 with rfl | hle
    · decide
    · have hpow : 256 ^ (s - 1) < 256 ^ 254 := ((Nat.le_mul_of_pos_left _ (by norm_num)).trans hle).trans_lt hv
      have hexp := (Nat.pow_lt_pow_iff_right (by norm_num)).1 hpow
      omega

/-- Rounding down keeps the size. -/
theorem mpiSize_compactOf (v : ℕ) : mpiSize (compactOf v) = mpiSize v := by
  by_cases hsmall : mpiSize v ≤ 3
  · rw [compactOf, Nat.sub_eq_zero_of_le hsmall, pow_zero, Nat.div_one, Nat.mul_one]
  · obtain ⟨k, hk⟩ : ∃ k, mpiSize v = k + 4 := ⟨mpiSize v - 4, by omega⟩
    have hmantissa := le_mantissa (not_le.1 hsmall)
    have hle := compactOf_le v
    have hv : v ≠ 0 := by
      rintro rfl
      exact absurd hk (by simp [mpiSize])
    have hlt := ((mpiSize_eq_succ hv).1 hk).1
    have hlow : 128 * 256 ^ (k + 2) ≤ compactOf v := by
      rw [hk, show k + 4 - 3 = k + 1 by omega] at hmantissa
      have hmul := Nat.mul_le_mul_right (256 ^ (k + 1)) hmantissa
      rw [compactOf, hk, show k + 4 - 3 = k + 1 by omega, pow_succ 256 (k + 1)]
      omega
    have hpos : compactOf v ≠ 0 := by
      have : 0 < 256 ^ (k + 2) := by positivity
      omega
    rw [hk]
    exact (mpiSize_eq_succ hpos).2 ⟨by omega, .inr hlow⟩

theorem compactOf_compactOf (v : ℕ) : compactOf (compactOf v) = compactOf v := by
  have hpos : 0 < 256 ^ (mpiSize v - 3) := by positivity
  conv_lhs => rw [compactOf, mpiSize_compactOf]
  rw [compactOf, Nat.mul_div_cancel _ hpos]

/-- The sixteen highest bits stay. -/
theorem compactOf_div (v : ℕ) : compactOf v / 2 ^ (Nat.log2 v - 15) = v / 2 ^ (Nat.log2 v - 15) := by
  by_cases hsmall : mpiSize v ≤ 3
  · rw [compactOf, Nat.sub_eq_zero_of_le hsmall, pow_zero, Nat.div_one, Nat.mul_one]
  · have hexp : 8 * (mpiSize v - 3) ≤ Nat.log2 v - 15 := by
      have hv : v ≠ 0 := by
        rintro rfl
        exact hsmall (by simp [mpiSize])
      rw [mpiSize, if_neg hv] at hsmall ⊢
      omega
    obtain ⟨t, ht⟩ := Nat.exists_eq_add_of_le hexp
    have hpos : 0 < 2 ^ (8 * (mpiSize v - 3)) := by positivity
    rw [compactOf, pow_256, ht, pow_add, ← Nat.div_div_eq_div_mul, Nat.mul_div_cancel _ hpos, ← Nat.div_div_eq_div_mul]

theorem getCompact_mono {v w : ℕ} (hw : mpiSize w < 256) (h : v ≤ w) : getCompact v ≤ getCompact w := by
  have hsize := mpiSize_mono h
  have hv₁ := compactWord_lt v
  have hw₁ := compactWord_lt w
  have hword : mpiSize v = mpiSize w → compactWord v ≤ compactWord w := fun heq => by
    rw [compactWord, compactWord, heq]
    split
    · exact Nat.mul_le_mul_right _ h
    · exact Nat.div_le_div_right h
  rw [getCompact_eq, getCompact_eq, UInt32.le_iff_toNat_le, UInt32.toNat_ofNat', UInt32.toNat_ofNat',
    Nat.mod_eq_of_lt (by omega), Nat.mod_eq_of_lt (by omega)]
  rcases Nat.lt_or_eq_of_le hsize with hlt | heq
  · omega
  · have := hword heq
    omega

/-- **Words, big numbers and compact numbers**: a number of eight words comes back from a big number; the operators are
arithmetic modulo `2 ^ 256` and compare the numbers; and the compact form of a number of at most 254 bytes stands for a
number that is no larger, has its sixteen highest bits and its compact form, and is monotone. -/
theorem words_arithmetic {x y : List UInt32} (hx : x.length = 8) (hy : y.length = 8) (shift : UInt32) {v w : ℕ}
    (hw : w < 256 ^ 254) (hvw : v ≤ w) :
    (getuint256 (setuint256 x) = x ∧ setuint256 x = value x ∧ value x < 2 ^ 256) ∧
    (value (add x y) = (value x + value y) % 2 ^ 256 ∧
      value (sub x y) = (value x + (2 ^ 256 - value y)) % 2 ^ 256 ∧
      value (neg x) = (2 ^ 256 - value x) % 2 ^ 256 ∧
      value (increment x) = (value x + 1) % 2 ^ 256 ∧
      value (decrement x) = (value x + (2 ^ 256 - 1)) % 2 ^ 256 ∧
      value (shiftLeft x shift) = value x * 2 ^ shift.toNat % 2 ^ 256 ∧
      value (shiftRight x shift) = value x / 2 ^ shift.toNat) ∧
    ((lt x y = true ↔ value x < value y) ∧ (le x y = true ↔ value x ≤ value y) ∧ (gt x y = true ↔ value x > value y) ∧
      (ge x y = true ↔ value x ≥ value y) ∧ (equal x y = true ↔ value x = value y)) ∧
    ∃ r : ℕ, setCompact (getCompact v) = r ∧ r ≤ v ∧ r / 2 ^ (Nat.log2 v - 15) = v / 2 ^ (Nat.log2 v - 15) ∧
      setCompact (getCompact r) = r ∧ getCompact v ≤ getCompact w := by
  have hlen : x.length = y.length := hx.trans hy.symm
  have hxlt := value_lt x
  have hwords : 32 * x.length = 256 := by rw [hx]
  rw [hwords] at hxlt
  have hv := mpiSize_lt (hvw.trans_lt hw)
  have hcompare : ∀ less whenEqual, compareLoop less whenEqual x.reverse y.reverse =
      if value x < value y then less else if value y < value x then !less else whenEqual := fun less whenEqual => by
    rw [compareLoop_eq (by rw [List.length_reverse, List.length_reverse, hlen]), List.reverse_reverse,
      List.reverse_reverse]
  refine ⟨⟨getuint256_setuint256 hx, setuint256_eq x, hxlt⟩, ⟨?_, ?_, ?_, ?_, ?_, value_shiftLeft x shift,
    value_shiftRight hx shift⟩, ⟨?_, ?_, ?_, ?_, equal_iff hlen⟩, compactOf v, compact_spec_of_size hv, compactOf_le v,
    compactOf_div v, ?_, getCompact_mono (mpiSize_lt hw) hvw⟩
  · rw [add, value_addLoop hlen (by decide), hwords, UInt64.toNat_zero, Nat.zero_add]
  · rw [value_sub hlen, hwords]
  · rw [value_neg, hwords]
  · rw [value_increment, hwords]
  · rw [value_decrement, hwords]
  · rw [lt, hcompare]
    grind
  · rw [le, hcompare]
    grind
  · rw [gt, hcompare]
    grind
  · rw [ge, hcompare]
    grind
  · rw [compact_spec_of_size (by rwa [mpiSize_compactOf]), compactOf_compactOf]

/-- The sum of the greatest number and one is zero, and four bytes lose the last. -/
theorem words_arithmetic_wraps :
    value (add (List.replicate 8 0xffffffff) [1, 0, 0, 0, 0, 0, 0, 0]) = 0 ∧
      ∃ r : ℕ, setCompact (getCompact (0x12345678 : ℕ)) = r ∧ r ≤ 0x12345678 := by
  obtain ⟨-, ⟨hadd, -⟩, -, r, hr, hle, -⟩ := words_arithmetic (x := List.replicate 8 0xffffffff)
    (y := [1, 0, 0, 0, 0, 0, 0, 0]) List.length_replicate rfl 33 (v := 0x12345678) (w := 0x12345678)
    (lt_of_lt_of_le (by norm_num : 0x12345678 < 256 ^ 4) (Nat.pow_le_pow_right (by norm_num) (by norm_num))) le_rfl
  refine ⟨?_, r, hr, hle⟩
  rw [hadd]
  decide

end BaseUint

end PayDayCoin
