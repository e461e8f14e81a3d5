import PayDayCoin.Library.Codecs
import Mathlib

/-!
# Numerals without redundancy

A symbol is a digit of base `b` and whether more digits follow; the first digit is the highest. One is subtracted
from what stands before each digit that follows another, so a numeral with more digits is always a greater number, and
leading zeros mean something. Every number has exactly one numeral and no numeral is the start of another
(**`lawful_codec`**), every number below `b ^ k` has a numeral of at most `k` digits (**`length_encode_le`**), and
every row of symbols whose last one ends a numeral is a row of numerals in one way (**`existsUnique_numerals`**).
-/

namespace Library.Numerals

open Library.Codecs

variable {σ : Type*} {b : ℕ} [NeZero b] (e : Bool × Fin b ≃ σ)

/-- The digits, all followed by another, that have been read when the number is `m`. -/
def high : ℕ → List σ
  | 0 => []
  | m + 1 => high (m / b) ++ [e (true, Fin.ofNat b m)]
decreasing_by exact Nat.lt_succ_of_le (Nat.div_le_self m b)

/-- The numeral of a number. -/
def encode (n : ℕ) : List σ := high e (n / b) ++ [e (false, Fin.ofNat b n)]

/-- Read a numeral, when the digits before it have made `m`. -/
def scan : ℕ → List σ → Option (ℕ × List σ)
  | _, [] => none
  | m, x :: s =>
    if (e.symm x).1 then scan (m * b + (e.symm x).2 + 1) s else some (m * b + (e.symm x).2, s)

/-- Numerals as a codec. -/
def codec : Codec σ ℕ where
  size n := UInt32.ofNat (encode e n).length
  write := encode e
  read := scan e 0

@[simp] theorem high_zero : high e 0 = [] := by rw [high]

theorem ofNat_mul_add (m : ℕ) (d : Fin b) : Fin.ofNat b (m * b + d) = d := by
  apply Fin.ext
  simp only [Fin.val_ofNat, Nat.mul_add_mod', Nat.mod_eq_of_lt d.isLt]

theorem mul_add_div (m : ℕ) (d : Fin b) : (m * b + d) / b = m := by
  rw [Nat.mul_comm, Nat.mul_add_div (Nat.pos_of_neZero b), Nat.div_eq_of_lt d.isLt, Nat.add_zero]

theorem high_mul_add (m : ℕ) (d : Fin b) : high e (m * b + d + 1) = high e m ++ [e (true, d)] := by
  rw [high, mul_add_div, ofNat_mul_add]

theorem encode_mul_add (m : ℕ) (d : Fin b) : encode e (m * b + d) = high e m ++ [e (false, d)] := by
  rw [encode, mul_add_div, ofNat_mul_add]

theorem encode_ne_nil (n : ℕ) : encode e n ≠ [] := by simp [encode]

omit [NeZero b] in
theorem scan_cons (m : ℕ) (c : Bool) (d : Fin b) (s : List σ) :
    scan e m (e (c, d) :: s) = if c then scan e (m * b + d + 1) s else some (m * b + d, s) := by
  simp only [scan, Equiv.symm_apply_apply]

/-- A number is its digits. -/
theorem div_mul_add_ofNat (n : ℕ) : n / b * b + (Fin.ofNat b n : ℕ) = n := by
  rw [Fin.val_ofNat, Nat.mul_comm]
  exact Nat.div_add_mod n b

theorem scan_high (m : ℕ) (s : List σ) : scan e 0 (high e m ++ s) = scan e m s := by
  induction m using Nat.strongRecOn generalizing s with
  | ind m ih =>
    cases m with
    | zero => rw [high_zero, List.nil_append]
    | succ m =>
      rw [high, List.append_assoc, ih (m / b) (Nat.lt_succ_of_le (Nat.div_le_self m b)), List.singleton_append,
        scan_cons, if_pos rfl, div_mul_add_ofNat]

theorem scan_encode (n : ℕ) (s : List σ) : scan e 0 (encode e n ++ s) = some (n, s) := by
  rw [encode, List.append_assoc, scan_high, List.singleton_append, scan_cons, if_neg Bool.false_ne_true,
    div_mul_add_ofNat]

/-- What has been read and what is still to be read are a numeral and the rest. -/
theorem high_append_of_scan {m n : ℕ} {s rest : List σ} (h : scan e m s = some (n, rest)) :
    high e m ++ s = encode e n ++ rest := by
  induction s generalizing m with
  | nil => simp [scan] at h
  | cons x s ih =>
    obtain ⟨⟨c, d⟩, rfl⟩ := e.surjective x
    rw [scan_cons] at h
    cases c with
    | true =>
      have hrest := ih (m := m * b + d + 1) (by simpa using h)
      rw [← hrest, high_mul_add, List.append_assoc, List.singleton_append]
    | false =>
      obtain ⟨rfl, rfl⟩ : m * b + d = n ∧ s = rest := by simpa using h
      rw [encode_mul_add, List.append_assoc, List.singleton_append]

theorem lawful_codec : (codec e).Lawful fun _ => True where
  read_write _ rest := scan_encode e _ rest
  write_read h := by simpa [codec] using high_append_of_scan e h
  ok_of_read _ := trivial
  size_eq _ := rfl

/-! ### Length -/

theorem length_high_le {m k : ℕ} (h : m < b ^ k) : (high e m).length ≤ k := by
  induction k generalizing m with
  | zero =>
    obtain rfl : m = 0 := by simpa using h
    simp
  | succ k ih =>
    cases m with
    | zero => simp
    | succ m =>
      have hdiv : m / b < b ^ k := by
        rw [Nat.div_lt_iff_lt_mul (Nat.pos_of_neZero b), ← Nat.pow_succ]
        exact Nat.lt_of_succ_lt h
      have hle := ih hdiv
      rw [high, List.length_append, List.length_singleton]
      omega

theorem length_encode_le {n k : ℕ} (h : n < b ^ (k + 1)) : (encode e n).length ≤ k + 1 := by
  have hdiv : n / b < b ^ k := by rwa [Nat.div_lt_iff_lt_mul (Nat.pos_of_neZero b), ← Nat.pow_succ]
  rw [encode, List.length_append, List.length_singleton]
  exact Nat.succ_le_succ (length_high_le e hdiv)

/-! ### Rows of numerals -/

/-- Numerals one after the other. -/
def encodeAll (ns : List ℕ) : List σ := ns.flatMap (encode e)

/-- The last symbol, when there is one, has none to follow it. -/
def Ended (s : List σ) : Prop := ∀ x ∈ s.getLast?, (e.symm x).1 = false

theorem encodeAll_cons (n : ℕ) (ns : List ℕ) : encodeAll e (n :: ns) = encode e n ++ encodeAll e ns := rfl

theorem encodeAll_injective : Function.Injective (encodeAll e) := by
  intro ns
  induction ns with
  | nil =>
    intro ms h
    cases ms with
    | nil => rfl
    | cons m ms => exact absurd (List.append_eq_nil_iff.1 h.symm).1 (encode_ne_nil e m)
  | cons n ns ih =>
    intro ms h
    cases ms with
    | nil => exact absurd (List.append_eq_nil_iff.1 h).1 (encode_ne_nil e n)
    | cons m ms =>
      rw [encodeAll_cons, encodeAll_cons] at h
      obtain rfl : n = m := (lawful_codec e).write_inj trivial trivial h
      rw [ih (List.append_cancel_left h)]

theorem ended_encodeAll (ns : List ℕ) : Ended e (encodeAll e ns) := by
  intro x hx
  rcases List.eq_nil_or_concat ns with rfl | ⟨ns, n, rfl⟩
  · simp [encodeAll] at hx
  · have hlast : (encodeAll e (ns ++ [n])).getLast? = some (e (false, Fin.ofNat b n)) := by
      simp [encodeAll, encode, ← List.append_assoc]
    obtain rfl : e (false, Fin.ofNat b n) = x := by simpa [hlast] using hx
    rw [Equiv.symm_apply_apply]

/-- Behind digits that are followed by another, symbols that end a numeral are numerals. -/
theorem exists_numerals {m : ℕ} {x : σ} {s : List σ} (h : Ended e (x :: s)) :
    ∃ ns, high e m ++ x :: s = encodeAll e ns := by
  induction s generalizing m x with
  | nil =>
    obtain ⟨⟨c, d⟩, rfl⟩ := e.surjective x
    obtain rfl : c = false := by simpa [Ended] using h
    exact ⟨[m * b + d], by rw [encodeAll_cons, encode_mul_add]; simp [encodeAll]⟩
  | cons y s ih =>
    obtain ⟨⟨c, d⟩, rfl⟩ := e.surjective x
    have htail : Ended e (y :: s) := fun z hz => h z (by simpa using hz)
    cases c with
    | true =>
      obtain ⟨ns, hns⟩ := ih (m := m * b + d + 1) htail
      refine ⟨ns, ?_⟩
      rw [← hns, high_mul_add, List.append_assoc, List.singleton_append]
    | false =>
      obtain ⟨ns, hns⟩ := ih (m := 0) htail
      refine ⟨(m * b + d) :: ns, ?_⟩
      rw [encodeAll_cons, encode_mul_add, ← hns, high_zero, List.append_assoc, List.singleton_append, List.nil_append]

theorem existsUnique_numerals (s : List σ) : (∃! ns, encodeAll e ns = s) ↔ Ended e s := by
  constructor
  · rintro ⟨ns, rfl, -⟩
    exact ended_encodeAll e ns
  · intro h
    obtain ⟨ns, rfl⟩ : ∃ ns, encodeAll e ns = s := by
      cases s with
      | nil => exact ⟨[], rfl⟩
      | cons x s =>
        obtain ⟨ns, hns⟩ := exists_numerals e (m := 0) h
        exact ⟨ns, by rw [← hns, high_zero, List.nil_append]⟩
    exact ⟨ns, rfl, fun ms hms => encodeAll_injective e hms⟩

end Library.Numerals
