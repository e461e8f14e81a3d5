import Mathlib.Data.Nat.Digits.Defs
import Mathlib.Data.List.DropRight

/-!
# Changing the base of a number

A number is kept as a list of digits of one base, the lowest first and of a fixed length, and is multiplied by
another base and increased by a digit, digit by digit with a carry (`mulAdd`). Going through the digits of a number
in the other base, the highest first, turns it into the base of the list (**`ofDigits_convert`**), if the list is
long enough.
-/

namespace Library.Digits

/-- Multiply digits of base `b` by `a` and add a carry; what is left over is the second part. -/
def mulAdd (b a : ℕ) : ℕ → List ℕ → List ℕ × ℕ
  | carry, [] => ([], carry)
  | carry, d :: ds =>
    let r := mulAdd b a ((carry + a * d) / b) ds
    ((carry + a * d) % b :: r.1, r.2)

/-- The number of digits in base `a`, the highest first, above a number that stands before them. -/
def value (a n : ℕ) (ds : List ℕ) : ℕ := ds.foldl (fun n d => a * n + d) n

/-- Digits of base `a`, the highest first, brought into a list of digits of base `b`. -/
def convert (b a : ℕ) (acc : List ℕ) (ds : List ℕ) : List ℕ := ds.foldl (fun acc d => (mulAdd b a d acc).1) acc

/-- What is left over by each multiplication of a conversion. -/
def carries (b a : ℕ) : List ℕ → List ℕ → List ℕ
  | _, [] => []
  | acc, d :: ds => (mulAdd b a d acc).2 :: carries b a (mulAdd b a d acc).1 ds

section MulAdd

variable {a b : ℕ}

theorem length_mulAdd (carry : ℕ) (ds : List ℕ) : (mulAdd b a carry ds).1.length = ds.length := by
  induction ds generalizing carry with
  | nil => rfl
  | cons d ds ih => rw [mulAdd, List.length_cons, ih, List.length_cons]

theorem mulAdd_lt (hb : 0 < b) {carry d : ℕ} {ds : List ℕ} (h : d ∈ (mulAdd b a carry ds).1) : d < b := by
  induction ds generalizing carry with
  | nil => cases h
  | cons d' ds ih =>
    rw [mulAdd] at h
    rcases List.mem_cons.1 h with rfl | h
    · exact Nat.mod_lt _ hb
    · exact ih h

/-- What a multiplication does to the number, and what is left over. -/
theorem ofDigits_mulAdd (carry : ℕ) (ds : List ℕ) :
    Nat.ofDigits b (mulAdd b a carry ds).1 + b ^ ds.length * (mulAdd b a carry ds).2 =
      a * Nat.ofDigits b ds + carry := by
  induction ds generalizing carry with
  | nil => simp [mulAdd]
  | cons d ds ih =>
    have hdiv := Nat.div_add_mod (carry + a * d) b
    have hrest := ih ((carry + a * d) / b)
    rw [mulAdd, Nat.ofDigits_cons, Nat.ofDigits_cons, List.length_cons, Nat.pow_succ]
    calc (carry + a * d) % b + b * Nat.ofDigits b (mulAdd b a ((carry + a * d) / b) ds).1 +
          b ^ ds.length * b * (mulAdd b a ((carry + a * d) / b) ds).2
        = (carry + a * d) % b + b * (Nat.ofDigits b (mulAdd b a ((carry + a * d) / b) ds).1 +
            b ^ ds.length * (mulAdd b a ((carry + a * d) / b) ds).2) := by ring
      _ = b * ((carry + a * d) / b) + (carry + a * d) % b + a * (b * Nat.ofDigits b ds) := by rw [hrest]; ring
      _ = a * (d + b * Nat.ofDigits b ds) + carry := by rw [hdiv]; ring

end MulAdd

section Convert

variable {a b : ℕ}

theorem le_value (ha : 0 < a) (n : ℕ) (ds : List ℕ) : n ≤ value a n ds := by
  induction ds generalizing n with
  | nil => exact le_rfl
  | cons d ds ih =>
    have hstep := ih (a * n + d)
    have hmul := Nat.le_mul_of_pos_left n ha
    rw [value, List.foldl_cons]
    exact (by omega : n ≤ a * n + d).trans hstep

theorem value_eq_ofDigits (ds : List ℕ) : value a 0 ds = Nat.ofDigits a ds.reverse := by
  rw [Nat.ofDigits_eq_foldr, List.foldr_reverse, value]
  congr 1
  funext n d
  rw [Nat.add_comm]
  rfl

theorem value_lt (ha : 1 < a) {ds : List ℕ} (h : ∀ d ∈ ds, d < a) : value a 0 ds < a ^ ds.length := by
  rw [value_eq_ofDigits, ← List.length_reverse]
  exact Nat.ofDigits_lt_base_pow_length ha fun d hd => h d (List.mem_reverse.1 hd)

theorem length_convert (acc ds : List ℕ) : (convert b a acc ds).length = acc.length := by
  induction ds generalizing acc with
  | nil => rfl
  | cons d ds ih => exact (ih _).trans (length_mulAdd d acc)

theorem convert_lt (hb : 0 < b) {acc ds : List ℕ} (hacc : ∀ d ∈ acc, d < b) {d : ℕ} (h : d ∈ convert b a acc ds) :
    d < b := by
  induction ds generalizing acc with
  | nil => exact hacc d h
  | cons d' ds ih => exact ih (fun d hd => mulAdd_lt hb hd) h

/-- A multiplication leaves nothing over, if the list is long enough for what comes of it. -/
theorem mulAdd_fits (ha : 0 < a) {acc ds : List ℕ} {d : ℕ}
    (h : value a (Nat.ofDigits b acc) (d :: ds) < b ^ acc.length) :
    (mulAdd b a d acc).2 = 0 ∧ Nat.ofDigits b (mulAdd b a d acc).1 = a * Nat.ofDigits b acc + d := by
  have hstep := ofDigits_mulAdd (b := b) (a := a) d acc
  have hle : a * Nat.ofDigits b acc + d ≤ value a (Nat.ofDigits b acc) (d :: ds) := le_value ha _ ds
  have hcarry : (mulAdd b a d acc).2 = 0 := by
    by_contra hne
    have hpow := Nat.le_mul_of_pos_right (b ^ acc.length) (Nat.pos_of_ne_zero hne)
    omega
  rw [hcarry, Nat.mul_zero, Nat.add_zero] at hstep
  exact ⟨hcarry, hstep⟩

/-- **No multiplication leaves anything over**, if the list is long enough for the number. -/
theorem carries_eq_zero (ha : 0 < a) {acc ds : List ℕ} (h : value a (Nat.ofDigits b acc) ds < b ^ acc.length) :
    ∀ carry ∈ carries b a acc ds, carry = 0 := by
  induction ds generalizing acc with
  | nil =>
    rintro carry hmem
    cases hmem
  | cons d ds ih =>
    obtain ⟨hcarry, hstep⟩ := mulAdd_fits ha h
    intro carry hmem
    rcases List.mem_cons.1 hmem with rfl | hmem
    · exact hcarry
    · refine ih ?_ carry hmem
      rw [hstep, length_mulAdd]
      exact h

/-- **The conversion of a number**, into a list that is long enough for it. -/
theorem ofDigits_convert (ha : 0 < a) {acc ds : List ℕ}
    (h : value a (Nat.ofDigits b acc) ds < b ^ acc.length) :
    Nat.ofDigits b (convert b a acc ds) = value a (Nat.ofDigits b acc) ds := by
  induction ds generalizing acc with
  | nil => rfl
  | cons d ds ih =>
    obtain ⟨-, hstep⟩ := mulAdd_fits ha h
    have hrest : Nat.ofDigits b (convert b a (mulAdd b a d acc).1 ds) =
        value a (Nat.ofDigits b (mulAdd b a d acc).1) ds :=
      ih (by rw [hstep, length_mulAdd]; exact h)
    rw [hstep] at hrest
    exact hrest

/-- Leading zeros do not count. -/
theorem value_dropWhile (ds : List ℕ) : value a 0 (ds.dropWhile (· = 0)) = value a 0 ds := by
  induction ds with
  | nil => rfl
  | cons d ds ih =>
    rw [List.dropWhile_cons]
    split
    · next h =>
      rw [ih, value, value, List.foldl_cons, Nat.mul_zero, of_decide_eq_true h]
    · rfl

end Convert

end Library.Digits
