import PayDayCoin.Base58
import PayDayCoin.Transaction
import Mathlib.Data.List.TakeWhile
import Mathlib.Tactic.Ring
import Mathlib.Tactic.NormNum

/-!
# Amounts as text

`FormatMoney` writes an amount as coins with two to eight digits behind the point, and `ParseMoney` reads the digits of
the coins and those of the units one after the other, with spaces around them.

**`parseMoney_formatMoney_and_iff`**: what is written is read back, up to ten thousand million coins, and a text is
accepted with a value if and only if it is a decimal number of at most ten digits in front of the point and eight behind
it with this value, which fits. The text is a C string: it ends at a NUL (`MoneySample.behind_nul`).
-/

namespace PayDayCoin

/-! ### `FormatMoney` -/

/-- The loop that counts the zeros to be trimmed, over the text from its end. -/
def nTrim : List Char → ℕ
  | c :: d :: e :: str => if c = '0' ∧ e.isDigit then nTrim (d :: e :: str) + 1 else 0
  | _ => 0

/-- `%08d`. -/
def eightDigits (n : ℕ) : List Char := (Nat.toDigits 10 n).leftpad 8 '0'

/-- `FormatMoney`. -/
def formatMoney (n : ℤ) (fPlus : Bool) : String :=
  let n_abs := n.natAbs
  let quotient := n_abs / COIN.toNat
  let remainder := n_abs % COIN.toNat
  let str := Nat.toDigits 10 quotient ++ '.' :: eightDigits remainder
  let str := (str.reverse.drop (nTrim str.reverse)).reverse
  String.ofList (if n < 0 then '-' :: str else if fPlus ∧ 0 < n then '+' :: str else str)

/-! ### `ParseMoney` -/

/-- The digits behind the point, as units, and what is left. -/
def parseUnits : ℤ → List Char → ℤ × List Char
  | _, [] => (0, [])
  | nMult, c :: p =>
    if c.isDigit ∧ 0 < nMult then
      let (nUnits, rest) := parseUnits (nMult / 10) p
      (nMult * (c.toNat - '0'.toNat : ℕ) + nUnits, rest)
    else (0, c :: p)

/-- The first loop over the text: the digits in front of the point, the units, and what is left. -/
def parseWhole : List Char → Option (List Char × ℤ × List Char)
  | [] => some ([], 0, [])
  | c :: p =>
    if c = '.' then some ([], parseUnits (CENT * 10) p)
    else if isspace c then some ([], 0, c :: p)
    else if !c.isDigit then none
    else (parseWhole p).map fun (strWhole, nUnits, rest) => (c :: strWhole, nUnits, rest)

/-- `ParseMoney` of a C string. -/
def parseMoneyC (pszIn : List Char) : Option ℤ := do
  let (strWhole, nUnits, p) ← parseWhole (pszIn.dropWhile isspace)
  if !p.all isspace then none
  else if 10 < strWhole.length then none
  else if nUnits < 0 ∨ COIN < nUnits then none
  else
    -- `atoi64` of at most ten digits
    let nWhole : ℤ := Nat.ofDigitChars 10 strWhole 0
    some (nWhole * COIN + nUnits)

/-- `ParseMoney` of a string, by its `c_str()`. -/
def parseMoney (str : String) : Option ℤ := parseMoneyC (str.toList.takeWhile (· ≠ '\x00'))

/-! ### Decimal numbers -/

/-- A text is some digits of coins, and perhaps a point with some digits of units, with spaces around them. -/
structure MoneyForm (str : List Char) (before whole : List Char) (units : Option (List Char)) (after : List Char) :
    Prop where
  text : str = before ++ (whole ++ (units.elim [] ('.' :: ·) ++ after))
  before_space : ∀ c ∈ before, isspace c = true
  after_space : ∀ c ∈ after, isspace c = true
  whole_digit : ∀ c ∈ whole, c.isDigit = true
  units_digit : ∀ c ∈ units.getD [], c.isDigit = true
  length_whole : whole.length ≤ 10
  length_units : (units.getD []).length ≤ 8

/-- The value of digits that are filled up with zeros behind them. -/
def filledDigits (k : ℕ) (digits : List Char) : ℤ := Nat.ofDigitChars 10 digits 0 * 10 ^ (k - digits.length)

/-- The value of digits of coins and of units. -/
def moneyValue (whole units : List Char) : ℤ := Nat.ofDigitChars 10 whole 0 * COIN + filledDigits 8 units

/-- A text is a decimal number with a value. -/
def IsMoney (str : List Char) (n : ℤ) : Prop :=
  ∃ before whole units after, MoneyForm str before whole units after ∧ n = moneyValue whole (units.getD [])

/-! ### Characters and digits -/

theorem toNat_of_isDigit {c : Char} (h : c.isDigit = true) : 48 ≤ c.toNat ∧ c.toNat ≤ 57 := by
  rw [Char.isDigit, Bool.and_eq_true, decide_eq_true_eq, decide_eq_true_eq] at h
  exact h

theorem not_isspace_of_isDigit {c : Char} (h : c.isDigit = true) : isspace c = false := by
  obtain ⟨hlow, hhigh⟩ := toNat_of_isDigit h
  rw [isspace, Bool.or_eq_false_iff, Bool.and_eq_false_iff, decide_eq_false_iff_not, decide_eq_false_iff_not,
    decide_eq_false_iff_not]
  constructor
  · rintro rfl
    exact absurd hlow (by decide)
  · right
    intro hle
    have hle' : c.toNat ≤ 13 := hle
    omega

theorem not_isDigit_of_isspace {c : Char} (h : isspace c = true) : c.isDigit = false := by
  rw [← Bool.not_eq_true]
  intro hdigit
  rw [not_isspace_of_isDigit hdigit] at h
  cases h

theorem ofDigitChars_cons_zero (c : Char) (l : List Char) :
    Nat.ofDigitChars 10 (c :: l) 0 = 10 ^ l.length * (c.toNat - '0'.toNat) + Nat.ofDigitChars 10 l 0 := by
  rw [Nat.ofDigitChars_cons, Nat.ofDigitChars_eq_ofDigitChars_zero, Nat.mul_zero, Nat.zero_add]

theorem ofDigitChars_lt {l : List Char} (h : ∀ c ∈ l, c.isDigit = true) : Nat.ofDigitChars 10 l 0 < 10 ^ l.length := by
  induction l with
  | nil => exact Nat.one_pos
  | cons c l ih =>
    have hlt := ih fun c' hc' => h c' (List.mem_cons_of_mem _ hc')
    have hdigit := (toNat_of_isDigit (h c List.mem_cons_self)).2
    have hle : c.toNat - '0'.toNat ≤ 9 := by
      change c.toNat - 48 ≤ 9
      omega
    rw [ofDigitChars_cons_zero, List.length_cons, Nat.pow_succ]
    have hmul := Nat.mul_le_mul_left (10 ^ l.length) hle
    omega

theorem filled_nil (k : ℕ) : filledDigits k [] = 0 := by
  rw [filledDigits, Nat.ofDigitChars_nil, Nat.cast_zero, zero_mul]

theorem filled_cons {l : List Char} {k : ℕ} (h : l.length ≤ k) (c : Char) :
    filledDigits (k + 1) (c :: l) = 10 ^ k * (c.toNat - '0'.toNat : ℕ) + filledDigits k l := by
  have hpow : (10 : ℤ) ^ l.length * 10 ^ (k - l.length) = 10 ^ k := by
    rw [← pow_add, Nat.add_sub_cancel' h]
  rw [filledDigits, filledDigits, ofDigitChars_cons_zero, List.length_cons, Nat.add_sub_add_right, ← hpow]
  push_cast
  ring

/-! ### The digits behind the point -/

/-- The weight of the first of `k` digits. -/
def weight : ℕ → ℤ
  | 0 => 0
  | k + 1 => 10 ^ k

theorem weight_pos (k : ℕ) : 0 < weight (k + 1) := pow_pos (by norm_num) k

theorem weight_div (k : ℕ) : weight (k + 1) / 10 = weight k := by
  cases k with
  | zero => rfl
  | succ k => rw [weight, weight, pow_succ, Int.mul_ediv_cancel _ (by norm_num)]

theorem parseUnits_cons {k : ℕ} {c : Char} (h : c.isDigit = true) (p : List Char) :
    parseUnits (weight (k + 1)) (c :: p) =
      (10 ^ k * (c.toNat - '0'.toNat : ℕ) + (parseUnits (weight k) p).1, (parseUnits (weight k) p).2) := by
  rw [parseUnits, if_pos ⟨h, weight_pos k⟩, weight_div]
  rfl

theorem parseUnits_stop {k : ℕ} {p : List Char} (h : k = 0 ∨ ∀ c ∈ p.head?, c.isDigit = false) :
    parseUnits (weight k) p = (0, p) := by
  cases p with
  | nil => rfl
  | cons c p =>
    rw [parseUnits, if_neg]
    rintro ⟨hdigit, hpos⟩
    rcases h with rfl | h
    · exact absurd hpos (lt_irrefl 0)
    · rw [h c rfl] at hdigit
      cases hdigit

/-- At most `k` digits are read. -/
theorem parseUnits_spec (k : ℕ) (p : List Char) : ∃ units rest, p = units ++ rest ∧
    (∀ c ∈ units, c.isDigit = true) ∧ units.length ≤ k ∧
    parseUnits (weight k) p = (filledDigits k units, rest) := by
  have hnone : ∀ {k : ℕ} {p : List Char}, (k = 0 ∨ ∀ c ∈ p.head?, c.isDigit = false) → ∃ units rest, p = units ++ rest ∧
      (∀ c ∈ units, c.isDigit = true) ∧ units.length ≤ k ∧
      parseUnits (weight k) p = (filledDigits k units, rest) := by
    intro k p h
    refine ⟨[], p, rfl, fun c hc => (nomatch hc), Nat.zero_le _, ?_⟩
    rw [parseUnits_stop h, filled_nil]
  induction p generalizing k with
  | nil => exact hnone (.inr fun c hc => (nomatch hc))
  | cons c p ih =>
    cases k with
    | zero => exact hnone (.inl rfl)
    | succ k =>
      by_cases hdigit : c.isDigit = true
      · obtain ⟨units, rest, rfl, hunits, hlength, hparse⟩ := ih k
        refine ⟨c :: units, rest, rfl, List.forall_mem_cons.2 ⟨hdigit, hunits⟩, Nat.succ_le_succ hlength, ?_⟩
        rw [parseUnits_cons hdigit, hparse, filled_cons hlength]
      · refine hnone (.inr fun c' hc' => ?_)
        rw [Option.mem_def, List.head?_cons, Option.some.injEq] at hc'
        rw [← hc']
        exact Bool.eq_false_iff.2 hdigit

/-- The digits of units are read, up to what is no digit. -/
theorem parseUnits_append {k : ℕ} {units rest : List Char} (hunits : ∀ c ∈ units, c.isDigit = true)
    (hlength : units.length ≤ k) (hrest : ∀ c ∈ rest.head?, c.isDigit = false) :
    parseUnits (weight k) (units ++ rest) = (filledDigits k units, rest) := by
  induction units generalizing k with
  | nil => rw [List.nil_append, parseUnits_stop (.inr hrest), filled_nil]
  | cons c units ih =>
    cases k with
    | zero => cases hlength
    | succ k =>
      have hlength' : units.length ≤ k := Nat.le_of_succ_le_succ hlength
      rw [List.cons_append, parseUnits_cons (hunits c List.mem_cons_self),
        ih (fun c' hc' => hunits c' (List.mem_cons_of_mem _ hc')) hlength', filled_cons hlength']

/-! ### The text -/

theorem head_not_isDigit {l : List Char} (h : ∀ c ∈ l, isspace c = true) : ∀ c ∈ l.head?, c.isDigit = false :=
  fun _ hc => not_isDigit_of_isspace (h _ (List.mem_of_mem_head? hc))

theorem parseWhole_point (p : List Char) : parseWhole ('.' :: p) = some ([], parseUnits (weight 8) p) := by
  rw [parseWhole, if_pos rfl]
  rfl

theorem parseWhole_digit {c : Char} (h : c.isDigit = true) (p : List Char) : parseWhole (c :: p) =
    (parseWhole p).map fun (strWhole, nUnits, rest) => (c :: strWhole, nUnits, rest) := by
  have hpoint : c ≠ '.' := by
    rintro rfl
    cases h
  rw [parseWhole, if_neg hpoint, not_isspace_of_isDigit h, if_neg Bool.false_ne_true, h]
  rfl

theorem parseWhole_spaces {p : List Char} (h : ∀ c ∈ p, isspace c = true) : parseWhole p = some ([], 0, p) := by
  cases p with
  | nil => rfl
  | cons c p =>
    have hspace := h c List.mem_cons_self
    have hpoint : c ≠ '.' := by
      rintro rfl
      cases hspace
    rw [parseWhole, if_neg hpoint, if_pos hspace]

/-- **A decimal number is read**, in two parts. -/
theorem parseWhole_append {whole after : List Char} {units : Option (List Char)}
    (hwhole : ∀ c ∈ whole, c.isDigit = true) (hunits : ∀ c ∈ units.getD [], c.isDigit = true)
    (hlength : (units.getD []).length ≤ 8) (hafter : ∀ c ∈ after, isspace c = true) :
    parseWhole (whole ++ (units.elim [] ('.' :: ·) ++ after)) = some (whole, filledDigits 8 (units.getD []), after) := by
  induction whole with
  | nil =>
    cases units with
    | none =>
      rw [List.nil_append, Option.elim_none, List.nil_append, parseWhole_spaces hafter, Option.getD_none, filled_nil]
    | some units =>
      rw [Option.getD_some] at hunits hlength ⊢
      rw [List.nil_append, Option.elim_some, List.cons_append, parseWhole_point,
        parseUnits_append hunits hlength (head_not_isDigit hafter)]
  | cons c whole ih =>
    rw [List.cons_append, parseWhole_digit (hwhole c List.mem_cons_self),
      ih fun c' hc' => hwhole c' (List.mem_cons_of_mem _ hc')]
    rfl

/-- **What is read** are the digits of a decimal number. -/
theorem parseWhole_spec {p whole rest : List Char} {nUnits : ℤ} (h : parseWhole p = some (whole, nUnits, rest)) :
    ∃ units : Option (List Char), p = whole ++ (units.elim [] ('.' :: ·) ++ rest) ∧ (∀ c ∈ whole, c.isDigit = true) ∧
      (∀ c ∈ units.getD [], c.isDigit = true) ∧ (units.getD []).length ≤ 8 ∧ nUnits = filledDigits 8 (units.getD []) := by
  induction p generalizing whole with
  | nil =>
    cases h
    exact ⟨none, rfl, fun c hc => (nomatch hc), fun c hc => (nomatch hc), Nat.zero_le _, (filled_nil 8).symm⟩
  | cons c p ih =>
    by_cases hpoint : c = '.'
    · subst hpoint
      obtain ⟨units, rest', hp, hunits, hlength, hparse⟩ := parseUnits_spec 8 p
      rw [parseWhole_point, hparse] at h
      cases h
      exact ⟨some units, congrArg ('.' :: ·) hp, fun c hc => (nomatch hc), hunits, hlength, rfl⟩
    by_cases hspace : isspace c = true
    · rw [parseWhole, if_neg hpoint, if_pos hspace] at h
      cases h
      exact ⟨none, rfl, fun c hc => (nomatch hc), fun c hc => (nomatch hc), Nat.zero_le _, (filled_nil 8).symm⟩
    by_cases hdigit : c.isDigit = true
    · rw [parseWhole_digit hdigit, Option.map_eq_some_iff] at h
      obtain ⟨⟨whole', nUnits', rest'⟩, hparse, heq⟩ := h
      cases heq
      obtain ⟨units, hp, hwhole, hunits⟩ := ih hparse
      exact ⟨units, congrArg (c :: ·) hp, List.forall_mem_cons.2 ⟨hdigit, hwhole⟩, hunits⟩
    · rw [parseWhole, if_neg hpoint, if_neg hspace, Bool.eq_false_iff.2 hdigit] at h
      cases h

theorem filled_range {units : List Char} (hunits : ∀ c ∈ units, c.isDigit = true) (hlength : units.length ≤ 8) :
    0 ≤ filledDigits 8 units ∧ filledDigits 8 units < COIN := by
  have hlt : ((Nat.ofDigitChars 10 units 0 : ℕ) : ℤ) < 10 ^ units.length := by
    exact_mod_cast ofDigitChars_lt hunits
  have hpow : (10 : ℤ) ^ units.length * 10 ^ (8 - units.length) = COIN := by
    rw [← pow_add, Nat.add_sub_cancel' hlength]
    rfl
  have hpos : (0 : ℤ) < 10 ^ (8 - units.length) := pow_pos (by norm_num) _
  rw [filledDigits, ← hpow]
  exact ⟨by positivity, mul_lt_mul_of_pos_right hlt hpos⟩

/-- The spaces in front of a decimal number are skipped. -/
theorem parseWhole_dropWhile {before whole after : List Char} {units : Option (List Char)}
    (h : MoneyForm (before ++ (whole ++ (units.elim [] ('.' :: ·) ++ after))) before whole units after) :
    ∃ rest, parseWhole ((before ++ (whole ++ (units.elim [] ('.' :: ·) ++ after))).dropWhile isspace) =
      some (whole, filledDigits 8 (units.getD []), rest) ∧ ∀ c ∈ rest, isspace c = true := by
  have hread := parseWhole_append h.whole_digit h.units_digit h.length_units h.after_space
  rw [List.dropWhile_append_of_pos h.before_space]
  cases hcase : whole with
  | cons c whole' =>
    have hdigit := h.whole_digit c (hcase ▸ List.mem_cons_self)
    rw [hcase] at hread
    rw [List.cons_append, List.dropWhile_cons_of_neg (Bool.eq_false_iff.1 (not_isspace_of_isDigit hdigit))]
    exact ⟨after, hread, h.after_space⟩
  | nil =>
    rw [hcase] at hread
    cases units with
    | some units =>
      rw [List.nil_append, Option.elim_some, List.cons_append, List.dropWhile_cons_of_neg (by decide)]
      exact ⟨after, hread, h.after_space⟩
    | none =>
      rw [List.nil_append, Option.elim_none, List.nil_append, List.dropWhile_eq_nil_iff.2 h.after_space]
      exact ⟨[], by rw [Option.getD_none, filled_nil]; rfl, fun c hc => (nomatch hc)⟩

/-- **A text is accepted** if and only if it is a decimal number with the value. -/
theorem parseMoneyC_eq_some_iff {str : List Char} {n : ℤ} : parseMoneyC str = some n ↔ IsMoney str n := by
  rw [parseMoneyC]
  constructor
  · intro h
    obtain ⟨⟨whole, nUnits, rest⟩, hparse, h⟩ := Option.bind_eq_some_iff.1 h
    obtain ⟨units, htext, hwhole, hunits, hlength, rfl⟩ := parseWhole_spec hparse
    dsimp only at h
    split at h
    · cases h
    rename_i hrest
    split at h
    · cases h
    rename_i hten
    split at h
    · cases h
    cases h
    rw [Bool.not_eq_true, Bool.not_eq_false', List.all_eq_true] at hrest
    refine ⟨str.takeWhile isspace, whole, units, rest, ⟨?_, ?_, hrest, hwhole, hunits, ?_, hlength⟩, rfl⟩
    · rw [← htext, List.takeWhile_append_dropWhile]
    · exact fun c hc => List.mem_takeWhile_imp hc
    · exact Nat.not_lt.1 hten
  · rintro ⟨before, whole, units, after, hform, rfl⟩
    obtain rfl := hform.text
    obtain ⟨hpos, hlt⟩ := filled_range hform.units_digit hform.length_units
    obtain ⟨rest, hparse, hrest⟩ := parseWhole_dropWhile hform
    refine Option.bind_eq_some_iff.2 ⟨_, hparse, ?_⟩
    dsimp only
    rw [if_neg (by rw [List.all_eq_true.2 hrest]; exact Bool.false_ne_true), if_neg (Nat.not_lt.2 hform.length_whole),
      if_neg (by omega)]
    rfl

/-- The value of a text fits. -/
theorem IsMoney.range {str : List Char} {n : ℤ} (h : IsMoney str n) : 0 ≤ n ∧ n < 10 ^ 18 := by
  obtain ⟨before, whole, units, after, hform, rfl⟩ := h
  obtain ⟨hpos, hlt⟩ := filled_range hform.units_digit hform.length_units
  have hwhole : Nat.ofDigitChars 10 whole 0 < 10 ^ 10 :=
    (ofDigitChars_lt hform.whole_digit).trans_le (Nat.pow_le_pow_right (by norm_num) hform.length_whole)
  rw [COIN] at hlt
  rw [moneyValue, COIN]
  omega

/-! ### What is written -/

/-- Only zeros are trimmed, and not the first two digits behind the point. -/
theorem nTrim_spec (units whole : List Char) (h : 2 ≤ units.length) :
    nTrim (units ++ '.' :: whole) ≤ units.length ∧
      units.take (nTrim (units ++ '.' :: whole)) = List.replicate (nTrim (units ++ '.' :: whole)) '0' := by
  induction units with
  | nil => cases h
  | cons c units ih =>
    cases units with
    | nil => exact absurd h (Nat.not_succ_le_self 1)
    | cons d units =>
      cases units with
      | nil =>
        have hstop : nTrim (c :: d :: '.' :: whole) = 0 := by
          rw [nTrim, if_neg]
          exact fun hc => absurd hc.2 (by decide)
        rw [List.cons_append, List.cons_append, List.nil_append, hstop]
        exact ⟨Nat.zero_le _, rfl⟩
      | cons e units =>
        obtain ⟨hle, hzeros⟩ := ih (Nat.le_add_left _ _)
        have hnext : nTrim (c :: d :: e :: (units ++ '.' :: whole)) =
            if c = '0' ∧ e.isDigit then nTrim (d :: e :: (units ++ '.' :: whole)) + 1 else 0 := rfl
        rw [List.cons_append, List.cons_append] at hle hzeros
        rw [List.cons_append, List.cons_append, List.cons_append, hnext]
        split
        · rename_i hc
          exact ⟨Nat.succ_le_succ hle, by rw [List.take_succ_cons, hzeros, hc.1]; rfl⟩
        · exact ⟨Nat.zero_le _, rfl⟩

theorem eightDigits_spec {n : ℕ} (h : n < 10 ^ 8) : (eightDigits n).length = 8 ∧
    (∀ c ∈ eightDigits n, c.isDigit = true) ∧ Nat.ofDigitChars 10 (eightDigits n) 0 = n := by
  have hlength : (Nat.toDigits 10 n).length ≤ 8 := (Nat.length_toDigits_le_iff (by norm_num) (by norm_num)).2 h
  rw [eightDigits]
  refine ⟨?_, ?_, ?_⟩
  · rw [List.leftpad, List.length_append, List.length_replicate, Nat.sub_add_cancel hlength]
  · intro c hc
    rw [List.leftpad] at hc
    rcases List.mem_append.1 hc with hc | hc
    · rw [List.eq_of_mem_replicate hc]
      rfl
    · exact Nat.isDigit_of_mem_toDigits (by norm_num) (by norm_num) hc
  · rw [List.leftpad, Nat.ofDigitChars_append, Nat.ofDigitChars_replicate_zero, Nat.mul_zero,
      Nat.ofDigitChars_ten_toDigits]

/-- The trimmed text. -/
theorem trim_eq {units : List Char} (whole : List Char) (h : 2 ≤ units.length) : ∃ units' k,
    ((whole ++ '.' :: units).reverse.drop (nTrim (whole ++ '.' :: units).reverse)).reverse = whole ++ '.' :: units' ∧
      units = units' ++ List.replicate k '0' := by
  have hreverse : (whole ++ '.' :: units).reverse = units.reverse ++ '.' :: whole.reverse := by
    rw [List.reverse_append, List.reverse_cons, List.append_assoc, List.singleton_append]
  obtain ⟨hle, hzeros⟩ := nTrim_spec units.reverse whole.reverse (by rwa [List.length_reverse])
  rw [hreverse]
  generalize nTrim (units.reverse ++ '.' :: whole.reverse) = k at hle hzeros ⊢
  refine ⟨(units.reverse.drop k).reverse, k, ?_, ?_⟩
  · rw [List.drop_append_of_le_length hle, List.reverse_append, List.reverse_cons, List.reverse_reverse,
      List.append_assoc, List.singleton_append]
  · have hsplit := congrArg List.reverse (List.take_append_drop k units.reverse)
    rw [List.reverse_append, List.reverse_reverse, hzeros, List.reverse_replicate] at hsplit
    exact hsplit.symm

/-- **What is written** is a decimal number with the amount for its value. -/
theorem formatMoney_isMoney {n : ℤ} (hpos : 0 ≤ n) (hlt : n < 10 ^ 18) :
    IsMoney (formatMoney n false).toList n ∧ '\x00' ∉ (formatMoney n false).toList := by
  obtain ⟨amount, rfl⟩ := Int.eq_ofNat_of_zero_le hpos
  have hcoin : COIN.toNat = 10 ^ 8 := rfl
  have hquotient : amount / 10 ^ 8 < 10 ^ 10 := by omega
  obtain ⟨hlength, hdigits, hvalue⟩ := eightDigits_spec (Nat.mod_lt amount (by norm_num : 0 < 10 ^ 8))
  obtain ⟨units, k, htrim, hunits⟩ := trim_eq (Nat.toDigits 10 (amount / 10 ^ 8)) (by rw [hlength]; norm_num)
  have htext : (formatMoney amount false).toList = Nat.toDigits 10 (amount / 10 ^ 8) ++ '.' :: units := by
    rw [formatMoney, hcoin, Int.natAbs_natCast, if_neg (Int.not_lt.2 hpos), if_neg (by simp), String.toList_ofList]
    exact htrim
  rw [hunits] at hlength hdigits hvalue
  rw [List.length_append, List.length_replicate] at hlength
  have hwhole : ∀ c ∈ Nat.toDigits 10 (amount / 10 ^ 8), c.isDigit = true := fun c hc =>
    Nat.isDigit_of_mem_toDigits (by norm_num) (by norm_num) hc
  have hdigits' : ∀ c ∈ units, c.isDigit = true := fun c hc => hdigits c (List.mem_append_left _ hc)
  constructor
  · rw [htext]
    refine ⟨[], _, some units, [], ⟨?_, fun c hc => (nomatch hc), fun c hc => (nomatch hc), hwhole, hdigits', ?_, ?_⟩, ?_⟩
    · rw [List.nil_append, List.append_nil]
      rfl
    · exact (Nat.length_toDigits_le_iff (by norm_num) (by norm_num)).2 hquotient
    · exact Nat.le_of_add_right_le hlength.le
    · have hk : 8 - units.length = k := by omega
      rw [Nat.ofDigitChars_append, Nat.ofDigitChars_replicate_zero] at hvalue
      rw [moneyValue, Option.getD_some, filledDigits, hk, Nat.ofDigitChars_ten_toDigits, COIN]
      have hsum := Nat.div_add_mod amount (10 ^ 8)
      rw [← hvalue] at hsum
      generalize amount / 10 ^ 8 = quotient at hsum ⊢
      have hpow : ((10 ^ k : ℕ) : ℤ) = 10 ^ k := Nat.cast_pow 10 k
      rw [← hsum, Nat.cast_add, Nat.cast_mul, Nat.cast_mul, Nat.cast_pow, hpow]
      ring
  · rw [htext, List.mem_append, List.mem_cons]
    rintro (hmem | hmem | hmem)
    · exact absurd (hwhole _ hmem) (by decide)
    · cases hmem
    · exact absurd (hdigits' _ hmem) (by decide)

/-- **The text of an amount**: what is written is read back, up to ten thousand million coins; and the texts that are
read are those of decimal numbers, up to the first NUL, with their values, which fit. -/
theorem parseMoney_formatMoney_and_iff :
    (∀ n : ℤ, 0 ≤ n → n < 10 ^ 10 * COIN → parseMoney (formatMoney n false) = some n) ∧
      (∀ str n, parseMoney str = some n ↔ IsMoney (str.toList.takeWhile (· ≠ '\x00')) n) ∧
      ∀ str n, parseMoney str = some n → 0 ≤ n ∧ n < 2 ^ 63 := by
  refine ⟨fun n hpos hlt => ?_, fun str n => parseMoneyC_eq_some_iff, fun str n h => ?_⟩
  · obtain ⟨hmoney, hnul⟩ := formatMoney_isMoney hpos hlt
    rw [parseMoney, parseMoneyC_eq_some_iff, List.takeWhile_eq_self_iff.2 fun c hc => ?_]
    · exact hmoney
    · rw [decide_eq_true_eq]
      rintro rfl
      exact hnul hc
  · obtain ⟨hpos, hlt⟩ := (parseMoneyC_eq_some_iff.1 h).range
    exact ⟨hpos, hlt.trans (by norm_num)⟩

/-- One coin, and a letter behind a NUL. -/
theorem MoneySample.behind_nul : parseMoney "1\x00x" = some COIN ∧ ∀ n, ¬IsMoney "1\x00x".toList n := by
  refine ⟨by decide, fun n h => ?_⟩
  have hnone : parseMoneyC "1\x00x".toList = none := by decide
  rw [parseMoneyC_eq_some_iff.2 h] at hnone
  cases hnone

end PayDayCoin
