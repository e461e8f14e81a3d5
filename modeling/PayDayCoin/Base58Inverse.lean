import PayDayCoin.Base58
import Mathlib.Data.Nat.Digits.Lemmas

/-!
# Reading what was written in base 58

The two directions of `EncodeBase58` and `DecodeBase58`. The assertion on the carry of the encoder holds for all bytes.
The decoder gives back bytes exactly if they do not start with a zero, and a text that it accepts is the encoding of
what it gives, but for the spaces around it, exactly if it does not start with a `1` and has no NUL: the count of the
ones in front is lost (**`base58_round_trips`**).
-/

namespace PayDayCoin

open Library.Digits

/-- What is left over in each turn of the loop of `EncodeBase58`, where it is asserted to be 0. -/
def base58Carries (vch : List UInt8) : List ℕ :=
  carries 58 256 (List.replicate (vch.length * 138 / 100 + 1) 0) (vch.map UInt8.toNat)

/-- The text without the spaces around it. -/
def trimSpaces (str : String) : String := String.ofList ((str.toList.dropWhile isspace).rdropWhile isspace)

/-- The letters for digits. -/
def letters (ds : List ℕ) : List Char := ds.map fun d => pszBase58.getD d '1'

theorem base58Carries_eq (vch : List UInt8) : ∀ carry ∈ base58Carries vch, carry = 0 := by
  have hzero : Nat.ofDigits 58 (List.replicate (vch.length * 138 / 100 + 1) 0) = 0 := by simp
  apply carries_eq_zero (by omega)
  rw [hzero, List.length_replicate]
  exact value_lt_base58 vch

/-! ### Numbers -/

/-- Digits without a zero in front are those of their number. -/
theorem digits_value {b : ℕ} (hb : 1 < b) {ds : List ℕ} (hlt : ∀ d ∈ ds, d < b) (hhead : ∀ d ∈ ds.head?, d ≠ 0) :
    Nat.digits b (value b 0 ds) = ds.reverse := by
  rw [value_eq_ofDigits]
  apply Nat.digits_ofDigits b hb
  · exact fun d hd => hlt d (List.mem_reverse.1 hd)
  · intro hne
    rw [List.getLast_reverse]
    exact hhead _ (List.head_mem_head? _)

/-- The digits in base 256 are bytes. -/
theorem toNat_digits (n : ℕ) : ((Nat.digits 256 n).map UInt8.ofNat).map UInt8.toNat = Nat.digits 256 n := by
  have hid : ∀ d ∈ Nat.digits 256 n, (UInt8.toNat ∘ UInt8.ofNat) d = id d := by
    intro d hd
    rw [Function.comp_apply, UInt8.toNat_ofNat']
    exact Nat.mod_eq_of_lt (Nat.digits_lt_base (by omega) hd)
  rw [List.map_map, List.map_congr_left hid, List.map_id]

/-- The bytes of a big number are its digits. -/
theorem trimSign_getvch_eq (n : ℕ) : trimSign (getvch n) = (Nat.digits 256 n).map UInt8.ofNat := by
  rcases Nat.eq_zero_or_pos n with rfl | hpos
  · rfl
  have hne : Nat.digits 256 n ≠ [] := Nat.digits_ne_nil_iff_ne_zero.2 hpos.ne'
  have hlast : UInt8.ofNat ((Nat.digits 256 n).getLast hne) ≠ 0 := by
    intro h
    have hlt : (Nat.digits 256 n).getLast hne < 256 := Nat.digits_lt_base (by omega) (List.getLast_mem hne)
    have htoNat := congrArg UInt8.toNat h
    rw [UInt8.toNat_ofNat', Nat.mod_eq_of_lt hlt] at htoNat
    exact Nat.getLast_digit_ne_zero 256 hpos.ne' htoNat
  have hsplit : (Nat.digits 256 n).map UInt8.ofNat = ((Nat.digits 256 n).dropLast.map UInt8.ofNat) ++
      [UInt8.ofNat ((Nat.digits 256 n).getLast hne)] := by
    conv_lhs => rw [← List.dropLast_append_getLast hne]
    rw [List.map_append, List.map_singleton]
  have htrim := trimSign_getvch ((Nat.digits 256 n).dropLast.map UInt8.ofNat) hlast
  rw [← hsplit, toNat_digits, Nat.ofDigits_digits] at htrim
  exact htrim

/-! ### The texts that are accepted -/

theorem mem_letters {ds : List ℕ} (hds : ∀ d ∈ ds, d < 58) {c : Char} (h : c ∈ letters ds) :
    c ≠ '\x00' ∧ isspace c = false := by
  obtain ⟨d, hd, rfl⟩ := List.mem_map.1 h
  exact ⟨(letter_ne (hds d hd)).1, (letter_ne (hds d hd)).2.1⟩

/-- What the loop of the decoder accepts: letters with spaces behind. -/
theorem decodeChars_some {psz : List Char} {bn n : ℕ} (h : decodeChars psz bn = some n) :
    ∃ ds spaces, psz = letters ds ++ spaces ∧ (∀ d ∈ ds, d < 58) ∧ (∀ c ∈ spaces, isspace c = true) ∧
      value 58 bn ds = n := by
  induction psz generalizing bn with
  | nil =>
    cases h
    exact ⟨[], [], rfl, by simp, by simp, rfl⟩
  | cons c psz ih =>
    rw [decodeChars] at h
    cases hfind : pszBase58.findIdx? (· = c) with
    | none =>
      rw [hfind] at h
      simp only at h
      split at h
      · cases h
      · rename_i hnil
        cases h
        rw [not_not, List.dropWhile_eq_nil_iff] at hnil
        exact ⟨[], c :: psz, rfl, by simp, hnil, rfl⟩
    | some d =>
      rw [hfind] at h
      obtain ⟨ds, spaces, rfl, hds, hspaces, hvalue⟩ := ih h
      obtain ⟨hd, hletter, -⟩ := List.findIdx?_eq_some_iff_getElem.1 hfind
      have hlt : d < 58 := hd
      refine ⟨d :: ds, spaces, ?_, ?_, hspaces, ?_⟩
      · rw [letters, letters, List.map_cons, List.getD_eq_getElem?_getD, List.getElem?_eq_getElem hd,
          Option.getD_some, of_decide_eq_true hletter]
        rfl
      · intro d' hd'
        rcases List.mem_cons.1 hd' with rfl | hd'
        · exact hlt
        · exact hds d' hd'
      · rw [← hvalue, value, List.foldl_cons, Nat.mul_comm]
        rfl

/-- The encoder writes the digits of a number for its bytes. -/
theorem encodeBase58_digits {ds : List ℕ} (hds : ∀ d ∈ ds, d < 58) (hhead : ∀ d ∈ ds.head?, d ≠ 0) :
    encodeBase58 (trimSign (getvch (value 58 0 ds : ℕ))).reverse = String.ofList (letters ds) := by
  rw [trimSign_getvch_eq]
  set n := value 58 0 ds with hn
  set vch := ((Nat.digits 256 n).map UInt8.ofNat).reverse with hvch
  have hbytes : vch.map UInt8.toNat = (Nat.digits 256 n).reverse := by
    rw [hvch, List.map_reverse, toNat_digits]
  have hfirst : vch.takeWhile (· = 0) = [] ∧ vch.dropWhile (· = 0) = vch := by
    cases hcase : vch with
    | nil => exact ⟨rfl, rfl⟩
    | cons top rest =>
      have htop : top ≠ 0 := by
        rintro rfl
        have hrev := congrArg List.reverse hbytes
        rw [hcase, List.reverse_reverse] at hrev
        have hne : Nat.digits 256 n ≠ [] := by
          rw [← hrev]
          simp
        have hpos : n ≠ 0 := Nat.digits_ne_nil_iff_ne_zero.1 hne
        apply Nat.getLast_digit_ne_zero 256 hpos
        simp [← hrev]
      exact ⟨List.takeWhile_cons_of_neg (by simpa using htop), List.dropWhile_cons_of_neg (by simpa using htop)⟩
  have hvalue : value 58 0 ((base58Digits vch).reverse.dropWhile (· = 0)) = n := by
    rw [value_dropWhile, value_eq_ofDigits, List.reverse_reverse, ofDigits_base58Digits, hbytes, value_eq_ofDigits,
      List.reverse_reverse, Nat.ofDigits_digits]
  have hsame : (base58Digits vch).reverse.dropWhile (· = 0) = ds := by
    apply List.reverse_injective
    rw [← digits_value (by omega) hds hhead, ← hn, ← hvalue]
    refine (digits_value (by omega) (fun d hd => ?_) fun d hd => ?_).symm
    · exact base58Digits_lt (List.mem_reverse.1 ((List.dropWhile_sublist _).subset hd))
    · have hnot := List.head?_dropWhile_not (fun d : ℕ => decide (d = 0)) (base58Digits vch).reverse
      rw [Option.mem_def.1 hd] at hnot
      simpa using hnot
  rw [encodeBase58, hfirst.1, hfirst.2, hsame]
  rfl

/-- What the decoder makes of a text: letters behind spaces and ones, and before spaces, stand for the number. -/
theorem decodeBase58_some {str : String} {vch : List UInt8} (h : decodeBase58 str = some vch) :
    ∃ spaces zeroes ds spaces', str.toList.takeWhile (· ≠ '\x00') =
        spaces ++ List.replicate zeroes '1' ++ letters ds ++ spaces' ∧
      (∀ c ∈ spaces, isspace c = true) ∧ (∀ c ∈ spaces', isspace c = true) ∧ (∀ d ∈ ds, d < 58) ∧
      (∀ d ∈ ds.head?, d ≠ 0) ∧ (zeroes = 0 ∧ ds = [] → spaces' = []) ∧
      encodeBase58 vch = String.ofList (letters ds) := by
  unfold decodeBase58 at h
  simp only at h
  generalize str.toList.takeWhile (· ≠ '\x00') = cs at h ⊢
  obtain ⟨n, hn, hvch⟩ := Option.bind_eq_some_iff.1 h
  obtain ⟨ds, spaces', hrest, hds, hspaces, hvalue⟩ := decodeChars_some hn
  have hones := List.head?_dropWhile_not (fun c : Char => decide (c = '1')) (cs.dropWhile isspace)
  have hhead : ∀ d ∈ ds.head?, d ≠ 0 := by
    rintro d hd rfl
    cases ds with
    | nil => cases hd
    | cons d l =>
      obtain rfl : d = 0 := Option.some.inj hd
      have hletter : pszBase58.getD 0 '1' = '1' := by decide
      rw [hrest, letters, List.map_cons, List.cons_append, List.head?_cons, hletter] at hones
      exact absurd hones (by decide)
  have hnone : ((cs.dropWhile isspace).dropWhile (· = '1')).takeWhile (· = '1') = [] := by
    cases hcase : (cs.dropWhile isspace).dropWhile (· = '1') with
    | nil => rfl
    | cons c l =>
      rw [hcase] at hones
      exact List.takeWhile_cons_of_neg (by simpa using hones)
  rw [hnone] at hvch
  have hbytes : (trimSign (getvch n)).reverse = vch := Option.some.inj hvch
  have hzeroes : (cs.dropWhile isspace).takeWhile (· = '1') =
      List.replicate ((cs.dropWhile isspace).takeWhile (· = '1')).length '1' :=
    List.eq_replicate_of_mem fun c hc => by simpa using List.mem_takeWhile_imp hc
  refine ⟨cs.takeWhile isspace, ((cs.dropWhile isspace).takeWhile (· = '1')).length, ds, spaces', ?_,
    fun c hc => List.mem_takeWhile_imp hc, hspaces, hds, hhead, ?_, ?_⟩
  · rw [← hzeroes, List.append_assoc, List.append_assoc, ← hrest, List.takeWhile_append_dropWhile,
      List.takeWhile_append_dropWhile]
  · rintro ⟨hlength, rfl⟩
    have hall : cs.dropWhile isspace = spaces' := by
      rw [← List.takeWhile_append_dropWhile (p := (· = '1')) (l := cs.dropWhile isspace),
        List.length_eq_zero_iff.1 hlength, hrest]
      rfl
    cases spaces' with
    | nil => rfl
    | cons c l =>
      have hfirst := List.head?_dropWhile_not isspace cs
      rw [hall, List.head?_cons] at hfirst
      have hno : isspace c = false := hfirst
      rw [hspaces c List.mem_cons_self] at hno
      cases hno
  · rw [← hbytes, ← hvalue]
    exact encodeBase58_digits hds hhead

/-- Spaces are cut off on both sides of a text that has none at its ends. -/
theorem trim_append {spaces spaces' l : List Char} (hspaces : ∀ c ∈ spaces, isspace c = true)
    (hspaces' : ∀ c ∈ spaces', isspace c = true) (hl : ∀ c ∈ l, isspace c = false) (hnil : l = [] → spaces' = []) :
    ((spaces ++ l ++ spaces').dropWhile isspace).rdropWhile isspace = l := by
  rw [List.append_assoc, List.dropWhile_append_of_pos hspaces]
  cases hcase : l with
  | nil =>
    rw [hnil hcase]
    rfl
  | cons c rest =>
    have hc := hl c (hcase ▸ List.mem_cons_self)
    rw [List.cons_append, List.dropWhile_cons_of_neg (by rw [hc]; exact Bool.false_ne_true), ← List.cons_append, ← hcase]
    rw [List.rdropWhile, List.reverse_append, List.dropWhile_append_of_pos fun c hc => hspaces' c (List.mem_reverse.1 hc),
      List.dropWhile_eq_self_iff.2, List.reverse_reverse]
    intro hlt
    rw [hl _ (List.mem_reverse.1 (List.getElem_mem hlt))]
    exact Bool.false_ne_true

/-- A NUL is not cut off. -/
theorem nul_mem_trim {cs : List Char} (h : '\x00' ∈ cs) : '\x00' ∈ (cs.dropWhile isspace).rdropWhile isspace := by
  have hkeep : ∀ {l : List Char}, '\x00' ∈ l → '\x00' ∈ l.dropWhile isspace := by
    intro l hl
    rw [← List.takeWhile_append_dropWhile (p := isspace) (l := l)] at hl
    rcases List.mem_append.1 hl with hmem | hmem
    · exact absurd (List.mem_takeWhile_imp hmem) (by decide)
    · exact hmem
  rw [List.rdropWhile, List.mem_reverse]
  exact hkeep (List.mem_reverse.2 (hkeep h))

/-- The encoding of what a text stands for is the text without spaces around it, if it does not start with a `1`. -/
theorem encodeBase58_decodeBase58 {str : String} {vch : List UInt8} (h : decodeBase58 str = some vch) :
    encodeBase58 vch = trimSpaces str ↔ (trimSpaces str).toList.head? ≠ some '1' ∧ '\x00' ∉ str.toList := by
  obtain ⟨spaces, zeroes, ds, spaces', hcs, hspaces, hspaces', hds, hhead, hnil, hencode⟩ := decodeBase58_some h
  rw [hencode, trimSpaces, String.toList_ofList, String.ofList_inj]
  by_cases hnul : '\x00' ∈ str.toList
  · refine iff_of_false (fun heq => ?_) fun h => h.2 hnul
    have hmem := nul_mem_trim hnul
    rw [← heq] at hmem
    exact (mem_letters hds hmem).1 rfl
  have hall : str.toList.takeWhile (· ≠ '\x00') = str.toList :=
    List.takeWhile_eq_self_iff.2 fun c hc => decide_eq_true fun heq => hnul (heq ▸ hc)
  have htrim : (str.toList.dropWhile isspace).rdropWhile isspace = List.replicate zeroes '1' ++ letters ds := by
    rw [← hall, hcs, List.append_assoc spaces]
    refine trim_append hspaces hspaces' (fun c hc => ?_) fun hempty => hnil ?_
    · rcases List.mem_append.1 hc with hc | hc
      · rw [List.eq_of_mem_replicate hc]
        decide
      · exact (mem_letters hds hc).2
    · rw [List.append_eq_nil_iff, List.replicate_eq_nil_iff, letters, List.map_eq_nil_iff] at hempty
      exact hempty
  rw [htrim, and_iff_left hnul]
  cases zeroes with
  | zero =>
    refine iff_of_true rfl fun hone => ?_
    cases ds with
    | nil => cases hone
    | cons d ds =>
      exact (letter_ne (hds d List.mem_cons_self)).2.2 (hhead d rfl) (Option.some.inj hone)
  | succ n =>
    refine iff_of_false (fun heq => ?_) fun h => h rfl
    have hlength := congrArg List.length heq
    rw [List.length_append, List.length_replicate] at hlength
    omega

/-- **The round trips of base 58**: the carry is always 0, bytes are read back exactly if no zero stands in front, and a
text is written back, without the spaces around it, exactly if no `1` stands in front and it has no NUL. -/
theorem base58_round_trips (vch : List UInt8) (str : String) :
    (∀ carry ∈ base58Carries vch, carry = 0) ∧
      (decodeBase58 (encodeBase58 vch) = some vch ↔ vch.head? ≠ some 0) ∧
      ∀ vch', decodeBase58 str = some vch' →
        (encodeBase58 vch' = trimSpaces str ↔ (trimSpaces str).toList.head? ≠ some '1' ∧ '\x00' ∉ str.toList) := by
  refine ⟨base58Carries_eq vch, ?_, fun vch' h => encodeBase58_decodeBase58 h⟩
  rw [decodeBase58_encodeBase58, Option.some_inj]
  cases vch with
  | nil => exact iff_of_true rfl (Option.some_ne_none 0).symm
  | cons b vch =>
    rw [List.head?_cons]
    by_cases hb : b = 0
    · subst hb
      refine iff_of_false (fun heq => ?_) fun h => h rfl
      have hlength := congrArg List.length heq
      rw [List.dropWhile_cons_of_pos (by decide), List.length_cons] at hlength
      have hle := (List.dropWhile_sublist (fun b : UInt8 => decide (b = 0)) (l := vch)).length_le
      omega
    · refine iff_of_true (List.dropWhile_cons_of_neg (by simpa using hb)) fun h => hb (Option.some.inj h)

namespace Base58Sample

/-- **The zero byte is lost**, in one direction and in the other. -/
theorem zero_lost : decodeBase58 (encodeBase58 [0, 1]) = some [1] ∧
    (decodeBase58 "12").map encodeBase58 = some "2" := by
  refine ⟨decodeBase58_encodeBase58 [0, 1], ?_⟩
  decide

end Base58Sample

end PayDayCoin
