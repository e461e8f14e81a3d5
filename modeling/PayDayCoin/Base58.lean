import PayDayCoin.Library.Digits
import PayDayCoin.Block
import Mathlib.Tactic.NormNum

/-!
# Addresses

`EncodeBase58` writes bytes as a number in base 58 and `DecodeBase58` reads it. The encoder writes a `1` for each
zero byte in front, and the decoder goes over these without keeping their number, so that
**`decodeBase58_encodeBase58`** gives the bytes without the zeros in front. An address begins with its version, which
is not zero, and is read as it was written (**`setString_toString`**).
-/

namespace PayDayCoin

open Library.Digits

/-- `pszBase58`: all letters and digits except for `0`, `I`, `O` and `l`. -/
def pszBase58 : List Char := "123456789ABCDEFGHJKLMNPQRSTUVWXYZabcdefghijkmnopqrstuvwxyz".toList

/-- `isspace`. -/
def isspace (c : Char) : Bool := c = ' ' || ('\t' ≤ c && c ≤ '\r')

/-! ### `EncodeBase58` -/

/-- The digits that `EncodeBase58` computes, the lowest first. -/
def base58Digits (vch : List UInt8) : List ℕ :=
  convert 58 256 (List.replicate (vch.length * 138 / 100 + 1) 0) (vch.map UInt8.toNat)

/-- `EncodeBase58`. -/
def encodeBase58 (vch : List UInt8) : String :=
  let zeroes := (vch.takeWhile (· = 0)).length
  let b58 := (base58Digits (vch.dropWhile (· = 0))).reverse
  String.ofList (List.replicate zeroes '1' ++ (b58.dropWhile (· = 0)).map fun d => pszBase58.getD d '1')

/-! ### `DecodeBase58` -/

/-- The loop of `DecodeBase58`. -/
def decodeChars : List Char → ℕ → Option ℕ
  | [], bn => some bn
  | c :: psz, bn =>
    match pszBase58.findIdx? (· = c) with
    | none => if (c :: psz).dropWhile isspace ≠ [] then none else some bn
    | some d => decodeChars psz (bn * 58 + d)

/-- The bytes without the sign byte. -/
def trimSign (vchTmp : List UInt8) : List UInt8 :=
  if 2 ≤ vchTmp.length ∧ vchTmp.getLast? = some 0 ∧ vchTmp.dropLast.getLast?.any (0x80 ≤ ·) then vchTmp.dropLast
  else vchTmp

/-- `DecodeBase58`. -/
def decodeBase58 (str : String) : Option (List UInt8) := do
  let psz := (str.toList.takeWhile (· ≠ '\x00')).dropWhile isspace
  -- the leading ones are gone over here, so that none is left to be counted below
  let psz := psz.dropWhile (· = '1')
  let bn ← decodeChars psz 0
  let nLeadingZeros := (psz.takeWhile (· = '1')).length
  some (List.replicate nLeadingZeros 0 ++ (trimSign (getvch bn)).reverse)

/-! ### Addresses -/

/-- `CKeyID`. -/
structure CKeyID where
  pn : List UInt8
  size_eq : pn.length = 20
deriving DecidableEq

/-- `CBase58Data`, of which `CPayDaycoinAddress` is one kind. -/
structure CPayDaycoinAddress where
  vchVersion : List UInt8 := []
  vchData : List UInt8 := []
deriving DecidableEq

namespace CChainParams

/-- `Base58Prefix(PUBKEY_ADDRESS)`. -/
def pubkeyAddress (params : CChainParams) : UInt8 := if params.testNet then 73 else 50

/-- `Base58Prefix(SCRIPT_ADDRESS)`. -/
def scriptAddress (params : CChainParams) : UInt8 := if params.testNet then 196 else 85

end CChainParams

namespace CPayDaycoinAddress

variable (params : CChainParams) (hash : List UInt8 → List UInt8)

/-- `EncodeBase58Check`, with `Hash` as bytes. -/
def encodeBase58Check (vch : List UInt8) : String := encodeBase58 (vch ++ (hash vch).take 4)

/-- `DecodeBase58Check`. -/
def decodeBase58Check (str : String) : Option (List UInt8) :=
  match decodeBase58 str with
  | none => none
  | some vch =>
    if vch.length < 4 then none
    else if (hash (vch.take (vch.length - 4))).take 4 ≠ vch.drop (vch.length - 4) then none
    else some (vch.take (vch.length - 4))

/-- `SetString`. -/
def setString (str : String) : Option CPayDaycoinAddress :=
  match decodeBase58Check hash str with
  | none => none
  | some vchTemp => if vchTemp.length < 1 then none else some ⟨vchTemp.take 1, vchTemp.drop 1⟩

/-- `ToString`. -/
def toString (address : CPayDaycoinAddress) : String :=
  encodeBase58Check hash (address.vchVersion ++ address.vchData)

/-- `Set`, of a key. -/
def ofKeyID (id : CKeyID) : CPayDaycoinAddress := ⟨[params.pubkeyAddress], id.pn⟩

/-- `IsValid`. -/
def isValid (address : CPayDaycoinAddress) : Bool :=
  address.vchData.length = 20 &&
    (address.vchVersion = [params.pubkeyAddress] || address.vchVersion = [params.scriptAddress])

/-- `GetKeyID`. -/
def getKeyID (address : CPayDaycoinAddress) : Option CKeyID :=
  if address.vchVersion ≠ [params.pubkeyAddress] then none
  else if h : address.vchData.length = 20 then some ⟨address.vchData, h⟩
  else none

/-- `getVersion` of the secure messages. -/
def getVersion (address : CPayDaycoinAddress) : UInt8 := address.vchVersion.headD 0

end CPayDaycoinAddress

/-! ### Round trips -/

/-- The list of digits of `EncodeBase58` is long enough. -/
theorem pow_le_base58 (n : ℕ) : 256 ^ n ≤ 58 ^ (n * 138 / 100 + 1) := by
  have hsmall : ∀ r < 50, 256 ^ r ≤ 58 ^ (r * 138 / 100 + 1) := by decide
  have hblock : 256 ^ 50 ≤ 58 ^ 69 := by norm_num
  have hdiv := Nat.div_add_mod n 50
  have hexp : n * 138 / 100 + 1 = 69 * (n / 50) + (n % 50 * 138 / 100 + 1) := by omega
  calc 256 ^ n = (256 ^ 50) ^ (n / 50) * 256 ^ (n % 50) := by rw [← pow_mul, ← pow_add, hdiv]
    _ ≤ (58 ^ 69) ^ (n / 50) * 58 ^ (n % 50 * 138 / 100 + 1) :=
      Nat.mul_le_mul (Nat.pow_le_pow_left hblock _) (hsmall _ (Nat.mod_lt _ (by omega)))
    _ = 58 ^ (n * 138 / 100 + 1) := by rw [← pow_mul, ← pow_add, hexp]

/-- The number that bytes stand for has no more digits. -/
theorem value_lt_base58 (vch : List UInt8) : value 256 0 (vch.map UInt8.toNat) < 58 ^ (vch.length * 138 / 100 + 1) := by
  have hlt : value 256 0 (vch.map UInt8.toNat) < 256 ^ vch.length := by
    rw [← List.length_map UInt8.toNat]
    apply value_lt (by omega)
    intro d hd
    obtain ⟨b, -, rfl⟩ := List.mem_map.1 hd
    exact b.toNat_lt
  exact hlt.trans_le (pow_le_base58 vch.length)

/-- The digits stand for the number that the bytes stand for. -/
theorem ofDigits_base58Digits (vch : List UInt8) :
    Nat.ofDigits 58 (base58Digits vch) = value 256 0 (vch.map UInt8.toNat) := by
  have hzero : Nat.ofDigits 58 (List.replicate (vch.length * 138 / 100 + 1) 0) = 0 := by simp
  rw [base58Digits, ofDigits_convert (by omega), hzero]
  rw [hzero, List.length_replicate]
  exact value_lt_base58 vch

theorem base58Digits_lt {vch : List UInt8} {d : ℕ} (h : d ∈ base58Digits vch) : d < 58 :=
  convert_lt (by omega) (fun d hd => by rw [List.eq_of_mem_replicate hd]; omega) h

/-- The loop of the decoder undoes the letters of the encoder. -/
theorem decodeChars_map {ds : List ℕ} (hds : ∀ d ∈ ds, d < 58) (bn : ℕ) :
    decodeChars (ds.map fun d => pszBase58.getD d '1') bn = some (value 58 bn ds) := by
  have hletter : ∀ d < 58, pszBase58.findIdx? (· = pszBase58.getD d '1') = some d := by decide
  induction ds generalizing bn with
  | nil => rfl
  | cons d ds ih =>
    rw [List.map_cons, decodeChars, hletter d (hds d (List.mem_cons_self ..))]
    simp only
    rw [ih fun d' hd' => hds d' (List.mem_cons_of_mem _ hd'), Nat.mul_comm]
    rfl

theorem letter_ne {d : ℕ} (h : d < 58) :
    pszBase58.getD d '1' ≠ '\x00' ∧ isspace (pszBase58.getD d '1') = false ∧
      (d ≠ 0 → pszBase58.getD d '1' ≠ '1') := by
  have hall : ∀ d < 58, pszBase58.getD d '1' ≠ '\x00' ∧ isspace (pszBase58.getD d '1') = false ∧
      (d ≠ 0 → pszBase58.getD d '1' ≠ '1') := by decide
  exact hall d h

theorem leBytes_ofDigits (vch : List UInt8) : leBytes vch.length (Nat.ofDigits 256 (vch.map UInt8.toNat)) = vch := by
  induction vch with
  | nil => rfl
  | cons b vch ih =>
    have hb := b.toNat_lt
    have hdiv : (b.toNat + 256 * Nat.ofDigits 256 (vch.map UInt8.toNat)) / 256 =
        Nat.ofDigits 256 (vch.map UInt8.toNat) := by omega
    rw [List.length_cons, List.map_cons, Nat.ofDigits_cons, leBytes_succ, hdiv, ih]
    congr 1
    apply UInt8.toNat_inj.1
    rw [UInt8.toNat_ofNat']
    omega

theorem leBytes_snoc {width mag : ℕ} (h : mag < 256 ^ width) :
    leBytes (width + 1) mag = leBytes width mag ++ [0] := by
  rw [leBytes, List.range_succ, List.map_append, List.map_singleton, Nat.div_eq_of_lt h]
  rfl

/-- The bytes of a number are those of its big number, without the byte for the sign. -/
theorem trimSign_getvch (low : List UInt8) {top : UInt8} (htop : top ≠ 0) :
    trimSign (getvch (Nat.ofDigits 256 ((low ++ [top]).map UInt8.toNat) : ℕ)) = low ++ [top] := by
  have hbytes : leBytes (low.length + 1) (Nat.ofDigits 256 ((low ++ [top]).map UInt8.toNat)) = low ++ [top] := by
    have hsnoc := leBytes_ofDigits (low ++ [top])
    rw [List.length_append] at hsnoc
    exact hsnoc
  have hvalue : Nat.ofDigits 256 ((low ++ [top]).map UInt8.toNat) =
      Nat.ofDigits 256 (low.map UInt8.toNat) + 256 ^ low.length * top.toNat := by
    rw [List.map_append, Nat.ofDigits_append, List.length_map, List.map_singleton, Nat.ofDigits_singleton]
  have hlow : Nat.ofDigits 256 (low.map UInt8.toNat) < 256 ^ low.length := by
    rw [← List.length_map UInt8.toNat]
    apply Nat.ofDigits_lt_base_pow_length (by omega)
    intro d hd
    obtain ⟨b, -, rfl⟩ := List.mem_map.1 hd
    exact b.toNat_lt
  have htop_lt := top.toNat_lt
  have htop_pos : 0 < top.toNat := Nat.pos_of_ne_zero fun h => htop (UInt8.toNat_inj.1 h)
  have hpow : 2 ^ (8 * low.length) = 256 ^ low.length := by
    rw [pow_mul]
    norm_num
  generalize Nat.ofDigits 256 ((low ++ [top]).map UInt8.toNat) = mag at hbytes hvalue ⊢
  have hlower : 256 ^ low.length ≤ mag := by
    have hmul := Nat.le_mul_of_pos_right (256 ^ low.length) htop_pos
    omega
  have hmag : mag ≠ 0 := by
    have hpos : 0 < 256 ^ low.length := by positivity
    omega
  have hlog := (Nat.le_log2 hmag).2 (hpow.trans_le hlower)
  by_cases hsign : 128 ≤ top.toNat
  · have hupper : mag < 256 ^ (low.length + 1) := by
      rw [pow_succ, hvalue]
      nlinarith
    have hlog₁ : 8 * low.length + 7 ≤ mag.log2 := by
      apply (Nat.le_log2 hmag).2
      have hmul := Nat.mul_le_mul_left (256 ^ low.length) hsign
      rw [pow_add, hpow, hvalue]
      omega
    have hlog₂ : mag.log2 < 8 * low.length + 8 := by
      apply (Nat.log2_lt hmag).2
      rw [pow_add, hpow]
      rw [pow_succ] at hupper
      exact hupper
    have hsize : mpiSize mag = low.length + 1 + 1 := by
      rw [mpiSize, if_neg hmag]
      omega
    rw [getvch_of_nonneg, hsize, leBytes_snoc hupper, hbytes, trimSign, if_pos]
    · rw [List.dropLast_concat]
    · refine ⟨by simp, by simp, ?_⟩
      rw [List.dropLast_concat, List.getLast?_concat, Option.any_some, decide_eq_true_iff, UInt8.le_iff_toNat_le]
      exact hsign
  · have hlog₂ : mag.log2 < 8 * low.length + 7 := by
      apply (Nat.log2_lt hmag).2
      rw [pow_add, hpow, hvalue]
      nlinarith
    have hsize : mpiSize mag = low.length + 1 := by
      rw [mpiSize, if_neg hmag]
      omega
    rw [getvch_of_nonneg, hsize, hbytes, trimSign, if_neg]
    rintro ⟨-, hlast, -⟩
    rw [List.getLast?_concat, Option.some.injEq] at hlast
    exact htop hlast

/-- **What decoding gives back**: the bytes without the zeros in front. -/
theorem decodeBase58_encodeBase58 (vch : List UInt8) :
    decodeBase58 (encodeBase58 vch) = some (vch.dropWhile (· = 0)) := by
  have hdigits : ∀ d ∈ ((base58Digits (vch.dropWhile (· = 0))).reverse.dropWhile (· = 0)), d < 58 := fun d hd =>
    base58Digits_lt (List.mem_reverse.1 ((List.dropWhile_sublist _).subset hd))
  have hhead : ∀ d ∈ ((base58Digits (vch.dropWhile (· = 0))).reverse.dropWhile (· = 0)).head?, d ≠ 0 := by
    intro d hd
    have hfirst := List.head?_dropWhile_not (fun d : ℕ => decide (d = 0))
      (base58Digits (vch.dropWhile (· = 0))).reverse
    rw [Option.mem_def.1 hd] at hfirst
    simpa using hfirst
  have hvalue : value 58 0 ((base58Digits (vch.dropWhile (· = 0))).reverse.dropWhile (· = 0)) =
      value 256 0 ((vch.dropWhile (· = 0)).map UInt8.toNat) := by
    rw [value_dropWhile, value_eq_ofDigits, List.reverse_reverse, ofDigits_base58Digits]
  have hbytes : (trimSign (getvch (value 256 0 ((vch.dropWhile (· = 0)).map UInt8.toNat) : ℕ))).reverse =
      vch.dropWhile (· = 0) := by
    have hfirst := List.head?_dropWhile_not (fun b : UInt8 => decide (b = 0)) vch
    cases hrest : vch.dropWhile (· = 0) with
    | nil => rfl
    | cons top rest =>
      rw [hrest] at hfirst
      have hreverse := trimSign_getvch rest.reverse (show top ≠ 0 by simpa using hfirst)
      rw [value_eq_ofDigits, ← List.map_reverse, List.reverse_cons, hreverse]
      simp
  unfold encodeBase58 decodeBase58
  simp only
  generalize (base58Digits (vch.dropWhile (· = 0))).reverse.dropWhile (· = 0) = ds at hdigits hhead hvalue ⊢
  generalize (vch.takeWhile (· = 0)).length = zeroes
  have hchars : ∀ c ∈ List.replicate zeroes '1' ++ ds.map (fun d => pszBase58.getD d '1'),
      c ≠ '\x00' ∧ isspace c = false := by
    intro c hc
    rcases List.mem_append.1 hc with hc | hc
    · rw [List.eq_of_mem_replicate hc]
      decide
    · obtain ⟨d, hd, rfl⟩ := List.mem_map.1 hc
      exact ⟨(letter_ne (hdigits d hd)).1, (letter_ne (hdigits d hd)).2.1⟩
  have hones : (ds.map fun d => pszBase58.getD d '1').dropWhile (· = '1') = ds.map (fun d => pszBase58.getD d '1') ∧
      (ds.map fun d => pszBase58.getD d '1').takeWhile (· = '1') = [] := by
    cases ds with
    | nil => exact ⟨rfl, rfl⟩
    | cons d ds =>
      have hd := (letter_ne (hdigits d (List.mem_cons_self ..))).2.2 (hhead d rfl)
      rw [List.map_cons]
      exact ⟨List.dropWhile_cons_of_neg (by simpa using hd), List.takeWhile_cons_of_neg (by simpa using hd)⟩
  have hspaces : (List.replicate zeroes '1' ++ ds.map fun d => pszBase58.getD d '1').dropWhile isspace =
      List.replicate zeroes '1' ++ ds.map fun d => pszBase58.getD d '1' :=
    List.dropWhile_eq_self_iff.2 fun hl => by
      rw [(hchars _ (List.getElem_mem hl)).2]
      exact Bool.false_ne_true
  rw [String.toList_ofList, List.takeWhile_eq_self_iff.2 fun c hc => by simpa using (hchars c hc).1, hspaces,
    List.dropWhile_append_of_pos fun c hc => by simpa using List.eq_of_mem_replicate hc, hones.1, hones.2,
    decodeChars_map hdigits, hvalue, Option.bind_eq_bind, Option.bind_some, hbytes]
  rfl

section Address

variable {params : CChainParams} {hash : List UInt8 → List UInt8}

/-- **An address is read as it was written**, if its version is one byte that is not zero. -/
theorem setString_toString (hhash : ∀ vch, (hash vch).length = 32) {version : UInt8} (hversion : version ≠ 0)
    (data : List UInt8) :
    CPayDaycoinAddress.setString hash (CPayDaycoinAddress.toString hash ⟨[version], data⟩) =
      some ⟨[version], data⟩ := by
  have hdrop : (version :: (data ++ (hash (version :: data)).take 4)).dropWhile (· = 0) =
      version :: (data ++ (hash (version :: data)).take 4) := List.dropWhile_cons_of_neg (by simpa using hversion)
  have hcheck : ((hash (version :: data)).take 4).length = 4 := by
    rw [List.length_take, hhash]
    rfl
  have hlen : (version :: (data ++ (hash (version :: data)).take 4)).length - 4 = (version :: data).length := by
    simp only [List.length_cons, List.length_append, hcheck]
    omega
  have hsplit : version :: (data ++ (hash (version :: data)).take 4) =
      (version :: data) ++ (hash (version :: data)).take 4 := rfl
  have hdecode : CPayDaycoinAddress.decodeBase58Check hash (CPayDaycoinAddress.toString hash ⟨[version], data⟩) =
      some (version :: data) := by
    rw [CPayDaycoinAddress.decodeBase58Check, CPayDaycoinAddress.toString, CPayDaycoinAddress.encodeBase58Check,
      decodeBase58_encodeBase58]
    simp only [List.cons_append, List.nil_append, hdrop, hlen]
    rw [if_neg (by simp only [List.length_cons, List.length_append, hcheck]; omega), hsplit, List.take_left,
      List.drop_left, if_neg (not_not.2 rfl)]
  rw [CPayDaycoinAddress.setString, hdecode]
  rfl

theorem pubkeyAddress_ne (params : CChainParams) : params.pubkeyAddress ≠ 0 ∧ params.pubkeyAddress ≠ 250 := by
  unfold CChainParams.pubkeyAddress
  split <;> decide

/-- The address of a key names it. -/
theorem getKeyID_ofKeyID (id : CKeyID) : (CPayDaycoinAddress.ofKeyID params id).getKeyID params = some id := by
  simp [CPayDaycoinAddress.getKeyID, CPayDaycoinAddress.ofKeyID, id.size_eq]

end Address

end PayDayCoin
