import PayDayCoin.NetAddr
import PayDayCoin.WalletRecords

/-!
# Services as text

A service prints as its address and its port. The system prints IPv4 and IPv6 addresses; those of Tor and I2P print as
the base 32 text of their last ten bytes, with a name behind it, and `SetSpecial` reads these names. It gives an address
of Tor for both of them.

**`lookupNumeric_iff`**: reading the text of a service gives it back if and only if it is not one of I2P, as long as the
system reads what it prints. Different addresses have different texts all the same (`toStringIP_injective`).
-/

namespace PayDayCoin

/-! ### Base 32 -/

/-- `pbase32`. -/
def pbase32 : List Char := "abcdefghijklmnopqrstuvwxyz234567".toList

/-- The loop of `EncodeBase32`, with the bits that are left. -/
def encodeLoop : ℕ → ℕ → List UInt8 → List Char
  | mode, left, [] =>
    if mode = 0 then [] else pbase32.getD left 'a' :: List.replicate ([0, 6, 4, 3, 1].getD mode 0) '='
  | 0, _, pch :: bytes =>
    let enc := pch.toNat
    pbase32.getD (enc >>> 3) 'a' :: encodeLoop 1 ((enc &&& 7) <<< 2) bytes
  | 1, left, pch :: bytes =>
    let enc := pch.toNat
    pbase32.getD (left ||| enc >>> 6) 'a' :: pbase32.getD (enc >>> 1 &&& 31) 'a' :: encodeLoop 2 ((enc &&& 1) <<< 4) bytes
  | 2, left, pch :: bytes =>
    let enc := pch.toNat
    pbase32.getD (left ||| enc >>> 4) 'a' :: encodeLoop 3 ((enc &&& 15) <<< 1) bytes
  | 3, left, pch :: bytes =>
    let enc := pch.toNat
    pbase32.getD (left ||| enc >>> 7) 'a' :: pbase32.getD (enc >>> 2 &&& 31) 'a' :: encodeLoop 4 ((enc &&& 3) <<< 3) bytes
  | _, left, pch :: bytes =>
    let enc := pch.toNat
    pbase32.getD (left ||| enc >>> 5) 'a' :: pbase32.getD (enc &&& 31) 'a' :: encodeLoop 0 left bytes

/-- `EncodeBase32`. -/
def encodeBase32 (bytes : List UInt8) : List Char := encodeLoop 0 0 bytes

/-- `decode32_table`. -/
def decode32 (c : Char) : Option ℕ :=
  if '2' ≤ c ∧ c ≤ '7' then some (c.toNat - '2'.toNat + 26)
  else if 'A' ≤ c ∧ c ≤ 'Z' then some (c.toNat - 'A'.toNat)
  else if 'a' ≤ c ∧ c ≤ 'z' then some (c.toNat - 'a'.toNat)
  else none

/-- The loop of `DecodeBase32`, which ends at the first character that is not in the table. -/
def decodeLoop : ℕ → ℕ → List Char → List UInt8
  | _, _, [] => []
  | mode, left, c :: p =>
    match decode32 c with
    | none => []
    | some dec =>
      match mode with
      | 0 => decodeLoop 1 dec p
      | 1 => UInt8.ofNat (left <<< 3 ||| dec >>> 2) :: decodeLoop 2 (dec &&& 3) p
      | 2 => decodeLoop 3 (left <<< 5 ||| dec) p
      | 3 => UInt8.ofNat (left <<< 1 ||| dec >>> 4) :: decodeLoop 4 (dec &&& 15) p
      | 4 => UInt8.ofNat (left <<< 4 ||| dec >>> 1) :: decodeLoop 5 (dec &&& 1) p
      | 5 => decodeLoop 6 (left <<< 5 ||| dec) p
      | 6 => UInt8.ofNat (left <<< 2 ||| dec >>> 3) :: decodeLoop 7 (dec &&& 7) p
      | _ => UInt8.ofNat (left <<< 5 ||| dec) :: decodeLoop 0 left p

/-- `DecodeBase32`, without the check of the padding, which is not asked for. -/
def decodeBase32 (p : List Char) : List UInt8 := decodeLoop 0 0 p

/-! ### Texts -/

/-- How the system prints and reads addresses that are neither of Tor nor of I2P: `getnameinfo`, and the first result of
`getaddrinfo`, for numbers. -/
structure SystemText where
  print : CNetAddr → List Char
  parse : List Char → Option CNetAddr

/-- What ends in a text, without it. -/
def dropSuffix? (suffix name : List Char) : Option (List Char) :=
  if suffix.length < name.length ∧ name.drop (name.length - suffix.length) = suffix then
    some (name.take (name.length - suffix.length))
  else none

/-- `CNetAddr::SetSpecial`. -/
def setSpecial (strName : List Char) : Option CNetAddr :=
  match dropSuffix? ".onion".toList strName with
  | some name =>
    let vchAddr := decodeBase32 name
    if vchAddr.length ≠ 10 then none else some (CNetAddr.pchOnionCat ++ vchAddr)
  | none =>
    match dropSuffix? ".oc.b32.i2p".toList strName with
    | some name =>
      let vchAddr := decodeBase32 name
      if vchAddr.length ≠ 10 then none else some (CNetAddr.pchOnionCat ++ vchAddr)
    | none => none

/-- `strtol`, to the base 10: the number, and what is behind it. -/
def strtol (s : List Char) : ℤ × List Char :=
  let read (neg : Bool) (p : List Char) : ℤ × List Char :=
    let digits := p.takeWhile Char.isDigit
    if digits = [] then (0, s)
    else
      let n : ℤ := Nat.ofDigitChars 10 digits 0
      (if neg then max (-2 ^ 63) (-n) else min (2 ^ 63 - 1) n, p.dropWhile Char.isDigit)
  match s.dropWhile isspace with
  | '-' :: p => read true p
  | '+' :: p => read false p
  | p => read false p

/-- A text without the brackets around it. -/
def unbracket (s : List Char) : List Char :=
  if s.head? = some '[' ∧ s.getLast? = some ']' then s.tail.dropLast else s

/-- `SplitHostPort`: the port and the host. -/
def splitHostPort (s : List Char) (portOut : ℤ) : ℤ × List Char :=
  if ':' ∉ s then (portOut, unbracket s)
  else
    -- what is in front of the last colon, and behind it
    let before := (s.reverse.dropWhile (· ≠ ':')).tail.reverse
    let after := (s.reverse.takeWhile (· ≠ ':')).reverse
    let fBracketed := s.head? = some '[' ∧ before.getLast? = some ']'
    let fMultiColon := ':' ∈ before
    if before = [] ∨ fBracketed ∨ ¬fMultiColon then
      let n := Int.bmod (strtol after).1 (2 ^ 32)
      if (strtol after).2 = [] ∧ 0 ≤ n then (if 0 < n ∧ n < 0x10000 then n else portOut, unbracket before)
      else (portOut, unbracket s)
    else (portOut, unbracket s)

variable (sys : SystemText)

/-- `LookupIntern`, of a numeric name. -/
def lookupIntern (name : List Char) : Option CNetAddr := (setSpecial name).or (sys.parse name)

/-- `LookupNumeric`. -/
def lookupNumeric (name : List Char) (portDefault : ℤ) : Option CService :=
  if name = [] then none
  else
    let (port, hostname) := splitHostPort name portDefault
    (lookupIntern sys hostname).map fun ip => ⟨ip, UInt16.ofInt port⟩

/-- `CNetAddr::ToStringIP`. -/
def toStringIP (ip : CNetAddr) : List Char :=
  if CNetAddr.isTor ip then encodeBase32 (ip.drop 6) ++ ".onion".toList
  else if CNetAddr.isI2P ip then encodeBase32 (ip.drop 6) ++ ".oc.b32.i2p".toList
  else sys.print ip

/-- `CService::ToStringIPPort`. -/
def toStringIPPort (service : CService) : List Char :=
  let port := Nat.toDigits 10 service.port.toNat
  if CNetAddr.isIPv4 service.ip || CNetAddr.isTor service.ip || CNetAddr.isI2P service.ip then
    toStringIP sys service.ip ++ ':' :: port
  else '[' :: toStringIP sys service.ip ++ ']' :: ':' :: port

/-- The system reads what it prints: digits and points for IPv4, and digits, small letters up to f, colons and points
for IPv6. -/
structure SystemText.Inverse (sys : SystemText) : Prop where
  parse_print : ∀ ip : CNetAddr, ip.length = 16 → CNetAddr.isTor ip = false → CNetAddr.isI2P ip = false →
    sys.parse (sys.print ip) = some ip
  digits : ∀ ip : CNetAddr, CNetAddr.isIPv4 ip = true → ∀ c ∈ sys.print ip, c.isDigit = true ∨ c = '.'
  hexDigits : ∀ ip : CNetAddr, ∀ c ∈ sys.print ip,
    c.isDigit = true ∨ ('a' ≤ c ∧ c ≤ 'f') ∨ c = ':' ∨ c = '.'

/-- A service of sixteen bytes and a port. -/
def Printable (service : CService) : Prop := service.ip.length = 16 ∧ service.port ≠ 0
deriving Decidable

/-! ### Reading base 32 -/

theorem pbase32_getD_mem (d : ℕ) : pbase32.getD d 'a' ∈ pbase32 := by
  rw [List.getD_eq_getElem?_getD]
  rcases h : pbase32[d]? with _ | c
  · decide
  · exact List.mem_of_getElem? h

/-- The table has the place of every digit. -/
theorem decode32_pbase32 : ∀ d < 32, decode32 (pbase32.getD d 'a') = some d := by decide

theorem decodeLoop_padding (mode left n : ℕ) : decodeLoop mode left (List.replicate n '=') = [] := by
  rcases n with _ | n <;> rfl

/-- A digit is read, and what it leaves depends on where it stands. -/
theorem decodeLoop_digit (mode left : ℕ) {dec : ℕ} (hlt : dec < 32) (p : List Char) :
    decodeLoop mode left (pbase32.getD dec 'a' :: p) =
      match mode with
      | 0 => decodeLoop 1 dec p
      | 1 => UInt8.ofNat (left <<< 3 ||| dec >>> 2) :: decodeLoop 2 (dec &&& 3) p
      | 2 => decodeLoop 3 (left <<< 5 ||| dec) p
      | 3 => UInt8.ofNat (left <<< 1 ||| dec >>> 4) :: decodeLoop 4 (dec &&& 15) p
      | 4 => UInt8.ofNat (left <<< 4 ||| dec >>> 1) :: decodeLoop 5 (dec &&& 1) p
      | 5 => decodeLoop 6 (left <<< 5 ||| dec) p
      | 6 => UInt8.ofNat (left <<< 2 ||| dec >>> 3) :: decodeLoop 7 (dec &&& 7) p
      | _ => UInt8.ofNat (left <<< 5 ||| dec) :: decodeLoop 0 left p := by
  rw [decodeLoop, decode32_pbase32 dec hlt]

/-- A number is its high bits and its low ones. -/
theorem high_or_low (n k : ℕ) : (n >>> k) <<< k ||| (n &&& (2 ^ k - 1)) = n := by
  rw [Nat.and_two_pow_sub_one_eq_mod, ← Nat.shiftLeft_add_eq_or_of_lt (Nat.mod_lt _ (Nat.two_pow_pos k)),
    Nat.shiftRight_eq_div_pow, Nat.shiftLeft_eq, Nat.div_add_mod']

/-- The low bits of a byte, with the high bits of the next one behind them. -/
theorem digit_between {k m low q : ℕ} (hlow : low < 2 ^ k) (hq : q < 2 ^ m) :
    low <<< m ||| q < 2 ^ (k + m) ∧ (low <<< m ||| q) >>> m = low ∧ (low <<< m ||| q) &&& (2 ^ m - 1) = q := by
  have hsum : low <<< m ||| q = 2 ^ m * low + q := by
    rw [← Nat.shiftLeft_add_eq_or_of_lt hq, Nat.shiftLeft_eq, Nat.mul_comm]
  rw [hsum, Nat.shiftRight_eq_div_pow, Nat.and_two_pow_sub_one_eq_mod, Nat.mul_add_div (Nat.two_pow_pos m),
    Nat.mul_add_mod, Nat.div_eq_of_lt hq, Nat.mod_eq_of_lt hq, Nat.add_zero]
  refine ⟨?_, rfl, rfl⟩
  calc
    2 ^ m * low + q < 2 ^ m * (low + 1) := by rw [Nat.mul_succ]; exact Nat.add_lt_add_left hq _
    _ ≤ 2 ^ m * 2 ^ k := Nat.mul_le_mul_left _ hlow
    _ = 2 ^ (k + m) := by rw [← Nat.pow_add, Nat.add_comm]

/-- The high bits of a byte, with the five bits behind them. -/
theorem digit_within (e k : ℕ) : e >>> k &&& 31 < 32 ∧ (e >>> (k + 5)) <<< 5 ||| (e >>> k &&& 31) = e >>> k := by
  refine ⟨(Nat.and_two_pow_sub_one_eq_mod (e >>> k) 5).trans_lt (Nat.mod_lt _ (by decide)), ?_⟩
  rw [Nat.shiftRight_add]
  exact high_or_low (e >>> k) 5

section Digits

variable (e : UInt8) (p : List Char)

/-- A byte comes out of the digits around its end, and leaves the bits of the next one. -/
theorem byte_between {k q : ℕ} (hk : k ≤ 5) (hq : q < 2 ^ (5 - k)) :
    let dec := (e.toNat &&& (2 ^ k - 1)) <<< (5 - k) ||| q
    dec < 32 ∧ UInt8.ofNat ((e.toNat >>> k) <<< k ||| dec >>> (5 - k)) = e ∧ dec &&& (2 ^ (5 - k) - 1) = q := by
  have hlow : e.toNat &&& (2 ^ k - 1) < 2 ^ k :=
    (Nat.and_two_pow_sub_one_eq_mod _ k).trans_lt (Nat.mod_lt _ (Nat.two_pow_pos k))
  obtain ⟨hlt, hhigh, hrest⟩ := digit_between hlow hq
  rw [Nat.add_sub_cancel' hk] at hlt
  dsimp only
  rw [hhigh, high_or_low]
  exact ⟨hlt, UInt8.ofNat_toNat, hrest⟩

theorem decodeLoop_one {q : ℕ} (hq : q < 4) :
    decodeLoop 1 (e.toNat >>> 3) (pbase32.getD ((e.toNat &&& 7) <<< 2 ||| q) 'a' :: p) = e :: decodeLoop 2 q p := by
  obtain ⟨hlt, hbyte, hlow⟩ := byte_between e (k := 3) (by decide) hq
  exact (decodeLoop_digit 1 _ hlt p).trans (congrArg₂ List.cons hbyte (congrArg (decodeLoop 2 · p) hlow))

theorem decodeLoop_three {q : ℕ} (hq : q < 16) :
    decodeLoop 3 (e.toNat >>> 1) (pbase32.getD ((e.toNat &&& 1) <<< 4 ||| q) 'a' :: p) = e :: decodeLoop 4 q p := by
  obtain ⟨hlt, hbyte, hlow⟩ := byte_between e (k := 1) (by decide) hq
  exact (decodeLoop_digit 3 _ hlt p).trans (congrArg₂ List.cons hbyte (congrArg (decodeLoop 4 · p) hlow))

theorem decodeLoop_four {q : ℕ} (hq : q < 2) :
    decodeLoop 4 (e.toNat >>> 4) (pbase32.getD ((e.toNat &&& 15) <<< 1 ||| q) 'a' :: p) = e :: decodeLoop 5 q p := by
  obtain ⟨hlt, hbyte, hlow⟩ := byte_between e (k := 4) (by decide) hq
  exact (decodeLoop_digit 4 _ hlt p).trans (congrArg₂ List.cons hbyte (congrArg (decodeLoop 5 · p) hlow))

theorem decodeLoop_six {q : ℕ} (hq : q < 8) :
    decodeLoop 6 (e.toNat >>> 2) (pbase32.getD ((e.toNat &&& 3) <<< 3 ||| q) 'a' :: p) = e :: decodeLoop 7 q p := by
  obtain ⟨hlt, hbyte, hlow⟩ := byte_between e (k := 2) (by decide) hq
  exact (decodeLoop_digit 6 _ hlt p).trans (congrArg₂ List.cons hbyte (congrArg (decodeLoop 7 · p) hlow))

theorem decodeLoop_zero (left : ℕ) :
    decodeLoop 0 left (pbase32.getD (e.toNat >>> 3) 'a' :: p) = decodeLoop 1 (e.toNat >>> 3) p := by
  have hlt : e.toNat >>> 3 < 32 := by
    rw [Nat.shiftRight_eq_div_pow]
    exact Nat.div_lt_of_lt_mul e.toNat_lt
  exact decodeLoop_digit 0 left hlt p

theorem decodeLoop_two :
    decodeLoop 2 (e.toNat >>> 6) (pbase32.getD (e.toNat >>> 1 &&& 31) 'a' :: p) = decodeLoop 3 (e.toNat >>> 1) p := by
  obtain ⟨hlt, hbits⟩ := digit_within e.toNat 1
  exact (decodeLoop_digit 2 _ hlt p).trans (congrArg (decodeLoop 3 · p) hbits)

theorem decodeLoop_five :
    decodeLoop 5 (e.toNat >>> 7) (pbase32.getD (e.toNat >>> 2 &&& 31) 'a' :: p) = decodeLoop 6 (e.toNat >>> 2) p := by
  obtain ⟨hlt, hbits⟩ := digit_within e.toNat 2
  exact (decodeLoop_digit 5 _ hlt p).trans (congrArg (decodeLoop 6 · p) hbits)

theorem decodeLoop_seven :
    decodeLoop 7 (e.toNat >>> 5) (pbase32.getD (e.toNat &&& 31) 'a' :: p) = e :: decodeLoop 0 (e.toNat >>> 5) p := by
  obtain ⟨hlt, hbits⟩ := digit_within e.toNat 0
  exact (decodeLoop_digit 7 _ hlt p).trans (congrArg (· :: _) ((congrArg UInt8.ofNat hbits).trans UInt8.ofNat_toNat))

end Digits

/-- What is encoded decodes again, from every state of the encoder, where `e` is the byte that is half out. -/
theorem decodeLoop_encodeLoop (bytes : List UInt8) :
    (∀ left left', decodeLoop 0 left (encodeLoop 0 left' bytes) = bytes) ∧ ∀ e : UInt8,
      decodeLoop 1 (e.toNat >>> 3) (encodeLoop 1 ((e.toNat &&& 7) <<< 2) bytes) = e :: bytes ∧
      decodeLoop 3 (e.toNat >>> 1) (encodeLoop 2 ((e.toNat &&& 1) <<< 4) bytes) = e :: bytes ∧
      decodeLoop 4 (e.toNat >>> 4) (encodeLoop 3 ((e.toNat &&& 15) <<< 1) bytes) = e :: bytes ∧
      decodeLoop 6 (e.toNat >>> 2) (encodeLoop 4 ((e.toNat &&& 3) <<< 3) bytes) = e :: bytes := by
  induction bytes with
  | nil =>
    refine ⟨fun left left' => rfl, fun e => ⟨?_, ?_, ?_, ?_⟩⟩
    · have hlast := decodeLoop_one e (List.replicate 6 '=') (q := 0) (by decide)
      rw [Nat.or_zero, decodeLoop_padding] at hlast
      exact hlast
    · have hlast := decodeLoop_three e (List.replicate 4 '=') (q := 0) (by decide)
      rw [Nat.or_zero, decodeLoop_padding] at hlast
      exact hlast
    · have hlast := decodeLoop_four e (List.replicate 3 '=') (q := 0) (by decide)
      rw [Nat.or_zero, decodeLoop_padding] at hlast
      exact hlast
    · have hlast := decodeLoop_six e (List.replicate 1 '=') (q := 0) (by decide)
      rw [Nat.or_zero, decodeLoop_padding] at hlast
      exact hlast
  | cons pch bytes ih =>
    obtain ⟨hstart, hrest⟩ := ih
    obtain ⟨h1, h3, h4, h6⟩ := hrest pch
    have hhigh (k m : ℕ) (h : 256 ≤ m * 2 ^ k) : pch.toNat >>> k < m := by
      rw [Nat.shiftRight_eq_div_pow]
      exact Nat.div_lt_of_lt_mul (pch.toNat_lt.trans_le (h.trans_eq (Nat.mul_comm _ _)))
    refine ⟨fun left left' => ?_, fun e => ⟨?_, ?_, ?_, ?_⟩⟩
    · rw [encodeLoop, decodeLoop_zero, h1]
    · rw [encodeLoop, decodeLoop_one _ _ (hhigh 6 4 (by norm_num)), decodeLoop_two, h3]
    · rw [encodeLoop, decodeLoop_three _ _ (hhigh 4 16 (by norm_num)), h4]
    · rw [encodeLoop, decodeLoop_four _ _ (hhigh 7 2 (by norm_num)), decodeLoop_five, h6]
    · rw [encodeLoop, decodeLoop_six _ _ (hhigh 5 8 (by norm_num)), decodeLoop_seven, hstart]
      all_goals simp

/-- Base 32 gives the bytes back. -/
theorem decodeBase32_encodeBase32 (bytes : List UInt8) : decodeBase32 (encodeBase32 bytes) = bytes :=
  (decodeLoop_encodeLoop bytes).1 0 0

/-- The text has digits of the table and equals signs. -/
theorem mem_encodeLoop {mode left : ℕ} {bytes : List UInt8} {c : Char} (h : c ∈ encodeLoop mode left bytes) :
    c ∈ pbase32 ∨ c = '=' := by
  fun_induction encodeLoop mode left bytes with
  | case1 => cases h
  | case2 mode left =>
    rcases List.mem_cons.1 h with rfl | h
    · exact .inl (pbase32_getD_mem _)
    · exact .inr (List.eq_of_mem_replicate h)
  | case3 left pch bytes enc ih =>
    rcases List.mem_cons.1 h with rfl | h
    · exact .inl (pbase32_getD_mem _)
    · exact ih h
  | case4 left pch bytes enc ih =>
    rcases List.mem_cons.1 h with rfl | h
    · exact .inl (pbase32_getD_mem _)
    rcases List.mem_cons.1 h with rfl | h
    · exact .inl (pbase32_getD_mem _)
    · exact ih h
  | case5 left pch bytes enc ih =>
    rcases List.mem_cons.1 h with rfl | h
    · exact .inl (pbase32_getD_mem _)
    · exact ih h
  | case6 left pch bytes enc ih =>
    rcases List.mem_cons.1 h with rfl | h
    · exact .inl (pbase32_getD_mem _)
    rcases List.mem_cons.1 h with rfl | h
    · exact .inl (pbase32_getD_mem _)
    · exact ih h
  | case7 mode left pch bytes _ _ _ _ enc ih =>
    rcases List.mem_cons.1 h with rfl | h
    · exact .inl (pbase32_getD_mem _)
    rcases List.mem_cons.1 h with rfl | h
    · exact .inl (pbase32_getD_mem _)
    · exact ih h

/-! ### Names behind the address -/

theorem encodeBase32_ne_nil {bytes : List UInt8} (h : bytes ≠ []) : encodeBase32 bytes ≠ [] := by
  rcases bytes with _ | ⟨pch, bytes⟩
  · exact absurd rfl h
  · rw [encodeBase32, encodeLoop]
    exact List.cons_ne_nil _ _

theorem dropSuffix?_append {suffix name : List Char} (h : name ≠ []) :
    dropSuffix? suffix (name ++ suffix) = some name := by
  have hlength : (name ++ suffix).length - suffix.length = name.length := by
    rw [List.length_append, Nat.add_sub_cancel]
  have hlt : suffix.length < (name ++ suffix).length := by
    rw [List.length_append]
    exact Nat.lt_add_of_pos_left (List.length_pos_iff.2 h)
  rw [dropSuffix?, hlength, if_pos ⟨hlt, List.drop_left⟩, List.take_left]

/-- A text without one of the characters of the suffix does not end in it. -/
theorem dropSuffix?_eq_none {suffix name : List Char} {c : Char} (hc : c ∈ suffix) (h : c ∉ name) :
    dropSuffix? suffix name = none := by
  rw [dropSuffix?, if_neg]
  rintro ⟨-, heq⟩
  rw [← heq] at hc
  exact h (List.mem_of_mem_drop hc)

theorem dropSuffix?_of_longer {suffix suffix' name : List Char} (hlength : suffix.length ≤ suffix'.length)
    (h : suffix'.drop (suffix'.length - suffix.length) ≠ suffix) : dropSuffix? suffix (name ++ suffix') = none := by
  rw [dropSuffix?, if_neg]
  rintro ⟨-, heq⟩
  refine h (Eq.trans ?_ heq)
  rw [List.length_append, Nat.add_sub_assoc hlength, List.drop_append, List.drop_of_length_le (Nat.le_add_right _ _),
    Nat.add_sub_cancel_left, List.nil_append]

variable {ip : CNetAddr} (hlength : ip.length = 16)
include hlength

theorem drop_ne_nil : ip.drop 6 ≠ [] := by
  rw [← List.length_pos_iff, List.length_drop, hlength]
  norm_num

/-- The text of an address of Tor is read as one of Tor. -/
theorem setSpecial_onion :
    setSpecial (encodeBase32 (ip.drop 6) ++ ".onion".toList) = some (CNetAddr.pchOnionCat ++ ip.drop 6) := by
  rw [setSpecial, dropSuffix?_append (encodeBase32_ne_nil (drop_ne_nil hlength))]
  dsimp only
  rw [decodeBase32_encodeBase32, if_neg]
  rw [List.length_drop, hlength]
  exact fun h => h rfl

/-- The text of an address of I2P is read as one of Tor. -/
theorem setSpecial_i2p :
    setSpecial (encodeBase32 (ip.drop 6) ++ ".oc.b32.i2p".toList) = some (CNetAddr.pchOnionCat ++ ip.drop 6) := by
  have hne : dropSuffix? ".onion".toList (encodeBase32 (ip.drop 6) ++ ".oc.b32.i2p".toList) = none :=
    dropSuffix?_of_longer (by decide) (by decide)
  rw [setSpecial, hne]
  dsimp only
  rw [dropSuffix?_append (encodeBase32_ne_nil (drop_ne_nil hlength))]
  dsimp only
  rw [decodeBase32_encodeBase32, if_neg]
  rw [List.length_drop, hlength]
  exact fun h => h rfl

omit hlength

/-- What the system does not print. -/
theorem not_mem_print {sys : SystemText} (hsys : sys.Inverse) (ip : CNetAddr) {c : Char} (hdigit : c.isDigit = false)
    (hletter : ¬ ('a' ≤ c ∧ c ≤ 'f')) (hcolon : c ≠ ':') (hpoint : c ≠ '.') : c ∉ sys.print ip := by
  intro hc
  rcases hsys.hexDigits ip c hc with h | h | h | h
  · rw [hdigit] at h
    cases h
  · exact hletter h
  · exact hcolon h
  · exact hpoint h

/-- What the system prints has no name behind it. -/
theorem setSpecial_print {sys : SystemText} (hsys : sys.Inverse) (ip : CNetAddr) : setSpecial (sys.print ip) = none := by
  have hn : 'n' ∉ sys.print ip := not_mem_print hsys ip (by decide) (by decide) (by decide) (by decide)
  have hp : 'p' ∉ sys.print ip := not_mem_print hsys ip (by decide) (by decide) (by decide) (by decide)
  rw [setSpecial, dropSuffix?_eq_none (by decide) hn]
  dsimp only
  rw [dropSuffix?_eq_none (by decide) hp]

/-! ### Ports behind the host -/

theorem strtol_toDigits (n : ℕ) : strtol (Nat.toDigits 10 n) = (min (2 ^ 63 - 1) (n : ℤ), []) := by
  have htake := takeWhile_toDigits n
  have hdrop : (Nat.toDigits 10 n).dropWhile Char.isDigit = [] :=
    List.dropWhile_eq_nil_iff.2 fun _ => toDigits_isDigit
  have hvalue : Nat.ofDigitChars 10 (Nat.toDigits 10 n) 0 = n := Nat.ofDigitChars_ten_toDigits
  obtain ⟨c, text, htext, hc⟩ := exists_toDigits_eq_cons n
  rw [htext] at htake hdrop hvalue ⊢
  rw [strtol, List.dropWhile_cons_of_neg (Bool.eq_false_iff.1 (not_isspace_of_isDigit hc))]
  dsimp only
  split
  · rename_i heq
    cases heq
    cases hc
  · rename_i heq
    cases heq
    cases hc
  · rw [htake, hdrop, hvalue, if_neg (List.cons_ne_nil _ _)]
    rfl

theorem unbracket_brackets (t : List Char) : unbracket ('[' :: t ++ [']']) = t := by
  rw [unbracket, if_pos ⟨rfl, List.getLast?_concat⟩, List.cons_append, List.tail_cons, List.dropLast_concat]

theorem unbracket_of_head {t : List Char} (h : '[' ∉ t) : unbracket t = t := by
  rw [unbracket, if_neg]
  exact fun hhead => h (List.mem_of_mem_head? hhead.1)

theorem colon_not_mem_toDigits (n : ℕ) : ':' ∉ Nat.toDigits 10 n := by
  intro h
  have hdigit := toDigits_isDigit h
  cases hdigit

/-- What is behind the last separator of a text, and what is in front of it. -/
theorem last_separator {c : Char} {t m : List Char} (h : c ∉ m) :
    ((t ++ c :: m).reverse.takeWhile (· ≠ c)).reverse = m ∧
      ((t ++ c :: m).reverse.dropWhile (· ≠ c)).tail.reverse = t := by
  have hreverse : (t ++ c :: m).reverse = m.reverse ++ c :: t.reverse := by
    rw [List.reverse_append, List.reverse_cons, List.append_assoc, List.singleton_append]
  have hother : ∀ d ∈ m.reverse, decide (d ≠ c) = true := by
    intro d hd
    refine decide_eq_true ?_
    rintro rfl
    exact h (List.mem_reverse.1 hd)
  have htake : (c :: t.reverse).takeWhile (· ≠ c) = [] := List.takeWhile_cons_of_neg (by simp)
  have hdrop : (c :: t.reverse).dropWhile (· ≠ c) = c :: t.reverse := List.dropWhile_cons_of_neg (by simp)
  rw [hreverse, List.takeWhile_append_of_pos hother, htake, List.append_nil, List.dropWhile_append_of_pos hother, hdrop,
    List.tail_cons]
  exact ⟨List.reverse_reverse m, List.reverse_reverse t⟩

/-- A port behind a host in brackets, or behind one without colons. -/
theorem splitHostPort_port {host : List Char} {n : ℕ} (hpos : 0 < n) (hn : n < 0x10000)
    (hhost : ':' ∉ host ∨ host.head? = some '[' ∧ host.getLast? = some ']') (portOut : ℤ) :
    splitHostPort (host ++ ':' :: Nat.toDigits 10 n) portOut = ((n : ℤ), unbracket host) := by
  obtain ⟨hafter, hbefore⟩ := last_separator (colon_not_mem_toDigits n) (t := host)
  have hmod : Int.bmod (min (2 ^ 63 - 1) (n : ℤ)) (2 ^ 32) = n := by
    rw [min_eq_right (by omega), Int.bmod_eq_of_le (by omega) (by omega)]
  have hshape : host = [] ∨ ((host ++ ':' :: Nat.toDigits 10 n).head? = some '[' ∧ host.getLast? = some ']') ∨
      ¬ ':' ∈ host := by
    rcases hhost with h | ⟨hhead, hlast⟩
    · exact .inr (.inr h)
    · refine .inr (.inl ⟨?_, hlast⟩)
      rw [List.head?_append, hhead]
      rfl
  rw [splitHostPort, if_neg (not_not_intro (List.mem_append_right _ List.mem_cons_self))]
  dsimp only
  rw [hafter, hbefore, if_pos hshape, strtol_toDigits]
  dsimp only
  rw [hmod, if_pos ⟨rfl, by omega⟩, if_pos ⟨by omega, by omega⟩]

/-! ### Reading the text of a service -/

/-- The address as it is read: one of I2P becomes one of Tor. -/
def readBack (ip : CNetAddr) : CNetAddr := if CNetAddr.isI2P ip then CNetAddr.pchOnionCat ++ ip.drop 6 else ip

theorem readBack_eq_iff {ip : CNetAddr} : readBack ip = ip ↔ CNetAddr.isI2P ip = false := by
  rw [readBack]
  split
  · rename_i hi2p
    refine ⟨fun hip => ?_, fun h => absurd hi2p (Bool.eq_false_iff.1 h)⟩
    rw [← hip, CNetAddr.isI2P, List.take_left' (by decide)]
    decide
  · exact ⟨fun _ => Bool.eq_false_iff.2 ‹_›, fun _ => rfl⟩

theorem ofInt_port (port : UInt16) : UInt16.ofInt (port.toNat : ℤ) = port := by
  have hlt := port.toNat_lt
  have hmod : ((port.toNat : ℤ) % 2 ^ 16).toNat = port.toNat := by omega
  rw [UInt16.ofInt, hmod, UInt16.ofNat_toNat]

section Services

variable {sys : SystemText} (hsys : sys.Inverse)
include hsys

theorem lookupIntern_toStringIP {ip : CNetAddr} (hlength : ip.length = 16) :
    lookupIntern sys (toStringIP sys ip) = some (readBack ip) := by
  rw [lookupIntern, toStringIP, readBack]
  by_cases htor : CNetAddr.isTor ip = true
  · have htake : ip.take 6 = CNetAddr.pchOnionCat := of_decide_eq_true htor
    have hi2p : ¬ CNetAddr.isI2P ip = true := by
      rw [CNetAddr.isI2P, htake]
      decide
    rw [if_pos htor, if_neg hi2p, setSpecial_onion hlength, ← htake, List.take_append_drop]
    rfl
  rw [if_neg htor]
  by_cases hi2p : CNetAddr.isI2P ip = true
  · rw [if_pos hi2p, if_pos hi2p, setSpecial_i2p hlength]
    rfl
  · rw [if_neg hi2p, if_neg hi2p, setSpecial_print hsys, hsys.parse_print ip hlength (Bool.eq_false_iff.2 htor)
      (Bool.eq_false_iff.2 hi2p)]
    rfl

/-- Texts of addresses have no brackets, and those of IPv4, Tor and I2P have no colons. -/
theorem toStringIP_chars (ip : CNetAddr) : '[' ∉ toStringIP sys ip ∧
    ((CNetAddr.isIPv4 ip || CNetAddr.isTor ip || CNetAddr.isI2P ip) = true → ':' ∉ toStringIP sys ip) := by
  have hbase {c : Char} {name : List Char} (hc : c ∉ pbase32) (hpad : c ≠ '=') (hname : c ∉ name) :
      c ∉ encodeBase32 (ip.drop 6) ++ name := by
    intro hmem
    rcases List.mem_append.1 hmem with h | h
    · exact (mem_encodeLoop h).elim hc hpad
    · exact hname h
  rw [toStringIP]
  by_cases htor : CNetAddr.isTor ip = true
  · rw [if_pos htor]
    exact ⟨hbase (by decide) (by decide) (by decide), fun _ => hbase (by decide) (by decide) (by decide)⟩
  by_cases hi2p : CNetAddr.isI2P ip = true
  · rw [if_neg htor, if_pos hi2p]
    exact ⟨hbase (by decide) (by decide) (by decide), fun _ => hbase (by decide) (by decide) (by decide)⟩
  rw [if_neg htor, if_neg hi2p, Bool.eq_false_iff.2 htor, Bool.eq_false_iff.2 hi2p, Bool.or_false, Bool.or_false]
  constructor
  · exact not_mem_print hsys ip (by decide) (by decide) (by decide) (by decide)
  · intro hipv4 hmem
    rcases hsys.digits ip hipv4 _ hmem with h | h <;> revert h <;> decide

theorem splitHostPort_toStringIPPort {service : CService} (hport : service.port ≠ 0) (portDefault : ℤ) :
    splitHostPort (toStringIPPort sys service) portDefault =
      ((service.port.toNat : ℤ), toStringIP sys service.ip) := by
  obtain ⟨hbracket, hcolon⟩ := toStringIP_chars hsys service.ip
  have hpos : 0 < service.port.toNat := Nat.pos_of_ne_zero fun h => hport (UInt16.toNat_inj.1 h)
  rw [toStringIPPort]
  split
  · rename_i hclass
    rw [splitHostPort_port hpos service.port.toNat_lt (.inl (hcolon hclass)), unbracket_of_head hbracket]
  · have hsplit := splitHostPort_port hpos service.port.toNat_lt
      (.inr ⟨rfl, List.getLast?_concat⟩ : ':' ∉ '[' :: toStringIP sys service.ip ++ [']'] ∨ _) portDefault
    rw [unbracket_brackets, List.append_assoc, List.singleton_append] at hsplit
    exact hsplit

theorem lookupNumeric_toStringIPPort {service : CService} (h : Printable service) (portDefault : ℤ) :
    lookupNumeric sys (toStringIPPort sys service) portDefault = some ⟨readBack service.ip, service.port⟩ := by
  have hne : toStringIPPort sys service ≠ [] := by
    rw [toStringIPPort]
    split
    · exact List.append_ne_nil_of_right_ne_nil _ (List.cons_ne_nil _ _)
    · exact List.cons_ne_nil _ _
  rw [lookupNumeric, if_neg hne, splitHostPort_toStringIPPort hsys h.2]
  dsimp only
  rw [lookupIntern_toStringIP hsys h.1, Option.map_some]
  rw [ofInt_port]

/-- Different addresses have different texts. -/
theorem toStringIP_injective {a b : CNetAddr} (ha : a.length = 16) (hb : b.length = 16)
    (h : toStringIP sys a = toStringIP sys b) : a = b := by
  have hread : readBack a = readBack b := by
    rw [← Option.some_inj, ← lookupIntern_toStringIP hsys ha, ← lookupIntern_toStringIP hsys hb, h]
  -- only Tor and I2P are read alike, and their names differ
  have hmixed {a b : CNetAddr} (hi2p : CNetAddr.isI2P a = true) (hother : ¬ CNetAddr.isI2P b = true)
      (hread : readBack a = readBack b) : toStringIP sys a ≠ toStringIP sys b := by
    rw [readBack, readBack, if_pos hi2p, if_neg hother] at hread
    have htor : CNetAddr.isTor b = true := by
      rw [← hread, CNetAddr.isTor, List.take_left' (by decide)]
      exact decide_eq_true rfl
    have hnot : ¬ CNetAddr.isTor a = true := by
      have htake : a.take 6 = CNetAddr.pchGarliCat := of_decide_eq_true hi2p
      rw [CNetAddr.isTor, htake]
      decide
    rw [toStringIP, toStringIP, if_neg hnot, if_pos hi2p, if_pos htor]
    intro heq
    have hlast := congrArg List.getLast? heq
    have hp : ".oc.b32.i2p".toList.getLast? = some 'p' := by decide
    have hn : ".onion".toList.getLast? = some 'n' := by decide
    rw [List.getLast?_append, List.getLast?_append, hp, hn, Option.some_or, Option.some_or] at hlast
    exact absurd hlast (by decide)
  by_cases hia : CNetAddr.isI2P a = true <;> by_cases hib : CNetAddr.isI2P b = true
  · rw [readBack, readBack, if_pos hia, if_pos hib] at hread
    have htake : a.take 6 = b.take 6 := (of_decide_eq_true hia).trans (of_decide_eq_true hib).symm
    rw [← List.take_append_drop 6 a, ← List.take_append_drop 6 b, htake, List.append_cancel_left hread]
  · exact absurd h (hmixed hia hib hread)
  · exact absurd h.symm (hmixed hib hia hread.symm)
  · rwa [readBack, readBack, if_neg hia, if_neg hib] at hread

/-- **The text of a service gives it back, and is of no other service, if and only if it is not one of I2P.** -/
theorem lookupNumeric_iff {service : CService} (h : Printable service) (portDefault : ℤ) :
    (lookupNumeric sys (toStringIPPort sys service) portDefault = some service ∧
      ∀ other, Printable other → toStringIPPort sys other = toStringIPPort sys service → other = service) ↔
      CNetAddr.isI2P service.ip = false := by
  rw [lookupNumeric_toStringIPPort hsys h]
  constructor
  · rintro ⟨heq, -⟩
    exact readBack_eq_iff.1 (congrArg CService.ip (Option.some_inj.1 heq))
  · intro hi2p
    constructor
    · rw [readBack_eq_iff.2 hi2p]
    · intro other hother htext
      have hsplit := splitHostPort_toStringIPPort hsys hother.2 portDefault
      rw [htext, splitHostPort_toStringIPPort hsys h.2, Prod.mk.injEq, Int.ofNat_inj, UInt16.toNat_inj] at hsplit
      obtain ⟨ip, port⟩ := service
      obtain ⟨ip', port'⟩ := other
      obtain ⟨rfl, hip⟩ := hsplit
      cases toStringIP_injective hsys h.1 hother.1 hip
      rfl

end Services

/-! ### A system -/

namespace ServiceSample

def hexChars : List Char := "0123456789abcdef".toList

/-- Four digits for two bytes, with colons between. -/
def hexText : List UInt8 → List Char
  | a :: b :: bytes =>
    hexChars.getD (a.toNat / 16) '0' :: hexChars.getD (a.toNat % 16) '0' :: hexChars.getD (b.toNat / 16) '0' ::
      hexChars.getD (b.toNat % 16) '0' :: if bytes = [] then [] else ':' :: hexText bytes
  | _ => []

/-- The byte of two digits. -/
def hexByte (a b : Char) : UInt8 := UInt8.ofNat (16 * hexChars.idxOf a + hexChars.idxOf b)

def readHex : List Char → List UInt8
  | [a, b, c, d] => [hexByte a b, hexByte c d]
  | a :: b :: c :: d :: _ :: rest => hexByte a b :: hexByte c d :: readHex rest
  | _ => []

/-- Four numbers with points between, and eight groups with colons between. -/
def system : SystemText where
  print ip :=
    if CNetAddr.isIPv4 ip then ['.'].intercalate ((ip.drop 12).map fun b => Nat.toDigits 10 b.toNat) else hexText ip
  parse s :=
    if '.' ∈ s then
      some (CNetAddr.pchIPv4 ++ (s.splitOn '.').map fun t => UInt8.ofNat (Nat.ofDigitChars 10 t 0))
    else some (readHex s)

theorem hexByte_digits (b : UInt8) :
    hexByte (hexChars.getD (b.toNat / 16) '0') (hexChars.getD (b.toNat % 16) '0') = b := by
  have hdigit : ∀ n < 16, hexChars.idxOf (hexChars.getD n '0') = n := by decide
  rw [hexByte, hdigit _ (Nat.div_lt_of_lt_mul b.toNat_lt), hdigit _ (Nat.mod_lt _ (by decide)), Nat.div_add_mod,
    UInt8.ofNat_toNat]

theorem readHex_hexText {bytes : List UInt8} (h : 2 ∣ bytes.length) : readHex (hexText bytes) = bytes := by
  fun_induction hexText bytes with
  | case1 a b bytes ih =>
    have hrest : 2 ∣ bytes.length := (Nat.dvd_add_left (dvd_refl 2)).1 h
    by_cases hnil : bytes = []
    · rw [if_pos hnil, readHex, hexByte_digits, hexByte_digits, hnil]
    · rw [if_neg hnil, readHex, hexByte_digits, hexByte_digits, ih hrest]
  | case2 bytes hshape =>
    rcases bytes with _ | ⟨a, _ | ⟨b, bytes⟩⟩
    · rfl
    · have hone : 2 ∣ 1 := h
      exact absurd hone (by decide)
    · exact absurd rfl (hshape a b bytes)

theorem hexChars_getD_mem (n : ℕ) : hexChars.getD n '0' ∈ hexChars := by
  rw [List.getD_eq_getElem?_getD]
  rcases h : hexChars[n]? with _ | c
  · decide
  · exact List.mem_of_getElem? h

theorem mem_hexText {bytes : List UInt8} {c : Char} (h : c ∈ hexText bytes) : c ∈ hexChars ∨ c = ':' := by
  fun_induction hexText bytes with
  | case1 a b bytes ih =>
    simp only [List.mem_cons] at h
    rcases h with rfl | rfl | rfl | rfl | h
    · exact .inl (hexChars_getD_mem _)
    · exact .inl (hexChars_getD_mem _)
    · exact .inl (hexChars_getD_mem _)
    · exact .inl (hexChars_getD_mem _)
    · by_cases hnil : bytes = []
      · rw [if_pos hnil] at h
        cases h
      · rw [if_neg hnil] at h
        rcases List.mem_cons.1 h with rfl | h
        · exact .inr rfl
        · exact ih h
  | case2 => cases h

/-- Four numbers with points between them are read. -/
theorem parse_decimal (bytes : List UInt8) (h : 1 < bytes.length) :
    let s := ['.'].intercalate (bytes.map fun b => Nat.toDigits 10 b.toNat)
    '.' ∈ s ∧ (s.splitOn '.').map (fun t => UInt8.ofNat (Nat.ofDigitChars 10 t 0)) = bytes := by
  have hpoint : ∀ l ∈ bytes.map fun b => Nat.toDigits 10 b.toNat, '.' ∉ l := by
    intro l hl hmem
    obtain ⟨b, -, rfl⟩ := List.mem_map.1 hl
    exact absurd (toDigits_isDigit hmem) (by decide)
  have hne : (bytes.map fun b => Nat.toDigits 10 b.toNat) ≠ [] := by
    rw [ne_eq, List.map_eq_nil_iff]
    rintro rfl
    exact absurd h (by decide)
  constructor
  · rcases bytes with _ | ⟨a, _ | ⟨b, bytes⟩⟩
    · exact absurd h (by decide)
    · exact absurd h (lt_irrefl _)
    · simp [List.intercalate]
  · rw [List.splitOn_intercalate '.' hpoint hne, List.map_map]
    refine (List.map_congr_left fun b _ => ?_).trans (List.map_id bytes)
    rw [Function.comp_apply, Nat.ofDigitChars_ten_toDigits, UInt8.ofNat_toNat, id]

theorem mem_intercalate {c x : Char} {ls : List (List Char)} (h : c ∈ [x].intercalate ls) : c = x ∨ ∃ l ∈ ls, c ∈ l := by
  induction ls with
  | nil => cases h
  | cons l ls ih =>
    rcases ls with _ | ⟨l', ls⟩
    · rw [List.intercalate_singleton] at h
      exact .inr ⟨l, List.mem_cons_self, h⟩
    · rw [List.intercalate_cons_cons, List.append_assoc, List.mem_append, List.mem_append, List.mem_singleton] at h
      rcases h with h | h | h
      · exact .inr ⟨l, List.mem_cons_self, h⟩
      · exact .inl h
      · exact (ih h).imp id fun ⟨l, hl, hc⟩ => ⟨l, List.mem_cons_of_mem _ hl, hc⟩

theorem mem_decimal {bytes : List UInt8} {c : Char}
    (h : c ∈ ['.'].intercalate (bytes.map fun b => Nat.toDigits 10 b.toNat)) : c.isDigit = true ∨ c = '.' := by
  rcases mem_intercalate h with rfl | ⟨l, hl, hc⟩
  · exact .inr rfl
  · obtain ⟨b, -, rfl⟩ := List.mem_map.1 hl
    exact .inl (toDigits_isDigit hc)

theorem system_inverse : system.Inverse where
  parse_print ip hlength _ _ := by
    by_cases hipv4 : CNetAddr.isIPv4 ip = true
    · have htake : ip.take 12 = CNetAddr.pchIPv4 := of_decide_eq_true hipv4
      obtain ⟨hmem, hread⟩ := parse_decimal (ip.drop 12) (by rw [List.length_drop, hlength]; decide)
      dsimp only [system]
      rw [if_pos hipv4, if_pos hmem, hread, ← htake, List.take_append_drop]
    · have hpoint : '.' ∉ hexText ip := fun h => (mem_hexText h).elim (by decide) (by decide)
      dsimp only [system]
      rw [if_neg hipv4, if_neg hpoint, readHex_hexText (hlength ▸ by decide)]
  digits ip hipv4 c hc := by
    dsimp only [system] at hc
    rw [if_pos hipv4] at hc
    exact mem_decimal hc
  hexDigits ip c hc := by
    dsimp only [system] at hc
    by_cases hipv4 : CNetAddr.isIPv4 ip = true
    · rw [if_pos hipv4] at hc
      exact (mem_decimal hc).imp id fun h => .inr (.inr h)
    · rw [if_neg hipv4] at hc
      have hchars : hexChars.all (fun c => c.isDigit || ('a' ≤ c && c ≤ 'f')) = true := by decide
      rcases mem_hexText hc with h | h
      · have hchar := List.all_eq_true.1 hchars c h
        rw [Bool.or_eq_true, Bool.and_eq_true, decide_eq_true_eq, decide_eq_true_eq] at hchar
        exact hchar.imp id .inl
      · exact .inr (.inr (.inl h))

/-- A service of IPv4. -/
def web : CService := ⟨CNetAddr.pchIPv4 ++ [93, 184, 216, 34], 80⟩

/-- A service of I2P. -/
def hidden : CService := ⟨CNetAddr.pchGarliCat ++ [1, 2, 3, 4, 5, 6, 7, 8, 9, 10], 9323⟩

theorem web_read : (lookupNumeric system (toStringIPPort system web) 0 = some web ∧
      ∀ other, Printable other → toStringIPPort system other = toStringIPPort system web → other = web) ↔
      CNetAddr.isI2P web.ip = false :=
  lookupNumeric_iff system_inverse (by decide) 0

/-- The service of I2P comes back as one of Tor. -/
theorem hidden_moved : system.Inverse ∧ Printable hidden ∧
    lookupNumeric system (toStringIPPort system hidden) 0 =
      some ⟨CNetAddr.pchOnionCat ++ [1, 2, 3, 4, 5, 6, 7, 8, 9, 10], 9323⟩ ∧
    lookupNumeric system (toStringIPPort system hidden) 0 ≠ some hidden := by
  have hread : lookupNumeric system (toStringIPPort system hidden) 0 =
      some ⟨CNetAddr.pchOnionCat ++ [1, 2, 3, 4, 5, 6, 7, 8, 9, 10], 9323⟩ :=
    lookupNumeric_toStringIPPort system_inverse (by decide) 0
  refine ⟨system_inverse, by decide, hread, ?_⟩
  rw [hread]
  decide

/-- A system prints and reads an address of IPv4. -/
example : system.print web.ip = "93.184.216.34".toList := rfl

end ServiceSample

end PayDayCoin
