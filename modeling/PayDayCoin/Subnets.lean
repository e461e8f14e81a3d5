import PayDayCoin.ServiceText

/-!
# Subnets

Bans hold subnets: an address and a mask, read from a text `address/n` or `address/netmask`. The loop that clears the
bits of the mask from the `n`-th on counts them from the low end of each byte, and `Match` compares with an address that
keeps its own bits behind the prefix.

**`subnet_iff`**: a subnet of a prefix matches what begins like its address, is the one of the netmask of the prefix,
and is read back from its text, if and only if the prefix ends with a byte, no bits of the address are behind it where
there is a valid address to match, and the address is not one of I2P.
-/

namespace PayDayCoin

structure CSubNet where
  network : CNetAddr
  netmask : List UInt8
  valid : Bool
deriving DecidableEq

namespace CSubNet

/-- `ParseInt32`. -/
def parseInt32 (str : List Char) : Option ℤ :=
  let (n, endp) := strtol str
  if endp = [] ∧ -2 ^ 31 ≤ n ∧ n ≤ 2 ^ 31 - 1 then some n else none

/-- The loop that clears the bits of a mask of ones, from the `n`-th on. -/
def clearBits (n : ℕ) : List UInt8 :=
  (List.range' n (128 - n)).foldl
    (fun netmask n => netmask.modify (n >>> 3) (· &&& ~~~((1 : UInt8) <<< UInt8.ofNat (n &&& 7)))) (List.replicate 16 255)

section Texts

variable (sys : SystemText)

/-- `LookupHostNumeric`, for one address. -/
def lookupHost (name : List Char) : Option CNetAddr := if name = [] then none else lookupIntern sys (unbracket name)

/-- `CSubNet::CSubNet`, of a text. -/
def ofText (strSubnet : List Char) : CSubNet :=
  let strAddress :=
    if '/' ∈ strSubnet then (strSubnet.reverse.dropWhile (· ≠ '/')).tail.reverse else strSubnet
  match lookupHost sys strAddress with
  | none => ⟨List.replicate 16 0, List.replicate 16 255, false⟩
  | some network =>
    if '/' ∈ strSubnet then
      let strNetmask := (strSubnet.reverse.takeWhile (· ≠ '/')).reverse
      let noffset := if CNetAddr.isIPv4 network then 12 * 8 else 0
      match parseInt32 strNetmask with
      | some n =>
        if 0 ≤ n ∧ n ≤ (128 - noffset : ℕ) then ⟨network, clearBits (n.toNat + noffset), true⟩
        else ⟨network, List.replicate 16 255, false⟩
      | none =>
        match lookupHost sys strNetmask with
        | some mask =>
          ⟨network, if CNetAddr.isIPv4 network then List.replicate 12 255 ++ mask.drop 12 else mask, true⟩
        | none => ⟨network, List.replicate 16 255, false⟩
    else ⟨network, List.replicate 16 255, true⟩

/-- `NetmaskBits`. -/
def netmaskBits (x : UInt8) : Option ℕ :=
  ([0x00, 0x80, 0xc0, 0xe0, 0xf0, 0xf8, 0xfc, 0xfe, 0xff] : List UInt8).findIdx? (· = x)

/-- The prefix of a mask, from byte `n` on, where it has one. -/
def cidr (netmask : List UInt8) (n : ℕ) : Option ℕ :=
  let full := ((netmask.drop n).takeWhile (· = 0xff)).length
  match (netmask.drop n).dropWhile (· = 0xff) with
  | [] => some (8 * full)
  | x :: rest => (netmaskBits x).bind fun bits => if rest.all (· = 0) then some (8 * full + bits) else none

/-- `CSubNet::ToString`. -/
def toString (subnet : CSubNet) : List Char :=
  let isIPv4 := CNetAddr.isIPv4 subnet.network
  let strNetmask :=
    match cidr subnet.netmask (if isIPv4 then 12 else 0) with
    | some bits => Nat.toDigits 10 bits
    | none =>
      if isIPv4 then ['.'].intercalate ((subnet.netmask.drop 12).map fun b => Nat.toDigits 10 b.toNat)
      else [':'].intercalate ((List.range 8).map fun i =>
        Nat.toDigits 16 ((subnet.netmask.getD (2 * i) 0).toNat <<< 8 ||| (subnet.netmask.getD (2 * i + 1) 0).toNat))
  toStringIP sys subnet.network ++ '/' :: strNetmask

end Texts

/-- `CSubNet::Match`. -/
def isMatch (subnet : CSubNet) (addr : CNetAddr) : Bool :=
  subnet.valid && CNetAddr.isValid addr &&
    (List.range 16).all fun x =>
      CNetAddr.getByte addr x &&& subnet.netmask.getD (15 - x) 0 = CNetAddr.getByte subnet.network x

/-! ### What a subnet is for -/

/-- A bit of an address, from its high end. -/
def bit (ip : CNetAddr) (i : ℕ) : Bool := (ip.getD (i / 8) 0).toNat.testBit (7 - i % 8)

/-- Two addresses have the same first bits. -/
def SameBits (bits : ℕ) (a b : CNetAddr) : Prop := ∀ i < bits, bit a i = bit b i

/-- The mask of a prefix. -/
def prefixMask (bits : ℕ) : List UInt8 :=
  (List.range 16).map fun j => UInt8.ofNat (256 - 2 ^ (8 - min 8 (bits - 8 * j)))

/-- The bits of the prefix among those of the sixteen bytes. -/
def bitsOf (ip : CNetAddr) (n : ℕ) : ℕ := if CNetAddr.isIPv4 ip then n + 96 else n

/-- The mask of a prefix as an address of the class of the network. -/
def maskAddr (ip : CNetAddr) (n : ℕ) : CNetAddr :=
  if CNetAddr.isIPv4 ip then CNetAddr.pchIPv4 ++ (prefixMask (n + 96)).drop 12 else prefixMask n

/-! ### Masks -/

/-- One turn of the loop. -/
def clearBit (netmask : List UInt8) (n : ℕ) : List UInt8 :=
  netmask.modify (n >>> 3) (· &&& ~~~((1 : UInt8) <<< UInt8.ofNat (n &&& 7)))

theorem clearBit_comm (netmask : List UInt8) (m n : ℕ) :
    clearBit (clearBit netmask m) n = clearBit (clearBit netmask n) m := by
  refine List.ext_getElem? fun i => ?_
  simp only [clearBit, List.getElem?_modify]
  by_cases hm : m >>> 3 = i
  · by_cases hn : n >>> 3 = i
    · simp only [hm, hn, if_true]
      cases netmask[i]? with
      | none => rfl
      | some b =>
        refine congrArg some ?_
        simp only [UInt8.and_assoc]
        rw [UInt8.and_comm (~~~(1 <<< UInt8.ofNat (m &&& 7)))]
    · simp [hn]
  · simp [hm]

theorem foldl_clearBit (l : List ℕ) (netmask : List UInt8) (n : ℕ) :
    l.foldl clearBit (clearBit netmask n) = clearBit (l.foldl clearBit netmask) n := by
  induction l generalizing netmask with
  | nil => rfl
  | cons m l ih => rw [List.foldl_cons, List.foldl_cons, clearBit_comm, ih]

/-- The mask that the loop leaves: the byte that a prefix ends in keeps its low bits. -/
def loopMask (bits : ℕ) : List UInt8 := (List.range 16).map fun j => UInt8.ofNat (2 ^ min 8 (bits - 8 * j) - 1)

/-- The masks of the loop, all of them at once. -/
theorem loopMask_table : (∀ bits < 128, clearBit (loopMask (bits + 1)) bits = loopMask bits) ∧
    clearBits 128 = loopMask 128 ∧ ∀ bits ≤ 128, loopMask bits = prefixMask bits ↔ bits % 8 = 0 := by decide +kernel

theorem clearBits_eq_loopMask {bits : ℕ} (h : bits ≤ 128) : clearBits bits = loopMask bits := by
  obtain ⟨k, hk⟩ := Nat.exists_eq_add_of_le h
  induction k generalizing bits with
  | zero =>
    obtain rfl : bits = 128 := hk.symm
    exact loopMask_table.2.1
  | succ k ih =>
    have hlen : 128 - bits = 128 - (bits + 1) + 1 := by omega
    have hnext := @ih (bits + 1) (by omega) (by omega)
    rw [← loopMask_table.1 bits (by omega), ← hnext, clearBits, hlen, List.range'_succ, List.foldl_cons]
    exact foldl_clearBit _ _ bits

/-- The loop makes the mask of a prefix if and only if the prefix ends with a byte. -/
theorem clearBits_eq_iff : ∀ bits ≤ 128, clearBits bits = prefixMask bits ↔ bits % 8 = 0 := fun bits h => by
  rw [clearBits_eq_loopMask h]
  exact loopMask_table.2.2 bits h

/-- The masks of prefixes, all of them at once: their bytes, their classes and the prefixes that are found in them. -/
theorem prefixMask_table :
    (∀ k ≤ 16, prefixMask (8 * k) = List.replicate k 255 ++ List.replicate (16 - k) 0 ∧
      cidr (prefixMask (8 * k)) 0 = some (8 * k) ∧ (12 ≤ k → cidr (prefixMask (8 * k)) 12 = some (8 * k - 96))) ∧
    (∀ n ≤ 32, List.replicate 12 255 ++ (prefixMask (n + 96)).drop 12 = prefixMask (n + 96) ∧
      CNetAddr.isTor (CNetAddr.pchIPv4 ++ (prefixMask (n + 96)).drop 12) = false ∧
      CNetAddr.isI2P (CNetAddr.pchIPv4 ++ (prefixMask (n + 96)).drop 12) = false ∧
      (CNetAddr.pchIPv4 ++ (prefixMask (n + 96)).drop 12).length = 16) ∧
    ∀ bits ≤ 128, CNetAddr.isTor (prefixMask bits) = false ∧ CNetAddr.isI2P (prefixMask bits) = false ∧
      (prefixMask bits).length = 16 := by decide +kernel

theorem prefixMask_bytes : ∀ k ≤ 16, prefixMask (8 * k) = List.replicate k 255 ++ List.replicate (16 - k) 0 :=
  fun k hk => (prefixMask_table.1 k hk).1

theorem prefixMask_ipv4 : ∀ n ≤ 32, List.replicate 12 255 ++ (prefixMask (n + 96)).drop 12 = prefixMask (n + 96) :=
  fun n hn => (prefixMask_table.2.1 n hn).1

/-- A mask is neither of Tor nor of I2P. -/
theorem prefixMask_class : ∀ bits ≤ 128, CNetAddr.isTor (prefixMask bits) = false ∧
    CNetAddr.isI2P (prefixMask bits) = false ∧ (prefixMask bits).length = 16 := prefixMask_table.2.2

theorem ipv4Mask_class : ∀ n ≤ 32, CNetAddr.isTor (CNetAddr.pchIPv4 ++ (prefixMask (n + 96)).drop 12) = false ∧
    CNetAddr.isI2P (CNetAddr.pchIPv4 ++ (prefixMask (n + 96)).drop 12) = false ∧
    (CNetAddr.pchIPv4 ++ (prefixMask (n + 96)).drop 12).length = 16 := fun n hn => (prefixMask_table.2.1 n hn).2

/-- The prefix is found in the mask. -/
theorem cidr_prefixMask : ∀ k ≤ 16, cidr (prefixMask (8 * k)) 0 = some (8 * k) ∧
    (12 ≤ k → cidr (prefixMask (8 * k)) 12 = some (8 * k - 96)) := fun k hk => (prefixMask_table.1 k hk).2

/-! ### Bits and bytes -/

/-- The bits of whole bytes are the bytes. -/
theorem sameBits_bytes {k : ℕ} {a b : CNetAddr} : SameBits (8 * k) a b ↔ ∀ j < k, a.getD j 0 = b.getD j 0 := by
  constructor
  · intro h j hj
    rw [← UInt8.toNat_inj]
    refine Nat.eq_of_testBit_eq fun i => ?_
    by_cases hi : i < 8
    · have hbit := h (8 * j + (7 - i)) (by omega)
      have hdiv : (8 * j + (7 - i)) / 8 = j := by omega
      have hmod : 7 - (8 * j + (7 - i)) % 8 = i := by omega
      rwa [bit, bit, hdiv, hmod] at hbit
    · have hlarge (c : UInt8) : c.toNat.testBit i = false :=
        Nat.testBit_lt_two_pow (c.toNat_lt.trans_le (Nat.pow_le_pow_right two_pos (not_lt.1 hi)))
      rw [hlarge, hlarge]
  · intro h i hi
    rw [bit, bit, h (i / 8) (by omega)]

/-- A mask of whole bytes compares these, and wants zeros behind them. -/
theorem isMatch_bytes {k : ℕ} (hk : k ≤ 16) {ip addr : CNetAddr} :
    isMatch ⟨ip, List.replicate k 255 ++ List.replicate (16 - k) 0, true⟩ addr = true ↔
      CNetAddr.isValid addr = true ∧ SameBits (8 * k) addr ip ∧ ∀ j < 16, k ≤ j → ip.getD j 0 = 0 := by
  have hones (b : UInt8) : b &&& 255 = b := UInt8.and_neg_one
  have hmask : ∀ j < 16, (List.replicate k (255 : UInt8) ++ List.replicate (16 - k) 0).getD j 0 =
      if j < k then 255 else 0 := by
    intro j hj
    rw [List.getD_eq_getElem?_getD, List.getElem?_append, List.length_replicate]
    split
    · rw [List.getElem?_replicate, if_pos ‹_›]
      rfl
    · rw [List.getElem?_replicate, if_pos (by omega)]
      rfl
  rw [isMatch, Bool.true_and, Bool.and_eq_true, List.all_eq_true, sameBits_bytes]
  refine and_congr_right fun _ => ⟨fun h => ?_, fun ⟨hfirst, hrest⟩ x hx => ?_⟩
  · have hbyte : ∀ j < 16, addr.getD j 0 &&& (if j < k then 255 else 0) = ip.getD j 0 := by
      intro j hj
      have hj' := of_decide_eq_true (h (15 - j) (List.mem_range.2 (by omega)))
      rwa [CNetAddr.getByte, CNetAddr.getByte, show 15 - (15 - j) = j by omega, hmask j hj] at hj'
    constructor
    · intro j hj
      rw [← hbyte j (by omega), if_pos hj, hones]
    · intro j hj hkj
      rw [← hbyte j hj, if_neg (by omega), UInt8.and_zero]
  · refine decide_eq_true ?_
    rw [CNetAddr.getByte, CNetAddr.getByte, hmask _ (by omega)]
    split
    · rw [hones, hfirst _ ‹_›]
    · rw [UInt8.and_zero, hrest _ (by omega) (by omega)]

theorem isMatch_prefixMask {bits : ℕ} (hbits : bits ≤ 128) (hwhole : bits % 8 = 0) {ip addr : CNetAddr} :
    isMatch ⟨ip, prefixMask bits, true⟩ addr = true ↔
      CNetAddr.isValid addr = true ∧ SameBits bits addr ip ∧ ∀ j < 16, bits / 8 ≤ j → ip.getD j 0 = 0 := by
  obtain ⟨k, rfl⟩ := Nat.dvd_of_mod_eq_zero hwhole
  have hk : k ≤ 16 := by omega
  rw [prefixMask_bytes k hk, isMatch_bytes hk, Nat.mul_div_cancel_left k (by decide)]

/-! ### Numbers and texts -/

/-- What `strtol` reads to its end is a number with blanks and a sign in front of it. -/
theorem strtol_end {s : List Char} (h : (strtol s).2 = []) {c : Char} (hc : c ∈ s) :
    isspace c = true ∨ c = '-' ∨ c = '+' ∨ c.isDigit = true := by
  have hread {p : List Char} {n : ℤ} (h : (if p.takeWhile Char.isDigit = [] then ((0 : ℤ), s)
      else (n, p.dropWhile Char.isDigit)).2 = []) (hc : c ∈ p) : c.isDigit = true := by
    split at h
    · change s = [] at h
      subst h
      cases ‹c ∈ []›
    · exact List.dropWhile_eq_nil_iff.1 h c hc
  rw [← List.takeWhile_append_dropWhile (p := isspace) (l := s), List.mem_append] at hc
  rcases hc with hc | hc
  · exact .inl (List.mem_takeWhile_imp hc)
  rw [strtol] at h
  dsimp only at h
  split at h
  · rename_i heq
    rw [heq, List.mem_cons] at hc
    exact hc.elim (fun h => .inr (.inl h)) fun hc => .inr (.inr (.inr (hread h hc)))
  · rename_i heq
    rw [heq, List.mem_cons] at hc
    exact hc.elim (fun h => .inr (.inr (.inl h))) fun hc => .inr (.inr (.inr (hread h hc)))
  · exact .inr (.inr (.inr (hread h hc)))

theorem parseInt32_eq_none {s : List Char} (h : '.' ∈ s ∨ ':' ∈ s) : parseInt32 s = none := by
  rw [parseInt32]
  refine if_neg fun hend => ?_
  rcases h with h | h
  · exact absurd (strtol_end hend.1 h) (by decide)
  · exact absurd (strtol_end hend.1 h) (by decide)

theorem parseInt32_toDigits {n : ℕ} (h : n ≤ 128) : parseInt32 (Nat.toDigits 10 n) = some (n : ℤ) := by
  have hmin : min (2 ^ 63 - 1) (n : ℤ) = n := by omega
  rw [parseInt32, strtol_toDigits]
  dsimp only
  rw [hmin, if_pos ⟨rfl, by omega, by omega⟩]

section Texts

variable {sys : SystemText} {t m u : List Char} {ip : CNetAddr} {n : ℕ}

/-- A text with a number behind the address. -/
theorem ofText_number (ht : lookupHost sys t = some ip) (hm : '/' ∉ m) (hn : parseInt32 m = some (n : ℤ))
    (hrange : n ≤ if CNetAddr.isIPv4 ip then 32 else 128) :
    ofText sys (t ++ '/' :: m) = ⟨ip, clearBits (bitsOf ip n), true⟩ := by
  obtain ⟨hafter, hbefore⟩ := last_separator hm (t := t)
  have hslash : '/' ∈ t ++ '/' :: m := List.mem_append_right _ List.mem_cons_self
  rw [ofText, if_pos hslash, hbefore, hafter]
  dsimp only
  rw [ht]
  dsimp only
  rw [if_pos hslash, hn]
  dsimp only
  rw [if_pos, bitsOf, Int.toNat_natCast]
  · split <;> rfl
  · split at hrange <;> simp [*]

/-- A text with a mask behind the address. -/
theorem ofText_netmask (ht : lookupHost sys t = some ip) (hu : '/' ∉ u) (hnone : parseInt32 u = none)
    {mask : CNetAddr} (hmask : lookupHost sys u = some mask) : ofText sys (t ++ '/' :: u) =
      ⟨ip, if CNetAddr.isIPv4 ip then List.replicate 12 255 ++ mask.drop 12 else mask, true⟩ := by
  obtain ⟨hafter, hbefore⟩ := last_separator hu (t := t)
  have hslash : '/' ∈ t ++ '/' :: u := List.mem_append_right _ List.mem_cons_self
  rw [ofText, if_pos hslash, hbefore, hafter]
  dsimp only
  rw [ht]
  dsimp only
  rw [if_pos hslash, hnone]
  dsimp only
  rw [hmask]

/-- The netmask of the prefix makes the subnet with the mask of the prefix. -/
theorem ofText_maskAddr (ht : lookupHost sys t = some ip) (hu : '/' ∉ u) (hnone : parseInt32 u = none)
    (hrange : n ≤ if CNetAddr.isIPv4 ip then 32 else 128) (hmask : lookupHost sys u = some (maskAddr ip n)) :
    ofText sys (t ++ '/' :: u) = ⟨ip, prefixMask (bitsOf ip n), true⟩ := by
  rw [ofText_netmask ht hu hnone hmask, maskAddr, bitsOf]
  by_cases hipv4 : CNetAddr.isIPv4 ip = true
  · rw [if_pos hipv4] at hrange
    rw [if_pos hipv4, if_pos hipv4, if_pos hipv4, List.drop_left' (by decide), prefixMask_ipv4 n hrange]
  · rw [if_neg hipv4, if_neg hipv4, if_neg hipv4]

theorem bitsOf_le (hrange : n ≤ if CNetAddr.isIPv4 ip then 32 else 128) :
    bitsOf ip n ≤ 128 ∧ (bitsOf ip n % 8 = 0 ↔ n % 8 = 0) := by
  rw [bitsOf]
  split
  · rw [if_pos ‹_›] at hrange
    omega
  · rw [if_neg ‹_›] at hrange
    omega

theorem maskAddr_class (hrange : n ≤ if CNetAddr.isIPv4 ip then 32 else 128) :
    CNetAddr.isTor (maskAddr ip n) = false ∧ CNetAddr.isI2P (maskAddr ip n) = false ∧ (maskAddr ip n).length = 16 := by
  rw [maskAddr]
  split
  · rw [if_pos ‹_›] at hrange
    exact ipv4Mask_class n hrange
  · rw [if_neg ‹_›] at hrange
    exact prefixMask_class n hrange

/-- The text of a subnet of whole bytes has the number of its bits. -/
theorem toString_bytes (hrange : n ≤ if CNetAddr.isIPv4 ip then 32 else 128) (hn : n % 8 = 0) :
    toString sys ⟨ip, prefixMask (bitsOf ip n), true⟩ = toStringIP sys ip ++ '/' :: Nat.toDigits 10 n := by
  rw [toString, bitsOf]
  dsimp only
  by_cases hipv4 : CNetAddr.isIPv4 ip = true
  · rw [if_pos hipv4] at hrange
    have hcidr := (cidr_prefixMask ((n + 96) / 8) (by omega)).2 (by omega)
    rw [show 8 * ((n + 96) / 8) = n + 96 by omega, Nat.add_sub_cancel] at hcidr
    rw [if_pos hipv4, if_pos hipv4, hcidr]
  · rw [if_neg hipv4] at hrange
    have hcidr := (cidr_prefixMask (n / 8) (by omega)).1
    rw [show 8 * (n / 8) = n by omega] at hcidr
    rw [if_neg hipv4, if_neg hipv4, hcidr]

/-! ### Reading the text of a subnet -/

/-- The text of an address of numbers has points or colons. -/
def Separated (sys : SystemText) : Prop := ∀ ip : CNetAddr, ip.length = 16 → '.' ∈ sys.print ip ∨ ':' ∈ sys.print ip

/-- A subnet of a text `address/n` does what it is for: it matches the valid addresses that begin like its own, it is
the subnet of `address/netmask`, and its text is read as itself. -/
def IsSubnet (sys : SystemText) (t m : List Char) (ip : CNetAddr) (n : ℕ) : Prop :=
  let subnet := ofText sys (t ++ '/' :: m)
  (∀ x : CNetAddr, x.length = 16 →
    (isMatch subnet x = true ↔ CNetAddr.isValid x = true ∧ SameBits (bitsOf ip n) x ip)) ∧
  (∀ u, '/' ∉ u → parseInt32 u = none → lookupHost sys u = some (maskAddr ip n) →
    ofText sys (t ++ '/' :: u) = subnet) ∧
  ofText sys (toString sys subnet) = subnet

/-- A prefix of whole bytes, with zeros behind it or no valid address in it, of an address that is not one of I2P. -/
def IsWhole (ip : CNetAddr) (n : ℕ) : Prop :=
  n % 8 = 0 ∧
  ((∀ j < 16, bitsOf ip n / 8 ≤ j → ip.getD j 0 = 0) ∨
    ∀ x : CNetAddr, x.length = 16 → SameBits (bitsOf ip n) x ip → CNetAddr.isValid x = false) ∧
  CNetAddr.isI2P ip = false

variable (hsys : sys.Inverse) (hsep : Separated sys)
include hsys hsep

omit hsys in
theorem print_ne_nil (hlength : ip.length = 16) : sys.print ip ≠ [] := by
  intro hnil
  have hmem := hsep ip hlength
  rw [hnil] at hmem
  exact hmem.elim List.not_mem_nil List.not_mem_nil

/-- The text of a mask is one of an address, and no number. -/
theorem lookupHost_print {mask : CNetAddr} (hlength : mask.length = 16) (htor : CNetAddr.isTor mask = false)
    (hi2p : CNetAddr.isI2P mask = false) : lookupHost sys (sys.print mask) = some mask ∧
      parseInt32 (sys.print mask) = none ∧ '/' ∉ sys.print mask := by
  have hne := print_ne_nil hsep hlength
  have hbracket : '[' ∉ sys.print mask := not_mem_print hsys mask (by decide) (by decide) (by decide) (by decide)
  refine ⟨?_, parseInt32_eq_none (hsep mask hlength),
    not_mem_print hsys mask (by decide) (by decide) (by decide) (by decide)⟩
  rw [lookupHost, if_neg hne, unbracket_of_head hbracket, lookupIntern, setSpecial_print hsys,
    hsys.parse_print mask hlength htor hi2p]
  rfl

theorem lookupHost_toStringIP (hlength : ip.length = 16) : lookupHost sys (toStringIP sys ip) = some (readBack ip) := by
  have hne : toStringIP sys ip ≠ [] := by
    rw [toStringIP]
    split
    · exact List.append_ne_nil_of_right_ne_nil _ (by decide)
    · split
      · exact List.append_ne_nil_of_right_ne_nil _ (by decide)
      · exact print_ne_nil hsep hlength
  rw [lookupHost, if_neg hne, unbracket_of_head (toStringIP_chars hsys ip).1, lookupIntern_toStringIP hsys hlength]

/-- The text of a subnet of whole bytes is read with the address as it is read. -/
theorem ofText_toString (hlength : ip.length = 16) (hrange : n ≤ if CNetAddr.isIPv4 ip then 32 else 128)
    (hn : n % 8 = 0) : ofText sys (toString sys ⟨ip, prefixMask (bitsOf ip n), true⟩) =
      ⟨readBack ip, prefixMask (bitsOf ip n), true⟩ := by
  have hclass : CNetAddr.isIPv4 (readBack ip) = CNetAddr.isIPv4 ip := by
    rw [readBack]
    split
    · rename_i hi2p
      have htake : ip.take 6 = CNetAddr.pchGarliCat := of_decide_eq_true hi2p
      have hfirst (rest : CNetAddr) (first : List UInt8) (hfirst : first.length = 6)
          (hne : first ≠ CNetAddr.pchIPv4.take 6) : CNetAddr.isIPv4 (first ++ rest) = false := by
        refine decide_eq_false fun heq => hne ?_
        have hsix := congrArg (List.take 6) heq
        rwa [List.take_take, min_eq_left (by decide), List.take_left' hfirst] at hsix
      rw [← List.take_append_drop 6 ip, htake, hfirst _ _ (by decide) (by decide), hfirst _ _ (by decide) (by decide)]
    · rfl
  have hsmall : n ≤ 128 := hrange.trans (by split <;> omega)
  have hslash : '/' ∉ Nat.toDigits 10 n := fun h => absurd (toDigits_isDigit h) (by decide)
  have hbits : bitsOf (readBack ip) n = bitsOf ip n := by rw [bitsOf, bitsOf, hclass]
  obtain ⟨hle, hmod⟩ := bitsOf_le hrange
  rw [toString_bytes hrange hn, ofText_number (lookupHost_toStringIP hsys hsep hlength) hslash
    (parseInt32_toDigits hsmall) (hclass ▸ hrange), hbits, (clearBits_eq_iff _ hle).2 (hmod.2 hn)]

/-- **A subnet of a prefix does what it is for if and only if the prefix ends with a byte, the bits behind it are zero
or no valid address begins with it, and the address is not one of I2P.** -/
theorem subnet_iff (ht : lookupHost sys t = some ip) (hlength : ip.length = 16) (hm : '/' ∉ m)
    (hn : parseInt32 m = some (n : ℤ)) (hrange : n ≤ if CNetAddr.isIPv4 ip then 32 else 128) :
    IsSubnet sys t m ip n ↔ IsWhole ip n := by
  obtain ⟨hle, hmod⟩ := bitsOf_le hrange
  rw [IsSubnet]
  rw [ofText_number ht hm hn hrange]
  constructor
  · rintro ⟨hmatches, hmasks, hread⟩
    obtain ⟨htor, hi2p, hmaskLength⟩ := maskAddr_class hrange
    obtain ⟨hlook, hnone, hslash⟩ := lookupHost_print hsys hsep hmaskLength htor hi2p
    have hmask : prefixMask (bitsOf ip n) = clearBits (bitsOf ip n) := by
      have heq := hmasks _ hslash hnone hlook
      rw [ofText_maskAddr ht hslash hnone hrange hlook] at heq
      exact congrArg netmask heq
    have hwhole : n % 8 = 0 := hmod.1 ((clearBits_eq_iff _ hle).1 hmask.symm)
    refine ⟨hwhole, or_iff_not_imp_left.2 fun hzeros x hx hsame => ?_, ?_⟩
    · by_contra hvalid
      rw [Bool.not_eq_false] at hvalid
      have hmatch := (hmatches x hx).2 ⟨hvalid, hsame⟩
      rw [← hmask, isMatch_prefixMask hle (hmod.2 hwhole)] at hmatch
      exact hzeros hmatch.2.2
    · rw [← hmask, ofText_toString hsys hsep hlength hrange hwhole] at hread
      exact readBack_eq_iff.1 (congrArg network hread)
  · rintro ⟨hwhole, hhost, hi2p⟩
    rw [(clearBits_eq_iff _ hle).2 (hmod.2 hwhole)]
    refine ⟨fun x hx => ?_, fun u hu hnone hmask => ?_, ?_⟩
    · rw [isMatch_prefixMask hle (hmod.2 hwhole)]
      refine and_congr_right fun hvalid => and_iff_left_of_imp fun hsame => ?_
      rcases hhost with hzeros | hnone
      · exact hzeros
      · rw [hnone x hx hsame] at hvalid
        cases hvalid
    · exact ofText_maskAddr ht hu hnone hrange hmask
    · rw [ofText_toString hsys hsep hlength hrange hwhole, readBack_eq_iff.2 hi2p]

end Texts

end CSubNet

/-! ### Two private ranges -/

namespace SubnetSample

open CSubNet ServiceSample

theorem system_separated : Separated system := by
  intro ip hlength
  dsimp only [system]
  split
  · refine .inl (parse_decimal (ip.drop 12) ?_).1
    rw [List.length_drop, hlength]
    decide
  · refine .inr ?_
    rcases ip with _ | ⟨a, _ | ⟨b, _ | ⟨c, ip⟩⟩⟩
    · exact absurd hlength (by decide)
    · exact absurd hlength (by decide : 1 ≠ 16)
    · exact absurd hlength (by decide : 2 ≠ 16)
    · rw [hexText, if_neg (List.cons_ne_nil _ _)]
      simp

/-- 192.168.0.0. -/
def office : CNetAddr := CNetAddr.pchIPv4 ++ [192, 168, 0, 0]

/-- 172.16.0.0. -/
def cloud : CNetAddr := CNetAddr.pchIPv4 ++ [172, 16, 0, 0]

theorem lookupHost_office : lookupHost system "192.168.0.0".toList = some office := by
  have hlook : lookupHost system (system.print office) = some office :=
    (lookupHost_print system_inverse system_separated (by decide) (by decide) (by decide)).1
  exact hlook

theorem lookupHost_cloud : lookupHost system "172.16.0.0".toList = some cloud := by
  have hlook : lookupHost system (system.print cloud) = some cloud :=
    (lookupHost_print system_inverse system_separated (by decide) (by decide) (by decide)).1
  exact hlook

theorem office_subnet : IsSubnet system "192.168.0.0".toList "16".toList office 16 ↔ IsWhole office 16 :=
  subnet_iff system_inverse system_separated lookupHost_office (by decide) (by decide) (by decide) (by decide)

/-- 172.16.0.0/12 matches nothing: the mask of its second byte is 15, and the byte of the address is 16. -/
theorem cloud_missed :
    isMatch (ofText system "172.16.0.0/12".toList) (CNetAddr.pchIPv4 ++ [172, 16, 0, 1]) = false ∧
    CNetAddr.isValid (CNetAddr.pchIPv4 ++ [172, 16, 0, 1]) = true ∧
    SameBits (bitsOf cloud 12) (CNetAddr.pchIPv4 ++ [172, 16, 0, 1]) cloud ∧
    ¬ IsSubnet system "172.16.0.0".toList "12".toList cloud 12 := by
  have htext : ofText system ("172.16.0.0".toList ++ '/' :: "12".toList) = ⟨cloud, clearBits (bitsOf cloud 12), true⟩ :=
    ofText_number lookupHost_cloud (by decide) (by decide) (by decide)
  have hmatch : isMatch ⟨cloud, clearBits (bitsOf cloud 12), true⟩ (CNetAddr.pchIPv4 ++ [172, 16, 0, 1]) = false := by
    decide
  have hvalid : CNetAddr.isValid (CNetAddr.pchIPv4 ++ [172, 16, 0, 1]) = true := by decide
  have hsame : SameBits (bitsOf cloud 12) (CNetAddr.pchIPv4 ++ [172, 16, 0, 1]) cloud := by
    unfold SameBits
    decide
  rw [← htext] at hmatch
  refine ⟨hmatch, hvalid, hsame, fun hsubnet => ?_⟩
  have hshould := (hsubnet.1 _ (by decide)).2 ⟨hvalid, hsame⟩
  rw [hmatch] at hshould
  cases hshould

end SubnetSample

end PayDayCoin
