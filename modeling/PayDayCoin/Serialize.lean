import PayDayCoin.Block
import PayDayCoin.Library.Codecs

/-!
# Serialization

`IMPLEMENT_SERIALIZE` writes, reads and sizes an object by one list of its fields. A codec is that list: numbers are
written lowest byte first, a vector is its size and then its elements, and a size takes one, three, five or nine bytes.
`ReadCompactSize` refuses a size that could have been written shorter, and one above `MAX_SIZE`; a vector of bytes is
read in blocks. Reading has no result where the source throws. A stream is the bytes still to be read.

**`serialization_exact`**: a transaction or block that is written can be read back whatever follows it, and what is
read is what would be written again, so no two inputs give the same object. `GetSerializeSize` is an `unsigned int`:
it is the number of bytes written modulo `2 ^ 32` (**`not_size_of_wideTx`**).
-/

namespace PayDayCoin

open Library.Codecs

/-! ### Numbers -/

/-- The largest size that is read. -/
def MAX_SIZE : ℕ := 0x02000000

/-- An unsigned integer of so many bytes. -/
def number (width : ℕ) : Codec UInt8 ℕ where
  size _ := UInt32.ofNat width
  write := leBytes width
  read s := (Codec.take width s).map fun (bytes, s) => (ofBytes bytes, s)

theorem lawful_number (width : ℕ) : (number width).Lawful fun n => n < 256 ^ width where
  read_write {n} hn rest := by
    have htake := Codec.take_append (a := leBytes width n) rest
    rw [length_leBytes] at htake
    simp only [number, htake, Option.map_some, ofBytes_leBytes hn]
  write_read h := by
    simp only [number, Option.map_eq_some_iff, Prod.exists, Prod.mk.injEq] at h
    obtain ⟨bytes, t, htake, rfl, rfl⟩ := h
    obtain ⟨rfl, rfl⟩ := Codec.take_eq_some htake
    simp only [number, leBytes_ofBytes]
  ok_of_read h := by
    simp only [number, Option.map_eq_some_iff, Prod.exists, Prod.mk.injEq] at h
    obtain ⟨bytes, t, htake, rfl, rfl⟩ := h
    obtain ⟨rfl, rfl⟩ := Codec.take_eq_some htake
    exact ofBytes_lt bytes
  size_eq n := by simp only [number, length_leBytes]

/-- `unsigned int`. -/
def uint32 : Codec UInt8 UInt32 := (number 4).imap UInt32.ofNat UInt32.toNat

/-- `int`. -/
def int32 : Codec UInt8 Int32 := uint32.imap UInt32.toInt32 Int32.toUInt32

/-- `int64_t`. -/
def int64 : Codec UInt8 ℤ := (number 8).imap (fun n => (BitVec.ofNat 64 n).toInt) fun v => (BitVec.ofInt 64 v).toNat

/-- `uint256`. -/
def uint256 : Codec UInt8 Uint256 := (number 32).imap (BitVec.ofNat 256) BitVec.toNat

theorem lawful_uint32 : uint32.Lawful fun _ => True := by
  refine (lawful_number 4).imap (fun n _ => ⟨n.toNat_lt, UInt32.ofNat_toNat⟩) fun n hn => ⟨trivial, ?_⟩
  rw [UInt32.toNat_ofNat']
  exact Nat.mod_eq_of_lt hn

theorem lawful_int32 : int32.Lawful fun _ => True :=
  lawful_uint32.imap (fun n _ => ⟨trivial, Int32.toInt32_toUInt32 n⟩) fun n _ => ⟨trivial, UInt32.toUInt32_toInt32 n⟩

theorem lawful_int64 : int64.Lawful fun v => -9223372036854775808 ≤ v ∧ v < 9223372036854775808 := by
  refine (lawful_number 8).imap (fun v hv => ⟨(BitVec.ofInt 64 v).isLt, ?_⟩) fun n hn => ⟨?_, ?_⟩
  · rw [BitVec.ofNat_toNat, BitVec.setWidth_eq, BitVec.toInt_ofInt]
    exact Int.bmod_eq_of_le (by omega) (by omega)
  · exact ⟨(BitVec.ofNat 64 n).le_toInt, (BitVec.ofNat 64 n).toInt_lt⟩
  · rw [BitVec.ofInt_toInt, BitVec.toNat_ofNat]
    exact Nat.mod_eq_of_lt hn

theorem lawful_uint256 : uint256.Lawful fun _ => True := by
  refine (lawful_number 32).imap (fun h _ => ⟨h.isLt, by simp⟩) fun n hn => ⟨trivial, ?_⟩
  rw [BitVec.toNat_ofNat]
  exact Nat.mod_eq_of_lt hn

/-! ### Sizes and vectors -/

/-- A size as it is written into a stream. -/
def compactSize (n : ℕ) : List UInt8 :=
  if n < 253 then leBytes 1 n
  else if n ≤ 0xFFFF then 253 :: leBytes 2 n
  else if n ≤ 0xFFFFFFFF then 254 :: leBytes 4 n
  else 255 :: leBytes 8 n

/-- A vector of bytes as it is written into a stream. -/
def vectorBytes (vch : List UInt8) : List UInt8 := compactSize vch.length ++ vch

/-- The number behind the first byte of a size. -/
def readSize (chSize : ℕ) (s : List UInt8) : Option (ℕ × List UInt8) :=
  if chSize < 253 then some (chSize, s)
  else if chSize = 253 then ((number 2).read s).filter fun p => 253 ≤ p.1
  else if chSize = 254 then ((number 4).read s).filter fun p => 0x10000 ≤ p.1
  else ((number 8).read s).filter fun p => 0x100000000 ≤ p.1

/-- `ReadCompactSize`. -/
def readCompactSize (s : List UInt8) : Option (ℕ × List UInt8) :=
  (((number 1).read s).bind fun (chSize, s) => readSize chSize s).filter fun p => p.1 ≤ MAX_SIZE

/-- A compact size. -/
def compactSizeCodec : Codec UInt8 ℕ where
  size n := UInt32.ofNat (CTransaction.getSizeOfCompactSize n)
  write := compactSize
  read := readCompactSize

theorem compactSize_eq (n : ℕ) : compactSize n = if n < 253 then leBytes 1 n
    else if n ≤ 0xFFFF then leBytes 1 253 ++ leBytes 2 n
    else if n ≤ 0xFFFFFFFF then leBytes 1 254 ++ leBytes 4 n
    else leBytes 1 255 ++ leBytes 8 n := rfl

theorem length_compactSize (n : ℕ) : (compactSize n).length = CTransaction.getSizeOfCompactSize n := by
  rw [compactSize, CTransaction.getSizeOfCompactSize]
  repeat' split
  all_goals simp [length_leBytes]

theorem readCompactSize_eq_some {s rest : List UInt8} {n : ℕ} :
    readCompactSize s = some (n, rest) ↔
      n ≤ MAX_SIZE ∧ ∃ chSize t, (number 1).read s = some (chSize, t) ∧ readSize chSize t = some (n, rest) := by
  simp only [readCompactSize, Option.filter_eq_some_iff, Option.bind_eq_some_iff, Prod.exists, decide_eq_true_eq]
  exact and_comm

theorem readSize_eq_some {chSize n : ℕ} {s rest : List UInt8} (hch : chSize < 256) :
    readSize chSize s = some (n, rest) ↔
      (chSize < 253 ∧ n = chSize ∧ s = rest) ∨
      (chSize = 253 ∧ 253 ≤ n ∧ (number 2).read s = some (n, rest)) ∨
      (chSize = 254 ∧ 0x10000 ≤ n ∧ (number 4).read s = some (n, rest)) ∨
      (chSize = 255 ∧ 0x100000000 ≤ n ∧ (number 8).read s = some (n, rest)) := by
  simp only [readSize]
  split
  · next h =>
    simp only [Option.some.injEq, Prod.mk.injEq]
    refine ⟨fun ⟨h1, h2⟩ => .inl ⟨h, h1.symm, h2⟩, ?_⟩
    rintro (⟨-, rfl, rfl⟩ | ⟨rfl, -⟩ | ⟨rfl, -⟩ | ⟨rfl, -⟩)
    · exact ⟨rfl, rfl⟩
    all_goals omega
  · next h =>
    split
    · next h' => simp [h', Option.filter_eq_some_iff, and_comm]
    · next h' =>
      split
      · next h'' => simp [h'', Option.filter_eq_some_iff, and_comm]
      · next h'' =>
        obtain rfl : chSize = 255 := by omega
        simp [Option.filter_eq_some_iff, and_comm]

theorem lawful_compactSize : compactSizeCodec.Lawful fun n => n ≤ MAX_SIZE where
  read_write {n} hn rest := by
    have hmax : n ≤ 0xFFFFFFFF := hn.trans (by decide)
    refine readCompactSize_eq_some.2 ⟨hn, ?_⟩
    simp only [compactSizeCodec, compactSize_eq]
    split
    · next h =>
      exact ⟨n, rest, (lawful_number 1).read_write (by omega) rest, (readSize_eq_some (by omega)).2 (.inl ⟨h, rfl, rfl⟩)⟩
    · next h =>
      split
      · next h' =>
        rw [List.append_assoc]
        refine ⟨253, _, (lawful_number 1).read_write (by decide) _, (readSize_eq_some (by decide)).2 (.inr (.inl ?_))⟩
        exact ⟨rfl, by omega, (lawful_number 2).read_write (by omega) rest⟩
      · next h' =>
        rw [List.append_assoc]
        refine ⟨254, _, (lawful_number 1).read_write (by decide) _, (readSize_eq_some (by decide)).2 (.inr (.inr (.inl ?_)))⟩
        exact ⟨rfl, by omega, (lawful_number 4).read_write (by omega) rest⟩
  write_read {s n rest} h := by
    obtain ⟨hn, chSize, t, hread, hsize⟩ := readCompactSize_eq_some.1 h
    have hlt := (lawful_number 1).ok_of_read hread
    obtain rfl := (lawful_number 1).write_read hread
    simp only [compactSizeCodec, compactSize_eq]
    rcases (readSize_eq_some (by omega)).1 hsize with
      ⟨h1, rfl, rfl⟩ | ⟨rfl, h1, h2⟩ | ⟨rfl, h1, h2⟩ | ⟨rfl, h1, h2⟩
    · rw [if_pos h1]
      rfl
    · have hlt := (lawful_number 2).ok_of_read h2
      obtain rfl := (lawful_number 2).write_read h2
      rw [if_neg (by omega), if_pos (by omega), List.append_assoc]
      rfl
    · have hlt := (lawful_number 4).ok_of_read h2
      obtain rfl := (lawful_number 4).write_read h2
      rw [if_neg (by omega), if_neg (by omega), if_pos (by omega), List.append_assoc]
      rfl
    · obtain rfl := (lawful_number 8).write_read h2
      rw [if_neg (by omega), if_neg (by omega), if_neg (by omega), List.append_assoc]
      rfl
  ok_of_read h := (readCompactSize_eq_some.1 h).1
  size_eq n := by simp only [compactSizeCodec, length_compactSize]

/-- A vector of bytes, read in blocks of at most five million. -/
def byteVector : Codec UInt8 (List UInt8) := Codec.run compactSizeCodec 4999999

/-- A vector of objects, read one by one. -/
def vector {α : Type} (c : Codec UInt8 α) : Codec UInt8 (List α) := Codec.counted compactSizeCodec c

theorem lawful_byteVector : byteVector.Lawful fun v => v.length ≤ MAX_SIZE := lawful_compactSize.run 4999999

theorem lawful_vector {α : Type} {c : Codec UInt8 α} {P : α → Prop} (hc : c.Lawful P) :
    (vector c).Lawful fun v => v.length ≤ MAX_SIZE ∧ ∀ a ∈ v, P a := lawful_compactSize.counted hc

/-! ### Transactions -/

def SER_NETWORK : UInt32 := 1
def SER_DISK : UInt32 := 2
def SER_GETHASH : UInt32 := 4
def SER_BLOCKHEADERONLY : UInt32 := 131072

/-- The fields of an outpoint. -/
def COutPoint.codec : Codec UInt8 COutPoint :=
  (uint256.seq uint32).imap (fun (hash, n) => ⟨hash, n⟩) fun o => (o.hash, o.n)

/-- The fields of an input. -/
def CTxIn.codec : Codec UInt8 CTxIn :=
  (COutPoint.codec.seq (byteVector.seq uint32)).imap
    (fun (prevout, scriptSig, nSequence) => ⟨prevout, scriptSig, nSequence⟩)
    fun txin => (txin.prevout, txin.scriptSig, txin.nSequence)

/-- The fields of an output. -/
def CTxOut.codec : Codec UInt8 CTxOut :=
  (int64.seq byteVector).imap (fun (nValue, scriptPubKey) => ⟨nValue, scriptPubKey⟩)
    fun txout => (txout.nValue, txout.scriptPubKey)

/-- The fields of a transaction. -/
def CTransaction.codec : Codec UInt8 CTransaction :=
  (int32.seq (uint32.seq ((vector CTxIn.codec).seq ((vector CTxOut.codec).seq uint32)))).imap
    (fun (nVersion, nTime, vin, vout, nLockTime) => ⟨nVersion, nTime, vin, vout, nLockTime⟩)
    fun tx => (tx.nVersion, tx.nTime, tx.vin, tx.vout, tx.nLockTime)

/-- What an output can hold: a 64-bit amount, and a script that is not too long. -/
structure CTxOut.Fits (txout : CTxOut) : Prop where
  nValue : -9223372036854775808 ≤ txout.nValue ∧ txout.nValue < 9223372036854775808
  scriptPubKey : txout.scriptPubKey.length ≤ MAX_SIZE

/-- Counts and scripts of at most `MAX_SIZE`. -/
structure CTransaction.Fits (tx : CTransaction) : Prop where
  vin : tx.vin.length ≤ MAX_SIZE
  scriptSig : ∀ txin ∈ tx.vin, txin.scriptSig.length ≤ MAX_SIZE
  vout : tx.vout.length ≤ MAX_SIZE
  outputs : ∀ txout ∈ tx.vout, txout.Fits

theorem COutPoint.lawful : COutPoint.codec.Lawful fun _ => True :=
  (lawful_uint256.seq lawful_uint32).imap (fun _ _ => ⟨⟨trivial, trivial⟩, rfl⟩) fun _ _ => ⟨trivial, rfl⟩

theorem CTxIn.lawful : CTxIn.codec.Lawful fun txin => txin.scriptSig.length ≤ MAX_SIZE :=
  (COutPoint.lawful.seq (lawful_byteVector.seq lawful_uint32)).imap
    (fun _ h => ⟨⟨trivial, h, trivial⟩, rfl⟩) fun _ h => ⟨h.2.1, rfl⟩

theorem CTxOut.lawful : CTxOut.codec.Lawful CTxOut.Fits :=
  (lawful_int64.seq lawful_byteVector).imap (fun _ h => ⟨⟨h.nValue, h.scriptPubKey⟩, rfl⟩)
    fun _ h => ⟨⟨h.1, h.2⟩, rfl⟩

theorem CTransaction.lawful : CTransaction.codec.Lawful CTransaction.Fits := by
  refine (lawful_int32.seq (lawful_uint32.seq ((lawful_vector CTxIn.lawful).seq
    ((lawful_vector CTxOut.lawful).seq lawful_uint32)))).imap (fun tx h => ⟨?_, rfl⟩) fun p h => ⟨?_, rfl⟩
  · exact ⟨trivial, trivial, ⟨h.vin, h.scriptSig⟩, ⟨h.vout, h.outputs⟩, trivial⟩
  · obtain ⟨-, -, hvin, hvout, -⟩ := h
    exact ⟨hvin.1, hvin.2, hvout.1, hvout.2⟩

/-! ### Blocks -/

/-- The fields of a header. -/
def CBlockHeader.codec : Codec UInt8 CBlockHeader :=
  (int32.seq (uint256.seq (uint256.seq (uint32.seq (uint32.seq uint32))))).imap
    (fun (nVersion, hashPrevBlock, hashMerkleRoot, nTime, nBits, nNonce) =>
      ⟨nVersion, hashPrevBlock, hashMerkleRoot, nTime, nBits, nNonce⟩)
    fun h => (h.nVersion, h.hashPrevBlock, h.hashMerkleRoot, h.nTime, h.nBits, h.nNonce)

/-- `nType & (SER_GETHASH|SER_BLOCKHEADERONLY)`: only the header counts. -/
def headerOnly (nType : UInt32) : Bool := nType &&& (SER_GETHASH ||| SER_BLOCKHEADERONLY) != 0

/-- The fields of a block: with `SER_GETHASH` or `SER_BLOCKHEADERONLY` the header only. -/
def CBlock.codec (nType : UInt32) : Codec UInt8 CBlock :=
  if headerOnly nType then CBlockHeader.codec.imap (fun h => ⟨h, [], []⟩) fun b => b.toCBlockHeader
  else (CBlockHeader.codec.seq ((vector CTransaction.codec).seq byteVector)).imap
    (fun (h, vtx, vchBlockSig) => ⟨h, vtx, vchBlockSig⟩) fun b => (b.toCBlockHeader, b.vtx, b.vchBlockSig)

/-- Counts, scripts and a signature of at most `MAX_SIZE`. -/
structure CBlock.Fits (b : CBlock) : Prop where
  vtx : b.vtx.length ≤ MAX_SIZE
  transactions : ∀ tx ∈ b.vtx, tx.Fits
  vchBlockSig : b.vchBlockSig.length ≤ MAX_SIZE

theorem CBlockHeader.lawful : CBlockHeader.codec.Lawful fun _ => True :=
  (lawful_int32.seq (lawful_uint256.seq (lawful_uint256.seq (lawful_uint32.seq
    (lawful_uint32.seq lawful_uint32))))).imap
      (fun _ _ => ⟨⟨trivial, trivial, trivial, trivial, trivial, trivial⟩, rfl⟩) fun _ _ => ⟨trivial, rfl⟩

theorem CBlock.lawful {nType : UInt32} (h : headerOnly nType = false) : (CBlock.codec nType).Lawful CBlock.Fits := by
  simp only [CBlock.codec, h, Bool.false_eq_true, if_false]
  refine (CBlockHeader.lawful.seq ((lawful_vector CTransaction.lawful).seq lawful_byteVector)).imap
    (fun b h => ⟨⟨trivial, ⟨h.vtx, h.transactions⟩, h.vchBlockSig⟩, rfl⟩) fun p h => ⟨?_, rfl⟩
  obtain ⟨-, hvtx, hsig⟩ := h
  exact ⟨hvtx.1, hvtx.2, hsig⟩

/-- A block that is read without its body has none. -/
theorem CBlock.lawful_header {nType : UInt32} (h : headerOnly nType = true) :
    (CBlock.codec nType).Lawful fun b => b.vtx = [] ∧ b.vchBlockSig = [] := by
  simp only [CBlock.codec, h, if_true]
  refine CBlockHeader.lawful.imap (fun b hb => ⟨trivial, ?_⟩) fun _ _ => ⟨⟨rfl, rfl⟩, rfl⟩
  rw [← hb.1, ← hb.2]

/-! ### The number of bytes -/

theorem CTxIn.length_write (txin : CTxIn) : (CTxIn.codec.write txin).length = CTransaction.txinSize txin := by
  simp [CTxIn.codec, COutPoint.codec, Codec.imap, Codec.seq, uint256, uint32, number, byteVector, Codec.run,
    compactSizeCodec, length_leBytes, length_compactSize, CTransaction.txinSize, CTransaction.scriptSize]
  omega

theorem CTxOut.length_write (txout : CTxOut) : (CTxOut.codec.write txout).length = CTransaction.txoutSize txout := by
  simp [CTxOut.codec, Codec.imap, Codec.seq, int64, number, byteVector, Codec.run, compactSizeCodec, length_leBytes,
    length_compactSize, CTransaction.txoutSize, CTransaction.scriptSize]

theorem length_write_vector {α : Type} {c : Codec UInt8 α} {size : α → ℕ} (h : ∀ a, (c.write a).length = size a)
    (v : List α) : ((vector c).write v).length = CTransaction.getSizeOfCompactSize v.length + (v.map size).sum := by
  simp [vector, Codec.counted, compactSizeCodec, length_compactSize, List.length_flatMap, h]

/-- A transaction takes as many bytes as `getSerializeSize` counts. -/
theorem CTransaction.length_write (tx : CTransaction) : (CTransaction.codec.write tx).length = tx.getSerializeSize := by
  simp [CTransaction.codec, Codec.imap, Codec.seq, int32, uint32, number, length_leBytes,
    length_write_vector CTxIn.length_write, length_write_vector CTxOut.length_write, CTransaction.getSerializeSize]
  omega

/-- A block takes as many bytes as `getSerializeSize` counts. -/
theorem CBlock.length_write {nType : UInt32} (h : headerOnly nType = false) (b : CBlock) :
    ((CBlock.codec nType).write b).length = b.getSerializeSize := by
  simp [CBlock.codec, h, CBlockHeader.codec, Codec.imap, Codec.seq, int32, uint32, uint256, number, length_leBytes,
    length_write_vector CTransaction.length_write, byteVector, Codec.run, compactSizeCodec, length_compactSize,
    CBlock.getSerializeSize, CBlock.headerSize]
  omega

/-- A transaction or block of any counts and lengths up to `MAX_SIZE` that is written can be read back whatever
follows, its size is the number of bytes modulo `2 ^ 32`, and what is read is what would be written. -/
theorem serialization_exact :
    (∀ tx : CTransaction, tx.Fits → ∀ rest, CTransaction.codec.read (CTransaction.codec.write tx ++ rest) = some (tx, rest)) ∧
    (∀ tx : CTransaction, (CTransaction.codec.size tx).toNat = (CTransaction.codec.write tx).length % 4294967296) ∧
    (∀ s tx rest, CTransaction.codec.read s = some (tx, rest) → s = CTransaction.codec.write tx ++ rest) ∧
    ∀ nType ∈ [SER_NETWORK, SER_DISK],
      (∀ b : CBlock, b.Fits → ∀ rest,
        (CBlock.codec nType).read ((CBlock.codec nType).write b ++ rest) = some (b, rest)) ∧
      (∀ b : CBlock, ((CBlock.codec nType).size b).toNat = ((CBlock.codec nType).write b).length % 4294967296) ∧
      ∀ s b rest, (CBlock.codec nType).read s = some (b, rest) → s = (CBlock.codec nType).write b ++ rest := by
  refine ⟨fun tx h => CTransaction.lawful.read_write h, CTransaction.lawful.toNat_size,
    fun s tx rest => CTransaction.lawful.write_read, fun nType hType => ?_⟩
  have hbody : headerOnly nType = false := by
    simp only [List.mem_cons, List.not_mem_nil, or_false] at hType
    rcases hType with rfl | rfl <;> decide
  have hlaw := CBlock.lawful hbody
  exact ⟨fun b h => hlaw.read_write h, hlaw.toNat_size, fun s b rest => hlaw.write_read⟩

/-- An input with a script as long as it can be. -/
def wideInput : CTxIn where
  prevout := .null
  scriptSig := List.replicate MAX_SIZE 0

/-- A transaction with 128 of them. -/
def wideTx : CTransaction where
  nTime := 0
  vin := List.replicate 128 wideInput
  vout := []

theorem length_wideInput : wideInput.scriptSig.length = MAX_SIZE := by simp only [wideInput, List.length_replicate]

theorem vin_wideTx : wideTx.vin = List.replicate 128 wideInput := rfl

theorem vout_wideTx : wideTx.vout = [] := rfl

theorem wideTx_fits : wideTx.Fits where
  vin := by
    rw [vin_wideTx, List.length_replicate]
    decide
  scriptSig txin htxin := by
    rw [vin_wideTx] at htxin
    rw [List.eq_of_mem_replicate htxin, length_wideInput]
  vout := by simp [vout_wideTx]
  outputs := by simp [vout_wideTx]

theorem le_getSerializeSize_replicate {tx : CTransaction} {n : ℕ} {txin : CTxIn} (h : tx.vin = List.replicate n txin) :
    n * txin.scriptSig.length ≤ tx.getSerializeSize := by
  rw [CTransaction.getSerializeSize, h, List.map_replicate, List.sum_replicate_nat]
  have hinput : n * txin.scriptSig.length ≤ n * CTransaction.txinSize txin := by
    refine Nat.mul_le_mul_left n ?_
    rw [CTransaction.txinSize, CTransaction.scriptSize]
    omega
  omega

/-- The size of `wideTx` is not the number of its bytes. -/
theorem not_size_of_wideTx : wideTx.Fits ∧
    (CTransaction.codec.size wideTx).toNat ≠ (CTransaction.codec.write wideTx).length := by
  refine ⟨wideTx_fits, fun h => ?_⟩
  have hlt := (CTransaction.codec.size wideTx).toNat_lt
  have hle := le_getSerializeSize_replicate vin_wideTx
  rw [length_wideInput] at hle
  rw [h, CTransaction.length_write] at hlt
  exact absurd (hle.trans_lt hlt) (by decide)

end PayDayCoin
