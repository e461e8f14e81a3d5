import PayDayCoin.Library.SortedMaps
import PayDayCoin.MoneyText
import PayDayCoin.Serialize
import Mathlib.Data.List.Lex
import Mathlib.Data.List.TakeWhile

/-!
# The records of a wallet

A transaction and an accounting entry of the wallet have fields that the format of their records has no place for, and
carry them along in what it has: a transaction in `mapValue`, under five keys of its own, and an entry in its comment,
behind a NUL. Writing changes the object itself and undoes the changes at the end.

**`records_survive`**: a transaction survives, and is left as it was, if `mapValue` does not have one of the five keys;
an entry does if and only if its comment has no NUL, and `mapValue` has no value for the position. This is for strings
and counts that a stream can hold. A comment that has a NUL makes a record that cannot be read
(`RecordSample.unreadable`).
-/

namespace PayDayCoin

open Library.Codecs Library.SortedMaps

/-! ### Strings and maps -/

/-- `std::string`. -/
structure StdString where
  bytes : List UInt8

namespace StdString

theorem bytes_injective : Function.Injective fun s : StdString => s.bytes.map UInt8.toNat := by
  rintro ⟨l⟩ ⟨l'⟩ h
  rw [StdString.mk.injEq]
  exact List.map_injective_iff.2 (fun _ _ => UInt8.toNat_inj.1) h

/-- Strings are compared byte by byte. -/
instance : LinearOrder StdString := LinearOrder.lift' (fun s => s.bytes.map UInt8.toNat) bytes_injective

/-- The string of a literal. -/
def ofText (text : List Char) : StdString := ⟨text.map fun c => c.toNat.toUInt8⟩

/-- The characters of a string. -/
def chars (s : StdString) : List Char := s.bytes.map fun b => Char.ofNat b.toNat

/-- The string as it is serialized. -/
def codec : Codec UInt8 StdString := byteVector.imap StdString.mk StdString.bytes

theorem lawful : codec.Lawful fun s => s.bytes.length ≤ MAX_SIZE :=
  lawful_byteVector.imap (fun _ h => ⟨h, rfl⟩) fun _ h => ⟨h, rfl⟩

end StdString

/-- `mapValue_t`, a map from strings to strings in the order of the keys. -/
structure MapValue where
  entries : List (StdString × StdString)
  sorted : Sorted entries

namespace MapValue

/-- `mapValue_t()`. -/
def empty : MapValue := ⟨[], List.Pairwise.nil⟩

/-- `find`. -/
def find? (m : MapValue) (key : StdString) : Option StdString := get? m.entries key

/-- `mapValue[key] = value`. -/
def set (m : MapValue) (key value : StdString) : MapValue :=
  ⟨Library.SortedMaps.set m.entries key value, m.sorted.set key value⟩

/-- `erase`. -/
def erase (m : MapValue) (key : StdString) : MapValue := ⟨Library.SortedMaps.erase m.entries key, m.sorted.erase key⟩

/-- `insert`: an entry that is there stays. -/
def insert (m : MapValue) (item : StdString × StdString) : MapValue :=
  if (m.find? item.1).isSome then m else m.set item.1 item.2

/-- The entries as they are serialized. -/
def entriesCodec : Codec UInt8 (List (StdString × StdString)) := vector (StdString.codec.seq StdString.codec)

/-- What is read is inserted one by one. -/
def ofItems (items : List (StdString × StdString)) : MapValue := items.foldl insert empty

/-- Counts and strings of at most `MAX_SIZE`. -/
def Fits (m : MapValue) : Prop :=
  m.entries.length ≤ MAX_SIZE ∧
    ∀ item ∈ m.entries, item.1.bytes.length ≤ MAX_SIZE ∧ item.2.bytes.length ≤ MAX_SIZE

end MapValue

/-! ### Numbers as text -/

/-- `i64tostr`. -/
def i64tostr (n : Int64) : StdString :=
  let digits := Nat.toDigits 10 n.toInt.natAbs
  .ofText (if n.toInt < 0 then '-' :: digits else digits)

/-- `strtoll`, to the base 10. -/
def strtoll (psz : List Char) : ℤ :=
  let digits (p : List Char) : ℤ := Nat.ofDigitChars 10 (p.takeWhile Char.isDigit) 0
  match psz.dropWhile isspace with
  | '-' :: p => max Int64.minValue.toInt (-digits p)
  | '+' :: p => min Int64.maxValue.toInt (digits p)
  | p => min Int64.maxValue.toInt (digits p)

/-- `atoi64`. -/
def atoi64 (s : StdString) : Int64 := Int64.ofInt (strtoll s.chars)

def KEY_N : StdString := .ofText ['n']
def KEY_FROMACCOUNT : StdString := .ofText "fromaccount".toList
def KEY_SPENT : StdString := .ofText "spent".toList
def KEY_TIMESMART : StdString := .ofText "timesmart".toList
def KEY_VERSION : StdString := .ofText "version".toList

/-- `ReadOrderPos`. -/
def readOrderPos (mapValue : MapValue) : Int64 := ((mapValue.find? KEY_N).map atoi64).getD (-1)

/-- `WriteOrderPos`. -/
def writeOrderPos (nOrderPos : Int64) (mapValue : MapValue) : MapValue :=
  if nOrderPos = -1 then mapValue else mapValue.set KEY_N (i64tostr nOrderPos)

/-! ### Transactions -/

/-- `int64_t`. -/
def int64Codec : Codec UInt8 Int64 := int64.imap Int64.ofInt Int64.toInt

/-- A `CMerkleTx` as it is serialized: the transaction, `hashBlock`, `vMerkleBranch` and `nIndex`. -/
abbrev MerkleRecord := CTransaction × Uint256 × List Uint256 × Int32

def MerkleRecord.codec : Codec UInt8 MerkleRecord :=
  CTransaction.codec.seq (uint256.seq ((vector uint256).seq int32))

/-- Counts and scripts of at most `MAX_SIZE`. -/
def MerkleRecord.Fits (m : MerkleRecord) : Prop := m.1.Fits ∧ m.2.2.1.length ≤ MAX_SIZE

/-- A `CWalletTx`, without what is kept in memory only. -/
structure WalletTxRecord where
  merkleTx : MerkleRecord
  vtxPrev : List MerkleRecord
  mapValue : MapValue
  vOrderForm : List (StdString × StdString)
  fTimeReceivedIsTxTime : UInt32
  nTimeReceived : UInt32
  nTimeSmart : UInt32
  fFromMe : UInt8
  strFromAccount : StdString
  /-- Which outputs are spent. -/
  vfSpent : List Bool
  nOrderPos : Int64

namespace WalletTxRecord

/-- The keys that the serialization takes for its own use. -/
def reserved : List StdString := [KEY_FROMACCOUNT, KEY_VERSION, KEY_SPENT, KEY_N, KEY_TIMESMART]

/-- The string for `vfSpent`. -/
def spentText (vfSpent : List Bool) : StdString := .ofText (vfSpent.map fun f => if f then '1' else '0')

/-- `mapValue` before it is written. -/
def filledMap (wtx : WalletTxRecord) : MapValue :=
  let m := (wtx.mapValue.set KEY_FROMACCOUNT wtx.strFromAccount).set KEY_SPENT (spentText wtx.vfSpent)
  let m := writeOrderPos wtx.nOrderPos m
  if wtx.nTimeSmart ≠ 0 then m.set KEY_TIMESMART (.ofText (Nat.toDigits 10 wtx.nTimeSmart.toNat)) else m

/-- The last lines of the serialization. -/
def eraseReserved (m : MapValue) : MapValue :=
  ((((m.erase KEY_FROMACCOUNT).erase KEY_VERSION).erase KEY_SPENT).erase KEY_N).erase KEY_TIMESMART

/-- What is written: `vtxPrev`, `mapValue` and the rest, behind the merkle transaction. -/
def codec : Codec UInt8 (MerkleRecord × List MerkleRecord × List (StdString × StdString) ×
    List (StdString × StdString) × UInt32 × UInt32 × ℕ × ℕ) :=
  MerkleRecord.codec.seq ((vector MerkleRecord.codec).seq (MapValue.entriesCodec.seq
    (MapValue.entriesCodec.seq (uint32.seq (uint32.seq ((number 1).seq (number 1)))))))

/-- Writing: the bytes, and the object afterwards. -/
def write (wtx : WalletTxRecord) : List UInt8 × WalletTxRecord :=
  let m := wtx.filledMap
  let fSpent := wtx.vfSpent.any id
  (codec.write (wtx.merkleTx, wtx.vtxPrev, m.entries, wtx.vOrderForm, wtx.fTimeReceivedIsTxTime, wtx.nTimeReceived,
    wtx.fFromMe.toNat, fSpent.toNat), { wtx with mapValue := eraseReserved m })

/-- Reading, into a new object. -/
def read (s : List UInt8) : Option (WalletTxRecord × List UInt8) :=
  (codec.read s).map fun ((merkleTx, vtxPrev, items, vOrderForm, fTimeReceivedIsTxTime, nTimeReceived, fFromMe, fSpent),
      rest) =>
    let m := MapValue.ofItems items
    ({ merkleTx, vtxPrev, vOrderForm, fTimeReceivedIsTxTime, nTimeReceived
       mapValue := eraseReserved m
       nTimeSmart := ((m.find? KEY_TIMESMART).map fun text => (atoi64 text).toUInt64.toUInt32).getD 0
       fFromMe := UInt8.ofNat fFromMe
       strFromAccount := (m.find? KEY_FROMACCOUNT).getD ⟨[]⟩
       vfSpent := ((m.find? KEY_SPENT).map fun text => text.bytes.map (· != 48)).getD
         (List.replicate merkleTx.1.vout.length (fSpent != 0))
       nOrderPos := readOrderPos m }, rest)

/-- Counts and strings of at most `MAX_SIZE`. -/
structure Fits (wtx : WalletTxRecord) : Prop where
  merkleTx : wtx.merkleTx.Fits
  vtxPrev : wtx.vtxPrev.length ≤ MAX_SIZE ∧ ∀ m ∈ wtx.vtxPrev, m.Fits
  filledMap : wtx.filledMap.Fits
  vOrderForm : wtx.vOrderForm.length ≤ MAX_SIZE ∧
    ∀ item ∈ wtx.vOrderForm, item.1.bytes.length ≤ MAX_SIZE ∧ item.2.bytes.length ≤ MAX_SIZE

end WalletTxRecord

/-! ### Accounting entries -/

/-- A `CAccountingEntry`. -/
structure AccountingRecord where
  strAccount : StdString
  nCreditDebit : Int64
  nTime : Int64
  strOtherAccount : StdString
  strComment : StdString
  mapValue : MapValue
  nOrderPos : Int64
  nEntryNo : ℕ
  /-- `_ssExtra`. -/
  ssExtra : List UInt8

namespace AccountingRecord

/-- The key behind its type: the account and the number. -/
def keyCodec : Codec UInt8 (StdString × ℕ) := StdString.codec.seq (number 8)

/-- The value: `nVersion`, and the fields. -/
def valueCodec : Codec UInt8 (Int32 × Int64 × Int64 × StdString × StdString) :=
  int32.seq (int64Codec.seq (int64Codec.seq (StdString.codec.seq StdString.codec)))

/-- `mapValue` before it is written. -/
def filledMap (e : AccountingRecord) : MapValue := writeOrderPos e.nOrderPos e.mapValue

/-- The comment before it is written. -/
def fullComment (e : AccountingRecord) : List UInt8 :=
  let m := e.filledMap
  if m.entries.isEmpty && e.ssExtra.isEmpty then e.strComment.bytes
  else e.strComment.bytes ++ 0 :: (MapValue.entriesCodec.write m.entries ++ e.ssExtra)

/-- Writing, at a version: the key and the value, and the object afterwards. -/
def write (nVersion : Int32) (e : AccountingRecord) : (List UInt8 × List UInt8) × AccountingRecord :=
  ((keyCodec.write (e.strAccount, e.nEntryNo),
    valueCodec.write (nVersion, e.nCreditDebit, e.nTime, e.strOtherAccount, ⟨e.fullComment⟩)),
   { e with strComment := ⟨e.fullComment.takeWhile (· != 0)⟩, mapValue := e.filledMap.erase KEY_N })

/-- What stands behind the first NUL of a comment: a map and more. -/
def readTail (comment : List UInt8) : Option (MapValue × List UInt8) :=
  match comment.dropWhile (· != 0) with
  | [] => some (.empty, [])
  | _ :: ss => (MapValue.entriesCodec.read ss).map fun (items, ss) => (.ofItems items, ss)

/-- Reading, into a new object. -/
def read (ssKey ssValue : List UInt8) : Option AccountingRecord := do
  let ((strAccount, nEntryNo), _) ← keyCodec.read ssKey
  let ((_, nCreditDebit, nTime, strOtherAccount, comment), _) ← valueCodec.read ssValue
  let (m, ssExtra) ← readTail comment.bytes
  some { strAccount, nCreditDebit, nTime, strOtherAccount, nEntryNo, ssExtra
         strComment := ⟨comment.bytes.takeWhile (· != 0)⟩
         mapValue := m.erase KEY_N
         nOrderPos := readOrderPos m }

/-- Strings of at most `MAX_SIZE`, and a number of 64 bits. -/
structure Fits (e : AccountingRecord) : Prop where
  strAccount : e.strAccount.bytes.length ≤ MAX_SIZE
  strOtherAccount : e.strOtherAccount.bytes.length ≤ MAX_SIZE
  fullComment : e.fullComment.length ≤ MAX_SIZE
  nEntryNo : e.nEntryNo < 2 ^ 64

end AccountingRecord

/-! ### Looking keys up -/

namespace MapValue

variable {m m' : MapValue} {key key' : StdString} {value : StdString}

theorem ext (h : ∀ key, m.find? key = m'.find? key) : m = m' := by
  obtain ⟨l, hl⟩ := m
  obtain ⟨l', hl'⟩ := m'
  rw [MapValue.mk.injEq]
  exact hl.ext hl' h

theorem find?_set : (m.set key value).find? key' = if key = key' then some value else m.find? key' := get?_set _ _ _ _

theorem find?_set_self : (m.set key value).find? key = some value := by rw [find?_set, if_pos rfl]

theorem find?_set_of_ne (h : key ≠ key') : (m.set key value).find? key' = m.find? key' := by rw [find?_set, if_neg h]

theorem find?_erase : (m.erase key).find? key' = if key = key' then none else m.find? key' := get?_erase _ _ _

theorem find?_insert (item : StdString × StdString) :
    (m.insert item).find? key' = (m.find? key').or (if item.1 = key' then some item.2 else none) := by
  rw [insert]
  split
  · rename_i h
    obtain ⟨value, hvalue⟩ := Option.isSome_iff_exists.1 h
    split
    · rename_i heq
      rw [← heq, hvalue, Option.some_or]
    · rw [Option.or_none]
  · rename_i h
    rw [find?_set]
    split
    · rename_i heq
      rw [← heq, Option.not_isSome_iff_eq_none.1 h, Option.none_or]
    · rw [Option.or_none]

/-- The entries of a map that is written make the map again. -/
theorem ofItems_entries (m : MapValue) : ofItems m.entries = m := by
  have hfold : ∀ (items : List (StdString × StdString)) (m : MapValue) key,
      (items.foldl insert m).find? key = (m.find? key).or (get? items key) := by
    intro items
    induction items with
    | nil =>
      intro m key
      rw [List.foldl_nil, get?, Option.or_none]
    | cons item items ih =>
      intro m key
      rw [List.foldl_cons, ih, find?_insert, Option.or_assoc, get?]
      split
      · rw [Option.some_or]
      · rw [Option.none_or]
  apply ext
  intro key
  rw [ofItems, hfold]
  exact Option.none_or

theorem lawful_entriesCodec : entriesCodec.Lawful fun items => items.length ≤ MAX_SIZE ∧
    ∀ item ∈ items, item.1.bytes.length ≤ MAX_SIZE ∧ item.2.bytes.length ≤ MAX_SIZE :=
  lawful_vector (StdString.lawful.seq StdString.lawful)

end MapValue

/-! ### Texts of numbers -/

theorem chars_ofText {text : List Char} (h : ∀ c ∈ text, c.toNat < 256) : (StdString.ofText text).chars = text := by
  rw [StdString.chars, StdString.ofText, List.map_map]
  refine (List.map_congr_left fun c hc => ?_).trans (List.map_id text)
  change Char.ofNat c.toNat.toUInt8.toNat = c
  rw [Nat.toUInt8_eq, UInt8.toNat_ofNat', Nat.mod_eq_of_lt (h c hc), Char.ofNat_toNat]

theorem toDigits_isDigit {n : ℕ} {c : Char} (h : c ∈ Nat.toDigits 10 n) : c.isDigit = true :=
  Nat.isDigit_of_mem_toDigits (by norm_num) (by norm_num) h

theorem toDigits_small {n : ℕ} {c : Char} (h : c ∈ Nat.toDigits 10 n) : c.toNat < 256 :=
  (toNat_of_isDigit (toDigits_isDigit h)).2.trans_lt (by norm_num)

theorem takeWhile_toDigits (n : ℕ) : (Nat.toDigits 10 n).takeWhile Char.isDigit = Nat.toDigits 10 n :=
  List.takeWhile_eq_self_iff.2 fun _ => toDigits_isDigit

/-- The text of a number begins with a digit. -/
theorem exists_toDigits_eq_cons (n : ℕ) : ∃ c text, Nat.toDigits 10 n = c :: text ∧ c.isDigit = true := by
  rcases htext : Nat.toDigits 10 n with _ | ⟨c, text⟩
  · exact absurd htext Nat.toDigits_ne_nil
  · refine ⟨c, text, rfl, toDigits_isDigit (n := n) ?_⟩
    rw [htext]
    exact List.mem_cons_self

/-- The digits of a number are read. -/
theorem strtoll_toDigits (n : ℕ) : strtoll (Nat.toDigits 10 n) = min Int64.maxValue.toInt n := by
  have htake := takeWhile_toDigits n
  have hvalue : Nat.ofDigitChars 10 (Nat.toDigits 10 n) 0 = n := Nat.ofDigitChars_ten_toDigits
  obtain ⟨c, text, htext, hc⟩ := exists_toDigits_eq_cons n
  rw [htext] at htake hvalue ⊢
  rw [strtoll, List.dropWhile_cons_of_neg (Bool.eq_false_iff.1 (not_isspace_of_isDigit hc))]
  split
  · rename_i heq
    cases heq
    cases hc
  · rename_i heq
    cases heq
    cases hc
  · dsimp only
    rw [htake, hvalue]

theorem strtoll_neg_toDigits (n : ℕ) : strtoll ('-' :: Nat.toDigits 10 n) = max Int64.minValue.toInt (-n) := by
  rw [strtoll, List.dropWhile_cons_of_neg (by decide)]
  change max _ (-((Nat.ofDigitChars 10 ((Nat.toDigits 10 n).takeWhile Char.isDigit) 0 : ℕ) : ℤ)) = _
  rw [takeWhile_toDigits, Nat.ofDigitChars_ten_toDigits]

theorem atoi64_i64tostr (n : Int64) : atoi64 (i64tostr n) = n := by
  have hmin := Int64.le_toInt n
  have hmax := Int64.toInt_lt n
  have hminValue : Int64.minValue.toInt = -2 ^ 63 := rfl
  have hmaxValue : Int64.maxValue.toInt = 2 ^ 63 - 1 := rfl
  rw [atoi64, i64tostr]
  split
  · rename_i hneg
    rw [chars_ofText, strtoll_neg_toDigits, max_eq_right (by omega), Int.ofNat_natAbs_of_nonpos hneg.le, neg_neg,
      Int64.ofInt_toInt]
    intro c hc
    rcases List.mem_cons.1 hc with rfl | hc
    · decide
    · exact toDigits_small hc
  · rename_i hpos
    rw [chars_ofText fun _ => toDigits_small, strtoll_toDigits, min_eq_right (by omega),
      Int.natAbs_of_nonneg (Int.not_lt.1 hpos), Int64.ofInt_toInt]

/-- An `unsigned int` is read as it is. -/
theorem atoi64_toDigits (n : UInt32) : (atoi64 (.ofText (Nat.toDigits 10 n.toNat))).toUInt64.toUInt32 = n := by
  have hlt := n.toNat_lt
  have hmaxValue : Int64.maxValue.toInt = 2 ^ 63 - 1 := rfl
  rw [atoi64, chars_ofText fun _ => toDigits_small, strtoll_toDigits, min_eq_right (by omega)]
  apply UInt32.toNat_inj.1
  rw [Int64.ofInt_eq_ofNat, Int64.toUInt64_ofNat', UInt64.toNat_toUInt32, UInt64.toNat_ofNat', Nat.mod_mod_of_dvd _ (by norm_num),
    Nat.mod_eq_of_lt hlt]

theorem readOrderPos_writeOrderPos {m : MapValue} (h : m.find? KEY_N = none) (nOrderPos : Int64) :
    readOrderPos (writeOrderPos nOrderPos m) = nOrderPos := by
  rw [readOrderPos, writeOrderPos]
  split
  · rename_i heq
    rw [h, heq]
    rfl
  · rw [MapValue.find?_set_self, Option.map_some, Option.getD_some, atoi64_i64tostr]

theorem find?_writeOrderPos {m : MapValue} {key : StdString} (h : KEY_N ≠ key) (nOrderPos : Int64) :
    (writeOrderPos nOrderPos m).find? key = m.find? key := by
  rw [writeOrderPos]
  split
  · rfl
  · rw [MapValue.find?_set_of_ne h]

/-! ### A transaction survives -/

theorem lawful_int64Codec : int64Codec.Lawful fun _ => True :=
  lawful_int64.imap (fun n _ => ⟨⟨n.le_toInt, n.toInt_lt⟩, Int64.ofInt_toInt n⟩)
    fun _ hn => ⟨trivial, Int64.toInt_ofInt_of_le hn.1 hn.2⟩

theorem MerkleRecord.lawful : MerkleRecord.codec.Lawful MerkleRecord.Fits :=
  (CTransaction.lawful.seq (lawful_uint256.seq ((lawful_vector lawful_uint256).seq lawful_int32))).mono fun _ =>
    ⟨fun h => ⟨h.1, trivial, ⟨h.2, fun _ _ => trivial⟩, trivial⟩, fun h => ⟨h.1, h.2.2.1.1⟩⟩

namespace WalletTxRecord

variable {wtx : WalletTxRecord}

theorem key_ne {key key' : StdString} (h : key.bytes ≠ key'.bytes) : key ≠ key' := fun heq => h (congrArg _ heq)

theorem find?_filledMap {key : StdString} (h : key ∉ reserved) : wtx.filledMap.find? key = wtx.mapValue.find? key := by
  rw [reserved] at h
  simp only [List.mem_cons, List.not_mem_nil, or_false, not_or] at h
  obtain ⟨haccount, -, hspent, hn, htime⟩ := h
  have hbase : (writeOrderPos wtx.nOrderPos ((wtx.mapValue.set KEY_FROMACCOUNT wtx.strFromAccount).set KEY_SPENT
      (spentText wtx.vfSpent))).find? key = wtx.mapValue.find? key := by
    rw [find?_writeOrderPos (Ne.symm hn), MapValue.find?_set_of_ne (Ne.symm hspent),
      MapValue.find?_set_of_ne (Ne.symm haccount)]
  rw [filledMap]
  split
  · rw [MapValue.find?_set_of_ne (Ne.symm htime), hbase]
  · exact hbase

theorem find?_eraseReserved (m : MapValue) (key : StdString) :
    (eraseReserved m).find? key = if key ∈ reserved then none else m.find? key := by
  simp only [eraseReserved, MapValue.find?_erase, reserved, List.mem_cons, List.not_mem_nil, or_false, eq_comm (a := key)]
  split_ifs <;> first | rfl | tauto

/-- **The object is left as it was**. -/
theorem write_object (h : ∀ key ∈ reserved, wtx.mapValue.find? key = none) : wtx.write.2 = wtx := by
  have hmap : eraseReserved wtx.filledMap = wtx.mapValue := by
    apply MapValue.ext
    intro key
    rw [find?_eraseReserved]
    split
    · rename_i hkey
      exact (h key hkey).symm
    · rename_i hkey
      exact find?_filledMap hkey
  rw [write]
  dsimp only
  rw [hmap]

theorem find?_timesmart {key : StdString} (h : KEY_TIMESMART ≠ key) : wtx.filledMap.find? key =
    (writeOrderPos wtx.nOrderPos ((wtx.mapValue.set KEY_FROMACCOUNT wtx.strFromAccount).set KEY_SPENT
      (spentText wtx.vfSpent))).find? key := by
  rw [filledMap]
  split
  · rw [MapValue.find?_set_of_ne h]
  · rfl

theorem find?_strFromAccount : wtx.filledMap.find? KEY_FROMACCOUNT = some wtx.strFromAccount := by
  rw [find?_timesmart (key_ne (by decide)), find?_writeOrderPos (key_ne (by decide)),
    MapValue.find?_set_of_ne (key_ne (by decide)), MapValue.find?_set_self]

theorem find?_vfSpent : wtx.filledMap.find? KEY_SPENT = some (spentText wtx.vfSpent) := by
  rw [find?_timesmart (key_ne (by decide)), find?_writeOrderPos (key_ne (by decide)), MapValue.find?_set_self]

theorem readOrderPos_filledMap (h : wtx.mapValue.find? KEY_N = none) : readOrderPos wtx.filledMap = wtx.nOrderPos := by
  have hnone : ((wtx.mapValue.set KEY_FROMACCOUNT wtx.strFromAccount).set KEY_SPENT
      (spentText wtx.vfSpent)).find? KEY_N = none := by
    rw [MapValue.find?_set_of_ne (key_ne (by decide)), MapValue.find?_set_of_ne (key_ne (by decide)), h]
  have hread := readOrderPos_writeOrderPos hnone wtx.nOrderPos
  rw [readOrderPos, find?_timesmart (key_ne (by decide))]
  exact hread

theorem find?_nTimeSmart (h : wtx.mapValue.find? KEY_TIMESMART = none) :
    ((wtx.filledMap.find? KEY_TIMESMART).map fun text => (atoi64 text).toUInt64.toUInt32).getD 0 = wtx.nTimeSmart := by
  rw [filledMap]
  split
  · rw [MapValue.find?_set_self, Option.map_some, Option.getD_some, atoi64_toDigits]
  · rename_i hzero
    rw [find?_writeOrderPos (key_ne (by decide)), MapValue.find?_set_of_ne (key_ne (by decide)),
      MapValue.find?_set_of_ne (key_ne (by decide)), h]
    exact (not_not.1 hzero).symm

theorem spentText_read (vfSpent : List Bool) : (spentText vfSpent).bytes.map (· != 48) = vfSpent := by
  rw [spentText, StdString.ofText, List.map_map, List.map_map]
  refine (List.map_congr_left fun f _ => ?_).trans (List.map_id vfSpent)
  cases f
  · rfl
  · rfl

theorem lawful : codec.Lawful fun p => p.1.Fits ∧ (p.2.1.length ≤ MAX_SIZE ∧ ∀ m ∈ p.2.1, m.Fits) ∧
    (p.2.2.1.length ≤ MAX_SIZE ∧
      ∀ item ∈ p.2.2.1, item.1.bytes.length ≤ MAX_SIZE ∧ item.2.bytes.length ≤ MAX_SIZE) ∧
    (p.2.2.2.1.length ≤ MAX_SIZE ∧
      ∀ item ∈ p.2.2.2.1, item.1.bytes.length ≤ MAX_SIZE ∧ item.2.bytes.length ≤ MAX_SIZE) ∧
    True ∧ True ∧ p.2.2.2.2.2.2.1 < 256 ^ 1 ∧ p.2.2.2.2.2.2.2 < 256 ^ 1 :=
  MerkleRecord.lawful.seq ((lawful_vector MerkleRecord.lawful).seq (MapValue.lawful_entriesCodec.seq
    (MapValue.lawful_entriesCodec.seq (lawful_uint32.seq (lawful_uint32.seq ((lawful_number 1).seq (lawful_number 1)))))))

/-- **What is written is read back**, whatever follows. -/
theorem read_write (hfits : wtx.Fits) (h : ∀ key ∈ reserved, wtx.mapValue.find? key = none) (rest : List UInt8) :
    read (wtx.write.1 ++ rest) = some (wtx, rest) := by
  have hobject := write_object h
  have hflag : (wtx.vfSpent.any id).toNat < 256 ^ 1 := (Bool.toNat_lt _).trans (by norm_num)
  have hparse := lawful.read_write (a := (wtx.merkleTx, wtx.vtxPrev, wtx.filledMap.entries, wtx.vOrderForm,
    wtx.fTimeReceivedIsTxTime, wtx.nTimeReceived, wtx.fFromMe.toNat, (wtx.vfSpent.any id).toNat))
    ⟨hfits.merkleTx, hfits.vtxPrev, hfits.filledMap, hfits.vOrderForm, trivial, trivial, wtx.fFromMe.toNat_lt, hflag⟩ rest
  have hn : KEY_N ∈ reserved := by simp [reserved]
  have htime : KEY_TIMESMART ∈ reserved := by simp [reserved]
  rw [read, write, hparse, Option.map_some]
  dsimp only
  rw [MapValue.ofItems_entries, find?_nTimeSmart (h _ htime), find?_strFromAccount, find?_vfSpent,
    readOrderPos_filledMap (h _ hn), Option.getD_some, Option.map_some, Option.getD_some, spentText_read,
    UInt8.ofNat_toNat]
  exact congrArg (fun wtx => some (wtx, rest)) hobject

end WalletTxRecord

/-! ### An accounting entry survives -/

namespace MapValue

theorem one_le_compactSize (n : ℕ) : 1 ≤ (compactSize n).length := by
  rw [length_compactSize, CTransaction.getSizeOfCompactSize]
  split_ifs <;> omega

theorem le_length_item (item : StdString × StdString) :
    1 ≤ ((StdString.codec.seq StdString.codec).write item).length ∧
      item.1.bytes.length ≤ ((StdString.codec.seq StdString.codec).write item).length ∧
      item.2.bytes.length ≤ ((StdString.codec.seq StdString.codec).write item).length := by
  have hwrite : (StdString.codec.seq StdString.codec).write item =
      (compactSize item.1.bytes.length ++ item.1.bytes) ++ (compactSize item.2.bytes.length ++ item.2.bytes) := rfl
  have hone := one_le_compactSize item.1.bytes.length
  rw [hwrite, List.length_append, List.length_append, List.length_append]
  omega

theorem le_length_items (items : List (StdString × StdString)) :
    items.length ≤ (items.flatMap (StdString.codec.seq StdString.codec).write).length ∧
      ∀ item ∈ items, item.1.bytes.length ≤ (items.flatMap (StdString.codec.seq StdString.codec).write).length ∧
        item.2.bytes.length ≤ (items.flatMap (StdString.codec.seq StdString.codec).write).length := by
  induction items with
  | nil => exact ⟨le_rfl, fun item hitem => (nomatch hitem)⟩
  | cons item items ih =>
    obtain ⟨hone, hkey, hvalue⟩ := le_length_item item
    rw [List.flatMap_cons, List.length_append, List.length_cons]
    refine ⟨by omega, fun item' hitem' => ?_⟩
    rcases List.mem_cons.1 hitem' with rfl | hitem'
    · exact ⟨hkey.trans (Nat.le_add_right _ _), hvalue.trans (Nat.le_add_right _ _)⟩
    · obtain ⟨hkey', hvalue'⟩ := ih.2 item' hitem'
      exact ⟨hkey'.trans (Nat.le_add_left _ _), hvalue'.trans (Nat.le_add_left _ _)⟩

/-- A map that does not take more bytes fits. -/
theorem fits_of_length {m : MapValue} (h : (entriesCodec.write m.entries).length ≤ MAX_SIZE) : m.Fits := by
  have hwrite : entriesCodec.write m.entries =
      compactSize m.entries.length ++ m.entries.flatMap (StdString.codec.seq StdString.codec).write := rfl
  rw [hwrite, List.length_append] at h
  obtain ⟨hcount, hitems⟩ := le_length_items m.entries
  refine ⟨by omega, fun item hitem => ?_⟩
  obtain ⟨hkey, hvalue⟩ := hitems item hitem
  exact ⟨by omega, by omega⟩

end MapValue

namespace AccountingRecord

variable {e : AccountingRecord}

/-- The comment has no NUL, and `mapValue` no value for the position. -/
def Plain (e : AccountingRecord) : Prop := 0 ∉ e.strComment.bytes ∧ e.mapValue.find? KEY_N = none

theorem takeWhile_comment {comment : List UInt8} (h : 0 ∉ comment) (tail : List UInt8) :
    (comment ++ 0 :: tail).takeWhile (· != 0) = comment ∧ (comment ++ 0 :: tail).dropWhile (· != 0) = 0 :: tail ∧
      comment.takeWhile (· != 0) = comment ∧ comment.dropWhile (· != 0) = [] := by
  have hall : ∀ b ∈ comment, (b != 0) = true := fun b hb => bne_iff_ne.2 fun heq => h (heq ▸ hb)
  refine ⟨?_, ?_, List.takeWhile_eq_self_iff.2 hall, List.dropWhile_eq_nil_iff.2 hall⟩
  · rw [List.takeWhile_append_of_pos hall, List.takeWhile_cons_of_neg (by decide), List.append_nil]
  · rw [List.dropWhile_append_of_pos hall, List.dropWhile_cons_of_neg (by decide)]

theorem erase_filledMap (h : e.mapValue.find? KEY_N = none) : e.filledMap.erase KEY_N = e.mapValue := by
  apply MapValue.ext
  intro key
  rw [MapValue.find?_erase]
  split
  · rename_i hkey
    rw [← hkey, h]
  · rename_i hkey
    exact find?_writeOrderPos hkey e.nOrderPos

/-- **The object is left as it was** if and only if it is plain. -/
theorem write_object_iff (nVersion : Int32) : (e.write nVersion).2 = e ↔ e.Plain := by
  rw [write]
  constructor
  · intro h
    have hcomment : (⟨e.fullComment.takeWhile (· != 0)⟩ : StdString) = e.strComment := congrArg strComment h
    have hmap : e.filledMap.erase KEY_N = e.mapValue := congrArg mapValue h
    constructor
    · rw [← hcomment]
      intro hmem
      exact absurd (List.mem_takeWhile_imp hmem) (by decide)
    · rw [← hmap, MapValue.find?_erase, if_pos rfl]
  · intro h
    have hcomment : e.fullComment.takeWhile (· != 0) = e.strComment.bytes := by
      rw [fullComment]
      split
      · exact (takeWhile_comment h.1 []).2.2.1
      · exact (takeWhile_comment h.1 _).1
    rw [hcomment, erase_filledMap h.2]

theorem readTail_fullComment (hfits : e.Fits) (h : e.Plain) : readTail e.fullComment = some (e.filledMap, e.ssExtra) := by
  have hlength := hfits.fullComment
  rw [fullComment] at hlength ⊢
  by_cases hempty : (e.filledMap.entries.isEmpty && e.ssExtra.isEmpty) = true
  · rw [if_pos hempty, readTail, (takeWhile_comment h.1 []).2.2.2]
    rw [Bool.and_eq_true, List.isEmpty_iff, List.isEmpty_iff] at hempty
    have hmap : e.filledMap = .empty := by
      apply MapValue.ext
      intro key
      rw [MapValue.find?, hempty.1]
      rfl
    rw [hmap, hempty.2]
  · rw [if_neg hempty, List.length_append, List.length_cons, List.length_append] at hlength
    rw [if_neg hempty, readTail, (takeWhile_comment h.1 _).2.1]
    dsimp only
    rw [MapValue.lawful_entriesCodec.read_write (MapValue.fits_of_length (by omega)) e.ssExtra, Option.map_some,
      MapValue.ofItems_entries]

theorem lawful_keyCodec : keyCodec.Lawful fun p => p.1.bytes.length ≤ MAX_SIZE ∧ p.2 < 256 ^ 8 :=
  StdString.lawful.seq (lawful_number 8)

theorem lawful_valueCodec : valueCodec.Lawful fun p =>
    True ∧ True ∧ True ∧ p.2.2.2.1.bytes.length ≤ MAX_SIZE ∧ p.2.2.2.2.bytes.length ≤ MAX_SIZE :=
  lawful_int32.seq (lawful_int64Codec.seq (lawful_int64Codec.seq (StdString.lawful.seq StdString.lawful)))

/-- **What is written is read back**. -/
theorem read_write (hfits : e.Fits) (h : e.Plain) (nVersion : Int32) :
    read (e.write nVersion).1.1 (e.write nVersion).1.2 = some e := by
  have hobject := (write_object_iff nVersion).2 h
  have hkey := lawful_keyCodec.read_write (a := (e.strAccount, e.nEntryNo)) ⟨hfits.strAccount, hfits.nEntryNo⟩ []
  have hvalue := lawful_valueCodec.read_write
    (a := (nVersion, e.nCreditDebit, e.nTime, e.strOtherAccount, ⟨e.fullComment⟩))
    ⟨trivial, trivial, trivial, hfits.strOtherAccount, hfits.fullComment⟩ []
  rw [List.append_nil] at hkey hvalue
  have hpos : readOrderPos e.filledMap = e.nOrderPos := readOrderPos_writeOrderPos h.2 _
  refine Option.bind_eq_some_iff.2 ⟨_, hkey, Option.bind_eq_some_iff.2 ⟨_, hvalue,
    Option.bind_eq_some_iff.2 ⟨_, readTail_fullComment hfits h, ?_⟩⟩⟩
  dsimp only
  rw [hpos]
  exact congrArg some hobject

/-- What stands behind the NUL has to be a map. -/
theorem read_eq_none (hfits : e.Fits) (h : readTail e.fullComment = none) (nVersion : Int32) :
    read (e.write nVersion).1.1 (e.write nVersion).1.2 = none := by
  have hvalue := lawful_valueCodec.read_write
    (a := (nVersion, e.nCreditDebit, e.nTime, e.strOtherAccount, ⟨e.fullComment⟩))
    ⟨trivial, trivial, trivial, hfits.strOtherAccount, hfits.fullComment⟩ []
  rw [List.append_nil] at hvalue
  rw [Option.eq_none_iff_forall_not_mem]
  intro e' he'
  obtain ⟨key, hkey, he'⟩ := Option.bind_eq_some_iff.1 he'
  obtain ⟨value, hvalue', he'⟩ := Option.bind_eq_some_iff.1 he'
  obtain rfl := Option.some.inj (hvalue.symm.trans hvalue')
  obtain ⟨tail, htail, -⟩ := Option.bind_eq_some_iff.1 he'
  cases h.symm.trans htail

end AccountingRecord

/-- **What survives**: a transaction whose `mapValue` has none of the reserved keys; and an entry if and only if it is
plain. -/
theorem records_survive (wtx : WalletTxRecord) (hwtx : wtx.Fits)
    (hfree : ∀ key ∈ WalletTxRecord.reserved, wtx.mapValue.find? key = none) (nVersion : Int32) (e : AccountingRecord)
    (he : e.Fits) :
    ((∀ rest, WalletTxRecord.read (wtx.write.1 ++ rest) = some (wtx, rest)) ∧ wtx.write.2 = wtx) ∧
      (AccountingRecord.read (e.write nVersion).1.1 (e.write nVersion).1.2 = some e ∧ (e.write nVersion).2 = e ↔
        e.Plain) := by
  refine ⟨⟨wtx.read_write hwtx hfree, wtx.write_object hfree⟩, fun h => ?_, fun h => ?_⟩
  · exact (AccountingRecord.write_object_iff nVersion).1 h.2
  · exact ⟨AccountingRecord.read_write he h nVersion, (AccountingRecord.write_object_iff nVersion).2 h⟩

namespace RecordSample

/-- A transaction with a comment and a position. -/
def wtx : WalletTxRecord where
  merkleTx := (⟨1, 0, [], [], 0⟩, 0, [], -1)
  vtxPrev := []
  mapValue := MapValue.empty.set (.ofText ['c']) (.ofText ['x'])
  vOrderForm := []
  fTimeReceivedIsTxTime := 0
  nTimeReceived := 5
  nTimeSmart := 7
  fFromMe := 1
  strFromAccount := .ofText ['a']
  vfSpent := [true, false]
  nOrderPos := 3

/-- An entry with a comment. -/
def entry (comment : List Char) : AccountingRecord where
  strAccount := .ofText ['a']
  nCreditDebit := 100
  nTime := 5
  strOtherAccount := .ofText ['b']
  strComment := .ofText comment
  mapValue := .empty
  nOrderPos := -1
  nEntryNo := 1
  ssExtra := []

/-- A transaction survives, and an entry with a comment of one letter. -/
theorem one_letter : (∀ rest, WalletTxRecord.read (wtx.write.1 ++ rest) = some (wtx, rest)) ∧
    AccountingRecord.read ((entry ['x']).write 1).1.1 ((entry ['x']).write 1).1.2 = some (entry ['x']) := by
  have hwtx : wtx.Fits := {
    merkleTx := ⟨⟨by decide, by decide, by decide, fun _ h => absurd h List.not_mem_nil⟩, by decide⟩
    vtxPrev := ⟨by decide, fun _ h => absurd h List.not_mem_nil⟩
    filledMap := ⟨by decide, by decide⟩
    vOrderForm := ⟨by decide, fun _ h => absurd h List.not_mem_nil⟩ }
  have hfits : (entry ['x']).Fits := ⟨by decide, by decide, by decide, by decide⟩
  have hplain : (entry ['x']).Plain := ⟨by decide, rfl⟩
  have hboth := records_survive wtx hwtx (by decide) 1 _ hfits
  exact ⟨hboth.1.1, (hboth.2.2 hplain).1⟩

/-- **A record that cannot be read**: the letter behind the NUL is taken for the number of entries of a map. -/
theorem unreadable : AccountingRecord.read ((entry ['x', '\x00', 'y']).write 1).1.1
    ((entry ['x', '\x00', 'y']).write 1).1.2 = none := by
  have hfits : (entry ['x', '\x00', 'y']).Fits := ⟨by decide, by decide, by decide, by decide⟩
  exact AccountingRecord.read_eq_none hfits (by decide) 1

end RecordSample

end PayDayCoin
