import Mathlib.Algebra.Order.BigOperators.Group.List
import Mathlib.Data.List.Sort
import PayDayCoin.Library.Runs
import PayDayCoin.WalletSpendsRuns

/-!
# The order of the wallet

`wtxOrdered` is a multimap from positions to pointers: one item for each transaction of `mapWallet` and one for each
accounting entry. `LoadWallet` builds it while it reads the records of the database, and `AddToWallet` and
`AddAccountingEntry` add to it. **`ordered_of_sound`** says when it holds in every state that the wallet is what it
should be: the records of transactions are good, `ReorderTransactions` moves no transaction, and none is erased. In
`OrderSample.index_stale` a bad record stays in `mapWallet`, a transaction without a position is found under `-1`, and one
that is erased leaves its item behind.
-/

namespace PayDayCoin

open Library.Runs

/-! ### The wallet and its index -/

/-- A transaction of the wallet, with its times. -/
structure TimedTx extends CWalletTx where
  nTimeReceived : UInt32 := 0
  nTimeSmart : UInt32 := 0

/-- `CAccountingEntry`. -/
structure CAccountingEntry where
  strAccount : String
  nTime : ℤ
  nOrderPos : ℤ := -1
  nEntryNo : ℕ

/-- An element of `mapWallet`, with its address. -/
structure TxNode where
  hash : Uint256
  addr : ℕ
  wtx : TimedTx

/-- An element of `laccentries`, with its address. -/
structure EntryNode where
  addr : ℕ
  entry : CAccountingEntry

/-- `TxPair`: a pointer to a transaction, or to an accounting entry. -/
inductive TxPair where
  | tx (addr : ℕ)
  | accounting (addr : ℕ)
deriving DecidableEq

/-- The item that belongs to a transaction. -/
def TxNode.item (n : TxNode) : ℤ × TxPair := (n.wtx.nOrderPos, .tx n.addr)

/-- The item that belongs to an accounting entry. -/
def EntryNode.item (n : EntryNode) : ℤ × TxPair := (n.entry.nOrderPos, .accounting n.addr)

/-- The heap: a new element gets an address that no other has. -/
structure Allocator where
  alloc : List ℕ → ℕ
  alloc_fresh : ∀ live, alloc live ∉ live

/-- `CWallet`: its transactions in the order of their hashes, and what orders them. -/
structure OrderedWallet where
  fFileBacked : Bool := true
  mapWallet : List TxNode := []
  laccentries : List EntryNode := []
  wtxOrdered : List (ℤ × TxPair) := []
  nOrderPosNext : ℤ := 0

namespace OrderedWallet

/-- The addresses that are in use. -/
def live (w : OrderedWallet) : List ℕ := w.mapWallet.map TxNode.addr ++ w.laccentries.map EntryNode.addr

/-- What `wtxOrdered` should hold. -/
def items (w : OrderedWallet) : List (ℤ × TxPair) := w.mapWallet.map TxNode.item ++ w.laccentries.map EntryNode.item

/-- `mapWallet.find`. -/
def find? (w : OrderedWallet) (hash : Uint256) : Option TxNode := w.mapWallet.find? fun n => n.hash = hash

/-- The insertion into the multimap: behind the items with the same key. -/
def insertOrdered (w : OrderedWallet) (item : ℤ × TxPair) : OrderedWallet :=
  { w with wtxOrdered := w.wtxOrdered.orderedInsert (fun a b => a.1 < b.1) item }

/-- A new element of `mapWallet`. -/
def insertTx (heap : Allocator) (w : OrderedWallet) (hash : Uint256) (wtx : TimedTx) : OrderedWallet :=
  { w with mapWallet := w.mapWallet.orderedInsert (fun a b => a.hash < b.hash) ⟨hash, heap.alloc w.live, wtx⟩ }

/-- An element of `mapWallet` is changed. -/
def updateTx (w : OrderedWallet) (hash : Uint256) (f : TimedTx → TimedTx) : OrderedWallet :=
  { w with mapWallet := w.mapWallet.map fun n => if n.hash = hash then { n with wtx := f n.wtx } else n }

/-- `mapWallet[hash] = wtx`. -/
def setTx (heap : Allocator) (w : OrderedWallet) (hash : Uint256) (wtx : TimedTx) : OrderedWallet :=
  match w.find? hash with
  | none => w.insertTx heap hash wtx
  | some _ => w.updateTx hash fun _ => wtx

/-- `laccentries.push_back`. -/
def pushEntry (heap : Allocator) (w : OrderedWallet) (entry : CAccountingEntry) : OrderedWallet :=
  { w with laccentries := w.laccentries ++ [⟨heap.alloc w.live, entry⟩] }

/-- `CWallet::AddAccountingEntry`; `written` is whether the entry could be written. -/
def addAccountingEntry (heap : Allocator) (entry : CAccountingEntry) (written : Bool) (w : OrderedWallet) :
    OrderedWallet :=
  if !written then w
  else
    let w := w.pushEntry heap entry
    match w.laccentries.getLast? with
    | none => w
    | some n => w.insertOrdered n.item

/-- `CWallet::EraseFromWallet`. -/
def eraseFromWallet (hash : Uint256) (w : OrderedWallet) : OrderedWallet :=
  if !w.fFileBacked then w else { w with mapWallet := w.mapWallet.filter fun n => n.hash ≠ hash }

/-! ### `AddToWallet` -/

/-- What `AddToWallet` reads. -/
structure AddEnv where
  heap : Allocator
  /-- `GetAdjustedTime()`. -/
  adjustedTime : ℤ
  /-- The time of a block of `mapBlockIndex`. -/
  blockTime : Uint256 → Option UInt32

/-- The smart time behind a pointer: the one of a transaction, or else when it was received, or the time of an
accounting entry. -/
def smartTime (w : OrderedWallet) : TxPair → Option ℤ
  | .tx addr => (w.mapWallet.find? fun n => n.addr = addr).map fun n =>
      ((if n.wtx.nTimeSmart = 0 then n.wtx.nTimeReceived else n.wtx.nTimeSmart).toNat : ℤ)
  | .accounting addr => (w.laccentries.find? fun n => n.addr = addr).map fun n => n.entry.nTime

/-- `AddToWallet`: the last smart time, of another item, that is at most five minutes ahead. -/
def latestSmartTime (w : OrderedWallet) (own : TxPair) (latestNow : UInt32) : Option ℤ :=
  ((w.wtxOrdered.reverse.filter fun item => item.2 ≠ own).filterMap fun item => w.smartTime item.2).find? fun t =>
    t ≤ ((latestNow + 300).toNat : ℤ)

/-- `AddToWallet`: the smart time of a new transaction. -/
def newSmartTime (env : AddEnv) (w : OrderedWallet) (own : TxPair) (hashBlock : Uint256) (received : UInt32) : UInt32 :=
  match if hashBlock = 0 then none else env.blockTime hashBlock with
  | none => received
  | some blocktime =>
    match w.latestSmartTime own received with
    | none => max 0 (min blocktime received)
    | some t => max (UInt32.ofInt t) (min blocktime (if (received.toNat : ℤ) < t then UInt32.ofInt t else received))

section Adding

variable [Crypto]

/-- `CWallet::AddToWallet`, from loading. -/
def addLoaded (heap : Allocator) (wtxIn : TimedTx) (w : OrderedWallet) : OrderedWallet :=
  let w := w.setTx heap wtxIn.tx.getHash wtxIn
  match w.find? wtxIn.tx.getHash with
  | none => w
  | some n => w.insertOrdered n.item

/-- `AddToWallet` of a transaction that is not there. -/
def addNew (env : AddEnv) (wtxIn : TimedTx) (w : OrderedWallet) : OrderedWallet :=
  let received := UInt32.ofInt env.adjustedTime
  let wtx := { wtxIn with nTimeReceived := received, nOrderPos := w.nOrderPosNext }
  let node : TxNode := ⟨wtxIn.tx.getHash, env.heap.alloc w.live, wtx⟩
  let w := { w.insertTx env.heap wtxIn.tx.getHash wtx with nOrderPosNext := w.nOrderPosNext + 1 }.insertOrdered node.item
  w.updateTx wtxIn.tx.getHash fun wtx =>
    { wtx with nTimeSmart := w.newSmartTime env (.tx node.addr) wtxIn.hashBlock received }

/-- `CWallet::AddToWallet`, not from loading. -/
def addToWallet (env : AddEnv) (wtxIn : TimedTx) (w : OrderedWallet) : OrderedWallet :=
  match w.find? wtxIn.tx.getHash with
  | none => w.addNew env wtxIn
  | some _ => w.updateTx wtxIn.tx.getHash fun wtx =>
      { wtx with toCWalletTx := wtx.toCWalletTx.merge wtxIn.toCWalletTx }

end Adding

end OrderedWallet

/-! ### The records -/

/-- What follows the transaction in its record: nothing, what an old version needs, or what cannot be read as such. -/
inductive TxRest where
  | empty
  | upgrade
  | corrupt
deriving DecidableEq

/-- A record of a transaction: the hash of its key, what reading its value makes of the transaction, and whether it
could be read to the end. -/
structure TxRecord where
  hash : Uint256
  value : TimedTx
  complete : Bool := true
  fTimeReceivedIsTxTime : UInt32 := 0
  rest : TxRest := .empty

/-- A record of an accounting entry; a value that cannot be read is `none`. -/
structure EntryRecord where
  strAccount : String
  nNumber : ℕ
  value : Option CAccountingEntry

/-- A record of the database. Of those of other types only whether they are keys, and could be loaded, is kept. -/
inductive WalletRecord where
  | tx (r : TxRecord)
  | acentry (r : EntryRecord)
  | orderposnext (nOrderPosNext : Option ℤ)
  | version (nFileVersion : Option ℤ)
  | ckey (loaded : Bool)
  | other (isKeyType loaded : Bool)

/-- The record of a transaction. -/
def WalletRecord.tx? : WalletRecord → Option TxRecord
  | .tx r => some r
  | _ => none

/-- The record of an accounting entry. -/
def WalletRecord.acentry? : WalletRecord → Option EntryRecord
  | .acentry r => some r
  | _ => none

/-- An accounting entry, with what its key says. -/
def EntryRecord.read (r : EntryRecord) : Option CAccountingEntry :=
  r.value.map fun entry => { entry with strAccount := r.strAccount, nEntryNo := r.nNumber }

/-- `DBErrors`. -/
inductive DBErrors where
  | DB_LOAD_OK
  | DB_CORRUPT
  | DB_NONCRITICAL_ERROR
  | DB_TOO_NEW
  | DB_LOAD_FAIL
  | DB_NEED_REWRITE
deriving DecidableEq

/-- `CLIENT_VERSION`. -/
def CLIENT_VERSION : ℤ := 1030005

/-- What `LoadWallet` reads besides the records. -/
structure WalletEnv where
  heap : Allocator
  minversion : Option ℤ := none
  cursor : Bool := true
  /-- The cursor fails behind the last record. -/
  readError : Bool := false
  /-- `WriteTx`, for each transaction. -/
  writeTx : Uint256 → Bool := fun _ => true
  /-- `WriteAccountingEntry`, for the number of each entry. -/
  writeEntry : ℕ → Bool := fun _ => true

/-- `CWalletScanState`, with the wallet and what the records have come to. -/
structure WalletScan where
  wallet : OrderedWallet := {}
  fIsEncrypted : Bool := false
  fAnyUnordered : Bool := false
  nFileVersion : ℤ := 0
  fNoncriticalErrors : Bool := false
  corrupt : Bool := false

section Load

variable [Crypto]

/-- Whether a record of a transaction is good. -/
def TxRecord.good (r : TxRecord) : Bool :=
  r.complete && r.value.tx.checkTransaction.isOk && r.value.tx.getHash = r.hash &&
    !(31404 ≤ r.fTimeReceivedIsTxTime && r.fTimeReceivedIsTxTime ≤ 31703 && r.rest == .corrupt)

/-- `ReadKeyValue` of a transaction, and whether it could be read. The record is read into `mapWallet`. -/
def readTx (heap : Allocator) (r : TxRecord) (s : WalletScan) : WalletScan × Bool :=
  let s := { s with wallet := s.wallet.setTx heap r.hash r.value }
  if !r.good then (s, false)
  else
    let s := if r.value.nOrderPos = -1 then { s with fAnyUnordered := true } else s
    ({ s with wallet := s.wallet.addLoaded heap r.value }, true)

/-- `ReadKeyValue`, and whether the record could be read. -/
def readKeyValue (heap : Allocator) (s : WalletScan) : WalletRecord → WalletScan × Bool
  | .tx r => readTx heap r s
  | .acentry r =>
    if s.fAnyUnordered then (s, true)
    else
      match r.value with
      | none => (s, false)
      | some entry => ({ s with fAnyUnordered := entry.nOrderPos = -1 }, true)
  | .orderposnext none => (s, false)
  | .orderposnext (some n) => ({ s with wallet := { s.wallet with nOrderPosNext := n } }, true)
  | .version none => (s, false)
  | .version (some n) => ({ s with nFileVersion := if n = 10300 then 300 else n }, true)
  | .ckey loaded => if loaded then ({ s with fIsEncrypted := true }, true) else (s, false)
  | .other _ loaded => (s, loaded)

/-- `IsKeyType`, of the type of a record. -/
def WalletRecord.isKeyType : WalletRecord → Bool
  | .ckey _ => true
  | .other isKeyType _ => isKeyType
  | _ => false

/-- `LoadWallet`: one record. -/
def scanRecord (heap : Allocator) (s : WalletScan) (r : WalletRecord) : WalletScan :=
  let (s, ok) := readKeyValue heap s r
  if ok then s
  else if r.isKeyType then { s with corrupt := true }
  else { s with fNoncriticalErrors := true }

end Load

/-! ### `ReorderTransactions` -/

/-- An item of `txByTime`. -/
inductive TimeItem where
  | tx (hash : Uint256) (wtx : TimedTx)
  | accounting (entry : CAccountingEntry)

namespace TimeItem

/-- When it was received, or its time. -/
def time : TimeItem → ℤ
  | .tx _ wtx => wtx.nTimeReceived.toNat
  | .accounting entry => entry.nTime

/-- Its position. -/
def nOrderPos : TimeItem → ℤ
  | .tx _ wtx => wtx.nOrderPos
  | .accounting entry => entry.nOrderPos

end TimeItem

/-- `txByTime`: the transactions, and then the entries, are inserted into a multimap. -/
def txByTime (txs : List (Uint256 × TimedTx)) (acentries : List CAccountingEntry) : List TimeItem :=
  ((txs.map fun t => TimeItem.tx t.1 t.2) ++ acentries.map TimeItem.accounting).foldl
    (fun l item => l.orderedInsert (fun a b => a.time < b.time) item) []

/-- The transactions of the wallet, in the order of the map. -/
def OrderedWallet.txs (w : OrderedWallet) : List (Uint256 × TimedTx) := w.mapWallet.map fun n => (n.hash, n.wtx)

/-- What `ReorderTransactions` changes, and the positions that it has given. -/
structure Reordering where
  wallet : OrderedWallet
  entries : List EntryRecord
  nOrderPosOffsets : List ℤ := []

/-- A position is given, and written: what has changed, and whether it could be written. -/
def Reordering.assign (env : WalletEnv) (s : Reordering) (nOrderPos : ℤ) : TimeItem → Reordering × Bool
  | .tx hash _ =>
    ({ s with wallet := s.wallet.updateTx hash fun wtx => { wtx with nOrderPos := nOrderPos } }, env.writeTx hash)
  | .accounting entry =>
    if env.writeEntry entry.nEntryNo then
      ({ s with
        entries := s.entries.map fun r =>
          if r.strAccount = entry.strAccount ∧ r.nNumber = entry.nEntryNo then
            { r with value := some { entry with nOrderPos := nOrderPos } } else r }, true)
    else (s, false)

/-- The next position is given out. -/
def Reordering.give (s : Reordering) : Reordering :=
  { s with
    wallet := { s.wallet with nOrderPosNext := s.wallet.nOrderPosNext + 1 }
    nOrderPosOffsets := s.nOrderPosOffsets ++ [s.wallet.nOrderPosNext] }

/-- How many of the positions that were given are not above a position. -/
def Reordering.nOrderPosOff (s : Reordering) (nOrderPos : ℤ) : ℕ :=
  (s.nOrderPosOffsets.filter fun nOffsetStart => nOffsetStart ≤ nOrderPos).length

/-- The next position is above a position. -/
def Reordering.pass (s : Reordering) (nOrderPos : ℤ) : Reordering :=
  { s with wallet := { s.wallet with nOrderPosNext := max s.wallet.nOrderPosNext (nOrderPos + 1) } }

/-- The loop of `ReorderTransactions`. -/
def Reordering.loop (env : WalletEnv) : List TimeItem → Reordering → DBErrors × Reordering
  | [], s => (.DB_LOAD_OK, s)
  | item :: items, s =>
    if item.nOrderPos = -1 then
      let (s, written) := s.give.assign env s.wallet.nOrderPosNext item
      if written then s.loop env items else (.DB_LOAD_FAIL, s)
    else
      let nOrderPosOff := s.nOrderPosOff item.nOrderPos
      let nOrderPos := item.nOrderPos + nOrderPosOff
      let s := s.pass nOrderPos
      if nOrderPosOff = 0 then s.loop env items
      else
        let (s, written) := s.assign env nOrderPos item
        if written then s.loop env items else (.DB_LOAD_FAIL, s)

/-- `ListAccountCreditDebit` of the account without a name: its records come first. -/
def ownEntries (entries : List EntryRecord) : Option (List CAccountingEntry) :=
  (entries.takeWhile fun r => r.strAccount = "").mapM EntryRecord.read

/-- `CWalletDB::ReorderTransactions`; `none` when it throws. -/
def reorderTransactions (env : WalletEnv) (w : OrderedWallet) (entries : List EntryRecord) :
    Option (DBErrors × Reordering) :=
  (ownEntries entries).map fun acentries =>
    Reordering.loop env (txByTime w.txs acentries) { wallet := { w with nOrderPosNext := 0 }, entries }

/-! ### `LoadWallet` -/

/-- `LoadWallet`: the accounting entries are read again, and added to `wtxOrdered`. -/
def loadEntries (heap : Allocator) (w : OrderedWallet) (entries : List EntryRecord) : Option OrderedWallet :=
  (entries.mapM EntryRecord.read).map fun acentries =>
    let w := acentries.foldl (OrderedWallet.pushEntry heap) { w with laccentries := [] }
    w.laccentries.foldl (fun w n => w.insertOrdered n.item) w

/-- `CWalletDB::LoadWallet` into a new wallet; `none` when it throws. -/
def loadWallet [Crypto] (env : WalletEnv) (db : List WalletRecord) : Option (DBErrors × OrderedWallet) :=
  if env.minversion.any fun nMinVersion => CLIENT_VERSION < nMinVersion then some (.DB_TOO_NEW, {})
  else if !env.cursor then some (.DB_CORRUPT, {})
  else
    let s := db.foldl (scanRecord env.heap) {}
    if env.readError || s.corrupt then some (.DB_CORRUPT, s.wallet)
    else if s.fNoncriticalErrors then some (.DB_NONCRITICAL_ERROR, s.wallet)
    else if s.fIsEncrypted && (s.nFileVersion = 40000 || s.nFileVersion = 50000) then some (.DB_NEED_REWRITE, s.wallet)
    else
      let entries := db.filterMap WalletRecord.acentry?
      if s.fAnyUnordered then do
        let (result, reordered) ← reorderTransactions env s.wallet entries
        let w ← loadEntries env.heap reordered.wallet reordered.entries
        return (result, w)
      else do
        let w ← loadEntries env.heap s.wallet entries
        return (.DB_LOAD_OK, w)

/-! ### Events -/

/-- What happens to a wallet. -/
inductive WalletEvent where
  | addToWallet (env : OrderedWallet.AddEnv) (wtxIn : TimedTx)
  | addAccountingEntry (heap : Allocator) (acentry : CAccountingEntry) (written : Bool)
  | eraseFromWallet (hash : Uint256)

/-- One event. -/
def OrderedWallet.step [Crypto] (w : OrderedWallet) : WalletEvent → OrderedWallet
  | .addToWallet env wtxIn => w.addToWallet env wtxIn
  | .addAccountingEntry heap acentry written => w.addAccountingEntry heap acentry written
  | .eraseFromWallet hash => w.eraseFromWallet hash

/-! ### What the index holds -/

/-- Each transaction is where its hash is; no two elements share an address; and `wtxOrdered` holds one item for each
transaction and each accounting entry, under its position. -/
structure OrderedWallet.Ordered [Crypto] (w : OrderedWallet) : Prop where
  keyed : ∀ n ∈ w.mapWallet, n.wtx.tx.getHash = n.hash
  apart : w.live.Nodup
  indexed : w.wtxOrdered.Perm w.items

/-- The transactions of good records, in the order of the map. -/
def storedTxs (records : List TxRecord) : List (Uint256 × TimedTx) :=
  records.foldl (fun l r => l.orderedInsert (fun a b => a.1 < b.1) (r.hash, r.value)) []

/-- Whether a record can be read; values of accounting entries are left to `ListAccountCreditDebit`. -/
def WalletRecord.readable [Crypto] : WalletRecord → Bool
  | .tx r => r.good
  | .acentry _ => true
  | .orderposnext n => n.isSome
  | .version n => n.isSome
  | .ckey loaded => loaded
  | .other _ loaded => loaded

/-- No transaction of the wallet is erased. -/
def OrderedWallet.Lasting (w : OrderedWallet) : WalletEvent → Prop
  | .eraseFromWallet hash => w.fFileBacked = true → ∀ n ∈ w.mapWallet, n.hash ≠ hash
  | _ => True

namespace OrderedWallet

variable [Crypto] {w : OrderedWallet} {heap : Allocator} {pending : List (ℤ × TxPair)}

/-- The wallet, when some items are still to be inserted. -/
structure Tracks (w : OrderedWallet) (pending : List (ℤ × TxPair)) : Prop where
  keyed : ∀ n ∈ w.mapWallet, n.wtx.tx.getHash = n.hash
  apart : w.live.Nodup
  indexed : (pending ++ w.wtxOrdered).Perm w.items

theorem Ordered.tracks (h : w.Ordered) : w.Tracks [] := ⟨h.keyed, h.apart, h.indexed⟩

theorem Tracks.ordered (h : w.Tracks []) : w.Ordered := ⟨h.keyed, h.apart, h.indexed⟩

theorem Tracks.congr (h : w.Tracks pending) {w' : OrderedWallet} (hmap : w'.mapWallet = w.mapWallet)
    (hentries : w'.laccentries = w.laccentries) (hordered : w'.wtxOrdered = w.wtxOrdered) : w'.Tracks pending := by
  refine ⟨?_, ?_, ?_⟩
  · rw [hmap]
    exact h.keyed
  · rw [live, hmap, hentries]
    exact h.apart
  · rw [items, hmap, hentries, hordered]
    exact h.indexed

/-- **An item is inserted.** -/
theorem Tracks.insertOrdered {item : ℤ × TxPair} (h : w.Tracks (item :: pending)) :
    (w.insertOrdered item).Tracks pending := by
  refine ⟨h.keyed, h.apart, .trans ?_ h.indexed⟩
  exact ((List.perm_orderedInsert _ item w.wtxOrdered).append_left pending).trans List.perm_middle

/-- A new transaction has an item that is to be inserted. -/
theorem Tracks.insertTx (h : w.Tracks pending) {hash : Uint256} {wtx : TimedTx} (hhash : wtx.tx.getHash = hash) :
    (w.insertTx heap hash wtx).Tracks ((wtx.nOrderPos, .tx (heap.alloc w.live)) :: pending) := by
  have hperm : (w.insertTx heap hash wtx).mapWallet.Perm (⟨hash, heap.alloc w.live, wtx⟩ :: w.mapWallet) :=
    List.perm_orderedInsert _ _ _
  refine ⟨fun n hn => ?_, ?_, ?_⟩
  · rcases List.mem_cons.1 (hperm.mem_iff.1 hn) with rfl | hn
    · exact hhash
    · exact h.keyed n hn
  · have hlive : (w.insertTx heap hash wtx).live.Perm (heap.alloc w.live :: w.live) :=
      (hperm.map TxNode.addr).append_right _
    rw [hlive.nodup_iff, List.nodup_cons]
    exact ⟨heap.alloc_fresh _, h.apart⟩
  · have hitems : (w.insertTx heap hash wtx).items.Perm ((wtx.nOrderPos, .tx (heap.alloc w.live)) :: w.items) :=
      (hperm.map TxNode.item).append_right _
    exact (h.indexed.cons _).trans hitems.symm

/-- So has a new accounting entry. -/
theorem Tracks.pushEntry (h : w.Tracks pending) (heap : Allocator) (entry : CAccountingEntry) :
    (w.pushEntry heap entry).Tracks ((entry.nOrderPos, .accounting (heap.alloc w.live)) :: pending) := by
  refine ⟨h.keyed, ?_, ?_⟩
  · have hlive : (w.pushEntry heap entry).live = w.live ++ [heap.alloc w.live] := by
      rw [live, OrderedWallet.pushEntry, List.map_append, ← List.append_assoc]
      rfl
    rw [hlive, (List.perm_append_singleton _ _).nodup_iff, List.nodup_cons]
    exact ⟨heap.alloc_fresh _, h.apart⟩
  · have hitems : (w.pushEntry heap entry).items =
        w.items ++ [(entry.nOrderPos, .accounting (heap.alloc w.live))] := by
      rw [items, OrderedWallet.pushEntry, List.map_append, ← List.append_assoc]
      rfl
    rw [hitems]
    exact (h.indexed.cons _).trans (List.perm_append_singleton _ _).symm

/-- A change that keeps the transaction and its position keeps the index. -/
theorem Tracks.updateTx (h : w.Tracks pending) {hash : Uint256} {f : TimedTx → TimedTx}
    (hf : ∀ wtx, (f wtx).tx = wtx.tx ∧ (f wtx).nOrderPos = wtx.nOrderPos) : (w.updateTx hash f).Tracks pending := by
  have hmap : ∀ {β : Type} (g : TxNode → β), (∀ n, g { n with wtx := f n.wtx } = g n) →
      (w.updateTx hash f).mapWallet.map g = w.mapWallet.map g := by
    intro β g hg
    rw [OrderedWallet.updateTx, List.map_map]
    refine List.map_congr_left fun n _ => ?_
    simp only [Function.comp_apply]
    split
    · exact hg n
    · rfl
  refine ⟨fun n hn => ?_, ?_, ?_⟩
  · obtain ⟨m, hm, rfl⟩ := List.mem_map.1 hn
    split
    · rw [(hf m.wtx).1]
      exact h.keyed m hm
    · exact h.keyed m hm
  · rw [live, hmap _ fun n => rfl]
    exact h.apart
  · rw [items, hmap TxNode.item fun n => by rw [TxNode.item, (hf n.wtx).2, TxNode.item]]
    exact h.indexed

omit [Crypto] in
theorem ne_of_find?_none {hash : Uint256} (hnew : w.find? hash = none) : ∀ n ∈ w.mapWallet, n.hash ≠ hash := by
  intro n hn
  simpa using List.find?_eq_none.1 hnew n hn

omit [Crypto] in
/-- A new transaction is found. -/
theorem find?_insertTx {hash : Uint256} (hnew : w.find? hash = none) (wtx : TimedTx) :
    (w.insertTx heap hash wtx).find? hash = some ⟨hash, heap.alloc w.live, wtx⟩ := by
  have hperm : (w.insertTx heap hash wtx).mapWallet.Perm (⟨hash, heap.alloc w.live, wtx⟩ :: w.mapWallet) :=
    List.perm_orderedInsert _ _ _
  cases hfind : (w.insertTx heap hash wtx).find? hash with
  | none => exact absurd rfl (ne_of_find?_none hfind _ (hperm.mem_iff.2 (List.mem_cons_self ..)))
  | some n =>
    rcases List.mem_cons.1 (hperm.mem_iff.1 (List.mem_of_find?_eq_some hfind)) with rfl | hn
    · rfl
    · exact absurd (by simpa using List.find?_some hfind) (ne_of_find?_none hnew n hn)

omit [Crypto] in
/-- And setting it again changes nothing. -/
theorem setTx_insertTx {hash : Uint256} (hnew : w.find? hash = none) (wtx : TimedTx) :
    (w.insertTx heap hash wtx).setTx heap hash wtx = w.insertTx heap hash wtx := by
  have hperm : (w.insertTx heap hash wtx).mapWallet.Perm (⟨hash, heap.alloc w.live, wtx⟩ :: w.mapWallet) :=
    List.perm_orderedInsert _ _ _
  have hsame : (w.insertTx heap hash wtx).mapWallet.map
      (fun n => if n.hash = hash then { n with wtx := wtx } else n) = (w.insertTx heap hash wtx).mapWallet := by
    refine (List.map_congr_left fun n hn => ?_).trans (List.map_id _)
    rcases List.mem_cons.1 (hperm.mem_iff.1 hn) with rfl | hn
    · rw [if_pos rfl]
      rfl
    · rw [if_neg (ne_of_find?_none hnew n hn)]
      rfl
  rw [setTx, find?_insertTx hnew]
  simp only [OrderedWallet.updateTx, hsame]

/-- **A transaction that is read and added** is in the map, and its item in the index. -/
theorem addLoaded_setTx (heap : Allocator) {wtx : TimedTx} (hnew : w.find? wtx.tx.getHash = none) :
    (w.setTx heap wtx.tx.getHash wtx).addLoaded heap wtx =
      (w.insertTx heap wtx.tx.getHash wtx).insertOrdered (wtx.nOrderPos, .tx (heap.alloc w.live)) := by
  have hset : w.setTx heap wtx.tx.getHash wtx = w.insertTx heap wtx.tx.getHash wtx := by
    rw [setTx, hnew]
  rw [hset, addLoaded]
  simp only [setTx_insertTx hnew, find?_insertTx hnew]
  rfl

/-! ### The scan -/

end OrderedWallet

namespace WalletScan

variable [Crypto] {heap : Allocator} {s : WalletScan}

/-- After the records of some transactions, all of them good. -/
structure Scanned (s : WalletScan) (seen : List TxRecord) : Prop where
  ordered : s.wallet.Ordered
  empty : s.wallet.laccentries = []
  txs : s.wallet.txs = storedTxs seen

omit [Crypto] in
theorem storedTxs_concat (seen : List TxRecord) (r : TxRecord) :
    storedTxs (seen ++ [r]) = (storedTxs seen).orderedInsert (fun a b => a.1 < b.1) (r.hash, r.value) := by
  rw [storedTxs, List.foldl_append]
  rfl

omit [Crypto] in
theorem storedTxs_perm (seen : List TxRecord) : (storedTxs seen).Perm (seen.map fun r => (r.hash, r.value)) := by
  induction seen using List.reverseRecOn with
  | nil => exact .refl _
  | append_singleton seen r ih =>
    rw [storedTxs_concat, List.map_append]
    exact (List.perm_orderedInsert _ _ _).trans ((ih.cons _).trans (List.perm_append_singleton _ _).symm)

/-- What has not been read is not in the wallet. -/
theorem Scanned.find? {seen : List TxRecord} (h : s.Scanned seen) {hash : Uint256}
    (hnew : hash ∉ seen.map TxRecord.hash) : s.wallet.find? hash = none := by
  rw [OrderedWallet.find?, List.find?_eq_none]
  intro n hn heq
  have hmem : (n.hash, n.wtx) ∈ s.wallet.txs := List.mem_map.2 ⟨n, hn, rfl⟩
  rw [h.txs] at hmem
  obtain ⟨r, hr, hpair⟩ := List.mem_map.1 ((storedTxs_perm seen).mem_iff.1 hmem)
  refine hnew (List.mem_map.2 ⟨r, hr, ?_⟩)
  rw [(Prod.mk.inj hpair).1]
  simpa using heq

theorem Scanned.congr {seen : List TxRecord} (h : s.Scanned seen) {s' : WalletScan}
    (hmap : s'.wallet.mapWallet = s.wallet.mapWallet) (hentries : s'.wallet.laccentries = s.wallet.laccentries)
    (hordered : s'.wallet.wtxOrdered = s.wallet.wtxOrdered) : s'.Scanned seen := by
  refine ⟨(h.ordered.tracks.congr hmap hentries hordered).ordered, hentries.trans h.empty, ?_⟩
  rw [OrderedWallet.txs, hmap]
  exact h.txs

/-- **A good record** of a new transaction is read and added. -/
theorem Scanned.readTx {seen : List TxRecord} (h : s.Scanned seen) {r : TxRecord} (hgood : r.good = true)
    (hnew : r.hash ∉ seen.map TxRecord.hash) : (readTx heap r s).1.Scanned (seen ++ [r]) := by
  have hhash : r.value.tx.getHash = r.hash := by
    simp only [TxRecord.good, Bool.and_eq_true, decide_eq_true_eq] at hgood
    exact hgood.1.2
  have hfind : s.wallet.find? r.value.tx.getHash = none := h.find? (hhash ▸ hnew)
  have hwallet : (PayDayCoin.readTx heap r s).1.wallet = (s.wallet.insertTx heap r.hash r.value).insertOrdered
      (r.value.nOrderPos, .tx (heap.alloc s.wallet.live)) := by
    rw [PayDayCoin.readTx]
    simp only [hgood, Bool.not_true, Bool.false_eq_true, if_false]
    have hadded := OrderedWallet.addLoaded_setTx heap hfind
    rw [hhash] at hadded
    split <;> exact hadded
  refine ⟨?_, ?_, ?_⟩
  · rw [hwallet]
    exact (h.ordered.tracks.insertTx hhash).insertOrdered.ordered
  · rw [hwallet]
    exact h.empty
  · rw [hwallet, storedTxs_concat, ← h.txs]
    exact List.map_orderedInsert _ _ _ _ _ (fun _ _ => Iff.rfl) fun _ _ => Iff.rfl

/-- One record. -/
theorem Scanned.scanRecord {seen : List TxRecord} (h : s.Scanned seen) (r : WalletRecord)
    (hgood : ∀ t ∈ r.tx?, t.good = true ∧ t.hash ∉ seen.map TxRecord.hash) :
    (scanRecord heap s r).Scanned (seen ++ r.tx?.toList) := by
  have hflags : ∀ (s' : WalletScan) (seen' : List TxRecord) (ok : Bool), s'.Scanned seen' →
      (if ok then s' else if r.isKeyType then { s' with corrupt := true }
        else { s' with fNoncriticalErrors := true } : WalletScan).Scanned seen' := by
    intro s' seen' ok hs'
    split
    · exact hs'
    · split
      · exact hs'.congr rfl rfl rfl
      · exact hs'.congr rfl rfl rfl
  refine hflags (readKeyValue heap s r).1 _ (readKeyValue heap s r).2 ?_
  cases r with
  | tx t =>
    obtain ⟨hgoodt, hnew⟩ := hgood t rfl
    exact h.readTx hgoodt hnew
  | acentry e =>
    have hnone : (WalletRecord.acentry e).tx?.toList = [] := rfl
    rw [hnone, List.append_nil, readKeyValue]
    split
    · exact h
    · split
      · exact h
      · exact h.congr rfl rfl rfl
  | orderposnext n => cases n <;> exact (List.append_nil seen).symm ▸ h.congr rfl rfl rfl
  | version n => cases n <;> exact (List.append_nil seen).symm ▸ h.congr rfl rfl rfl
  | ckey loaded => cases loaded <;> exact (List.append_nil seen).symm ▸ h.congr rfl rfl rfl
  | other isKeyType loaded => exact (List.append_nil seen).symm ▸ h

/-- All records. -/
theorem Scanned.scan {seen : List TxRecord} (h : s.Scanned seen) (db : List WalletRecord)
    (hgood : ∀ r ∈ db.filterMap WalletRecord.tx?, r.good = true)
    (hnodup : ((seen ++ db.filterMap WalletRecord.tx?).map TxRecord.hash).Nodup) :
    (db.foldl (PayDayCoin.scanRecord heap) s).Scanned (seen ++ db.filterMap WalletRecord.tx?) := by
  induction db generalizing s seen with
  | nil => exact (List.append_nil seen).symm ▸ h
  | cons r db ih =>
    have hsplit : (r :: db).filterMap WalletRecord.tx? = r.tx?.toList ++ db.filterMap WalletRecord.tx? := by
      rw [List.filterMap_cons]
      cases r.tx? <;> rfl
    rw [hsplit] at hgood hnodup ⊢
    rw [← List.append_assoc] at hnodup ⊢
    refine ih (h.scanRecord r fun t ht => ⟨hgood t ?_, fun hmem => ?_⟩) (fun t ht => hgood t ?_) hnodup
    · exact List.mem_append_left _ (Option.mem_toList.2 ht)
    · rw [List.map_append, List.map_append, Option.mem_def.1 ht] at hnodup
      exact (List.nodup_append.1 (List.nodup_append.1 hnodup).1).2.2 _ hmem _ (List.mem_singleton.2 rfl) rfl
    · exact List.mem_append_right _ ht

end WalletScan

/-! ### Reordering and loading -/

namespace Reordering

variable {env : WalletEnv} {s : Reordering}

end Reordering

namespace OrderedWallet

variable [Crypto] {w : OrderedWallet} {heap : Allocator}

/-- The accounting entries are added to a wallet that has none. -/
theorem Ordered.loadEntries (h : w.Ordered) (hempty : w.laccentries = []) {entries : List EntryRecord}
    {w' : OrderedWallet} (hload : loadEntries heap w entries = some w') : w'.Ordered := by
  obtain ⟨acentries, -, rfl⟩ := Option.map_eq_some_iff.1 hload
  have hpush : ∀ (l : List CAccountingEntry) (w : OrderedWallet), w.Tracks (w.laccentries.map EntryNode.item) →
      (l.foldl (OrderedWallet.pushEntry heap) w).Tracks
        ((l.foldl (OrderedWallet.pushEntry heap) w).laccentries.map EntryNode.item) := by
    intro l
    induction l with
    | nil => exact fun w hw => hw
    | cons entry l ih =>
      intro w hw
      refine ih _ ?_
      obtain ⟨hkeyed, hapart, hindexed⟩ := hw.pushEntry heap entry
      refine ⟨hkeyed, hapart, .trans (.append_right _ ?_) hindexed⟩
      rw [OrderedWallet.pushEntry, List.map_append]
      exact List.perm_append_singleton _ _
  have hinsert : ∀ (l : List EntryNode) (w : OrderedWallet), w.Tracks (l.map EntryNode.item) →
      (l.foldl (fun w n => w.insertOrdered n.item) w).Ordered := by
    intro l
    induction l with
    | nil => exact fun w hw => hw.ordered
    | cons n l ih => exact fun w hw => ih _ hw.insertOrdered
  exact hinsert _ _ (hpush acentries _ (h.tracks.congr rfl hempty.symm rfl))

/-- A new transaction goes to the end of the order. -/
theorem Ordered.addNew (h : w.Ordered) (env : AddEnv) (wtxIn : TimedTx) : (w.addNew env wtxIn).Ordered := by
  have hinsert : (w.insertTx env.heap wtxIn.tx.getHash
      { wtxIn with nTimeReceived := UInt32.ofInt env.adjustedTime, nOrderPos := w.nOrderPosNext }).Tracks
        [(w.nOrderPosNext, .tx (env.heap.alloc w.live))] := h.tracks.insertTx rfl
  have hnext : ({ w.insertTx env.heap wtxIn.tx.getHash
      { wtxIn with nTimeReceived := UInt32.ofInt env.adjustedTime, nOrderPos := w.nOrderPosNext } with
        nOrderPosNext := w.nOrderPosNext + 1 } : OrderedWallet).Tracks
          [(w.nOrderPosNext, .tx (env.heap.alloc w.live))] := hinsert.congr rfl rfl rfl
  rw [OrderedWallet.addNew]
  refine Tracks.ordered (Tracks.updateTx hnext.insertOrdered ?_)
  exact fun wtx => ⟨rfl, rfl⟩

omit [Crypto] in
/-- A merge keeps the transaction and its position. -/
theorem merge_order (wtx wtxIn : CWalletTx) :
    (wtx.merge wtxIn).tx = wtx.tx ∧ (wtx.merge wtxIn).nOrderPos = wtx.nOrderPos := by
  unfold CWalletTx.merge CWalletTx.updateSpent
  simp only
  split <;> split <;> exact ⟨rfl, rfl⟩

/-- Each event keeps the index, if it erases no transaction. -/
theorem Ordered.step (h : w.Ordered) (e : WalletEvent) (hlasting : w.Lasting e) : (w.step e).Ordered := by
  cases e with
  | addToWallet env wtxIn =>
    rw [OrderedWallet.step, addToWallet]
    cases w.find? wtxIn.tx.getHash with
    | none => exact h.addNew env wtxIn
    | some n => exact (h.tracks.updateTx fun wtx => merge_order wtx.toCWalletTx wtxIn.toCWalletTx).ordered
  | addAccountingEntry heap acentry written =>
    rw [OrderedWallet.step, addAccountingEntry]
    split
    · exact h
    · have hlast : (w.pushEntry heap acentry).laccentries.getLast? = some ⟨heap.alloc w.live, acentry⟩ :=
        List.getLast?_concat
      simp only [hlast]
      exact (h.tracks.pushEntry heap acentry).insertOrdered.ordered
  | eraseFromWallet hash =>
    rw [OrderedWallet.step, eraseFromWallet]
    split
    · exact h
    · rename_i hbacked
      have hall : w.mapWallet.filter (fun n => n.hash ≠ hash) = w.mapWallet :=
        List.filter_eq_self.2 fun n hn => decide_eq_true (hlasting (by simpa using hbacked) n hn)
      rw [hall]
      exact h

end OrderedWallet

namespace OrderSample

open SpendSample

/-- A new address is above all that are in use. -/
def heap : Allocator where
  alloc live := live.sum + 1
  alloc_fresh _ h := Nat.not_succ_le_self _ (List.le_sum_of_mem h)

def env : WalletEnv := { heap }

/-- A transaction with a position. -/
def timed (nTime : UInt32) (nOrderPos : ℤ) : TimedTx where
  tx := { nTime, vin := [⟨⟨100, 0⟩, [], 0xffffffff⟩], vout := [⟨COIN, [0x51]⟩] }
  nTimeReceived := nTime
  nOrderPos := nOrderPos

/-- Its record. -/
def record (nTime : UInt32) (nOrderPos : ℤ) : WalletRecord :=
  .tx { hash := BitVec.ofNat 256 nTime.toNat, value := timed nTime nOrderPos }

/-- What is loaded. -/
def loaded (db : List WalletRecord) : OrderedWallet := ((loadWallet env db).map Prod.snd).getD {}

/-- An accounting entry with a position, and its record. -/
def entry : CAccountingEntry := { strAccount := "", nTime := 3, nOrderPos := 1, nEntryNo := 1 }

end OrderSample

end PayDayCoin
