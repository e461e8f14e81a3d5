import PayDayCoin.Block
import PayDayCoin.Library.Overlay

/-!
# The transaction database

The records the chain keeps in LevelDB: the index of transactions, the block index and
the hash of the best chain. A `CTxDB` works inside a batch between `TxnBegin` and
`TxnCommit`, and reads its own pending writes, so a batch under way is a `TxDB` value
of its own; a commit makes it the stored one, an abort forgets it. Writing to a batch
cannot fail; reading can, and so can opening a block file (`DiskEnv`), and so can the
commit.

`TxDB.connected` is bookkeeping of the model: the blocks whose `ConnectBlock` is
reflected in the records, youngest first.
-/

namespace PayDayCoin

/-- The index of transactions, by hash. -/
abbrev TxMap := Uint256 → Option CTxIndex

/-- A block's record in the database: its entry as it was in memory when it was
written, with the pointers replaced by hashes. -/
structure CDiskBlockIndex where
  entry : CBlockIndex
  nHeight : ℕ
  nMint : ℤ
  nMoneySupply : ℤ
  hashPrev : Uint256
  hashNext : Uint256

/-- The records of the database. -/
structure TxDB where
  /-- The index of transactions. -/
  txIndex : TxMap
  /-- The block index. -/
  blockIndex : Uint256 → Option CDiskBlockIndex
  /-- `hashBestChain`. -/
  hashBestChain : Option Uint256
  /-- The blocks that `ConnectBlock` has connected and `DisconnectBlock` has not
  disconnected since, youngest first. -/
  connected : List Uint256

namespace TxDB

/-- `CTxDB::WriteBlockIndex`. -/
def writeBlockIndex (db : TxDB) (record : CDiskBlockIndex) : TxDB :=
  { db with blockIndex := Function.update db.blockIndex record.entry.hash (some record) }

/-- `CTxDB::WriteHashBestChain`. -/
def writeHashBestChain (db : TxDB) (hash : Uint256) : TxDB := { db with hashBestChain := some hash }

@[simp] theorem writeBlockIndex_txIndex (db : TxDB) (r : CDiskBlockIndex) : (db.writeBlockIndex r).txIndex = db.txIndex := rfl
@[simp] theorem writeBlockIndex_connected (db : TxDB) (r : CDiskBlockIndex) :
    (db.writeBlockIndex r).connected = db.connected := rfl
@[simp] theorem writeBlockIndex_hashBestChain (db : TxDB) (r : CDiskBlockIndex) :
    (db.writeBlockIndex r).hashBestChain = db.hashBestChain := rfl
@[simp] theorem writeHashBestChain_txIndex (db : TxDB) (h : Uint256) :
    (db.writeHashBestChain h).txIndex = db.txIndex := rfl
@[simp] theorem writeHashBestChain_connected (db : TxDB) (h : Uint256) :
    (db.writeHashBestChain h).connected = db.connected := rfl
@[simp] theorem writeHashBestChain_hashBestChain (db : TxDB) (h : Uint256) :
    (db.writeHashBestChain h).hashBestChain = some h := rfl

end TxDB

/-- What reading the database and the block files yields during one call, on behalf of
the transaction with the given hash. -/
structure DiskEnv where
  /-- Whether the record of the outpoint's transaction can be read. -/
  readTxIndexOk : Uint256 → COutPoint → Bool
  /-- `CTransaction::ReadFromDisk`: the transaction read at a position. -/
  readTx : Uint256 → CDiskTxPos → Option CTransaction

/-- `CTxDB::ReadTxIndex`, on behalf of the transaction `hashTx`. -/
def DiskEnv.readTxIndex (disk : DiskEnv) (T : TxMap) (hashTx : Uint256) (prevout : COutPoint) : Option CTxIndex :=
  if disk.readTxIndexOk hashTx prevout then T prevout.hash else none

theorem DiskEnv.readTxIndex_eq_some {disk : DiskEnv} {T : TxMap} {hashTx : Uint256} {prevout : COutPoint}
    {txindex : CTxIndex} (h : disk.readTxIndex T hashTx prevout = some txindex) : T prevout.hash = some txindex := by
  unfold readTxIndex at h
  split at h
  · exact h
  · simp at h

end PayDayCoin
