import PayDayCoin.Library.WriteBatch

/-!
# Reading inside a batch

`CTxDB` is a LevelDB store of byte strings and, between `TxnBegin` and `TxnCommit` or
`TxnAbort`, the batch of the writes and erases issued since. `Read` and `Exists` look
for the key in the batch first (`ScanBatch`) and then in the store. LevelDB itself is
taken as documented: a store is a partial map, and a batch is carried out and iterated
over in the order of its operations.

**`scanBatch_eq`**: the scanner finds the last operation on the key. So `Read` answers
as the store will once the batch is committed (**`read_txnCommit`**), which is what
lets a batch under way be treated as a store of its own. `Exists` also scans, but asks
the store about a key that the batch has deleted, so it sees the batch's puts over the
store and none of its deletions (**`exists_eq`**). **`answers_iff`**: the two accessors
answer as after the commit, and an abort brings back the answers from before the batch,
exactly if the batch did not erase the key last or the store does not have it.
-/

namespace PayDayCoin

open Library Library.WriteBatch

/-- What can be written to and read from a `CDataStream`. -/
class Serializable (T : Type) where
  /-- `ssValue << value`. -/
  serialize : T → List UInt8
  /-- `ssValue >> value`, which may throw. -/
  unserialize : List UInt8 → Option T

/-- The database: the store, and the batch when a transaction is open. -/
structure CTxDB where
  /-- The LevelDB store. -/
  pdb : List UInt8 → Option (List UInt8)
  /-- The operations pending. -/
  activeBatch : Option (List (Op (List UInt8) (List UInt8))) := none
  fReadOnly : Bool := false

/-- The handler that looks for one key in a batch. -/
structure CBatchScanner where
  needle : List UInt8
  deleted : Bool := false
  foundValue : List UInt8 := []
  foundEntry : Bool := false

/-- `CBatchScanner::Put` and `CBatchScanner::Delete`. -/
def CBatchScanner.handle (scanner : CBatchScanner) : Op (List UInt8) (List UInt8) → CBatchScanner
  | .put key value =>
    if key = scanner.needle then { scanner with foundEntry := true, deleted := false, foundValue := value } else scanner
  | .delete key => if key = scanner.needle then { scanner with foundEntry := true, deleted := true } else scanner

namespace CTxDB

/-- `CTxDB::ScanBatch`: the scanner after the iteration. -/
def scanBatch (batch : List (Op (List UInt8) (List UInt8))) (key : List UInt8) : CBatchScanner :=
  batch.foldl CBatchScanner.handle { needle := key }

variable {K T : Type} [Serializable K] [Serializable T]

/-- `CTxDB::Read`: the value, when the call succeeds. -/
def Read (db : CTxDB) (key : K) : Option T :=
  let ssKey := Serializable.serialize key
  match db.activeBatch with
  | none => (db.pdb ssKey).bind Serializable.unserialize
  | some batch =>
    let scanner := scanBatch batch ssKey
    if scanner.deleted then none
    else if scanner.foundEntry then Serializable.unserialize scanner.foundValue
    else (db.pdb ssKey).bind Serializable.unserialize

/-- `CTxDB::Exists`. -/
def Exists (db : CTxDB) (key : K) : Bool :=
  let ssKey := Serializable.serialize key
  match db.activeBatch with
  | none => (db.pdb ssKey).isSome
  | some batch =>
    let scanner := scanBatch batch ssKey
    if scanner.foundEntry && !scanner.deleted then true else (db.pdb ssKey).isSome

/-- What `Write` and `Erase` do with their operation: into the batch when there is one,
into the store otherwise. Both assert that the database is not read-only. -/
def issue (db : CTxDB) (op : Op (List UInt8) (List UInt8)) : Option CTxDB :=
  if db.fReadOnly then none
  else match db.activeBatch with
    | some batch => some { db with activeBatch := some (batch ++ [op]) }
    | none => some { db with pdb := op.apply db.pdb }

/-- `CTxDB::Write`. -/
def Write (db : CTxDB) (key : K) (value : T) : Option CTxDB :=
  db.issue (.put (Serializable.serialize key) (Serializable.serialize value))

/-- `CTxDB::Erase`. -/
def Erase (db : CTxDB) (key : K) : Option CTxDB := db.issue (.delete (Serializable.serialize key))

/-- `CTxDB::TxnBegin`, which asserts that no transaction is open. -/
def TxnBegin (db : CTxDB) : Option CTxDB :=
  match db.activeBatch with
  | some _ => none
  | none => some { db with activeBatch := some [] }

/-- `CTxDB::TxnCommit`, which asserts that a transaction is open. -/
def TxnCommit (db : CTxDB) : Option CTxDB :=
  db.activeBatch.map fun batch => { db with pdb := commit batch db.pdb, activeBatch := none }

/-- `CTxDB::TxnAbort`. -/
def TxnAbort (db : CTxDB) : CTxDB := { db with activeBatch := none }

/-- Operations issued one after the other. -/
def issueAll (ops : List (Op (List UInt8) (List UInt8))) (db : CTxDB) : Option CTxDB := ops.foldlM issue db

/-! ### A transaction under way -/

theorem issueAll_of_batch {ops : List (Op (List UInt8) (List UInt8))} {db t : CTxDB}
    {batch : List (Op (List UInt8) (List UInt8))} (hbatch : db.activeBatch = some batch)
    (h : issueAll ops db = some t) : t = { db with activeBatch := some (batch ++ ops) } := by
  induction ops generalizing db batch with
  | nil =>
    obtain rfl := Option.some.inj h
    rw [List.append_nil, ← hbatch]
  | cons op ops ih =>
    rw [issueAll, List.foldlM_cons] at h
    obtain ⟨db', hissue, hrest⟩ := Option.bind_eq_some_iff.1 h
    unfold issue at hissue
    split at hissue
    · simp at hissue
    · rw [hbatch] at hissue
      obtain rfl := Option.some.inj hissue
      have hrun := ih rfl hrest
      simpa using hrun

/-- A transaction that has issued operations: the store is untouched, and the batch
holds the operations. -/
theorem issueAll_txnBegin {ops : List (Op (List UInt8) (List UInt8))} {db t : CTxDB}
    (h : db.TxnBegin.bind (issueAll ops) = some t) :
    db.activeBatch = none ∧ t = { db with activeBatch := some ops } := by
  obtain ⟨begun, hbegin, hops⟩ := Option.bind_eq_some_iff.1 h
  unfold TxnBegin at hbegin
  split at hbegin
  · simp at hbegin
  · next hnone =>
    obtain rfl := Option.some.inj hbegin
    exact ⟨hnone, by simpa using issueAll_of_batch rfl hops⟩

/-! ### The scanner -/

/-- The scanner's verdict on one key, given the last operation on it. -/
theorem scanBatch_eq (batch : List (Op (List UInt8) (List UInt8))) (key : List UInt8) :
    (scanBatch batch key).needle = key ∧ (scanBatch batch key).foundEntry = (last batch key).isSome ∧
      (scanBatch batch key).deleted = decide (last batch key = some (.delete key)) ∧
      ∀ value, last batch key = some (.put key value) → (scanBatch batch key).foundValue = value := by
  induction batch using List.reverseRecOn with
  | nil => exact ⟨rfl, rfl, rfl, fun value h => by cases h⟩
  | append_singleton batch op ih =>
    obtain ⟨hneedle, hfound, hdeleted, hvalue⟩ := ih
    have hstep : scanBatch (batch ++ [op]) key = (scanBatch batch key).handle op := by simp [scanBatch]
    rw [hstep, last_append]
    cases op with
    | put k v =>
      by_cases hkey : k = key
      · simp [CBatchScanner.handle, hneedle, Op.key, hkey]
      · simpa [CBatchScanner.handle, hneedle, Op.key, hkey] using ⟨hfound, hdeleted, hvalue⟩
    | delete k =>
      by_cases hkey : k = key
      · simp [CBatchScanner.handle, hneedle, Op.key, hkey]
      · simpa [CBatchScanner.handle, hneedle, Op.key, hkey] using ⟨hfound, hdeleted, hvalue⟩

/-! ### What the accessors answer -/

section Answers

variable {db t committed : CTxDB} {batch : List (Op (List UInt8) (List UInt8))} (key : K)

/-- A closed database answers from its store. -/
theorem read_closed (h : db.activeBatch = none) :
    (db.Read key : Option T) = (db.pdb (Serializable.serialize key)).bind Serializable.unserialize := by
  rw [Read, h]

theorem exists_closed (h : db.activeBatch = none) : db.Exists key = (db.pdb (Serializable.serialize key)).isSome := by
  rw [Exists, h]

/-- **`Read` answers as the store will** once the batch is committed. -/
theorem read_txnCommit (h : t.TxnCommit = some committed) : (t.Read key : Option T) = committed.Read key := by
  obtain ⟨batch, hbatch, rfl⟩ := Option.map_eq_some_iff.1 h
  have hclosed : ({ t with pdb := commit batch t.pdb, activeBatch := none } : CTxDB).activeBatch = none := rfl
  rw [read_closed key hclosed, Read, hbatch]
  simp only [commit_apply]
  obtain ⟨-, hfound, hdeleted, hvalue⟩ := scanBatch_eq batch (Serializable.serialize key)
  cases hlast : last batch (Serializable.serialize key) with
  | none => simp [hfound, hdeleted, hlast]
  | some op =>
    have hkey := key_of_last hlast
    cases op with
    | put k v =>
      obtain rfl : k = Serializable.serialize key := hkey
      simp [hfound, hdeleted, hlast, hvalue v hlast, Op.value]
    | delete k =>
      obtain rfl : k = Serializable.serialize key := hkey
      simp [hdeleted, hlast, Op.value]

/-- `Exists` sees what the batch has put over the store, and nothing of its erases. -/
theorem exists_eq (hbatch : t.activeBatch = some batch) :
    t.Exists key = (Overlay.overlay (puts batch) t.pdb (Serializable.serialize key)).isSome := by
  rw [Exists, hbatch]
  obtain ⟨-, hfound, hdeleted, -⟩ := scanBatch_eq batch (Serializable.serialize key)
  cases hlast : last batch (Serializable.serialize key) with
  | none => simp [hfound, hlast, Overlay.overlay, puts]
  | some op =>
    have hkey := key_of_last hlast
    cases op with
    | put k v => simp [hfound, hdeleted, hlast, Overlay.overlay, puts, Op.value]
    | delete k =>
      obtain rfl : k = Serializable.serialize key := hkey
      simp [hdeleted, hlast, Overlay.overlay, puts, Op.value]

/-- Inside the transaction `t` of `db`, the accessors answer about a key as they do
after the commit; after an abort they answer about every key as before the
transaction. -/
def AnswersAsCommitted (T : Type) [Serializable T] (db t committed : CTxDB) (key : K) : Prop :=
  (t.Read key : Option T) = committed.Read key ∧ t.Exists key = committed.Exists key ∧
    ∀ other : K, (t.TxnAbort.Read other : Option T) = db.Read other ∧ t.TxnAbort.Exists other = db.Exists other

/-- **When the accessors answer as after the commit**: when the key is not one that the
batch has erased last and the store has. -/
theorem answers_iff {ops : List (Op (List UInt8) (List UInt8))} (hops : db.TxnBegin.bind (issueAll ops) = some t)
    (hcommit : t.TxnCommit = some committed) (key : K) : AnswersAsCommitted T db t committed key ↔
      ¬(last ops (Serializable.serialize key) = some (.delete (Serializable.serialize key)) ∧
        (db.pdb (Serializable.serialize key)).isSome) := by
  obtain ⟨hnone, rfl⟩ := issueAll_txnBegin hops
  have hread : (CTxDB.Read _ key : Option T) = _ := read_txnCommit key hcommit
  have hrestored : ({ db with activeBatch := some ops } : CTxDB).TxnAbort = db := by
    rw [TxnAbort, ← hnone]
  have hexists : (({ db with activeBatch := some ops } : CTxDB).Exists key = committed.Exists key) ↔
      ¬(last ops (Serializable.serialize key) = some (.delete (Serializable.serialize key)) ∧
        (db.pdb (Serializable.serialize key)).isSome) := by
    obtain rfl := Option.some.inj hcommit
    rw [exists_eq key rfl, exists_closed key rfl, ← overlay_puts_iff]
  constructor
  · rintro ⟨-, hsame, -⟩
    exact hexists.1 hsame
  · intro hlast
    refine ⟨hread, hexists.2 hlast, fun other => ?_⟩
    rw [hrestored]
    exact ⟨rfl, rfl⟩

end Answers

/-! ### An erased key -/

namespace Sample

/-- An `unsigned char` is its byte. -/
instance : Serializable UInt8 := ⟨fun b => [b], List.head?⟩

/-- A store with one record. -/
def db : CTxDB := { pdb := fun k => if k = [1] then some [7] else none }

/-- A batch that rewrites a record and adds another. -/
def rewrites : List (Op (List UInt8) (List UInt8)) := [.delete [1], .put [1] [9], .put [2] [5]]

/-- The record rewritten is there, with its new value. -/
theorem rewritten_answers :
    AnswersAsCommitted UInt8 db { db with activeBatch := some rewrites } { db with pdb := commit rewrites db.pdb }
      (1 : UInt8) := by
  have hops : db.TxnBegin.bind (issueAll rewrites) = some { db with activeBatch := some rewrites } := rfl
  exact (answers_iff hops rfl 1).2 (by decide)

/-- The record that a batch has erased is said to be still there: not so after the commit. -/
theorem erased_exists :
    ¬AnswersAsCommitted UInt8 db { db with activeBatch := some [.delete [1]] } { db with pdb := commit [.delete [1]] db.pdb }
      (1 : UInt8) := by
  rintro ⟨-, hexists, -⟩
  revert hexists
  decide

end Sample

end CTxDB

end PayDayCoin
