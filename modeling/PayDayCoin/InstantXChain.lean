import PayDayCoin.ConnectBlock
import PayDayCoin.InstantX

/-!
# InstantX and the chain

A lock that is complete though its transaction was rejected should undo the blocks in
conflict with it: `txlreq` and `txlvote` then call `DisconnectBlock`, on an empty block and
with a pointer that nothing has set, and `DisconnectInputs` of the transaction. Both calls
can be reached, by a request for a transaction that is confirmed already and has its votes,
and both would free outputs that are spent. They work on a `CTxDB` opened with the mode
`"r"`, though, and on such a handle a write is an assertion that fails. So the chain stays as
it was, whatever is received (**`chain_kept`**): either the calls fail before they have
written, or the node stops (`reprocess_eq_none`).

The pointer may have any value: the access faults, or `pprev` is null, or it is taken for an
entry of the block index. A handle opened for writing writes at once, and the failures of
LevelDB itself are left out, as no handle here comes so far.
-/

namespace PayDayCoin

open Library.Runs Library.Checks

/-! ### Handles -/

/-- A `CTxDB` at the level of the records: the database, and whether it was opened for reading
only. -/
structure TxDBHandle where
  db : TxDB
  fReadOnly : Bool

/-- What the entry is whose `pprev` an unset pointer shows: none when the access faults, and
then perhaps a null pointer. -/
abbrev UnsetPointer := Option (Option CDiskBlockIndex)

namespace TxDBHandle

/-- `CTxDB::Write` and `CTxDB::Erase`: the node stops if the handle is read-only. -/
def write (f : TxDB → TxDB) (txdb : TxDBHandle) : Option TxDBHandle :=
  if txdb.fReadOnly then none else some { txdb with db := f txdb.db }

/-- `CTxDB::UpdateTxIndex`. -/
def updateTxIndex (hash : Uint256) (txindex : CTxIndex) : TxDBHandle → Option TxDBHandle :=
  write fun db => { db with txIndex := Function.update db.txIndex hash (some txindex) }

/-- `CTxDB::WriteBlockIndex`. -/
def writeBlockIndex (blockindex : CDiskBlockIndex) : TxDBHandle → Option TxDBHandle := write (·.writeBlockIndex blockindex)

variable [Crypto]

/-- `CTxDB::EraseTxIndex`. -/
def eraseTxIndex (tx : CTransaction) : TxDBHandle → Option TxDBHandle :=
  write fun db => { db with txIndex := Function.update db.txIndex tx.getHash none }

variable (disk : DiskEnv)

/-- The loop of `DisconnectInputs`, over the inputs left: whether it comes to its end. -/
def disconnectLoop (tx : CTransaction) : List CTxIn → TxDBHandle → Option (Bool × TxDBHandle)
  | [], txdb => some (true, txdb)
  | txin :: vin, txdb =>
    match disk.readTxIndex txdb.db.txIndex tx.getHash txin.prevout with
    | none => some (false, txdb)
    | some txindex =>
      let n := txin.prevout.n.toNat
      if txindex.vSpent.length ≤ n then some (false, txdb)
      else do
        let txindex := { txindex with vSpent := txindex.vSpent.set n CDiskTxPos.null }
        disconnectLoop tx vin (← txdb.updateTxIndex txin.prevout.hash txindex)

/-- `CTransaction::DisconnectInputs`, on a handle. -/
def disconnectInputs (tx : CTransaction) (txdb : TxDBHandle) : Option (Bool × TxDBHandle) := do
  let (ok, txdb) ← disconnectLoop disk tx (if tx.isCoinBase then [] else tx.vin) txdb
  if ok then return (true, ← txdb.eraseTxIndex tx) else return (false, txdb)

/-- The loop of `DisconnectBlock`, over the transactions left. -/
def disconnectTxs : List CTransaction → TxDBHandle → Option (Bool × TxDBHandle)
  | [], txdb => some (true, txdb)
  | tx :: vtx, txdb => do
    let (ok, txdb) ← txdb.disconnectInputs disk tx
    if ok then disconnectTxs vtx txdb else return (false, txdb)

/-- `CBlock::DisconnectBlock`, on a handle and with a pointer that is not set. -/
def disconnectBlock (b : CBlock) (pindex : UnsetPointer) (txdb : TxDBHandle) : Option (Bool × TxDBHandle) := do
  let (ok, txdb) ← disconnectTxs disk b.vtx.reverse txdb
  if ok then
    match ← pindex with
    | none => return (true, txdb)
    | some blockindexPrev => return (true, ← txdb.writeBlockIndex { blockindexPrev with hashNext := 0 })
  else return (false, txdb)

/-! ### A handle opened for writing -/

variable {disk} {tx : CTransaction} {vin : List CTxIn} {T T' : TxMap} {db : TxDB}

theorem disconnectLoop_of_foldlM (h : vin.foldlM (CTransaction.unspendInput disk tx) T = .ok T') :
    disconnectLoop disk tx vin ⟨{ db with txIndex := T }, false⟩ = some (true, ⟨{ db with txIndex := T' }, false⟩) := by
  induction vin generalizing T with
  | nil =>
    cases h
    rfl
  | cons txin vin ih =>
    simp only [List.foldlM_cons, CTransaction.unspendInput] at h
    rw [disconnectLoop]
    cases hread : disk.readTxIndex T tx.getHash txin.prevout with
    | none => simp [hread, orReject, bind, Except.bind] at h
    | some txindex =>
      by_cases hn : txindex.vSpent.length ≤ txin.prevout.n.toNat
      · simp [hread, orReject, rejectIf, hn, bind, Except.bind] at h
      · simp only [hread, orReject, rejectIf, hn, bind, Except.bind, pure, Except.pure] at h
        simp only [if_neg hn]
        exact ih h

/-- On a handle opened for writing the call is the one that the chain uses. -/
theorem disconnectInputs_of_writable (h : CTransaction.disconnectInputs disk T tx = .ok T') :
    disconnectInputs disk tx ⟨{ db with txIndex := T }, false⟩ = some (true, ⟨{ db with txIndex := T' }, false⟩) := by
  rw [CTransaction.disconnectInputs] at h
  cases hloop : (if tx.isCoinBase then [] else tx.vin).foldlM (CTransaction.unspendInput disk tx) T with
  | error e =>
    rw [hloop] at h
    cases h
  | ok T₁ =>
    rw [hloop] at h
    cases h
    simp [disconnectInputs, disconnectLoop_of_foldlM hloop, eraseTxIndex, write]

/-! ### A handle opened for reading -/

variable {txdb txdb' : TxDBHandle} {ok : Bool}

omit [Crypto] in
theorem write_readOnly (h : txdb.fReadOnly = true) (f : TxDB → TxDB) : txdb.write f = none := if_pos h

theorem disconnectLoop_readOnly (h : txdb.fReadOnly = true)
    (hres : disconnectLoop disk tx vin txdb = some (ok, txdb')) : txdb' = txdb ∧ (ok = true → vin = []) := by
  cases vin with
  | nil =>
    cases hres
    exact ⟨rfl, fun _ => rfl⟩
  | cons txin vin =>
    rw [disconnectLoop] at hres
    cases hread : disk.readTxIndex txdb.db.txIndex tx.getHash txin.prevout with
    | none =>
      simp only [hread, Option.some.injEq, Prod.mk.injEq] at hres
      exact ⟨hres.2.symm, fun hok => by simp [← hres.1] at hok⟩
    | some txindex =>
      simp only [hread, updateTxIndex, write_readOnly h] at hres
      split at hres
      · cases hres
        exact ⟨rfl, fun hok => by cases hok⟩
      · cases hres

/-- The inputs of a transaction are never disconnected on a read-only handle. -/
theorem disconnectInputs_readOnly (h : txdb.fReadOnly = true)
    (hres : disconnectInputs disk tx txdb = some (ok, txdb')) : txdb' = txdb ∧ ok = false := by
  simp only [disconnectInputs, Option.bind_eq_bind, Option.bind_eq_some_iff, Prod.exists] at hres
  obtain ⟨done, txdb₁, hloop, hres⟩ := hres
  obtain ⟨rfl, -⟩ := disconnectLoop_readOnly h hloop
  cases done with
  | false =>
    cases hres
    exact ⟨rfl, rfl⟩
  | true => simp [eraseTxIndex, write_readOnly h] at hres

theorem disconnectTxs_readOnly (h : txdb.fReadOnly = true) {vtx : List CTransaction}
    (hres : disconnectTxs disk vtx txdb = some (ok, txdb')) : txdb' = txdb := by
  cases vtx with
  | nil =>
    cases hres
    rfl
  | cons tx vtx =>
    simp only [disconnectTxs, Option.bind_eq_bind, Option.bind_eq_some_iff, Prod.exists] at hres
    obtain ⟨done, txdb₁, hinputs, hres⟩ := hres
    obtain ⟨rfl, rfl⟩ := disconnectInputs_readOnly h hinputs
    cases hres
    rfl

/-- Nor is a block. -/
theorem disconnectBlock_readOnly (h : txdb.fReadOnly = true) {b : CBlock} {pindex : UnsetPointer}
    (hres : disconnectBlock disk b pindex txdb = some (ok, txdb')) : txdb' = txdb := by
  simp only [disconnectBlock, Option.bind_eq_bind, Option.bind_eq_some_iff, Prod.exists] at hres
  obtain ⟨done, txdb₁, htxs, hres⟩ := hres
  obtain rfl := disconnectTxs_readOnly h htxs
  cases done with
  | false =>
    cases hres
    rfl
  | true =>
    simp only [if_true, Option.bind_eq_some_iff] at hres
    obtain ⟨pprev, -, hres⟩ := hres
    cases pprev with
    | none =>
      cases hres
      rfl
    | some blockindexPrev => simp [writeBlockIndex, write_readOnly h] at hres

end TxDBHandle

/-! ### Where the calls stand -/

section Calls

variable [Crypto] (params : CChainParams) (env : InstantXEnv)

/-- The end of the reject path of `txlreq`: whether the transaction has a complete lock, not
in conflict with another. -/
def requestDisconnects (tx : CTransaction) (locks : TxLocks) : Bool :=
  let locks := { locks with mapTxLockReqRejected := Function.update locks.mapTxLockReqRejected tx.getHash (some tx) }
  let locks := lockInputs tx.getHash tx.vin locks
  match locks.mapTxLocks.lookup tx.getHash with
  | none => false
  | some lock =>
    decide (INSTANTX_SIGNATURES_REQUIRED ≤ lock.countSignatures) && !(checkForConflictingLocks env tx locks).2

/-- The transaction that a `txlreq` disconnects. -/
def txlreqDisconnects (tx : CTransaction) (st : InstantX) : Option CTransaction :=
  if acceptsRequest env tx st.toTxLocks then
    let locks := (createNewLock env tx st.toTxLocks).1
    match acceptRequested params env tx locks with
    | .ok _ => none
    | .error e => if e.returned && requestDisconnects env tx locks then some tx else none
  else none

/-- The transaction that a `txlvote` disconnects: its lock is complete and in no conflict, and
it was rejected. -/
def txlvoteDisconnects (ctx : CConsensusVote) (st : InstantX) : Option CTransaction :=
  if acceptsVote env ctx st && validVote env ctx then
    let lock := ((st.mapTxLocks.lookup ctx.txHash).getD (newLock env ctx.txHash 0)).addSignature ctx
    let locks := { st.toTxLocks with mapTxLocks := st.mapTxLocks.insert ctx.txHash lock }
    if INSTANTX_SIGNATURES_REQUIRED ≤ lock.countSignatures then
      let (locks, tx) := requestOf env ctx.txHash locks
      let (locks, conflict) := checkForConflictingLocks env tx locks
      if !conflict && (locks.mapTxLockReqRejected lock.txHash).isSome then some tx else none
    else none
  else none

/-- The transaction that an event disconnects. -/
def InstantXEvent.disconnects (st : InstantX) : InstantXEvent → Option CTransaction
  | .txlreq env tx => txlreqDisconnects params env tx st
  | .txlvote env ctx => txlvoteDisconnects env ctx st
  | _ => none

/-- `CBlock block;`. -/
def emptyBlock : CBlock :=
  { hashPrevBlock := 0, hashMerkleRoot := 0, nTime := 0, nBits := 0, nNonce := 0, vtx := [] }

/-- The two calls, on a handle opened with `"r"`. What they return is not looked at. -/
def reprocess (disk : DiskEnv) (pindex : UnsetPointer) (tx : CTransaction) (db : TxDB) : Option TxDB := do
  let (_, txdb) ← TxDBHandle.disconnectBlock disk emptyBlock pindex ⟨db, true⟩
  let (_, txdb) ← txdb.disconnectInputs disk tx
  return txdb.db

end Calls

/-! ### The node -/

/-- The database and the best chain. -/
structure ChainRecords where
  db : TxDB
  best : BestChain

/-- The locks and the chain of a node. -/
structure InstantXNode where
  locks : InstantX
  chain : ChainRecords
  /-- An assertion failed, or an access faulted. -/
  stopped : Bool := false

/-- What happens to a node. -/
inductive InstantXNodeEvent where
  /-- Something happens to the locks; the pointer is what the calls would find. -/
  | locks (e : InstantXEvent) (pindex : UnsetPointer)
  /-- Blocks are connected or disconnected. -/
  | blocks (chain : ChainRecords)

/-- The event in a node with a chain. -/
def InstantXEvent.on (chain : ChainRecords) : InstantXEvent → InstantXEvent
  | .txlreq env tx => .txlreq { env with best := chain.best, txIndex := chain.db.txIndex } tx
  | .txlvote env ctx => .txlvote { env with best := chain.best, txIndex := chain.db.txIndex } ctx
  | .relay env tx => .relay { env with best := chain.best, txIndex := chain.db.txIndex } tx
  | .block b => .block b
  | .clean now => .clean now

/-- The readings of the disk that come with an event. -/
def InstantXEvent.disk : InstantXEvent → DiskEnv
  | .txlreq env _ => env.acceptEnv.disk
  | .txlvote env _ => env.acceptEnv.disk
  | .relay env _ => env.acceptEnv.disk
  | _ => ⟨fun _ _ => true, fun _ _ => none⟩

section Node

variable [Crypto] (params : CChainParams)

/-- The node after an event. -/
def InstantXNode.step (node : InstantXNode) : InstantXNodeEvent → InstantXNode
  | .blocks chain => if node.stopped then node else { node with chain := chain }
  | .locks e pindex =>
    if node.stopped then node
    else
      let e := e.on node.chain
      let node' := { node with locks := node.locks.step params e }
      match e.disconnects params node.locks with
      | none => node'
      | some tx =>
        match reprocess e.disk pindex tx node.chain.db with
        | none => { node' with stopped := true }
        | some db => { node' with chain := { node.chain with db := db } }

variable {params} {disk : DiskEnv} {pindex : UnsetPointer} {tx : CTransaction} {db db' : TxDB} {node : InstantXNode}

/-- What the calls leave, if they return. -/
theorem reprocess_eq_some (h : reprocess disk pindex tx db = some db') : db' = db := by
  simp only [reprocess, Option.bind_eq_bind, Option.bind_eq_some_iff, Prod.exists] at h
  obtain ⟨ok, txdb, hblock, ok', txdb', hinputs, hdb⟩ := h
  obtain rfl := TxDBHandle.disconnectBlock_readOnly rfl hblock
  obtain ⟨rfl, -⟩ := TxDBHandle.disconnectInputs_readOnly rfl hinputs
  cases hdb
  rfl

/-- The node stops if the first input of the transaction is in the index, as it is when the
transaction is confirmed. -/
theorem reprocess_eq_none {txin : CTxIn} {vin : List CTxIn} {txindex : CTxIndex} (hbase : tx.isCoinBase = false)
    (hvin : tx.vin = txin :: vin) (hread : disk.readTxIndex db.txIndex tx.getHash txin.prevout = some txindex)
    (hn : txin.prevout.n.toNat < txindex.vSpent.length) : reprocess disk pindex tx db = none := by
  cases h : reprocess disk pindex tx db with
  | none => rfl
  | some db' =>
    simp only [reprocess, Option.bind_eq_bind, Option.bind_eq_some_iff, Prod.exists] at h
    obtain ⟨ok, txdb, hblock, ok', txdb', hinputs, -⟩ := h
    obtain rfl := TxDBHandle.disconnectBlock_readOnly rfl hblock
    simp [TxDBHandle.disconnectInputs, TxDBHandle.disconnectLoop, hbase, hvin, hread, Nat.not_le.2 hn,
      TxDBHandle.updateTxIndex, TxDBHandle.write] at hinputs

theorem InstantXNode.step_locks_chain (e : InstantXEvent) (pindex : UnsetPointer) :
    (node.step params (.locks e pindex)).chain = node.chain := by
  rw [step]
  split
  · rfl
  · simp only
    cases (e.on node.chain).disconnects params node.locks with
    | none => rfl
    | some tx =>
      simp only
      cases hdb : reprocess (e.on node.chain).disk pindex tx node.chain.db with
      | none => rfl
      | some db => simp only [reprocess_eq_some hdb]

/-- **Only connecting or disconnecting blocks changes the chain**: in any run, no request, no
vote and no cleaning up changes a record of the database or the best chain. -/
theorem InstantXNode.chain_kept (params : CChainParams) (node : InstantXNode) (events : List InstantXNodeEvent) :
    Along (step params) (fun node e => (∀ chain, e ≠ .blocks chain) → (node.step params e).chain = node.chain)
      node events ∧
    ((∀ e ∈ events, ∀ chain, e ≠ .blocks chain) → (run (step params) node events).chain = node.chain) := by
  have hstep : ∀ (node : InstantXNode) (e : InstantXNodeEvent), (∀ chain, e ≠ .blocks chain) →
      (node.step params e).chain = node.chain := by
    intro node e he
    cases e with
    | locks e pindex => exact step_locks_chain e pindex
    | blocks chain => exact absurd rfl (he chain)
  refine ⟨along_iff_forall.2 fun n e _ => hstep _ e, fun hevents => ?_⟩
  exact run_induct (I := fun node' => node'.chain = node.chain)
    (fun e he node' hnode' => (hstep node' e (hevents e he)).trans hnode') rfl

end Node

end PayDayCoin
