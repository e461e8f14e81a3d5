import PayDayCoin.MemPool
import PayDayCoin.Library.Runs

/-!
# InstantX

The state machine of transaction locks. A `txlreq` asks for a lock on the inputs of a
transaction, masternodes vote by `txlvote`, and a lock with
`INSTANTX_SIGNATURES_REQUIRED` votes of its height is complete: its inputs are entered in
`mapLockedInputs`, which `AcceptToMemoryPool` and `CheckBlock` read. `CleanTransactionLocksList`
removes the locks that have expired.

What a step reads of the rest of the node (the clock, the chain, the memory pool, the
masternode list) comes with the event, as an `InstantXEnv`. A complete lock whose
transaction was rejected makes the source disconnect an empty block by way of an
uninitialised pointer; `PayDayCoin.InstantXChain` has that call. The relaying of messages
and the limit on its rate are left out.
-/

namespace PayDayCoin

/-- `INSTANTX_SIGNATURES_REQUIRED`. -/
def INSTANTX_SIGNATURES_REQUIRED : ℤ := 10

/-- `INSTANTX_SIGNATURES_TOTAL`. -/
def INSTANTX_SIGNATURES_TOTAL : ℤ := 15

/-! ### The data -/

/-- A masternode's vote for a lock. -/
structure CConsensusVote where
  vinMasternode : CTxIn
  txHash : Uint256
  nBlockHeight : ℤ
  vchMasterNodeSignature : List UInt8
deriving DecidableEq

/-- `CConsensusVote::GetHash`. -/
def CConsensusVote.getHash (ctx : CConsensusVote) : Uint256 :=
  ctx.vinMasternode.prevout.hash + BitVec.ofNat 256 ctx.vinMasternode.prevout.n.toNat + ctx.txHash

/-- A lock, or a candidate for one. -/
structure CTransactionLock where
  nBlockHeight : ℤ
  txHash : Uint256
  vecConsensusVotes : List CConsensusVote
  nExpiration : ℤ
  nTimeout : ℤ
deriving DecidableEq

/-- `CTransactionLock::CountSignatures`: the votes of the lock's height. -/
def CTransactionLock.countSignatures (lock : CTransactionLock) : ℤ :=
  if lock.nBlockHeight = 0 then -1
  else lock.vecConsensusVotes.countP fun ctx => ctx.nBlockHeight = lock.nBlockHeight

/-- `CTransactionLock::AddSignature`. -/
def CTransactionLock.addSignature (lock : CTransactionLock) (ctx : CConsensusVote) : CTransactionLock :=
  { lock with vecConsensusVotes := lock.vecConsensusVotes ++ [ctx] }

/-- The maps of `instantx.cpp`, but for the votes. -/
structure TxLocks where
  mapTxLockReq : Uint256 → Option CTransaction := fun _ => none
  mapTxLockReqRejected : Uint256 → Option CTransaction := fun _ => none
  mapTxLocks : AList fun _ : Uint256 => CTransactionLock := ∅
  mapLockedInputs : COutPoint → Option Uint256 := fun _ => none

/-- The maps of `instantx.cpp`. -/
structure InstantX extends TxLocks where
  mapTxLockVote : Uint256 → Option CConsensusVote := fun _ => none

/-- What a step reads of the rest of the node. -/
structure InstantXEnv where
  /-- Not `fLiteMode`, `SPORK_2_INSTANTX` is active, and the chain is synced. -/
  enabled : Bool
  /-- `GetTime()`. -/
  now : ℤ
  /-- `GetAdjustedTime()`. -/
  adjustedTime : ℤ
  /-- The best chain. -/
  best : BestChain
  /-- The records of `CTxDB`. -/
  txIndex : TxMap
  /-- The memory pool. -/
  mempool : CTxMemPool
  /-- What `AcceptToMemoryPool` reads besides, but for the locks. -/
  acceptEnv : MemPoolEnv
  /-- `GetSporkValue(SPORK_5_MAX_VALUE)`. -/
  maxValue : ℤ
  /-- `GetTransaction`. -/
  getTransaction : Uint256 → Option CTransaction
  /-- `GetInputAge`. -/
  getInputAge : CTxIn → ℤ
  /-- `GetMasternodeRank(vin, nBlockHeight, MIN_INSTANTX_PROTO_VERSION)`. -/
  getMasternodeRank : CTxIn → ℤ → ℤ
  /-- `mnodeman.Find`: the key that a masternode signs with. -/
  findMasternode : CTxIn → Option (List UInt8)
  /-- `VerifyMessage` of a vote's message, which is its transaction hash and height. -/
  verifyMessage : List UInt8 → List UInt8 → Uint256 → ℤ → Bool
  /-- `activeMasternode.vin`, when the node is a masternode. -/
  activeMasternode : Option CTxIn
  /-- `CConsensusVote::Sign`, of the transaction hash and the height. -/
  sign : Uint256 → ℤ → Option (List UInt8)

/-! ### Scripts -/

namespace CScript

def OP_RETURN : UInt8 := 0x6a
def OP_DUP : UInt8 := 0x76
def OP_EQUALVERIFY : UInt8 := 0x88

/-- The loop of `CScript::IsNormalPaymentScript`, over the rest `pc` of the script; `i`
counts the instructions and `fuel` bounds them. -/
def normalPaymentLoop : ℕ → ℕ → CScript → Bool
  | _, _, [] => true
  | 0, _, _ => true
  | fuel + 1, i, b :: pc =>
    let (op, pc) := getOp2 (b :: pc)
    let opcode := (op.map Prod.fst).getD OP_INVALIDOPCODE
    if i = 0 ∧ opcode ≠ OP_DUP then false
    else if i = 1 ∧ opcode ≠ OP_HASH160 then false
    else if i = 3 ∧ opcode ≠ OP_EQUALVERIFY then false
    else if i = 4 ∧ opcode ≠ OP_CHECKSIG then false
    else if i = 5 then false
    else normalPaymentLoop fuel (i + 1) pc

/-- `CScript::IsNormalPaymentScript`. -/
def isNormalPaymentScript (s : CScript) : Bool := s.length == 25 && normalPaymentLoop s.length 0 s

/-- `CScript::IsUnspendable`. -/
def isUnspendable (s : CScript) : Bool := s.head? == some OP_RETURN

end CScript

/-! ### Locks -/

section Locks

variable (env : InstantXEnv)

/-- The lock made for a transaction. -/
def newLock (txHash : Uint256) (nBlockHeight : ℤ) : CTransactionLock :=
  ⟨nBlockHeight, txHash, [], env.now + 20 * 60, env.now + 60 * 5⟩

/-- A lock expires now. -/
def expire (h : Uint256) (mapTxLocks : AList fun _ : Uint256 => CTransactionLock) :
    AList fun _ : Uint256 => CTransactionLock :=
  match mapTxLocks.lookup h with
  | none => mapTxLocks
  | some lock => mapTxLocks.insert h { lock with nExpiration := env.now }

/-- The inputs that are not locked are locked for the transaction `h`. -/
def lockInputs (h : Uint256) (vin : List CTxIn) (locks : TxLocks) : TxLocks :=
  { locks with
    mapLockedInputs := vin.foldl (fun m txin =>
      if (m txin.prevout).isSome then m else Function.update m txin.prevout (some h)) locks.mapLockedInputs }

variable [Crypto]

/-- `IsIXTXValid`. -/
def isIXTXValid (tx : CTransaction) : Bool :=
  let nValueOut := (tx.vout.map CTxOut.nValue).sum
  let nValueIn := (tx.vin.map fun txin =>
    match env.getTransaction txin.prevout.hash with
    | none => 0
    | some tx2 => ((tx2.vout[txin.prevout.n.toNat]?).map CTxOut.nValue).getD 0).sum
  let missingTx := tx.vin.any fun txin => (env.getTransaction txin.prevout.hash).isNone
  if tx.vout.length < 1 then false
  else if tx.nLockTime ≠ 0 then false
  else if env.maxValue * COIN < nValueOut then false
  else if missingTx then true
  else !(nValueIn - nValueOut < COIN / 100)

/-- `CreateNewLock`: the height, `0` when an input is too new. -/
def createNewLock (tx : CTransaction) (locks : TxLocks) : TxLocks × ℤ :=
  if tx.vin.any fun txin => env.getInputAge txin < 9 then (locks, 0)
  else
    -- the loop goes through the inputs backwards, so the age is that of the first
    let nTxAge := (tx.vin.head?.map env.getInputAge).getD 0
    let nBlockHeight := env.best.pindexBest.nHeight - nTxAge + 4
    let lock :=
      match locks.mapTxLocks.lookup tx.getHash with
      | none => newLock env tx.getHash nBlockHeight
      | some lock => { lock with nBlockHeight := nBlockHeight }
    ({ locks with mapTxLocks := locks.mapTxLocks.insert tx.getHash lock }, nBlockHeight)

/-- The first lock that an input of a transaction is under, for another transaction. -/
def conflictingLock (tx : CTransaction) (locks : TxLocks) : Option Uint256 :=
  tx.vin.findSome? fun txin => (locks.mapLockedInputs txin.prevout).filter (· != tx.getHash)

/-- `CheckForConflictingLocks`: two locks in conflict both expire. -/
def checkForConflictingLocks (tx : CTransaction) (locks : TxLocks) : TxLocks × Bool :=
  match conflictingLock tx locks with
  | none => (locks, false)
  | some h => ({ locks with mapTxLocks := expire env h (expire env tx.getHash locks.mapTxLocks) }, true)

end Locks

/-! ### Votes -/

section Votes

variable (env : InstantXEnv)

/-- `CConsensusVote::SignatureValid`. -/
def CConsensusVote.signatureValid (ctx : CConsensusVote) : Bool :=
  match env.findMasternode ctx.vinMasternode with
  | none => false
  | some pubkey2 => env.verifyMessage pubkey2 ctx.vchMasterNodeSignature ctx.txHash ctx.nBlockHeight

/-- The validation of a vote, in `ProcessConsensusVote`: the masternode is known and ranks
high enough, and the signature is good. -/
def validVote (ctx : CConsensusVote) : Bool :=
  let n := env.getMasternodeRank ctx.vinMasternode ctx.nBlockHeight
  n != -1 && n ≤ INSTANTX_SIGNATURES_TOTAL && ctx.signatureValid env

/-- `mapTxLockReq[h]`: an empty transaction is entered when there is none. -/
def requestOf (h : Uint256) (locks : TxLocks) : TxLocks × CTransaction :=
  match locks.mapTxLockReq h with
  | some tx => (locks, tx)
  | none =>
    let tx : CTransaction := { nTime := UInt32.ofInt env.adjustedTime, vin := [], vout := [] }
    ({ locks with mapTxLockReq := Function.update locks.mapTxLockReq h (some tx) }, tx)

variable [Crypto]

/-- A lock that is complete takes its inputs, unless it is in conflict with another. -/
def completeLock (txHash : Uint256) (locks : TxLocks) : TxLocks :=
  let (locks, tx) := requestOf env txHash locks
  let (locks, conflict) := checkForConflictingLocks env tx locks
  if conflict then locks else lockInputs txHash tx.vin locks

/-- `ProcessConsensusVote`. -/
def processConsensusVote (ctx : CConsensusVote) (locks : TxLocks) : TxLocks :=
  if validVote env ctx then
    let lock := ((locks.mapTxLocks.lookup ctx.txHash).getD (newLock env ctx.txHash 0)).addSignature ctx
    let locks := { locks with mapTxLocks := locks.mapTxLocks.insert ctx.txHash lock }
    if INSTANTX_SIGNATURES_REQUIRED ≤ lock.countSignatures then completeLock env ctx.txHash locks else locks
  else locks

/-- The vote of the node itself for a transaction, in `DoConsensusVote`. -/
def ownVote (tx : CTransaction) (nBlockHeight : ℤ) : Option CConsensusVote := do
  let vin ← env.activeMasternode
  let n := env.getMasternodeRank vin nBlockHeight
  guard (n ≠ -1 ∧ n ≤ INSTANTX_SIGNATURES_TOTAL)
  let ctx : CConsensusVote := ⟨vin, tx.getHash, nBlockHeight, ← env.sign tx.getHash nBlockHeight⟩
  guard (ctx.signatureValid env)
  return ctx

/-- `DoConsensusVote`: the vote of the node itself is recorded. -/
def doConsensusVote (tx : CTransaction) (nBlockHeight : ℤ) (mapTxLockVote : Uint256 → Option CConsensusVote) :
    Uint256 → Option CConsensusVote :=
  match ownVote env tx nBlockHeight with
  | none => mapTxLockVote
  | some ctx => Function.update mapTxLockVote ctx.getHash (some ctx)

end Votes

/-! ### Messages -/

section Messages

/-- Whether a `txlvote` is new. -/
def acceptsVote (env : InstantXEnv) (ctx : CConsensusVote) (st : InstantX) : Bool :=
  env.enabled && (st.mapTxLockVote ctx.getHash).isNone

/-- A check returned `false`, and did not throw. -/
def Reject.returned : Reject → Bool
  | .throws _ => false
  | _ => true

variable [Crypto] (params : CChainParams) (env : InstantXEnv)

/-- Whether a `txlreq` is processed: the transaction has not been asked for before, is
valid for a lock, and pays to scripts that can be locked. -/
def acceptsRequest (tx : CTransaction) (locks : TxLocks) : Bool :=
  env.enabled && (locks.mapTxLockReq tx.getHash).isNone && (locks.mapTxLockReqRejected tx.getHash).isNone &&
    isIXTXValid env tx &&
    tx.vout.all fun txout => txout.scriptPubKey.isNormalPaymentScript || txout.scriptPubKey.isUnspendable

/-- The call of `AcceptToMemoryPool` for a `txlreq`. -/
def acceptRequested (tx : CTransaction) (locks : TxLocks) : Except Reject CTxMemPool :=
  tx.acceptToMemoryPool params { env.acceptEnv with mapLockedInputs := locks.mapLockedInputs } env.best env.txIndex
    env.mempool true false false

/-- The reject path of `txlreq`: the transaction is recorded as rejected and its inputs are
locked; a lock for it that is complete is compared with the others. -/
def rejectRequest (tx : CTransaction) (locks : TxLocks) : TxLocks :=
  let locks := { locks with mapTxLockReqRejected := Function.update locks.mapTxLockReqRejected tx.getHash (some tx) }
  let locks := lockInputs tx.getHash tx.vin locks
  match locks.mapTxLocks.lookup tx.getHash with
  | none => locks
  | some lock =>
    if INSTANTX_SIGNATURES_REQUIRED ≤ lock.countSignatures then (checkForConflictingLocks env tx locks).1 else locks

/-- `ProcessMessageInstantX` of a `txlreq`. -/
def txlreq (tx : CTransaction) (st : InstantX) : InstantX :=
  if acceptsRequest env tx st.toTxLocks then
    let (locks, nBlockHeight) := createNewLock env tx st.toTxLocks
    match acceptRequested params env tx locks with
    | .ok _ => { locks with
        mapTxLockReq := Function.update locks.mapTxLockReq tx.getHash (some tx)
        mapTxLockVote := doConsensusVote env tx nBlockHeight st.mapTxLockVote }
    | .error e =>
      { (if e.returned then rejectRequest env tx locks else locks) with mapTxLockVote := st.mapTxLockVote }
  else st

/-- `ProcessMessageInstantX` of a `txlvote`. -/
def txlvote (ctx : CConsensusVote) (st : InstantX) : InstantX :=
  if acceptsVote env ctx st then
    { processConsensusVote env ctx st.toTxLocks with
      mapTxLockVote := Function.update st.mapTxLockVote ctx.getHash (some ctx) }
  else st

/-- `RelayWalletTransaction` of a `txlreq` of the node's own wallet. -/
def relayRequest (tx : CTransaction) (st : InstantX) : InstantX :=
  let locks := { st.toTxLocks with
    mapTxLockReq := Function.update st.mapTxLockReq tx.getHash (some ((st.mapTxLockReq tx.getHash).getD tx)) }
  { (createNewLock env tx locks).1 with mapTxLockVote := st.mapTxLockVote }

end Messages

/-! ### Cleaning up -/

/-- A lock, with its key. -/
abbrev LockEntry := Sigma fun _ : Uint256 => CTransactionLock

/-- One turn of `CleanTransactionLocksList`, for the locks: one that has expired goes, and
with it its request and its inputs. -/
def TxLocks.cleanLock (now : ℤ) (it : LockEntry) (locks : TxLocks) : TxLocks :=
  if it.2.nExpiration < now then
    match locks.mapTxLockReq it.2.txHash with
    | none => { locks with mapTxLocks := locks.mapTxLocks.erase it.1 }
    | some tx => {
      mapTxLockReq := Function.update locks.mapTxLockReq it.2.txHash none
      mapTxLockReqRejected := Function.update locks.mapTxLockReqRejected it.2.txHash none
      mapTxLocks := locks.mapTxLocks.erase it.1
      mapLockedInputs := tx.vin.foldl (fun m txin => Function.update m txin.prevout none) locks.mapLockedInputs }
  else locks

/-- The votes that a turn of `CleanTransactionLocksList` erases: those of a lock that has
expired and that was asked for. -/
def TxLocks.votesToClean (now : ℤ) (it : LockEntry) (locks : TxLocks) : List CConsensusVote :=
  if it.2.nExpiration < now ∧ (locks.mapTxLockReq it.2.txHash).isSome then it.2.vecConsensusVotes else []

/-- Votes are erased. -/
def eraseVotes (votes : List CConsensusVote) (mapTxLockVote : Uint256 → Option CConsensusVote) :
    Uint256 → Option CConsensusVote :=
  votes.foldl (fun m ctx => Function.update m ctx.getHash none) mapTxLockVote

/-- One turn of `CleanTransactionLocksList`. -/
def InstantX.cleanLock (now : ℤ) (st : InstantX) (it : LockEntry) : InstantX :=
  { st.toTxLocks.cleanLock now it with
    mapTxLockVote := eraseVotes (st.toTxLocks.votesToClean now it) st.mapTxLockVote }

/-- `CleanTransactionLocksList`. -/
def cleanTransactionLocksList (now : ℤ) (st : InstantX) : InstantX :=
  st.mapTxLocks.entries.foldl (InstantX.cleanLock now) st

/-! ### Runs -/

/-- What happens to the locks. -/
inductive InstantXEvent where
  /-- A `txlreq` is received. -/
  | txlreq (env : InstantXEnv) (tx : CTransaction)
  /-- A `txlvote` is received. -/
  | txlvote (env : InstantXEnv) (ctx : CConsensusVote)
  /-- The wallet sends a `txlreq`. -/
  | relay (env : InstantXEnv) (tx : CTransaction)
  /-- A block is received: `CheckBlock` reads the locks and changes none. -/
  | block (b : CBlock)
  /-- `CleanTransactionLocksList`, at a time. -/
  | clean (now : ℤ)

/-- The state after an event. -/
def InstantX.step [Crypto] (params : CChainParams) (st : InstantX) : InstantXEvent → InstantX
  | .txlreq env tx => txlreq params env tx st
  | .txlvote env ctx => txlvote env ctx st
  | .relay env tx => relayRequest env tx st
  | .block _ => st
  | .clean now => cleanTransactionLocksList now st

/-- The state after a sequence of events. -/
def InstantX.run [Crypto] (params : CChainParams) (st : InstantX) (events : List InstantXEvent) : InstantX :=
  Library.Runs.run (InstantX.step params) st events

end PayDayCoin
