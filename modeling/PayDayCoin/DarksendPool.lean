import PayDayCoin.AcceptableInputs
import PayDayCoin.DarksendRounds
import PayDayCoin.InstantX

/-!
# A masternode that mixes

`CDarksendPool` of a masternode. Clients join a session with `dsa`, which takes a collateral;
when there are enough of them they submit their entries with `dsi`; `Check` makes the final
transaction of the entries and shuffles it; the clients sign their inputs with `dss`, and
when all are signed the transaction goes to the memory pool. What waits too long is dropped.
The steps are `MixingEvent`s.
-/

namespace PayDayCoin

/-! ### Entries -/

/-- An input that is submitted for mixing. `prevPubKey` is not sent; the client that submits
the input fills it in. -/
structure CTxDSIn extends CTxIn where
  prevPubKey : CScript := []
  fHasSig : Bool := false
deriving DecidableEq, Repr

/-- What a client submits. -/
structure CDarkSendEntry where
  sev : List CTxDSIn
  vout : List CTxOut
  amount : ℤ
  collateral : CTransaction
  addedTime : ℤ
deriving DecidableEq, Repr

def DARKSEND_QUEUE_TIMEOUT : ℤ := 30
def DARKSEND_SIGNING_TIMEOUT : ℤ := 15
def DARKSEND_POOL_MAX : ℤ := 999999000000

/-- `Params().PoolMaxTransactions()`. -/
def poolMaxTransactions : ℕ := 3

/-- `CDarksendPool::GetDenominations`: a bit for each denomination that is used, or 0 when
something else is. -/
def getDenominations (vout : List CTxOut) : ℕ :=
  if vout.all fun out => darkSendDenominations.any fun d => out.nValue == d then
    (darkSendDenominations.zipIdx.map fun (d, c) => if vout.any fun out => out.nValue == d then 2 ^ c else 0).sum
  else 0

/-- An input with its signature. -/
def CTxDSIn.withSig (vin : CTxIn) (s : CTxDSIn) : CTxDSIn :=
  { s with scriptSig := vin.scriptSig, prevPubKey := [], fHasSig := true }

/-- `CDarkSendEntry::AddSig`: the entry with the signature, when the first input that is the
one of the signature has none. -/
def CDarkSendEntry.addSig (e : CDarkSendEntry) (vin : CTxIn) : Option CDarkSendEntry :=
  match e.sev.findIdx? fun s => s.prevout == vin.prevout && s.nSequence == vin.nSequence with
  | none => none
  | some i =>
    if (e.sev[i]?.map CTxDSIn.fHasSig).getD true then none
    else some { e with sev := e.sev.modify i (CTxDSIn.withSig vin) }

/-- `CDarkSendEntry::IsExpired`. -/
def CDarkSendEntry.isExpired (e : CDarkSendEntry) (time : ℤ) : Bool := DARKSEND_QUEUE_TIMEOUT < time - e.addedTime

/-! ### The pool -/

/-- `CDarksendPool::state`. -/
inductive PoolStatus where
  | POOL_STATUS_IDLE
  | POOL_STATUS_QUEUE
  | POOL_STATUS_ACCEPTING_ENTRIES
  | POOL_STATUS_FINALIZE_TRANSACTION
  | POOL_STATUS_SIGNING
  | POOL_STATUS_TRANSMISSION
  | POOL_STATUS_ERROR
  | POOL_STATUS_SUCCESS
deriving DecidableEq, Repr

/-- `CDarksendPool`, of a masternode. -/
structure CDarksendPool where
  state : PoolStatus := .POOL_STATUS_IDLE
  lastTimeChanged : ℤ := 0
  sessionID : ℤ := 0
  sessionDenom : ℤ := 0
  sessionUsers : ℤ := 0
  vecSessionCollateral : List CTransaction := []
  entries : List CDarkSendEntry := []
  finalTransaction : CTransaction := { nTime := 0, vin := [], vout := [] }
deriving DecidableEq

/-- `VerifyScript(scriptSig, scriptPubKey, tx, nIn, flags)`. -/
abbrev VerifyScript := CScript → CScript → CTransaction → ℕ → Bool

/-- An order that `std::random_shuffle` puts a list in. -/
structure Shuffle (α : Type) where
  shuffle : List α → List α
  perm : ∀ l, (shuffle l).Perm l

/-- What a step of the pool reads. -/
structure PoolEnv where
  /-- `GetTime()`. -/
  time : ℤ
  /-- `GetTimeMillis()`. -/
  timeMillis : ℤ
  /-- `GetAdjustedTime()`. -/
  adjustedTime : ℤ
  /-- `1 + (rand() % 999999)`. -/
  newSessionID : ℤ
  /-- `mnodeman.Find(activeMasternode.vin)` finds the masternode. -/
  listed : Bool
  /-- Its last `dsq` was too recent. -/
  dsqTooRecent : Bool
  /-- What `AcceptableInputs` reads. -/
  view : InputsView
  /-- `GetTransaction`. -/
  getTransaction : Uint256 → Option CTransaction
  shuffleVin : Shuffle CTxIn
  shuffleVout : Shuffle CTxOut
  verifyScript : VerifyScript
  /-- `AcceptToMemoryPool(false, true, true)`. -/
  acceptToMemoryPool : CTransaction → Bool
  /-- The masternode's key is good, and signs. -/
  keyOk : Bool

namespace CDarksendPool

section Steps

variable (env : PoolEnv)

/-- `CDarksendPool::SetNull`. -/
def setNull (pool : CDarksendPool) : CDarksendPool where
  lastTimeChanged := env.timeMillis
  finalTransaction := { pool.finalTransaction with vin := [], vout := [] }

/-- `CDarksendPool::UpdateState`, of a masternode. -/
def updateState (newState : PoolStatus) (pool : CDarksendPool) : CDarksendPool :=
  if newState = .POOL_STATUS_ERROR ∨ newState = .POOL_STATUS_SUCCESS then pool
  else { pool with
    state := newState
    lastTimeChanged := if pool.state ≠ newState then env.timeMillis else pool.lastTimeChanged }

/-- `CDarksendPool::IsCollateralValid`. -/
def isCollateralValid [Crypto] (txCollateral : CTransaction) : Bool :=
  let prevouts := txCollateral.vin.map fun txin => (env.getTransaction txin.prevout.hash).map fun tx =>
    (tx.vout[txin.prevout.n.toNat]?.map CTxOut.nValue).getD 0
  let nValueIn := (prevouts.map fun nValue => nValue.getD 0).sum
  let nValueOut := (txCollateral.vout.map CTxOut.nValue).sum
  !txCollateral.vout.isEmpty && txCollateral.nLockTime == 0 &&
    txCollateral.vout.all (fun out => out.scriptPubKey.isNormalPaymentScript) && prevouts.all Option.isSome &&
    DARKSEND_COLLATERAL ≤ nValueIn - nValueOut && env.view.acceptable txCollateral true false

/-- `CDarksendPool::IsCompatibleWithSession`: the pool, when it is. -/
def isCompatibleWithSession [Crypto] (nDenom : ℤ) (txCollateral : CTransaction) (pool : CDarksendPool) :
    Option CDarksendPool :=
  if nDenom = 0 then none
  else if !isCollateralValid env txCollateral then none
  else if pool.sessionUsers ≤ 0 then
    let pool := { pool with
      sessionID := env.newSessionID
      sessionDenom := nDenom
      sessionUsers := 1
      lastTimeChanged := env.timeMillis }
    let pool := pool.updateState env .POOL_STATUS_QUEUE
    some { pool with vecSessionCollateral := pool.vecSessionCollateral ++ [txCollateral] }
  else if pool.state ≠ .POOL_STATUS_ACCEPTING_ENTRIES ∧ pool.state ≠ .POOL_STATUS_QUEUE ∨
      poolMaxTransactions ≤ pool.sessionUsers then none
  else if nDenom ≠ pool.sessionDenom then none
  else some { pool with
    sessionUsers := pool.sessionUsers + 1
    lastTimeChanged := env.timeMillis
    vecSessionCollateral := pool.vecSessionCollateral ++ [txCollateral] }

/-- `dsa`: the pool, when the client is accepted. -/
def dsa [Crypto] (nDenom : ℤ) (txCollateral : CTransaction) (pool : CDarksendPool) : Option CDarksendPool :=
  if !env.listed then none
  else if pool.sessionUsers = 0 ∧ env.dsqTooRecent then none
  else pool.isCompatibleWithSession env nDenom txCollateral

/-- The transaction that the entries make, before it is shuffled. -/
def merged (pool : CDarksendPool) : CTransaction where
  nTime := UInt32.ofInt env.adjustedTime
  vin := pool.entries.flatMap fun e => e.sev.map CTxDSIn.toCTxIn
  vout := pool.entries.flatMap CDarkSendEntry.vout

/-- `CDarksendPool::SignaturesComplete`. -/
def signaturesComplete (pool : CDarksendPool) : Bool := pool.entries.all fun e => e.sev.all CTxDSIn.fHasSig

/-- `CDarksendPool::CheckFinalTransaction`. -/
def checkFinalTransaction (pool : CDarksendPool) : CDarksendPool :=
  if !env.acceptToMemoryPool pool.finalTransaction then
    (pool.setNull env).updateState env .POOL_STATUS_ACCEPTING_ENTRIES
  else if !env.keyOk then pool
  else pool.setNull env

/-- `Check`: when there are enough entries, the transaction is to be made. -/
def checkFull (pool : CDarksendPool) : CDarksendPool :=
  if pool.state = .POOL_STATUS_ACCEPTING_ENTRIES ∧ poolMaxTransactions ≤ pool.entries.length then
    pool.updateState env .POOL_STATUS_FINALIZE_TRANSACTION
  else pool

/-- `Check`: the final transaction is made of the entries, and shuffled. -/
def checkFinalize (pool : CDarksendPool) : CDarksendPool :=
  if pool.state = .POOL_STATUS_FINALIZE_TRANSACTION then
    let txNew := pool.merged env
    { pool.updateState env .POOL_STATUS_SIGNING with
      finalTransaction := { txNew with
        vin := env.shuffleVin.shuffle txNew.vin
        vout := env.shuffleVout.shuffle txNew.vout } }
  else pool

/-- `Check`: when all inputs are signed, the transaction is sent. -/
def checkSigned (pool : CDarksendPool) : CDarksendPool :=
  if pool.state = .POOL_STATUS_SIGNING ∧ pool.signaturesComplete then
    (pool.updateState env .POOL_STATUS_TRANSMISSION).checkFinalTransaction env
  else pool

/-- `Check`: what has ended is cleared after ten seconds. -/
def checkEnded (pool : CDarksendPool) : CDarksendPool :=
  if (pool.state = .POOL_STATUS_ERROR ∨ pool.state = .POOL_STATUS_SUCCESS) ∧
      10000 ≤ env.timeMillis - pool.lastTimeChanged then pool.setNull env
  else pool

/-- `CDarksendPool::Check`. -/
def check (pool : CDarksendPool) : CDarksendPool :=
  (((pool.checkFull env).checkFinalize env).checkSigned env).checkEnded env

/-- The inputs of all entries. -/
def inputs (pool : CDarksendPool) : List CTxIn := pool.entries.flatMap fun e => e.sev.map CTxDSIn.toCTxIn

/-- What `AddEntry` asks of an entry. -/
def entryAccepted [Crypto] (newInput : List CTxIn) (nAmount : ℤ) (txCollateral : CTransaction) (pool : CDarksendPool) :
    Bool :=
  !(newInput.any fun txin => txin.prevout.isNull || nAmount < 0) && isCollateralValid env txCollateral &&
    pool.entries.length < poolMaxTransactions && !(newInput.any fun txin => pool.inputs.contains txin)

/-- `CDarksendPool::AddEntry`: the pool, and whether the entry was added. -/
def addEntry [Crypto] (newInput : List CTxIn) (nAmount : ℤ) (txCollateral : CTransaction) (newOutput : List CTxOut)
    (pool : CDarksendPool) : CDarksendPool × Bool :=
  if pool.entryAccepted env newInput nAmount txCollateral then
    ({ pool with entries := pool.entries ++ [{
        sev := newInput.map fun txin => { toCTxIn := txin }
        vout := newOutput
        amount := nAmount
        collateral := txCollateral
        addedTime := env.time }] }, true)
  else ({ pool with sessionUsers := pool.sessionUsers - 1 }, false)

/-- `CDarksendPool::IsCompatibleWithEntries`. -/
def isCompatibleWithEntries (vout : List CTxOut) (pool : CDarksendPool) : Bool :=
  getDenominations vout != 0 && pool.entries.all fun e => getDenominations vout == getDenominations e.vout

/-- The transaction of the inputs and outputs of a `dsi`. -/
def submitted (newInput : List CTxIn) (newOutput : List CTxOut) : CTransaction where
  nTime := UInt32.ofInt env.adjustedTime
  vin := newInput
  vout := newOutput

/-- What a `dsi` is checked for before `AddEntry`. -/
def submissionOk [Crypto] (newInput : List CTxIn) (newOutput : List CTxOut) (pool : CDarksendPool) : Bool :=
  let prevouts := newInput.map fun txin => (env.getTransaction txin.prevout.hash).map fun tx =>
    (tx.vout[txin.prevout.n.toNat]?.map CTxOut.nValue).getD 0
  let nValueIn := (prevouts.map fun nValue => nValue.getD 0).sum
  let nValueOut := (newOutput.map CTxOut.nValue).sum
  poolMaxTransactions ≤ pool.sessionUsers && pool.isCompatibleWithEntries newOutput &&
    newOutput.all (fun out => out.scriptPubKey.length == 25 && out.scriptPubKey.isNormalPaymentScript) &&
    nValueIn ≤ DARKSEND_POOL_MAX && prevouts.all Option.isSome && (nValueIn - nValueOut) * 100 ≤ nValueIn &&
    env.view.acceptable (submitted env newInput newOutput) false true

/-- `dsi`: the pool, and whether the entry was accepted. -/
def dsi [Crypto] (newInput : List CTxIn) (nAmount : ℤ) (txCollateral : CTransaction) (newOutput : List CTxOut)
    (pool : CDarksendPool) : CDarksendPool × Bool :=
  if pool.submissionOk env newInput newOutput then
    let added := pool.addEntry env newInput nAmount txCollateral newOutput
    if added.2 then (added.1.check env, true) else added
  else (pool, false)

/-- `CDarksendPool::SignatureValid`: the script is tried on the transaction of the entries,
at the last input that is the one given, if there is one. -/
def signatureValid (newVin : CTxIn) (pool : CDarksendPool) : Bool :=
  let txNew := pool.merged env
  let found := (List.range txNew.vin.length).foldl (fun found i => if txNew.vin[i]? = some newVin then some i else found)
    (none : Option ℕ)
  match found with
  | none => true
  | some n =>
    let sigPubKey := ((pool.entries.flatMap CDarkSendEntry.sev)[n]?.map CTxDSIn.prevPubKey).getD []
    env.verifyScript newVin.scriptSig sigPubKey
      { txNew with vin := txNew.vin.modify n fun txin => { txin with scriptSig := newVin.scriptSig } } n

/-- The first entry that takes a signature takes it. -/
def addSigs (newVin : CTxIn) : List CDarkSendEntry → Option (List CDarkSendEntry)
  | [] => none
  | e :: entries =>
    match e.addSig newVin with
    | some e => some (e :: entries)
    | none => (addSigs newVin entries).map (e :: ·)

/-- `CDarksendPool::AddScriptSig`: the pool, and whether an entry took the signature. -/
def addScriptSig (newVin : CTxIn) (pool : CDarksendPool) : CDarksendPool × Bool :=
  if pool.inputs.any fun s => s.scriptSig == newVin.scriptSig then (pool, false)
  else if !pool.signatureValid env newVin then (pool, false)
  else
    let pool := { pool with finalTransaction := { pool.finalTransaction with
      vin := pool.finalTransaction.vin.map fun vin =>
        if newVin.prevout = vin.prevout ∧ vin.nSequence = newVin.nSequence then { vin with scriptSig := newVin.scriptSig }
        else vin } }
    match addSigs newVin pool.entries with
    | some entries => ({ pool with entries := entries }, true)
    | none => (pool, false)

/-- The signatures of a `dss`, one after the other. -/
def addScriptSigs (sigs : List CTxIn) (pool : CDarksendPool) : CDarksendPool × Bool :=
  sigs.foldl (fun st item =>
    let added := st.1.addScriptSig env item
    (added.1, st.2 || added.2)) (pool, false)

/-- `dss`. -/
def dss (sigs : List CTxIn) (pool : CDarksendPool) : CDarksendPool :=
  let added := pool.addScriptSigs env sigs
  if added.2 then added.1.check env else added.1

/-- The loop of `CheckTimeout` over the entries: those that waited too long go, and the
session with the last. -/
def expireEntries (pool : CDarksendPool) : CDarksendPool :=
  let entries := pool.entries.filter fun e => !e.isExpired env.time
  if entries = [] ∧ pool.entries ≠ [] then pool.setNull env else { pool with entries := entries }

/-- `CheckTimeout`: a session that waits for users and entries, or for another step, too
long. A masternode's state does not change to `POOL_STATUS_ERROR`. -/
def checkWaiting (pool : CDarksendPool) : CDarksendPool :=
  if pool.state = .POOL_STATUS_ACCEPTING_ENTRIES ∨ pool.state = .POOL_STATUS_QUEUE then
    let pool := pool.expireEntries env
    if DARKSEND_QUEUE_TIMEOUT * 1000 ≤ env.timeMillis - pool.lastTimeChanged then pool.setNull env else pool
  else if DARKSEND_QUEUE_TIMEOUT * 1000 ≤ env.timeMillis - pool.lastTimeChanged then
    (pool.setNull env).updateState env .POOL_STATUS_ERROR
  else pool

/-- `CheckTimeout`: a session that waits for signatures too long. -/
def checkSigning (pool : CDarksendPool) : CDarksendPool :=
  if pool.state = .POOL_STATUS_SIGNING ∧ DARKSEND_SIGNING_TIMEOUT * 1000 ≤ env.timeMillis - pool.lastTimeChanged then
    (pool.setNull env).updateState env .POOL_STATUS_ERROR
  else pool

/-- `CDarksendPool::CheckTimeout`, of a masternode. -/
def checkTimeout (pool : CDarksendPool) : CDarksendPool := (pool.checkWaiting env).checkSigning env

/-- `CDarksendPool::CheckForCompleteQueue`. -/
def checkForCompleteQueue (pool : CDarksendPool) : CDarksendPool :=
  if pool.state = .POOL_STATUS_QUEUE ∧ pool.sessionUsers = poolMaxTransactions then
    pool.updateState env .POOL_STATUS_ACCEPTING_ENTRIES
  else pool

end Steps

end CDarksendPool

/-- What the pool goes through: messages, the checks of the thread, and the reset of a node
that has slept. -/
inductive MixingEvent where
  | dsa (env : PoolEnv) (nDenom : ℤ) (txCollateral : CTransaction)
  | dsi (env : PoolEnv) (newInput : List CTxIn) (nAmount : ℤ) (txCollateral : CTransaction) (newOutput : List CTxOut)
  | dss (env : PoolEnv) (sigs : List CTxIn)
  | checkTimeout (env : PoolEnv)
  | checkForCompleteQueue (env : PoolEnv)
  | reset (env : PoolEnv)

/-- The pool after an event. -/
def CDarksendPool.step [Crypto] (pool : CDarksendPool) : MixingEvent → CDarksendPool
  | .dsa env nDenom txCollateral => (pool.dsa env nDenom txCollateral).getD pool
  | .dsi env newInput nAmount txCollateral newOutput => (pool.dsi env newInput nAmount txCollateral newOutput).1
  | .dss env sigs => pool.dss env sigs
  | .checkTimeout env => pool.checkTimeout env
  | .checkForCompleteQueue env => pool.checkForCompleteQueue env
  | .reset env => pool.setNull env

end PayDayCoin
