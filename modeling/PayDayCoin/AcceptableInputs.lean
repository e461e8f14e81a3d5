import PayDayCoin.MemPool

/-!
# Acceptable inputs

`AcceptableInputs` tries whether a transaction could go into the memory pool, without its
signatures. What it accepts has inputs with different outpoints (`nodup_of_acceptable`), and
pays out no more than what it spends is worth (**`fetched_of_acceptable`**).
-/

namespace PayDayCoin

open Library.Checks Library.Overlay

namespace CTransaction

variable [Crypto] (params : CChainParams) (env : MemPoolEnv)

/-- The fee checks of `AcceptableInputs`. -/
def checkAcceptableFees (tx : CTransaction) (nFees : ℤ) (fLimitFree fRejectInsaneFee isDSTX : Bool) :
    Except Reject Unit := do
  let txMinFee := getMinFee tx tx.getSerializeSize true .GMF_RELAY
  rejectIf (!isDSTX && fLimitFree && nFees < txMinFee) (.error "AcceptableInputs : not enough fees")
  rejectIf (!isDSTX && fLimitFree && nFees < MIN_RELAY_TX_FEE && env.freeLimited)
    (.error "AcceptableInputs : free transaction rejected by rate limiter")
  rejectIf (fRejectInsaneFee && txMinFee * 10000 < nFees) (.error "AcceptableInputs: : insane fees")

/-- `AcceptableInputs`. -/
def acceptableInputs (g : BestChain) (T : TxMap) (pool : CTxMemPool) (tx : CTransaction)
    (fLimitFree fRejectInsaneFee isDSTX : Bool) : Except Reject Unit := do
  tx.checkTransaction.mapError fun _ => .error "AcceptableInputs : CheckTransaction failed"
  rejectIf tx.isCoinBase (.dos 100 "AcceptableInputs : coinbase as individual tx")
  rejectIf tx.isCoinStake (.dos 100 "AcceptableInputs : coinstake as individual tx")
  rejectIf (pool.lookup tx.getHash).isSome .fail
  rejectIf (tx.conflictsWithLock env.mapLockedInputs)
    (.dos 0 "AcceptableInputs : conflicts with existing transaction lock")
  rejectIf (tx.vin.any fun txin => (pool.mapNextTx txin.prevout).isSome) .fail
  rejectIf (T tx.getHash).isSome .fail
  let mapInputs ← tx.fetchInputs env.disk pool.lookup T Caller.mempool nothing
  let nSigOps := tx.getLegacySigOpCount + (← tx.getP2SHSigOpCount mapInputs)
  rejectIf (MAX_TX_SIGOPS < nSigOps) (.dos 0 "AcceptableInputs : too many sigops")
  let nFees := (← tx.getValueIn mapInputs) - (← tx.getValueOut)
  tx.checkAcceptableFees env nFees fLimitFree fRejectInsaneFee isDSTX
  let _ ← (tx.connectInputs params Caller.block g env.ibd mapInputs nothing CDiskTxPos.memory g.pindexBest
    CScript.STANDARD_SCRIPT_VERIFY_FLAGS false).mapError fun _ => .error "AcceptableInputs : ConnectInputs failed"
  return ()

end CTransaction

/-- What `AcceptableInputs` reads: the chain, the records and the memory pool. -/
structure InputsView where
  params : CChainParams
  env : MemPoolEnv
  best : BestChain
  txIndex : TxMap
  mempool : CTxMemPool

/-- `AcceptableInputs(mempool, tx, fLimitFree, NULL, false, isDSTX)`. -/
def InputsView.acceptable [Crypto] (view : InputsView) (tx : CTransaction) (fLimitFree isDSTX : Bool) : Bool :=
  (tx.acceptableInputs view.params view.env view.best view.txIndex view.mempool fLimitFree false isDSTX).isOk

section Accepted

variable [Crypto] {view : InputsView} {tx : CTransaction} {fLimitFree isDSTX : Bool}

/-- The inputs of an acceptable transaction have different outpoints. -/
theorem nodup_of_acceptable (h : view.acceptable tx fLimitFree isDSTX = true) :
    (tx.vin.map CTxIn.prevout).Nodup := by
  obtain ⟨u, h⟩ := exists_eq_ok_of_isOk h
  simp only [CTransaction.acceptableInputs, bind_eq_ok, mapError_eq_ok] at h
  obtain ⟨_, hcheck, -⟩ := h
  exact (CTransaction.checked_of_checkTransaction hcheck).nodup

/-- **What the inputs of an acceptable transaction are worth**: they were fetched, and the
checks of `ConnectInputs` give a sum that covers the outputs. -/
theorem fetched_of_acceptable (h : view.acceptable tx fLimitFree isDSTX = true) :
    ∃ mapInputs nValueIn nValueOut,
      tx.fetchInputs view.env.disk view.mempool.lookup view.txIndex Caller.mempool nothing = .ok mapInputs ∧
      tx.vin.foldlM (tx.checkInput view.params mapInputs view.best.pindexBest) 0 = .ok nValueIn ∧
      tx.getValueOut = .ok nValueOut ∧ nValueOut ≤ nValueIn := by
  obtain ⟨u, h⟩ := exists_eq_ok_of_isOk h
  simp only [CTransaction.acceptableInputs, bind_eq_ok, mapError_eq_ok, rejectIf_eq_ok] at h
  obtain ⟨_, -, _, hbase, _, hstake, _, -, _, -, _, -, _, -, mapInputs, hfetch, _, -, _, -, _, -, nOut, hout, _, -,
    ⟨T, checks⟩, hconnect, -⟩ := h
  unfold CTransaction.connectInputs at hconnect
  rw [if_neg (Bool.not_eq_true _ ▸ hbase)] at hconnect
  simp only [bind_eq_ok] at hconnect
  obtain ⟨nValueIn, hin, s, -, _, hfees, -⟩ := hconnect
  unfold CTransaction.checkFees at hfees
  rw [if_neg (Bool.not_eq_true _ ▸ hstake)] at hfees
  simp only [bind_eq_ok, rejectIf_eq_ok, decide_eq_false_iff_not] at hfees
  obtain ⟨nValueOut, hout', _, hcover, -⟩ := hfees
  exact ⟨mapInputs, nValueIn, nValueOut, hfetch, hin, hout', Int.not_lt.1 hcover⟩

end Accepted

end PayDayCoin
