import PayDayCoin.MasternodePayments

/-!
# What the masternode is paid

A proof-of-stake block pays a masternode out of its coinstake. `CheckBlock` looks for an
output to the masternode's script, and for one to the reward address, but the amount of
`GetMasternodePayment` is commented out there and the values of the outputs are only
logged. **`coinstake_pays_masternode`** says what is enforced: the output is there, and no
value that it may have makes a difference. In `Sample.underpaid_accepted` the masternode
gets one unit of the coin's smallest denomination.
-/

namespace PayDayCoin

open Library.Checks

/-- `GetMasternodePayment`. -/
def getMasternodePayment (nHeight : ℤ) (blockValue : ℤ) : ℤ :=
  let YEARLY_BLOCKCOUNT := 263000
  if nHeight < YEARLY_BLOCKCOUNT then (blockValue * 3).tdiv 4
  else if nHeight < 2 * YEARLY_BLOCKCOUNT then (blockValue * 4).tdiv 5
  else if nHeight < 3 * YEARLY_BLOCKCOUNT then (blockValue * 17).tdiv 20
  else (blockValue * 9).tdiv 10

/-- The scripts that `CheckBlock` looks for at a height: of the masternode payee, and of the
reward address. The payee is that of the votes, which come with no reward address, else
that of the current masternode. -/
def CheckEnv.paymentTargets (env : CheckEnv) (nHeight : ℕ) : Option (CScript × CScript) :=
  match env.getBlockPayee nHeight with
  | some payee => some (payee, [])
  | none => env.currentMasterNode

namespace CBlock

variable {params : CChainParams} {env : CheckEnv} {g : BestChain} {b b' : CBlock} {payee : CScript}
  {fCheckPOW fCheckMerkleRoot fCheckSig : Bool}

/-- The search finds the payee among the outputs, and the reward address among the others. -/
theorem findPayees_eq {masternodepayee payeerewardaddress : CScript} (vout : List CTxOut) (found : Bool × Bool) :
    findPayees masternodepayee payeerewardaddress vout found =
      (found.1 || vout.any fun txout => txout.scriptPubKey = masternodepayee,
        found.2 || vout.any fun txout => txout.scriptPubKey ≠ masternodepayee ∧
          txout.scriptPubKey = payeerewardaddress) := by
  induction vout generalizing found with
  | nil => simp [findPayees]
  | cons txout vout ih =>
    obtain ⟨foundMasternode, foundReward⟩ := found
    rw [findPayees]
    by_cases hpayee : txout.scriptPubKey = masternodepayee
    · rw [if_pos hpayee, ih]
      simp [hpayee]
    · rw [if_neg hpayee]
      by_cases hreward : txout.scriptPubKey = payeerewardaddress
      · rw [if_pos hreward, ih]
        rw [hreward] at hpayee
        simp [hpayee, hreward]
      · rw [if_neg hreward, ih]
        simp [hpayee, hreward]

/-- The masternode payment is enforced for a block: the node is past the initial download
and the grace period, the block is of proof of stake and late enough, and its parent is the
best block. -/
structure PaymentEnforced (params : CChainParams) (env : CheckEnv) (g : BestChain) (b : CBlock) : Prop where
  ibd : isInitialBlockDownload params g.pindexBest g.nBestHeight env.ibd = false
  time : START_MASTERNODE_PAYMENTS < b.nTime.toNat
  stake : b.isProofOfStake = true
  best : g.pindexBest ≠ []
  parent : b.hashPrevBlock = g.pindexBest.getBlockHash
  grace : env.walletGracePeriod = false

/-- What the masternode payment part reads of the outputs of the coinstake: their scripts. -/
def coinstakeScripts (b : CBlock) : Option (List CScript) := b.vtx[1]?.map fun tx => tx.vout.map CTxOut.scriptPubKey

/-- The check of the masternode payment, when it is enforced: there is an output to the
payee, and another to the reward address. -/
theorem PaymentEnforced.masternodePaymentOk_eq (h : PaymentEnforced params env g b) :
    masternodePaymentOk params env g b =
      match env.paymentTargets (g.pindexBest.nHeight + 1) with
      | none => true
      | some (masternodepayee, payeerewardaddress) => b.coinstakeScripts.any fun scripts =>
        scripts.any (· = masternodepayee) &&
          scripts.any fun script => script ≠ masternodepayee ∧ script = payeerewardaddress := by
  obtain ⟨pindex, pprev, hbest⟩ := List.exists_cons_of_ne_nil h.best
  obtain ⟨coinbase, coinstake, vtx, hvtx⟩ : ∃ coinbase coinstake vtx, b.vtx = coinbase :: coinstake :: vtx := by
    have hstake := h.stake
    unfold isProofOfStake at hstake
    split at hstake
    · rename_i coinbase coinstake vtx hvtx
      exact ⟨coinbase, coinstake, vtx, hvtx⟩
    · cases hstake
  have hparent : (pindex.hash == b.hashPrevBlock) = true := by
    rw [h.parent, hbest]
    exact beq_self_eq_true _
  have hscripts : b.coinstakeScripts = some (coinstake.vout.map CTxOut.scriptPubKey) := by
    rw [coinstakeScripts, hvtx]
    rfl
  have hibd := h.ibd
  rw [hbest] at hibd
  simp only [masternodePaymentOk, hvtx, hbest, hibd, h.time, h.stake, hparent, h.grace, hscripts, findPayees_eq,
    CheckEnv.paymentTargets, Bool.not_false, decide_true, Bool.and_self, if_true, Bool.false_or, Option.any_some,
    List.any_map]
  cases env.getBlockPayee (PIndex.nHeight (pindex :: pprev) + 1) with
  | some payee => rfl
  | none =>
    cases env.currentMasterNode with
    | some targets => rfl
    | none => rfl

/-- **The coinstake of a block that `CheckBlock` accepts pays the masternode something**: an
output is to the payee's script. The values of the outputs make no difference to the
check. -/
theorem coinstake_pays_masternode [Crypto] {masternodepayee payeerewardaddress : CScript} {u : Unit}
    (hcheck : b.checkBlock params env g fCheckPOW fCheckMerkleRoot fCheckSig = .ok u)
    (h : PaymentEnforced params env g b)
    (htargets : env.paymentTargets (g.pindexBest.nHeight + 1) = some (masternodepayee, payeerewardaddress)) :
    (∃ coinstake, b.vtx[1]? = some coinstake ∧ ∃ txout ∈ coinstake.vout, txout.scriptPubKey = masternodepayee) ∧
    ∀ b' : CBlock, PaymentEnforced params env g b' → b'.coinstakeScripts = b.coinstakeScripts →
      masternodePaymentOk params env g b' = true := by
  have hok : masternodePaymentOk params env g b = true := by
    simp only [checkBlock, bind_eq_ok, rejectIf_eq_ok] at hcheck
    obtain ⟨-, -, -, -, -, -, -, -, -, -, -, -, -, -, -, -, -, hok, -⟩ := hcheck
    simpa using hok
  refine ⟨?_, fun b' h' hscripts => ?_⟩
  · rw [h.masternodePaymentOk_eq, htargets] at hok
    obtain ⟨scripts, hscripts, hfound⟩ := (Option.any_eq_true _ _).1 hok
    obtain ⟨coinstake, hcoinstake, rfl⟩ := Option.map_eq_some_iff.1 hscripts
    obtain ⟨script, hmem, hpayee⟩ := List.any_eq_true.1 (Bool.and_eq_true_iff.1 hfound).1
    obtain ⟨txout, htxout, rfl⟩ := List.mem_map.1 hmem
    exact ⟨coinstake, hcoinstake, txout, htxout, of_decide_eq_true hpayee⟩
  · rw [h'.masternodePaymentOk_eq, hscripts, ← h.masternodePaymentOk_eq]
    exact hok

end CBlock

/-! ### A masternode that gets one unit -/

namespace Sample

/-- A proof-of-stake block on top of `b₁` whose coinstake pays a value to a script. -/
def stakeBlock (nValue : ℤ) : CBlock := block b₁ 2
  [{ coinbase 2 1 with vout := [⟨0, []⟩] },
    { spend 2 paid [] 0 with vout := [⟨0, []⟩, ⟨10 * COIN, [0x51]⟩, ⟨nValue, [0x52]⟩] }]

/-- The votes name the script as the payee. -/
def payeeEnv : CheckEnv := { checkEnv with getBlockPayee := fun _ => some [0x52] }

theorem stakeBlock_enforced {nValue : ℤ} (h : nValue = 1 ∨ nValue = 210 * COIN) :
    CBlock.PaymentEnforced CChainParams.test payeeEnv (node 1).best (stakeBlock nValue) := by
  rcases h with rfl | rfl
  · exact ⟨by decide, by decide, by decide, by decide, by decide, rfl⟩
  · exact ⟨by decide, by decide, by decide, by decide, by decide, rfl⟩

/-- The masternode's share of a stake reward of the sample is in the coinstake. -/
theorem stakeBlock_pays : ∃ coinstake, (stakeBlock (210 * COIN)).vtx[1]? = some coinstake ∧
    ∃ txout ∈ coinstake.vout, txout.scriptPubKey = [0x52] := by
  obtain ⟨u, hu⟩ := exists_eq_ok_of_isOk (x := (stakeBlock (210 * COIN)).checkBlock CChainParams.test payeeEnv
    (node 1).best true true true) (by decide)
  exact (CBlock.coinstake_pays_masternode hu (stakeBlock_enforced (.inr rfl)) rfl).1

/-- **A block that underpays the masternode is accepted**: its share would be three quarters
of the reward. -/
theorem underpaid_accepted :
    CBlock.PaymentEnforced CChainParams.test payeeEnv (node 1).best (stakeBlock 1) ∧
    ((stakeBlock 1).checkBlock CChainParams.test payeeEnv (node 1).best true true true).isOk = true ∧
    getMasternodePayment ((node 1).best.pindexBest.nHeight + 1) (getProofOfStakeReward (node 1).best.pindexBest 0 0) =
      210 * COIN ∧
    ¬∃ coinstake, (stakeBlock 1).vtx[1]? = some coinstake ∧ ∃ txout ∈ coinstake.vout,
      txout.scriptPubKey = [0x52] ∧ 210 * COIN ≤ txout.nValue := by
  refine ⟨stakeBlock_enforced (.inl rfl), by decide, by decide, ?_⟩
  rintro ⟨coinstake, hcoinstake, txout, htxout, hpayee, hvalue⟩
  have hall : ∀ coinstake ∈ (stakeBlock 1).vtx[1]?, ∀ txout ∈ coinstake.vout, txout.scriptPubKey = [0x52] →
      ¬210 * COIN ≤ txout.nValue := by decide
  exact hall coinstake hcoinstake txout htxout hpayee hvalue

end Sample

end PayDayCoin
