import PayDayCoin.ChainLedger
import PayDayCoin.ChainSync

/-!
# The money supply

`ConnectBlock` records for each block what it creates: `nMint` and the running
`nMoneySupply`. Three checks bound it: `ConnectInputs` compares the values of a transaction
that is not a coinstake, and `ConnectBlock` compares the coinbase of a proof-of-work block,
or the coinstake of a proof-of-stake block, with the reward. `CheckBlock` keeps coinstakes
out of the other positions of a proof-of-stake block, but not out of a proof-of-work block,
where no check looks at the value of a coinstake.

So a block creates at most its subsidy if it is not a proof-of-work block with a coinstake
(**`created_le`**), and a chain of such blocks at most the sum of the subsidies
(**`moneySupply_le`**). `Sample.staked` is a coinstake that pays all the money there is.
-/

namespace PayDayCoin

open Library.Checks Library.Overlay

/-- The scheduled subsidy of a block: its reward without fees. -/
def subsidy (p : CBlockIndex) (pprev : PIndex) : ℤ :=
  if p.isProofOfStake then getProofOfStakeReward pprev 0 0 else getProofOfWorkReward pprev.length 0

/-- The sum of the subsidies of a path, above the genesis block. -/
def subsidies : PIndex → ℤ
  | p :: q :: pprev => subsidies (q :: pprev) + subsidy p (q :: pprev)
  | _ => 0

/-- A proof-of-work block has no coinstake. -/
def CBlock.NoStakeInWork (b : CBlock) : Prop := b.isProofOfWork = true → ∀ tx ∈ b.vtx, tx.isCoinStake = false

/-- What the accumulators of `ConnectBlock` balance to: the coins created, with the fees. -/
def Tally.balance (s : Tally) : ℤ := s.nValueOut - s.nValueIn + s.nFees

section Block

variable [Crypto] {params : CChainParams} {env : BlockEnv} {g : BestChain} {mempool : Uint256 → Option CTransaction}
  {T : TxMap} {p : CBlockIndex} {pprev : PIndex} {s s' : Tally} {tx : CTransaction}

/-! ### One transaction -/

/-- A coinbase adds its outputs to the balance. -/
theorem connectTx_coinBase (hcb : tx.isCoinBase = true)
    (h : CBlock.connectTx params env g mempool T p pprev s tx = .ok s') :
    ∃ nValueOut, tx.getValueOut = .ok nValueOut ∧ s'.balance = s.balance + nValueOut := by
  simp only [CBlock.connectTx, CBlock.connectTxValues, hcb, if_true, CBlock.connectCoinBase, bind_eq_ok,
    pure_eq_ok] at h
  obtain ⟨_, -, s₁, ⟨nValueOut, hout, rfl⟩, rfl⟩ := h
  exact ⟨nValueOut, hout, by simp only [Tally.balance]; ring⟩

/-- A coinstake adds its reward to the balance. -/
theorem connectTx_coinStake (hncb : tx.isCoinBase = false) (hcs : tx.isCoinStake = true)
    (h : CBlock.connectTx params env g mempool T p pprev s tx = .ok s') :
    s'.balance = s.balance + s'.nStakeReward := by
  simp only [CBlock.connectTx, CBlock.connectTxValues, hncb, CBlock.connectTxInputs, hcs, bind_eq_ok, pure_eq_ok,
    Prod.exists, if_true, Bool.false_eq_true, if_false] at h
  obtain ⟨_, -, s₁, ⟨_, -, _, -, _, -, nTxValueIn, -, nTxValueOut, -, _, _, -, rfl⟩, rfl⟩ := h
  simp only [Tally.balance]
  ring

/-- Any other transaction keeps the balance: what it does not pay out is a fee. -/
theorem connectTx_plain (hncb : tx.isCoinBase = false) (hcs : tx.isCoinStake = false)
    (h : CBlock.connectTx params env g mempool T p pprev s tx = .ok s') :
    s'.balance = s.balance ∧ s'.nStakeReward = s.nStakeReward := by
  simp only [CBlock.connectTx, CBlock.connectTxValues, hncb, CBlock.connectTxInputs, hcs, bind_eq_ok, pure_eq_ok,
    Prod.exists, Bool.false_eq_true, if_false] at h
  obtain ⟨_, -, s₁, ⟨_, -, _, -, _, -, nTxValueIn, -, nTxValueOut, -, _, _, -, rfl⟩, rfl⟩ := h
  refine ⟨?_, rfl⟩
  simp only [Tally.balance]
  ring

/-- So do transactions of which none is a coinbase or a coinstake. -/
theorem foldlM_connectTx_plain {l : List CTransaction} (hncb : ∀ tx ∈ l, tx.isCoinBase = false)
    (hcs : ∀ tx ∈ l, tx.isCoinStake = false)
    (h : l.foldlM (CBlock.connectTx params env g mempool T p pprev) s = .ok s') :
    s'.balance = s.balance ∧ s'.nStakeReward = s.nStakeReward := by
  refine foldlM_induct (P := fun s' => s'.balance = s.balance ∧ s'.nStakeReward = s.nStakeReward)
    (fun tx hmem s₁ s₂ hs hstep => ?_) ⟨rfl, rfl⟩ h
  obtain ⟨hb, hr⟩ := connectTx_plain (hncb tx hmem) (hcs tx hmem) hstep
  exact ⟨hb.trans hs.1, hr.trans hs.2⟩

/-! ### One block -/

omit [Crypto] in
theorem getValueOut_of_isEmpty (h : ∀ txout ∈ tx.vout, txout.isEmpty = true) {nValueOut : ℤ}
    (hok : tx.getValueOut = .ok nValueOut) : nValueOut = 0 := by
  refine foldlM_induct (P := fun v : ℤ => v = 0) (fun txout hmem v v' hv hstep => ?_) rfl hok
  have hzero : txout.nValue = 0 := by
    have := h txout hmem
    simp only [CTxOut.isEmpty, Bool.and_eq_true, beq_iff_eq] at this
    exact this.1
  simp only [CTransaction.addValueOut, bind_eq_ok, pure_eq_ok] at hstep
  obtain ⟨_, -, rfl⟩ := hstep
  rw [hv, hzero, add_zero]

/-- The balance of a proof-of-work block without coinstakes is what its coinbase pays. -/
theorem balance_le_of_work {b : CBlock} (hchecked : b.Checked) (hwork : b.isProofOfWork = true)
    (hstake : b.NoStakeInWork) (hs : s.balance = 0)
    (hfold : b.vtx.foldlM (CBlock.connectTx params env g mempool T p pprev) s = .ok s')
    (hreward : b.checkReward env T pprev s' = .ok ()) :
    s'.balance ≤ getProofOfWorkReward pprev.length s'.nFees := by
  obtain ⟨coinbase, vtx, hvtx, hcb, hrest⟩ := hchecked.shape
  rw [hvtx] at hfold
  obtain ⟨s₁, h₁, h₂⟩ := foldlM_cons_eq_ok.1 hfold
  obtain ⟨nValueOut, hout, hb₁⟩ := connectTx_coinBase hcb h₁
  have hcs : ∀ tx ∈ vtx, tx.isCoinStake = false :=
    fun tx hmem => hstake hwork tx (by rw [hvtx]; exact List.mem_cons_of_mem _ hmem)
  obtain ⟨hb₂, -⟩ := foldlM_connectTx_plain hrest hcs h₂
  have hnpos : b.isProofOfStake = false := by simpa [CBlock.isProofOfWork] using hwork
  simp only [CBlock.checkReward, hnpos, Bool.false_eq_true, if_false, CBlock.checkWorkReward, bind_eq_ok,
    rejectIf_eq_ok, decide_eq_false_iff_not, hvtx, List.headD_cons] at hreward
  obtain ⟨v, hv, hle⟩ := hreward
  obtain rfl : v = nValueOut := Except.ok.inj (hv.symm.trans hout)
  rw [hb₂, hb₁, hs]
  omega

/-- The balance of a proof-of-stake block is the reward that its coinstake takes. -/
theorem balance_le_of_stake {b : CBlock} (hchecked : b.Checked) (hstake : b.isProofOfStake = true)
    (hs : s.balance = 0)
    (hfold : b.vtx.foldlM (CBlock.connectTx params env g mempool T p pprev) s = .ok s')
    (hreward : b.checkReward env T pprev s' = .ok ()) :
    s'.balance ≤ getRewardByHeight (pprev.nHeight + 1) + s'.nFees := by
  obtain ⟨coinbase, coinstake, vtx, hvtx, hempty, hcs, hrest⟩ := hchecked.stake hstake
  obtain ⟨coinbase', vtx', hvtx', hcb, hncb⟩ := hchecked.shape
  obtain ⟨rfl, rfl⟩ := List.cons.inj (hvtx'.symm.trans hvtx)
  rw [hvtx] at hfold
  obtain ⟨s₁, h₁, hfold⟩ := foldlM_cons_eq_ok.1 hfold
  obtain ⟨s₂, h₂, h₃⟩ := foldlM_cons_eq_ok.1 hfold
  obtain ⟨nValueOut, hout, hb₁⟩ := connectTx_coinBase hcb h₁
  have hb₂ := connectTx_coinStake (hncb coinstake List.mem_cons_self) hcs h₂
  obtain ⟨hb₃, hr₃⟩ := foldlM_connectTx_plain (fun tx hmem => hncb tx (List.mem_cons_of_mem _ hmem)) hrest h₃
  simp only [CBlock.checkReward, hstake, if_true, CBlock.checkStakeReward, bind_eq_ok, rejectIf_eq_ok,
    decide_eq_false_iff_not] at hreward
  obtain ⟨_, -, hle⟩ := hreward
  unfold getProofOfStakeReward at hle
  rw [hb₃, hb₂, hb₁, hs, getValueOut_of_isEmpty hempty hout, ← hr₃]
  omega

/-- **A block creates at most its subsidy**, unless it is a proof-of-work block with a
coinstake. -/
theorem created_le (h : p.block.connectBlockCore params env g mempool T p pprev = .ok s)
    (hstake : p.block.NoStakeInWork) : s.nValueOut - s.nValueIn ≤ subsidy p pprev := by
  obtain ⟨hchecked, hfold, hreward⟩ := connectBlockCore_eq_ok h
  unfold subsidy CBlockIndex.isProofOfStake
  cases hpos : p.block.isProofOfStake with
  | true =>
    have hle := balance_le_of_stake hchecked hpos rfl hfold hreward
    simp only [Tally.balance] at hle
    simp only [if_true, getProofOfStakeReward]
    omega
  | false =>
    have hle := balance_le_of_work hchecked (by simp [CBlock.isProofOfWork, hpos]) hstake rfl hfold hreward
    simp only [Tally.balance, getProofOfWorkReward] at hle
    simp only [Bool.false_eq_true, if_false, getProofOfWorkReward]
    omega

end Block

/-! ### A chain of blocks -/

section Chain

variable [Crypto] {W : Type} [CWalletInterface W] {params : CChainParams} {path : PIndex} {σ : Session W}

/-- A session in which the blocks of a path have been connected: from the genesis block,
blocks are connected and disconnected, in whatever environment, each under a hash of its
own. -/
inductive ConnectedChain (params : CChainParams) : PIndex → Session W → Prop
  /-- The genesis block alone has created nothing. -/
  | genesis {g : CBlockIndex} {σ : Session W} : σ.nMoneySupply g.hash = 0 → ConnectedChain params [g] σ
  /-- `ConnectBlock`. -/
  | connect {env : BlockEnv} {best : BestChain} {mempool : Uint256 → Option CTransaction}
      {pnext : Uint256 → Option Uint256} {p : CBlockIndex} {pprev : PIndex} {σ σ' : Session W} :
      ConnectedChain params pprev σ → p.hash ∉ pprev.hashes →
        p.block.connectBlock params env best mempool pnext p pprev σ = .ok σ' →
          ConnectedChain params (p :: pprev) σ'
  /-- `DisconnectBlock`. -/
  | disconnect {env : BlockEnv} {p : CBlockIndex} {pprev : PIndex} {σ σ' : Session W} :
      ConnectedChain params (p :: pprev) σ → pprev ≠ [] →
        p.block.disconnectBlock env p pprev σ = .ok σ' → ConnectedChain params pprev σ'

/-- What the session has recorded of a block: the amounts of a `ConnectBlock` that
succeeded. -/
def Recorded (params : CChainParams) (σ : Session W) (p : CBlockIndex) (pprev : PIndex) : Prop :=
  ∃ (env : BlockEnv) (best : BestChain) (mempool : Uint256 → Option CTransaction) (T : TxMap) (s : Tally),
    p.block.connectBlockCore params env best mempool T p pprev = .ok s ∧
      σ.nMint p.hash = s.nValueOut - s.nValueIn + s.nFees ∧
      σ.nMoneySupply p.hash = σ.nMoneySupply pprev.getBlockHash + (s.nValueOut - s.nValueIn)

/-- The records of a path: nothing for the genesis block, and each block above it. -/
structure RecordedPath (params : CChainParams) (σ : Session W) (path : PIndex) : Prop where
  ne : path ≠ []
  genesis : ∀ g, [g] <:+ path → σ.nMoneySupply g.hash = 0
  block : ∀ p pprev, p :: pprev <:+ path → pprev ≠ [] → Recorded params σ p pprev

omit [Crypto] [CWalletInterface W] in
theorem mem_hashes_of_suffix {p : CBlockIndex} {pprev : PIndex} (h : p :: pprev <:+ path) : p.hash ∈ path.hashes :=
  List.mem_map_of_mem (h.subset List.mem_cons_self)

theorem RecordedPath.connect {env : BlockEnv} {best : BestChain} {mempool : Uint256 → Option CTransaction}
    {pnext : Uint256 → Option Uint256} {p : CBlockIndex} {σ' : Session W} (h : RecordedPath params σ path)
    (hnew : p.hash ∉ path.hashes) (hok : p.block.connectBlock params env best mempool pnext p path σ = .ok σ') :
    RecordedPath params σ' (p :: path) := by
  obtain ⟨s, hcore, rfl⟩ := connectBlock_eq_ok.1 hok
  have hmint : ∀ hash, hash ≠ p.hash → (p.block.writeConnected pnext p path s σ).nMint hash = σ.nMint hash :=
    fun hash hne => Function.update_of_ne hne _ _
  have hsupply : ∀ hash, hash ≠ p.hash →
      (p.block.writeConnected pnext p path s σ).nMoneySupply hash = σ.nMoneySupply hash :=
    fun hash hne => Function.update_of_ne hne _ _
  have hne : ∀ {q : CBlockIndex} {qprev : PIndex}, q :: qprev <:+ path → q.hash ≠ p.hash :=
    fun hsuf he => hnew (he ▸ mem_hashes_of_suffix hsuf)
  refine ⟨List.cons_ne_nil p path, fun g hsuf => ?_, fun q qprev hsuf hqne => ?_⟩
  · rcases List.suffix_cons_iff.1 hsuf with heq | hsuf
    · exact absurd (List.cons.inj heq).2.symm h.ne
    · rw [hsupply _ (hne hsuf)]
      exact h.genesis g hsuf
  · rcases List.suffix_cons_iff.1 hsuf with heq | hsuf
    · obtain ⟨rfl, rfl⟩ := List.cons.inj heq
      obtain ⟨r, rprev, rfl⟩ := List.exists_cons_of_ne_nil hqne
      refine ⟨env, best, mempool, _, s, hcore, Function.update_self .., ?_⟩
      have hr : r.hash ≠ q.hash := hne List.suffix_rfl
      rw [show PIndex.getBlockHash (r :: rprev) = r.hash from rfl, hsupply _ hr]
      refine (Function.update_self ..).trans ?_
      simp only
      ring
    · obtain ⟨r, rprev, rfl⟩ := List.exists_cons_of_ne_nil hqne
      obtain ⟨env', best', mempool', T, s', hcore', hm, hs⟩ := h.block q (r :: rprev) hsuf hqne
      refine ⟨env', best', mempool', T, s', hcore', ?_, ?_⟩
      · rw [hmint _ (hne hsuf), hm]
      · rw [hsupply _ (hne hsuf), hs, show PIndex.getBlockHash (r :: rprev) = r.hash from rfl,
          hsupply _ (hne ((List.suffix_cons q _).trans hsuf))]

theorem RecordedPath.disconnect {env : BlockEnv} {p : CBlockIndex} {pprev : PIndex} {σ' : Session W}
    (h : RecordedPath params σ (p :: pprev)) (hne : pprev ≠ [])
    (hok : p.block.disconnectBlock env p pprev σ = .ok σ') : RecordedPath params σ' pprev := by
  obtain ⟨T, -, rfl⟩ := disconnectBlock_eq_ok.1 hok
  exact ⟨hne, fun g hsuf => h.genesis g (hsuf.trans (List.suffix_cons _ _)),
    fun q qprev hsuf hqne => h.block q qprev (hsuf.trans (List.suffix_cons _ _)) hqne⟩

/-- What a chain of connected blocks has recorded. -/
theorem ConnectedChain.recorded (h : ConnectedChain params path σ) : RecordedPath params σ path := by
  induction h with
  | @genesis g σ hzero =>
    refine ⟨List.cons_ne_nil g [], fun g' hsuf => ?_, fun p pprev hsuf hne => ?_⟩
    · rcases List.suffix_cons_iff.1 hsuf with heq | hsuf
      · rw [(List.cons.inj heq).1, hzero]
      · simp at hsuf
    · rcases List.suffix_cons_iff.1 hsuf with heq | hsuf
      · exact absurd (List.cons.inj heq).2 hne
      · simp at hsuf
  | connect _ hnew hok ih => exact ih.connect hnew hok
  | disconnect _ hne hok ih => exact ih.disconnect hne hok

omit [CWalletInterface W] in
theorem RecordedPath.supply_le (h : RecordedPath params σ path)
    (hstake : ∀ p pprev, p :: pprev <:+ path → pprev ≠ [] → p.block.NoStakeInWork) :
    σ.nMoneySupply path.getBlockHash ≤ subsidies path := by
  induction path with
  | nil => exact absurd rfl h.ne
  | cons p pprev ih =>
    cases pprev with
    | nil => exact (h.genesis p List.suffix_rfl).le
    | cons q pprev =>
      have hsuf : q :: pprev <:+ p :: q :: pprev := List.suffix_cons _ _
      have hle := ih ⟨List.cons_ne_nil q pprev, fun g hg => h.genesis g (hg.trans hsuf),
        fun r rprev hr => h.block r rprev (hr.trans hsuf)⟩ fun r rprev hr => hstake r rprev (hr.trans hsuf)
      obtain ⟨_, _, _, _, s, hcore, -, hs⟩ := h.block p _ List.suffix_rfl (List.cons_ne_nil q pprev)
      have hc := created_le hcore (hstake p _ List.suffix_rfl (List.cons_ne_nil q pprev))
      rw [show PIndex.getBlockHash (p :: q :: pprev) = p.hash from rfl, hs, subsidies]
      omega

/-- **A chain without coinstakes in proof-of-work blocks creates what is scheduled**: each
block at most its subsidy, and all of them at most the sum of the subsidies. -/
theorem moneySupply_le (h : ConnectedChain params path σ)
    (hstake : ∀ p pprev, p :: pprev <:+ path → pprev ≠ [] → p.block.NoStakeInWork) :
    (∀ p pprev, p :: pprev <:+ path → pprev ≠ [] → ∃ env best mempool T s,
      p.block.connectBlockCore params env best mempool T p pprev = .ok s ∧
        σ.nMint p.hash = s.nValueOut - s.nValueIn + s.nFees ∧ s.nValueOut - s.nValueIn ≤ subsidy p pprev) ∧
      σ.nMoneySupply path.getBlockHash ≤ subsidies path := by
  refine ⟨fun p pprev hsuf hne => ?_, h.recorded.supply_le hstake⟩
  obtain ⟨env, best, mempool, T, s, hcore, hmint, -⟩ := h.recorded.block p pprev hsuf hne
  exact ⟨env, best, mempool, T, s, hcore, hmint, created_le hcore (hstake p pprev hsuf hne)⟩

end Chain

/-! ### A coinstake that no check looks at -/

namespace Sample

/-- A coinstake that takes the payment and pays all the money there is. -/
def stake : CTransaction where
  nTime := time 2
  vin := [⟨⟨payment.getHash, 0⟩, [], 0xffffffff⟩]
  vout := [⟨0, []⟩, ⟨MAX_MONEY, [0x51]⟩]

/-- A proof-of-work block with that coinstake as its last transaction. -/
def staked : CBlock := block b₁ 2 [coinbase 2 1, payment, stake]

/-- The readings of connecting it: the payment is in the block itself. -/
def stakedEnv : BlockEnv :=
  { blockEnv true with
    disk := ⟨fun _ _ => true, fun _ pos => if pos.nBlockPos = 2000 then some payment else some paid⟩ }

/-- The entries of the two blocks. -/
def entry₁ : CBlockIndex := newEntry b₁ (blockPos 1000) b₁.getPoWHash [genesis] (0, false)
def stakedEntry : CBlockIndex := newEntry staked (blockPos 2000) staked.getPoWHash [entry₁, genesis] (0, false)

/-- The best block is the genesis block, or `b₁`. -/
def best₀ : BestChain := ⟨[genesis], 0⟩
def best₁ : BestChain := ⟨[entry₁, genesis], 1⟩

/-- The session that starts at the genesis block. -/
def session₀ : Session Unit := (Node.genesis genesis ()).session

/-- The first block creates what is scheduled. -/
theorem entry₁_moneySupply_le : ∃ σ : Session Unit, ConnectedChain CChainParams.test [entry₁, genesis] σ ∧
    σ.nMoneySupply (PIndex.getBlockHash [entry₁, genesis]) ≤ subsidies [entry₁, genesis] := by
  obtain ⟨σ, hσ⟩ := exists_eq_ok_of_isOk (x := b₁.connectBlock CChainParams.test stakedEnv best₀ (fun _ => none)
    (fun _ => none) entry₁ [genesis] session₀) (by decide)
  have hchain : ConnectedChain CChainParams.test [entry₁, genesis] σ :=
    .connect (.genesis rfl) (by decide) hσ
  refine ⟨σ, hchain, (moneySupply_le hchain fun p pprev hsuf hne => ?_).2⟩
  rcases List.suffix_cons_iff.1 hsuf with heq | hsuf
  · obtain ⟨rfl, -⟩ := List.cons.inj heq
    have hall : ∀ tx ∈ entry₁.block.vtx, tx.isCoinStake = false := by decide
    exact fun _ => hall
  · rcases List.suffix_cons_iff.1 hsuf with heq | hsuf
    · exact absurd (List.cons.inj heq).2 hne
    · simp at hsuf

/-- **A coinstake in a proof-of-work block creates any amount**: the money supply after
two blocks is above the sum of their subsidies. -/
theorem staked_moneySupply : ∃ σ : Session Unit, ConnectedChain CChainParams.test [stakedEntry, entry₁, genesis] σ ∧
    subsidies [stakedEntry, entry₁, genesis] <
      σ.nMoneySupply (PIndex.getBlockHash [stakedEntry, entry₁, genesis]) := by
  have hrun : (do
      let σ ← b₁.connectBlock CChainParams.test stakedEnv best₀ (fun _ => none) (fun _ => none) entry₁ [genesis] session₀
      let σ' ← staked.connectBlock CChainParams.test stakedEnv best₁ (fun _ => none) (fun _ => none) stakedEntry
        [entry₁, genesis] σ
      return σ'.nMoneySupply stakedEntry.hash) = .ok (MAX_MONEY + 10 * COIN) := by decide
  simp only [bind_eq_ok, pure_eq_ok] at hrun
  obtain ⟨σ, h₁, σ', h₂, hsupply⟩ := hrun
  refine ⟨σ', .connect (.connect (.genesis rfl) (by decide) h₁) (by decide) h₂, ?_⟩
  rw [show PIndex.getBlockHash [stakedEntry, entry₁, genesis] = stakedEntry.hash from rfl, hsupply]
  decide

end Sample

end PayDayCoin
