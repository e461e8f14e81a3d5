import PayDayCoin.CachedCredit
import PayDayCoin.MemPool

/-!
# Selecting coins

The coins that a spend may take (`availableCoins`), and which it takes: the ones that the user selected, denominated
ones from the large to the small, or what `SelectCoinsMinConf` finds, by chance where it solves a subset sum. Only the
last of the three looks at the time stamps of the coins, and only the first and the last at whether they can be spent.
-/

namespace PayDayCoin

/-- `AvailableCoinsType`. -/
inductive AvailableCoinsType
  | ALL_COINS
  | ONLY_DENOMINATED
  | ONLY_NOT10000IFMN
  | ONLY_NONDENOMINATED_NOT10000IFMN
deriving DecidableEq

/-- `CCoinControl`: the outputs that the user selected, and the script for the change, if the user gave one. -/
structure CCoinControl where
  setSelected : List COutPoint := []
  destChange : Option CScript := none

namespace CCoinControl

def hasSelected (c : CCoinControl) : Bool := !c.setSelected.isEmpty

def isSelected (c : CCoinControl) (o : COutPoint) : Bool := o ∈ c.setSelected

end CCoinControl

/-- `COutput`: an output of a transaction of the wallet. -/
structure COutput where
  /-- The transaction's hash. -/
  id : Uint256
  tx : CWalletTx
  i : ℕ
  nDepth : ℤ
  fSpendable : Bool

namespace COutput

/-- What the coins of a set differ by. -/
def key (c : COutput) : Uint256 × ℕ := (c.id, c.i)

def txout (c : COutput) : CTxOut := c.tx.tx.vout.getD c.i ⟨-1, []⟩

def nValue (c : COutput) : ℤ := c.txout.nValue

def prevout (c : COutput) : COutPoint := ⟨c.id, UInt32.ofNat c.i⟩

end COutput

/-- The wallet as `CreateTransaction` sees it. -/
structure FundedWallet [Crypto] where
  credit : CreditWallet
  /-- The hashes of the wallet's transactions, in order. -/
  ids : List Uint256
  nTransactionFee : ℤ := MIN_TX_FEE
  fMasternodeSoftLock : Bool := false
  nodup : ids.Nodup
  /-- Every transaction is under its hash, and outputs are counted with 32 bits. -/
  keyed : ∀ id wtx, credit.wallet.mapWallet id = some wtx → wtx.tx.getHash = id ∧ wtx.tx.vout.length ≤ 2 ^ 32

/-- What is drawn by chance in one turn of the fee loop, or depends on more than the wallet. -/
structure Draws where
  /-- `random_shuffle`, by call. -/
  shuffle : ℕ → List COutput → List COutput
  shuffle_perm : ∀ n l, (shuffle n l).Perm l
  /-- `insecure_rand`, by call, repetition and coin. -/
  rand : ℕ → ℕ → ℕ → Bool
  /-- `GetInputDarksendRounds`, which depends on what was asked before. -/
  rounds : COutPoint → ℤ
  /-- The order of the coins in their set, which is by address in memory. -/
  arrange : List COutput → List COutput
  arrange_perm : ∀ l, (arrange l).Perm l
  /-- Where the change goes. -/
  position : ℕ

namespace FundedWallet

section Available

variable [Crypto] (s : FundedWallet)

/-- The amounts that a type of coins has. -/
def wanted (coin_type : AvailableCoinsType) (txout : CTxOut) : Bool :=
  match coin_type with
  | .ONLY_DENOMINATED => isDenominatedAmount txout.nValue
  | .ONLY_NOT10000IFMN => !(s.credit.settings.fMasterNode && txout.nValue == getMNCollateral * COIN)
  | .ONLY_NONDENOMINATED_NOT10000IFMN =>
    if isCollateralAmount txout.nValue then false
    else
      let found := !isDenominatedAmount txout.nValue
      if found && s.credit.settings.fMasterNode then txout.nValue != getMNCollateral * COIN else found
  | .ALL_COINS => true

/-- Whether `AvailableCoins` looks at the outputs of a transaction. -/
def usable (fOnlyConfirmed useIX : Bool) (wtx : CWalletTx) : Bool :=
  s.credit.view.isFinalTx wtx.tx && !(fOnlyConfirmed && !s.credit.view.isTrusted wtx) &&
    !(wtx.tx.isCoinBase && 0 < s.credit.getBlocksToMaturity wtx) &&
    !(wtx.tx.isCoinStake && 0 < s.credit.getBlocksToMaturity wtx) &&
    0 < s.credit.view.depthNoIX wtx && !(useIX && s.credit.view.depthNoIX wtx < 10)

/-- Whether an output is available. -/
def available (coinControl : Option CCoinControl) (coin_type : AvailableCoinsType) (id : Uint256) (wtx : CWalletTx)
    (i : ℕ) (txout : CTxOut) : Bool :=
  s.wanted coin_type txout && !wtx.isSpent i && s.credit.isMineType txout ≠ .no &&
    !s.credit.isLockedCoin ⟨id, UInt32.ofNat i⟩ && 0 < txout.nValue &&
    coinControl.all fun c => !c.hasSelected || c.isSelected ⟨id, UInt32.ofNat i⟩

/-- The available outputs of a transaction. -/
def coinsOf (coinControl : Option CCoinControl) (coin_type : AvailableCoinsType) (id : Uint256) (wtx : CWalletTx) :
    List COutput :=
  (List.range wtx.tx.vout.length).filterMap fun i =>
    match wtx.tx.vout[i]? with
    | none => none
    | some txout =>
      if s.available coinControl coin_type id wtx i txout then
        some ⟨id, wtx, i, s.credit.view.depthNoIX wtx, s.credit.isMineType txout = .spendable⟩
      else none

/-- `AvailableCoins`. -/
def availableCoins (fOnlyConfirmed : Bool) (coinControl : Option CCoinControl) (coin_type : AvailableCoinsType)
    (useIX : Bool) : List COutput :=
  s.ids.flatMap fun id =>
    match s.credit.wallet.mapWallet id with
    | none => []
    | some wtx => if s.usable fOnlyConfirmed useIX wtx then s.coinsOf coinControl coin_type id wtx else []

end Available

/-! ### Sets of coins -/

/-- A coin is inserted into a set. -/
def insertCoin (setCoins : List COutput) (c : COutput) : List COutput :=
  if setCoins.any fun c' => c'.key = c.key then setCoins else setCoins ++ [c]

/-- The coins that are accepted, one after the other, are inserted and counted. -/
def takeCoins (accept : ℤ → COutput → Bool) : List COutput → List COutput × ℤ → List COutput × ℤ
  | [], r => r
  | c :: vCoins, r =>
    if accept r.2 c then takeCoins accept vCoins (insertCoin r.1 c, r.2 + c.nValue) else takeCoins accept vCoins r

/-- All coins of a list. -/
def takeAll (vCoins : List COutput) : List COutput × ℤ := takeCoins (fun _ _ => true) vCoins ([], 0)

/-! ### ApproximateBestSubset -/

/-- The coins with a mark, where the first of the list has this index. -/
def subset (marks : ℕ → Bool) : List COutput → ℕ → List COutput
  | [], _ => []
  | c :: vValue, i => if marks i then c :: subset marks vValue (i + 1) else subset marks vValue (i + 1)

/-- `vfBest` and `nBest`. -/
structure Best where
  vfBest : ℕ → Bool
  nBest : ℤ

/-- What a pass over the coins changes. -/
structure Pass where
  vfIncluded : ℕ → Bool
  nTotal : ℤ
  fReachedTarget : Bool
  best : Best

/-- A pass over the coins: the first one includes by chance, the second all that the first left out. -/
def onePass (nTargetValue : ℤ) (nPass : ℕ) (rand : ℕ → Bool) : List COutput → ℕ → Pass → Pass
  | [], _, p => p
  | c :: vValue, i, p =>
    if if nPass = 0 then rand i else !p.vfIncluded i then
      let nTotal := p.nTotal + c.nValue
      if nTargetValue ≤ nTotal then
        let best := if nTotal < p.best.nBest then ⟨Function.update p.vfIncluded i true, nTotal⟩ else p.best
        onePass nTargetValue nPass rand vValue (i + 1)
          { vfIncluded := Function.update p.vfIncluded i false, nTotal := p.nTotal, fReachedTarget := true, best }
      else
        onePass nTargetValue nPass rand vValue (i + 1)
          { p with vfIncluded := Function.update p.vfIncluded i true, nTotal }
    else onePass nTargetValue nPass rand vValue (i + 1) p

/-- The two passes of a repetition. -/
def twoPasses (nTargetValue : ℤ) (rand : ℕ → Bool) (vValue : List COutput) (best : Best) : Best :=
  let p := onePass nTargetValue 0 rand vValue 0
    { vfIncluded := fun _ => false, nTotal := 0, fReachedTarget := false, best }
  if p.fReachedTarget then p.best else (onePass nTargetValue 1 rand vValue 0 p).best

/-- The repetitions, as long as the target is not met exactly. -/
def repeatPasses (nTargetValue : ℤ) (rand : ℕ → ℕ → Bool) (vValue : List COutput) : ℕ → ℕ → Best → Best
  | 0, _, best => best
  | left + 1, nRep, best =>
    if best.nBest = nTargetValue then best
    else repeatPasses nTargetValue rand vValue left (nRep + 1) (twoPasses nTargetValue (rand nRep) vValue best)

/-- `ApproximateBestSubset`, of 1000 repetitions. -/
def approximateBestSubset (vValue : List COutput) (nTotalLower nTargetValue : ℤ) (rand : ℕ → ℕ → Bool) : Best :=
  repeatPasses nTargetValue rand vValue 1000 0 ⟨fun _ => true, nTotalLower⟩

/-! ### SelectCoins -/

/-- What `SelectCoinsMinConf` collects: the coins below the target and a cent, and the smallest of the others. -/
structure Scan where
  vValue : List COutput := []
  nTotalLower : ℤ := 0
  coinLowestLarger : Option COutput := none

/-- The loop over the coins; a coin of just the right amount ends it. -/
def scanCoins (eligible : COutput → Bool) (nTargetValue : ℤ) : List COutput → Scan → COutput ⊕ Scan
  | [], r => .inr r
  | c :: vCoins, r =>
    if !eligible c then scanCoins eligible nTargetValue vCoins r
    else if c.nValue = nTargetValue then .inl c
    else if c.nValue < nTargetValue + CENT then
      scanCoins eligible nTargetValue vCoins
        { r with vValue := r.vValue ++ [c], nTotalLower := r.nTotalLower + c.nValue }
    else if c.nValue < (match r.coinLowestLarger with | none => 2 ^ 63 - 1 | some c => c.nValue) then
      scanCoins eligible nTargetValue vCoins { r with coinLowestLarger := some c }
    else scanCoins eligible nTargetValue vCoins r

variable [Crypto] (s : FundedWallet)

/-- The coins that `SelectCoinsMinConf` considers: each can be spent, has the confirmations, and is no newer than the
transaction. The loop over `tryDenom` returns in its first turn on every path, so denominated coins are left out. -/
def eligible (nSpendTime : UInt32) (nConfMine nConfTheirs : ℤ) (c : COutput) : Bool :=
  c.fSpendable && !(c.nDepth < if s.credit.wallet.isFromMe c.tx.tx then nConfMine else nConfTheirs) &&
    !(nSpendTime < c.tx.tx.nTime) && !isDenominatedAmount c.nValue

/-- `SelectCoinsMinConf`; `call` counts the calls. -/
def selectCoinsMinConf (d : Draws) (call : ℕ) (nTargetValue : ℤ) (nSpendTime : UInt32) (nConfMine nConfTheirs : ℤ)
    (vCoins : List COutput) : Option (List COutput × ℤ) :=
  let vCoins := d.shuffle call vCoins
  -- the denominated ones are moved down on the list
  let vCoins := vCoins.filter (fun c => !isDenominatedAmount c.nValue) ++
    vCoins.filter fun c => isDenominatedAmount c.nValue
  match scanCoins (s.eligible nSpendTime nConfMine nConfTheirs) nTargetValue vCoins {} with
  | .inl c => some (takeAll [c])
  | .inr r =>
    if r.nTotalLower = nTargetValue then some (takeAll r.vValue)
    else if r.nTotalLower < nTargetValue then r.coinLowestLarger.map fun c => takeAll [c]
    else
      let vValue := r.vValue.mergeSort fun a b => b.nValue ≤ a.nValue
      let best := approximateBestSubset vValue r.nTotalLower nTargetValue (d.rand (2 * call))
      let best :=
        if best.nBest ≠ nTargetValue && nTargetValue + CENT ≤ r.nTotalLower then
          approximateBestSubset vValue r.nTotalLower (nTargetValue + CENT) (d.rand (2 * call + 1))
        else best
      match r.coinLowestLarger with
      | some c =>
        if (best.nBest ≠ nTargetValue && best.nBest < nTargetValue + CENT) || c.nValue ≤ best.nBest then
          some (takeAll [c])
        else some (takeAll (subset best.vfBest vValue 0))
      | none => some (takeAll (subset best.vfBest vValue 0))

/-- The coins that `SelectCoins` chooses from. -/
def pool (coinControl : Option CCoinControl) (coin_type : AvailableCoinsType) (useIX : Bool) : List COutput :=
  if coin_type = .ALL_COINS && s.fMasternodeSoftLock && !coinControl.any (·.hasSelected) then
    s.availableCoins true coinControl .ONLY_NONDENOMINATED_NOT10000IFMN useIX
  else s.availableCoins true coinControl coin_type useIX

end FundedWallet

end PayDayCoin
