import PayDayCoin.RoundsMemo
import PayDayCoin.WalletSpends

/-!
# Cached amounts

The amounts that `CWalletTx` keeps: what of a transaction is available, can be mixed, was mixed, is denominated, is
immature, or is watched only. Each is a sum over the outputs (`sumCredits`) that leaves some out and takes others by
their rounds (`Rule`), and is kept until it is marked dirty (`cachedCredit`). What the sums read changes with the
wallet's records, the chain, the locked coins and the keys: `Op` are the operations that change it.
-/

namespace PayDayCoin

/-- `isminetype`. -/
inductive IsMineType
  | no
  | watchOnly
  | spendable
deriving DecidableEq

/-- The amounts of a transaction that are kept. -/
inductive Cached
  | available
  | anonymizable
  | anonymized
  | denomUnconf
  | denomConf
  | immature
  | availableWatch
deriving DecidableEq

/-- What the chain and the memory pool say about the wallet's transactions. -/
structure ChainView where
  /-- `GetDepthInMainChain`. -/
  depth : CWalletTx → ℤ
  /-- `GetDepthInMainChain(false)`. -/
  depthNoIX : CWalletTx → ℤ
  isInMainChain : CWalletTx → Bool
  isFinalTx : CTransaction → Bool
  isTrusted : CWalletTx → Bool

/-- Settings. -/
structure CreditSettings where
  nCoinbaseMaturity : ℤ := 63
  fMasterNode : Bool := false
  nDarksendRounds : ℤ := 2
  /-- What a read past the end of a transaction's rounds gives. -/
  pastEnd : ℤ := 0

/-- The wallet with the cached amounts. -/
structure CreditWallet where
  wallet : CWallet
  mapTxSpends : List (COutPoint × Uint256) := []
  /-- Of the scripts that are the wallet's, those that it only watches. -/
  watchOnly : CScript → Bool := fun _ => false
  setLockedCoins : List COutPoint := []
  mDenomWtxes : CWallet.DenomWtxes := fun _ => none
  /-- The amounts that are kept, by transaction. -/
  cache : Uint256 → Cached → Option ℤ := fun _ _ => none
  view : ChainView
  settings : CreditSettings := {}

/-- `GetMNCollateral`. -/
def getMNCollateral : ℤ := 20000

/-- Which outputs an amount counts: not those that are skipped, and of the others those of the wallet that have the
right rounds, where it asks for them. -/
structure Rule where
  skip : ℕ → CTxOut → Bool
  test : Option (ℤ → Bool)
  filter : IsMineType

namespace CreditWallet

/-- The records of what is spent. -/
def spends (s : CreditWallet) : SpendWallet :=
  { wallet := s.wallet, mapTxSpends := s.mapTxSpends, depth := s.view.depth }

/-- `IsMine` of an output. -/
def isMineType (s : CreditWallet) (txout : CTxOut) : IsMineType :=
  if !s.wallet.isMineOut txout then .no else if s.watchOnly txout.scriptPubKey then .watchOnly else .spendable

/-- `CWallet::GetCredit` of an output; `none` is an exception. -/
def creditOut (s : CreditWallet) (filter : IsMineType) (txout : CTxOut) : Option ℤ :=
  if moneyRange txout.nValue then some (if s.isMineType txout = filter then txout.nValue else 0) else none

/-- `CWallet::IsDenominated`. -/
def isDenominated (s : CreditWallet) (o : COutPoint) : Bool :=
  match s.wallet.mapWallet o.hash with
  | none => false
  | some prev => prev.tx.vout[o.n.toNat]?.any fun txout => isDenominatedAmount txout.nValue

/-- `IsLockedCoin`. -/
def isLockedCoin (s : CreditWallet) (o : COutPoint) : Bool := o ∈ s.setLockedCoins

/-- `GetBlocksToMaturity`. -/
def getBlocksToMaturity (s : CreditWallet) (wtx : CWalletTx) : ℤ :=
  if !(wtx.tx.isCoinBase || wtx.tx.isCoinStake) then 0 else max 0 (s.settings.nCoinbaseMaturity + 1 - s.view.depth wtx)

/-- The check that each amount but the immature one begins with. -/
def isMature (s : CreditWallet) (wtx : CWalletTx) : Bool :=
  !((wtx.tx.isCoinBase || wtx.tx.isCoinStake) && 0 < s.getBlocksToMaturity wtx)

/-! ### The sums -/

section Sums

variable [Crypto]

/-- The outpoint of an output. -/
def outPoint (wtx : CWalletTx) (i : ℕ) : COutPoint := ⟨wtx.tx.getHash, UInt32.ofNat i⟩

/-- Whether an output is counted, and the map of the rounds afterwards. -/
def counts (s : CreditWallet) (wtx : CWalletTx) (R : Rule) (i : ℕ) (txout : CTxOut) (m : CWallet.DenomWtxes) :
    Bool × CWallet.DenomWtxes :=
  if R.skip i txout then (false, m)
  else
    match R.test with
    | none => (true, m)
    | some test =>
      let r := s.wallet.getInputDarksendRounds s.settings.pastEnd s.settings.nDarksendRounds (outPoint wtx i) m
      (test r.1, r.2)

/-- The loop over the outputs, from the `i`-th on; `none` is an exception. -/
def sumCredits (s : CreditWallet) (wtx : CWalletTx) (R : Rule) :
    List CTxOut → ℕ → ℤ → CWallet.DenomWtxes → Option ℤ × CWallet.DenomWtxes
  | [], _, nCredit, m => (some nCredit, m)
  | txout :: vout, i, nCredit, m =>
    let r := s.counts wtx R i txout m
    if r.1 then
      match s.creditOut R.filter txout with
      | none => (none, r.2)
      | some credit =>
        if moneyRange (nCredit + credit) then s.sumCredits wtx R vout (i + 1) (nCredit + credit) r.2 else (none, r.2)
    else s.sumCredits wtx R vout (i + 1) nCredit r.2

/-- An amount that is kept: zero where the gate is shut, else the one that is kept, else the sum, which is kept from
then on. -/
def cachedCredit (s : CreditWallet) (wtx : CWalletTx) (kind : Cached) (gate : Bool) (R : Rule) (fUseCache : Bool) :
    Option ℤ × CreditWallet :=
  if !gate then (some 0, s)
  else
    match if fUseCache then s.cache wtx.tx.getHash kind else none with
    | some nCredit => (some nCredit, s)
    | none =>
      let r := s.sumCredits wtx R wtx.tx.vout 0 0 s.mDenomWtxes
      match r.1 with
      | none => (none, { s with mDenomWtxes := r.2 })
      | some nCredit =>
        (some nCredit,
          { s with
            mDenomWtxes := r.2
            cache := Function.update s.cache wtx.tx.getHash
              (Function.update (s.cache wtx.tx.getHash) kind (some nCredit)) })

/-! ### The amounts -/

def immatureRule : Rule := ⟨fun _ _ => false, none, .spendable⟩

/-- `GetImmatureCredit`. -/
def getImmatureCredit (s : CreditWallet) (wtx : CWalletTx) (fUseCache : Bool) : Option ℤ × CreditWallet :=
  s.cachedCredit wtx .immature
    (wtx.tx.isCoinBase && 0 < s.getBlocksToMaturity wtx && s.view.isInMainChain wtx) immatureRule fUseCache

def availableRule (wtx : CWalletTx) : Rule := ⟨fun i _ => wtx.isSpent i, none, .spendable⟩

/-- `GetAvailableCredit`. -/
def getAvailableCredit (s : CreditWallet) (wtx : CWalletTx) (fUseCache : Bool) : Option ℤ × CreditWallet :=
  s.cachedCredit wtx .available (s.isMature wtx) (availableRule wtx) fUseCache

def anonymizableRule (s : CreditWallet) (wtx : CWalletTx) : Rule :=
  ⟨fun i txout => s.spends.isSpent (outPoint wtx i) || s.isLockedCoin (outPoint wtx i) ||
      (s.settings.fMasterNode && txout.nValue == getMNCollateral * COIN),
    some fun rounds => -2 ≤ rounds && rounds < s.settings.nDarksendRounds, .spendable⟩

/-- `GetAnonymizableCredit`. -/
def getAnonymizableCredit (s : CreditWallet) (wtx : CWalletTx) (fUseCache : Bool) : Option ℤ × CreditWallet :=
  s.cachedCredit wtx .anonymizable (s.isMature wtx) (s.anonymizableRule wtx) fUseCache

def anonymizedRule (s : CreditWallet) (wtx : CWalletTx) : Rule :=
  ⟨fun i _ => s.spends.isSpent (outPoint wtx i) || !s.isDenominated (outPoint wtx i),
    some fun rounds => s.settings.nDarksendRounds ≤ rounds, .spendable⟩

/-- `GetAnonymizedCredit`. -/
def getAnonymizedCredit (s : CreditWallet) (wtx : CWalletTx) (fUseCache : Bool) : Option ℤ × CreditWallet :=
  s.cachedCredit wtx .anonymized (s.isMature wtx) (s.anonymizedRule wtx) fUseCache

def denominatedRule (s : CreditWallet) (wtx : CWalletTx) : Rule :=
  ⟨fun i txout => s.spends.isSpent (outPoint wtx i) || !isDenominatedAmount txout.nValue, none, .spendable⟩

/-- `GetDenominatedCredit`. -/
def getDenominatedCredit (s : CreditWallet) (wtx : CWalletTx) (unconfirmed fUseCache : Bool) :
    Option ℤ × CreditWallet :=
  let isUnconfirmed := !s.view.isFinalTx wtx.tx || (!s.view.isTrusted wtx && s.view.depthNoIX wtx == 0)
  s.cachedCredit wtx (if unconfirmed then .denomUnconf else .denomConf)
    (s.isMature wtx && 0 ≤ s.view.depthNoIX wtx && unconfirmed == isUnconfirmed) (s.denominatedRule wtx) fUseCache

def availableWatchRule (s : CreditWallet) (wtx : CWalletTx) : Rule :=
  ⟨fun i _ => s.spends.isSpent (outPoint wtx i), none, .watchOnly⟩

/-- `GetAvailableWatchOnlyCredit`. -/
def getAvailableWatchOnlyCredit (s : CreditWallet) (wtx : CWalletTx) (fUseCache : Bool) : Option ℤ × CreditWallet :=
  s.cachedCredit wtx .availableWatch (s.isMature wtx) (s.availableWatchRule wtx) fUseCache

/-- The amount of a kind. -/
def getCredit (s : CreditWallet) (wtx : CWalletTx) (fUseCache : Bool) : Cached → Option ℤ × CreditWallet
  | .available => s.getAvailableCredit wtx fUseCache
  | .anonymizable => s.getAnonymizableCredit wtx fUseCache
  | .anonymized => s.getAnonymizedCredit wtx fUseCache
  | .denomUnconf => s.getDenominatedCredit wtx true fUseCache
  | .denomConf => s.getDenominatedCredit wtx false fUseCache
  | .immature => s.getImmatureCredit wtx fUseCache
  | .availableWatch => s.getAvailableWatchOnlyCredit wtx fUseCache

end Sums

/-! ### What changes the wallet -/

/-- What `CWalletTx::MarkDirty` leaves of the amounts. -/
def dirty (cached : Cached → Option ℤ) (kind : Cached) : Option ℤ :=
  if kind = .immature then cached .immature else none

/-- `CWallet::MarkDirty`. -/
def markAllDirty (s : CreditWallet) : CreditWallet := { s with cache := fun id => dirty (s.cache id) }

/-- `MarkDirty` of a transaction, if the wallet has it. -/
def markDirty (s : CreditWallet) (id : Uint256) : CreditWallet :=
  match s.wallet.mapWallet id with
  | none => s
  | some _ => { s with cache := Function.update s.cache id (dirty (s.cache id)) }

/-- `CWalletTx::MarkSpent` and `MarkUnspent`, for a transaction of the wallet and an output that there is. -/
def markOutput (s : CreditWallet) (o : COutPoint) (spent : Bool) : CreditWallet :=
  match s.wallet.mapWallet o.hash with
  | none => s
  | some wtx =>
    if wtx.tx.vout.length ≤ o.n.toNat then s
    else
      { s with
        wallet :=
          { s.wallet with
            mapWallet := Function.update s.wallet.mapWallet o.hash
              (some (if spent then wtx.markSpent o.n.toNat else wtx.markUnspent o.n.toNat)) }
        cache :=
          if wtx.isSpent o.n.toNat = spent then s.cache
          else Function.update s.cache o.hash (Function.update (s.cache o.hash) .available none) }

/-- `CWalletTx::MarkSpent`. -/
def markSpent (s : CreditWallet) (o : COutPoint) : CreditWallet := s.markOutput o true

/-- `CWalletTx::MarkUnspent`. -/
def markUnspent (s : CreditWallet) (o : COutPoint) : CreditWallet := s.markOutput o false

/-- `DisableTransaction`. -/
def disableTransaction (s : CreditWallet) (tx : CTransaction) : CreditWallet :=
  tx.vin.foldl (fun s txin =>
    match s.wallet.mapWallet txin.prevout.hash with
    | none => s
    | some prev =>
      if prev.tx.vout[txin.prevout.n.toNat]?.any s.wallet.isMineOut then s.markUnspent txin.prevout else s) s

/-- `LockCoin`. -/
def lockCoin (s : CreditWallet) (o : COutPoint) : CreditWallet :=
  { s with setLockedCoins := s.setLockedCoins.insert o }

/-- `UnlockCoin`. -/
def unlockCoin (s : CreditWallet) (o : COutPoint) : CreditWallet :=
  { s with setLockedCoins := s.setLockedCoins.filter (· ≠ o) }

/-- `UnlockAllCoins`. -/
def unlockAllCoins (s : CreditWallet) : CreditWallet := { s with setLockedCoins := [] }

/-- A key or a script is added: the scripts that are the wallet's afterwards, and those that it only watches. -/
def importKey (s : CreditWallet) (isMineScript watchOnly : CScript → Bool) : CreditWallet :=
  { s.markAllDirty with wallet := { s.wallet with isMineScript }, watchOnly }

section Steps

variable [Crypto]

/-- `AddToWallet`, not from loading. -/
def addToWallet (s : CreditWallet) (wtxIn : CWalletTx) : CreditWallet :=
  { s with
    wallet := s.wallet.addToWallet wtxIn
    cache := Function.update s.cache wtxIn.tx.getHash
      (match s.wallet.mapWallet wtxIn.tx.getHash with
        | none => fun _ => none
        | some _ => dirty (s.cache wtxIn.tx.getHash)) }

/-- `AddToWalletIfInvolvingMe`, with `fUpdate`. -/
def addToWalletIfInvolvingMe (s : CreditWallet) (tx : CTransaction) (pblock : Option CBlock) : Option CreditWallet :=
  if s.wallet.involves tx then
    let wtx : CWalletTx := { tx := tx }
    some (s.addToWallet (match pblock with | none => wtx | some b => wtx.setMerkleBranch b))
  else none

/-- `SyncTransaction`. -/
def syncTransaction (tx : CTransaction) (pblock : Option CBlock) (fConnect : Bool) (s : CreditWallet) : CreditWallet :=
  match s.addToWalletIfInvolvingMe tx pblock with
  | none => s
  | some s =>
    let s := tx.vin.foldl (fun s txin => s.markDirty txin.prevout.hash) s
    if !fConnect then if tx.isCoinStake && s.wallet.isFromMe tx then s.disableTransaction tx else s
    else (s.addToWalletIfInvolvingMe tx pblock).getD s

/-- What happens to the wallet. -/
inductive Op
  /-- An amount is asked for. -/
  | getCredit (kind : Cached) (id : Uint256) (fUseCache : Bool)
  | addToWallet (wtxIn : CWalletTx)
  | syncTransaction (tx : CTransaction) (pblock : Option CBlock) (fConnect : Bool)
  /-- A block is connected or disconnected, and each of its transactions synced. -/
  | syncBlock (b : CBlock) (fConnect : Bool)
  | markSpent (o : COutPoint)
  | markUnspent (o : COutPoint)
  | lockCoin (o : COutPoint)
  | unlockCoin (o : COutPoint)
  | unlockAllCoins
  | importKey (isMineScript watchOnly : CScript → Bool)

/-- An operation, in the same chain. -/
def apply (s : CreditWallet) : Op → CreditWallet
  | .getCredit kind id fUseCache =>
    match s.wallet.mapWallet id with
    | none => s
    | some wtx => (s.getCredit wtx fUseCache kind).2
  | .addToWallet wtxIn => s.addToWallet wtxIn
  | .syncTransaction tx pblock fConnect => syncTransaction tx pblock fConnect s
  | .syncBlock b fConnect => b.vtx.foldl (fun s tx => syncTransaction tx (some b) fConnect s) s
  | .markSpent o => s.markSpent o
  | .markUnspent o => s.markUnspent o
  | .lockCoin o => s.lockCoin o
  | .unlockCoin o => s.unlockCoin o
  | .unlockAllCoins => s.unlockAllCoins
  | .importKey isMineScript watchOnly => s.importKey isMineScript watchOnly

/-- An operation, and the chain and the memory pool after it. -/
def step (s : CreditWallet) (op : Op) (view : ChainView) : CreditWallet := { s.apply op with view }

/-- The operations one after the other. -/
def run (s : CreditWallet) (steps : List (Op × ChainView)) : CreditWallet :=
  steps.foldl (fun s p => s.step p.1 p.2) s

end Steps

end CreditWallet

end PayDayCoin
