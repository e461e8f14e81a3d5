import PayDayCoin.MasternodeReward
import PayDayCoin.Kernel

/-!
# Making a coinstake

`CreateCoinStake` looks for a kernel among the wallet's coins, adds inputs of the same key, and appends outputs in
several steps: one or two for the stake, one for each share of the previous block's spenders, and those of the
masternode. All but the shares have no value until the end, where a chain of branches on the number of outputs gives
the stake, the reward and the masternode payment to them.
-/

namespace PayDayCoin

/-- `txnouttype`. -/
inductive TxnOutType
  | TX_NONSTANDARD | TX_PUBKEY | TX_PUBKEYHASH | TX_SCRIPTHASH | TX_MULTISIG | TX_NULL_DATA
deriving DecidableEq

/-- A coin that `SelectCoinsForStaking` takes: an output of a transaction of the wallet. -/
structure StakeCoin where
  wtx : CTransaction
  n : UInt32
  txout : CTxOut
  getElem_eq : wtx.vout[n.toNat]? = some txout
  /-- Only outputs of at least `nMinimumInputValue` are taken. -/
  nValue_nonneg : 0 ≤ txout.nValue

/-- The coin's outpoint. -/
def StakeCoin.prevout [Crypto] (c : StakeCoin) : COutPoint := ⟨c.wtx.getHash, c.n⟩

/-- The sum of the values of outputs. -/
def valueSum (vout : List CTxOut) : ℤ := (vout.map CTxOut.nValue).sum

/-- What `CreateCoinStake` takes from the winning masternode. -/
structure StakeWinner where
  /-- `GetScriptForDestination(pubkey.GetID())`. -/
  payee : CScript
  donationAddress : CScript
  donationPercentage : ℤ

/-- What `CreateCoinStake` reads besides its arguments. -/
structure StakeEnv (CKey : Type) where
  /-- The transaction database and the block files. -/
  kernel : KernelEnv
  disk : DiskEnv
  txIndex : TxMap
  pindexPrev : PIndex
  /-- `pindexPrev == pindexBest`, at a turn of the search for a coin. -/
  isBest : COutPoint → ℕ → Bool
  nBalance : ℤ
  nReserveBalance : ℤ
  /-- What `SelectCoinsForStaking` gives. -/
  setCoins : List StakeCoin
  /-- `Solver`. -/
  solver : CScript → Option (TxnOutType × List (List UInt8))
  /-- `keystore.GetKey`, by the hash of the public key. -/
  getKey : List UInt8 → Option CKey
  hash160 : List UInt8 → List UInt8
  getPubKey : CKey → List UInt8
  getTime : ℤ
  fTestNet : Bool
  masternodePayments : CMasternodePayments
  /-- `mnodeman.GetCurrentMasterNode(1)`. -/
  winningNode : Option StakeWinner
  fIsInitialDownload : Bool
  /-- `block.ReadFromDisk(pindexPrev, true)`. -/
  prevBlock : Option CBlock
  /-- `dRewardV * (prevValueOut / allValueOut) / addrcount`, in floating point, as an amount. -/
  share : ℤ → ℤ → ℤ → ℕ → ℤ
  /-- `SignSignature`: the script of an input. -/
  signSignature : CTransaction → CTransaction → ℕ → Option CScript

namespace StakeEnv

variable {CKey : Type} (env : StakeEnv CKey)

/-! ### The kernel -/

variable [Crypto]

/-- Who is paid: `hasPayment`, `masternodepayee`, `payeerewardaddress` and `payeerewardpercent`. -/
structure StakePayee where
  hasPayment : Bool := false
  masternodepayee : CScript := []
  payeerewardaddress : CScript := []
  payeerewardpercent : ℤ := 0

/-- The outputs for the masternode, which are still without value. -/
def StakePayee.outputs (p : StakePayee) : List CTxOut :=
  (if p.hasPayment ∧ p.payeerewardpercent = 0 then [⟨0, p.masternodepayee⟩] else []) ++
  (if p.hasPayment ∧ 0 < p.payeerewardpercent ∧ p.payeerewardpercent < 100 then
    [⟨0, p.payeerewardaddress⟩, ⟨0, p.masternodepayee⟩] else []) ++
  (if p.hasPayment ∧ p.payeerewardpercent = 100 then [⟨0, p.payeerewardaddress⟩] else []) ++
  (if p.hasPayment ∧ 0 < p.payeerewardpercent ∧ p.payeerewardpercent < 100 then
    [⟨0, p.payeerewardaddress⟩, ⟨0, p.masternodepayee⟩] else [])

/-! ### The shares -/

/-- `vout[i].nValue = nValue`. -/
def setValue (vout : List CTxOut) (i : ℕ) (nValue : ℤ) : List CTxOut :=
  vout.modify i fun txout => { txout with nValue }

/-- The loop that signs the inputs. -/
def signInputs : List StakeCoin → ℕ → CTransaction → Option CTransaction
  | [], _, txNew => some txNew
  | pcoin :: vwtxPrev, nIn, txNew =>
    match env.signSignature pcoin.wtx txNew nIn with
    | none => none
    | some scriptSig =>
      signInputs vwtxPrev (nIn + 1) { txNew with vin := txNew.vin.modify nIn fun txin => { txin with scriptSig } }

end StakeEnv

end PayDayCoin
