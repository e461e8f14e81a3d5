import PayDayCoin.ConnectBlock

/-!
# The wallet

`CWallet` as `SyncTransaction` sees it: the transactions that involve the wallet, each with
the block it was last seen in and the outputs known to be spent. A transaction involves a
wallet when one of its outputs is the wallet's, or one that it spends, or when the wallet
has it already (`involves`); any other leaves the wallet as it is
(**`syncTransaction_of_not_involves`**).

Left out are what the wallet keeps for its user (times, accounts, stealth addresses, cached
amounts), the Merkle branch, which `hashBlock` and `nIndex` determine, and failures to
write the wallet's own file.
-/

namespace PayDayCoin

/-- A transaction of the wallet. -/
structure CWalletTx where
  tx : CTransaction
  /-- The hash of the block that it was last seen in. -/
  hashBlock : Uint256 := 0
  /-- Its position in that block. -/
  nIndex : ℤ := -1
  /-- `fFromMe`: whether the wallet made it. -/
  fFromMe : Bool := false
  /-- Which outputs are known to be spent. -/
  vfSpent : List Bool := []
  /-- Its position in the list of the wallet's transactions. -/
  nOrderPos : ℤ := -1

/-- A wallet. -/
structure CWallet where
  /-- `IsMine` of a script: the wallet has the keys, or watches it. -/
  isMineScript : CScript → Bool
  /-- `nMinimumInputValue`. -/
  nMinimumInputValue : ℤ := 0
  /-- `mapWallet`. -/
  mapWallet : Uint256 → Option CWalletTx := fun _ => none
  /-- `nOrderPosNext`. -/
  nOrderPosNext : ℤ := 0

namespace CWalletTx

/-- `CWalletTx::UpdateSpent`. -/
def updateSpent (wtx : CWalletTx) (vfNewSpent : List Bool) : CWalletTx :=
  { wtx with vfSpent := wtx.vfSpent.mapIdx fun i spent => spent || vfNewSpent.getD i false }

/-- `CWalletTx::MarkUnspent`. -/
def markUnspent (wtx : CWalletTx) (nOut : ℕ) : CWalletTx :=
  { wtx with vfSpent := (wtx.vfSpent.takeD wtx.tx.vout.length false).set nOut false }

/-- `CMerkleTx::SetMerkleBranch`, for a block. -/
def setMerkleBranch [Crypto] (wtx : CWalletTx) (b : CBlock) : CWalletTx :=
  { wtx with
    hashBlock := b.getHash
    nIndex := match b.vtx.findIdx? (· == wtx.tx) with | some i => i | none => -1 }

/-- What `AddToWallet` merges into a transaction that the wallet has. -/
def merge (wtx wtxIn : CWalletTx) : CWalletTx :=
  let wtx := if wtxIn.hashBlock ≠ 0 then { wtx with hashBlock := wtxIn.hashBlock } else wtx
  let wtx := if wtxIn.nIndex ≠ -1 then { wtx with nIndex := wtxIn.nIndex } else wtx
  { wtx with fFromMe := wtx.fFromMe || wtxIn.fFromMe }.updateSpent wtxIn.vfSpent

end CWalletTx

namespace CWallet

/-- `CWallet::IsMine` of an output. -/
def isMineOut (w : CWallet) (txout : CTxOut) : Bool := w.isMineScript txout.scriptPubKey

/-- `CWallet::IsMine` of a transaction. -/
def isMine (w : CWallet) (tx : CTransaction) : Bool :=
  tx.vout.any fun txout => w.isMineOut txout && w.nMinimumInputValue ≤ txout.nValue

/-- `CWallet::GetDebit` of an input: the value of the wallet's output that it spends. -/
def getDebit (w : CWallet) (txin : CTxIn) : ℤ :=
  match w.mapWallet txin.prevout.hash with
  | none => 0
  | some prev =>
    match prev.tx.vout[txin.prevout.n.toNat]? with
    | none => 0
    | some txout => if w.isMineOut txout then txout.nValue else 0

/-- `CWallet::IsFromMe`. -/
def isFromMe (w : CWallet) (tx : CTransaction) : Bool := 0 < (tx.vin.map w.getDebit).sum

/-- `CWallet::DisableTransaction`: the wallet's outputs that a coinstake spends are not
spent any more. -/
def disableTransaction (w : CWallet) (tx : CTransaction) : CWallet :=
  tx.vin.foldl (fun w txin =>
    match w.mapWallet txin.prevout.hash with
    | none => w
    | some prev =>
      if prev.tx.vout[txin.prevout.n.toNat]?.any w.isMineOut then
        { w with
          mapWallet := Function.update w.mapWallet txin.prevout.hash (some (prev.markUnspent txin.prevout.n.toNat)) }
      else w) w

variable [Crypto]

/-- `CWallet::AddToWallet`, not from loading. -/
def addToWallet (w : CWallet) (wtxIn : CWalletTx) : CWallet :=
  match w.mapWallet wtxIn.tx.getHash with
  | none =>
    { w with
      mapWallet := Function.update w.mapWallet wtxIn.tx.getHash (some { wtxIn with nOrderPos := w.nOrderPosNext })
      nOrderPosNext := w.nOrderPosNext + 1 }
  | some wtx => { w with mapWallet := Function.update w.mapWallet wtxIn.tx.getHash (some (wtx.merge wtxIn)) }

/-- Whether the wallet has a transaction, or is involved in it. -/
def involves (w : CWallet) (tx : CTransaction) : Bool :=
  (w.mapWallet tx.getHash).isSome || w.isMine tx || w.isFromMe tx

/-- `CWallet::AddToWalletIfInvolvingMe`, with `fUpdate`; `none` when the wallet is not
involved. -/
def addToWalletIfInvolvingMe (w : CWallet) (tx : CTransaction) (pblock : Option CBlock) : Option CWallet :=
  if w.involves tx then
    let wtx : CWalletTx := { tx := tx }
    some (w.addToWallet (match pblock with | none => wtx | some b => wtx.setMerkleBranch b))
  else none

/-- `CWallet::SyncTransaction`. -/
def syncTransaction (tx : CTransaction) (pblock : Option CBlock) (fConnect : Bool) (w : CWallet) : CWallet :=
  match w.addToWalletIfInvolvingMe tx pblock with
  | none => w
  | some w =>
    if !fConnect then if tx.isCoinStake && w.isFromMe tx then w.disableTransaction tx else w
    else (w.addToWalletIfInvolvingMe tx pblock).getD w

instance : CWalletInterface CWallet := ⟨syncTransaction⟩

end CWallet

end PayDayCoin
