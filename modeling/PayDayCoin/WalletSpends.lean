import PayDayCoin.Wallet

/-!
# The two records of what is spent

The wallet keeps what is spent twice: `vfSpent` of each transaction has a bit for each output, and `mapTxSpends` has
the transactions that spend an outpoint, of which those count that are not conflicted (`CWallet::IsSpent`). Only the
loading path of `AddToWallet` writes to `mapTxSpends`, and `EraseFromWallet` does not clear it. `Agrees` says what the
two records should say, and the lemmas what each operation does to the bits.
-/

namespace PayDayCoin

namespace CWalletTx

/-- `CWalletTx::IsSpent`, of an output that there is. -/
def isSpent (wtx : CWalletTx) (nOut : ℕ) : Bool := wtx.vfSpent.getD nOut false

/-- `CWalletTx::MarkSpent`, of an output that there is. -/
def markSpent (wtx : CWalletTx) (nOut : ℕ) : CWalletTx :=
  { wtx with vfSpent := (wtx.vfSpent.takeD wtx.tx.vout.length false).set nOut true }

end CWalletTx

/-- The wallet with `mapTxSpends`, in a chain and a memory pool. -/
structure SpendWallet where
  wallet : CWallet
  fFileBacked : Bool := true
  mapTxSpends : List (COutPoint × Uint256) := []
  /-- `GetDepthInMainChain`: negative for a transaction that is neither in the chain nor in the pool. -/
  depth : CWalletTx → ℤ

namespace SpendWallet

/-- `CWallet::IsSpent`. -/
def isSpent (s : SpendWallet) (o : COutPoint) : Bool :=
  s.mapTxSpends.any fun p => p.1 = o &&
    match s.wallet.mapWallet p.2 with
    | none => false
    | some wtx => 0 ≤ s.depth wtx

/-- `AddToSpends`. -/
def addToSpends (s : SpendWallet) (wtxid : Uint256) : SpendWallet :=
  match s.wallet.mapWallet wtxid with
  | none => s
  | some wtx =>
    if wtx.tx.isCoinBase then s
    else { s with mapTxSpends := s.mapTxSpends ++ wtx.tx.vin.map fun txin => (txin.prevout, wtxid) }

/-- The loop of `CommitTransaction` that marks the coins as spent. It stops at an exception; a transaction that the
wallet has not is added without data before. -/
def markCoins : List CTxIn → CWallet → CWallet
  | [], w => w
  | txin :: vin, w =>
    match w.mapWallet txin.prevout.hash with
    | none =>
      { w with
        mapWallet := Function.update w.mapWallet txin.prevout.hash (some { tx := { nTime := 0, vin := [], vout := [] } }) }
    | some coin =>
      if coin.tx.vout.length ≤ txin.prevout.n.toNat then w
      else markCoins vin
        { w with
          mapWallet := Function.update w.mapWallet txin.prevout.hash (some (coin.markSpent txin.prevout.n.toNat)) }

/-- What changes the wallet. -/
inductive Op
  /-- `AddToWallet`, not from loading. -/
  | addToWallet (wtxIn : CWalletTx)
  | syncTransaction (tx : CTransaction) (pblock : Option CBlock) (fConnect : Bool)
  | commitTransaction (wtxNew : CWalletTx)
  | eraseFromWallet (hash : Uint256)
  /-- Only the chain or the memory pool changes. -/
  | idle

section Steps

variable [Crypto]

/-- `AddToWallet` from loading. -/
def load (s : SpendWallet) (wtxIn : CWalletTx) : SpendWallet :=
  { s with
    wallet :=
      { s.wallet with
        mapWallet := Function.update s.wallet.mapWallet wtxIn.tx.getHash (some wtxIn) } }.addToSpends wtxIn.tx.getHash

/-- The wallet that the records of a file give. -/
def loaded (w : CWallet) (depth : CWalletTx → ℤ) (records : List CWalletTx) : SpendWallet :=
  records.foldl load { wallet := { w with mapWallet := fun _ => none }, depth }

/-- An operation, without what it does to the depths. -/
def apply (s : SpendWallet) : Op → CWallet
  | .addToWallet wtxIn => s.wallet.addToWallet wtxIn
  | .syncTransaction tx pblock fConnect => s.wallet.syncTransaction tx pblock fConnect
  | .commitTransaction wtxNew => markCoins wtxNew.tx.vin (s.wallet.addToWallet wtxNew)
  | .eraseFromWallet hash =>
    if s.fFileBacked then { s.wallet with mapWallet := Function.update s.wallet.mapWallet hash none } else s.wallet
  | .idle => s.wallet

/-- An operation, with the depths after it. -/
def step (s : SpendWallet) (op : Op) (depth : CWalletTx → ℤ) : SpendWallet :=
  { s with wallet := s.apply op, depth }

/-- The operations one after the other. -/
def run (s : SpendWallet) (steps : List (Op × (CWalletTx → ℤ))) : SpendWallet :=
  steps.foldl (fun s p => s.step p.1 p.2) s

end Steps

/-! ### What the records should say -/

/-- A transaction spends an outpoint. Coinbases spend nothing. -/
def Spends (tx : CTransaction) (o : COutPoint) : Prop := tx.isCoinBase = false ∧ ∃ txin ∈ tx.vin, txin.prevout = o

/-- A transaction of the wallet that is not conflicted. -/
def Live (s : SpendWallet) (id : Uint256) : Prop := ∃ wtx, s.wallet.mapWallet id = some wtx ∧ 0 ≤ s.depth wtx

/-- Some transaction of the wallet that is not conflicted spends the outpoint. -/
def SpentBy (s : SpendWallet) (o : COutPoint) : Prop :=
  ∃ id wtx, s.wallet.mapWallet id = some wtx ∧ 0 ≤ s.depth wtx ∧ Spends wtx.tx o

/-- The outpoint is an output of a transaction of the wallet, and the wallet's. -/
def Owned (s : SpendWallet) (o : COutPoint) : Prop :=
  ∃ wtx txout, s.wallet.mapWallet o.hash = some wtx ∧ wtx.tx.vout[o.n.toNat]? = some txout ∧
    s.wallet.isMineOut txout

/-- The bit of an outpoint in `vfSpent`. -/
def bitOf (w : CWallet) (o : COutPoint) : Bool :=
  match w.mapWallet o.hash with
  | none => false
  | some wtx => wtx.isSpent o.n.toNat

/-- `mapTxSpends` is exact, and the two records agree on the wallet's outputs with what is spent. -/
structure Agrees (s : SpendWallet) : Prop where
  spends : ∀ o id, (o, id) ∈ s.mapTxSpends ↔ ∃ wtx, s.wallet.mapWallet id = some wtx ∧ Spends wtx.tx o
  bit : ∀ o, s.Owned o → (bitOf s.wallet o = true ↔ s.isSpent o = true)
  spentBy : ∀ o, s.Owned o → (s.isSpent o = true ↔ s.SpentBy o)

/-- The same transactions under the same hashes, for the same owner. -/
structure SameTxs (w w' : CWallet) : Prop where
  mine : w'.isMineScript = w.isMineScript
  tx : ∀ id, (w'.mapWallet id).map CWalletTx.tx = (w.mapWallet id).map CWalletTx.tx

theorem SameTxs.refl (w : CWallet) : SameTxs w w := ⟨rfl, fun _ => rfl⟩

theorem SameTxs.trans {w₁ w₂ w₃ : CWallet} (h : SameTxs w₁ w₂) (h' : SameTxs w₂ w₃) : SameTxs w₁ w₃ :=
  ⟨h'.mine.trans h.mine, fun id => (h'.tx id).trans (h.tx id)⟩

/-- A record is replaced by one of the same transaction. -/
theorem SameTxs.update {w : CWallet} {id : Uint256} {wtx wtx' : CWalletTx} (h : w.mapWallet id = some wtx)
    (htx : wtx'.tx = wtx.tx) : SameTxs w { w with mapWallet := Function.update w.mapWallet id (some wtx') } := by
  refine ⟨rfl, fun id' => ?_⟩
  dsimp only
  by_cases hid : id' = id
  · subst hid
    rw [Function.update_self, h, Option.map_some, Option.map_some, htx]
  · rw [Function.update_of_ne hid]

theorem SameTxs.exists {w w' : CWallet} (h : SameTxs w w') {id : Uint256} {wtx : CWalletTx}
    (hwtx : w.mapWallet id = some wtx) : ∃ wtx', w'.mapWallet id = some wtx' ∧ wtx'.tx = wtx.tx := by
  have htx := h.tx id
  rw [hwtx, Option.map_some, Option.map_eq_some_iff] at htx
  exact htx

theorem SameTxs.symm {w w' : CWallet} (h : SameTxs w w') : SameTxs w' w :=
  ⟨h.mine.symm, fun id => (h.tx id).symm⟩

theorem SameTxs.isMineOut {w w' : CWallet} (h : SameTxs w w') (txout : CTxOut) :
    w'.isMineOut txout = w.isMineOut txout := by
  rw [CWallet.isMineOut, CWallet.isMineOut, h.mine]

theorem SameTxs.getDebit {w w' : CWallet} (h : SameTxs w w') (txin : CTxIn) : w'.getDebit txin = w.getDebit txin := by
  rw [CWallet.getDebit, CWallet.getDebit]
  cases hwtx : w.mapWallet txin.prevout.hash with
  | none =>
    have htx := h.tx txin.prevout.hash
    rw [hwtx, Option.map_none, Option.map_eq_none_iff] at htx
    rw [htx]
  | some wtx =>
    obtain ⟨wtx', hwtx', htx⟩ := h.exists hwtx
    simp only [hwtx', htx, h.isMineOut]

theorem SameTxs.isFromMe {w w' : CWallet} (h : SameTxs w w') (tx : CTransaction) : w'.isFromMe tx = w.isFromMe tx := by
  rw [CWallet.isFromMe, CWallet.isFromMe]
  rw [show w'.getDebit = w.getDebit from funext h.getDebit]

theorem SameTxs.owned_iff {s s' : SpendWallet} (h : SameTxs s.wallet s'.wallet) (o : COutPoint) :
    s'.Owned o ↔ s.Owned o := by
  constructor
  · rintro ⟨wtx', txout, hwtx', hout, hmine⟩
    obtain ⟨wtx, hwtx, htx⟩ := h.symm.exists hwtx'
    exact ⟨wtx, txout, hwtx, by rw [htx, hout], by rw [← h.isMineOut, hmine]⟩
  · rintro ⟨wtx, txout, hwtx, hout, hmine⟩
    obtain ⟨wtx', hwtx', htx⟩ := h.exists hwtx
    exact ⟨wtx', txout, hwtx', by rw [htx, hout], by rw [h.isMineOut, hmine]⟩

/-! ### The bits after an operation -/

theorem getD_takeD (l : List Bool) {len m : ℕ} (hm : m < len) : (l.takeD len false).getD m false = l.getD m false := by
  induction len generalizing l m with
  | zero => omega
  | succ len ih =>
    rw [List.takeD_succ]
    cases m with
    | zero => cases l <;> rfl
    | succ m =>
      rw [List.getD_cons_succ, ih l.tail (by omega)]
      cases l <;> rfl

theorem getD_set (l : List Bool) (n m : ℕ) (b : Bool) (hn : n < l.length) :
    (l.set n b).getD m false = if n = m then b else l.getD m false := by
  simp only [List.getD_eq_getElem?_getD, List.getElem?_set]
  by_cases hnm : n = m
  · subst hnm
    simp [hn]
  · rw [if_neg hnm, if_neg hnm]

theorem isSpent_markSpent {wtx : CWalletTx} {n m : ℕ} (hn : n < wtx.tx.vout.length) (hm : m < wtx.tx.vout.length) :
    (wtx.markSpent n).isSpent m = true ↔ wtx.isSpent m = true ∨ n = m := by
  rw [CWalletTx.isSpent, CWalletTx.isSpent, CWalletTx.markSpent, getD_set _ _ _ _ (by rw [List.takeD_length]; exact hn)]
  split
  · simp [*]
  · rw [getD_takeD _ hm]
    simp [*]

theorem isSpent_markUnspent {wtx : CWalletTx} {n m : ℕ} (hn : n < wtx.tx.vout.length) (hm : m < wtx.tx.vout.length) :
    (wtx.markUnspent n).isSpent m = true ↔ wtx.isSpent m = true ∧ n ≠ m := by
  rw [CWalletTx.isSpent, CWalletTx.isSpent, CWalletTx.markUnspent,
    getD_set _ _ _ _ (by rw [List.takeD_length]; exact hn)]
  split
  · simp [*]
  · rw [getD_takeD _ hm]
    simp [*]

theorem tx_merge (wtx wtxIn : CWalletTx) : (wtx.merge wtxIn).tx = wtx.tx := by
  rw [CWalletTx.merge, CWalletTx.updateSpent]
  dsimp only
  split <;> split <;> rfl

/-- The wallet has the output. -/
def Has (w : CWallet) (o : COutPoint) : Prop := ∃ wtx, w.mapWallet o.hash = some wtx ∧ o.n.toNat < wtx.tx.vout.length

theorem Owned.has {s : SpendWallet} {o : COutPoint} (h : s.Owned o) : Has s.wallet o := by
  obtain ⟨wtx, txout, hwtx, hout, -⟩ := h
  exact ⟨wtx, hwtx, (List.getElem?_eq_some_iff.mp hout).1⟩

theorem SameTxs.has {w w' : CWallet} (h : SameTxs w w') {o : COutPoint} (ho : Has w o) : Has w' o := by
  obtain ⟨wtx, hwtx, hlt⟩ := ho
  obtain ⟨wtx', hwtx', htx⟩ := h.exists hwtx
  exact ⟨wtx', hwtx', by rw [htx]; exact hlt⟩

end SpendWallet

end PayDayCoin
