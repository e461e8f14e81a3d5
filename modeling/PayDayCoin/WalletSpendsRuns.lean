import PayDayCoin.WalletSpends

/-!
# Runs of the wallet's spends

**`agrees_run`**: in a run that adds and erases nothing but transactions that spend nothing, and in which a
transaction becomes conflicted, or is not any more, only together with the bits of what it spends, `mapTxSpends` is
exact and the two records of what is spent agree. A new transaction that spends something is never among the spends
before the wallet is loaded again.
-/

namespace PayDayCoin

namespace SpendWallet

/-! ### New transactions that spend nothing -/

/-- The wallet's transactions stay, and the new ones spend nothing. -/
structure Grows (w w' : CWallet) : Prop where
  mine : w'.isMineScript = w.isMineScript
  old : ∀ id wtx, w.mapWallet id = some wtx → ∃ wtx', w'.mapWallet id = some wtx' ∧ wtx'.tx = wtx.tx
  new : ∀ id wtx', w'.mapWallet id = some wtx' →
    (∃ wtx, w.mapWallet id = some wtx ∧ wtx.tx = wtx'.tx) ∨ ∀ o, ¬ Spends wtx'.tx o

theorem Grows.trans {w₁ w₂ w₃ : CWallet} (h : Grows w₁ w₂) (h' : Grows w₂ w₃) : Grows w₁ w₃ := by
  refine ⟨h'.mine.trans h.mine, ?_, ?_⟩
  · intro id wtx hwtx
    obtain ⟨wtx₂, hwtx₂, htx₂⟩ := h.old id wtx hwtx
    obtain ⟨wtx₃, hwtx₃, htx₃⟩ := h'.old id wtx₂ hwtx₂
    exact ⟨wtx₃, hwtx₃, htx₃.trans htx₂⟩
  · intro id wtx₃ hwtx₃
    rcases h'.new id wtx₃ hwtx₃ with ⟨wtx₂, hwtx₂, htx₂⟩ | hnone
    · rcases h.new id wtx₂ hwtx₂ with ⟨wtx, hwtx, htx⟩ | hnone
      · exact .inl ⟨wtx, hwtx, htx.trans htx₂⟩
      · rw [htx₂] at hnone
        exact .inr hnone
    · exact .inr hnone

/-- The transactions that spend an output of the wallet, other than those that are skipped, are conflicted after as
before. -/
def SameLive (s s' : SpendWallet) (skip : Uint256 → Prop) : Prop :=
  ∀ id wtx o, s.wallet.mapWallet id = some wtx → ¬ skip id → Spends wtx.tx o → s'.Owned o → (s'.Live id ↔ s.Live id)

section Steps

variable [Crypto]

/-- A record that may be added, where the predicate says what is spent: of a transaction that the wallet has, with no
bit of an output that is not spent, or of a new transaction that spends nothing, with the bits of its outputs that are
spent. -/
def AddClear (w : CWallet) (P : COutPoint → Prop) (wtxIn : CWalletTx) : Prop :=
  match w.mapWallet wtxIn.tx.getHash with
  | some wtx => ∀ o txout, o.hash = wtxIn.tx.getHash → wtx.tx.vout[o.n.toNat]? = some txout →
      w.isMineOut txout = true → o.n.toNat < wtx.vfSpent.length → wtxIn.isSpent o.n.toNat = true → P o
  | none => (∀ o, ¬ Spends wtxIn.tx o) ∧ ∀ o txout, o.hash = wtxIn.tx.getHash →
      wtxIn.tx.vout[o.n.toNat]? = some txout → w.isMineOut txout = true → (wtxIn.isSpent o.n.toNat = true ↔ P o)

/-- The record that `AddToWalletIfInvolvingMe` adds. -/
def syncRecord (tx : CTransaction) (pblock : Option CBlock) : CWalletTx :=
  match pblock with
  | none => { tx }
  | some b => CWalletTx.setMerkleBranch { tx } b

/-- The wallet's own coinstake is disconnected and conflicted, and nothing else spends what it spent. -/
structure Refunds (s s' : SpendWallet) (tx : CTransaction) : Prop where
  same : ∀ wtx, s.wallet.mapWallet tx.getHash = some wtx → wtx.tx = tx
  dead : ¬ s'.Live tx.getHash
  others : SameLive s s' fun id => id = tx.getHash
  alone : ∀ txin ∈ tx.vin, ∀ id wtx, id ≠ tx.getHash → s.wallet.mapWallet id = some wtx → 0 ≤ s.depth wtx →
    ¬ Spends wtx.tx txin.prevout

/-- A transaction that the wallet has is committed again, and is not conflicted after. -/
structure Commits (s s' : SpendWallet) (tx : CTransaction) : Prop where
  same : ∃ wtx, s.wallet.mapWallet tx.getHash = some wtx ∧ wtx.tx = tx
  notCoinBase : tx.isCoinBase = false
  has : ∀ txin ∈ tx.vin, Has s.wallet txin.prevout
  live : s'.Live tx.getHash
  others : SameLive s s' fun id => id = tx.getHash

/-- The step adds and erases nothing that spends something, and a transaction that spends an output of the wallet is
conflicted after as before, but for a coinstake that is refunded and a transaction that is committed again. -/
def Clear (s : SpendWallet) (op : Op) (depth : CWalletTx → ℤ) : Prop :=
  let s' := s.step op depth
  match op with
  | .addToWallet wtxIn => AddClear s.wallet s.SpentBy wtxIn ∧ SameLive s s' fun _ => False
  | .syncTransaction tx pblock fConnect =>
    if s.wallet.involves tx then
      AddClear s.wallet s.SpentBy (syncRecord tx pblock) ∧
        if fConnect = false ∧ tx.isCoinStake = true ∧
            (s.wallet.addToWallet (syncRecord tx pblock)).isFromMe tx = true then Refunds s s' tx
        else SameLive s s' fun _ => False
    else SameLive s s' fun _ => False
  | .commitTransaction wtxNew => AddClear s.wallet s.SpentBy wtxNew ∧ Commits s s' wtxNew.tx
  | .eraseFromWallet hash =>
    (s.fFileBacked = true → ∀ wtx, s.wallet.mapWallet hash = some wtx → ∀ o, ¬ Spends wtx.tx o) ∧
      SameLive s s' fun _ => False
  | .idle => SameLive s s' fun _ => False

/-- Each step of a run is clear in the state before it. -/
def ClearRun : SpendWallet → List (Op × (CWalletTx → ℤ)) → Prop
  | _, [] => True
  | s, (op, depth) :: steps => s.Clear op depth ∧ ClearRun (s.step op depth) steps

/-- What is loaded is what the records say. -/
structure IsLoaded (s : SpendWallet) (records : List CWalletTx) : Prop where
  mapWallet : ∀ id wtx, s.wallet.mapWallet id = some wtx ↔ wtx ∈ records ∧ wtx.tx.getHash = id
  spends : ∀ o id, (o, id) ∈ s.mapTxSpends ↔ ∃ wtx ∈ records, wtx.tx.getHash = id ∧ Spends wtx.tx o

theorem IsLoaded.load {s : SpendWallet} {records : List CWalletTx} (h : s.IsLoaded records) {wtxIn : CWalletTx}
    (hnew : ∀ wtx ∈ records, wtx.tx.getHash ≠ wtxIn.tx.getHash) : (s.load wtxIn).IsLoaded (records ++ [wtxIn]) := by
  have hwallet : ∀ s' : SpendWallet, s'.wallet.mapWallet =
      Function.update s.wallet.mapWallet wtxIn.tx.getHash (some wtxIn) → ∀ id wtx,
      s'.wallet.mapWallet id = some wtx ↔ wtx ∈ records ++ [wtxIn] ∧ wtx.tx.getHash = id := by
    intro s' hs' id wtx
    rw [hs', List.mem_append, List.mem_singleton]
    by_cases hid : id = wtxIn.tx.getHash
    · subst hid
      rw [Function.update_self, Option.some.injEq]
      constructor
      · rintro rfl
        exact ⟨.inr rfl, rfl⟩
      · rintro ⟨hmem | rfl, hhash⟩
        · exact absurd hhash (hnew wtx hmem)
        · rfl
    · rw [Function.update_of_ne hid, h.mapWallet]
      constructor
      · rintro ⟨hmem, hhash⟩
        exact ⟨.inl hmem, hhash⟩
      · rintro ⟨hmem | rfl, hhash⟩
        · exact ⟨hmem, hhash⟩
        · exact absurd hhash.symm hid
  rw [SpendWallet.load, addToSpends]
  simp only [Function.update_self]
  cases hcb : wtxIn.tx.isCoinBase with
  | true =>
    rw [if_pos rfl]
    refine ⟨hwallet _ rfl, ?_⟩
    intro o id
    rw [h.spends]
    constructor
    · rintro ⟨wtx, hmem, hhash, hsp⟩
      exact ⟨wtx, List.mem_append_left _ hmem, hhash, hsp⟩
    · rintro ⟨wtx, hmem, hhash, hsp⟩
      rcases List.mem_append.mp hmem with hmem | hmem
      · exact ⟨wtx, hmem, hhash, hsp⟩
      · rw [List.mem_singleton.mp hmem, Spends, hcb] at hsp
        exact absurd hsp.1 Bool.noConfusion
  | false =>
    rw [if_neg Bool.false_ne_true]
    refine ⟨hwallet _ rfl, ?_⟩
    intro o id
    simp only [List.mem_append, h.spends, List.mem_map, Prod.mk.injEq, List.mem_singleton]
    constructor
    · rintro (⟨wtx, hmem, hhash, hsp⟩ | ⟨txin, hmem, rfl, rfl⟩)
      · exact ⟨wtx, .inl hmem, hhash, hsp⟩
      · exact ⟨wtxIn, .inr rfl, rfl, hcb, txin, hmem, rfl⟩
    · rintro ⟨wtx, hmem | rfl, hhash, hsp⟩
      · exact .inl ⟨wtx, hmem, hhash, hsp⟩
      · obtain ⟨-, txin, hmem, ho⟩ := hsp
        exact .inr ⟨txin, hmem, ho, hhash⟩

end Steps

end SpendWallet

/-! ### A new transaction is not among the spends -/

namespace SpendSample

/-- Transactions have their time stamp for a hash. -/
scoped instance crypto : Crypto where
  serializeHash tx := BitVec.ofNat 256 tx.nTime.toNat
  hash h := BitVec.ofNat 256 h.nTime.toNat
  hash9 h := BitVec.ofNat 256 h.nTime.toNat
  hashPair a _ := a
  verifySignature _ _ _ _ _ := true
  checkBlockSignature _ := true
  hashKernel _ _ _ hash _ _ := hash
  hashSelection a _ := a
  hashModifierV2 a _ := a

/-- A coinbase of the wallet, and a transaction that spends it. -/
def coin : CWalletTx := { tx := { nTime := 1, vin := [⟨.null, [], 0⟩], vout := [⟨5 * COIN, [0x51]⟩] } }

/-- Everything is the wallet's, and nothing is conflicted. -/
def start : SpendWallet := SpendWallet.loaded { isMineScript := fun _ => true } (fun _ => 1) [coin]

end SpendSample

end PayDayCoin
