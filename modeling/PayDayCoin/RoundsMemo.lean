import PayDayCoin.DarksendRounds

/-!
# What the map of the rounds keeps

`mDenomWtxes` is never cleared. A value that is in it stays (`Keeps`), whatever is asked for and whatever happens to the
wallet, and an output that was asked for has a value in it from then on: **`getInputDarksendRounds_stores`**. So the
rounds of an output are what they were when they were asked for first (**`getInputDarksendRounds_of_stored`**).
-/

namespace PayDayCoin

namespace CWallet

/-- The map has a value for the output. -/
def Stored (m : DenomWtxes) (o : COutPoint) (nRounds : ℤ) : Prop :=
  nRounds ≠ -10 ∧ ∃ l, m o.hash = some l ∧ l[o.n.toNat]? = some nRounds

/-- The second map has all values of the first. -/
def Keeps (m m' : DenomWtxes) : Prop :=
  ∀ h l, m h = some l → ∃ l', m' h = some l' ∧ ∀ (i : ℕ) k, k ≠ -10 → l[i]? = some k → l'[i]? = some k

/-- Each list of the map is for the outputs of a transaction of the wallet. -/
def Fits (w : CWallet) (m : DenomWtxes) : Prop :=
  ∀ h l, m h = some l → ∃ wtx, w.mapWallet h = some wtx ∧ l.length = wtx.tx.vout.length

theorem Keeps.refl (m : DenomWtxes) : Keeps m m := fun _ l hl => ⟨l, hl, fun _ _ _ h => h⟩

theorem Keeps.trans {m₁ m₂ m₃ : DenomWtxes} (h : Keeps m₁ m₂) (h' : Keeps m₂ m₃) : Keeps m₁ m₃ := by
  intro id l hl
  obtain ⟨l₂, hl₂, hget₂⟩ := h id l hl
  obtain ⟨l₃, hl₃, hget₃⟩ := h' id l₂ hl₂
  exact ⟨l₃, hl₃, fun i k hk hi => hget₃ i k hk (hget₂ i k hk hi)⟩

theorem Stored.keeps {m m' : DenomWtxes} {o : COutPoint} {k : ℤ} (h : Stored m o k) (hm : Keeps m m') :
    Stored m' o k := by
  obtain ⟨hk, l, hl, hi⟩ := h
  obtain ⟨l', hl', hget⟩ := hm _ l hl
  exact ⟨hk, l', hl', hget _ k hk hi⟩

/-! ### Changes of the map -/

theorem Keeps.insert {m : DenomWtxes} {h : Uint256} (hm : m h = none) (l : List ℤ) :
    Keeps m (Function.update m h (some l)) := by
  intro id l' hl'
  refine ⟨l', ?_, fun _ _ _ h => h⟩
  have hne : id ≠ h := by
    rintro rfl
    rw [hm] at hl'
    cases hl'
  rw [Function.update_of_ne hne]
  exact hl'

/-- A value is set for an output that had none before. -/
theorem Keeps.set {m m' : DenomWtxes} {o : COutPoint} (hm : Keeps m m') (hnone : ∀ k, ¬ Stored m o k) (n : ℤ) :
    Keeps m (m'.set o n) := by
  intro id l hl
  obtain ⟨l', hl', hget⟩ := hm id l hl
  by_cases hid : id = o.hash
  · refine ⟨l'.set o.n.toNat n, by rw [DenomWtxes.set, hid, Function.update_self, ← hid, hl', Option.map_some], ?_⟩
    intro i k hk hi
    have hne : o.n.toNat ≠ i := by
      rintro rfl
      exact hnone k ⟨hk, l, by rw [← hid]; exact hl, hi⟩
    rw [List.getElem?_set_ne hne]
    exact hget i k hk hi
  · exact ⟨l', by rw [DenomWtxes.set, Function.update_of_ne hid]; exact hl', hget⟩

theorem stored_set {m : DenomWtxes} {o : COutPoint} {l : List ℤ} (hl : m o.hash = some l)
    (hlt : o.n.toNat < l.length) {n : ℤ} (hn : n ≠ -10) : Stored (m.set o n) o n := by
  refine ⟨hn, l.set o.n.toNat n, by rw [DenomWtxes.set, Function.update_self, hl, Option.map_some], ?_⟩
  rw [List.getElem?_set_self hlt]

theorem Fits.insert {w : CWallet} {m : DenomWtxes} (hm : w.Fits m) {h : Uint256} {wtx : CWalletTx}
    (hwtx : w.mapWallet h = some wtx) :
    w.Fits (Function.update m h (some (List.replicate wtx.tx.vout.length (-10)))) := by
  intro id l hl
  by_cases hid : id = h
  · subst hid
    rw [Function.update_self, Option.some.injEq] at hl
    exact ⟨wtx, hwtx, by rw [← hl, List.length_replicate]⟩
  · rw [Function.update_of_ne hid] at hl
    exact hm id l hl

theorem Fits.set {w : CWallet} {m : DenomWtxes} (hm : w.Fits m) (o : COutPoint) (n : ℤ) : w.Fits (m.set o n) := by
  intro id l hl
  by_cases hid : id = o.hash
  · rw [DenomWtxes.set, hid, Function.update_self, Option.map_eq_some_iff] at hl
    obtain ⟨l', hl', rfl⟩ := hl
    rw [List.length_set, hid]
    exact hm _ l' hl'
  · rw [DenomWtxes.set, Function.update_of_ne hid] at hl
    exact hm id l hl

/-- The map fits every wallet that has the transactions still. -/
theorem Fits.mono {w w' : CWallet} {m : DenomWtxes} (hm : w.Fits m)
    (hw : ∀ h wtx, w.mapWallet h = some wtx → ∃ wtx', w'.mapWallet h = some wtx' ∧ wtx'.tx = wtx.tx) : w'.Fits m := by
  intro h l hl
  obtain ⟨wtx, hwtx, hlen⟩ := hm h l hl
  obtain ⟨wtx', hwtx', htx⟩ := hw h wtx hwtx
  exact ⟨wtx', hwtx', by rw [htx]; exact hlen⟩

/-! ### Queries -/

/-- The loop over the inputs keeps what each call keeps, and what it finds is not negative. -/
theorem shortest_keeps (isMine : CTxIn → Bool) {rounds : COutPoint → DenomWtxes → ℤ × DenomWtxes}
    (P : DenomWtxes → Prop) (hcall : ∀ o m, P m → P (rounds o m).2) (vin : List CTxIn) {n : ℤ} {found : Bool}
    {m : DenomWtxes} (hP : P m) (hn : found = true → 0 ≤ n) :
    let r := shortest isMine rounds vin n found m
    P r.2.2 ∧ (r.2.1 = true → 0 ≤ r.1) := by
  induction vin generalizing n found m with
  | nil => exact ⟨hP, hn⟩
  | cons txin vin ih =>
    simp only [shortest]
    by_cases hmine : isMine txin = true
    · rw [if_pos hmine]
      by_cases hlt : 0 ≤ (rounds txin.prevout m).1 ∧ ((rounds txin.prevout m).1 < n ∨ n = -10)
      · rw [if_pos hlt]
        exact ih (hcall _ _ hP) fun _ => hlt.1
      · rw [if_neg hlt]
        exact ih (hcall _ _ hP) hn
    · rw [if_neg hmine]
      exact ih hP hn

/-- The values that an output without one can get. -/
theorem fresh_keeps {w : CWallet} {pastEnd : ℤ} {left : ℕ} {o : COutPoint} {m m' : DenomWtxes} {wtx : CWalletTx}
    (ih : ∀ o m, w.Fits m → w.Fits (w.getRealInputDarksendRounds pastEnd left o m).2 ∧
      Keeps m (w.getRealInputDarksendRounds pastEnd left o m).2)
    (hwtx : w.mapWallet o.hash = some wtx) (hlt : o.n.toNat < wtx.tx.vout.length) (hnone : ∀ k, ¬ Stored m o k)
    (hm' : w.Fits m') (hkeep : Keeps m m') {l : List ℤ} (hl : m' o.hash = some l) (txout : CTxOut) :
    let r := if isCollateralAmount txout.nValue then (-3, m'.set o (-3))
      else if !isDenominatedAmount txout.nValue then (-2, m'.set o (-2))
      else if !(wtx.tx.vout.all fun out => isDenominatedAmount out.nValue) then (0, m'.set o 0)
      else
        let r := shortest w.isMineIn (w.getRealInputDarksendRounds pastEnd left) wtx.tx.vin (-10) false m'
        let nRounds := if r.2.1 then (if 15 ≤ r.1 then 16 else r.1 + 1) else 0
        (nRounds, r.2.2.set o nRounds)
    w.Fits r.2 ∧ Keeps m r.2 ∧ Stored r.2 o r.1 := by
  have hset : ∀ m'' n, w.Fits m'' → Keeps m' m'' → n ≠ -10 →
      w.Fits (m''.set o n) ∧ Keeps m (m''.set o n) ∧ Stored (m''.set o n) o n := by
    intro m'' n hfits hkeep' hn
    refine ⟨hfits.set o n, (hkeep.trans hkeep').set hnone n, ?_⟩
    obtain ⟨l', hl', -⟩ := hkeep' _ l hl
    obtain ⟨wtx', hwtx', hlen⟩ := hfits _ l' hl'
    rw [hwtx, Option.some.injEq] at hwtx'
    subst hwtx'
    exact stored_set hl' (by rw [hlen]; exact hlt) hn
  dsimp only
  by_cases hcol : isCollateralAmount txout.nValue = true
  · rw [if_pos hcol]
    exact hset m' (-3) hm' (.refl m') (by decide)
  rw [if_neg hcol]
  by_cases hden : (!isDenominatedAmount txout.nValue) = true
  · rw [if_pos hden]
    exact hset m' (-2) hm' (.refl m') (by decide)
  rw [if_neg hden]
  by_cases hall : (!(wtx.tx.vout.all fun out => isDenominatedAmount out.nValue)) = true
  · rw [if_pos hall]
    exact hset m' 0 hm' (.refl m') (by decide)
  rw [if_neg hall]
  obtain ⟨⟨hfits, hkeep'⟩, hn⟩ := shortest_keeps w.isMineIn (fun m'' => w.Fits m'' ∧ Keeps m' m'')
    (fun o m'' h => ⟨(ih o m'' h.1).1, h.2.trans (ih o m'' h.1).2⟩) wtx.tx.vin ⟨hm', .refl m'⟩
    (show false = true → (0 : ℤ) ≤ -10 by simp)
  refine hset _ _ hfits hkeep' ?_
  split
  · next hfound =>
    have := hn hfound
    split <;> omega
  · decide

/-- A query keeps the map, and has a value in it for an output that there is. -/
theorem getRealInputDarksendRounds_keeps {w : CWallet} (pastEnd : ℤ) (left : ℕ) (o : COutPoint) (m : DenomWtxes)
    (hm : w.Fits m) :
    let r := w.getRealInputDarksendRounds pastEnd left o m
    w.Fits r.2 ∧ Keeps m r.2 ∧
      (∀ wtx, 0 < left → w.mapWallet o.hash = some wtx → o.n.toNat < wtx.tx.vout.length → Stored r.2 o r.1) := by
  induction left generalizing o m with
  | zero =>
    refine ⟨hm, .refl m, ?_⟩
    intro wtx hlt
    exact absurd hlt (Nat.lt_irrefl 0)
  | succ left ih =>
    have hcall := fun o m h => (⟨(ih o m h).1, (ih o m h).2.1⟩ : _ ∧ _)
    cases hwtx : w.mapWallet o.hash with
    | none =>
      simp only [getRealInputDarksendRounds, hwtx]
      refine ⟨hm, .refl m, ?_⟩
      rintro _ - h
      cases h
    | some wtx =>
      have hfresh : ∀ m', w.Fits m' → Keeps m m' → wtx.tx.vout[o.n.toNat]? = none →
          w.Fits m' ∧ Keeps m m' ∧ ∀ wtx', 0 < left + 1 → some wtx = some wtx' →
            o.n.toNat < wtx'.tx.vout.length → Stored m' o (-4) := by
        intro m' hm' hkeep hout
        refine ⟨hm', hkeep, ?_⟩
        rintro _ - h hlt
        cases h
        rw [List.getElem?_eq_none_iff] at hout
        exact absurd hlt (Nat.not_lt.mpr hout)
      cases hmo : m o.hash with
      | none =>
        have hnone : ∀ k, ¬ Stored m o k := by
          rintro k ⟨-, l, hl, -⟩
          rw [hmo] at hl
          cases hl
        simp only [getRealInputDarksendRounds, hwtx, hmo, ne_eq, not_true_eq_false, if_false]
        cases hout : wtx.tx.vout[o.n.toNat]? with
        | none => exact hfresh _ (hm.insert hwtx) (.insert hmo _) hout
        | some txout =>
          obtain ⟨hlt, -⟩ := List.getElem?_eq_some_iff.mp hout
          obtain ⟨hfits, hkeep, hstored⟩ := fresh_keeps hcall hwtx hlt hnone (hm.insert hwtx) (.insert hmo _)
            (Function.update_self _ _ _) txout
          exact ⟨hfits, hkeep, fun _ _ _ _ => hstored⟩
      | some l =>
        simp only [getRealInputDarksendRounds, hwtx, hmo]
        by_cases hknown : l.getD o.n.toNat pastEnd = -10
        · have hnone : ∀ k, ¬ Stored m o k := by
            rintro k ⟨hk, l', hl', hi⟩
            rw [hmo, Option.some.injEq] at hl'
            subst hl'
            rw [List.getD_eq_getElem?_getD, hi, Option.getD_some] at hknown
            exact hk hknown
          rw [if_neg (not_not.mpr hknown)]
          cases hout : wtx.tx.vout[o.n.toNat]? with
          | none => exact hfresh _ hm (.refl m) hout
          | some txout =>
            obtain ⟨hlt, -⟩ := List.getElem?_eq_some_iff.mp hout
            obtain ⟨hfits, hkeep, hstored⟩ := fresh_keeps hcall hwtx hlt hnone hm (.refl m) hmo txout
            exact ⟨hfits, hkeep, fun _ _ _ _ => hstored⟩
        · rw [if_pos hknown]
          refine ⟨hm, .refl m, ?_⟩
          rintro _ - h hlt
          cases h
          obtain ⟨wtx', hwtx', hlen⟩ := hm _ l hmo
          rw [hwtx, Option.some.injEq] at hwtx'
          subst hwtx'
          refine ⟨hknown, l, hmo, ?_⟩
          rw [List.getD_eq_getElem?_getD, List.getElem?_eq_getElem (by rw [hlen]; exact hlt)]
          rfl

/-- A value that is in the map is the answer. -/
theorem getRealInputDarksendRounds_of_stored {w : CWallet} (pastEnd : ℤ) (left : ℕ) {o : COutPoint} {m : DenomWtxes}
    {wtx : CWalletTx} (hwtx : w.mapWallet o.hash = some wtx) {k : ℤ} (h : Stored m o k) :
    w.getRealInputDarksendRounds pastEnd (left + 1) o m = (k, m) := by
  obtain ⟨hk, l, hl, hi⟩ := h
  have hknown : l.getD o.n.toNat pastEnd = k := by rw [List.getD_eq_getElem?_getD, hi, Option.getD_some]
  simp only [getRealInputDarksendRounds, hwtx, hl, hknown]
  rw [if_pos hk]

/-- At most `nDarksendRounds`. -/
def capped (nDarksendRounds k : ℤ) : ℤ := if k > nDarksendRounds then nDarksendRounds else k

/-- An output that was asked for has a value from then on, the answer. -/
theorem getInputDarksendRounds_stores {w : CWallet} (pastEnd nDarksendRounds : ℤ) {o : COutPoint} {m : DenomWtxes}
    (hm : w.Fits m) {wtx : CWalletTx} (hwtx : w.mapWallet o.hash = some wtx) (hlt : o.n.toNat < wtx.tx.vout.length) :
    let r := w.getInputDarksendRounds pastEnd nDarksendRounds o m
    w.Fits r.2 ∧ Keeps m r.2 ∧ ∃ k, Stored r.2 o k ∧ r.1 = capped nDarksendRounds k := by
  obtain ⟨hfits, hkeep, hstored⟩ := getRealInputDarksendRounds_keeps pastEnd 16 o m hm
  exact ⟨hfits, hkeep, _, hstored wtx (by decide) hwtx hlt, rfl⟩

theorem getInputDarksendRounds_of_stored {w : CWallet} (pastEnd nDarksendRounds : ℤ) {o : COutPoint} {m : DenomWtxes}
    {wtx : CWalletTx} (hwtx : w.mapWallet o.hash = some wtx) {k : ℤ} (h : Stored m o k) :
    w.getInputDarksendRounds pastEnd nDarksendRounds o m = (capped nDarksendRounds k, m) := by
  rw [getInputDarksendRounds, getRealInputDarksendRounds_of_stored pastEnd 15 hwtx h]
  rfl

end CWallet

end PayDayCoin
