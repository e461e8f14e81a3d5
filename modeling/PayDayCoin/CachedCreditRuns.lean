import PayDayCoin.CachedCredit

/-!
# What the cached amounts rest on

Locking a coin does not mark the amount that can be mixed dirty, no operation marks the immature amount dirty, and a
transaction that spends an output may become conflicted, or stop being so, while the amounts of the output's
transaction are kept. `Kept` says that an operation changes nothing of this below an amount that is still kept after
it. **`cached_run`**: in every run of such operations every amount is the same with and without the cache.
-/

namespace PayDayCoin

namespace CreditWallet

variable [Crypto]

/-- The rule of an amount. -/
def rule (s : CreditWallet) (wtx : CWalletTx) : Cached → Rule
  | .available => availableRule wtx
  | .anonymizable => s.anonymizableRule wtx
  | .anonymized => s.anonymizedRule wtx
  | .denomUnconf | .denomConf => s.denominatedRule wtx
  | .immature => immatureRule
  | .availableWatch => s.availableWatchRule wtx

/-- The gate of an amount. -/
def gate (s : CreditWallet) (wtx : CWalletTx) : Cached → Bool
  | .immature => wtx.tx.isCoinBase && 0 < s.getBlocksToMaturity wtx && s.view.isInMainChain wtx
  | .denomUnconf => s.isMature wtx && 0 ≤ s.view.depthNoIX wtx &&
      true == (!s.view.isFinalTx wtx.tx || (!s.view.isTrusted wtx && s.view.depthNoIX wtx == 0))
  | .denomConf => s.isMature wtx && 0 ≤ s.view.depthNoIX wtx &&
      false == (!s.view.isFinalTx wtx.tx || (!s.view.isTrusted wtx && s.view.depthNoIX wtx == 0))
  | _ => s.isMature wtx

theorem getCredit_eq (s : CreditWallet) (wtx : CWalletTx) (fUseCache : Bool) (kind : Cached) :
    s.getCredit wtx fUseCache kind = s.cachedCredit wtx kind (s.gate wtx kind) (s.rule wtx kind) fUseCache := by
  cases kind <;> rfl

/-- Whether the wallet's outputs of the kind that an amount counts are the watched ones. -/
def filterOf : Cached → IsMineType
  | .availableWatch => .watchOnly
  | _ => .spendable

theorem filter_rule (s : CreditWallet) (wtx : CWalletTx) (kind : Cached) :
    (s.rule wtx kind).filter = filterOf kind := by
  cases kind <;> rfl

/-- The amounts that ask `CWallet::IsSpent`. -/
def readsSpends : Cached → Bool
  | .available | .immature => false
  | _ => true

/-- An output that an amount with this filter may count. -/
def Worth (s : CreditWallet) (filter : IsMineType) (txout : CTxOut) : Prop := s.creditOut filter txout ≠ some 0

/-- Between two states, nothing changes that an amount rests on which is kept in the second. -/
structure Kept (s s' : CreditWallet) : Prop where
  locked : ∀ id wtx, s.wallet.mapWallet id = some wtx → (s'.cache id .anonymizable).isSome → ∀ (i : ℕ) txout,
    wtx.tx.vout[i]? = some txout → s.Worth .spendable txout →
      s'.isLockedCoin (outPoint wtx i) = s.isLockedCoin (outPoint wtx i)
  spent : ∀ id wtx kind, s.wallet.mapWallet id = some wtx → readsSpends kind → (s'.cache id kind).isSome →
    ∀ (i : ℕ) txout, wtx.tx.vout[i]? = some txout → s.Worth (filterOf kind) txout →
      s'.spends.isSpent (outPoint wtx i) = s.spends.isSpent (outPoint wtx i)
  mine : ∀ id wtx, s.wallet.mapWallet id = some wtx → (s'.cache id .immature).isSome → ∀ txout ∈ wtx.tx.vout,
    s'.creditOut .spendable txout = s.creditOut .spendable txout

/-! ### The sum, once it is known what is counted -/

/-- The sum of the outputs that are counted. -/
def addUp (s : CreditWallet) (filter : IsMineType) (b : ℕ → Bool) : List CTxOut → ℕ → ℤ → Option ℤ
  | [], _, nCredit => some nCredit
  | txout :: vout, i, nCredit =>
    if b i then
      match s.creditOut filter txout with
      | none => none
      | some credit =>
        if moneyRange (nCredit + credit) then s.addUp filter b vout (i + 1) (nCredit + credit) else none
    else s.addUp filter b vout (i + 1) nCredit

/-- It is known whether an output is counted: its rounds are in the map, if they matter. -/
def DecidedAt (wtx : CWalletTx) (R : Rule) (nDarksendRounds : ℤ) (m : CWallet.DenomWtxes) (i : ℕ) (txout : CTxOut)
    (b : Bool) : Prop :=
  if R.skip i txout then b = false
  else
    match R.test with
    | none => b = true
    | some test => ∃ k, CWallet.Stored m (outPoint wtx i) k ∧ b = test (CWallet.capped nDarksendRounds k)

theorem DecidedAt.keeps {wtx : CWalletTx} {R : Rule} {n : ℤ} {m m' : CWallet.DenomWtxes} {i : ℕ} {txout : CTxOut}
    {b : Bool} (h : DecidedAt wtx R n m i txout b) (hm : CWallet.Keeps m m') : DecidedAt wtx R n m' i txout b := by
  rw [DecidedAt] at h ⊢
  cases hskip : R.skip i txout with
  | true =>
    rw [hskip, if_pos rfl] at h
    exact h
  | false =>
    rw [hskip, if_neg Bool.false_ne_true] at h
    rw [if_neg Bool.false_ne_true]
    cases htest : R.test with
    | none =>
      rw [htest] at h
      exact h
    | some test =>
      rw [htest] at h
      obtain ⟨k, hk, hb⟩ := h
      exact ⟨k, hk.keeps hm, hb⟩

omit [Crypto] in
theorem addUp_congr {s s' : CreditWallet} {filter : IsMineType} {b b' : ℕ → Bool} (l : List CTxOut) {i : ℕ} {n : ℤ}
    (hb : ∀ j, i ≤ j → b j = b' j) (hcredit : ∀ txout ∈ l, s.creditOut filter txout = s'.creditOut filter txout) :
    s.addUp filter b l i n = s'.addUp filter b' l i n := by
  induction l generalizing i n with
  | nil => rfl
  | cons txout l ih =>
    have hrest : ∀ n, s.addUp filter b l (i + 1) n = s'.addUp filter b' l (i + 1) n := fun n =>
      ih (fun j hj => hb j (by omega)) fun x hx => hcredit x (List.mem_cons_of_mem _ hx)
    simp only [addUp, hb i (Nat.le_refl i), hcredit txout List.mem_cons_self, hrest]

section OneTransaction

variable {s : CreditWallet} {wtx : CWalletTx} {R : Rule}

theorem counts_of_decided (hwtx : s.wallet.mapWallet wtx.tx.getHash = some wtx) {m : CWallet.DenomWtxes} {i : ℕ}
    {txout : CTxOut} {b : Bool} (h : DecidedAt wtx R s.settings.nDarksendRounds m i txout b) :
    s.counts wtx R i txout m = (b, m) := by
  rw [DecidedAt] at h
  rw [counts]
  cases hskip : R.skip i txout with
  | true =>
    rw [hskip, if_pos rfl] at h
    rw [if_pos rfl, h]
  | false =>
    rw [hskip, if_neg Bool.false_ne_true] at h
    rw [if_neg Bool.false_ne_true]
    cases htest : R.test with
    | none =>
      rw [htest] at h
      dsimp only at h ⊢
      rw [h]
    | some test =>
      rw [htest] at h
      obtain ⟨k, hk, rfl⟩ := h
      dsimp only
      rw [CWallet.getInputDarksendRounds_of_stored s.settings.pastEnd s.settings.nDarksendRounds hwtx hk]

theorem counts_keeps (wtx : CWalletTx) (R : Rule) {m : CWallet.DenomWtxes} (hm : s.wallet.Fits m) (i : ℕ)
    (txout : CTxOut) :
    s.wallet.Fits (s.counts wtx R i txout m).2 ∧ CWallet.Keeps m (s.counts wtx R i txout m).2 := by
  rw [counts]
  split
  · exact ⟨hm, .refl m⟩
  · split
    · exact ⟨hm, .refl m⟩
    · obtain ⟨hfits, hkeep, -⟩ := CWallet.getRealInputDarksendRounds_keeps s.settings.pastEnd 16 (outPoint wtx i) m hm
      exact ⟨hfits, hkeep⟩

/-- Once it was asked whether an output is counted, it is known. -/
theorem counts_decides (hwtx : s.wallet.mapWallet wtx.tx.getHash = some wtx) {m : CWallet.DenomWtxes}
    (hm : s.wallet.Fits m) {i : ℕ} (hi : i < wtx.tx.vout.length) (txout : CTxOut) :
    DecidedAt wtx R s.settings.nDarksendRounds (s.counts wtx R i txout m).2 i txout
      (s.counts wtx R i txout m).1 := by
  have hlt : (outPoint wtx i).n.toNat < wtx.tx.vout.length := by
    rw [outPoint, UInt32.toNat_ofNat']
    exact Nat.lt_of_le_of_lt (Nat.mod_le _ _) hi
  rw [DecidedAt, counts]
  cases hskip : R.skip i txout with
  | true => rw [if_pos rfl, if_pos rfl]
  | false =>
    rw [if_neg Bool.false_ne_true, if_neg Bool.false_ne_true]
    cases htest : R.test with
    | none => rfl
    | some test =>
      obtain ⟨-, -, k, hk, hval⟩ := CWallet.getInputDarksendRounds_stores s.settings.pastEnd
        s.settings.nDarksendRounds hm hwtx hlt
      refine ⟨k, hk, ?_⟩
      dsimp only
      rw [hval]

theorem sumCredits_keeps (wtx : CWalletTx) (R : Rule) (l : List CTxOut) {i : ℕ} {n : ℤ} {m : CWallet.DenomWtxes}
    (hm : s.wallet.Fits m) :
    s.wallet.Fits (s.sumCredits wtx R l i n m).2 ∧ CWallet.Keeps m (s.sumCredits wtx R l i n m).2 := by
  induction l generalizing i n m with
  | nil => exact ⟨hm, .refl m⟩
  | cons txout l ih =>
    obtain ⟨hfits, hkeep⟩ := counts_keeps wtx R hm i txout
    have hrest : ∀ n, s.wallet.Fits (s.sumCredits wtx R l (i + 1) n (s.counts wtx R i txout m).2).2 ∧
        CWallet.Keeps m (s.sumCredits wtx R l (i + 1) n (s.counts wtx R i txout m).2).2 := fun n =>
      ⟨(ih hfits).1, hkeep.trans (ih hfits).2⟩
    simp only [sumCredits]
    split
    · split
      · exact ⟨hfits, hkeep⟩
      · split
        · exact hrest _
        · exact ⟨hfits, hkeep⟩
    · exact hrest _

/-- The sum is what adding up gives, when it is known of every output that may count whether it does. -/
theorem sumCredits_fst (hwtx : s.wallet.mapWallet wtx.tx.getHash = some wtx) {b : ℕ → Bool} (l : List CTxOut) {i : ℕ}
    {n : ℤ} {m : CWallet.DenomWtxes} (hn : moneyRange n = true) (hm : s.wallet.Fits m)
    (hdec : ∀ (j : ℕ) txout, l[j]? = some txout → s.Worth R.filter txout →
      DecidedAt wtx R s.settings.nDarksendRounds m (i + j) txout (b (i + j))) :
    (s.sumCredits wtx R l i n m).1 = s.addUp R.filter b l i n := by
  induction l generalizing i n m with
  | nil => rfl
  | cons txout l ih =>
    have hrest : ∀ n' m', moneyRange n' = true → s.wallet.Fits m' → CWallet.Keeps m m' →
        (s.sumCredits wtx R l (i + 1) n' m').1 = s.addUp R.filter b l (i + 1) n' := by
      intro n' m' hn' hm' hkeep
      refine ih hn' hm' ?_
      intro j out hj hworth
      have hout := hdec (j + 1) out (by rw [List.getElem?_cons_succ]; exact hj) hworth
      rw [show i + 1 + j = i + (j + 1) by omega]
      exact hout.keeps hkeep
    simp only [sumCredits, addUp]
    by_cases hworth : s.creditOut R.filter txout = some 0
    · obtain ⟨hfits, hkeep⟩ := counts_keeps wtx R hm i txout
      simp only [hworth, add_zero, hn, if_true, ite_self]
      exact hrest n _ hn hfits hkeep
    · have hcounts := counts_of_decided hwtx (hdec 0 txout rfl hworth)
      rw [Nat.add_zero] at hcounts
      rw [hcounts]
      cases b i with
      | false => exact hrest n m hn hm (.refl m)
      | true =>
        rw [if_pos rfl, if_pos rfl]
        cases hcredit : s.creditOut R.filter txout with
        | none => rfl
        | some credit =>
          dsimp only
          by_cases hrange : moneyRange (n + credit) = true
          · rw [if_pos hrange, if_pos hrange]
            exact hrest _ m hrange hm (.refl m)
          · rw [if_neg hrange, if_neg hrange]

/-- After the sum was taken it is known of every output whether it counts. -/
theorem sumCredits_decides (hwtx : s.wallet.mapWallet wtx.tx.getHash = some wtx) (l : List CTxOut) {i : ℕ} {n v : ℤ}
    {m : CWallet.DenomWtxes} (hm : s.wallet.Fits m) (hl : i + l.length ≤ wtx.tx.vout.length)
    (hv : (s.sumCredits wtx R l i n m).1 = some v) :
    ∃ b, (∀ (j : ℕ) txout, l[j]? = some txout → DecidedAt wtx R s.settings.nDarksendRounds
        (s.sumCredits wtx R l i n m).2 (i + j) txout (b (i + j))) ∧ s.addUp R.filter b l i n = some v := by
  induction l generalizing i n m with
  | nil =>
    refine ⟨fun _ => false, ?_, hv⟩
    intro j txout h
    cases h
  | cons txout l ih =>
    rw [List.length_cons] at hl
    obtain ⟨hfits, -⟩ := counts_keeps wtx R hm i txout
    have hdec := counts_decides (R := R) hwtx hm (show i < wtx.tx.vout.length by omega) txout
    have hcons : ∀ n', (s.sumCredits wtx R l (i + 1) n' (s.counts wtx R i txout m).2).1 = some v →
        ∃ b, b i = (s.counts wtx R i txout m).1 ∧ (∀ (j : ℕ) out, (txout :: l)[j]? = some out →
          DecidedAt wtx R s.settings.nDarksendRounds
            (s.sumCredits wtx R l (i + 1) n' (s.counts wtx R i txout m).2).2 (i + j) out (b (i + j))) ∧
          s.addUp R.filter b l (i + 1) n' = some v := by
      intro n' hv'
      obtain ⟨b, hb, hsum⟩ := ih hfits (by omega) hv'
      refine ⟨Function.update b i (s.counts wtx R i txout m).1, Function.update_self _ _ _, ?_, ?_⟩
      · intro j out hj
        cases j with
        | zero =>
          rw [List.getElem?_cons_zero, Option.some.injEq] at hj
          subst hj
          rw [Nat.add_zero i, Function.update_self]
          exact hdec.keeps (sumCredits_keeps wtx R l hfits).2
        | succ j =>
          rw [List.getElem?_cons_succ] at hj
          rw [Function.update_of_ne (by omega), show i + (j + 1) = i + 1 + j by omega]
          exact hb j out hj
      · rw [← hsum]
        refine addUp_congr l ?_ fun _ _ => rfl
        intro j hj
        rw [Function.update_of_ne (by omega)]
    simp only [sumCredits, addUp] at hv ⊢
    cases hcounts : (s.counts wtx R i txout m).1 with
    | false =>
      rw [hcounts, if_neg Bool.false_ne_true] at hv
      obtain ⟨b, hbi, hb, hsum⟩ := hcons n hv
      rw [hcounts] at hbi
      refine ⟨b, ?_, ?_⟩
      · rw [if_neg Bool.false_ne_true]
        exact hb
      · rw [hbi, if_neg Bool.false_ne_true]
        exact hsum
    | true =>
      rw [hcounts, if_pos rfl] at hv
      cases hcredit : s.creditOut R.filter txout with
      | none =>
        rw [hcredit] at hv
        cases hv
      | some credit =>
        rw [hcredit] at hv
        dsimp only at hv
        by_cases hrange : moneyRange (n + credit) = true
        · rw [if_pos hrange] at hv
          obtain ⟨b, hbi, hb, hsum⟩ := hcons (n + credit) hv
          rw [hcounts] at hbi
          refine ⟨b, ?_, ?_⟩
          · rw [if_pos rfl]
            dsimp only
            rw [if_pos hrange]
            exact hb
          · rw [hbi, if_pos rfl]
            dsimp only
            rw [if_pos hrange]
            exact hsum
        · rw [if_neg hrange] at hv
          cases hv

end OneTransaction

/-! ### What holds of the cache -/

/-- A kept amount is the sum of outputs of which it is known whether they count. -/
def CacheSound (s : CreditWallet) (wtx : CWalletTx) (kind : Cached) (v : ℤ) : Prop :=
  ∃ b, (∀ (i : ℕ) txout, wtx.tx.vout[i]? = some txout → s.Worth (filterOf kind) txout →
      DecidedAt wtx (s.rule wtx kind) s.settings.nDarksendRounds s.mDenomWtxes i txout (b i)) ∧
    s.addUp (filterOf kind) b wtx.tx.vout 0 0 = some v

/-- Every transaction is under its hash, and what is kept is what it should be. -/
structure Sound (s : CreditWallet) : Prop where
  keyed : ∀ id wtx, s.wallet.mapWallet id = some wtx → wtx.tx.getHash = id
  fits : s.wallet.Fits s.mDenomWtxes
  cached : ∀ id wtx kind v, s.wallet.mapWallet id = some wtx → s.cache id kind = some v → s.CacheSound wtx kind v

theorem CacheSound.sum_eq {s : CreditWallet} {wtx : CWalletTx} {kind : Cached} {v : ℤ} (h : s.CacheSound wtx kind v)
    (hwtx : s.wallet.mapWallet wtx.tx.getHash = some wtx) (hm : s.wallet.Fits s.mDenomWtxes) :
    (s.sumCredits wtx (s.rule wtx kind) wtx.tx.vout 0 0 s.mDenomWtxes).1 = some v := by
  obtain ⟨b, hdec, hsum⟩ := h
  have hfst := sumCredits_fst (R := s.rule wtx kind) hwtx (b := b) wtx.tx.vout (i := 0)
    (show moneyRange 0 = true by decide) hm (by
      intro j txout hj hworth
      rw [filter_rule] at hworth
      rw [Nat.zero_add]
      exact hdec j txout hj hworth)
  rw [hfst, filter_rule, hsum]

/-- The same outputs are skipped, and each is worth the same. -/
theorem CacheSound.of_same {s s' : CreditWallet} {wtx wtx' : CWalletTx} {kind : Cached} {v : ℤ}
    (h : s.CacheSound wtx kind v) (htx : wtx'.tx = wtx.tx) (hset : s'.settings = s.settings)
    (hkeep : CWallet.Keeps s.mDenomWtxes s'.mDenomWtxes)
    (hcredit : ∀ txout ∈ wtx.tx.vout, s'.creditOut (filterOf kind) txout = s.creditOut (filterOf kind) txout)
    (hskip : ∀ (i : ℕ) txout, wtx.tx.vout[i]? = some txout → s.Worth (filterOf kind) txout →
      (s'.rule wtx' kind).skip i txout = (s.rule wtx kind).skip i txout) : s'.CacheSound wtx' kind v := by
  have hout : ∀ i, outPoint wtx' i = outPoint wtx i := fun i => by rw [outPoint, outPoint, htx]
  have htest : (s'.rule wtx' kind).test = (s.rule wtx kind).test := by
    cases kind <;> simp only [rule, anonymizableRule, anonymizedRule, denominatedRule, availableWatchRule,
      availableRule, hset]
  obtain ⟨b, hdec, hsum⟩ := h
  refine ⟨b, ?_, ?_⟩
  · intro i txout hi hworth
    rw [htx] at hi
    have hworth' : s.Worth (filterOf kind) txout := by
      rw [Worth, ← hcredit txout (List.mem_of_getElem? hi)]
      exact hworth
    have hd := (hdec i txout hi hworth').keeps hkeep
    rw [DecidedAt] at hd ⊢
    rw [hskip i txout hi hworth', htest, hset, hout]
    exact hd
  · rw [htx, ← hsum]
    exact addUp_congr _ (fun _ _ => rfl) hcredit

/-- **On a sound cache every amount is the same with and without it.** -/
theorem Sound.getCredit_eq {s : CreditWallet} (h : s.Sound) {id : Uint256} {wtx : CWalletTx}
    (hwtx : s.wallet.mapWallet id = some wtx) (kind : Cached) :
    (s.getCredit wtx true kind).1 = (s.getCredit wtx false kind).1 := by
  have hid := h.keyed id wtx hwtx
  subst hid
  rw [CreditWallet.getCredit_eq, CreditWallet.getCredit_eq, cachedCredit, cachedCredit]
  cases s.gate wtx kind with
  | false => rfl
  | true =>
    cases hcache : s.cache wtx.tx.getHash kind with
    | none => rfl
    | some v =>
      have hsum := (h.cached _ wtx kind v hwtx hcache).sum_eq hwtx h.fits
      simp [hsum]

/-! ### Asking for an amount -/

/-- What a state keeps when only the rounds and the amounts change. -/
theorem Sound.getCredit {s : CreditWallet} (h : s.Sound) {id : Uint256} {wtx : CWalletTx}
    (hwtx : s.wallet.mapWallet id = some wtx) (fUseCache : Bool) (kind : Cached) :
    ∃ m cache, (s.getCredit wtx fUseCache kind).2 = { s with mDenomWtxes := m, cache } ∧
      Sound { s with mDenomWtxes := m, cache } := by
  have hid := h.keyed id wtx hwtx
  subst hid
  have hsame : ∃ m cache, s = { s with mDenomWtxes := m, cache } ∧ Sound { s with mDenomWtxes := m, cache } :=
    ⟨s.mDenomWtxes, s.cache, rfl, h⟩
  rw [CreditWallet.getCredit_eq, cachedCredit]
  cases s.gate wtx kind with
  | false => exact hsame
  | true =>
    rw [if_neg (by simp)]
    cases (if fUseCache then s.cache wtx.tx.getHash kind else none) with
    | some v => exact hsame
    | none =>
      obtain ⟨hfits, hkeep⟩ := sumCredits_keeps wtx (s.rule wtx kind) wtx.tx.vout (i := 0) (n := 0) h.fits
      have hold : ∀ cache id wtx' kind' v, s.wallet.mapWallet id = some wtx' → s.cache id kind' = some v →
          CacheSound { s with
            mDenomWtxes := (s.sumCredits wtx (s.rule wtx kind) wtx.tx.vout 0 0 s.mDenomWtxes).2, cache } wtx' kind' v :=
        fun cache id wtx' kind' v hwtx' hv => (h.cached id wtx' kind' v hwtx' hv).of_same rfl rfl hkeep
          (fun _ _ => rfl) (fun _ _ _ _ => by cases kind' <;> rfl)
      dsimp only
      cases hsum : (s.sumCredits wtx (s.rule wtx kind) wtx.tx.vout 0 0 s.mDenomWtxes).1 with
      | none => exact ⟨_, s.cache, rfl, h.keyed, hfits, hold s.cache⟩
      | some v =>
        refine ⟨_, _, rfl, h.keyed, hfits, ?_⟩
        intro id wtx' kind' v' hwtx' hv'
        dsimp only at hwtx' hv'
        by_cases hid : id = wtx.tx.getHash ∧ kind' = kind
        · obtain ⟨rfl, rfl⟩ := hid
          rw [Function.update_self, Function.update_self, Option.some.injEq] at hv'
          subst hv'
          rw [hwtx, Option.some.injEq] at hwtx'
          subst hwtx'
          obtain ⟨b, hdec, hadd⟩ := sumCredits_decides (R := s.rule wtx kind') hwtx wtx.tx.vout h.fits (by omega) hsum
          refine ⟨b, ?_, ?_⟩
          · intro i txout hi _
            have hd := hdec i txout hi
            rw [Nat.zero_add] at hd
            cases kind' <;> exact hd
          · rw [filter_rule] at hadd
            rw [← hadd]
            exact addUp_congr _ (fun _ _ => rfl) fun _ _ => rfl
        · refine hold _ id wtx' kind' v' hwtx' ?_
          rw [← hv']
          by_cases hhash : id = wtx.tx.getHash
          · subst hhash
            rw [Function.update_self, Function.update_of_ne fun hkind => hid ⟨rfl, hkind⟩]
          · rw [Function.update_of_ne hhash]

/-! ### The other operations -/

/-- What the other operations do: they add transactions, and of the amounts that are left the records say the same. -/
structure Follows (s s' : CreditWallet) : Prop where
  grow : ∀ id wtx, s.wallet.mapWallet id = some wtx → ∃ wtx', s'.wallet.mapWallet id = some wtx' ∧ wtx'.tx = wtx.tx
  keyed : (∀ id wtx, s.wallet.mapWallet id = some wtx → wtx.tx.getHash = id) →
    ∀ id wtx, s'.wallet.mapWallet id = some wtx → wtx.tx.getHash = id
  rounds : s'.mDenomWtxes = s.mDenomWtxes
  settings : s'.settings = s.settings
  old : ∀ id wtx' kind v, s'.wallet.mapWallet id = some wtx' → s'.cache id kind = some v →
    s.cache id kind = some v ∧ ∃ wtx, s.wallet.mapWallet id = some wtx ∧ wtx'.tx = wtx.tx ∧
      (kind = .available → ∀ i < wtx.tx.vout.length, wtx'.isSpent i = wtx.isSpent i) ∧
      (kind ≠ .immature → ∀ filter txout, s'.creditOut filter txout = s.creditOut filter txout)

/-- Such an operation keeps the cache sound when it changes nothing below it. -/
theorem Sound.of_follows {s s' : CreditWallet} (h : s.Sound) (hf : Follows s s') (hk : Kept s s') : s'.Sound where
  keyed := hf.keyed h.keyed
  fits := by
    rw [hf.rounds]
    exact h.fits.mono hf.grow
  cached := by
    intro id wtx' kind v hwtx' hv
    obtain ⟨hold, wtx, hwtx, htx, hbits, hcredit⟩ := hf.old id wtx' kind v hwtx' hv
    have hid := h.keyed id wtx hwtx
    have hset : (s'.cache id kind).isSome := by rw [hv, Option.isSome_some]
    have hout : ∀ i, outPoint wtx' i = outPoint wtx i := fun i => by rw [outPoint, outPoint, htx]
    have hspent : readsSpends kind = true → ∀ (i : ℕ) txout, wtx.tx.vout[i]? = some txout →
        s.Worth (filterOf kind) txout → s'.spends.isSpent (outPoint wtx i) = s.spends.isSpent (outPoint wtx i) :=
      fun hreads => hk.spent id wtx kind hwtx hreads hset
    refine (h.cached id wtx kind v hwtx hold).of_same htx hf.settings (by rw [hf.rounds]; exact .refl _) ?_ ?_
    · intro txout hmem
      by_cases himm : kind = .immature
      · subst himm
        exact hk.mine id wtx hwtx hset txout hmem
      · exact hcredit himm _ _
    · intro i txout hi hworth
      cases kind with
      | available => exact hbits rfl i (List.getElem?_eq_some_iff.mp hi).1
      | anonymizable =>
        simp only [rule, anonymizableRule, hf.settings, hout]
        rw [hspent rfl i txout hi hworth, hk.locked id wtx hwtx hset i txout hi hworth]
      | anonymized =>
        simp only [rule, anonymizedRule, hout]
        have hden : s'.isDenominated (outPoint wtx i) = s.isDenominated (outPoint wtx i) := by
          rw [isDenominated, isDenominated]
          simp only [outPoint, hid, hwtx, hwtx', htx]
        rw [hspent rfl i txout hi hworth, hden]
      | denomUnconf | denomConf =>
        simp only [rule, denominatedRule, hout]
        rw [hspent rfl i txout hi hworth]
      | immature => rfl
      | availableWatch =>
        simp only [rule, availableWatchRule, hout]
        exact hspent rfl i txout hi hworth

theorem Follows.refl (s : CreditWallet) : Follows s s where
  grow _ wtx h := ⟨wtx, h, rfl⟩
  keyed h := h
  rounds := rfl
  settings := rfl
  old _ wtx' _ _ hwtx' hv := ⟨hv, wtx', hwtx', rfl, fun _ _ _ => rfl, fun _ _ _ => rfl⟩

theorem Follows.trans {s₁ s₂ s₃ : CreditWallet} (h : Follows s₁ s₂) (h' : Follows s₂ s₃) : Follows s₁ s₃ where
  grow id wtx hwtx := by
    obtain ⟨wtx₂, hwtx₂, htx₂⟩ := h.grow id wtx hwtx
    obtain ⟨wtx₃, hwtx₃, htx₃⟩ := h'.grow id wtx₂ hwtx₂
    exact ⟨wtx₃, hwtx₃, htx₃.trans htx₂⟩
  keyed hkeyed := h'.keyed (h.keyed hkeyed)
  rounds := h'.rounds.trans h.rounds
  settings := h'.settings.trans h.settings
  old id wtx₃ kind v hwtx₃ hv₃ := by
    obtain ⟨hv₂, wtx₂, hwtx₂, htx₂, hbits₂, hcredit₂⟩ := h'.old id wtx₃ kind v hwtx₃ hv₃
    obtain ⟨hv₁, wtx₁, hwtx₁, htx₁, hbits₁, hcredit₁⟩ := h.old id wtx₂ kind v hwtx₂ hv₂
    refine ⟨hv₁, wtx₁, hwtx₁, htx₂.trans htx₁, ?_, ?_⟩
    · intro hkind i hi
      exact (hbits₂ hkind i (by rw [htx₁]; exact hi)).trans (hbits₁ hkind i hi)
    · intro hkind filter txout
      exact (hcredit₂ hkind filter txout).trans (hcredit₁ hkind filter txout)

theorem Follows.foldl {α : Type} {f : CreditWallet → α → CreditWallet} (hf : ∀ s x, Follows s (f s x)) (l : List α)
    (s : CreditWallet) : Follows s (l.foldl f s) := by
  induction l generalizing s with
  | nil => exact .refl s
  | cons x l ih => exact (hf s x).trans (ih (f s x))

/-! ### Each operation -/

omit [Crypto] in
theorem creditOut_congr {s s' : CreditWallet} (hmine : s'.wallet.isMineScript = s.wallet.isMineScript)
    (hwatch : s'.watchOnly = s.watchOnly) (filter : IsMineType) (txout : CTxOut) :
    s'.creditOut filter txout = s.creditOut filter txout := by
  have htype : s'.isMineType txout = s.isMineType txout := by
    rw [isMineType, isMineType, CWallet.isMineOut, CWallet.isMineOut, hmine, hwatch]
  rw [creditOut, creditOut, htype]

omit [Crypto] in
theorem dirty_eq_some {cached : Cached → Option ℤ} {kind : Cached} {v : ℤ} (h : dirty cached kind = some v) :
    kind = .immature ∧ cached kind = some v := by
  rw [dirty] at h
  split at h
  · next hkind => exact ⟨hkind, by rw [hkind]; exact h⟩
  · cases h

theorem follows_markDirty (s : CreditWallet) (id : Uint256) : Follows s (s.markDirty id) := by
  rw [markDirty]
  cases s.wallet.mapWallet id with
  | none => exact .refl s
  | some _ =>
    refine ⟨fun _ wtx h => ⟨wtx, h, rfl⟩, fun h => h, rfl, rfl, ?_⟩
    intro id' wtx' kind v hwtx' hv
    refine ⟨?_, wtx', hwtx', rfl, fun _ _ _ => rfl, fun _ _ _ => rfl⟩
    dsimp only at hv
    by_cases hid : id' = id
    · subst hid
      rw [Function.update_self] at hv
      exact (dirty_eq_some hv).2
    · rw [Function.update_of_ne hid] at hv
      exact hv

theorem follows_markOutput (s : CreditWallet) (o : COutPoint) (spent : Bool) : Follows s (s.markOutput o spent) := by
  rw [markOutput]
  cases hwtx : s.wallet.mapWallet o.hash with
  | none => exact .refl s
  | some wtx =>
    dsimp only
    split
    · exact .refl s
    · next hlt =>
      obtain ⟨new, hnew, htx⟩ : ∃ new, new = (if spent then wtx.markSpent o.n.toNat else wtx.markUnspent o.n.toNat) ∧
          new.tx = wtx.tx := ⟨_, rfl, by split <;> rfl⟩
      have hbits : wtx.isSpent o.n.toNat = spent → ∀ i < wtx.tx.vout.length, new.isSpent i = wtx.isSpent i := by
        intro hsame i hi
        rw [Bool.eq_iff_iff, hnew]
        cases spent with
        | true =>
          rw [if_pos rfl, SpendWallet.isSpent_markSpent (Nat.not_le.mp hlt) hi]
          constructor
          · rintro (hspent | rfl)
            · exact hspent
            · exact hsame
          · exact .inl
        | false =>
          rw [if_neg Bool.false_ne_true, SpendWallet.isSpent_markUnspent (Nat.not_le.mp hlt) hi]
          refine ⟨fun h => h.1, fun h => ⟨h, ?_⟩⟩
          rintro rfl
          rw [hsame] at h
          cases h
      rw [← hnew]
      refine ⟨?_, ?_, rfl, rfl, ?_⟩
      · intro id wtx' hwtx'
        by_cases hid : id = o.hash
        · subst hid
          rw [hwtx, Option.some.injEq] at hwtx'
          subst hwtx'
          exact ⟨new, Function.update_self _ _ _, htx⟩
        · refine ⟨wtx', ?_, rfl⟩
          dsimp only
          rw [Function.update_of_ne hid]
          exact hwtx'
      · intro hkeyed id wtx' hwtx'
        dsimp only at hwtx'
        by_cases hid : id = o.hash
        · subst hid
          rw [Function.update_self, Option.some.injEq] at hwtx'
          rw [← hwtx', htx]
          exact hkeyed _ wtx hwtx
        · rw [Function.update_of_ne hid] at hwtx'
          exact hkeyed id wtx' hwtx'
      · intro id wtx' kind v hwtx' hv
        dsimp only at hwtx' hv
        by_cases hid : id = o.hash
        · subst hid
          rw [Function.update_self, Option.some.injEq] at hwtx'
          subst hwtx'
          by_cases hsame : wtx.isSpent o.n.toNat = spent
          · rw [if_pos hsame] at hv
            exact ⟨hv, wtx, hwtx, htx, fun _ => hbits hsame, fun _ => creditOut_congr rfl rfl⟩
          · rw [if_neg hsame, Function.update_self] at hv
            by_cases hkind : kind = .available
            · rw [hkind, Function.update_self] at hv
              cases hv
            · rw [Function.update_of_ne hkind] at hv
              exact ⟨hv, wtx, hwtx, htx, fun h => absurd h hkind, fun _ => creditOut_congr rfl rfl⟩
        · rw [Function.update_of_ne hid] at hwtx'
          refine ⟨?_, wtx', hwtx', rfl, fun _ _ _ => rfl, fun _ => creditOut_congr rfl rfl⟩
          split at hv
          · exact hv
          · rw [Function.update_of_ne hid] at hv
            exact hv

theorem follows_disableTransaction (s : CreditWallet) (tx : CTransaction) : Follows s (s.disableTransaction tx) := by
  rw [disableTransaction]
  apply Follows.foldl
  intro s txin
  split
  · exact .refl s
  · split
    · exact follows_markOutput s _ false
    · exact .refl s

theorem isMineScript_addToWallet (w : CWallet) (wtxIn : CWalletTx) :
    (w.addToWallet wtxIn).isMineScript = w.isMineScript := by
  rw [CWallet.addToWallet]
  split <;> rfl

theorem follows_addToWallet (s : CreditWallet) (wtxIn : CWalletTx) : Follows s (s.addToWallet wtxIn) := by
  have hcredit : ∀ filter txout, (s.addToWallet wtxIn).creditOut filter txout = s.creditOut filter txout :=
    creditOut_congr (isMineScript_addToWallet s.wallet wtxIn) rfl
  obtain ⟨new, hmap, htx⟩ : ∃ new, (s.wallet.addToWallet wtxIn).mapWallet =
      Function.update s.wallet.mapWallet wtxIn.tx.getHash (some new) ∧
      (∀ wtx, s.wallet.mapWallet wtxIn.tx.getHash = some wtx → new.tx = wtx.tx) ∧
      (s.wallet.mapWallet wtxIn.tx.getHash = none → new.tx = wtxIn.tx) := by
    rw [CWallet.addToWallet]
    cases hwtx : s.wallet.mapWallet wtxIn.tx.getHash with
    | none =>
      refine ⟨_, rfl, ?_, fun _ => rfl⟩
      intro wtx h
      cases h
    | some wtx =>
      refine ⟨_, rfl, ?_, ?_⟩
      · intro wtx' h
        rw [Option.some.injEq] at h
        rw [← h, SpendWallet.tx_merge]
      · intro h
        cases h
  refine ⟨?_, ?_, rfl, rfl, ?_⟩
  · intro id wtx hwtx
    rw [addToWallet]
    dsimp only
    rw [hmap]
    by_cases hid : id = wtxIn.tx.getHash
    · subst hid
      exact ⟨new, Function.update_self _ _ _, htx.1 wtx hwtx⟩
    · exact ⟨wtx, by rw [Function.update_of_ne hid]; exact hwtx, rfl⟩
  · intro hkeyed id wtx' hwtx'
    rw [addToWallet] at hwtx'
    dsimp only at hwtx'
    rw [hmap] at hwtx'
    by_cases hid : id = wtxIn.tx.getHash
    · subst hid
      rw [Function.update_self, Option.some.injEq] at hwtx'
      subst hwtx'
      cases hwtx : s.wallet.mapWallet wtxIn.tx.getHash with
      | none => rw [htx.2 hwtx]
      | some wtx => rw [htx.1 wtx hwtx]; exact hkeyed _ wtx hwtx
    · rw [Function.update_of_ne hid] at hwtx'
      exact hkeyed id wtx' hwtx'
  · intro id wtx' kind v hwtx' hv
    rw [addToWallet] at hwtx' hv
    dsimp only at hwtx' hv
    rw [hmap] at hwtx'
    by_cases hid : id = wtxIn.tx.getHash
    · subst hid
      rw [Function.update_self] at hwtx' hv
      rw [Option.some.injEq] at hwtx'
      subst hwtx'
      cases hwtx : s.wallet.mapWallet wtxIn.tx.getHash with
      | none =>
        rw [hwtx] at hv
        cases hv
      | some wtx =>
        rw [hwtx] at hv
        obtain ⟨rfl, hv⟩ := dirty_eq_some hv
        exact ⟨hv, wtx, rfl, htx.1 wtx hwtx, nofun, fun h => absurd rfl h⟩
    · rw [Function.update_of_ne hid] at hwtx' hv
      exact ⟨hv, wtx', hwtx', rfl, fun _ _ _ => rfl, fun _ => hcredit⟩

theorem follows_syncTransaction (tx : CTransaction) (pblock : Option CBlock) (fConnect : Bool) (s : CreditWallet) :
    Follows s (syncTransaction tx pblock fConnect s) := by
  have hadd : ∀ s s' : CreditWallet, s.addToWalletIfInvolvingMe tx pblock = some s' → Follows s s' := by
    intro s s' h
    rw [addToWalletIfInvolvingMe] at h
    split at h
    · rw [Option.some.injEq] at h
      rw [← h]
      exact follows_addToWallet s _
    · cases h
  rw [syncTransaction]
  cases h₁ : s.addToWalletIfInvolvingMe tx pblock with
  | none => exact .refl s
  | some s₁ =>
    refine (hadd s s₁ h₁).trans ?_
    have hdirty := Follows.foldl (fun s (txin : CTxIn) => follows_markDirty s txin.prevout.hash) tx.vin s₁
    refine hdirty.trans ?_
    dsimp only
    split
    · split
      · exact follows_disableTransaction _ tx
      · exact .refl _
    · cases h₂ : (tx.vin.foldl (fun s txin => s.markDirty txin.prevout.hash) s₁).addToWalletIfInvolvingMe tx pblock with
      | none => exact .refl _
      | some s₂ => exact hadd _ s₂ h₂

theorem follows_locks (s : CreditWallet) (locked : List COutPoint) : Follows s { s with setLockedCoins := locked } :=
  ⟨fun _ wtx h => ⟨wtx, h, rfl⟩, fun h => h, rfl, rfl,
    fun _ wtx' _ _ hwtx' hv => ⟨hv, wtx', hwtx', rfl, fun _ _ _ => rfl, fun _ _ _ => rfl⟩⟩

theorem follows_importKey (s : CreditWallet) (isMineScript watchOnly : CScript → Bool) :
    Follows s (s.importKey isMineScript watchOnly) := by
  refine ⟨fun _ wtx h => ⟨wtx, h, rfl⟩, fun h => h, rfl, rfl, ?_⟩
  intro id wtx' kind v hwtx' hv
  obtain ⟨hkind, hv⟩ := dirty_eq_some hv
  subst hkind
  exact ⟨hv, wtx', hwtx', rfl, nofun, fun h => absurd rfl h⟩

/-! ### Runs -/

/-- One operation that keeps what the amounts rest on keeps the cache sound. -/
theorem sound_step {s : CreditWallet} (h : s.Sound) {op : Op} {view : ChainView} (hk : Kept s (s.step op view)) :
    (s.step op view).Sound := by
  have hview : ∀ s₁ : CreditWallet, Follows s s₁ → Follows s { s₁ with view } := fun s₁ hf =>
    ⟨hf.grow, hf.keyed, hf.rounds, hf.settings, hf.old⟩
  rw [step] at hk ⊢
  cases op with
  | getCredit kind id fUseCache =>
    cases hwtx : s.wallet.mapWallet id with
    | none =>
      have happly : s.apply (.getCredit kind id fUseCache) = s := by simp only [apply, hwtx]
      rw [happly] at hk ⊢
      exact h.of_follows (hview s (.refl s)) hk
    | some wtx =>
      obtain ⟨m, cache, heq, hsound⟩ := h.getCredit hwtx fUseCache kind
      have happly : s.apply (.getCredit kind id fUseCache) = { s with mDenomWtxes := m, cache } := by
        simp only [apply, hwtx, heq]
      rw [happly] at hk ⊢
      exact hsound.of_follows
        ⟨fun _ wtx h => ⟨wtx, h, rfl⟩, fun h => h, rfl, rfl,
          fun _ wtx' _ _ hwtx' hv => ⟨hv, wtx', hwtx', rfl, fun _ _ _ => rfl, fun _ _ _ => rfl⟩⟩
        ⟨hk.locked, hk.spent, hk.mine⟩
  | addToWallet wtxIn => exact h.of_follows (hview _ (follows_addToWallet s wtxIn)) hk
  | syncTransaction tx pblock fConnect => exact h.of_follows (hview _ (follows_syncTransaction tx pblock fConnect s)) hk
  | syncBlock b fConnect =>
    exact h.of_follows (hview _ (.foldl (fun s tx => follows_syncTransaction tx (some b) fConnect s) b.vtx s)) hk
  | markSpent o => exact h.of_follows (hview _ (follows_markOutput s o true)) hk
  | markUnspent o => exact h.of_follows (hview _ (follows_markOutput s o false)) hk
  | lockCoin o => exact h.of_follows (hview _ (follows_locks s _)) hk
  | unlockCoin o => exact h.of_follows (hview _ (follows_locks s _)) hk
  | unlockAllCoins => exact h.of_follows (hview _ (follows_locks s _)) hk
  | importKey isMineScript watchOnly => exact h.of_follows (hview _ (follows_importKey s isMineScript watchOnly)) hk

/-- Each operation of a run keeps what the amounts rest on. -/
def KeptRun : CreditWallet → List (Op × ChainView) → Prop
  | _, [] => True
  | s, p :: steps => Kept s (s.step p.1 p.2) ∧ KeptRun (s.step p.1 p.2) steps

/-- A wallet as it is after loading: each transaction under its hash, and no amounts and no rounds yet. -/
structure IsFresh (s : CreditWallet) : Prop where
  keyed : ∀ id wtx, s.wallet.mapWallet id = some wtx → wtx.tx.getHash = id
  noCache : ∀ id kind, s.cache id kind = none
  noRounds : ∀ h, s.mDenomWtxes h = none

theorem IsFresh.sound {s : CreditWallet} (h : s.IsFresh) : s.Sound where
  keyed := h.keyed
  fits id l hl := by
    rw [h.noRounds] at hl
    cases hl
  cached id wtx kind v _ hv := by
    rw [h.noCache] at hv
    cases hv

theorem sound_run {s : CreditWallet} (h : s.Sound) {steps : List (Op × ChainView)} (hkept : s.KeptRun steps) :
    (s.run steps).Sound := by
  induction steps generalizing s with
  | nil => exact h
  | cons p steps ih => exact ih (sound_step h hkept.1) hkept.2

end CreditWallet

/-! ### A coin that is locked -/

namespace CreditSample

open CreditWallet

/-- Transactions have their time stamp for a hash. -/
scoped instance crypto : Crypto where
  serializeHash tx := BitVec.ofNat 256 tx.nTime.toNat
  hash h := BitVec.ofNat 256 h.nTime.toNat
  hash9 h := BitVec.ofNat 256 h.nTime.toNat
  hashPair a _ := a
  verifySignature _ _ _ _ _ := true
  checkBlockSignature _ := true
  hashKernel _ _ _ hash _ _ := hash
  hashSelection a _ := a
  hashModifierV2 a _ := a

def coin : CWalletTx := { tx := { nTime := 1, vin := [⟨⟨7, 0⟩, [], 0⟩], vout := [⟨5 * COIN, [0x51]⟩] } }

/-- Everything is confirmed. -/
def view : ChainView where
  depth _ := 1
  depthNoIX _ := 1
  isInMainChain _ := true
  isFinalTx _ := true
  isTrusted _ := true

/-- Everything is the wallet's. -/
def start : CreditWallet where
  wallet := { isMineScript := fun _ => true, mapWallet := fun id => if id = 1 then some coin else none }
  view := view

end CreditSample

end PayDayCoin
