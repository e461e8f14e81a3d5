import PayDayCoin.Wallet

/-!
# The rounds of an output

How many rounds of mixing an output of the wallet has behind it: `Rounds` is the definition on the graph of the
wallet's transactions. `GetRealInputDarksendRounds` computes it by recursion. It gives up at depth 16 with a constant,
and keeps every value that it computes in a static map, also the values that rest on that constant.
**`answers_rounds`**: every answer is the value of the definition, whatever was asked before, as long as no output that
is asked for has a path of 16 steps below it, over own inputs of transactions with denominated outputs only.
-/

namespace PayDayCoin

/-! ### Amounts -/

/-- `DARKSEND_COLLATERAL`. -/
def DARKSEND_COLLATERAL : ℤ := CENT

/-- `darkSendDenominations`. -/
def darkSendDenominations : List ℤ :=
  [1000 * COIN + 1000000, 100 * COIN + 100000, 10 * COIN + 10000, 1 * COIN + 1000, COIN / 10 + 100]

/-- `IsDenominatedAmount`. -/
def isDenominatedAmount (nInputAmount : ℤ) : Bool := darkSendDenominations.any (nInputAmount == ·)

/-- `IsCollateralAmount`. -/
def isCollateralAmount (nInputAmount : ℤ) : Bool :=
  nInputAmount ≠ 0 && Int.tmod nInputAmount DARKSEND_COLLATERAL = 0 &&
    nInputAmount < DARKSEND_COLLATERAL * 5 && nInputAmount > DARKSEND_COLLATERAL

namespace CWallet

/-- `CWallet::IsMine` of an input. -/
def isMineIn (w : CWallet) (txin : CTxIn) : Bool :=
  match w.mapWallet txin.prevout.hash with
  | none => false
  | some prev => prev.tx.vout[txin.prevout.n.toNat]?.any w.isMineOut

/-- The inputs of a transaction that are the wallet's. -/
def ownInputs (w : CWallet) (tx : CTransaction) : List CTxIn := tx.vin.filter w.isMineIn

/-! ### The definition -/

/-- One more than the least of the values that are not negative, and at most 16. -/
def oneMore (vals : List ℤ) : ℤ :=
  match (vals.filter (0 ≤ ·)).min? with
  | none => 0
  | some n => min (n + 1) 16

/-- A denominated output of a transaction with denominated outputs only. -/
def Mixed (tx : CTransaction) (n : ℕ) : Prop :=
  ∃ txout, tx.vout[n]? = some txout ∧ ¬ isCollateralAmount txout.nValue ∧
    ∀ out ∈ tx.vout, isDenominatedAmount out.nValue

/-- The rounds of an output, as they are defined. -/
inductive Rounds (w : CWallet) : COutPoint → ℤ → Prop
  /-- The transaction is not in the wallet. -/
  | unknown {o : COutPoint} : w.mapWallet o.hash = none → Rounds w o (-1)
  | collateral {o : COutPoint} {wtx : CWalletTx} {txout : CTxOut} : w.mapWallet o.hash = some wtx →
      wtx.tx.vout[o.n.toNat]? = some txout → isCollateralAmount txout.nValue → Rounds w o (-3)
  | nonDenominated {o : COutPoint} {wtx : CWalletTx} {txout : CTxOut} : w.mapWallet o.hash = some wtx →
      wtx.tx.vout[o.n.toNat]? = some txout → ¬ isCollateralAmount txout.nValue →
      ¬ isDenominatedAmount txout.nValue → Rounds w o (-2)
  /-- Another output is not denominated. -/
  | other {o : COutPoint} {wtx : CWalletTx} {txout : CTxOut} : w.mapWallet o.hash = some wtx →
      wtx.tx.vout[o.n.toNat]? = some txout → ¬ isCollateralAmount txout.nValue → isDenominatedAmount txout.nValue →
      ¬ (∀ out ∈ wtx.tx.vout, isDenominatedAmount out.nValue) → Rounds w o 0
  | mixed {o : COutPoint} {wtx : CWalletTx} (v : COutPoint → ℤ) : w.mapWallet o.hash = some wtx →
      Mixed wtx.tx o.n.toNat → (∀ txin ∈ w.ownInputs wtx.tx, Rounds w txin.prevout (v txin.prevout)) →
      Rounds w o (oneMore ((w.ownInputs wtx.tx).map fun txin => v txin.prevout))

/-! ### The function -/

/-- `mDenomWtxes`: the `nRounds` of the outputs of each transaction that was looked at. -/
abbrev DenomWtxes := Uint256 → Option (List ℤ)

/-- An output's `nRounds` in the map. -/
def DenomWtxes.set (m : DenomWtxes) (o : COutPoint) (nRounds : ℤ) : DenomWtxes :=
  Function.update m o.hash ((m o.hash).map fun l => l.set o.n.toNat nRounds)

/-- The loop over the inputs: the shortest chain so far, whether one was found, and the map. -/
def shortest (isMine : CTxIn → Bool) (rounds : COutPoint → DenomWtxes → ℤ × DenomWtxes) :
    List CTxIn → ℤ → Bool → DenomWtxes → ℤ × Bool × DenomWtxes
  | [], nShortest, fDenomFound, m => (nShortest, fDenomFound, m)
  | in2 :: vin, nShortest, fDenomFound, m =>
    if isMine in2 then
      let r := rounds in2.prevout m
      if 0 ≤ r.1 ∧ (r.1 < nShortest ∨ nShortest = -10) then shortest isMine rounds vin r.1 true r.2
      else shortest isMine rounds vin nShortest fDenomFound r.2
    else shortest isMine rounds vin nShortest fDenomFound m

/-- `GetRealInputDarksendRounds`, at depth `16 - left`. A read past the end of the outputs gives `pastEnd`. -/
def getRealInputDarksendRounds (w : CWallet) (pastEnd : ℤ) : ℕ → COutPoint → DenomWtxes → ℤ × DenomWtxes
  | 0, _, m => (15, m)
  | left + 1, o, m =>
    match w.mapWallet o.hash with
    | none => (14 - left, m)
    | some wtx =>
      let known := match m o.hash with
        | none => -10
        | some l => l.getD o.n.toNat pastEnd
      if known ≠ -10 then (known, m)
      else
        let m := match m o.hash with
          | none => Function.update m o.hash (some (List.replicate wtx.tx.vout.length (-10)))
          | some _ => m
        match wtx.tx.vout[o.n.toNat]? with
        | none => (-4, m)
        | some txout =>
          if isCollateralAmount txout.nValue then (-3, m.set o (-3))
          else if !isDenominatedAmount txout.nValue then (-2, m.set o (-2))
          else if !(wtx.tx.vout.all fun out => isDenominatedAmount out.nValue) then (0, m.set o 0)
          else
            let r := shortest w.isMineIn (getRealInputDarksendRounds w pastEnd left) wtx.tx.vin (-10) false m
            let nRounds := if r.2.1 then (if 15 ≤ r.1 then 16 else r.1 + 1) else 0
            (nRounds, r.2.2.set o nRounds)

/-- `GetInputDarksendRounds`. -/
def getInputDarksendRounds (w : CWallet) (pastEnd nDarksendRounds : ℤ) (o : COutPoint) (m : DenomWtxes) :
    ℤ × DenomWtxes :=
  let r := w.getRealInputDarksendRounds pastEnd 16 o m
  (if r.1 > nDarksendRounds then nDarksendRounds else r.1, r.2)

/-- The answers to a sequence of queries, from a map on. -/
def answers (w : CWallet) (pastEnd nDarksendRounds : ℤ) : List COutPoint → DenomWtxes → List ℤ
  | [], _ => []
  | o :: os, m =>
    let r := w.getInputDarksendRounds pastEnd nDarksendRounds o m
    r.1 :: w.answers pastEnd nDarksendRounds os r.2

/-! ### The definition gives one value -/

theorem Rounds.unique {w : CWallet} {o : COutPoint} {a b : ℤ} (ha : w.Rounds o a) (hb : w.Rounds o b) : a = b := by
  induction ha generalizing b with
  | unknown hwtx =>
    cases hb with
    | unknown => rfl
    | collateral hwtx' => rw [hwtx] at hwtx'; cases hwtx'
    | nonDenominated hwtx' => rw [hwtx] at hwtx'; cases hwtx'
    | other hwtx' => rw [hwtx] at hwtx'; cases hwtx'
    | mixed v hwtx' => rw [hwtx] at hwtx'; cases hwtx'
  | collateral hwtx hout hcol =>
    cases hb with
    | unknown hwtx' => rw [hwtx] at hwtx'; cases hwtx'
    | collateral => rfl
    | nonDenominated hwtx' hout' hcol' => grind
    | other hwtx' hout' hcol' => grind
    | mixed v hwtx' hmix => grind [Mixed]
  | nonDenominated hwtx hout hcol hden =>
    cases hb with
    | unknown hwtx' => rw [hwtx] at hwtx'; cases hwtx'
    | collateral hwtx' hout' hcol' => grind
    | nonDenominated => rfl
    | other hwtx' hout' hcol' hden' => grind
    | mixed v hwtx' hmix => grind [Mixed]
  | other hwtx hout hcol hden hall =>
    cases hb with
    | unknown hwtx' => rw [hwtx] at hwtx'; cases hwtx'
    | collateral hwtx' hout' hcol' => grind
    | nonDenominated hwtx' hout' hcol' hden' => grind
    | other => rfl
    | mixed v hwtx' hmix => grind [Mixed]
  | mixed v hwtx hmix hv ih =>
    cases hb with
    | unknown hwtx' => rw [hwtx] at hwtx'; cases hwtx'
    | collateral hwtx' hout' hcol' => grind [Mixed]
    | nonDenominated hwtx' hout' hcol' hden' => grind [Mixed]
    | other hwtx' hout' hcol' hden' hall' => grind [Mixed]
    | mixed v' hwtx' hmix' hv' =>
      rw [hwtx, Option.some.injEq] at hwtx'
      subst hwtx'
      congr 1
      apply List.map_congr_left
      intro txin htxin
      exact ih txin htxin (hv' txin htxin)

/-- An output of the wallet spends another, by an own input of its transaction. -/
def Spends (w : CWallet) (o o' : COutPoint) : Prop :=
  ∃ wtx, w.mapWallet o.hash = some wtx ∧ ∃ txin ∈ w.ownInputs wtx.tx, txin.prevout = o'

theorem exists_of_isMineIn {w : CWallet} {txin : CTxIn} (h : w.isMineIn txin) :
    ∃ wtx, w.mapWallet txin.prevout.hash = some wtx ∧ txin.prevout.n.toNat < wtx.tx.vout.length := by
  rw [isMineIn] at h
  cases hwtx : w.mapWallet txin.prevout.hash with
  | none => simp [hwtx] at h
  | some wtx =>
    refine ⟨wtx, rfl, ?_⟩
    simp only [hwtx, Option.any_eq_true] at h
    obtain ⟨txout, hout, -⟩ := h
    exact (List.getElem?_eq_some_iff.mp hout).1

/-- The transaction has this output, if it is in the wallet. -/
def HasOutput (w : CWallet) (o : COutPoint) : Prop :=
  ∀ wtx, w.mapWallet o.hash = some wtx → o.n.toNat < wtx.tx.vout.length

/-- On a graph without cycles every output has a value. -/
theorem exists_rounds {w : CWallet} (hwf : WellFounded fun o' o => w.Spends o o') (o : COutPoint)
    (hout : w.HasOutput o) : ∃ v, w.Rounds o v := by
  classical
  induction o using hwf.induction with
  | _ o ih =>
    cases hwtx : w.mapWallet o.hash with
    | none => exact ⟨-1, .unknown hwtx⟩
    | some wtx =>
      obtain ⟨txout, htxout⟩ : ∃ txout, wtx.tx.vout[o.n.toNat]? = some txout :=
        ⟨_, List.getElem?_eq_getElem (hout wtx hwtx)⟩
      by_cases hcol : isCollateralAmount txout.nValue
      · exact ⟨-3, .collateral hwtx htxout hcol⟩
      by_cases hden : isDenominatedAmount txout.nValue
      · by_cases hall : ∀ out ∈ wtx.tx.vout, isDenominatedAmount out.nValue
        · have hex : ∀ txin ∈ w.ownInputs wtx.tx, ∃ v, w.Rounds txin.prevout v := by
            intro txin htxin
            apply ih txin.prevout ⟨wtx, hwtx, txin, htxin, rfl⟩
            obtain ⟨prev, hprev, hlt⟩ := exists_of_isMineIn (List.mem_filter.mp htxin).2
            intro prev' hprev'
            rw [hprev, Option.some.injEq] at hprev'
            rw [← hprev']
            exact hlt
          refine ⟨_, .mixed (fun o => if h : ∃ r, w.Rounds o r then h.choose else 0) hwtx
            ⟨_, htxout, hcol, hall⟩ ?_⟩
          intro txin htxin
          rw [dif_pos (hex txin htxin)]
          exact (hex txin htxin).choose_spec
        · exact ⟨0, .other hwtx htxout hcol hden hall⟩
      · exact ⟨-2, .nonDenominated hwtx htxout hcol hden⟩

/-! ### The loop over the inputs -/

/-- The shortest chain among values: the least that is not negative, or nothing found. -/
def Least (vals : List ℤ) (nShortest : ℤ) (fDenomFound : Bool) : Prop :=
  (fDenomFound = true ∧ nShortest ∈ vals ∧ 0 ≤ nShortest ∧ ∀ x ∈ vals, 0 ≤ x → nShortest ≤ x) ∨
    (fDenomFound = false ∧ nShortest = -10 ∧ ∀ x ∈ vals, x < 0)

theorem Least.snoc_shorter {vals : List ℤ} {n x : ℤ} {found : Bool} (h : Least vals n found) (hx : 0 ≤ x)
    (hlt : x < n ∨ n = -10) : Least (vals ++ [x]) x true := by
  refine .inl ⟨rfl, by simp, hx, ?_⟩
  intro y hy hy0
  rw [List.mem_append, List.mem_singleton] at hy
  rcases hy with hy | rfl
  · rcases h with ⟨-, -, hn, hle⟩ | ⟨-, -, hneg⟩
    · have := hle y hy hy0
      omega
    · have := hneg y hy
      omega
  · exact Int.le_refl _

theorem Least.snoc_longer {vals : List ℤ} {n x : ℤ} {found : Bool} (h : Least vals n found)
    (hx : ¬ (0 ≤ x ∧ (x < n ∨ n = -10))) : Least (vals ++ [x]) n found := by
  rcases h with ⟨hfound, hmem, hn, hle⟩ | ⟨hfound, hn, hneg⟩
  · refine .inl ⟨hfound, List.mem_append_left _ hmem, hn, ?_⟩
    intro y hy hy0
    rw [List.mem_append, List.mem_singleton] at hy
    rcases hy with hy | rfl
    · exact hle y hy hy0
    · omega
  · refine .inr ⟨hfound, hn, ?_⟩
    intro y hy
    rw [List.mem_append, List.mem_singleton] at hy
    rcases hy with hy | rfl
    · exact hneg y hy
    · omega

theorem Least.oneMore_eq {vals : List ℤ} {n : ℤ} {found : Bool} (h : Least vals n found) :
    oneMore vals = if found then (if 15 ≤ n then 16 else n + 1) else 0 := by
  rcases h with ⟨rfl, hmem, hn, hle⟩ | ⟨rfl, -, hneg⟩
  · have hmin : (vals.filter (0 ≤ ·)).min? = some n := by
      rw [List.min?_eq_some_iff]
      refine ⟨by simp [hmem, hn], ?_⟩
      intro x hx
      simp only [List.mem_filter, decide_eq_true_eq] at hx
      exact hle x hx.1 hx.2
    rw [oneMore, hmin, if_pos rfl]
    dsimp only
    split <;> omega
  · have hnil : vals.filter (0 ≤ ·) = [] := by
      rw [List.filter_eq_nil_iff]
      intro x hx
      have := hneg x hx
      simp only [decide_eq_true_eq]
      omega
    rw [oneMore, hnil]
    rfl

/-- The loop finds the shortest chain, and keeps what each call keeps of the map. -/
theorem shortest_spec {isMine : CTxIn → Bool} {rounds : COutPoint → DenomWtxes → ℤ × DenomWtxes}
    {P : DenomWtxes → Prop} {v : COutPoint → ℤ} (vin : List CTxIn) {vals : List ℤ} {n : ℤ} {found : Bool}
    {m : DenomWtxes} (hP : P m) (hleast : Least vals n found)
    (hcall : ∀ txin ∈ vin.filter isMine, ∀ m, P m →
      (rounds txin.prevout m).1 = v txin.prevout ∧ P (rounds txin.prevout m).2) :
    let r := shortest isMine rounds vin n found m
    Least (vals ++ (vin.filter isMine).map fun txin => v txin.prevout) r.1 r.2.1 ∧ P r.2.2 := by
  induction vin generalizing vals n found m with
  | nil => simpa [shortest] using ⟨hleast, hP⟩
  | cons txin vin ih =>
    cases hmine : isMine txin with
    | false =>
      rw [List.filter_cons_of_neg (by simp [hmine])] at hcall ⊢
      simp only [shortest, hmine, Bool.false_eq_true, if_false]
      exact ih hP hleast hcall
    | true =>
      rw [List.filter_cons_of_pos hmine] at hcall ⊢
      obtain ⟨hval, hP'⟩ := hcall txin List.mem_cons_self m hP
      have hrest := fun x hx => hcall x (List.mem_cons_of_mem _ hx)
      simp only [shortest, hmine, if_true, List.map_cons, hval]
      rw [List.append_cons]
      by_cases hlt : 0 ≤ v txin.prevout ∧ (v txin.prevout < n ∨ n = -10)
      · rw [if_pos hlt]
        exact ih hP' (hleast.snoc_shorter hlt.1 hlt.2) hrest
      · rw [if_neg hlt]
        exact ih hP' (hleast.snoc_longer hlt) hrest

/-! ### The map -/

/-- What is in the map is the value of the definition. -/
structure MemoSound (w : CWallet) (m : DenomWtxes) : Prop where
  length : ∀ h l wtx, m h = some l → w.mapWallet h = some wtx → l.length = wtx.tx.vout.length
  rounds : ∀ (o : COutPoint) l n, m o.hash = some l → l[o.n.toNat]? = some n → n ≠ -10 → w.Rounds o n

theorem MemoSound.insert {w : CWallet} {m : DenomWtxes} (hm : w.MemoSound m) {h : Uint256} {wtx : CWalletTx}
    (hwtx : w.mapWallet h = some wtx) :
    w.MemoSound (Function.update m h (some (List.replicate wtx.tx.vout.length (-10)))) := by
  refine ⟨?_, ?_⟩
  · intro h' l wtx' hl hwtx'
    by_cases hh : h' = h
    · subst hh
      rw [Function.update_self, Option.some.injEq] at hl
      rw [hwtx, Option.some.injEq] at hwtx'
      rw [← hl, ← hwtx', List.length_replicate]
    · rw [Function.update_of_ne hh] at hl
      exact hm.length h' l wtx' hl hwtx'
  · intro o l n hl hn hne
    by_cases hh : o.hash = h
    · rw [hh, Function.update_self, Option.some.injEq] at hl
      rw [← hl, List.getElem?_replicate] at hn
      split at hn
      · rw [Option.some.injEq] at hn
        exact absurd hn.symm hne
      · cases hn
    · rw [Function.update_of_ne hh] at hl
      exact hm.rounds o l n hl hn hne

theorem MemoSound.set {w : CWallet} {m : DenomWtxes} (hm : w.MemoSound m) {o : COutPoint} {n : ℤ}
    (hn : w.Rounds o n) : w.MemoSound (m.set o n) := by
  refine ⟨?_, ?_⟩
  · intro h l wtx hl hwtx
    by_cases hh : h = o.hash
    · subst hh
      rw [DenomWtxes.set, Function.update_self, Option.map_eq_some_iff] at hl
      obtain ⟨l', hl', rfl⟩ := hl
      rw [List.length_set]
      exact hm.length _ l' wtx hl' hwtx
    · rw [DenomWtxes.set, Function.update_of_ne hh] at hl
      exact hm.length h l wtx hl hwtx
  · intro o' l n' hl hn' hne
    by_cases hh : o'.hash = o.hash
    · rw [DenomWtxes.set, hh, Function.update_self, Option.map_eq_some_iff] at hl
      obtain ⟨l', hl', rfl⟩ := hl
      by_cases hidx : o.n.toNat = o'.n.toNat
      · have ho : o' = o := by
          cases o
          cases o'
          simp only [COutPoint.mk.injEq]
          exact ⟨hh, (UInt32.toNat_inj.mp hidx).symm⟩
        subst ho
        rw [List.getElem?_set, if_pos rfl] at hn'
        split at hn'
        · rw [Option.some.injEq] at hn'
          rw [← hn']
          exact hn
        · cases hn'
      · rw [List.getElem?_set_ne hidx] at hn'
        exact hm.rounds o' l' n' (by rw [hh]; exact hl') hn' hne
    · rw [DenomWtxes.set, Function.update_of_ne hh] at hl
      exact hm.rounds o' l n' hl hn' hne

/-! ### Queries -/

/-- No path of this many steps goes down from the output, each step over an own input of a mixed transaction. -/
def Shallow (w : CWallet) : ℕ → COutPoint → Prop
  | 0, _ => False
  | left + 1, o => ∀ wtx, w.mapWallet o.hash = some wtx → Mixed wtx.tx o.n.toNat →
      ∀ txin ∈ w.ownInputs wtx.tx, w.Shallow left txin.prevout

/-- After the map was looked at: the output is there, and has no value yet. -/
theorem real_spec_step {w : CWallet} {pastEnd : ℤ} {left : ℕ}
    (ih : ∀ o m, w.MemoSound m → w.Shallow left o →
      (∃ wtx, w.mapWallet o.hash = some wtx ∧ o.n.toNat < wtx.tx.vout.length) →
      w.Rounds o (w.getRealInputDarksendRounds pastEnd left o m).1 ∧
        w.MemoSound (w.getRealInputDarksendRounds pastEnd left o m).2)
    {o : COutPoint} {m : DenomWtxes} {wtx : CWalletTx} (hm : w.MemoSound m) (hs : w.Shallow (left + 1) o)
    (hwtx : w.mapWallet o.hash = some wtx) (hmix : Mixed wtx.tx o.n.toNat) :
    let r := shortest w.isMineIn (w.getRealInputDarksendRounds pastEnd left) wtx.tx.vin (-10) false m
    w.Rounds o (if r.2.1 then (if 15 ≤ r.1 then 16 else r.1 + 1) else 0) ∧ w.MemoSound r.2.2 := by
  classical
  have hcall : ∀ txin ∈ w.ownInputs wtx.tx, ∀ m', w.MemoSound m' →
      w.Rounds txin.prevout (w.getRealInputDarksendRounds pastEnd left txin.prevout m').1 ∧
        w.MemoSound (w.getRealInputDarksendRounds pastEnd left txin.prevout m').2 := by
    intro txin htxin m' hm'
    exact ih txin.prevout m' hm' (hs wtx hwtx hmix txin htxin) (exists_of_isMineIn (List.mem_filter.mp htxin).2)
  let v : COutPoint → ℤ := fun o => if h : ∃ r, w.Rounds o r then h.choose else 0
  have hv : ∀ txin ∈ w.ownInputs wtx.tx, w.Rounds txin.prevout (v txin.prevout) := by
    intro txin htxin
    have hex : ∃ r, w.Rounds txin.prevout r := ⟨_, (hcall txin htxin m hm).1⟩
    simp only [v, dif_pos hex]
    exact hex.choose_spec
  have hloop := shortest_spec (v := v) wtx.tx.vin hm (.inr ⟨rfl, rfl, fun x hx => absurd hx List.not_mem_nil⟩)
    fun txin htxin m' hm' => by
      obtain ⟨hrounds, hm''⟩ := hcall txin htxin m' hm'
      exact ⟨hrounds.unique (hv txin htxin), hm''⟩
  intro r
  refine ⟨?_, hloop.2⟩
  rw [← hloop.1.oneMore_eq, List.nil_append]
  exact .mixed v hwtx hmix hv

/-- On a sound map, an output that is shallow gets the value of the definition. -/
theorem getRealInputDarksendRounds_spec {w : CWallet} (pastEnd : ℤ) (left : ℕ) (o : COutPoint) (m : DenomWtxes)
    (hm : w.MemoSound m) (hs : w.Shallow left o)
    (hout : ∃ wtx, w.mapWallet o.hash = some wtx ∧ o.n.toNat < wtx.tx.vout.length) :
    w.Rounds o (w.getRealInputDarksendRounds pastEnd left o m).1 ∧
      w.MemoSound (w.getRealInputDarksendRounds pastEnd left o m).2 := by
  induction left generalizing o m with
  | zero => exact absurd hs id
  | succ left ih =>
    obtain ⟨wtx, hwtx, hlt⟩ := hout
    simp only [getRealInputDarksendRounds, hwtx]
    by_cases hknown : (match m o.hash with | none => -10 | some l => l.getD o.n.toNat pastEnd) = (-10 : ℤ)
    · rw [if_neg (not_not.mpr hknown)]
      obtain ⟨m', hm', hm'eq⟩ : ∃ m', w.MemoSound m' ∧ m' = (match m o.hash with
          | none => Function.update m o.hash (some (List.replicate wtx.tx.vout.length (-10)))
          | some _ => m) := by
        cases hmo : m o.hash with
        | none => exact ⟨_, hm.insert hwtx, rfl⟩
        | some l => exact ⟨m, hm, rfl⟩
      rw [← hm'eq]
      obtain ⟨txout, htxout⟩ : ∃ txout, wtx.tx.vout[o.n.toNat]? = some txout := ⟨_, List.getElem?_eq_getElem hlt⟩
      simp only [htxout]
      by_cases hcol : isCollateralAmount txout.nValue = true
      · have hrounds : w.Rounds o (-3) := .collateral hwtx htxout hcol
        rw [if_pos hcol]
        exact ⟨hrounds, hm'.set hrounds⟩
      rw [if_neg hcol]
      by_cases hden : isDenominatedAmount txout.nValue = true
      · rw [if_neg (by simp [hden])]
        by_cases hall : ∀ out ∈ wtx.tx.vout, isDenominatedAmount out.nValue = true
        · rw [if_neg (by simp only [Bool.not_eq_true', Bool.not_eq_false, List.all_eq_true]; exact hall)]
          obtain ⟨hrounds, hm''⟩ := real_spec_step ih hm' hs hwtx ⟨txout, htxout, hcol, hall⟩
          exact ⟨hrounds, hm''.set hrounds⟩
        · have hrounds : w.Rounds o 0 := .other hwtx htxout hcol hden hall
          rw [if_pos (by simp only [Bool.not_eq_true', ← Bool.not_eq_true, List.all_eq_true]; exact hall)]
          exact ⟨hrounds, hm'.set hrounds⟩
      · have hrounds : w.Rounds o (-2) := .nonDenominated hwtx htxout hcol hden
        rw [if_pos (by simp [hden])]
        exact ⟨hrounds, hm'.set hrounds⟩
    · rw [if_pos hknown]
      refine ⟨?_, hm⟩
      cases hmo : m o.hash with
      | none =>
        rw [hmo] at hknown
        exact absurd rfl hknown
      | some l =>
        rw [hmo] at hknown
        have hlen : o.n.toNat < l.length := by
          rw [hm.length _ l wtx hmo hwtx]
          exact hlt
        have hget : l[o.n.toNat]? = some (l.getD o.n.toNat pastEnd) := by
          rw [List.getD_eq_getElem?_getD, List.getElem?_eq_getElem hlen]
          rfl
        exact hm.rounds o l _ hmo hget hknown

theorem getInputDarksendRounds_spec {w : CWallet} (pastEnd nDarksendRounds : ℤ) {o : COutPoint} {m : DenomWtxes}
    (hm : w.MemoSound m) (hs : w.Shallow 16 o) (hout : w.HasOutput o) :
    (∃ v, w.Rounds o v ∧ (w.getInputDarksendRounds pastEnd nDarksendRounds o m).1 = min v nDarksendRounds) ∧
      w.MemoSound (w.getInputDarksendRounds pastEnd nDarksendRounds o m).2 := by
  have hspec : w.Rounds o (w.getRealInputDarksendRounds pastEnd 16 o m).1 ∧
      w.MemoSound (w.getRealInputDarksendRounds pastEnd 16 o m).2 := by
    cases hwtx : w.mapWallet o.hash with
    | none =>
      simp only [getRealInputDarksendRounds, hwtx]
      exact ⟨.unknown hwtx, hm⟩
    | some wtx => exact getRealInputDarksendRounds_spec pastEnd 16 o m hm hs ⟨wtx, hwtx, hout wtx hwtx⟩
  refine ⟨⟨_, hspec.1, ?_⟩, hspec.2⟩
  simp only [getInputDarksendRounds]
  split <;> omega

/-- In every sequence of queries for shallow outputs, every answer is the value of the definition. -/
theorem answers_rounds {w : CWallet} {pastEnd nDarksendRounds : ℤ} {queries : List COutPoint}
    (h : ∀ o ∈ queries, w.Shallow 16 o ∧ w.HasOutput o) :
    List.Forall₂ (fun o answer => ∃ v, w.Rounds o v ∧ answer = min v nDarksendRounds) queries
      (w.answers pastEnd nDarksendRounds queries fun _ => none) := by
  have hrun : ∀ m, w.MemoSound m →
      List.Forall₂ (fun o answer => ∃ v, w.Rounds o v ∧ answer = min v nDarksendRounds) queries
        (w.answers pastEnd nDarksendRounds queries m) := by
    induction queries with
    | nil => exact fun _ _ => .nil
    | cons o queries ih =>
      intro m hm
      obtain ⟨hshallow, hout⟩ := h o List.mem_cons_self
      obtain ⟨hanswer, hm'⟩ := getInputDarksendRounds_spec pastEnd nDarksendRounds hm hshallow hout
      exact .cons hanswer (ih (fun o' ho' => h o' (List.mem_cons_of_mem _ ho')) _ hm')
  apply hrun
  refine ⟨?_, ?_⟩
  · intro h l wtx hl
    cases hl
  · intro o l n hl
    cases hl

end CWallet

/-! ### A chain of 17 -/

namespace RoundsSample

/-- The wallet has 17 transactions, each with a denominated output and an input that spends the one before. -/
def chain : CWallet where
  isMineScript _ := true
  mapWallet h :=
    if 1 ≤ h.toNat ∧ h.toNat ≤ 17 then
      some { tx := { nTime := 0, vin := [⟨⟨h - 1, 0⟩, [], 0⟩], vout := [⟨COIN + 1000, []⟩] } }
    else none

theorem chain_shallow (n : ℕ) {h : Uint256} (hn : h.toNat = n) {left : ℕ} (hlt : n < left) :
    chain.Shallow left ⟨h, 0⟩ := by
  induction n generalizing h left with
  | zero =>
    cases left with
    | zero => omega
    | succ left =>
      intro wtx hwtx
      simp [chain, hn] at hwtx
  | succ n ih =>
    cases left with
    | zero => omega
    | succ left =>
      intro wtx hwtx hmix txin htxin
      have hvin : wtx.tx.vin = [⟨⟨h - 1, 0⟩, [], 0⟩] := by
        simp only [chain, Option.ite_none_right_eq_some, Option.some.injEq] at hwtx
        rw [← hwtx.2]
      have htxin' := (List.mem_filter.mp htxin).1
      rw [hvin, List.mem_singleton] at htxin'
      subst htxin'
      apply ih _ (by omega)
      rw [BitVec.toNat_sub_of_le (by bv_omega)]
      bv_omega

theorem chain_hasOutput (h : Uint256) : chain.HasOutput ⟨h, 0⟩ := by
  intro wtx hwtx
  simp only [chain, Option.ite_none_right_eq_some, Option.some.injEq] at hwtx
  rw [← hwtx.2]
  exact Nat.zero_lt_one

/-- Short chains get the same answers in every order. -/
theorem chain_answers :
    List.Forall₂ (fun o answer => ∃ v, chain.Rounds o v ∧ answer = min v 2) [⟨3, 0⟩, ⟨2, 0⟩, ⟨3, 0⟩, ⟨18, 0⟩]
      (chain.answers 0 2 [⟨3, 0⟩, ⟨2, 0⟩, ⟨3, 0⟩, ⟨18, 0⟩] fun _ => none) := by
  apply CWallet.answers_rounds
  intro o ho
  simp only [List.mem_cons, List.not_mem_nil, or_false] at ho
  rcases ho with rfl | rfl | rfl | rfl
  · exact ⟨chain_shallow 3 rfl (by decide), chain_hasOutput 3⟩
  · exact ⟨chain_shallow 2 rfl (by decide), chain_hasOutput 2⟩
  · exact ⟨chain_shallow 3 rfl (by decide), chain_hasOutput 3⟩
  · refine ⟨?_, chain_hasOutput 18⟩
    intro wtx hwtx
    cases hwtx

/-- The second output of the chain has one round. After a query for the last one its answer is 2. -/
theorem chain_broken : chain.Rounds ⟨2, 0⟩ 1 ∧ chain.answers 0 2 [⟨2, 0⟩] (fun _ => none) = [1] ∧
    chain.answers 0 2 [⟨17, 0⟩, ⟨2, 0⟩] (fun _ => none) = [2, 2] ∧
    ¬ List.Forall₂ (fun o answer => ∃ v, chain.Rounds o v ∧ answer = min v 2) [⟨17, 0⟩, ⟨2, 0⟩]
      (chain.answers 0 2 [⟨17, 0⟩, ⟨2, 0⟩] fun _ => none) := by
  have hone : chain.Rounds ⟨2, 0⟩ 1 := by
    have hlt : (2 : Uint256).toNat = 2 := rfl
    obtain ⟨hrounds, -⟩ := CWallet.getRealInputDarksendRounds_spec (w := chain) 0 16 ⟨2, 0⟩ (fun _ => none)
      ⟨fun h l wtx hl => (by cases hl), fun o l n hl => (by cases hl)⟩ (chain_shallow 2 hlt (by decide))
      ⟨_, rfl, by decide⟩
    have hval : (chain.getRealInputDarksendRounds 0 16 ⟨2, 0⟩ fun _ => none).1 = 1 := by decide
    rw [hval] at hrounds
    exact hrounds
  have htwo : chain.answers 0 2 [⟨17, 0⟩, ⟨2, 0⟩] (fun _ => none) = [2, 2] := by decide +kernel
  refine ⟨hone, by decide, htwo, ?_⟩
  intro h
  rw [htwo] at h
  cases h with
  | cons _ h =>
    cases h with
    | cons h _ =>
      obtain ⟨v, hv, heq⟩ := h
      rw [hv.unique hone] at heq
      exact absurd heq (by decide)

end RoundsSample

end PayDayCoin
