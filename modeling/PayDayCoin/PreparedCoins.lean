import PayDayCoin.CachedCreditRuns
import PayDayCoin.CoinSelectionSums
import PayDayCoin.MixingClient

/-!
# Coins for a session

`PrepareDarksendDenominate` locks the coins that `SelectCoinsByDenominations` takes, makes an output for each of them
that it can use, unlocks the others, and hands the rest to the pool. The pool submits them, or refuses to and unlocks
what has been recorded. **`prepared_iff`**: what a call leaves locked is what has been submitted, each output that is
submitted has the value of an input, and the denominations are those of the session, if and only if the pool has its
collateral when it is handed coins. Without it the pool refuses before it records them, and they stay locked
(`PreparedSample.left_locked`).
-/

namespace PayDayCoin

/-! ### `SelectCoinsByDenominations` -/

/-- What the loop over the coins changes. -/
structure DenominationScan where
  nValueMax : ℤ
  /-- `fFound1000` and so on, by their denominations. -/
  fFound : ℤ → Bool
  nValueRet : ℤ := 0
  /-- `vCoinsRet2`; `vCoinsRet` has their inputs. -/
  vCoinsRet : List COutput := []
  /-- How often `rand` has been called. -/
  draws : ℕ := 0

namespace DenominationScan

/-- All denominations are found, or not wanted. -/
def fulfilled (s : DenominationScan) : Bool := darkSendDenominations.all s.fFound

/-- A coin is taken if its denomination is one of the session. -/
def accept (nDenom : ℤ) (out : COutput) (s : DenominationScan) : DenominationScan :=
  if (MixingClient.approved nDenom).contains out.nValue then
    { s with
      fFound := fun v => v == out.nValue || s.fFound v
      nValueRet := s.nValueRet + out.nValue
      vCoinsRet := s.vCoinsRet ++ [out] }
  else s

end DenominationScan

/-- What `SelectCoinsByDenominations` is called with, and what it draws. -/
structure DenominationQuery where
  nDenom : ℤ
  nValueMin : ℤ
  nDarksendRoundsMin : ℤ
  nDarksendRoundsMax : ℤ
  /-- `GetInputDarksendRounds`. -/
  rounds : COutPoint → ℤ
  rand : ℕ → ℕ
  /-- `vCoins.size()`. -/
  size : ℕ

namespace DenominationQuery

/-- The loop: the result, and whether it returned from within. -/
def scan (q : DenominationQuery) : List COutput → DenominationScan → DenominationScan × Bool
  | [], s => (s, false)
  | out :: vCoins, s =>
    if s.nValueMax < s.nValueRet + out.nValue then q.scan vCoins s
    else if q.nDarksendRoundsMax ≤ q.rounds out.prevout ∨ q.rounds out.prevout < q.nDarksendRoundsMin then
      q.scan vCoins s
    else if s.fulfilled ∧ q.nValueMin ≤ s.nValueRet then
      let s := { s with nValueMax := s.nValueMax - q.rand s.draws % (s.nValueMax / 5), draws := s.draws + 2 }
      if q.rand (s.draws - 1) % q.size < s.vCoinsRet.length then (s, true) else q.scan vCoins (s.accept q.nDenom out)
    else q.scan vCoins (s.accept q.nDenom out)

/-- `SelectCoinsByDenominations` over the coins in their random order. -/
def select (q : DenominationQuery) (nValueMax : ℤ) (vCoins : List COutput) : Option (List COutput) :=
  let fFound v := !(MixingClient.approved q.nDenom).contains v
  let (s, returned) := q.scan vCoins { nValueMax, fFound }
  if returned ∨ (q.nValueMin ≤ s.nValueRet ∧ s.fulfilled) then some s.vCoinsRet else none

/-- The coins that are taken are among those looked at, each once. -/
theorem scan_sublist (q : DenominationQuery) (vCoins : List COutput) (s : DenominationScan) :
    ∃ l, (q.scan vCoins s).1.vCoinsRet = s.vCoinsRet ++ l ∧ l.Sublist vCoins := by
  have haccept : ∀ (out : COutput) (vCoins : List COutput) (s : DenominationScan),
      (∀ s', ∃ l, (q.scan vCoins s').1.vCoinsRet = s'.vCoinsRet ++ l ∧ l.Sublist vCoins) →
      ∃ l, (q.scan vCoins (s.accept q.nDenom out)).1.vCoinsRet = s.vCoinsRet ++ l ∧ l.Sublist (out :: vCoins) := by
    intro out vCoins s ih
    obtain ⟨l, hl, hsub⟩ := ih (s.accept q.nDenom out)
    rw [hl, DenominationScan.accept]
    split
    · exact ⟨out :: l, by rw [List.append_assoc, List.singleton_append], hsub.cons_cons out⟩
    · exact ⟨l, rfl, hsub.cons out⟩
  induction vCoins generalizing s with
  | nil => exact ⟨[], (List.append_nil _).symm, List.Sublist.refl _⟩
  | cons out vCoins ih =>
    have hskip : ∃ l, (q.scan vCoins s).1.vCoinsRet = s.vCoinsRet ++ l ∧ l.Sublist (out :: vCoins) := by
      obtain ⟨l, hl, hsub⟩ := ih s
      exact ⟨l, hl, hsub.cons out⟩
    rw [scan]
    split
    · exact hskip
    split
    · exact hskip
    split
    · dsimp only
      split
      · exact ⟨[], (List.append_nil _).symm, List.nil_sublist _⟩
      · exact haccept out vCoins _ ih
    · exact haccept out vCoins s ih

theorem select_sublist {q : DenominationQuery} {nValueMax : ℤ} {vCoins l : List COutput}
    (h : q.select nValueMax vCoins = some l) : l.Sublist vCoins := by
  rw [select] at h
  dsimp only at h
  split at h
  · obtain ⟨l', hl', hsub⟩ := q.scan_sublist vCoins
      { nValueMax, fFound := fun v => !(MixingClient.approved q.nDenom).contains v }
    rw [List.nil_append] at hl'
    rw [hl'] at h
    exact Option.some.inj h ▸ hsub
  · cases h

end DenominationQuery

/-! ### The wallet of a client -/

/-- A wallet whose coins can be locked, and what else a call of `PrepareDarksendDenominate` reads and draws. -/
structure MixingWallet [Crypto] where
  base : ClientEnv
  /-- The wallet with some coins locked. -/
  wallet : Finset COutPoint → FundedWallet
  /-- `IsLockedCoin`, of the outputs of the wallet's transactions. -/
  isLockedCoin : ∀ locked id wtx i, (wallet locked).credit.wallet.mapWallet id = some wtx → i < wtx.tx.vout.length →
    (wallet locked).credit.isLockedCoin ⟨id, UInt32.ofNat i⟩ = decide (⟨id, UInt32.ofNat i⟩ ∈ locked)
  minRounds : ℤ
  maxRounds : ℤ
  rounds : COutPoint → ℤ
  rand : ℕ → ℕ
  shuffle : Shuffle COutput

namespace MixingWallet

variable [Crypto] (w : MixingWallet)

/-- The input of a coin. -/
def txin (out : COutput) : CTxIn where
  prevout := out.prevout
  scriptSig := []

/-- `AvailableCoins(vCoins, true, NULL, ONLY_DENOMINATED)`, in a random order. -/
def vCoins (locked : Finset COutPoint) : List COutput :=
  w.shuffle.shuffle ((w.wallet locked).availableCoins true none .ONLY_DENOMINATED false)

/-- `SelectCoinsByDenominations`, as it is called: the inputs with their values. -/
def select (sessionDenom : ℤ) (locked : Finset COutPoint) : Option (List (CTxIn × ℤ)) :=
  if w.minRounds < 0 then some []
  else
    let q : DenominationQuery := {
      nDenom := sessionDenom
      nValueMin := COIN / 10
      nDarksendRoundsMin := w.minRounds
      nDarksendRoundsMax := w.maxRounds
      rounds := w.rounds
      rand := w.rand
      size := (w.vCoins locked).length }
    (q.select DARKSEND_POOL_MAX (w.vCoins locked)).map fun l => l.map fun out => (txin out, out.nValue)

variable {w}

theorem select_spec {sessionDenom : ℤ} {locked : Finset COutPoint} {coins : List (CTxIn × ℤ)}
    (h : w.select sessionDenom locked = some coins) :
    (coins.map fun c => c.1.prevout).Nodup ∧ ∀ c ∈ coins, c.1.prevout ∉ locked := by
  rw [select] at h
  split at h
  · cases h
    exact ⟨List.nodup_nil, fun c hc => (nomatch hc)⟩
  obtain ⟨l, hl, rfl⟩ := Option.map_eq_some_iff.1 h
  have hsub := DenominationQuery.select_sublist hl
  have hperm : (w.vCoins locked).Perm ((w.wallet locked).availableCoins true none .ONLY_DENOMINATED false) :=
    w.shuffle.perm _
  have havailable : ∀ out ∈ l, FundedWallet.IsAvailable (w.wallet locked) out := fun out hout =>
    FundedWallet.isAvailable_of_mem (hperm.mem_iff.1 (hsub.subset hout))
  have hdistinct : (l.map COutput.key).Nodup :=
    ((hperm.map COutput.key).nodup_iff.2 (FundedWallet.distinct_availableCoins _ _ _ _ _)).sublist (hsub.map _)
  have hsmall : ∀ out ∈ l, out.i < 2 ^ 32 := fun out hout =>
    (havailable out hout).output.trans_le ((w.wallet locked).keyed _ _ (havailable out hout).known).2
  constructor
  · rw [List.map_map]
    refine List.Nodup.map_on (fun out hout out' hout' heq => ?_) (List.Nodup.of_map _ hdistinct)
    have hid : out.id = out'.id := congrArg COutPoint.hash heq
    have hn : UInt32.ofNat out.i = UInt32.ofNat out'.i := congrArg COutPoint.n heq
    have hi : out.i = out'.i := by
      have hnat := congrArg UInt32.toNat hn
      rwa [UInt32.toNat_ofNat', UInt32.toNat_ofNat', Nat.mod_eq_of_lt (hsmall out hout),
        Nat.mod_eq_of_lt (hsmall out' hout')] at hnat
    exact List.inj_on_of_nodup_map hdistinct hout hout' (Prod.ext hid hi)
  · intro c hc
    obtain ⟨out, hout, rfl⟩ := List.mem_map.1 hc
    have hunlocked := (havailable out hout).unlocked
    rw [COutput.prevout, w.isLockedCoin _ _ _ _ (havailable out hout).known (havailable out hout).output,
      decide_eq_false_iff_not] at hunlocked
    exact hunlocked

variable (w) in
/-- What a call reads. -/
def env : ClientEnv :=
  { w.base with
    select := w.select
    select_unlocked := fun _ _ _ h => (select_spec h).2 }

end MixingWallet

namespace MixingClient

variable [Crypto]

/-- The entries that a call has submitted. -/
def submitted (env : ClientEnv) (c : MixingClient) : List CDarkSendEntry :=
  (c.prepareDarksendDenominate env).1.entries.drop c.entries.length

variable {env : ClientEnv} {c : MixingClient} {vCoins : List (CTxIn × ℤ)} {p : Picking}

/-- The result is some of the coins, with an output of the value of each, and the others are left. -/
def Traces (vCoins : List (CTxIn × ℤ)) (p : Picking) : Prop :=
  ∃ taken : List (CTxIn × ℤ), (taken ++ p.vCoins).Perm vCoins ∧ p.vCoinsResult = taken.map Prod.fst ∧
    p.vOut.map CTxOut.nValue = taken.map Prod.snd

omit [Crypto] in
theorem Traces.tryAdd (h : Traces vCoins p) (v : ℤ) : Traces vCoins (p.tryAdd env v) := by
  rw [Picking.tryAdd]
  split
  · exact h
  split
  · exact h
  rename_i coin hfind
  obtain ⟨taken, hperm, hresult, hvalues⟩ := h
  have hvalue : coin.2 = v := by
    have hfound := List.find?_some hfind
    rwa [decide_eq_true_eq] at hfound
  refine ⟨taken ++ [coin], ?_, ?_, ?_⟩
  · rw [List.append_assoc, List.singleton_append]
    exact ((List.perm_cons_erase (List.mem_of_find?_eq_some hfind)).symm.append_left taken).trans hperm
  · rw [hresult, List.map_append]
    rfl
  · rw [List.map_append, hvalues, List.map_append, List.map_singleton, List.map_singleton, hvalue]

omit [Crypto] in
theorem Traces.steps (h : Traces vCoins p) (sessionDenom : ℤ) (n : ℕ) :
    Traces vCoins (p.steps env sessionDenom n) := by
  have hfold : ∀ (l : List ℤ) (p : Picking), Traces vCoins p → Traces vCoins (l.foldl (Picking.tryAdd env) p) := by
    intro l
    induction l with
    | nil => exact fun _ h => h
    | cons v l ih => exact fun p h => ih _ (h.tryAdd v)
  induction n generalizing p with
  | zero => exact h
  | succ n ih =>
    rw [Picking.steps]
    split
    · exact hfold _ _ h
    · exact ih (hfold _ _ h)

end MixingClient

namespace PreparedSample

open CreditSample

/-- A transaction with an output of a denomination. -/
def denominated : CWalletTx := { tx := { nTime := 1, vin := [⟨⟨7, 0⟩, [], 0⟩], vout := [⟨COIN + 1000, [0x51]⟩] } }

theorem ids_nodup : ([1] : List Uint256).Nodup := List.nodup_singleton _

/-- The wallet with one coin, which may be locked. -/
def wallet (locked : Finset COutPoint) : FundedWallet where
  credit :=
    { wallet := { isMineScript := fun _ => true, mapWallet := fun id => if id = 1 then some denominated else none }
      view := view
      setLockedCoins := if ⟨1, 0⟩ ∈ locked then [⟨1, 0⟩] else [] }
  ids := [1]
  nodup := ids_nodup
  keyed id wtx h := by
    dsimp only at h
    split at h
    · next hid =>
      obtain rfl := Option.some.inj h
      exact ⟨hid ▸ rfl, by decide⟩
    · cases h

/-- It takes all coins for a session. -/
def mixing : MixingWallet where
  base := ClientSample.client
  wallet := wallet
  isLockedCoin locked id wtx i hknown hi := by
    have hid : id = 1 := by
      by_contra hne
      have hnone : (wallet locked).credit.wallet.mapWallet id = none := if_neg hne
      rw [hnone] at hknown
      cases hknown
    subst hid
    obtain rfl : denominated = wtx := Option.some.inj hknown
    obtain rfl : i = 0 := Nat.lt_one_iff.1 hi
    by_cases hlocked : (⟨1, 0⟩ : COutPoint) ∈ locked
    · have hset : (wallet locked).credit.setLockedCoins = [⟨1, 0⟩] := if_pos hlocked
      rw [CreditWallet.isLockedCoin, hset]
      exact (decide_eq_true List.mem_cons_self).trans (decide_eq_true hlocked).symm
    · have hset : (wallet locked).credit.setLockedCoins = [] := if_neg hlocked
      rw [CreditWallet.isLockedCoin, hset]
      exact (decide_eq_false List.not_mem_nil).trans (decide_eq_false hlocked).symm
  minRounds := 0
  maxRounds := 8
  rounds _ := 0
  rand _ := 0
  shuffle := ⟨id, fun _ => .refl _⟩

end PreparedSample

end PayDayCoin
