import PayDayCoin.ChainSync
import PayDayCoin.Library.Best

/-!
# Which masternode is paid

Votes name the masternode to be paid at a height. `AddWinningMasternode` keeps one vote for
each height, the one whose masternode has the greatest score against the hash of an earlier
block, and of several with that score the one that came first. The score is one of the
masternode's `vin`; the script that is paid comes with the vote. **`winner_agree_iff`** says
that the payee of a height does not depend on the order of the votes exactly if the votes
of the greatest score name the same payee.
-/

namespace PayDayCoin

open Library.Best

/-! ### The list of winners -/

/-- A vote for the masternode to be paid. -/
structure CMasternodePaymentWinner where
  nBlockHeight : ℤ
  vin : CTxIn
  payee : CScript
  vchSig : List UInt8
  score : UInt64
deriving DecidableEq

/-- `Hash` of 256 bits, and of a height. -/
structure PaymentHash where
  hash : Uint256 → Uint256
  hashHeight : ℤ → Uint256

/-- The difference of two hashes. -/
def distance (a b : Uint256) : Uint256 := if b < a then a - b else b - a

/-- `CMasternodePaymentWinner::GetHash`. -/
def CMasternodePaymentWinner.getHash (H : PaymentHash) (winner : CMasternodePaymentWinner) : Uint256 :=
  distance winner.vin.prevout.hash (H.hashHeight winner.nBlockHeight)

/-- The state of `masternode-payments.cpp` that votes change, and the cache of
`GetBlockHash`. -/
structure CMasternodePayments where
  vWinning : List CMasternodePaymentWinner := []
  mapSeenMasternodeVotes : Uint256 → Option CMasternodePaymentWinner := fun _ => none
  mapCacheBlockHashes : ℤ → Option Uint256 := fun _ => none

/-- The loop of `GetBlockHash`: `nBlocksAgo` steps back, but not to the genesis block. -/
def blockHashAgo : ℕ → PIndex → Option Uint256
  | _, [] => none
  | _, [_] => none
  | 0, BlockReading :: _ => some BlockReading.hash
  | nBlocksAgo + 1, _ :: pprev => blockHashAgo nBlocksAgo pprev

/-- `GetBlockHash` of a height that is not cached. -/
def freshBlockHash (pindexBest : PIndex) (nBlockHeight : ℤ) : Option Uint256 :=
  if pindexBest.nHeight = 0 ∨ (pindexBest.nHeight : ℤ) + 1 < nBlockHeight then none
  else
    let nBlocksAgo := if 0 < nBlockHeight then (pindexBest.nHeight : ℤ) + 1 - nBlockHeight else 0
    blockHashAgo nBlocksAgo.toNat pindexBest

/-- `GetBlockHash`, with the cache. -/
def getBlockHash (mapCacheBlockHashes : ℤ → Option Uint256) (pindexBest : PIndex) (nBlockHeight : ℤ) :
    Option Uint256 × (ℤ → Option Uint256) :=
  if pindexBest = [] then (none, mapCacheBlockHashes)
  else
    let nBlockHeight := if nBlockHeight = 0 then (pindexBest.nHeight : ℤ) else nBlockHeight
    match mapCacheBlockHashes nBlockHeight with
    | some hash => (some hash, mapCacheBlockHashes)
    | none =>
      match freshBlockHash pindexBest nBlockHeight with
      | none => (none, mapCacheBlockHashes)
      | some hash => (some hash, Function.update mapCacheBlockHashes nBlockHeight (some hash))

section Winners

variable (H : PaymentHash) (pindexBest : PIndex)

/-- `CMasternodePayments::CalculateScore`: the low bits of the distance of the hashes. -/
def calculateScore (blockHash : Uint256) (vin : CTxIn) : UInt64 :=
  UInt64.ofNat (distance (H.hash vin.prevout.hash) (H.hash blockHash)).toNat

/-- `CMasternodePayments::GetBlockPayee`. -/
def CMasternodePayments.getBlockPayee (payments : CMasternodePayments) (nBlockHeight : ℤ) : Option (CScript × CTxIn) :=
  (payments.vWinning.find? fun winner => winner.nBlockHeight = nBlockHeight).map fun winner =>
    (winner.payee, winner.vin)

/-- The loop of `AddWinningMasternode`: a winner of the same height with a lower score is
replaced. -/
def replaceWinner (winnerIn : CMasternodePaymentWinner) : List CMasternodePaymentWinner →
    Option (List CMasternodePaymentWinner)
  | [] => none
  | winner :: vWinning =>
    if winner.nBlockHeight = winnerIn.nBlockHeight ∧ winner.score < winnerIn.score then
      some ({ winner with
        score := winnerIn.score, vin := winnerIn.vin, payee := winnerIn.payee, vchSig := winnerIn.vchSig } :: vWinning)
    else (replaceWinner winnerIn vWinning).map (winner :: ·)

/-- A vote that has its score is entered, in `AddWinningMasternode`. -/
def enterWinner (winnerIn : CMasternodePaymentWinner) (payments : CMasternodePayments) : CMasternodePayments × Bool :=
  let seen (vWinning : List CMasternodePaymentWinner) : CMasternodePayments := { payments with
    vWinning := vWinning
    -- `insert` leaves a vote that is there already
    mapSeenMasternodeVotes := Function.update payments.mapSeenMasternodeVotes (winnerIn.getHash H)
      (some ((payments.mapSeenMasternodeVotes (winnerIn.getHash H)).getD winnerIn)) }
  match replaceWinner winnerIn payments.vWinning with
  | some vWinning => (seen vWinning, true)
  | none =>
    if payments.vWinning.any fun winner => winner.nBlockHeight = winnerIn.nBlockHeight then (payments, false)
    else (seen (payments.vWinning ++ [winnerIn]), true)

/-- `CMasternodePayments::AddWinningMasternode`. -/
def addWinningMasternode (winnerIn : CMasternodePaymentWinner) (payments : CMasternodePayments) :
    CMasternodePayments × Bool :=
  let (blockHash, cache) := getBlockHash payments.mapCacheBlockHashes pindexBest (winnerIn.nBlockHeight - 576)
  let payments := { payments with mapCacheBlockHashes := cache }
  match blockHash with
  | none => (payments, false)
  | some blockHash => enterWinner H { winnerIn with score := calculateScore H blockHash winnerIn.vin } payments

/-- The state after votes, one after the other. -/
def addWinningMasternodes (votes : List CMasternodePaymentWinner) (payments : CMasternodePayments) :
    CMasternodePayments :=
  votes.foldl (fun payments winnerIn => (addWinningMasternode H pindexBest winnerIn payments).1) payments

end Winners

/-! ### Block hashes -/

section BlockHash

variable {cache : ℤ → Option Uint256} {pindexBest : PIndex}

/-- The cache does not change what `GetBlockHash` returns. -/
theorem getBlockHash_cache (n k : ℤ) :
    (getBlockHash (getBlockHash cache pindexBest n).2 pindexBest k).1 = (getBlockHash cache pindexBest k).1 := by
  by_cases hnull : pindexBest = []
  · simp only [getBlockHash, if_pos hnull]
  simp only [getBlockHash, if_neg hnull]
  generalize (if n = 0 then (pindexBest.nHeight : ℤ) else n) = n
  generalize (if k = 0 then (pindexBest.nHeight : ℤ) else k) = k
  cases hcache : cache n with
  | some hash => rfl
  | none =>
    cases hfresh : freshBlockHash pindexBest n with
    | none => rfl
    | some hash =>
      simp only
      by_cases hk : k = n
      · subst hk
        rw [Function.update_self, hcache]
        simp only [hfresh]
      · rw [Function.update_of_ne hk]
        cases cache k with
        | some hash' => rfl
        | none => cases freshBlockHash pindexBest k <;> rfl

end BlockHash

/-! ### The winner of a height -/

section Winner

variable {H : PaymentHash} {pindexBest : PIndex} {payments : CMasternodePayments} {winnerIn : CMasternodePaymentWinner}
  {vWinning : List CMasternodePaymentWinner} {h : ℤ}

/-- The hash that a vote for a height is scored against. -/
def scoredAgainst (pindexBest : PIndex) (payments : CMasternodePayments) (nBlockHeight : ℤ) : Option Uint256 :=
  (getBlockHash payments.mapCacheBlockHashes pindexBest (nBlockHeight - 576)).1

/-- The winner of a height. -/
def winnerAt (vWinning : List CMasternodePaymentWinner) (h : ℤ) : Option CMasternodePaymentWinner :=
  vWinning.find? fun winner => winner.nBlockHeight = h

/-- No two winners are of one height. -/
def OneWinner (vWinning : List CMasternodePaymentWinner) : Prop :=
  (vWinning.map CMasternodePaymentWinner.nBlockHeight).Nodup

theorem winnerAt_cons (winner : CMasternodePaymentWinner) :
    winnerAt (winner :: vWinning) h = if winner.nBlockHeight = h then some winner else winnerAt vWinning h := by
  by_cases hh : winner.nBlockHeight = h <;> simp [winnerAt, hh]

theorem winnerAt_eq_none : winnerAt vWinning h = none ↔ h ∉ vWinning.map CMasternodePaymentWinner.nBlockHeight := by
  simp [winnerAt]

/-- The loop of `AddWinningMasternode` leaves a list without a lower winner of the height. -/
theorem replaceWinner_eq_none
    (h : ∀ winner ∈ vWinning, winner.nBlockHeight = winnerIn.nBlockHeight → ¬winner.score < winnerIn.score) :
    replaceWinner winnerIn vWinning = none := by
  induction vWinning with
  | nil => rfl
  | cons winner vWinning ih =>
    rw [List.forall_mem_cons] at h
    rw [replaceWinner, if_neg fun hlow => h.1 hlow.1 hlow.2, ih h.2]
    rfl

/-- It replaces a winner of the height that is lower. -/
theorem replaceWinner_eq_some {winner : CMasternodePaymentWinner} (hone : OneWinner vWinning)
    (hw : winnerAt vWinning winnerIn.nBlockHeight = some winner) (hscore : winner.score < winnerIn.score) :
    ∃ vWinning', replaceWinner winnerIn vWinning = some vWinning' ∧ OneWinner vWinning' ∧
      ∀ k, winnerAt vWinning' k = if k = winnerIn.nBlockHeight then some winnerIn else winnerAt vWinning k := by
  have hsame : ∃ vWinning', replaceWinner winnerIn vWinning = some vWinning' ∧
      vWinning'.map CMasternodePaymentWinner.nBlockHeight = vWinning.map CMasternodePaymentWinner.nBlockHeight ∧
      ∀ k, winnerAt vWinning' k = if k = winnerIn.nBlockHeight then some winnerIn else winnerAt vWinning k := by
    clear hone
    induction vWinning with
    | nil => cases hw
    | cons winner' vWinning ih =>
      rw [winnerAt_cons] at hw
      by_cases hh : winner'.nBlockHeight = winnerIn.nBlockHeight
      · rw [if_pos hh] at hw
        obtain rfl := Option.some.inj hw
        refine ⟨winnerIn :: vWinning, by rw [replaceWinner, if_pos ⟨hh, hscore⟩, hh], by
          rw [List.map_cons, List.map_cons, hh], fun k => ?_⟩
        rw [winnerAt_cons, winnerAt_cons, hh]
        by_cases hk : k = winnerIn.nBlockHeight
        · rw [if_pos hk.symm, if_pos hk]
        · rw [if_neg (Ne.symm hk), if_neg hk, if_neg (Ne.symm hk)]
      · rw [if_neg hh] at hw
        obtain ⟨vWinning', hrep, hmap, hall⟩ := ih hw
        refine ⟨winner' :: vWinning', by rw [replaceWinner, if_neg fun h => hh h.1, hrep]; rfl, by
          rw [List.map_cons, List.map_cons, hmap], fun k => ?_⟩
        rw [winnerAt_cons, winnerAt_cons, hall]
        by_cases hk : k = winnerIn.nBlockHeight
        · rw [if_pos hk, if_neg fun h => hh (h.trans hk), if_pos hk]
        · rw [if_neg hk, if_neg hk]
  obtain ⟨vWinning', hrep, hmap, hall⟩ := hsame
  exact ⟨vWinning', hrep, by rwa [OneWinner, hmap], hall⟩

theorem mem_of_winnerAt {winner : CMasternodePaymentWinner} (hw : winnerAt vWinning h = some winner) :
    winner ∈ vWinning ∧ winner.nBlockHeight = h :=
  ⟨List.mem_of_find?_eq_some hw, by simpa using List.find?_some hw⟩

/-- In a list with one winner a height, the winner of a height is the only one. -/
theorem eq_of_winnerAt {winner winner' : CMasternodePaymentWinner} (hone : OneWinner vWinning)
    (hw : winnerAt vWinning h = some winner) (hmem : winner' ∈ vWinning) (hh : winner'.nBlockHeight = h) :
    winner' = winner := by
  obtain ⟨hmem', hh'⟩ := mem_of_winnerAt hw
  exact List.inj_on_of_nodup_map hone hmem hmem' (hh.trans hh'.symm)

/-- A vote as it is entered, with its score; none when there is no hash to score it against. -/
def scored (H : PaymentHash) (blockHash : ℤ → Option Uint256) (winnerIn : CMasternodePaymentWinner) :
    Option CMasternodePaymentWinner :=
  (blockHash winnerIn.nBlockHeight).map fun hash => { winnerIn with score := calculateScore H hash winnerIn.vin }

/-- The rank of a vote: its score. -/
def scoreOf (H : PaymentHash) (blockHash : ℤ → Option Uint256) (winnerIn : CMasternodePaymentWinner) : ℕ :=
  ((blockHash winnerIn.nBlockHeight).map fun hash => (calculateScore H hash winnerIn.vin).toNat).getD 0

/-- The winners are those that a register for each height keeps of the votes so far. -/
structure Elected (H : PaymentHash) (blockHash : ℤ → Option Uint256) (m : ℤ → Option CMasternodePaymentWinner)
    (vWinning : List CMasternodePaymentWinner) : Prop where
  one : OneWinner vWinning
  height : ∀ h winner, m h = some winner → winner.nBlockHeight = h
  winner : ∀ h, winnerAt vWinning h = (m h).bind (scored H blockHash)

theorem winnerAt_append (winner : CMasternodePaymentWinner) (hnone : winnerAt vWinning winner.nBlockHeight = none) :
    winnerAt (vWinning ++ [winner]) h = if h = winner.nBlockHeight then some winner else winnerAt vWinning h := by
  have happend : winnerAt (vWinning ++ [winner]) h = (winnerAt vWinning h).or (winnerAt [winner] h) := by
    rw [winnerAt, List.find?_append]
    rfl
  rw [happend, winnerAt_cons]
  by_cases hh : h = winner.nBlockHeight
  · subst hh
    rw [hnone, if_pos rfl, if_pos rfl, Option.none_or]
  · rw [if_neg (Ne.symm hh), if_neg hh]
    exact Option.or_none

theorem oneWinner_append {winner : CMasternodePaymentWinner} (hone : OneWinner vWinning)
    (hnone : winnerAt vWinning winner.nBlockHeight = none) : OneWinner (vWinning ++ [winner]) := by
  rw [OneWinner, List.map_append, List.nodup_append]
  refine ⟨hone, List.nodup_singleton _, ?_⟩
  rintro h hmem h' hmem' rfl
  rw [List.map_singleton, List.mem_singleton] at hmem'
  exact winnerAt_eq_none.1 hnone (hmem' ▸ hmem)

/-- A vote that has its score replaces a lower winner of its height, or becomes the winner
when there is none. -/
theorem enterWinner_vWinning (H : PaymentHash) (winnerIn : CMasternodePaymentWinner) (payments : CMasternodePayments)
    (hone : OneWinner payments.vWinning) :
    OneWinner (enterWinner H winnerIn payments).1.vWinning ∧
      ∀ k, winnerAt (enterWinner H winnerIn payments).1.vWinning k =
        if k = winnerIn.nBlockHeight ∧
            ∀ winner, winnerAt payments.vWinning k = some winner → winner.score < winnerIn.score then some winnerIn
        else winnerAt payments.vWinning k := by
  simp only [enterWinner]
  cases hw : winnerAt payments.vWinning winnerIn.nBlockHeight with
  | none =>
    have hnot : ∀ winner ∈ payments.vWinning, winner.nBlockHeight ≠ winnerIn.nBlockHeight := fun winner hmem hh =>
      winnerAt_eq_none.1 hw (hh ▸ List.mem_map_of_mem hmem)
    have hany : (payments.vWinning.any fun winner => winner.nBlockHeight = winnerIn.nBlockHeight) = false :=
      List.any_eq_false.2 fun winner hmem => by simpa using hnot winner hmem
    rw [replaceWinner_eq_none fun winner hmem hh => absurd hh (hnot winner hmem)]
    simp only [hany, if_neg Bool.false_ne_true]
    refine ⟨oneWinner_append hone hw, fun k => ?_⟩
    rw [winnerAt_append winnerIn hw]
    by_cases hk : k = winnerIn.nBlockHeight
    · subst hk
      rw [if_pos rfl, if_pos ⟨rfl, fun winner hw' => by rw [hw] at hw'; cases hw'⟩]
    · rw [if_neg hk, if_neg fun h => hk h.1]
  | some winner =>
    by_cases hscore : winner.score < winnerIn.score
    · obtain ⟨vWinning', hrep, hone', hall⟩ := replaceWinner_eq_some hone hw hscore
      simp only [hrep]
      refine ⟨hone', fun k => ?_⟩
      rw [hall]
      by_cases hk : k = winnerIn.nBlockHeight
      · subst hk
        refine (if_pos rfl).trans (if_pos ⟨rfl, fun winner' hw' => ?_⟩).symm
        obtain rfl := Option.some.inj (hw.symm.trans hw')
        exact hscore
      · rw [if_neg hk, if_neg fun h => hk h.1]
    · have hany : (payments.vWinning.any fun winner => winner.nBlockHeight = winnerIn.nBlockHeight) = true :=
        List.any_eq_true.2 ⟨winner, (mem_of_winnerAt hw).1, decide_eq_true (mem_of_winnerAt hw).2⟩
      rw [replaceWinner_eq_none fun winner' hmem hh => by rwa [eq_of_winnerAt hone hw hmem hh]]
      simp only [hany, if_true]
      refine ⟨hone, fun k => (if_neg fun h => ?_).symm⟩
      obtain ⟨rfl, hlow⟩ := h
      exact hscore (hlow winner hw)

/-- **Adding a vote offers it to the register of its height.** -/
theorem Elected.add {blockHash : ℤ → Option Uint256} {m : ℤ → Option CMasternodePaymentWinner}
    (h : Elected H blockHash m payments.vWinning) (hhash : scoredAgainst pindexBest payments = blockHash)
    (winnerIn : CMasternodePaymentWinner) :
    Elected H blockHash (record (scoreOf H blockHash) CMasternodePaymentWinner.nBlockHeight m winnerIn)
      (addWinningMasternode H pindexBest winnerIn payments).1.vWinning := by
  have hheight : ∀ k winner, record (scoreOf H blockHash) CMasternodePaymentWinner.nBlockHeight m winnerIn k =
      some winner → winner.nBlockHeight = k := fun k winner => record_key h.height
  have hread : (getBlockHash payments.mapCacheBlockHashes pindexBest (winnerIn.nBlockHeight - 576)).1 =
      blockHash winnerIn.nBlockHeight := congrFun hhash winnerIn.nBlockHeight
  simp only [addWinningMasternode, hread]
  cases hb : blockHash winnerIn.nBlockHeight with
  | none =>
    -- a height without a hash has no winner, whatever its register keeps
    refine ⟨h.one, hheight, fun k => ?_⟩
    rw [h.winner]
    by_cases hk : k = winnerIn.nBlockHeight
    · have hnone : ∀ best : Option CMasternodePaymentWinner, (∀ winner, best = some winner → winner.nBlockHeight = k) →
          best.bind (scored H blockHash) = none := by
        intro best hbest
        cases best with
        | none => rfl
        | some winner => rw [Option.bind_some, scored, hbest winner rfl, hk, hb]; rfl
      rw [hnone _ (h.height k), hnone _ (hheight k)]
    · rw [record, Function.update_of_ne hk]
  | some hash =>
    simp only
    obtain ⟨hone, hwinner⟩ := enterWinner_vWinning H
      { winnerIn with score := calculateScore H hash winnerIn.vin }
      { payments with
        mapCacheBlockHashes := (getBlockHash payments.mapCacheBlockHashes pindexBest (winnerIn.nBlockHeight - 576)).2 }
      h.one
    refine ⟨hone, hheight, fun k => ?_⟩
    rw [hwinner]
    simp only [h.winner]
    by_cases hk : k = winnerIn.nBlockHeight
    · subst hk
      rw [record, Function.update_self]
      cases hm : m winnerIn.nBlockHeight with
      | none => simp [better, scored, hb]
      | some winner =>
        have hscored : scored H blockHash winner = some { winner with score := calculateScore H hash winner.vin } := by
          rw [scored, h.height _ _ hm, hb]
          rfl
        have hlt : scoreOf H blockHash winner < scoreOf H blockHash winnerIn ↔
            calculateScore H hash winner.vin < calculateScore H hash winnerIn.vin := by
          rw [scoreOf, scoreOf, h.height _ _ hm, hb, UInt64.lt_iff_toNat_lt]
          rfl
        simp only [Option.bind_some, hscored, Option.some.injEq, forall_eq', true_and, better, hlt]
        split
        · simp [scored, hb]
        · rw [Option.bind_some, hscored]
    · rw [if_neg fun h => hk h.1, record, Function.update_of_ne hk]

theorem scoredAgainst_addWinningMasternode :
    scoredAgainst pindexBest (addWinningMasternode H pindexBest winnerIn payments).1 =
      scoredAgainst pindexBest payments := by
  have hcache : (addWinningMasternode H pindexBest winnerIn payments).1.mapCacheBlockHashes =
      (getBlockHash payments.mapCacheBlockHashes pindexBest (winnerIn.nBlockHeight - 576)).2 := by
    simp only [addWinningMasternode]
    split
    · rfl
    · simp only [enterWinner]
      split
      · rfl
      · split <;> rfl
  funext n
  rw [scoredAgainst, scoredAgainst, hcache, getBlockHash_cache]

/-- **What a list of votes elects**, from an empty list of winners. -/
theorem elected_addWinningMasternodes (hempty : payments.vWinning = []) (votes : List CMasternodePaymentWinner) :
    Elected H (scoredAgainst pindexBest payments)
      (votes.foldl (record (scoreOf H (scoredAgainst pindexBest payments)) CMasternodePaymentWinner.nBlockHeight)
        fun _ => none)
      (addWinningMasternodes H pindexBest votes payments).vWinning := by
  have hstart : Elected H (scoredAgainst pindexBest payments) (fun _ => none) payments.vWinning := by
    rw [hempty]
    exact ⟨List.nodup_nil, fun _ _ h => (by cases h), fun _ => rfl⟩
  have hgen : ∀ (blockHash : ℤ → Option Uint256) (m : ℤ → Option CMasternodePaymentWinner) (payments : CMasternodePayments),
      scoredAgainst pindexBest payments = blockHash → Elected H blockHash m payments.vWinning →
      Elected H blockHash (votes.foldl (record (scoreOf H blockHash) CMasternodePaymentWinner.nBlockHeight) m)
        (addWinningMasternodes H pindexBest votes payments).vWinning := by
    intro blockHash
    induction votes with
    | nil => exact fun _ _ _ h => h
    | cons winnerIn votes ih =>
      intro m payments hhash h
      exact ih _ _ (scoredAgainst_addWinningMasternode.trans hhash) (h.add hhash winnerIn)
  exact hgen _ _ _ rfl hstart

end Winner

/-! ### The order of the votes -/

section Order

variable {H : PaymentHash} {votes : List CMasternodePaymentWinner} {h : ℤ}

/-- A vote has the greatest score of the votes for its height. -/
def CMasternodePaymentWinner.IsTop (H : PaymentHash) (blockHash : Uint256) (votes : List CMasternodePaymentWinner)
    (winner : CMasternodePaymentWinner) : Prop :=
  winner ∈ votes ∧ ∀ winner' ∈ votes, winner'.nBlockHeight = winner.nBlockHeight →
    calculateScore H blockHash winner'.vin ≤ calculateScore H blockHash winner.vin

/-- **The payee of a height does not depend on the order of the votes**, nor on how often
each comes, exactly if the votes for it of the greatest score name the same payee. (There
is no payee when there is no block to score against.) -/
theorem winner_agree_iff (H : PaymentHash) (pindexBest : PIndex) (mapCacheBlockHashes : ℤ → Option Uint256)
    (votes : List CMasternodePaymentWinner) (h : ℤ) :
    let payments : CMasternodePayments := { mapCacheBlockHashes := mapCacheBlockHashes }
    let payee (l : List CMasternodePaymentWinner) : Option CScript :=
      ((addWinningMasternodes H pindexBest l payments).getBlockPayee h).map Prod.fst
    (∀ l l', (∀ winner, winner ∈ l ↔ winner ∈ votes) → (∀ winner, winner ∈ l' ↔ winner ∈ votes) → payee l = payee l') ↔
      ∀ blockHash, (getBlockHash mapCacheBlockHashes pindexBest (h - 576)).1 = some blockHash →
        ∀ winner winner' : CMasternodePaymentWinner, winner.nBlockHeight = h → winner'.nBlockHeight = h →
          winner.IsTop H blockHash votes → winner'.IsTop H blockHash votes → winner.payee = winner'.payee := by
  intro payments payee
  let blockHash := scoredAgainst pindexBest payments
  let register (l : List CMasternodePaymentWinner) : Option CMasternodePaymentWinner :=
    l.foldl (record (scoreOf H blockHash) CMasternodePaymentWinner.nBlockHeight) (fun _ => none) h
  have hheight : ∀ l winner, register l = some winner → winner.nBlockHeight = h := fun l =>
    (elected_addWinningMasternodes (H := H) rfl l).height h
  have hpayee : ∀ l, payee l = ((register l).bind (scored H blockHash)).map CMasternodePaymentWinner.payee := by
    intro l
    rw [← (elected_addWinningMasternodes rfl l).winner]
    simp only [payee, CMasternodePayments.getBlockPayee, winnerAt, Option.map_map]
    rfl
  cases hb : (getBlockHash mapCacheBlockHashes pindexBest (h - 576)).1 with
  | none =>
    have hnone : ∀ l, payee l = none := by
      intro l
      rw [hpayee]
      cases hreg : register l with
      | none => rfl
      | some winner =>
        rw [Option.bind_some, scored, hheight l winner hreg, show blockHash h = none from hb]
        rfl
    refine iff_of_true (fun l l' _ _ => by rw [hnone, hnone]) fun _ hsome => ?_
    cases hsome
  | some hash =>
    have hsome : ∀ l, payee l = (register l).map CMasternodePaymentWinner.payee := by
      intro l
      rw [hpayee]
      cases hreg : register l with
      | none => rfl
      | some winner =>
        rw [Option.bind_some, scored, hheight l winner hreg, show blockHash h = some hash from hb]
        rfl
    have hrank : ∀ {winner : CMasternodePaymentWinner}, winner.nBlockHeight = h →
        scoreOf H blockHash winner = (calculateScore H hash winner.vin).toNat := by
      intro winner hh
      rw [scoreOf, hh, show blockHash h = some hash from hb]
      rfl
    have hbest : ∀ winner : CMasternodePaymentWinner,
        IsBest (scoreOf H blockHash) (votes.filter fun winner => winner.nBlockHeight = h) winner ↔
          winner.nBlockHeight = h ∧ winner.IsTop H hash votes := by
      intro winner
      simp only [IsBest, CMasternodePaymentWinner.IsTop, List.mem_filter, decide_eq_true_eq, and_imp]
      constructor
      · rintro ⟨⟨hmem, rfl⟩, hall⟩
        refine ⟨rfl, hmem, fun winner' hmem' hh' => ?_⟩
        have hle := hall winner' hmem' hh'
        rwa [hrank hh', hrank rfl, ← UInt64.le_iff_toNat_le] at hle
      · rintro ⟨rfl, hmem, hall⟩
        refine ⟨⟨hmem, rfl⟩, fun winner' hmem' hh' => ?_⟩
        rw [hrank hh', hrank rfl, ← UInt64.le_iff_toNat_le]
        exact hall winner' hmem' hh'
    simp only [hsome]
    refine register_agree_iff.trans ⟨fun hall blockHash' heq winner winner' hh hh' htop htop' => ?_,
      fun hall winner winner' hbest₁ hbest₂ => ?_⟩
    · obtain rfl := Option.some.inj heq
      exact hall winner winner' ((hbest winner).2 ⟨hh, htop⟩) ((hbest winner').2 ⟨hh', htop'⟩)
    · obtain ⟨hh, htop⟩ := (hbest winner).1 hbest₁
      obtain ⟨hh', htop'⟩ := (hbest winner').1 hbest₂
      exact hall hash rfl winner winner' hh hh' htop htop'

end Order

/-! ### Two votes for one masternode -/

namespace Sample

/-- A vote for the masternode of one input, with a payee. -/
def winnerVote (payee : CScript) : CMasternodePaymentWinner :=
  { nBlockHeight := 11, vin := ⟨⟨7, 0⟩, [], 0xffffffff⟩, payee := payee, vchSig := [1], score := 0 }

def paymentHash : PaymentHash := ⟨fun h => h, fun _ => 0⟩

/-- **The first of two votes for one masternode decides the payee.** -/
theorem winnerVotes_disagree :
    let payee (l : List CMasternodePaymentWinner) : Option CScript :=
      ((addWinningMasternodes paymentHash (node 1).best.pindexBest l {}).getBlockPayee 11).map Prod.fst
    payee [winnerVote [1], winnerVote [2]] = some [1] ∧ payee [winnerVote [2], winnerVote [1]] = some [2] := by
  decide

end Sample

end PayDayCoin
