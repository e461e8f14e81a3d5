import Mathlib.Data.List.Nodup
import Mathlib.Data.List.Sort
import Mathlib.Logic.Equiv.Basic
import PayDayCoin.Masternode

/-!
# What the ranks of masternodes depend on

Four functions rank the masternodes for a height, each by the low 32 bits of the scores.
**`ranksAgree_iff`** gives the exact condition under which they agree and do not depend on
the order of `vMasternodes`: no masternode is eligible, or the block of the height is known,
the low bits of the eligible masternodes' scores are all different, and a single one that may
win does not have the score 0, which `GetCurrentMasterNode` starts from. In
`RankSample.tied_disagree` two masternodes with equal low bits change places with the order in
which they were announced.
-/

namespace PayDayCoin

namespace CMasternodeMan

/-- The masternodes are of different inputs, which `Add` sees to. -/
def Distinct (man : CMasternodeMan) : Prop := (man.vMasternodes.map fun mn => mn.vin.prevout).Nodup

/-! ### The loops -/

section Loops

variable {l : List (UInt32 × CTxIn)} {vin : CTxIn} {rank nRank : ℤ} {i : ℕ}

theorem rankLoop_of_getElem? (hnodup : (l.map Prod.snd).Nodup) {s : UInt32 × CTxIn} (hi : l[i]? = some s) :
    rankLoop s.2 rank l = rank + i + 1 := by
  induction l generalizing rank i with
  | nil => cases hi
  | cons t l ih =>
    obtain ⟨hhead, hnodup⟩ := List.nodup_cons.1 hnodup
    cases i with
    | zero =>
      obtain rfl := Option.some.inj hi
      rw [rankLoop, if_pos rfl]
      simp
    | succ i =>
      have hne : t.2 ≠ s.2 := fun heq =>
        hhead (heq ▸ List.mem_map_of_mem (List.mem_of_getElem? hi))
      rw [rankLoop, if_neg hne, ih hnodup hi]
      push_cast
      ring

theorem byRankLoop_of_getElem? (man : CMasternodeMan) {s : UInt32 × CTxIn} (hi : l[i]? = some s) :
    byRankLoop man (rank + i + 1) rank l = man.find s.2 := by
  induction l generalizing rank i with
  | nil => cases hi
  | cons t l ih =>
    cases i with
    | zero =>
      obtain rfl := Option.some.inj hi
      rw [byRankLoop, if_pos (by simp)]
    | succ i =>
      rw [byRankLoop, if_neg (by push_cast; omega)]
      rw [← @ih (rank + 1) i hi]
      congr 1
      push_cast
      ring

theorem mem_ranksFrom {l : List (UInt32 × CMasternode)} {r : ℤ} {mn : CMasternode} :
    (r, mn) ∈ ranksFrom rank l ↔ ∃ (i : ℕ) (n : UInt32), l[i]? = some (n, mn) ∧ r = rank + i + 1 := by
  induction l generalizing rank with
  | nil => simp [ranksFrom]
  | cons t l ih =>
    rw [ranksFrom, List.mem_cons, ih]
    constructor
    · rintro (heq | ⟨i, n, hi, hr⟩)
      · obtain ⟨rfl, rfl⟩ := Prod.mk.inj heq
        exact ⟨0, t.1, rfl, by simp⟩
      · exact ⟨i + 1, n, hi, by rw [hr]; push_cast; ring⟩
    · rintro ⟨i, n, hi, hr⟩
      cases i with
      | zero =>
        obtain rfl := Option.some.inj hi
        exact .inl (by rw [hr]; simp)
      | succ i => exact .inr ⟨i, n, hi, by rw [hr]; push_cast; ring⟩

/-- A score that is not greater does not win. -/
theorem winnerLoop_of_le {l : List (UInt32 × CMasternode)} {score : UInt32} {winner : Option CMasternode}
    (hle : ∀ s ∈ l, s.1 ≤ score) : winnerLoop score winner l = winner := by
  induction l with
  | nil => rfl
  | cons s l ih =>
    have hs : ¬score < s.1 := UInt32.not_lt.2 (hle s List.mem_cons_self)
    rw [winnerLoop, if_neg hs, ih fun t ht => hle t (List.mem_cons_of_mem s ht)]

/-- The single greatest score wins. -/
theorem winnerLoop_of_greatest {l : List (UInt32 × CMasternode)} {score : UInt32} {winner : Option CMasternode}
    {m : UInt32 × CMasternode} (hm : m ∈ l) (hscore : score < m.1) (hgreatest : ∀ s ∈ l, s = m ∨ s.1 < m.1) :
    winnerLoop score winner l = some m.2 := by
  induction l generalizing score winner with
  | nil => cases hm
  | cons s l ih =>
    have hrest : ∀ t ∈ l, t = m ∨ t.1 < m.1 := fun t ht => hgreatest t (List.mem_cons_of_mem s ht)
    by_cases hsm : s = m
    · subst hsm
      rw [winnerLoop, if_pos hscore]
      refine winnerLoop_of_le fun t ht => ?_
      rcases hrest t ht with rfl | hlt
      · exact UInt32.le_refl _
      · exact UInt32.le_of_lt hlt
    · have hlt := (hgreatest s List.mem_cons_self).resolve_left hsm
      have hm := (List.mem_cons.1 hm).resolve_left (Ne.symm hsm)
      rw [winnerLoop]
      split
      · exact ih hm hlt hrest
      · exact ih hm hscore hrest

end Loops

/-! ### The condition -/

section Ranks

variable (S : StdSort) (H : ScoreHash) (hashes : BlockHashes) (env : MasternodeEnv) (man : CMasternodeMan)
  (nBlockHeight minProtocol : ℤ) (fOnlyActive : Bool)

/-- The four functions agree, whatever the order of the masternodes. -/
structure RanksAgree : Prop where
  order : ∀ man' : CMasternodeMan, man'.vMasternodes.Perm man.vMasternodes → ∀ vin,
    man'.getMasternodeRank S H hashes env vin nBlockHeight minProtocol fOnlyActive =
      man.getMasternodeRank S H hashes env vin nBlockHeight minProtocol fOnlyActive
  range : ∀ mn ∈ man.eligible env minProtocol fOnlyActive,
    1 ≤ man.getMasternodeRank S H hashes env mn.vin nBlockHeight minProtocol fOnlyActive ∧
      man.getMasternodeRank S H hashes env mn.vin nBlockHeight minProtocol fOnlyActive ≤
        (man.eligible env minProtocol fOnlyActive).length
  distinct : ∀ mn ∈ man.eligible env minProtocol fOnlyActive, ∀ mn' ∈ man.eligible env minProtocol fOnlyActive,
    man.getMasternodeRank S H hashes env mn.vin nBlockHeight minProtocol fOnlyActive =
      man.getMasternodeRank S H hashes env mn'.vin nBlockHeight minProtocol fOnlyActive → mn = mn'
  byRank : ∀ man' : CMasternodeMan, man'.vMasternodes.Perm man.vMasternodes →
    ∀ mn ∈ man.eligible env minProtocol fOnlyActive,
      man'.getMasternodeByRank S H hashes env
        (man.getMasternodeRank S H hashes env mn.vin nBlockHeight minProtocol fOnlyActive) nBlockHeight minProtocol
        fOnlyActive = some mn
  ranks : fOnlyActive = true → ∀ man' : CMasternodeMan, man'.vMasternodes.Perm man.vMasternodes → ∀ rank mn,
    (rank, mn) ∈ man'.getMasternodeRanks S H hashes env nBlockHeight minProtocol ↔
      mn ∈ man.eligible env minProtocol fOnlyActive ∧
        rank = man.getMasternodeRank S H hashes env mn.vin nBlockHeight minProtocol fOnlyActive
  current : fOnlyActive = true → ∀ man' : CMasternodeMan, man'.vMasternodes.Perm man.vMasternodes →
    ∀ mn ∈ man.eligible env minProtocol fOnlyActive,
      man.getMasternodeRank S H hashes env mn.vin nBlockHeight minProtocol fOnlyActive = 1 →
        man'.getCurrentMasterNode H hashes env nBlockHeight minProtocol = some mn

/-- The low bits of the scores tell the eligible masternodes apart, and a winner from none. -/
structure Rankable : Prop where
  known : (hashes.blockHash nBlockHeight).isSome
  untied : ((man.eligible env minProtocol fOnlyActive).map fun mn =>
    lowBits (mn.calculateScore H hashes nBlockHeight)).Nodup
  nonzero : fOnlyActive = true → ∀ mn, man.eligible env minProtocol fOnlyActive = [mn] →
    lowBits (mn.calculateScore H hashes nBlockHeight) ≠ 0

end Ranks

/-! ### The sorted list -/

section Sorted

variable {S : StdSort} {H : ScoreHash} {hashes : BlockHashes} {env : MasternodeEnv} {man man' : CMasternodeMan}
  {nBlockHeight minProtocol : ℤ} {fOnlyActive : Bool}

theorem eligible_perm (hperm : man'.vMasternodes.Perm man.vMasternodes) :
    (man'.eligible env minProtocol fOnlyActive).Perm (man.eligible env minProtocol fOnlyActive) := by
  unfold eligible
  split
  · exact (hperm.map _).filter _
  · exact hperm.filter _

/-- An eligible masternode is one of those that the scan leaves. -/
theorem mem_scanned {mn : CMasternode} (hmn : mn ∈ man.eligible env minProtocol fOnlyActive) :
    mn ∈ (man.scanned env minProtocol fOnlyActive).vMasternodes := by
  unfold eligible at hmn
  split at hmn <;> rename_i hactive
  · obtain ⟨hmn, hok⟩ := List.mem_filter.1 hmn
    obtain ⟨mn₀, hmn₀, rfl⟩ := List.mem_map.1 hmn
    have hproto : minProtocol ≤ mn₀.protocolVersion := by
      have h := (Bool.and_eq_true_iff.1 hok).1
      rwa [decide_eq_true_eq, CMasternode.check_protocolVersion] at h
    exact List.mem_map.2 ⟨mn₀, hmn₀, if_pos ⟨hactive, hproto⟩⟩
  · exact List.mem_map.2 ⟨mn, (List.mem_filter.1 hmn).1, if_neg fun h => hactive h.1⟩

theorem scanned_prevouts (man : CMasternodeMan) :
    ((man.scanned env minProtocol fOnlyActive).vMasternodes.map fun mn => mn.vin.prevout) =
      man.vMasternodes.map fun mn => mn.vin.prevout := by
  rw [scanned, List.map_map]
  refine List.map_congr_left fun mn _ => ?_
  simp only [Function.comp]
  split
  · rw [CMasternode.check_vin]
  · rfl

/-- The masternodes that are eligible are of different inputs. -/
theorem Distinct.inj (hman : man.Distinct) {mn mn' : CMasternode}
    (hmn : mn ∈ man.eligible env minProtocol fOnlyActive) (hmn' : mn' ∈ man.eligible env minProtocol fOnlyActive)
    (heq : mn.vin.prevout = mn'.vin.prevout) : mn = mn' := by
  rw [Distinct, ← @scanned_prevouts env minProtocol fOnlyActive man] at hman
  exact List.inj_on_of_nodup_map hman (mem_scanned hmn) (mem_scanned hmn') heq

theorem Distinct.eligible_nodup (hman : man.Distinct) : (man.eligible env minProtocol fOnlyActive).Nodup := by
  unfold eligible
  split
  · refine List.Nodup.filter _ (List.Nodup.of_map (fun mn => mn.vin.prevout) ?_)
    rw [List.map_map]
    simp only [Function.comp_def, CMasternode.check_vin]
    exact hman
  · exact List.Nodup.filter _ (List.Nodup.of_map _ hman)

/-- The eligible masternodes with the low bits of their scores, the greatest first. -/
def ranked (S : StdSort) (H : ScoreHash) (hashes : BlockHashes) (env : MasternodeEnv) (man : CMasternodeMan)
    (nBlockHeight minProtocol : ℤ) (fOnlyActive : Bool) : List (UInt32 × CMasternode) :=
  S.sort (scores H hashes nBlockHeight (man.eligible env minProtocol fOnlyActive))

theorem vecMasternodeScores_eq : man.vecMasternodeScores S H hashes env nBlockHeight minProtocol fOnlyActive =
    (man.ranked S H hashes env nBlockHeight minProtocol fOnlyActive).map (Prod.map id CMasternode.vin) :=
  S.map _ _

theorem mem_ranked {s : UInt32 × CMasternode} :
    s ∈ man.ranked S H hashes env nBlockHeight minProtocol fOnlyActive ↔
      s.2 ∈ man.eligible env minProtocol fOnlyActive ∧ s.1 = lowBits (s.2.calculateScore H hashes nBlockHeight) := by
  rw [ranked, (S.perm _).mem_iff, scores, List.mem_map]
  constructor
  · rintro ⟨mn, hmn, rfl⟩
    exact ⟨hmn, rfl⟩
  · rintro ⟨hmn, hs⟩
    exact ⟨s.2, hmn, Prod.ext hs.symm rfl⟩

theorem exists_position (S : StdSort) (H : ScoreHash) (hashes : BlockHashes) (nBlockHeight : ℤ) {mn : CMasternode} (hmn : mn ∈ man.eligible env minProtocol fOnlyActive) :
    ∃ i : ℕ, (man.ranked S H hashes env nBlockHeight minProtocol fOnlyActive)[i]? =
      some (lowBits (mn.calculateScore H hashes nBlockHeight), mn) :=
  List.mem_iff_getElem?.1 (mem_ranked.2 ⟨hmn, rfl⟩)

theorem length_ranked : (man.ranked S H hashes env nBlockHeight minProtocol fOnlyActive).length =
    (man.eligible env minProtocol fOnlyActive).length := by
  rw [ranked, (S.perm _).length_eq, scores, List.length_map]

/-- **Without ties, the order of the masternodes does not show.** -/
theorem ranked_eq_of_perm (hperm : man'.vMasternodes.Perm man.vMasternodes)
    (huntied : ((man.eligible env minProtocol fOnlyActive).map fun mn =>
      lowBits (mn.calculateScore H hashes nBlockHeight)).Nodup) :
    man'.ranked S H hashes env nBlockHeight minProtocol fOnlyActive =
      man.ranked S H hashes env nBlockHeight minProtocol fOnlyActive := by
  have hscores := (@eligible_perm env man man' minProtocol fOnlyActive hperm).map
    fun mn => (lowBits (mn.calculateScore H hashes nBlockHeight), mn)
  have hsorted := ((S.perm _).trans hscores).trans (S.perm _).symm
  refine List.Perm.eq_of_pairwise (fun s t hs ht hle hge => ?_) (S.descending _) (S.descending _) hsorted
  have hs := mem_ranked.1 (hsorted.mem_iff.1 hs)
  have ht := mem_ranked.1 ht
  have hscore : s.1 = t.1 := UInt32.le_antisymm hge hle
  exact Prod.ext hscore (List.inj_on_of_nodup_map huntied hs.1 ht.1 (hs.2.symm.trans (hscore.trans ht.2)))

/-- The rank of a masternode is its place in the sorted list. -/
theorem getMasternodeRank_of_position (hman : man.Distinct) (hknown : (hashes.blockHash nBlockHeight).isSome) {i : ℕ}
    {n : UInt32} {mn : CMasternode}
    (hi : (man.ranked S H hashes env nBlockHeight minProtocol fOnlyActive)[i]? = some (n, mn)) :
    man.getMasternodeRank S H hashes env mn.vin nBlockHeight minProtocol fOnlyActive = i + 1 := by
  obtain ⟨hash, hhash⟩ := Option.isSome_iff_exists.1 hknown
  have hperm : ((man.ranked S H hashes env nBlockHeight minProtocol fOnlyActive).map Prod.snd).Perm
      (man.eligible env minProtocol fOnlyActive) := by
    refine ((S.perm _).map Prod.snd).trans (List.Perm.of_eq ?_)
    rw [scores, List.map_map]
    exact List.map_id _
  have hnodup : (((man.ranked S H hashes env nBlockHeight minProtocol fOnlyActive).map
      (Prod.map id CMasternode.vin)).map Prod.snd).Nodup := by
    have hvins : ((man.ranked S H hashes env nBlockHeight minProtocol fOnlyActive).map
        (Prod.map id CMasternode.vin)).map Prod.snd =
        ((man.ranked S H hashes env nBlockHeight minProtocol fOnlyActive).map Prod.snd).map CMasternode.vin := by
      rw [List.map_map, List.map_map]
      rfl
    rw [hvins]
    refine List.Nodup.map_on (fun a ha b hb heq => ?_) (hperm.symm.nodup hman.eligible_nodup)
    exact hman.inj (hperm.mem_iff.1 ha) (hperm.mem_iff.1 hb) (congrArg CTxIn.prevout heq)
  have hi' := congrArg (Option.map (Prod.map id CMasternode.vin)) hi
  rw [← List.getElem?_map] at hi'
  have hrank := @rankLoop_of_getElem? _ 0 i hnodup _ hi'
  simp only [getMasternodeRank, hhash, vecMasternodeScores_eq]
  rw [Int.zero_add] at hrank
  exact hrank

end Sorted

/-! ### The ranks agree -/

section Agree

variable {S : StdSort} {H : ScoreHash} {hashes : BlockHashes} {env : MasternodeEnv} {man : CMasternodeMan}
  {nBlockHeight minProtocol : ℤ} {fOnlyActive : Bool}

/-- The masternode of an eligible one's input is found among those scanned, in any order. -/
theorem find_scanned {man' : CMasternodeMan} (hman : man.Distinct)
    (hperm : man'.vMasternodes.Perm man.vMasternodes) {mn : CMasternode}
    (hmn : mn ∈ man.eligible env minProtocol fOnlyActive) :
    (man'.scanned env minProtocol fOnlyActive).find mn.vin = some mn := by
  have hmem : mn ∈ (man'.scanned env minProtocol fOnlyActive).vMasternodes :=
    mem_scanned ((eligible_perm hperm).mem_iff.2 hmn)
  have hdistinct : ((man'.scanned env minProtocol fOnlyActive).vMasternodes.map fun mn => mn.vin.prevout).Nodup := by
    rw [scanned_prevouts]
    exact (hperm.map _).symm.nodup hman
  cases hfind : (man'.scanned env minProtocol fOnlyActive).find mn.vin with
  | none => exact absurd (beq_self_eq_true _) (List.find?_eq_none.1 hfind mn hmem)
  | some mn' =>
    have hbeq : (mn'.vin.prevout == mn.vin.prevout) = true :=
      List.find?_some (p := fun mn' : CMasternode => mn'.vin.prevout == mn.vin.prevout) hfind
    have heq := eq_of_beq hbeq
    rw [List.inj_on_of_nodup_map hdistinct (List.mem_of_find?_eq_some hfind) hmem heq]

/-- Nothing is ranked where nothing is eligible. -/
theorem ranksAgree_of_nil (hnil : man.eligible env minProtocol fOnlyActive = []) :
    man.RanksAgree S H hashes env nBlockHeight minProtocol fOnlyActive := by
  have hnil' : ∀ man' : CMasternodeMan, man'.vMasternodes.Perm man.vMasternodes →
      man'.eligible env minProtocol fOnlyActive = [] := fun man' hperm =>
    List.Perm.eq_nil (hnil ▸ eligible_perm hperm)
  have hempty : ∀ {α : Type}, S.sort ([] : List (UInt32 × α)) = [] := fun {α} => List.Perm.eq_nil (S.perm [])
  constructor
  · intro man' hperm vin
    simp only [getMasternodeRank, vecMasternodeScores, hnil' man' hperm, hnil]
  · simp only [hnil, List.not_mem_nil, false_implies, implies_true]
  · simp only [hnil, List.not_mem_nil, false_implies, implies_true]
  · simp only [hnil, List.not_mem_nil, false_implies, implies_true]
  · intro hactive man' hperm rank mn
    have h' := hnil' man' hperm
    rw [hactive] at h'
    rw [hnil]
    simp only [getMasternodeRanks, h', scores, List.map_nil, hempty, ranksFrom]
    cases hashes.blockHash nBlockHeight <;> simp
  · simp only [hnil, List.not_mem_nil, false_implies, implies_true]

/-- The first of the sorted list has the greatest score, and wins. -/
theorem Rankable.current {man' : CMasternodeMan} (h : man.Rankable H hashes env nBlockHeight minProtocol true)
    (hperm : man'.vMasternodes.Perm man.vMasternodes) {mn : CMasternode}
    (hi : (man.ranked S H hashes env nBlockHeight minProtocol true)[0]? =
      some (lowBits (mn.calculateScore H hashes nBlockHeight), mn)) :
    man'.getCurrentMasterNode H hashes env nBlockHeight minProtocol = some mn := by
  have hmem : ∀ s, s ∈ scores H hashes nBlockHeight (man'.eligible env minProtocol true) ↔
      s ∈ man.ranked S H hashes env nBlockHeight minProtocol true := fun s => by
    rw [← ranked_eq_of_perm hperm h.untied]
    exact (S.perm _).mem_iff.symm
  have hmn := (mem_ranked.1 (List.mem_of_getElem? hi)).1
  obtain ⟨rest, hrest⟩ : ∃ rest, man.ranked S H hashes env nBlockHeight minProtocol true =
      (lowBits (mn.calculateScore H hashes nBlockHeight), mn) :: rest := by
    cases hranked : man.ranked S H hashes env nBlockHeight minProtocol true with
    | nil =>
      rw [hranked] at hi
      cases hi
    | cons s rest =>
      rw [hranked] at hi
      exact ⟨rest, by rw [Option.some.inj hi]⟩
  have hdesc := S.descending (scores H hashes nBlockHeight (man.eligible env minProtocol true))
  rw [← ranked, hrest] at hdesc
  have hgreatest : ∀ s ∈ scores H hashes nBlockHeight (man'.eligible env minProtocol true),
      s = (lowBits (mn.calculateScore H hashes nBlockHeight), mn) ∨
        s.1 < lowBits (mn.calculateScore H hashes nBlockHeight) := by
    intro s hs
    have hs := (hmem s).1 hs
    by_cases heq : s.2 = mn
    · exact .inl (Prod.ext (heq ▸ (mem_ranked.1 hs).2) heq)
    · have hle : s.1 ≤ lowBits (mn.calculateScore H hashes nBlockHeight) := by
        rcases List.mem_cons.1 (hrest ▸ hs) with rfl | hs'
        · exact UInt32.le_refl _
        · exact (List.pairwise_cons.1 hdesc).1 s hs'
      refine .inr (UInt32.lt_of_le_of_ne hle fun hscore => heq ?_)
      exact List.inj_on_of_nodup_map h.untied (mem_ranked.1 hs).1 hmn ((mem_ranked.1 hs).2.symm.trans hscore)
  have hpos : 0 < lowBits (mn.calculateScore H hashes nBlockHeight) := by
    refine UInt32.lt_of_le_of_ne (UInt32.zero_le) (Ne.symm fun hzero => ?_)
    -- nothing is below the score 0, so the masternode is alone
    have hall : ∀ mn' ∈ man.eligible env minProtocol true, mn' = mn := by
      intro mn' hmn'
      rcases hgreatest (lowBits (mn'.calculateScore H hashes nBlockHeight), mn')
        ((hmem _).2 (mem_ranked.2 ⟨hmn', rfl⟩)) with heq | hlt
      · exact (Prod.mk.inj heq).2
      · rw [hzero] at hlt
        exact absurd hlt (UInt32.not_lt.2 UInt32.zero_le)
    refine h.nonzero rfl mn ?_ hzero
    have hreplicate := List.eq_replicate_of_mem hall
    have hnodup := List.Nodup.of_map _ h.untied
    rw [hreplicate, List.nodup_replicate] at hnodup
    have hlen := List.length_pos_of_mem hmn
    rw [hreplicate, Nat.le_antisymm hnodup hlen]
    rfl
  exact winnerLoop_of_greatest ((hmem _).2 (List.mem_of_getElem? hi)) hpos hgreatest

/-- **Scores that tell the masternodes apart give them ranks.** -/
theorem Rankable.ranksAgree (hman : man.Distinct)
    (h : man.Rankable H hashes env nBlockHeight minProtocol fOnlyActive) :
    man.RanksAgree S H hashes env nBlockHeight minProtocol fOnlyActive := by
  obtain ⟨hash, hhash⟩ := Option.isSome_iff_exists.1 h.known
  have hsame : ∀ man' : CMasternodeMan, man'.vMasternodes.Perm man.vMasternodes →
      man'.ranked S H hashes env nBlockHeight minProtocol fOnlyActive =
        man.ranked S H hashes env nBlockHeight minProtocol fOnlyActive := fun _ hperm =>
    ranked_eq_of_perm hperm h.untied
  constructor
  · intro man' hperm vin
    simp only [getMasternodeRank, vecMasternodeScores_eq, hsame man' hperm]
  · intro mn hmn
    obtain ⟨i, hi⟩ := exists_position S H hashes nBlockHeight hmn
    have hlt := (List.getElem?_eq_some_iff.1 hi).1
    rw [length_ranked] at hlt
    rw [getMasternodeRank_of_position hman h.known hi]
    omega
  · intro mn hmn mn' hmn' heq
    obtain ⟨i, hi⟩ := exists_position S H hashes nBlockHeight hmn
    obtain ⟨j, hj⟩ := exists_position S H hashes nBlockHeight hmn'
    rw [getMasternodeRank_of_position hman h.known hi, getMasternodeRank_of_position hman h.known hj] at heq
    have hij : i = j := by omega
    subst hij
    exact (Prod.mk.inj (Option.some.inj (hi.symm.trans hj))).2
  · intro man' hperm mn hmn
    obtain ⟨i, hi⟩ := exists_position S H hashes nBlockHeight hmn
    have hvec := congrArg (Option.map (Prod.map id CMasternode.vin)) hi
    rw [← List.getElem?_map, ← vecMasternodeScores_eq] at hvec
    have hby := @byRankLoop_of_getElem? _ 0 _ (man'.scanned env minProtocol fOnlyActive) _ hvec
    rw [Int.zero_add] at hby
    rw [getMasternodeRank_of_position hman h.known hi, getMasternodeByRank, vecMasternodeScores_eq, hsame man' hperm,
      ← vecMasternodeScores_eq]
    exact hby.trans (find_scanned hman hperm hmn)
  · intro hactive man' hperm rank mn
    subst hactive
    have hranks : man'.getMasternodeRanks S H hashes env nBlockHeight minProtocol =
        ranksFrom 0 (man.ranked S H hashes env nBlockHeight minProtocol true) := by
      rw [← hsame man' hperm]
      simp only [getMasternodeRanks, hhash]
      rfl
    rw [hranks, mem_ranksFrom]
    constructor
    · rintro ⟨i, n, hi, rfl⟩
      refine ⟨(mem_ranked.1 (List.mem_of_getElem? hi)).1, ?_⟩
      rw [getMasternodeRank_of_position hman h.known hi]
      omega
    · rintro ⟨hmn, rfl⟩
      obtain ⟨i, hi⟩ := exists_position S H hashes nBlockHeight hmn
      refine ⟨i, _, hi, ?_⟩
      rw [getMasternodeRank_of_position hman h.known hi]
      omega
  · intro hactive man' hperm mn hmn hrank
    subst hactive
    obtain ⟨i, hi⟩ := exists_position S H hashes nBlockHeight hmn
    rw [getMasternodeRank_of_position hman h.known hi] at hrank
    have hzero : i = 0 := by omega
    subst hzero
    exact h.current hperm hi

/-! ### Ties -/

/-- Two masternodes changed for each other. -/
def exchange (a b : CMasternode) (man : CMasternodeMan) : CMasternodeMan where
  vMasternodes := man.vMasternodes.map (Equiv.swap a b)

theorem exchange_perm {a b : CMasternode} (hman : man.vMasternodes.Nodup) (ha : a ∈ man.vMasternodes)
    (hb : b ∈ man.vMasternodes) : (man.exchange a b).vMasternodes.Perm man.vMasternodes := by
  refine (List.perm_ext_iff_of_nodup (hman.map (Equiv.swap a b).injective) hman).2 fun mn => ?_
  have hswap : ∀ x ∈ man.vMasternodes, Equiv.swap a b x ∈ man.vMasternodes := fun x hx => by
    rw [Equiv.swap_apply_def]
    split
    · exact hb
    · split
      · exact ha
      · exact hx
  rw [List.mem_map]
  constructor
  · rintro ⟨x, hx, rfl⟩
    exact hswap x hx
  · exact fun hmn => ⟨Equiv.swap a b mn, hswap mn hmn, Equiv.swap_apply_self a b mn⟩

/-- An exchange comes through what keeps the inputs, and through a filter that lets both
pass. -/
theorem filter_map_swap {a b : CMasternode} (hman : man.Distinct) (ha : a ∈ man.vMasternodes)
    (hb : b ∈ man.vMasternodes) {g : CMasternode → CMasternode} (hg : ∀ mn, (g mn).vin = mn.vin)
    {p : CMasternode → Bool} (hpa : p (g a) = true) (hpb : p (g b) = true) :
    ((man.vMasternodes.map (Equiv.swap a b)).map g).filter p =
      ((man.vMasternodes.map g).filter p).map (Equiv.swap (g a) (g b)) := by
  have hinj : ∀ x ∈ man.vMasternodes, ∀ y ∈ man.vMasternodes, g x = g y → x = y := fun x hx y hy heq => by
    refine List.inj_on_of_nodup_map hman hx hy ?_
    rw [← hg x, ← hg y, heq]
  have hmap : (man.vMasternodes.map (Equiv.swap a b)).map g =
      (man.vMasternodes.map g).map (Equiv.swap (g a) (g b)) := by
    rw [List.map_map, List.map_map]
    refine List.map_congr_left fun x hx => ?_
    simp only [Function.comp]
    by_cases hxa : x = a
    · rw [hxa, Equiv.swap_apply_left, Equiv.swap_apply_left]
    · by_cases hxb : x = b
      · rw [hxb, Equiv.swap_apply_right, Equiv.swap_apply_right]
      · rw [Equiv.swap_apply_of_ne_of_ne hxa hxb, Equiv.swap_apply_of_ne_of_ne
          (fun heq => hxa (hinj x hx a ha heq)) (fun heq => hxb (hinj x hx b hb heq))]
  have hpass : p ∘ Equiv.swap (g a) (g b) = p := by
    funext x
    simp only [Function.comp, Equiv.swap_apply_def]
    split
    · rename_i heq
      rw [heq, hpa, hpb]
    · split
      · rename_i heq
        rw [heq, hpa, hpb]
      · rfl
  rw [hmap, List.filter_map, hpass]

/-- Two eligible masternodes come from two whose exchange exchanges them. -/
theorem exists_exchange {a b : CMasternode} (hman : man.Distinct) (ha : a ∈ man.eligible env minProtocol fOnlyActive)
    (hb : b ∈ man.eligible env minProtocol fOnlyActive) :
    ∃ man' : CMasternodeMan, man'.vMasternodes.Perm man.vMasternodes ∧
      man'.eligible env minProtocol fOnlyActive =
        (man.eligible env minProtocol fOnlyActive).map (Equiv.swap a b) := by
  have hnodup : man.vMasternodes.Nodup := List.Nodup.of_map _ hman
  cases fOnlyActive with
  | true =>
    simp only [eligible, if_true] at ha hb ⊢
    obtain ⟨ha, hpa⟩ := List.mem_filter.1 ha
    obtain ⟨hb, hpb⟩ := List.mem_filter.1 hb
    obtain ⟨a₀, ha₀, rfl⟩ := List.mem_map.1 ha
    obtain ⟨b₀, hb₀, rfl⟩ := List.mem_map.1 hb
    refine ⟨man.exchange a₀ b₀, exchange_perm hnodup ha₀ hb₀, ?_⟩
    exact filter_map_swap hman ha₀ hb₀ (CMasternode.check_vin env) hpa hpb
  | false =>
    simp only [eligible, Bool.false_eq_true, if_false] at ha hb ⊢
    obtain ⟨ha, hpa⟩ := List.mem_filter.1 ha
    obtain ⟨hb, hpb⟩ := List.mem_filter.1 hb
    refine ⟨man.exchange a b, exchange_perm hnodup ha hb, ?_⟩
    have h := filter_map_swap (g := id) (p := fun mn => decide (minProtocol ≤ mn.protocolVersion)) hman ha hb
      (fun _ => rfl) hpa hpb
    rwa [List.map_id, List.map_id] at h

/-- **Ranks that agree come from scores that tell the masternodes apart.** -/
theorem RanksAgree.rankable (hman : man.Distinct)
    (h : man.RanksAgree S H hashes env nBlockHeight minProtocol fOnlyActive)
    (hsome : man.eligible env minProtocol fOnlyActive ≠ []) :
    man.Rankable H hashes env nBlockHeight minProtocol fOnlyActive := by
  have hknown : (hashes.blockHash nBlockHeight).isSome := by
    obtain ⟨mn, hmn⟩ := List.exists_mem_of_ne_nil _ hsome
    have hrange := (h.range mn hmn).1
    cases hhash : hashes.blockHash nBlockHeight with
    | none =>
      simp only [getMasternodeRank, hhash] at hrange
      exact absurd hrange (by decide)
    | some hash => rfl
  refine ⟨hknown, ?_, ?_⟩
  · refine List.Nodup.map_on (fun a ha b hb hscore => ?_) hman.eligible_nodup
    obtain ⟨man', hperm, heligible⟩ := exists_exchange hman ha hb
    have hman' : man'.Distinct := (hperm.map _).symm.nodup hman
    -- equal scores cannot tell the two from each other
    have hscores : scores H hashes nBlockHeight (man'.eligible env minProtocol fOnlyActive) =
        (scores H hashes nBlockHeight (man.eligible env minProtocol fOnlyActive)).map
          (Prod.map id (Equiv.swap a b)) := by
      rw [heligible, scores, scores, List.map_map, List.map_map]
      refine List.map_congr_left fun mn _ => Prod.ext ?_ rfl
      simp only [Function.comp, Prod.map, id, Equiv.swap_apply_def]
      split
      · rename_i heq
        rw [heq, hscore]
      · split
        · rename_i heq
          rw [heq, hscore]
        · rfl
    have hranked : man'.ranked S H hashes env nBlockHeight minProtocol fOnlyActive =
        (man.ranked S H hashes env nBlockHeight minProtocol fOnlyActive).map (Prod.map id (Equiv.swap a b)) := by
      rw [ranked, hscores, S.map, ranked]
    obtain ⟨i, hi⟩ := exists_position S H hashes nBlockHeight ha
    have hi' := congrArg (Option.map (Prod.map id (Equiv.swap a b))) hi
    rw [← List.getElem?_map, ← hranked, Option.map_some, Prod.map, Equiv.swap_apply_left] at hi'
    have hrank := getMasternodeRank_of_position hman hknown hi
    have hrank' := getMasternodeRank_of_position hman' hknown hi'
    rw [h.order man' hperm] at hrank'
    exact h.distinct a ha b hb (hrank.trans hrank'.symm)
  · intro hactive mn halone hzero
    subst hactive
    have hmn : mn ∈ man.eligible env minProtocol true := halone ▸ List.mem_singleton_self mn
    have hrange := h.range mn hmn
    rw [halone, List.length_singleton] at hrange
    have hwins := h.current rfl man (List.Perm.refl _) mn hmn (by omega)
    rw [getCurrentMasterNode, halone, scores, List.map_singleton, hzero] at hwins
    cases hwins

/-- **The ranking functions agree, for every order of the masternodes, exactly if** none is
eligible, or their scores tell them apart. -/
theorem ranksAgree_iff (S : StdSort) (H : ScoreHash) (hashes : BlockHashes) (env : MasternodeEnv)
    (man : CMasternodeMan) (hman : man.Distinct) (nBlockHeight minProtocol : ℤ) (fOnlyActive : Bool) :
    man.RanksAgree S H hashes env nBlockHeight minProtocol fOnlyActive ↔
      man.eligible env minProtocol fOnlyActive = [] ∨
        man.Rankable H hashes env nBlockHeight minProtocol fOnlyActive := by
  constructor
  · intro h
    by_cases hnil : man.eligible env minProtocol fOnlyActive = []
    · exact .inl hnil
    · exact .inr (h.rankable hman hnil)
  · rintro (hnil | h)
    · exact ranksAgree_of_nil hnil
    · exact h.ranksAgree hman

end Agree

end CMasternodeMan

/-! ### Two masternodes with one score -/

namespace RankSample

theorem pairwise_insertionSort {α : Type} (l : List (UInt32 × α)) :
    (l.insertionSort fun s t => t.1 ≤ s.1).Pairwise fun s t => t.1 ≤ s.1 := by
  have htotal : Std.Total fun s t : UInt32 × α => t.1 ≤ s.1 := ⟨fun s t => UInt32.le_total t.1 s.1⟩
  have htrans : IsTrans (UInt32 × α) fun s t => t.1 ≤ s.1 := ⟨fun _ _ _ h h' => UInt32.le_trans h' h⟩
  exact List.pairwise_insertionSort _ l

/-- Insertion sort, which leaves equal scores in their order. -/
def insertion : StdSort where
  sort l := l.insertionSort fun s t => t.1 ≤ s.1
  perm l := List.perm_insertionSort _ l
  descending l := pairwise_insertionSort l
  map f l := (List.map_insertionSort _ _ (Prod.map id f) l fun _ _ _ _ => Iff.rfl).symm

/-- The score is what is hashed with the block. -/
def hash : ScoreHash := ⟨fun _ => 0, fun _ aux => aux⟩

/-- One block after the genesis block. -/
def hashes : BlockHashes where
  pindexBest := [{ Sample.genesis with hash := 9 }, Sample.genesis]

def env : MasternodeEnv where
  adjustedTime := 1000
  collateralPubKey := []
  acceptableInputs _ := true

/-- A masternode of an input, seen just now. -/
def masternode (txid : Uint256) : CMasternode where
  vin := ⟨⟨txid, 0⟩, [], 0xffffffff⟩
  lastTimeSeen := 1000
  protocolVersion := 70000

/-- **Two masternodes whose scores have the same low bits rank as they were announced.** -/
theorem tied_disagree :
    let rank (l : List CMasternode) : ℤ :=
      CMasternodeMan.getMasternodeRank insertion hash hashes env ⟨l⟩ (masternode 7).vin 2 0 true
    rank [masternode 7, masternode 0x100000007] = 1 ∧ rank [masternode 0x100000007, masternode 7] = 2 ∧
      ¬CMasternodeMan.RanksAgree insertion hash hashes env ⟨[masternode 7, masternode 0x100000007]⟩ 2 0 true := by
  intro rank
  have hfirst : rank [masternode 7, masternode 0x100000007] = 1 := by decide
  have hsecond : rank [masternode 0x100000007, masternode 7] = 2 := by decide
  refine ⟨hfirst, hsecond, fun h => ?_⟩
  have horder := h.order ⟨[masternode 0x100000007, masternode 7]⟩ (List.Perm.swap _ _ _) (masternode 7).vin
  exact absurd (hsecond.symm.trans (horder.trans hfirst)) (by decide)

/-- Two masternodes with different scores are ranked. -/
theorem untied_agree :
    CMasternodeMan.RanksAgree insertion hash hashes env ⟨[masternode 7, masternode 8]⟩ 2 0 true :=
  (CMasternodeMan.ranksAgree_iff insertion hash hashes env ⟨[masternode 7, masternode 8]⟩
    (show List.Nodup _ by decide) 2 0 true).2
    (.inr ⟨by decide, by decide, fun _ mn halone => by
      have hlength : (CMasternodeMan.eligible env ⟨[masternode 7, masternode 8]⟩ 0 true).length = 2 := by decide
      rw [halone] at hlength
      cases hlength⟩)

end RankSample

end PayDayCoin
