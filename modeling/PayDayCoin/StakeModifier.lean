import PayDayCoin.Kernel

/-!
# The blocks of a stake modifier

`ComputeNextStakeModifier` selects a candidate in each of its rounds, and takes the last bit of its hash. What a round
selects is `Chosen`: of the candidates that are not selected yet and not later than the end of the round's section, the
first one with the least selection hash, or the first of all that are left when they are later.
**`computeNextStakeModifier_spec`**: with a modifier among the ancestors it does not fail, and the rounds of a new
modifier select different candidates, as many as there are, up to 64. A round may select from an earlier section
(`ModifierSample.earlier_section`).
-/

namespace PayDayCoin

section Modifier

variable [Crypto]

/-! ### One selection -/

/-- The first of the least. -/
def FirstLeast (size : CBlockIndex → ℕ) (l : List CBlockIndex) (p : CBlockIndex) : Prop :=
  ∃ before after, l = before ++ p :: after ∧ (∀ q ∈ before, size p < size q) ∧ ∀ q ∈ after, size p ≤ size q

/-- The candidates that are not selected yet. -/
def unselected (mapSelectedBlocks : List Uint256) (candidates : List CBlockIndex) : List CBlockIndex :=
  candidates.filter fun p => !mapSelectedBlocks.contains p.hash

/-- Those of them that are not later than the end of a section. -/
def upTo (stop : ℤ) (l : List CBlockIndex) : List CBlockIndex := l.filter fun p => p.getBlockTime ≤ stop

/-- What a round selects. -/
def Chosen (nStakeModifier : UInt64) (mapSelectedBlocks : List Uint256) (stop : ℤ) (candidates : List CBlockIndex)
    (p : CBlockIndex) : Prop :=
  if upTo stop (unselected mapSelectedBlocks candidates) = [] then
    (unselected mapSelectedBlocks candidates).head? = some p
  else FirstLeast (selectionHash nStakeModifier) (upTo stop (unselected mapSelectedBlocks candidates)) p

omit [Crypto] in
theorem FirstLeast.singleton (size : CBlockIndex → ℕ) (p : CBlockIndex) : FirstLeast size [p] p :=
  ⟨[], [], rfl, fun _ hq => absurd hq List.not_mem_nil, fun _ hq => absurd hq List.not_mem_nil⟩

omit [Crypto] in
theorem FirstLeast.mem {size : CBlockIndex → ℕ} {l : List CBlockIndex} {p : CBlockIndex} (h : FirstLeast size l p) :
    p ∈ l := by
  obtain ⟨before, after, rfl, -, -⟩ := h
  exact List.mem_append_right before List.mem_cons_self

omit [Crypto] in
theorem FirstLeast.le {size : CBlockIndex → ℕ} {l : List CBlockIndex} {p q : CBlockIndex} (h : FirstLeast size l p)
    (hq : q ∈ l) : size p ≤ size q := by
  obtain ⟨before, after, rfl, hbefore, hafter⟩ := h
  rcases List.mem_append.1 hq with hq | hq
  · exact (hbefore q hq).le
  · rcases List.mem_cons.1 hq with rfl | hq
    · exact Nat.le_refl _
    · exact hafter q hq

omit [Crypto] in
/-- A smaller candidate takes the place of the best one so far. -/
theorem FirstLeast.cons_lt {size : CBlockIndex → ℕ} {l : List CBlockIndex} {p q r : CBlockIndex}
    (h : FirstLeast size (p :: l) r) (hlt : size p < size q) : FirstLeast size (q :: p :: l) r := by
  have hle := h.le List.mem_cons_self
  obtain ⟨before, after, heq, hbefore, hafter⟩ := h
  refine ⟨q :: before, after, by rw [heq, List.cons_append], fun x hx => ?_, hafter⟩
  rcases List.mem_cons.1 hx with rfl | hx
  · exact Nat.lt_of_le_of_lt hle hlt
  · exact hbefore x hx

omit [Crypto] in
/-- One that is not smaller does not. -/
theorem FirstLeast.cons_ge {size : CBlockIndex → ℕ} {l : List CBlockIndex} {p q r : CBlockIndex}
    (h : FirstLeast size (q :: l) r) (hge : size q ≤ size p) : FirstLeast size (q :: p :: l) r := by
  obtain ⟨before, after, heq, hbefore, hafter⟩ := h
  cases before with
  | nil =>
    obtain ⟨rfl, rfl⟩ := List.cons.inj heq
    refine ⟨[], p :: l, rfl, hbefore, fun x hx => ?_⟩
    rcases List.mem_cons.1 hx with rfl | hx
    · exact hge
    · exact hafter x hx
  | cons q' before =>
    obtain ⟨rfl, rfl⟩ := List.cons.inj heq
    refine ⟨q :: p :: before, after, rfl, fun x hx => ?_, hafter⟩
    have hq := hbefore q List.mem_cons_self
    rcases List.mem_cons.1 hx with rfl | hx
    · exact hq
    rcases List.mem_cons.1 hx with rfl | hx
    · exact Nat.lt_of_lt_of_le hq hge
    · exact hbefore x (List.mem_cons_of_mem q hx)

variable {mapSelectedBlocks : List Uint256} {stop : ℤ} {nStakeModifier : UInt64} {candidates : List CBlockIndex}

omit [Crypto] in
variable (mapSelectedBlocks) in
theorem upTo_of_later {p : CBlockIndex} (hsorted : (p :: candidates).Pairwise fun p q => p.getBlockTime ≤ q.getBlockTime)
    (hlater : stop < p.getBlockTime) : upTo stop (unselected mapSelectedBlocks (p :: candidates)) = [] := by
  rw [upTo, List.filter_eq_nil_iff]
  intro q hq
  rw [decide_eq_true_eq, Int.not_le]
  rcases List.mem_cons.1 (List.mem_of_mem_filter hq) with rfl | hq
  · exact hlater
  · exact Int.lt_of_lt_of_le hlater ((List.pairwise_cons.1 hsorted).1 q hq)

variable (mapSelectedBlocks stop nStakeModifier) in
/-- The loop from a selected candidate on. -/
theorem selectBlockFromCandidates_some
    (hsorted : candidates.Pairwise fun p q => p.getBlockTime ≤ q.getBlockTime) (q : CBlockIndex) :
    ∃ r, selectBlockFromCandidates mapSelectedBlocks stop nStakeModifier candidates (some q) = some r ∧
      FirstLeast (selectionHash nStakeModifier) (q :: upTo stop (unselected mapSelectedBlocks candidates)) r := by
  induction candidates generalizing q with
  | nil => exact ⟨q, rfl, .singleton _ q⟩
  | cons p candidates ih =>
    have hrest := (List.pairwise_cons.1 hsorted).2
    rw [selectBlockFromCandidates]
    by_cases hlater : stop < p.getBlockTime
    · rw [if_pos ⟨rfl, hlater⟩, upTo_of_later mapSelectedBlocks hsorted hlater]
      exact ⟨q, rfl, .singleton _ q⟩
    rw [if_neg fun h => hlater h.2]
    by_cases hselected : p.hash ∈ mapSelectedBlocks
    · rw [if_pos hselected, unselected, List.filter_cons_of_neg (by simpa using hselected)]
      exact ih hrest q
    · rw [if_neg hselected, unselected, List.filter_cons_of_pos (by simpa using hselected), upTo,
        List.filter_cons_of_pos (by simpa using hlater)]
      dsimp only
      by_cases hlt : selectionHash nStakeModifier p < selectionHash nStakeModifier q
      · rw [if_pos hlt]
        obtain ⟨r, heq, hleast⟩ := ih hrest p
        exact ⟨r, heq, hleast.cons_lt hlt⟩
      · rw [if_neg hlt]
        obtain ⟨r, heq, hleast⟩ := ih hrest q
        exact ⟨r, heq, hleast.cons_ge (Nat.not_lt.1 hlt)⟩

variable (stop nStakeModifier) in
/-- **A round selects what it should**, if a candidate is left. -/
theorem selectBlockFromCandidates_chosen
    (hsorted : candidates.Pairwise fun p q => p.getBlockTime ≤ q.getBlockTime)
    (hleft : unselected mapSelectedBlocks candidates ≠ []) :
    ∃ r, selectBlockFromCandidates mapSelectedBlocks stop nStakeModifier candidates none = some r ∧
      Chosen nStakeModifier mapSelectedBlocks stop candidates r := by
  induction candidates with
  | nil => exact absurd rfl hleft
  | cons p candidates ih =>
    have hrest := (List.pairwise_cons.1 hsorted).2
    rw [selectBlockFromCandidates, if_neg fun h => Bool.false_ne_true h.1]
    by_cases hselected : p.hash ∈ mapSelectedBlocks
    · have hskip : unselected mapSelectedBlocks (p :: candidates) = unselected mapSelectedBlocks candidates :=
        List.filter_cons_of_neg (by simpa using hselected)
      rw [hskip] at hleft
      obtain ⟨r, heq, hchosen⟩ := ih hrest hleft
      rw [if_pos hselected]
      refine ⟨r, heq, ?_⟩
      rw [Chosen, hskip]
      exact hchosen
    · have hkeep : unselected mapSelectedBlocks (p :: candidates) = p :: unselected mapSelectedBlocks candidates :=
        List.filter_cons_of_pos (by simpa using hselected)
      rw [if_neg hselected]
      dsimp only
      obtain ⟨r, heq, hleast⟩ := selectBlockFromCandidates_some mapSelectedBlocks stop nStakeModifier hrest p
      refine ⟨r, heq, ?_⟩
      rw [Chosen]
      by_cases hlater : stop < p.getBlockTime
      · have hnone := upTo_of_later mapSelectedBlocks hsorted hlater
        rw [if_pos hnone, hkeep, List.head?_cons, Option.some_inj]
        rw [hkeep, upTo, List.filter_cons_of_neg (by simpa using hlater)] at hnone
        rw [upTo, hnone] at hleast
        exact (List.mem_singleton.1 hleast.mem).symm
      · have hsome : upTo stop (unselected mapSelectedBlocks (p :: candidates)) =
            p :: upTo stop (unselected mapSelectedBlocks candidates) := by
          rw [hkeep, upTo, List.filter_cons_of_pos (by simpa using hlater)]
          rfl
        rw [hsome, if_neg (List.cons_ne_nil _ _)]
        exact hleast

omit [Crypto] in
theorem FirstLeast.mem_candidates {size : CBlockIndex → ℕ} {p : CBlockIndex}
    (h : FirstLeast size (upTo stop (unselected mapSelectedBlocks candidates)) p) :
    p ∈ unselected mapSelectedBlocks candidates := List.mem_of_mem_filter h.mem

theorem Chosen.mem {p : CBlockIndex} (h : Chosen nStakeModifier mapSelectedBlocks stop candidates p) :
    p ∈ candidates ∧ p.hash ∉ mapSelectedBlocks := by
  have hmem : p ∈ unselected mapSelectedBlocks candidates := by
    rw [Chosen] at h
    split at h
    · exact List.mem_of_mem_head? h
    · exact h.mem_candidates
  simpa [unselected] using hmem

/-! ### The rounds -/

/-- The end of the section of a round, of which there are `k` up to there. -/
def stopAt (start : ℤ) (k : ℕ) : ℤ := start + ((List.range k).map getStakeModifierSelectionIntervalSection).sum

/-- Where the selection interval starts. -/
def selectionStart : PIndex → ℤ
  | [] => 0
  | prev :: _ => prev.getBlockTime / nModifierInterval * nModifierInterval - getStakeModifierSelectionInterval

/-- The blocks of the selection interval, by time. -/
def candidatesOf (pindexPrev : PIndex) : List CBlockIndex :=
  (pindexPrev.takeWhile fun p => selectionStart pindexPrev ≤ p.getBlockTime).reverse.insertionSort candidateLe

omit [Crypto] in
theorem sorted_candidatesOf (pindexPrev : PIndex) :
    (candidatesOf pindexPrev).Pairwise fun p q => p.getBlockTime ≤ q.getBlockTime := by
  have htotal : Std.Total candidateLe := ⟨fun p q => by unfold candidateLe; omega⟩
  have htrans : IsTrans CBlockIndex candidateLe := ⟨fun p q r => by unfold candidateLe; omega⟩
  refine (List.pairwise_insertionSort candidateLe _).imp ?_
  intro p q h
  unfold candidateLe at h
  omega

omit [Crypto] in
theorem nodup_candidatesOf {pindexPrev : PIndex} (h : pindexPrev.hashes.Nodup) :
    ((candidatesOf pindexPrev).map CBlockIndex.hash).Nodup := by
  have hperm := (List.perm_insertionSort candidateLe (pindexPrev.takeWhile fun p =>
    selectionStart pindexPrev ≤ p.getBlockTime).reverse).trans (List.reverse_perm _)
  exact (hperm.map CBlockIndex.hash).nodup_iff.2 (h.sublist ((List.takeWhile_sublist _).map _))

omit [Crypto] in
/-- A candidate is left as long as not all are selected. -/
theorem unselected_ne_nil (hnodup : (candidates.map CBlockIndex.hash).Nodup)
    (hlength : mapSelectedBlocks.length < candidates.length) : unselected mapSelectedBlocks candidates ≠ [] := by
  intro hnil
  rw [unselected, List.filter_eq_nil_iff] at hnil
  have hsub : candidates.map CBlockIndex.hash ⊆ mapSelectedBlocks := by
    intro hash hmem
    obtain ⟨p, hp, rfl⟩ := List.mem_map.1 hmem
    by_contra hno
    exact hnil p hp (by simpa using hno)
  have hle := (List.subperm_of_subset hnodup hsub).length_le
  rw [List.length_map] at hle
  omega

omit [Crypto] in
theorem unselected_reverse (mapSelectedBlocks : List Uint256) (candidates : List CBlockIndex) :
    unselected mapSelectedBlocks.reverse candidates = unselected mapSelectedBlocks candidates := by
  simp only [unselected, List.contains_reverse]

omit [Crypto] in
/-- The entropy bit of a round is at its place. -/
theorem testBit_entropy (p : CBlockIndex) {n i : ℕ} (hn : n < 64) (hi : i < 64) :
    (p.getStakeEntropyBit <<< UInt64.ofNat n).toNat.testBit i = (decide (i = n) && decide (p.getStakeEntropyBit = 1)) := by
  have hbit : p.getStakeEntropyBit = 0 ∨ p.getStakeEntropyBit = 1 := by
    rw [CBlockIndex.getStakeEntropyBit]
    rcases Nat.mod_two_eq_zero_or_one p.hash.toNat with h | h
    · exact .inl (by rw [h]; rfl)
    · exact .inr (by rw [h]; rfl)
  have hshift : (UInt64.ofNat n).toNat % 64 = n := by
    rw [UInt64.toNat_ofNat']
    omega
  rw [UInt64.toNat_shiftLeft, hshift, Nat.testBit_mod_two_pow, decide_eq_true hi, Bool.true_and]
  rcases hbit with h | h
  · rw [h]
    simp
  · rw [h]
    change (1 <<< n).testBit i = _
    rw [Nat.one_shiftLeft, Nat.testBit_two_pow]
    simp [eq_comm]

/-- What the rounds have done, when they have selected some blocks. -/
structure Rounds (nStakeModifier : UInt64) (start : ℤ) (candidates selected : List CBlockIndex) (s : SelectionState) :
    Prop where
  stop : s.nSelectionIntervalStop = stopAt start selected.length
  blocks : s.mapSelectedBlocks = (selected.map CBlockIndex.hash).reverse
  nodup : (selected.map CBlockIndex.hash).Nodup
  mem : ∀ p ∈ selected, p ∈ candidates
  chosen : ∀ i p, selected[i]? = some p →
    Chosen nStakeModifier ((selected.take i).map CBlockIndex.hash) (stopAt start (i + 1)) candidates p
  bits : ∀ i < 64, s.nStakeModifierNew.toNat.testBit i = selected[i]?.any fun p => decide (p.getStakeEntropyBit = 1)

variable {start : ℤ} {selected : List CBlockIndex} {s : SelectionState}

/-- A round selects one more block. -/
theorem Rounds.step (h : Rounds nStakeModifier start candidates selected s)
    (hsorted : candidates.Pairwise fun p q => p.getBlockTime ≤ q.getBlockTime)
    (hnodup : (candidates.map CBlockIndex.hash).Nodup) (hlength : selected.length < candidates.length)
    (hround : selected.length < 64) :
    ∃ p s', selectionRound candidates nStakeModifier s selected.length = some s' ∧
      Rounds nStakeModifier start candidates (selected ++ [p]) s' := by
  have hstop : stopAt start (selected.length + 1) =
      s.nSelectionIntervalStop + getStakeModifierSelectionIntervalSection selected.length := by
    rw [h.stop, stopAt, stopAt, List.range_succ, List.map_append, List.sum_append, List.map_singleton,
      List.sum_singleton, add_assoc]
  have hleft : unselected s.mapSelectedBlocks candidates ≠ [] := by
    apply unselected_ne_nil hnodup
    rw [h.blocks, List.length_reverse, List.length_map]
    exact hlength
  obtain ⟨p, hselect, hchosen⟩ := selectBlockFromCandidates_chosen
    (s.nSelectionIntervalStop + getStakeModifierSelectionIntervalSection selected.length) nStakeModifier hsorted hleft
  have hmem := hchosen.mem
  rw [h.blocks, List.mem_reverse] at hmem
  refine ⟨p, _, by rw [selectionRound, hselect], ?_, ?_, ?_, ?_, fun i q hq => ?_, fun i hi => ?_⟩
  · dsimp only
    rw [List.length_append, List.length_singleton, hstop]
  · dsimp only
    rw [h.blocks, List.map_append, List.map_singleton, List.reverse_append, List.reverse_singleton,
      List.singleton_append]
  · rw [List.map_append, List.map_singleton]
    exact List.nodup_append.2 ⟨h.nodup, List.nodup_singleton _, fun a ha b hb heq =>
      hmem.2 (List.mem_singleton.1 hb ▸ heq ▸ ha)⟩
  · intro q hq
    rcases List.mem_append.1 hq with hq | hq
    · exact h.mem q hq
    · rw [List.mem_singleton.1 hq]
      exact hmem.1
  · rcases Nat.lt_trichotomy i selected.length with hlt | rfl | hgt
    · rw [List.getElem?_append_left hlt] at hq
      rw [List.take_append_of_le_length hlt.le]
      exact h.chosen i q hq
    · rw [List.getElem?_append_right (Nat.le_refl _), Nat.sub_self, List.getElem?_cons_zero, Option.some_inj] at hq
      rw [List.take_append_of_le_length (Nat.le_refl _), List.take_length, hstop, ← hq, Chosen, ← unselected_reverse,
        ← h.blocks]
      exact hchosen
    · rw [List.getElem?_eq_none (by rw [List.length_append, List.length_singleton]; omega)] at hq
      cases hq
  · dsimp only
    rw [UInt64.toNat_or, Nat.testBit_or, h.bits i hi, testBit_entropy p hround hi]
    rcases Nat.lt_trichotomy i selected.length with hlt | rfl | hgt
    · rw [List.getElem?_append_left hlt, decide_eq_false (Nat.ne_of_lt hlt), Bool.false_and, Bool.or_false]
    · rw [List.getElem?_append_right (Nat.le_refl _), Nat.sub_self, List.getElem?_cons_zero,
        List.getElem?_eq_none (Nat.le_refl _), decide_eq_true rfl, Bool.true_and]
      rfl
    · rw [List.getElem?_eq_none hgt.le, List.getElem?_eq_none (by rw [List.length_append, List.length_singleton]; omega),
        decide_eq_false (Nat.ne_of_gt hgt), Bool.false_and, Bool.or_false]

variable (nStakeModifier start) in
/-- **The rounds select one block each**, as long as there are candidates. -/
theorem rounds_eq (hsorted : candidates.Pairwise fun p q => p.getBlockTime ≤ q.getBlockTime)
    (hnodup : (candidates.map CBlockIndex.hash).Nodup) {k : ℕ} (hk : k ≤ candidates.length) (hmax : k ≤ 64) :
    ∃ selected s, (List.range k).foldlM (selectionRound candidates nStakeModifier)
        { nSelectionIntervalStop := start } = some s ∧ selected.length = k ∧
      Rounds nStakeModifier start candidates selected s := by
  induction k with
  | zero =>
    refine ⟨[], _, rfl, rfl, ?_, rfl, List.nodup_nil, fun p hp => absurd hp List.not_mem_nil, fun i p hp => ?_,
      fun i _ => ?_⟩
    · exact (add_zero start).symm
    · cases hp
    · exact Nat.zero_testBit i
  | succ k ih =>
    obtain ⟨selected, s, hfold, hlength, hrounds⟩ := ih (by omega) (by omega)
    obtain ⟨p, s', hround, hrounds'⟩ := hrounds.step hsorted hnodup (by omega) (by omega)
    rw [hlength] at hround
    refine ⟨selected ++ [p], s', ?_, by rw [List.length_append, hlength, List.length_singleton], hrounds'⟩
    rw [List.range_succ, List.foldlM_append, hfold]
    change (List.foldlM (selectionRound candidates nStakeModifier) s [k]) = some s'
    rw [List.foldlM_cons, hround]
    rfl

/-! ### The next modifier -/

omit [Crypto] in
/-- The last modifier is found if there is one. -/
theorem exists_getLastStakeModifier {pindexPrev : PIndex} (h : ∃ p ∈ pindexPrev, p.generatedStakeModifier = true) :
    ∃ nStakeModifier nModifierTime, getLastStakeModifier pindexPrev = some (nStakeModifier, nModifierTime) := by
  induction pindexPrev with
  | nil =>
    obtain ⟨p, hp, -⟩ := h
    cases hp
  | cons p pprev ih =>
    rw [getLastStakeModifier]
    by_cases hp : p.generatedStakeModifier = true
    · exact ⟨_, _, if_pos hp⟩
    · rw [if_neg hp]
      apply ih
      obtain ⟨q, hq, hgenerated⟩ := h
      rcases List.mem_cons.1 hq with rfl | hq
      · exact absurd hgenerated hp
      · exact ⟨q, hq, hgenerated⟩

/-- **`ComputeNextStakeModifier` succeeds, and a new modifier has the entropy bits of different blocks**, as many as
there are candidates, up to 64, each of which is what its round should select. -/
theorem computeNextStakeModifier_spec {pindexPrev : PIndex} (hnodup : pindexPrev.hashes.Nodup)
    (hgenerated : ∃ p ∈ pindexPrev, p.generatedStakeModifier = true) :
    ∃ nStakeModifier nModifierTime nStakeModifierNew fGenerated,
      getLastStakeModifier pindexPrev = some (nStakeModifier, nModifierTime) ∧
      computeNextStakeModifier pindexPrev = some (nStakeModifierNew, fGenerated) ∧
      (fGenerated = true → ∃ selected : List CBlockIndex,
        selected.length = min 64 (candidatesOf pindexPrev).length ∧
        (selected.map CBlockIndex.hash).Nodup ∧ (∀ p ∈ selected, p ∈ candidatesOf pindexPrev) ∧
        (∀ i p, selected[i]? = some p → Chosen nStakeModifier ((selected.take i).map CBlockIndex.hash)
          (stopAt (selectionStart pindexPrev) (i + 1)) (candidatesOf pindexPrev) p) ∧
        ∀ i < 64, nStakeModifierNew.toNat.testBit i =
          selected[i]?.any fun p => decide (p.getStakeEntropyBit = 1)) := by
  obtain ⟨nStakeModifier, nModifierTime, hlast⟩ := exists_getLastStakeModifier hgenerated
  cases pindexPrev with
  | nil => cases hlast
  | cons prev pprev =>
    by_cases hfresh : prev.getBlockTime / nModifierInterval ≤ nModifierTime / nModifierInterval
    · refine ⟨nStakeModifier, nModifierTime, nStakeModifier, false, hlast, ?_, fun h => by cases h⟩
      rw [computeNextStakeModifier, hlast]
      exact if_pos hfresh
    · obtain ⟨selected, s, hfold, hlength, hrounds⟩ := rounds_eq nStakeModifier (selectionStart (prev :: pprev))
        (sorted_candidatesOf (prev :: pprev)) (nodup_candidatesOf hnodup)
        (Nat.min_le_right 64 _) (Nat.min_le_left 64 _)
      refine ⟨nStakeModifier, nModifierTime, s.nStakeModifierNew, true, hlast, ?_, fun _ =>
        ⟨selected, hlength, hrounds.nodup, hrounds.mem, hrounds.chosen, hrounds.bits⟩⟩
      have hcompute : computeNextStakeModifier (prev :: pprev) = (do
          let s ← (List.range (min 64 (candidatesOf (prev :: pprev)).length)).foldlM
            (selectionRound (candidatesOf (prev :: pprev)) nStakeModifier)
            { nSelectionIntervalStop := selectionStart (prev :: pprev) }
          some (s.nStakeModifierNew, true)) := by
        rw [computeNextStakeModifier, hlast]
        exact if_neg hfresh
      rw [hcompute, hfold]
      rfl

end Modifier

namespace ModifierSample

/-- The selection hash is the hash of the proof. -/
scoped instance crypto : Crypto where
  serializeHash tx := BitVec.ofNat 256 tx.nTime.toNat
  hash h := BitVec.ofNat 256 h.nTime.toNat
  hash9 h := BitVec.ofNat 256 h.nTime.toNat
  hashPair a _ := a
  verifySignature _ _ _ _ _ := true
  checkBlockSignature _ := true
  hashKernel _ _ _ hash _ _ := hash
  hashSelection a _ := a
  hashModifierV2 a _ := a

theorem openable_stake : (1 : UInt32) ≠ 0xffffffff := by decide

/-- An entry of a time, with a hash that is that of its proof, too. -/
def entry (hash : Uint256) (nTime : UInt32) : CBlockIndex where
  hash := hash
  nFile := 1
  nBlockPos := 0
  block :=
    { hashPrevBlock := 0
      hashMerkleRoot := 0
      nTime := nTime
      nBits := 0
      nNonce := 0
      vtx := [] }
  hashProof := hash
  openable := openable_stake

/-- Two blocks in the first section, one in the second, and the last one; the first has a modifier. -/
def a : CBlockIndex := { entry 1 7800 with generatedStakeModifier := true }
def b : CBlockIndex := entry 2 7801
def c : CBlockIndex := entry 3 7870
def prev : CBlockIndex := entry 4 12000
def path : PIndex := [prev, c, b, a]

/-- The modifier of the path is as it should be. -/
theorem path_spec : ∃ nStakeModifier nModifierTime nStakeModifierNew fGenerated,
    getLastStakeModifier path = some (nStakeModifier, nModifierTime) ∧
      computeNextStakeModifier path = some (nStakeModifierNew, fGenerated) := by
  have hnodup : path.hashes.Nodup := by decide
  obtain ⟨m, t, n, f, hlast, hnext, -⟩ := computeNextStakeModifier_spec hnodup ⟨a, by simp [path], rfl⟩
  exact ⟨m, t, n, f, hlast, hnext⟩

/-- **The second round selects a block of the first section**, though there is one of the second. -/
theorem earlier_section : candidatesOf path = [a, b, c, prev] ∧ (computeNextStakeModifier path).isSome = true ∧
    selectBlockFromCandidates [] (stopAt (selectionStart path) 1) 0 (candidatesOf path) none = some a ∧
    selectBlockFromCandidates [a.hash] (stopAt (selectionStart path) 2) 0 (candidatesOf path) none = some b ∧
    b.getBlockTime ≤ stopAt (selectionStart path) 1 ∧ stopAt (selectionStart path) 1 < c.getBlockTime ∧
    c.getBlockTime ≤ stopAt (selectionStart path) 2 := by
  decide

end ModifierSample

end PayDayCoin
