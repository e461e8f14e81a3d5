import PayDayCoin.Block
import Mathlib.Tactic.Ring

/-!
# The next target

`GetNextTargetRequired` moves the target of the last block of a kind by how far the spacing of the last two such blocks
is from the target spacing, and writes it with a mantissa of 24 bits. Writing it rounds it down by less than one part in
`2 ^ 15` (**`compact_spec`**, `lt_compact`), and never below a number that has a compact form itself (`le_compact`).

The next target is always positive and within the limit. It moves the right way and by a bounded factor, unless the target
becomes 0, which only a target of 1 does: then the limit takes its place (**`nextTarget_bounds`**,
`TargetSample.target_jumps`). There is no upper bound on the spacing but that of 32-bit times.
-/

namespace PayDayCoin

/-! ### Compact numbers -/

/-- What is left of a magnitude in compact form: its three leading bytes. -/
def compactOf (n : ℕ) : ℕ := n / 256 ^ (mpiSize n - 3) * 256 ^ (mpiSize n - 3)

theorem lt_two_pow_mpiSize {n : ℕ} (hn : n ≠ 0) : n < 2 ^ (8 * mpiSize n - 1) := by
  refine Nat.lt_log2_self.trans_le (Nat.pow_le_pow_right (by decide) ?_)
  rw [mpiSize, if_neg hn]
  omega

theorem two_pow_le_of_mpiSize {n : ℕ} (hn : n ≠ 0) (hsize : 2 ≤ mpiSize n) : 2 ^ (8 * mpiSize n - 9) ≤ n := by
  refine (Nat.pow_le_pow_right (by decide) ?_).trans (Nat.log2_self_le hn)
  rw [mpiSize, if_neg hn] at hsize ⊢
  omega

theorem pow_256 (k : ℕ) : 256 ^ k = 2 ^ (8 * k) := by
  rw [pow_mul]
  rfl

/-- The mantissa fits. -/
theorem mantissa_lt {n : ℕ} (hsize : 3 < mpiSize n) : n / 256 ^ (mpiSize n - 3) < 2 ^ 23 := by
  have hn : n ≠ 0 := by
    rintro rfl
    exact absurd hsize (by decide)
  rw [Nat.div_lt_iff_lt_mul (Nat.pow_pos (by decide)), pow_256, ← pow_add]
  exact (lt_two_pow_mpiSize hn).trans_le (Nat.pow_le_pow_right (by decide) (by omega))

/-- The mantissa has its top bits. -/
theorem le_mantissa {n : ℕ} (hsize : 3 < mpiSize n) : 2 ^ 15 ≤ n / 256 ^ (mpiSize n - 3) := by
  have hn : n ≠ 0 := by
    rintro rfl
    exact absurd hsize (by decide)
  rw [Nat.le_div_iff_mul_le (Nat.pow_pos (by decide)), pow_256, ← pow_add]
  exact (Nat.pow_le_pow_right (by decide) (by omega)).trans (two_pow_le_of_mpiSize hn (by omega))

theorem mpiSize_le {n : ℕ} (hn : n < 2 ^ 256) : mpiSize n ≤ 33 := by
  rw [mpiSize]
  split
  · omega
  · next hne =>
    have hlog : Nat.log2 n < 256 := (Nat.log2_lt hne).2 hn
    omega

/-- A compact form, taken apart. -/
theorem setCompact_of_parts {nSize word : ℕ} (hsize : nSize < 256) (hword : word < 8388608) :
    setCompact (UInt32.ofNat (nSize * 2 ^ 24 + word)) =
      (if nSize ≤ 3 then word / 256 ^ (3 - nSize) else word * 256 ^ (nSize - 3) : ℕ) := by
  have hnat : (UInt32.ofNat (nSize * 2 ^ 24 + word)).toNat = nSize * 2 ^ 24 + word := by
    rw [UInt32.toNat_ofNat']
    omega
  have hfirst : (nSize * 2 ^ 24 + word) / 2 ^ 24 = nSize := by omega
  have hrest : (nSize * 2 ^ 24 + word) % 2 ^ 23 = word := by omega
  have hsign : (nSize * 2 ^ 24 + word) / 2 ^ 23 % 2 = 0 := by omega
  rw [setCompact, hnat, hfirst, hrest, hsign, if_neg (by decide)]

/-- The mantissa of the compact form. -/
def compactWord (n : ℕ) : ℕ := if mpiSize n ≤ 3 then n * 256 ^ (3 - mpiSize n) else n / 256 ^ (mpiSize n - 3)

theorem getCompact_eq (n : ℕ) : getCompact n = UInt32.ofNat (mpiSize n * 2 ^ 24 + compactWord n) := by
  have hpos : ¬((n : ℤ) < 0) := by omega
  rw [getCompact, Int.natAbs_natCast, if_neg hpos, Nat.add_zero, compactWord]

theorem compactWord_lt (n : ℕ) : compactWord n < 2 ^ 23 := by
  rw [compactWord]
  by_cases hsmall : mpiSize n ≤ 3
  · rw [if_pos hsmall]
    by_cases hzero : n = 0
    · simp [hzero]
    · have hone : 1 ≤ mpiSize n := by
        rw [mpiSize, if_neg hzero]
        omega
      have hlt := Nat.mul_lt_mul_of_pos_right (lt_two_pow_mpiSize hzero)
        (Nat.pow_pos (n := 3 - mpiSize n) (show 0 < 256 by decide))
      refine hlt.trans_le ?_
      rw [pow_256, ← pow_add]
      exact Nat.pow_le_pow_right (n := 2) (by decide) (show _ ≤ 23 by omega)
  · rw [if_neg hsmall]
    exact mantissa_lt (not_le.1 hsmall)

/-- A number whose size fits in a byte, written and read. -/
theorem compact_spec_of_size {n : ℕ} (hsize : mpiSize n < 256) : setCompact (getCompact n) = compactOf n := by
  rw [getCompact_eq, setCompact_of_parts hsize (compactWord_lt n), compactWord, compactOf]
  by_cases hsmall : mpiSize n ≤ 3
  · rw [if_pos hsmall, if_pos hsmall, Nat.mul_div_cancel _ (Nat.pow_pos (by decide)), Nat.sub_eq_zero_of_le hsmall]
    simp
  · rw [if_neg hsmall, if_neg hsmall]

/-- A number of 256 bits, written and read. -/
theorem compact_spec {n : ℕ} (hn : n < 2 ^ 256) : setCompact (getCompact n) = compactOf n :=
  compact_spec_of_size ((mpiSize_le hn).trans_lt (by decide))

theorem compactOf_le (n : ℕ) : compactOf n ≤ n := Nat.div_mul_le_self _ _

/-- What is lost is less than one part in `2 ^ 15`. -/
theorem lt_compactOf {n : ℕ} (hn : 0 < n) : n * 32768 < compactOf n * 32769 := by
  rw [compactOf]
  by_cases hsmall : mpiSize n ≤ 3
  · rw [Nat.sub_eq_zero_of_le hsmall, pow_zero, Nat.div_one, Nat.mul_one]
    omega
  · have hm := le_mantissa (not_le.1 hsmall)
    have hdiv := Nat.lt_div_mul_add (a := n) (Nat.pow_pos (n := mpiSize n - 3) (show 0 < 256 by decide))
    generalize 256 ^ (mpiSize n - 3) = B at hm hdiv ⊢
    have hB : 2 ^ 15 * B ≤ n / B * B := Nat.mul_le_mul_right B hm
    generalize n / B * B = c at hB hdiv ⊢
    omega

/-- A number of at most 23 bits and some bytes of zeros. -/
def Short (a : ℕ) : Prop := ∃ m k, a = m * 256 ^ k ∧ m < 2 ^ 23

/-- A short number stays below what it is below when that is written in compact form. -/
theorem le_compactOf {a b : ℕ} (ha : Short a) (h : a ≤ b) : a ≤ compactOf b := by
  obtain ⟨m, k, rfl, hm⟩ := ha
  by_cases hsmall : mpiSize b ≤ 3
  · rwa [compactOf, Nat.sub_eq_zero_of_le hsmall, pow_zero, Nat.div_one, Nat.mul_one]
  · rw [compactOf]
    by_cases hk : mpiSize b - 3 ≤ k
    · obtain ⟨j, rfl⟩ := Nat.exists_eq_add_of_le hk
      rw [pow_add, ← mul_assoc, mul_right_comm] at h ⊢
      exact Nat.mul_le_mul_right _ ((Nat.le_div_iff_mul_le (Nat.pow_pos (by decide))).2 h)
    · refine le_trans ?_ (Nat.mul_le_mul_right _ (le_mantissa (not_le.1 hsmall)))
      have hlt : m * 256 ^ k ≤ 2 ^ 23 * 256 ^ k := Nat.mul_le_mul_right _ hm.le
      refine hlt.trans ?_
      rw [pow_256, pow_256, ← pow_add, ← pow_add]
      exact Nat.pow_le_pow_right (by decide) (by omega)

/-- A positive target is short. -/
theorem short_of_setCompact {nBits : UInt32} (h : 0 < setCompact nBits) :
    ∃ a : ℕ, setCompact nBits = a ∧ Short a := by
  rw [setCompact] at h ⊢
  have hword : nBits.toNat % 2 ^ 23 < 2 ^ 23 := Nat.mod_lt _ (by decide)
  split
  · next hsign =>
    rw [if_pos hsign] at h
    omega
  · refine ⟨_, rfl, ?_⟩
    split
    · exact ⟨_, 0, (Nat.mul_one _).symm, (Nat.div_le_self _ _).trans_lt hword⟩
    · exact ⟨_, _, rfl, hword⟩

/-- A number of 256 bits that is positive, written and read. -/
theorem compact_bounds {n : ℤ} (hpos : 0 < n) (hlt : n < 2 ^ 256) :
    0 < setCompact (getCompact n) ∧ setCompact (getCompact n) ≤ n ∧
      n * 32768 < setCompact (getCompact n) * 32769 ∧
      ∀ nBits, 0 < setCompact nBits → setCompact nBits ≤ n → setCompact nBits ≤ setCompact (getCompact n) := by
  obtain ⟨k, rfl⟩ := Int.eq_ofNat_of_zero_le hpos.le
  have hspec := compact_spec (n := k) (by exact_mod_cast hlt)
  have hle := compactOf_le k
  have hlost := lt_compactOf (n := k) (by omega)
  rw [hspec]
  refine ⟨by omega, by omega, by omega, fun nBits h hbits => ?_⟩
  obtain ⟨a, ha, hshort⟩ := short_of_setCompact h
  rw [ha] at hbits ⊢
  exact_mod_cast le_compactOf hshort (by omega)

/-! ### The step -/

section Step

variable (params : CChainParams) (fProofOfStake : Bool)

/-- `bnTargetLimit`. -/
def targetLimit : ℤ := if fProofOfStake then params.proofOfStakeLimit else params.proofOfWorkLimit

/-- The last block of a kind has target `T`, and its spacing from the one before it is `s`. -/
def LastTarget (pindexLast : PIndex) (T s : ℤ) : Prop :=
  ∃ prev p pprev prevPrev q qprev, PIndex.getLastBlockIndex fProofOfStake pindexLast = prev :: p :: pprev ∧
    PIndex.getLastBlockIndex fProofOfStake (p :: pprev) = prevPrev :: q :: qprev ∧
    T = setCompact prev.block.nBits ∧ s = prev.getBlockTime - prevPrev.getBlockTime

/-- `nActualSpacing`: an earlier time than that of the block before counts as the target spacing. -/
def actualSpacing (s : ℤ) : ℤ := if s < 0 then TARGET_SPACING else s

/-- `bnNew` before it is compared with the limit. -/
def movedTarget (T s : ℤ) : ℤ := (T * (480 + actualSpacing s + actualSpacing s)).tdiv 720

variable {params fProofOfStake} {pindexLast : PIndex} {T s : ℤ}

theorem getNextTargetRequired_of_lastTarget (h : LastTarget fProofOfStake pindexLast T s) :
    getNextTargetRequired params pindexLast fProofOfStake =
      getCompact (if movedTarget T s ≤ 0 ∨ targetLimit params fProofOfStake < movedTarget T s then
        targetLimit params fProofOfStake else movedTarget T s) := by
  obtain ⟨prev, p, pprev, prevPrev, q, qprev, hprev, hprevPrev, rfl, rfl⟩ := h
  rw [getNextTargetRequired, hprev]
  simp only [hprevPrev]
  rfl

/-- Without two blocks of the kind above the genesis block it is the limit. -/
theorem getNextTargetRequired_cases (params : CChainParams) (pindexLast : PIndex) (fProofOfStake : Bool) :
    getNextTargetRequired params pindexLast fProofOfStake = getCompact (targetLimit params fProofOfStake) ∨
      ∃ T s, LastTarget fProofOfStake pindexLast T s := by
  rw [getNextTargetRequired]
  rcases hprev : PIndex.getLastBlockIndex fProofOfStake pindexLast with _ | ⟨prev, _ | ⟨p, pprev⟩⟩
  · exact .inl rfl
  · exact .inl rfl
  · rcases hprevPrev : PIndex.getLastBlockIndex fProofOfStake (p :: pprev) with _ | ⟨prevPrev, _ | ⟨q, qprev⟩⟩
    · exact .inl (by simp only [hprevPrev]; rfl)
    · exact .inl (by simp only [hprevPrev]; rfl)
    · exact .inr ⟨_, _, prev, p, pprev, prevPrev, q, qprev, hprev, hprevPrev, rfl, rfl⟩

/-- The spacing is one of 32-bit times. -/
theorem spacing_lt (h : LastTarget fProofOfStake pindexLast T s) : s < 4294967296 := by
  obtain ⟨prev, p, pprev, prevPrev, q, qprev, -, -, -, rfl⟩ := h
  have hprev := prev.block.nTime.toNat_lt
  simp only [CBlockIndex.getBlockTime, CBlock.getBlockTime]
  omega

/-- How far a positive target moves. -/
theorem movedTarget_bounds (hT : 0 < T) (hs : s < 4294967296) :
    (s ≤ 120 → movedTarget T s ≤ T) ∧ (120 ≤ s → T ≤ movedTarget T s) ∧ T * 480 < movedTarget T s * 720 + 720 ∧
      movedTarget T s ≤ 11930466 * T ∧ (s < 0 ∨ 120 ≤ s → T ≤ movedTarget T s) := by
  have hact : 0 ≤ actualSpacing s ∧ actualSpacing s < 4294967296 ∧ (s ≤ 120 → actualSpacing s ≤ 120) ∧
      (s < 0 ∨ 120 ≤ s → 120 ≤ actualSpacing s) := by
    rw [actualSpacing, TARGET_SPACING]
    split <;> omega
  obtain ⟨h0, hlt, hfast, hslow⟩ := hact
  generalize hw : 480 + actualSpacing s + actualSpacing s = w
  have hlow : T * 480 ≤ T * w := Int.mul_le_mul_of_nonneg_left (by omega) hT.le
  have hhigh : T * w ≤ T * 8589935070 := Int.mul_le_mul_of_nonneg_left (by omega) hT.le
  have hdown : s ≤ 120 → T * w ≤ T * 720 := fun h =>
    Int.mul_le_mul_of_nonneg_left (by have := hfast h; omega) hT.le
  have hup : s < 0 ∨ 120 ≤ s → T * 720 ≤ T * w := fun h =>
    Int.mul_le_mul_of_nonneg_left (by have := hslow h; omega) hT.le
  rw [movedTarget, hw, Int.tdiv_eq_ediv_of_nonneg (by omega)]
  generalize T * w = P at hlow hhigh hdown hup ⊢
  refine ⟨fun h => ?_, fun h => ?_, by omega, by omega, fun h => ?_⟩
  · have := hdown h
    omega
  · have := hup (.inr h)
    omega
  · have := hup h
    omega

end Step

/-- The next target is positive and within the limit. If the last target `T` of the kind is within the limit, and is not 1
after a spacing below the target spacing, then a spacing `s` of at most the target spacing does not raise it, one of at
least the target spacing does not lower it, and it changes by a factor between a third and that of the longest spacing of
32-bit times. -/
theorem nextTarget_bounds (params : CChainParams) (fProofOfStake : Bool) (hpos : 0 < targetLimit params fProofOfStake)
    (hlt : targetLimit params fProofOfStake < 2 ^ 256) (pindexLast : PIndex) :
    (0 < setCompact (getNextTargetRequired params pindexLast fProofOfStake) ∧
      setCompact (getNextTargetRequired params pindexLast fProofOfStake) ≤ targetLimit params fProofOfStake) ∧
    ∀ T s, LastTarget fProofOfStake pindexLast T s → 0 < T → T ≤ targetLimit params fProofOfStake →
      (T = 1 → s < 0 ∨ TARGET_SPACING ≤ s) →
        (s ≤ TARGET_SPACING → setCompact (getNextTargetRequired params pindexLast fProofOfStake) ≤ T) ∧
        (TARGET_SPACING ≤ s → T ≤ setCompact (getNextTargetRequired params pindexLast fProofOfStake)) ∧
        T ≤ 3 * setCompact (getNextTargetRequired params pindexLast fProofOfStake) ∧
        setCompact (getNextTargetRequired params pindexLast fProofOfStake) ≤ 11930466 * T := by
  obtain ⟨hlimpos, hlimle, -, hlimabove⟩ := compact_bounds hpos hlt
  refine ⟨?_, fun T s hlast hT hTle hone => ?_⟩
  · rcases getNextTargetRequired_cases params pindexLast fProofOfStake with hlimit | ⟨T, s, hlast⟩
    · rw [hlimit]
      exact ⟨hlimpos, hlimle⟩
    · rw [getNextTargetRequired_of_lastTarget hlast]
      split
      · exact ⟨hlimpos, hlimle⟩
      · next hin =>
        obtain ⟨hpos', hle', -⟩ := compact_bounds (n := movedTarget T s) (by omega) (by omega)
        exact ⟨hpos', by omega⟩
  · obtain ⟨hdown, hup, hlow, hhigh, hstay⟩ := movedTarget_bounds hT (spacing_lt hlast)
    obtain ⟨prev, -, -, -, -, -, -, -, hbits, -⟩ := id hlast
    rw [getNextTargetRequired_of_lastTarget hlast]
    simp only [TARGET_SPACING] at hone ⊢
    have hmoved : 0 < movedTarget T s := by
      by_cases h1 : T = 1
      · have := hstay (hone h1)
        omega
      · omega
    split
    · next hout =>
      have habove : T ≤ setCompact (getCompact (targetLimit params fProofOfStake)) := by
        have hlimabove := hlimabove prev.block.nBits
        rw [← hbits] at hlimabove
        exact hlimabove hT hTle
      refine ⟨fun h => ?_, fun h => habove, by omega, by omega⟩
      have := hdown h
      omega
    · next hin =>
      obtain ⟨hpos', hle', hlost, habove⟩ := compact_bounds (n := movedTarget T s) hmoved (by omega)
      refine ⟨fun h => ?_, fun h => ?_, ?_, by omega⟩
      · have := hdown h
        omega
      · have := hup h
        have habove := habove prev.block.nBits
        rw [← hbits] at habove
        exact habove hT this
      · clear hlt hin hlimle hlimpos
        by_cases h1 : T = 1
        · omega
        · omega

namespace TargetSample

theorem openable_one : (1 : UInt32) ≠ 0xffffffff := by decide

/-- A proof-of-work block with a target and a time. -/
def entry (nBits nTime : UInt32) : CBlockIndex where
  hash := 0
  nFile := 1
  nBlockPos := 0
  block := ⟨⟨7, 0, 0, nTime, nBits, 0⟩, [], []⟩
  openable := openable_one

/-- A chain whose last two blocks have one time, and the last of them the target `nBits`. -/
def chain (nBits : UInt32) : PIndex := [entry nBits 1000, entry 0x1f00ffff 1000, entry 0x1f00ffff 0]

/-- The target 1 becomes 0 after a spacing of 0 seconds, and the limit takes its place. -/
theorem target_jumps : LastTarget false (chain 0x01010000) 1 0 ∧
    1 < setCompact (getNextTargetRequired CChainParams.main (chain 0x01010000) false) ∧
    getNextTargetRequired CChainParams.main (chain 0x01010000) false =
      getCompact (targetLimit CChainParams.main false) := by
  have hlast : LastTarget false (chain 0x01010000) 1 0 :=
    ⟨_, _, _, _, _, _, rfl, rfl, by decide, by decide⟩
  have hnext : getNextTargetRequired CChainParams.main (chain 0x01010000) false =
      getCompact (targetLimit CChainParams.main false) := by decide
  exact ⟨hlast, by decide, hnext⟩

theorem bounds_of_chain : 0 < setCompact (getNextTargetRequired CChainParams.main (chain 0x01020000) false) ∧
    setCompact (getNextTargetRequired CChainParams.main (chain 0x01020000) false) ≤ 2 := by
  have hlast : LastTarget false (chain 0x01020000) 2 0 :=
    ⟨_, _, _, _, _, _, rfl, rfl, by decide, by decide⟩
  obtain ⟨⟨hpos, -⟩, hstep⟩ := nextTarget_bounds CChainParams.main false (by decide) (by decide)
    (chain 0x01020000)
  exact ⟨hpos, (hstep 2 0 hlast (by decide) (by decide) (by decide)).1 (by decide)⟩

end TargetSample

end PayDayCoin
