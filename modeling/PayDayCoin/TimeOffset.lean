import PayDayCoin.Library.Runs
import Mathlib.Algebra.Order.Group.Abs
import Mathlib.Algebra.Order.Ring.Int
import Mathlib.Data.List.Sort

/-!
# The correction of the clock

Each peer tells its time in its first version message, and `AddTimeData` keeps the differences to the clock of the node,
the last 200 of them, and corrects the clock by their median where their number is odd. The differences are numbers of
64 bits that the peers choose. **`addTimeData_run`**: as long as no difference is out of range or the smallest number of
all, and less than 200 peers have been sampled, the correction is small and is the median of the samples, up to the last
one. With the smallest number of all for a median, the clock is off by that (`ClockSample.clock_lost`).
-/

namespace PayDayCoin

open Library.Runs

def INT64_MIN : ℤ := -2 ^ 63
def INT64_MAX : ℤ := 2 ^ 63 - 1

/-- A number of 64 bits, as the machine keeps it. -/
def toInt64 (n : ℤ) : ℤ := Int.bmod n (2 ^ 64)

/-- `abs64`. -/
def abs64 (n : ℤ) : ℤ := if 0 ≤ n then n else toInt64 (-n)

/-! ### `CMedianFilter` -/

/-- `CMedianFilter`, of numbers of 64 bits. -/
structure CMedianFilter where
  nSize : ℕ
  vValues : List ℤ

namespace CMedianFilter

/-- `sorted`. -/
def sorted (f : CMedianFilter) : List ℤ := f.vValues.insertionSort (· ≤ ·)

/-- `input`. -/
def input (f : CMedianFilter) (value : ℤ) : CMedianFilter :=
  { f with vValues := (if f.vValues.length = f.nSize then f.vValues.tail else f.vValues) ++ [value] }

/-- `median`. -/
def median (f : CMedianFilter) : ℤ :=
  let size := f.sorted.length
  if size % 2 = 1 then f.sorted.getD (size / 2) 0
  else Int.tdiv (toInt64 (f.sorted.getD (size / 2 - 1) 0 + f.sorted.getD (size / 2) 0)) 2

end CMedianFilter

/-! ### `AddTimeData` -/

/-- What `AddTimeData` keeps. -/
structure TimeData (CNetAddr : Type) where
  setKnown : List CNetAddr := []
  vTimeOffsets : CMedianFilter := ⟨200, [0]⟩
  nTimeOffset : ℤ := 0
  /-- The user has been warned. -/
  fDone : Bool := false

/-- A version message: the peer, the time that it claims, and the time of the node. -/
structure VersionTime (CNetAddr : Type) where
  ip : CNetAddr
  nTime : ℤ
  now : ℤ

variable {CNetAddr : Type} [DecidableEq CNetAddr]

namespace TimeData

/-- The correction once there is a median of the samples. -/
def correct (s : TimeData CNetAddr) : TimeData CNetAddr :=
  let nMedian := s.vTimeOffsets.median
  if abs64 nMedian < 70 * 60 then { s with nTimeOffset := nMedian }
  else
    let fMatch := s.vTimeOffsets.sorted.any fun nOffset => nOffset ≠ 0 && abs64 nOffset < 5 * 60
    { s with nTimeOffset := 0, fDone := s.fDone || !fMatch }

/-- `AddTimeData`. -/
def addTimeData (s : TimeData CNetAddr) (e : VersionTime CNetAddr) : TimeData CNetAddr :=
  let nOffsetSample := toInt64 (e.nTime - e.now)
  if s.setKnown.contains e.ip then s
  else
    let s := { s with setKnown := e.ip :: s.setKnown, vTimeOffsets := s.vTimeOffsets.input nOffsetSample }
    if 5 ≤ s.vTimeOffsets.vValues.length ∧ s.vTimeOffsets.vValues.length % 2 = 1 then s.correct else s

/-- The numbers that `AddTimeData` subtracts or takes the absolute value of, as they should be. -/
def computed (s : TimeData CNetAddr) (e : VersionTime CNetAddr) : List ℤ :=
  let f := (s.addTimeData e).vTimeOffsets
  (e.nTime - e.now) :: if !s.setKnown.contains e.ip && 5 ≤ f.vValues.length && f.vValues.length % 2 = 1 then
    |f.median| :: f.sorted.map abs else []

/-! ### What the correction should be -/

/-- The middle of samples, the least first. -/
def middle (samples : List ℤ) : ℤ := (samples.insertionSort (· ≤ ·)).getD (samples.length / 2) 0

/-- The correction for a median. -/
def bounded (nMedian : ℤ) : ℤ := if |nMedian| < 70 * 60 then nMedian else 0

/-- The peers that have been sampled, and their samples behind the 0 that the filter starts with. -/
def sample (r : List CNetAddr × List ℤ) (e : VersionTime CNetAddr) : List CNetAddr × List ℤ :=
  if r.1.contains e.ip then r else (e.ip :: r.1, r.2 ++ [e.nTime - e.now])

/-- The correction is the median of an odd number of samples, up to the last one or the one before it. -/
def MedianOf (samples : List ℤ) (nTimeOffset : ℤ) : Prop :=
  ∃ run, (run = samples ∨ run = samples.dropLast) ∧ run.length % 2 = 1 ∧ nTimeOffset = bounded (middle run)

/-- The difference of a message is a number of 64 bits, but for the smallest one, and its peer is one of the first 199. -/
def Fits (s : TimeData CNetAddr) (e : VersionTime CNetAddr) : Prop :=
  INT64_MIN < e.nTime - e.now ∧ e.nTime - e.now ≤ INT64_MAX ∧ (e.ip ∈ s.setKnown ∨ s.setKnown.length < 199)

/-- What holds as long as every message fits. -/
structure Sampled (s : TimeData CNetAddr) (r : List CNetAddr × List ℤ) : Prop where
  nSize : s.vTimeOffsets.nSize = 200
  known : s.setKnown = r.1
  values : s.vTimeOffsets.vValues = r.2
  length : r.2.length = r.1.length + 1
  few : r.1.length ≤ 199
  range : ∀ n ∈ r.2, INT64_MIN < n ∧ n ≤ INT64_MAX
  small : |s.nTimeOffset| < 70 * 60
  median : 5 ≤ r.2.length → MedianOf r.2 s.nTimeOffset

/-! ### One message -/

theorem toInt64_eq {n : ℤ} (hmin : INT64_MIN ≤ n) (hmax : n ≤ INT64_MAX) : toInt64 n = n := by
  rw [INT64_MIN] at hmin
  rw [INT64_MAX] at hmax
  rw [toInt64, Int.bmod_eq_of_le] <;> omega

theorem abs64_eq {n : ℤ} (hmin : INT64_MIN < n) : abs64 n = |n| := by
  rw [INT64_MIN] at hmin
  rw [abs64]
  split
  · rename_i hpos
    exact (abs_of_nonneg hpos).symm
  · rename_i hneg
    rw [abs_of_neg (Int.not_le.1 hneg)]
    apply toInt64_eq
    · rw [INT64_MIN]
      omega
    · rw [INT64_MAX]
      omega

theorem abs_bounded (nMedian : ℤ) : |bounded nMedian| < 70 * 60 := by
  rw [bounded]
  split
  · assumption
  · decide

theorem middle_mem {l : List ℤ} (hne : l ≠ []) : middle l ∈ l := by
  have hlt : l.length / 2 < (l.insertionSort (· ≤ ·)).length := by
    rw [List.length_insertionSort]
    have := List.length_pos_iff.2 hne
    omega
  rw [middle, List.getD_eq_getElem?_getD, List.getElem?_eq_getElem hlt, Option.getD_some]
  exact (List.mem_insertionSort (· ≤ ·)).1 (List.getElem_mem hlt)

/-- The filter has the middle of an odd number of values. -/
theorem median_eq {f : CMedianFilter} (hodd : f.vValues.length % 2 = 1) : f.median = middle f.vValues := by
  have hlength : f.sorted.length = f.vValues.length := List.length_insertionSort _ _
  rw [CMedianFilter.median, hlength]
  exact if_pos hodd

omit [DecidableEq CNetAddr] in
/-- The correction, where no sample is the smallest number of all. -/
theorem correct_nTimeOffset {s : TimeData CNetAddr} (hodd : s.vTimeOffsets.vValues.length % 2 = 1)
    (hrange : ∀ n ∈ s.vTimeOffsets.vValues, INT64_MIN < n) :
    s.correct.nTimeOffset = bounded (middle s.vTimeOffsets.vValues) ∧ s.correct.setKnown = s.setKnown ∧
      s.correct.vTimeOffsets = s.vTimeOffsets := by
  have hne : s.vTimeOffsets.vValues ≠ [] := by
    intro hnil
    rw [hnil] at hodd
    cases hodd
  rw [correct, median_eq hodd, abs64_eq (hrange _ (middle_mem hne)), bounded]
  dsimp only
  split
  · exact ⟨rfl, rfl, rfl⟩
  · exact ⟨rfl, rfl, rfl⟩

/-- **A message that fits** keeps what holds. -/
theorem Sampled.step {s : TimeData CNetAddr} {r : List CNetAddr × List ℤ} {e : VersionTime CNetAddr} (h : s.Sampled r)
    (hfits : s.Fits e) : (s.addTimeData e).Sampled (sample r e) := by
  obtain ⟨hmin, hmax, hfew⟩ := hfits
  rw [addTimeData, sample, ← h.known, toInt64_eq hmin.le hmax]
  dsimp only
  by_cases hknown : s.setKnown.contains e.ip = true
  · rw [if_pos hknown, if_pos hknown]
    exact h
  rw [if_neg hknown, if_neg hknown]
  have hless : s.setKnown.length < 199 := hfew.resolve_left fun hmem => hknown (List.contains_iff_mem.2 hmem)
  have hlength := h.length
  rw [← h.known] at hlength
  have hinput : (s.vTimeOffsets.input (e.nTime - e.now)).vValues = r.2 ++ [e.nTime - e.now] := by
    rw [CMedianFilter.input, h.nSize, h.values, if_neg (by omega)]
  have hlong : (r.2 ++ [e.nTime - e.now]).length = r.2.length + 1 := List.length_append
  have hrange : ∀ n ∈ r.2 ++ [e.nTime - e.now], INT64_MIN < n ∧ n ≤ INT64_MAX := by
    intro n hn
    rcases List.mem_append.1 hn with hn | hn
    · exact h.range n hn
    · rw [List.mem_singleton.1 hn]
      exact ⟨hmin, hmax⟩
  rw [hinput]
  by_cases hodd : 5 ≤ (r.2 ++ [e.nTime - e.now]).length ∧ (r.2 ++ [e.nTime - e.now]).length % 2 = 1
  · rw [if_pos hodd]
    obtain ⟨hoffset, hset, hfilter⟩ := correct_nTimeOffset
      (s := { s with setKnown := e.ip :: s.setKnown, vTimeOffsets := s.vTimeOffsets.input (e.nTime - e.now) })
      (by rw [hinput]; exact hodd.2) (by rw [hinput]; exact fun n hn => (hrange n hn).1)
    rw [hinput] at hoffset
    refine ⟨?_, hset, ?_, ?_, ?_, hrange, ?_, fun _ => ⟨_, .inl rfl, hodd.2, hoffset⟩⟩
    · rw [hfilter]
      exact h.nSize
    · rw [hfilter]
      exact hinput
    · rw [hlong, List.length_cons, hlength]
    · rw [List.length_cons]
      omega
    · rw [hoffset]
      exact abs_bounded _
  · rw [if_neg hodd]
    refine ⟨h.nSize, rfl, hinput, ?_, ?_, hrange, h.small, fun hfive => ?_⟩
    · rw [hlong, List.length_cons, hlength]
    · rw [List.length_cons]
      omega
    · have hfive' : 5 ≤ (r.2 ++ [e.nTime - e.now]).length := hfive
      have heven : (r.2 ++ [e.nTime - e.now]).length % 2 = 0 := by omega
      obtain ⟨run, hrun, hrunodd, hoffset⟩ := h.median (by omega)
      refine ⟨run, .inr ?_, hrunodd, hoffset⟩
      rw [List.dropLast_concat]
      rcases hrun with rfl | rfl
      · rfl
      · rw [List.length_dropLast] at hrunodd
        omega

/-! ### Runs -/

/-- Nothing that is computed for a message that fits is out of range. -/
theorem Sampled.computed_range {s : TimeData CNetAddr} {r : List CNetAddr × List ℤ} {e : VersionTime CNetAddr}
    (h : s.Sampled r) (hfits : s.Fits e) : ∀ n ∈ s.computed e, INT64_MIN ≤ n ∧ n ≤ INT64_MAX := by
  have hafter := h.step hfits
  have habs : ∀ n ∈ (s.addTimeData e).vTimeOffsets.vValues, INT64_MIN ≤ |n| ∧ |n| ≤ INT64_MAX := by
    intro n hn
    rw [hafter.values] at hn
    obtain ⟨hmin, hmax⟩ := hafter.range n hn
    refine ⟨le_trans (by decide) (abs_nonneg n), abs_le.2 ⟨?_, hmax⟩⟩
    rw [INT64_MIN] at hmin
    rw [INT64_MAX]
    omega
  intro n hn
  rw [computed] at hn
  rcases List.mem_cons.1 hn with rfl | hn
  · exact ⟨hfits.1.le, hfits.2.1⟩
  split at hn
  · rename_i hcond
    rw [Bool.and_eq_true, Bool.and_eq_true, decide_eq_true_eq, decide_eq_true_eq] at hcond
    rcases List.mem_cons.1 hn with rfl | hn
    · rw [median_eq hcond.2]
      apply habs _ (middle_mem _)
      intro hnil
      rw [hnil] at hcond
      exact absurd hcond.2 (by decide)
    · obtain ⟨n', hn', rfl⟩ := List.mem_map.1 hn
      exact habs n' ((List.mem_insertionSort (· ≤ ·)).1 hn')
  · cases hn

theorem Sampled.run {s : TimeData CNetAddr} {r : List CNetAddr × List ℤ} {events : List (VersionTime CNetAddr)}
    (h : s.Sampled r) (hfits : Along addTimeData Fits s events) :
    (Library.Runs.run addTimeData s events).Sampled (events.foldl sample r) := by
  induction events generalizing s r with
  | nil => exact h
  | cons e events ih => exact ih (h.step hfits.1) hfits.2

/-- **The correction after any messages that fit** is less than 70 minutes, and the median of the samples if there are
at least five peers. Nothing is out of range. -/
theorem addTimeData_run {events : List (VersionTime CNetAddr)} (h : Along addTimeData Fits {} events) :
    let s := Library.Runs.run addTimeData {} events
    let r := events.foldl sample ([], [0])
    |s.nTimeOffset| < 70 * 60 ∧ s.setKnown = r.1 ∧ r.2.length ≤ 200 ∧
      (5 ≤ r.1.length → MedianOf r.2 s.nTimeOffset) ∧
      ∀ e, s.Fits e → ∀ n ∈ s.computed e, INT64_MIN ≤ n ∧ n ≤ INT64_MAX := by
  have hstart : ({} : TimeData CNetAddr).Sampled ([], [0]) := by
    refine ⟨rfl, rfl, rfl, rfl, Nat.zero_le _, fun n hn => ?_, ?_, fun hfive => ?_⟩
    · rw [List.mem_singleton.1 hn]
      decide
    · change |(0 : ℤ)| < 70 * 60
      decide
    · change 5 ≤ 1 at hfive
      omega
  have hsampled := hstart.run h
  refine ⟨hsampled.small, hsampled.known, ?_, fun hfive => hsampled.median ?_, fun e he => hsampled.computed_range he⟩
  · rw [hsampled.length]
    exact Nat.succ_le_succ hsampled.few
  · rw [hsampled.length]
    omega

end TimeData

namespace ClockSample

/-- Messages at time 1000 from peers with the numbers from 1 on. -/
def told (times : List ℤ) : List (VersionTime ℕ) := times.mapIdx fun i nTime => ⟨i + 1, nTime, 1000⟩

/-- Four peers are a little ahead. -/
theorem four_ahead : |(run TimeData.addTimeData {} (told [1010, 1020, 1030, 1040])).nTimeOffset| < 70 * 60 := by
  have hfits : Along TimeData.addTimeData TimeData.Fits {} (told [1010, 1020, 1030, 1040]) := by
    refine ⟨⟨by decide, by decide, .inr (by decide)⟩, ⟨by decide, by decide, .inr (by decide)⟩,
      ⟨by decide, by decide, .inr (by decide)⟩, ⟨by decide, by decide, .inr (by decide)⟩, trivial⟩
  exact (TimeData.addTimeData_run hfits).1

/-- **The clock is lost**: the median is the smallest number of all, which `abs64` does not change. -/
theorem clock_lost : (run TimeData.addTimeData {}
    (told [1000 - 2 ^ 63, 1000 - 2 ^ 63, 1000 - 2 ^ 63, 1000 - 2 ^ 63])).nTimeOffset = -2 ^ 63 := by
  decide

end ClockSample

end PayDayCoin
