import PayDayCoin.Masternode
import Mathlib.Data.Finset.Card
import Mathlib.Tactic.IntervalCases

/-!
# Drawing a masternode

`FindRandomNotInVec` draws one of the enabled masternodes that are not excluded. The number it draws is below the number of
enabled masternodes less that of the exclusions, which is unsigned; and the scan counts it down before it compares, so that
0 and 1 both stop at the first masternode.

**`drawsRight_iff`**: the draw is right if and only if there is nothing to draw, or one masternode and one or two numbers.
-/

namespace PayDayCoin

/-- What `FindRandomNotInVec` is called with, and reads of the rest of the node. -/
structure MasternodeDraw where
  env : MasternodeEnv
  man : CMasternodeMan
  vecToExclude : List CTxIn
  protocolVersion : ℤ
  /-- `masternodePayments.GetMinMasternodePaymentsProto()`. -/
  minPaymentsProto : ℤ

namespace MasternodeDraw

variable (d : MasternodeDraw)

/-- The protocol version that is asked for. -/
def protocol : ℤ := if d.protocolVersion = -1 then d.minPaymentsProto else d.protocolVersion

/-- `CMasternodeMan::CountEnabled`, an `int`. -/
def countEnabled : ℤ := Int.bmod (d.man.eligible d.env d.protocol true).length (2 ^ 32)

/-- `nCountEnabled - vecToExclude.size()`, which is unsigned. -/
def nCandidates : UInt64 := UInt64.ofInt d.countEnabled - UInt64.ofNat d.vecToExclude.length

/-- The number of results of `GetRandInt(nMax)`, which all have the same chance. -/
def nDraws : ℕ := max 1 (UInt64.ofInt (Int.bmod d.nCandidates.toNat (2 ^ 32))).toNat

/-- A masternode that the scan does not pass over. -/
def isCandidate (mn : CMasternode) : Bool :=
  !(mn.protocolVersion < d.protocol || !mn.isEnabled) && !d.vecToExclude.any fun usedVin => mn.vin.prevout == usedVin.prevout

/-- The scan, over the masternodes and their places. -/
def findLoop : ℤ → List (CMasternode × ℕ) → Option (CMasternode × ℕ)
  | _, [] => none
  | rand, e :: l =>
    if !d.isCandidate e.1 then findLoop rand l
    else if rand - 1 < 1 then some e
    else findLoop (rand - 1) l

/-- The masternodes as `CountEnabled` leaves them, with their places. -/
def places : List (CMasternode × ℕ) := (d.man.vMasternodes.map fun mn => mn.check d.env).zipIdx

/-- `CMasternodeMan::FindRandomNotInVec`, with what `GetRand` draws: the masternode and its place. -/
def findRandomNotInVec (draw : ℕ) : Option (CMasternode × ℕ) :=
  if d.nCandidates < 1 then none else d.findLoop (Int.bmod draw (2 ^ 32)) d.places

/-! ### What a draw is for -/

/-- The masternodes that may be drawn. -/
def candidates : List (CMasternode × ℕ) := d.places.filter fun e => d.isCandidate e.1

/-- The draws that give a masternode. -/
def drawsOf (e : CMasternode × ℕ) : Finset ℕ :=
  (Finset.range d.nDraws).filter fun draw => d.findRandomNotInVec draw = some e

/-- A draw gives a candidate if there is one, each can be drawn, and all have the same chance. -/
structure DrawsRight : Prop where
  none : d.candidates = [] → ∀ draw < d.nDraws, d.findRandomNotInVec draw = none
  found : d.candidates ≠ [] → ∀ draw < d.nDraws, ∃ e ∈ d.candidates, d.findRandomNotInVec draw = some e
  possible : ∀ e ∈ d.candidates, (d.drawsOf e).Nonempty
  equal : ∀ e ∈ d.candidates, ∀ e' ∈ d.candidates, (d.drawsOf e).card = (d.drawsOf e').card

/-! ### What the scan finds -/

/-- The scan finds a candidate by the number, where 0 and 1 are alike. -/
theorem findLoop_eq (rand : ℤ) (l : List (CMasternode × ℕ)) :
    d.findLoop rand l = (l.filter fun e => d.isCandidate e.1)[(rand - 1).toNat]? := by
  let p (e : CMasternode × ℕ) : Bool := d.isCandidate e.1
  induction l generalizing rand with
  | nil => rfl
  | cons e l ih =>
    rw [findLoop]
    by_cases hcand : d.isCandidate e.1 = true
    · rw [hcand, Bool.not_true, if_neg Bool.false_ne_true, List.filter_cons_of_pos (p := p) hcand]
      by_cases hlast : rand - 1 < 1
      · have hzero : (rand - 1).toNat = 0 := by omega
        rw [if_pos hlast, hzero, List.getElem?_cons_zero]
      · have hsucc : (rand - 1).toNat = (rand - 1 - 1).toNat + 1 := by omega
        rw [if_neg hlast, hsucc, List.getElem?_cons_succ, ih]
    · rw [Bool.eq_false_iff.2 hcand, Bool.not_false, if_pos rfl, List.filter_cons_of_neg (p := p) hcand, ih]

theorem candidates_nodup : d.candidates.Nodup :=
  (List.Nodup.of_map Prod.snd (by
    rw [places, List.zipIdx_map_snd]
    exact List.nodup_range')).filter _

theorem find_eq (draw : ℕ) : d.findRandomNotInVec draw =
    if d.nCandidates = 0 then none else d.candidates[(Int.bmod draw (2 ^ 32) - 1).toNat]? := by
  have hzero : d.nCandidates < 1 ↔ d.nCandidates = 0 := by
    rw [UInt64.lt_iff_toNat_lt, ← UInt64.toNat_inj]
    exact Nat.lt_one_iff
  rw [findRandomNotInVec, findLoop_eq, candidates]
  simp only [hzero]

/-- At most two numbers are drawn if and only if the low bits say so. -/
theorem nDraws_le_two : d.nDraws ≤ 2 ↔ d.nCandidates.toNat % 2 ^ 32 ≤ 2 := by
  have hlt := d.nCandidates.toNat_lt
  rw [nDraws, UInt64.ofInt, UInt64.toNat_ofNat', Int.bmod]
  split <;> omega

/-- The first candidate has more draws than the second. -/
theorem card_drawsOf_lt (hn : d.nCandidates ≠ 0) (htwo : 1 < d.candidates.length) :
    (d.drawsOf d.candidates[1]).card < (d.drawsOf d.candidates[0]).card := by
  -- one draw gives the second candidate, and the two in front of it the first
  have hdraw : ∀ draw ∈ d.drawsOf d.candidates[1], draw < d.nDraws ∧ Int.bmod draw (2 ^ 32) = 2 := by
    intro draw hdraw
    obtain ⟨hlt, hfind⟩ := Finset.mem_filter.1 hdraw
    rw [find_eq, if_neg hn, ← List.getElem?_eq_getElem htwo] at hfind
    have hindex := (List.getElem?_inj htwo d.candidates_nodup).1 hfind.symm
    exact ⟨Finset.mem_range.1 hlt, by omega⟩
  have hfirst : ∀ draw < d.nDraws, Int.bmod draw (2 ^ 32) ≤ 1 → draw ∈ d.drawsOf d.candidates[0] := by
    intro draw hlt hsmall
    refine Finset.mem_filter.2 ⟨Finset.mem_range.2 hlt, ?_⟩
    have hindex : (Int.bmod draw (2 ^ 32) - 1).toNat = 0 := by omega
    rw [find_eq, if_neg hn, hindex, List.getElem?_eq_getElem]
  have hbefore : ∀ draw ∈ d.drawsOf d.candidates[1], 0 < draw - 1 ∧ draw - 1 < d.nDraws ∧
      Int.bmod (draw - 1 : ℕ) (2 ^ 32) ≤ 1 := by
    intro draw hmem
    obtain ⟨hlt, htwo⟩ := hdraw draw hmem
    simp only [Int.bmod] at htwo ⊢
    split at htwo <;> split <;> omega
  have hzero : 0 ∉ (d.drawsOf d.candidates[1]).image (· - 1) := by
    intro hmem
    obtain ⟨draw, hmem, heq⟩ := Finset.mem_image.1 hmem
    have := (hbefore draw hmem).1
    omega
  have hinj : Set.InjOn (· - 1) (d.drawsOf d.candidates[1] : Set ℕ) := by
    intro a ha b hb heq
    have ha := (hbefore a ha).1
    have hb := (hbefore b hb).1
    dsimp only at heq
    omega
  calc (d.drawsOf d.candidates[1]).card
      = ((d.drawsOf d.candidates[1]).image (· - 1)).card := (Finset.card_image_of_injOn hinj).symm
    _ < (insert 0 ((d.drawsOf d.candidates[1]).image (· - 1))).card := by
      rw [Finset.card_insert_of_notMem hzero]
      exact Nat.lt_succ_self _
    _ ≤ (d.drawsOf d.candidates[0]).card := by
      refine Finset.card_le_card fun draw hmem => ?_
      rcases Finset.mem_insert.1 hmem with rfl | hmem
      · exact hfirst 0 (lt_of_lt_of_le Nat.one_pos (le_max_left _ _)) (by simp)
      · obtain ⟨later, hlater, heq⟩ := Finset.mem_image.1 hmem
        obtain ⟨-, hlt, hsmall⟩ := hbefore later hlater
        rw [← heq]
        exact hfirst (later - 1) hlt hsmall

/-- **The draw is right if and only if** no masternode may be drawn; or one may, and the unsigned difference is not 0 and
leaves at most two numbers. -/
theorem drawsRight_iff :
    d.DrawsRight ↔
      d.candidates = [] ∨ d.candidates.length = 1 ∧ d.nCandidates ≠ 0 ∧ d.nCandidates.toNat % 2 ^ 32 ≤ 2 := by
  have hpos : 0 < d.nDraws := lt_of_lt_of_le Nat.one_pos (le_max_left _ _)
  rw [← nDraws_le_two]
  constructor
  · intro h
    refine or_iff_not_imp_left.2 fun hne => ?_
    obtain ⟨e₀, -, hfirst⟩ := h.found hne 0 hpos
    have hn : d.nCandidates ≠ 0 := by
      intro hzero
      rw [find_eq, if_pos hzero] at hfirst
      cases hfirst
    have hlength : d.candidates.length = 1 := by
      by_contra hmany
      have htwo : 1 < d.candidates.length := by
        have := List.length_pos_iff.2 hne
        omega
      have hlt := d.card_drawsOf_lt hn htwo
      rw [h.equal _ (List.getElem_mem htwo) _ (List.getElem_mem (Nat.zero_lt_of_lt htwo))] at hlt
      exact lt_irrefl _ hlt
    refine ⟨hlength, hn, ?_⟩
    by_contra hmany
    obtain ⟨e, -, hthird⟩ := h.found hne 2 (by omega)
    rw [find_eq, if_neg hn, List.getElem?_eq_none] at hthird
    · cases hthird
    · rw [hlength]
      decide
  · rintro (hnone | ⟨hone, hn, htwo⟩)
    · refine ⟨fun _ draw _ => ?_, fun hne => absurd hnone hne, ?_, ?_⟩
      · rw [find_eq, hnone, List.getElem?_nil, ite_self]
      · rw [hnone]
        exact fun e he => absurd he List.not_mem_nil
      · rw [hnone]
        exact fun e he => absurd he List.not_mem_nil
    · obtain ⟨e, he⟩ := List.length_eq_one_iff.1 hone
      have hall : ∀ draw < d.nDraws, d.findRandomNotInVec draw = some e := by
        intro draw hdraw
        have hindex : (Int.bmod draw (2 ^ 32) - 1).toNat = 0 := by
          rw [Int.bmod]
          split <;> omega
        rw [find_eq, if_neg hn, hindex, he, List.getElem?_cons_zero]
      refine ⟨fun hnone => ?_, fun _ draw hdraw => ⟨e, he ▸ List.mem_singleton_self e, hall draw hdraw⟩, ?_, ?_⟩
      · rw [hnone] at he
        cases he
      · rw [he]
        intro e' he'
        rw [List.mem_singleton.1 he']
        exact ⟨0, Finset.mem_filter.2 ⟨Finset.mem_range.2 hpos, hall 0 hpos⟩⟩
      · rw [he]
        intro e₁ h₁ e₂ h₂
        rw [List.mem_singleton.1 h₁, List.mem_singleton.1 h₂]

namespace DrawSample

/-- An enabled masternode of the input `n`. -/
def masternode (n : ℕ) : CMasternode where
  vin := ⟨⟨BitVec.ofNat 256 n, 0⟩, [], 0⟩
  protocolVersion := 1

/-- Two masternodes, none of them excluded. -/
def pair : MasternodeDraw where
  env := { adjustedTime := 0, collateralPubKey := [], acceptableInputs := fun _ => true }
  man := { vMasternodes := [masternode 1, masternode 2] }
  vecToExclude := []
  protocolVersion := 1
  minPaymentsProto := 1

/-- **The second masternode is never drawn.** -/
theorem second_never : pair.candidates.map Prod.fst = [masternode 1, masternode 2] ∧ pair.nDraws = 2 ∧
    (pair.findRandomNotInVec 0).map Prod.fst = some (masternode 1) ∧
    (pair.findRandomNotInVec 1).map Prod.fst = some (masternode 1) ∧ ¬pair.DrawsRight := by
  refine ⟨by decide, by decide, by decide, by decide, fun h => ?_⟩
  obtain ⟨draw, hdraw⟩ := h.possible (masternode 2, 1) (by decide)
  obtain ⟨hlt, hfind⟩ := Finset.mem_filter.1 hdraw
  have hdraws : pair.nDraws = 2 := by decide
  rw [hdraws, Finset.mem_range] at hlt
  interval_cases draw <;> exact absurd hfind (by decide)

end DrawSample

end MasternodeDraw

end PayDayCoin
