import PayDayCoin.Library.Forests
import PayDayCoin.BestChain

/-!
# The fork search

The first part of `Reorganize` over the block index as it is kept: entries by pointer, each with `pprev` and `nHeight`
(a `Forest`). The walk from `pindexBest` and `pindexNew` ends at their lowest common ancestor if they have an ancestor
in common, and with an error if not; `vDisconnect` and `vConnect` are then the entries of either branch above it, from
the tip down and from the bottom up, and have no entry in common (**`reorganize_branches`**). The null check on
`plonger` never fails: what is higher than an entry has a parent.

`PIndex.findFork` and `PIndex.branch`, on which the runs of a node are built, are these functions for the paths of a
node (`findFork_eq`, `branch_eq`).
-/

namespace PayDayCoin

open Library.Forests

namespace ForkSearch

variable {α : Type*} (index : Forest α)

/-- `while (plonger->nHeight > pfork->nHeight) if (!(plonger = plonger->pprev)) return error`. -/
def lowerTo (nHeight : ℕ) (plonger : α) : Option α :=
  if nHeight < index.height plonger then
    match _h : index.parent plonger with
    | none => none
    | some pprev => lowerTo nHeight pprev
  else some plonger
termination_by index.height plonger
decreasing_by exact index.height_child _h ▸ Nat.lt_succ_self _

variable [DecidableEq α]

/-- The fork search: `pfork`, or the error. -/
def findFork (pfork plonger : α) : Except String α :=
  if pfork = plonger then .ok pfork
  else
    match lowerTo index (index.height pfork) plonger with
    | none => .error "Reorganize() : plonger->pprev is null"
    | some plonger =>
      if pfork = plonger then .ok pfork
      else
        match _h : index.parent pfork with
        | none => .error "Reorganize() : pfork->pprev is null"
        | some pprev => findFork pprev plonger
termination_by index.height pfork
decreasing_by exact index.height_child _h ▸ Nat.lt_succ_self _

/-- `for (pindex = …; pindex != pfork; pindex = pindex->pprev) push_back(pindex)`; `none` where a null pointer would be
followed. -/
def branch (pfork pindex : α) : Option (List α) :=
  if pindex = pfork then some []
  else
    match _h : index.parent pindex with
    | none => none
    | some pprev => (branch pfork pprev).map (pindex :: ·)
termination_by index.height pindex
decreasing_by exact index.height_child _h ▸ Nat.lt_succ_self _

/-- `vDisconnect`. -/
def vDisconnect (pfork pindexBest : α) : Option (List α) := branch index pfork pindexBest

/-- `vConnect`. -/
def vConnect (pfork pindexNew : α) : Option (List α) := (branch index pfork pindexNew).map List.reverse

variable {index} {pfork plonger pindex a b c : α}

/-! ### The search -/

variable (index) in
omit [DecidableEq α] in
/-- The inner loop stops at the ancestor of the height, without an error. -/
theorem lowerTo_spec (nHeight : ℕ) (plonger : α) : ∃ p, lowerTo index nHeight plonger = some p ∧
    Ancestor index p plonger ∧ index.height p ≤ nHeight ∧
    ∀ c, Ancestor index c plonger → index.height c ≤ nHeight → Ancestor index c p := by
  fun_induction lowerTo index nHeight plonger with
  | case1 plonger hlt hnone =>
    rw [index.height_root hnone] at hlt
    exact absurd hlt (Nat.not_lt_zero _)
  | case2 plonger hlt pprev hprev ih =>
    obtain ⟨p, hp, hanc, hle, hall⟩ := ih
    refine ⟨p, hp, hanc.trans (ancestor_of_parent hprev), hle, fun c hc hheight => hall c ?_ hheight⟩
    rcases ancestor_iff.1 hc with rfl | ⟨q, hq, hc⟩
    · omega
    · obtain rfl := Option.some.inj (hq.symm.trans hprev)
      exact hc
  | case3 plonger hle => exact ⟨plonger, rfl, .refl _, not_lt.1 hle, fun c hc _ => hc⟩

/-- `pfork` is an ancestor of both, and all common ancestors are its own. -/
def LowestCommon (index : Forest α) (pfork a b : α) : Prop :=
  Ancestor index pfork a ∧ Ancestor index pfork b ∧
    ∀ c, Ancestor index c a → Ancestor index c b → Ancestor index c pfork

variable (index) in
/-- The search returns the lowest common ancestor, or there is none. -/
theorem findFork_spec (a b : α) :
    (∃ pfork, findFork index a b = .ok pfork ∧ LowestCommon index pfork a b) ∨
      findFork index a b = .error "Reorganize() : pfork->pprev is null" ∧
        ∀ c, ¬(Ancestor index c a ∧ Ancestor index c b) := by
  fun_induction findFork index a b with
  | case1 a => exact .inl ⟨a, rfl, .refl _, .refl _, fun c h _ => h⟩
  | case2 a b hne hnone =>
    obtain ⟨p, hp, -⟩ := lowerTo_spec index (index.height a) b
    cases hnone.symm.trans hp
  | case3 b p hne hlower =>
    obtain ⟨q, hq, hanc, -, hall⟩ := lowerTo_spec index (index.height p) b
    obtain rfl := Option.some.inj (hlower.symm.trans hq)
    exact .inl ⟨p, rfl, .refl _, hanc, fun c h _ => h⟩
  | case4 a b hne p hlower hne' hroot =>
    obtain ⟨q, hq, -, hheight, hall⟩ := lowerTo_spec index (index.height a) b
    obtain rfl := Option.some.inj (hlower.symm.trans hq)
    refine .inr ⟨rfl, fun c hc => ?_⟩
    obtain ⟨hca, hcb⟩ := hc
    rcases ancestor_iff.1 hca with rfl | ⟨r, hr, -⟩
    · exact hne' ((hall a hcb le_rfl).eq_of_height_le hheight).symm
    · cases hroot.symm.trans hr
  | case5 a b hne p hlower hne' pprev hprev ih =>
    obtain ⟨q, hq, hanc, hheight, hall⟩ := lowerTo_spec index (index.height a) b
    obtain rfl := Option.some.inj (hlower.symm.trans hq)
    -- what is common to the two is above neither `pprev` nor the lowered `plonger`
    have hcommon : ∀ c, Ancestor index c a → Ancestor index c b → Ancestor index c pprev ∧ Ancestor index c p := by
      intro c hca hcb
      have hcp := hall c hcb hca.height_le
      rcases ancestor_iff.1 hca with rfl | ⟨r, hr, hc⟩
      · exact absurd (hcp.eq_of_height_le hheight).symm hne'
      · obtain rfl := Option.some.inj (hr.symm.trans hprev)
        exact ⟨hc, hcp⟩
    rcases ih with ⟨pfork, hfork, hfa, hfb, hlow⟩ | ⟨herror, hnone⟩
    · exact .inl ⟨pfork, hfork, hfa.trans (ancestor_of_parent hprev), hfb.trans hanc, fun c hca hcb =>
        hlow c (hcommon c hca hcb).1 (hcommon c hca hcb).2⟩
    · exact .inr ⟨herror, fun c hc => hnone c (hcommon c hc.1 hc.2)⟩

/-! ### The branches -/

/-- The entries from `pindex` down to above `pfork`, each higher than the next. -/
theorem branch_spec (h : Ancestor index pfork pindex) : ∃ l, branch index pfork pindex = some l ∧
    (∀ b, b ∈ l ↔ Ancestor index b pindex ∧ Ancestor index pfork b ∧ b ≠ pfork) ∧
    l.Pairwise fun a b => index.height b < index.height a := by
  fun_induction branch index pfork pindex with
  | case1 =>
    refine ⟨[], rfl, fun b => ?_, List.Pairwise.nil⟩
    simp only [List.not_mem_nil, false_iff]
    rintro ⟨hb, hf, hne⟩
    exact hne (hf.antisymm hb)
  | case2 pindex hne hroot =>
    rcases ancestor_iff.1 h with rfl | ⟨q, hq, -⟩
    · exact absurd rfl hne
    · cases hroot.symm.trans hq
  | case3 pindex hne pprev hprev ih =>
    rcases ancestor_iff.1 h with rfl | ⟨q, hq, hf⟩
    · exact absurd rfl hne
    obtain rfl := Option.some.inj (hq.symm.trans hprev)
    obtain ⟨l, hl, hmem, hdown⟩ := ih hf
    refine ⟨pindex :: l, by rw [hl, Option.map_some], fun b => ?_, List.pairwise_cons.2 ⟨fun b hb => ?_, hdown⟩⟩
    · rw [List.mem_cons, hmem]
      constructor
      · rintro (rfl | ⟨hb, hfb, hbne⟩)
        · exact ⟨.refl _, h, hne⟩
        · exact ⟨hb.trans (ancestor_of_parent hprev), hfb, hbne⟩
      · rintro ⟨hb, hfb, hbne⟩
        rcases ancestor_iff.1 hb with rfl | ⟨r, hr, hb⟩
        · exact .inl rfl
        · obtain rfl := Option.some.inj (hr.symm.trans hprev)
          exact .inr ⟨hb, hfb, hbne⟩
    · rw [index.height_child hprev]
      exact Nat.lt_succ_of_le ((hmem b).1 hb).1.height_le

/-- Two entries with a common ancestor: the search ends at the lowest, `vDisconnect` is the branch of the one above it
from the tip down, `vConnect` that of the other from the bottom up, and no entry is in both. -/
theorem reorganize_branches (index : Forest α) (pindexBest pindexNew : α)
    (hfork : ∃ c, Ancestor index c pindexBest ∧ Ancestor index c pindexNew) :
    ∃ pfork old new, findFork index pindexBest pindexNew = .ok pfork ∧
      LowestCommon index pfork pindexBest pindexNew ∧
      vDisconnect index pfork pindexBest = some old ∧ vConnect index pfork pindexNew = some new ∧
      (∀ b, b ∈ old ↔ Ancestor index b pindexBest ∧ Ancestor index pfork b ∧ b ≠ pfork) ∧
      (old.Pairwise fun a b => index.height b < index.height a) ∧
      (∀ b, b ∈ new ↔ Ancestor index b pindexNew ∧ Ancestor index pfork b ∧ b ≠ pfork) ∧
      (new.Pairwise fun a b => index.height a < index.height b) ∧
      ∀ b ∈ old, b ∉ new := by
  rcases findFork_spec index pindexBest pindexNew with ⟨pfork, hfind, hlow⟩ | ⟨-, hnone⟩
  · obtain ⟨old, hold, hmem, hdown⟩ := branch_spec hlow.1
    obtain ⟨new, hnew, hmem', hdown'⟩ := branch_spec hlow.2.1
    refine ⟨pfork, old, new.reverse, hfind, hlow, hold, by rw [vConnect, hnew, Option.map_some], hmem, hdown,
      fun b => by rw [List.mem_reverse, hmem'], List.pairwise_reverse.2 hdown', fun b hb hb' => ?_⟩
    obtain ⟨hbold, hfb, hne⟩ := (hmem b).1 hb
    obtain ⟨hbnew, -, -⟩ := (hmem' b).1 (List.mem_reverse.1 hb')
    exact hne (hfb.antisymm (hlow.2.2 b hbold hbnew))
  · obtain ⟨c, hc⟩ := hfork
    exact absurd hc (hnone c)

end ForkSearch

/-! ### Paths -/

namespace PIndex

/-- The paths as a block index: `pprev` is the tail, unless it is the empty path. -/
def forest : Forest PIndex where
  parent
    | _ :: q :: pprev => some (q :: pprev)
    | _ => none
  height := nHeight
  height_root {pindex} h := by
    rcases pindex with _ | ⟨p, _ | ⟨q, pprev⟩⟩
    · rfl
    · rfl
    · cases h
  height_child {pindex pprev} h := by
    rcases pindex with _ | ⟨p, _ | ⟨q, l⟩⟩
    · cases h
    · cases h
    · obtain rfl := Option.some.inj h
      rfl

variable {p f : CBlockIndex} {pprev fprev pfork pindex : PIndex}

@[simp] theorem parent_cons_cons (p q : CBlockIndex) (pprev : PIndex) :
    forest.parent (p :: q :: pprev) = some (q :: pprev) := rfl

@[simp] theorem parent_singleton (p : CBlockIndex) : forest.parent [p] = none := rfl

@[simp] theorem height_cons (p : CBlockIndex) (pprev : PIndex) : forest.height (p :: pprev) = pprev.length := rfl

theorem lowerTo_eq_lower (nHeight : ℕ) (p : CBlockIndex) (pprev : PIndex) :
    ForkSearch.lowerTo forest nHeight (p :: pprev) = some (lowerTo nHeight (p :: pprev)) := by
  induction pprev generalizing p with
  | nil => simp [ForkSearch.lowerTo, lowerTo]
  | cons q pprev ih =>
    rw [ForkSearch.lowerTo, lowerTo, height_cons]
    split
    · exact ih q
    · rfl

theorem exists_lowerTo (nHeight : ℕ) (p : CBlockIndex) (pprev : PIndex) :
    ∃ q l, lowerTo nHeight (p :: pprev) = q :: l := by
  induction pprev generalizing p with
  | nil => exact ⟨p, [], by simp [lowerTo]⟩
  | cons q pprev ih =>
    rw [lowerTo]
    split
    · exact ih q
    · exact ⟨p, q :: pprev, rfl⟩

/-- The fork search of a node is that of the source. -/
theorem findFork_eq (f p : CBlockIndex) (fprev pprev : PIndex) :
    (ForkSearch.findFork forest (f :: fprev) (p :: pprev)).toOption = findFork (f :: fprev) (p :: pprev) := by
  induction fprev generalizing f p pprev with
  | nil =>
    rw [ForkSearch.findFork, findFork]
    split
    · rfl
    · simp only [height_cons, lowerTo_eq_lower]
      split
      · rfl
      · simp [findFork, Except.toOption]
  | cons g fprev ih =>
    rw [ForkSearch.findFork, findFork]
    split
    · rfl
    · simp only [height_cons, lowerTo_eq_lower]
      split
      · rfl
      · obtain ⟨q, l, hq⟩ := exists_lowerTo (g :: fprev).length p pprev
        simp only [hq, parent_cons_cons]
        exact ih g q l

/-- So are its branches. -/
theorem branch_eq {l : List PIndex} (h : ForkSearch.branch forest pfork pindex = some l) (hp : pindex ≠ []) :
    branch pfork pindex = l := by
  induction pindex generalizing l with
  | nil => exact absurd rfl hp
  | cons p pprev ih =>
    rw [ForkSearch.branch] at h
    rw [branch]
    split at h
    · next heq => rw [if_pos heq, Option.some.inj h]
    · next hne =>
      rw [if_neg hne]
      cases pprev with
      | nil => cases h
      | cons q pprev =>
        simp only [parent_cons_cons] at h
        obtain ⟨l', hl', rfl⟩ := Option.map_eq_some_iff.1 h
        rw [ih hl' (List.cons_ne_nil _ _)]

end PIndex

namespace ForkSample

/-- A root, and two branches of two and of one entry above it. -/
def index : Forest (Fin 4) where
  parent a := if a = 0 then none else if a = 2 then some 1 else some 0
  height a := if a = 0 then 0 else if a = 2 then 2 else 1
  height_root {a} := by revert a; decide
  height_child {a b} := by revert a b; decide

theorem branches_of_index : ∃ pfork old new, ForkSearch.findFork index 2 3 = .ok pfork ∧
    ForkSearch.vDisconnect index pfork 2 = some old ∧ ForkSearch.vConnect index pfork 3 = some new ∧
    ∀ b ∈ old, b ∉ new := by
  have hup : ∀ {a b : Fin 4}, index.parent a = some b → Ancestor index b a := ancestor_of_parent
  obtain ⟨pfork, old, new, hfind, -, hold, hnew, -, -, -, -, hdisjoint⟩ := ForkSearch.reorganize_branches index 2 3
    ⟨0, (hup (by decide)).trans (b := 1) (hup (by decide)), hup (by decide)⟩
  exact ⟨pfork, old, new, hfind, hold, hnew, hdisjoint⟩

end ForkSample

end PayDayCoin
