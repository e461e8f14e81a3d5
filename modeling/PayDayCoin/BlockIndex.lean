import PayDayCoin.BestChain
import PayDayCoin.Library.Paths

/-!
# The block index as a tree

`mapBlockIndex` is a tree of paths that end in the genesis entry: `IndexOk`. An entry's
ancestors are entries too (`IndexOk.suffix`), so the blocks of a path have different
hashes (**`IndexOk.nodup`**), and adding an entry on top of one keeps the tree
(`IndexOk.insert`). `A p pprev` is what was checked of an entry `p` when it was added on
top of `pprev`.

The fork that `Reorganize` finds lies on both paths (**`findFork_suffix`**), the blocks
that `SetBestChain` postpones are those above the block it reorganizes to
(**`postpone_eq`**), and unlinking one branch and linking the other gives the `pnext`
pointers of the new path.
-/

namespace PayDayCoin

open Library.Checks Library.Paths

/-- An entry is in `mapBlockIndex`, with the ancestors of the path. -/
def Indexed (m : Uint256 → Option PIndex) (path : PIndex) : Prop :=
  path ≠ [] ∧ m path.getBlockHash = some path

/-- `mapBlockIndex` is a tree that grows from the entry `g`. -/
structure IndexOk (A : CBlockIndex → PIndex → Prop) (g : CBlockIndex) (m : Uint256 → Option PIndex) : Prop where
  /-- An entry is found under its own hash. -/
  entry : ∀ h path, m h = some path → path ≠ [] ∧ path.getBlockHash = h
  /-- The parent of an entry is an entry. -/
  parent : ∀ h p pprev, m h = some (p :: pprev) → pprev ≠ [] → m (PIndex.getBlockHash pprev) = some pprev
  /-- The parent is the one that the block names. -/
  prevHash : ∀ h p pprev, m h = some (p :: pprev) → pprev ≠ [] → p.block.hashPrevBlock = PIndex.getBlockHash pprev
  /-- What was checked of an entry. -/
  accepted : ∀ h p pprev, m h = some (p :: pprev) → pprev ≠ [] → A p pprev
  /-- Only `g` has no parent. -/
  root : ∀ h p, m h = some [p] → p = g

namespace IndexOk

variable {A : CBlockIndex → PIndex → Prop} {g p : CBlockIndex} {m : Uint256 → Option PIndex} {path pprev q : PIndex}

theorem indexed (h : IndexOk A g m) {hash : Uint256} (hm : m hash = some path) : Indexed m path := by
  obtain ⟨hne, rfl⟩ := h.entry hash path hm
  exact ⟨hne, hm⟩

/-- The ancestors of an entry are entries. -/
theorem suffix (h : IndexOk A g m) (hp : Indexed m path) (hq : q <:+ path) (hne : q ≠ []) : Indexed m q := by
  induction path with
  | nil => exact absurd (List.suffix_nil.1 hq) hne
  | cons p pprev ih =>
    rcases List.suffix_cons_iff.1 hq with rfl | hq
    · exact hp
    · have hpne : pprev ≠ [] := fun he => hne (List.suffix_nil.1 (he ▸ hq))
      exact ih ⟨hpne, h.parent _ _ _ hp.2 hpne⟩ hq

/-- What was checked of the entries of a path. -/
theorem accepted_suffix (h : IndexOk A g m) (hp : Indexed m path) (hsuf : p :: pprev <:+ path) (hne : pprev ≠ []) :
    A p pprev :=
  h.accepted _ p pprev (h.suffix hp hsuf (List.cons_ne_nil p pprev)).2 hne

/-- **The blocks of a path have different hashes.** -/
theorem nodup (h : IndexOk A g m) (hp : Indexed m path) : path.hashes.Nodup := by
  induction path with
  | nil => exact List.nodup_nil
  | cons p pprev ih =>
    by_cases hne : pprev = []
    · subst hne; simp [PIndex.hashes]
    · refine List.nodup_cons.2 ⟨fun hmem => ?_, ih ⟨hne, h.parent _ _ _ hp.2 hne⟩⟩
      -- an ancestor with the hash of `p` would be the path itself, which is longer
      obtain ⟨q, hq, hhash⟩ := List.mem_map.1 hmem
      obtain ⟨l, t, rfl⟩ := List.append_of_mem hq
      have hsuf : q :: t <:+ p :: (l ++ q :: t) := (List.suffix_append l _).trans (List.suffix_cons _ _)
      have hqm := (h.suffix hp hsuf (by simp)).2
      have hpm : m q.hash = some (p :: (l ++ q :: t)) := hhash ▸ hp.2
      have hlen := congrArg (Option.map List.length) (hqm.symm.trans hpm)
      simp only [Option.map_some, List.length_cons, List.length_append, Option.some.injEq] at hlen
      omega

/-- A path ends in `g`. -/
theorem exists_eq_append (h : IndexOk A g m) (hp : Indexed m path) : ∃ l, path = l ++ [g] := by
  induction path with
  | nil => exact absurd rfl hp.1
  | cons p pprev ih =>
    by_cases hne : pprev = []
    · subst hne
      exact ⟨[], by rw [h.root _ p hp.2]; rfl⟩
    · obtain ⟨l, hl⟩ := ih ⟨hne, h.parent _ _ _ hp.2 hne⟩
      exact ⟨p :: l, by rw [hl]; rfl⟩

/-- Adding an entry on top of another keeps the tree. -/
theorem insert (h : IndexOk A g m) (hnew : m p.hash = none) (hprev : Indexed m pprev)
    (hhash : p.block.hashPrevBlock = pprev.getBlockHash) (hA : A p pprev) :
    IndexOk A g (Function.update m p.hash (some (p :: pprev))) := by
  have key : ∀ k path, Function.update m p.hash (some (p :: pprev)) k = some path →
      (k = p.hash ∧ path = p :: pprev) ∨ m k = some path := by
    intro k path hk
    by_cases hkp : k = p.hash
    · rw [hkp, Function.update_self, Option.some.injEq] at hk
      exact .inl ⟨hkp, hk.symm⟩
    · rw [Function.update_of_ne hkp] at hk
      exact .inr hk
  have keep : ∀ {k path}, m k = some path → Function.update m p.hash (some (p :: pprev)) k = some path := by
    intro k path hk
    rw [Function.update_of_ne (fun he => by rw [he, hnew] at hk; cases hk), hk]
  refine ⟨fun k path hk => ?_, fun k q qprev hk hne => ?_, fun k q qprev hk hne => ?_, fun k q qprev hk hne => ?_,
    fun k q hk => ?_⟩ <;> rcases key _ _ hk with ⟨rfl, heq⟩ | hk
  · subst heq; exact ⟨by simp, rfl⟩
  · exact h.entry k path hk
  · obtain ⟨rfl, rfl⟩ := List.cons.inj heq
    exact keep hprev.2
  · exact keep (h.parent k q qprev hk hne)
  · obtain ⟨rfl, rfl⟩ := List.cons.inj heq
    exact hhash
  · exact h.prevHash k q qprev hk hne
  · obtain ⟨rfl, rfl⟩ := List.cons.inj heq
    exact hA
  · exact h.accepted k q qprev hk hne
  · exact absurd (List.cons.inj heq).2.symm hprev.1
  · exact h.root k q hk

/-- The tree that has only the genesis entry. -/
theorem genesis (g : CBlockIndex) : IndexOk A g (Function.update (fun _ => none) g.hash (some [g])) := by
  have key : ∀ k path, Function.update (fun _ => none) g.hash (some [g]) k = some path →
      k = g.hash ∧ path = [g] := by
    intro k path hk
    by_cases hkg : k = g.hash
    · rw [hkg, Function.update_self, Option.some.injEq] at hk
      exact ⟨hkg, hk.symm⟩
    · rw [Function.update_of_ne hkg] at hk
      cases hk
  refine ⟨fun k path hk => ?_, fun k q qprev hk hne => ?_, fun k q qprev hk hne => ?_, fun k q qprev hk hne => ?_,
    fun k q hk => ?_⟩ <;> obtain ⟨rfl, heq⟩ := key _ _ hk
  · subst heq; exact ⟨by simp, rfl⟩
  · exact absurd (List.cons.inj heq).2 hne
  · exact absurd (List.cons.inj heq).2 hne
  · exact absurd (List.cons.inj heq).2 hne
  · exact (List.cons.inj heq).1

end IndexOk

/-! ### Branches -/

namespace PIndex

variable {f path pprev : PIndex} {p : CBlockIndex}

theorem lowerTo_suffix (n : ℕ) (path : PIndex) : lowerTo n path <:+ path := by
  induction path with
  | nil => exact List.suffix_rfl
  | cons p pprev ih =>
    rw [lowerTo]
    split
    · exact ih.trans (List.suffix_cons _ _)
    · exact List.suffix_rfl

/-- **The fork lies on both paths.** -/
theorem findFork_suffix {pfork : PIndex} : ∀ {plonger : PIndex}, findFork path plonger = some pfork →
    pfork ≠ [] ∧ pfork <:+ path ∧ pfork <:+ plonger := by
  induction path with
  | nil => intro plonger h; simp [findFork] at h
  | cons f fprev ih =>
    intro plonger h
    simp only [findFork] at h
    split at h
    · next heq =>
      rw [Option.some.injEq] at h
      subst h
      exact ⟨by simp, List.suffix_rfl, heq ▸ List.suffix_rfl⟩
    · have hlow := lowerTo_suffix fprev.length plonger
      split at h
      · next heq =>
        rw [Option.some.injEq] at h
        subst h
        exact ⟨by simp, List.suffix_rfl, heq ▸ hlow⟩
      · obtain ⟨hne, hf, hl⟩ := ih h
        exact ⟨hne, hf.trans (List.suffix_cons _ _), hl.trans hlow⟩

/-- Going down to a height passes no ancestor that is not higher. -/
theorem suffix_lowerTo {c : PIndex} {n : ℕ} (h : c <:+ path) (hlen : c.length ≤ n + 1) : c <:+ lowerTo n path := by
  induction path with
  | nil => simpa [lowerTo] using h
  | cons p pprev ih =>
    rw [lowerTo]
    split
    · next hlt =>
      rcases List.suffix_cons_iff.1 h with rfl | h
      · rw [List.length_cons] at hlen
        omega
      · exact ih h
    · exact h

theorem lowerTo_eq {n : ℕ} (h : f <:+ path) (hlen : f.length = n + 1) : lowerTo n path = f := by
  have hle : (lowerTo n path).length ≤ n + 1 := by
    clear h
    induction path with
    | nil => simp [lowerTo]
    | cons p pprev ih =>
      rw [lowerTo]
      split
      · exact ih
      · rw [List.length_cons]
        omega
  exact ((suffix_lowerTo h hlen.le).eq_of_length_le (hlen ▸ hle)).symm

/-- **The fork is the youngest block that the paths have in common.** -/
theorem suffix_findFork {c pfork : PIndex} : ∀ {plonger : PIndex}, findFork path plonger = some pfork →
    c <:+ path → c <:+ plonger → c <:+ pfork := by
  induction path with
  | nil => intro plonger h; simp [findFork] at h
  | cons f fprev ih =>
    intro plonger h hc hcl
    simp only [findFork] at h
    split at h
    · rw [Option.some.injEq] at h
      exact h ▸ hc
    split at h
    · rw [Option.some.injEq] at h
      exact h ▸ hc
    · next hne =>
      rcases List.suffix_cons_iff.1 hc with rfl | hc
      · exact absurd (lowerTo_eq hcl rfl).symm hne
      · exact ih h hc (suffix_lowerTo hcl (hc.length_le.trans (Nat.le_succ _)))

theorem branch_self (hne : f ≠ []) : branch f f = [] := by
  cases f with
  | nil => exact absurd rfl hne
  | cons p pprev => rw [branch, if_pos rfl]

theorem branch_cons (h : f <:+ pprev) : branch f (p :: pprev) = (p :: pprev) :: branch f pprev := by
  have hne : p :: pprev ≠ f := by
    intro he
    have := h.length_le
    rw [← he, List.length_cons] at this
    omega
  rw [branch, if_neg hne]

section Runs

variable {σ ε : Type} {step : PIndex → σ → σ × Option ε} {R : PIndex → σ → Prop} {s t : σ}

/-- What each block of a branch hands down to the block below it, the branch hands down to the fork. -/
theorem run_branch (hne : f ≠ []) (hf : f <:+ path)
    (hstep : ∀ p pprev s t, p :: pprev <:+ path → f <:+ pprev → pprev ≠ [] → R (p :: pprev) s →
      step (p :: pprev) s = (t, none) → R pprev t)
    (h : R path s) (hrun : runUntil step (branch f path) s = (t, none)) : R f t := by
  induction path generalizing s with
  | nil => exact absurd (List.suffix_nil.1 hf) hne
  | cons p pprev ih =>
    rcases List.suffix_cons_iff.1 hf with rfl | hf
    · rw [branch_self hne, runUntil, Prod.mk.injEq] at hrun
      rwa [← hrun.1]
    · have hpne : pprev ≠ [] := fun he => hne (List.suffix_nil.1 (he ▸ hf))
      rw [branch_cons hf, runUntil_cons_eq_none] at hrun
      obtain ⟨s₁, hfirst, hrun⟩ := hrun
      exact ih hf (fun q qprev s t hq => hstep q qprev s t (hq.trans (List.suffix_cons _ _)))
        (hstep p pprev s s₁ List.suffix_rfl hf hpne h hfirst) hrun

/-- What each block of a branch takes over from the block below it, the branch takes over from the fork. -/
theorem run_branch_reverse (hne : f ≠ []) (hf : f <:+ path)
    (hstep : ∀ p pprev s t, p :: pprev <:+ path → f <:+ pprev → pprev ≠ [] → R pprev s →
      step (p :: pprev) s = (t, none) → R (p :: pprev) t)
    (h : R f s) (hrun : runUntil step (branch f path).reverse s = (t, none)) : R path t := by
  induction path generalizing t with
  | nil => exact absurd (List.suffix_nil.1 hf) hne
  | cons p pprev ih =>
    rcases List.suffix_cons_iff.1 hf with rfl | hf
    · rw [branch_self hne, List.reverse_nil, runUntil, Prod.mk.injEq] at hrun
      rwa [← hrun.1]
    · have hpne : pprev ≠ [] := fun he => hne (List.suffix_nil.1 (he ▸ hf))
      rw [branch_cons hf, List.reverse_cons, runUntil_append_eq_none] at hrun
      obtain ⟨s₁, hrun, hlast⟩ := hrun
      obtain ⟨s₂, hnew, hnil⟩ := runUntil_cons_eq_none.1 hlast
      rw [runUntil, Prod.mk.injEq] at hnil
      obtain ⟨rfl, -⟩ := hnil
      have h₁ := ih hf (fun q qprev s t hq => hstep q qprev s t (hq.trans (List.suffix_cons _ _))) hrun
      exact hstep p pprev s₁ s₂ List.suffix_rfl hf hpne h₁ hnew

end Runs

/-- **The postponed blocks are those above the block that `SetBestChain` reorganizes to.** -/
theorem postpone_eq (nTrust : Uint256) (p : CBlockIndex) (pprev : PIndex) :
    (postpone nTrust (p :: pprev)).2 ≠ [] ∧ (postpone nTrust (p :: pprev)).2 <:+ p :: pprev ∧
      (postpone nTrust (p :: pprev)).1 = branch (postpone nTrust (p :: pprev)).2 (p :: pprev) := by
  induction pprev generalizing p with
  | nil => exact ⟨List.cons_ne_nil p [], List.suffix_rfl, (branch_self (List.cons_ne_nil p [])).symm⟩
  | cons q pprev ih =>
    obtain ⟨hne, hsuf, hsec⟩ := ih q
    rw [postpone]
    split
    · exact ⟨hne, hsuf.trans (List.suffix_cons _ _), by rw [branch_cons hsuf, ← hsec]⟩
    · exact ⟨by simp, List.suffix_rfl, (branch_self (by simp)).symm⟩

/-! ### The pnext pointers of a branch -/

/-- Unlinking the blocks of a branch leaves the pointers of the path below it. -/
theorem foldl_unlinkPrev (hne : f ≠ []) (hf : f <:+ path) (hnd : path.hashes.Nodup) :
    (branch f path).foldl unlinkPrev (nextOf path.hashes) = nextOf f.hashes := by
  induction path with
  | nil => exact absurd (List.suffix_nil.1 hf) hne
  | cons p pprev ih =>
    rcases List.suffix_cons_iff.1 hf with rfl | hf
    · rw [branch_self hne]
      rfl
    · have hnd' : (PIndex.hashes pprev).Nodup := (List.nodup_cons.1 hnd).2
      rw [branch_cons hf, List.foldl_cons, ← ih hf hnd']
      congr 1
      cases pprev with
      | nil => exact absurd (List.suffix_nil.1 hf) hne
      | cons q pprev => exact nextOf_unlink hnd'

/-- Linking the blocks of a branch, oldest first, gives the pointers of the path. -/
theorem foldl_linkPrev (hne : f ≠ []) (hf : f <:+ path) :
    (branch f path).reverse.foldl linkPrev (nextOf f.hashes) = nextOf path.hashes := by
  induction path with
  | nil => exact absurd (List.suffix_nil.1 hf) hne
  | cons p pprev ih =>
    rcases List.suffix_cons_iff.1 hf with rfl | hf
    · rw [branch_self hne]
      rfl
    · rw [branch_cons hf, List.reverse_cons, List.foldl_append, ih hf]
      cases pprev with
      | nil => exact absurd (List.suffix_nil.1 hf) hne
      | cons q pprev => rfl

end PIndex

end PayDayCoin
