import PayDayCoin.ChainSync

/-!
# The main chain

Whether an entry of the block index is on the main chain, and which comes after it there, is read off `pnext`. When the
memory and the records of the node agree, the entries on the main chain are the ancestors of the best one
(**`Node.Ok.isInMainChain_iff`**), and `pnext` leads from each to the one above it (`Node.Ok.next_eq`).
-/

namespace PayDayCoin

open Library.Paths

variable {W : Type} {A : CBlockIndex → PIndex → Prop} {J : PIndex → TxMap → Prop} {g p : CBlockIndex}
  {path pprev q : PIndex}

/-- `CBlockIndex::IsInMainChain`. -/
def Node.isInMainChain (node : Node W) (pindex : PIndex) : Bool :=
  (node.pnext pindex.getBlockHash).isSome || pindex == node.best.pindexBest

/-- `pindex->pnext`. -/
def Node.next (node : Node W) (pindex : PIndex) : Option PIndex :=
  (node.pnext pindex.getBlockHash).bind node.mapBlockIndex

/-- An entry is found by its hash. -/
theorem Indexed.eq_of_hash {m : Uint256 → Option PIndex} (hp : Indexed m path) (hq : Indexed m q)
    (h : path.getBlockHash = q.getBlockHash) : path = q := by
  have hsome := hp.2
  rw [h, hq.2, Option.some_inj] at hsome
  exact hsome.symm

variable {node : Node W}

/-- An ancestor of the best entry has a pointer to the one above it. -/
theorem Node.Ok.pnext_eq (h : node.Ok A J g) (hsuf : p :: pprev <:+ node.best.pindexBest) (hne : pprev ≠ []) :
    node.pnext (PIndex.getBlockHash pprev) = some p.hash := by
  obtain ⟨l, hl⟩ := hsuf
  obtain ⟨q, rest, rfl⟩ := List.exists_cons_of_ne_nil hne
  have hnodup := h.index.nodup h.indexed
  have hhashes : node.best.pindexBest.hashes = PIndex.hashes l ++ p.hash :: q.hash :: PIndex.hashes rest := by
    rw [← hl, PIndex.hashes, List.map_append]
    rfl
  rw [hhashes] at hnodup
  rw [h.committed.pnext, hhashes]
  exact nextOf_of_append hnodup

/-- `pnext` leads from an ancestor of the best entry to the one above it. -/
theorem Node.Ok.next_eq (h : node.Ok A J g) (hsuf : p :: pprev <:+ node.best.pindexBest) (hne : pprev ≠ []) :
    node.next pprev = some (p :: pprev) := by
  rw [Node.next, h.pnext_eq hsuf hne, Option.bind_some]
  exact (h.index.suffix h.indexed hsuf (List.cons_ne_nil p pprev)).2

/-- **The entries on the main chain are the ancestors of the best one.** -/
theorem Node.Ok.isInMainChain_iff (h : node.Ok A J g) (hp : Indexed node.mapBlockIndex path) :
    node.isInMainChain path = true ↔ path <:+ node.best.pindexBest := by
  rw [Node.isInMainChain, Bool.or_eq_true, beq_iff_eq]
  constructor
  · rintro (hnext | rfl)
    · have hmem : path.getBlockHash ∈ node.best.pindexBest.hashes.tail := by
        by_contra hno
        rw [h.committed.pnext, nextOf_eq_none hno] at hnext
        cases hnext
      obtain ⟨q, hq, hhash⟩ := List.mem_map.1 (List.mem_of_mem_tail hmem)
      obtain ⟨l, t, hlt⟩ := List.append_of_mem hq
      have hsuf : q :: t <:+ node.best.pindexBest := ⟨l, hlt.symm⟩
      rw [Indexed.eq_of_hash hp (h.index.suffix h.indexed hsuf (List.cons_ne_nil q t)) hhash.symm]
      exact hsuf
    · exact List.suffix_rfl
  · intro hsuf
    obtain ⟨l, hl⟩ := hsuf
    rcases List.eq_nil_or_concat l with rfl | ⟨l, a, rfl⟩
    · exact .inr hl
    · left
      rw [h.pnext_eq (p := a) ⟨l, by rw [← hl]; simp⟩ hp.1]
      rfl

/-- The genesis entry is on the main chain. -/
theorem Node.Ok.genesis_suffix (h : node.Ok A J g) (hp : Indexed node.mapBlockIndex path) : [g] <:+ path := by
  obtain ⟨l, hl⟩ := h.index.exists_eq_append hp
  exact ⟨l, hl.symm⟩

end PayDayCoin
