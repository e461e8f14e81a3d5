import PayDayCoin.MainChain

/-!
# Blocks by height

`FindBlockByHeight` walks to a height from the genesis block, from the best one, or from the block that it found last,
which `SetBestChain` forgets when it has a new best block. **`findBlockByHeight_run`**: in every run, the block that is
found is the one on the main chain, as long as no call of `SetBestChain` leaves the loop over the postponed blocks by a
`break`: `pnext` then leads along the whole main chain, and the block that was found last is on it (`CacheOk`). After a
`break` the pointers end below the best block, and the walk up from the block that was found last runs into `NULL`
(`HeightSample.gap_above`).
-/

namespace PayDayCoin

open Library.Runs Library.Paths

/-- The node with `pblockindexFBBHLast`. -/
structure CachedNode (W : Type) extends Node W where
  pblockindexFBBHLast : Option PIndex := none

/-- What happens to a node, with the calls of `FindBlockByHeight`. -/
inductive HeightEvent
  | chain (event : NodeEvent)
  | find (nHeight : ℕ)

section Find

variable {W : Type} (node : Node W)

/-- Where the walk to a height starts. -/
def Node.walkStart (last : Option PIndex) (nHeight : ℕ) : PIndex :=
  let pblockindex :=
    if nHeight < node.best.nBestHeight / 2 then node.pindexGenesisBlock else node.best.pindexBest
  match last with
  | none => pblockindex
  | some last =>
    if ((nHeight : ℤ) - last.nHeight).natAbs < ((nHeight : ℤ) - pblockindex.nHeight).natAbs then last
    else pblockindex

/-- The walk up to a height; `none` where `pnext` is `NULL`. Each turn goes up one block, so that the height bounds
them. -/
def Node.climb (nHeight : ℕ) : ℕ → PIndex → Option PIndex
  | 0, pblockindex => if pblockindex.nHeight < nHeight then none else some pblockindex
  | fuel + 1, pblockindex =>
    if pblockindex.nHeight < nHeight then (node.next pblockindex).bind (climb nHeight fuel) else some pblockindex

end Find

namespace CachedNode

variable {W : Type}

/-- `FindBlockByHeight`, of a height that is not negative; `none` where it follows a `NULL`. -/
def findBlockByHeight (s : CachedNode W) (nHeight : ℕ) : Option PIndex :=
  s.climb nHeight nHeight (PIndex.lowerTo nHeight (s.walkStart s.pblockindexFBBHLast nHeight))

variable [Crypto] [CWalletInterface W] (params : CChainParams)

/-- An event ends with a new best block. -/
def setsBest (node : Node W) : NodeEvent → Bool
  | .block env b =>
    (node.chainCall params env b).isSome &&
      match (acceptBlock params env node b).2 with
      | .done _ => true
      | .failed _ => false
  | .tx .. => false

/-- The node after an event. A call that follows a `NULL` ends the node; that its state stays is of no account. -/
def step (s : CachedNode W) : HeightEvent → CachedNode W
  | .chain event =>
    { toNode := s.toNode.step params event
      pblockindexFBBHLast := if setsBest params s.toNode event then none else s.pblockindexFBBHLast }
  | .find nHeight =>
    match s.findBlockByHeight nHeight with
    | none => s
    | some pblockindex => { s with pblockindexFBBHLast := some pblockindex }

/-- The event is not a call of `SetBestChain` that ends its loop by a `break`. -/
def Unbroken (s : CachedNode W) : HeightEvent → Prop
  | .chain event => s.toNode.breaks params event = false
  | .find _ => True

end CachedNode

/-! ### The walk -/

section Walk

variable {W : Type} {A : CBlockIndex → PIndex → Prop} {J : PIndex → TxMap → Prop} {g : CBlockIndex} {node : Node W}
  {q : PIndex}

/-- Nothing is above the best block. -/
theorem Node.Ok.next_best (h : node.Ok A J g) : node.next node.best.pindexBest = none := by
  have hnodup := h.index.nodup h.indexed
  obtain ⟨p, pprev, hbest⟩ := List.exists_cons_of_ne_nil h.indexed.1
  have hno : node.best.pindexBest.getBlockHash ∉ node.best.pindexBest.hashes.tail := by
    rw [hbest] at hnodup ⊢
    exact (List.nodup_cons.1 hnodup).1
  rw [Node.next, h.committed.pnext, nextOf_eq_none hno, Option.bind_none]

/-- An ancestor of the best block is the best one, or has one above it. -/
theorem Node.Ok.next_cases (h : node.Ok A J g) (hq : q <:+ node.best.pindexBest) (hne : q ≠ []) :
    q = node.best.pindexBest ∨ ∃ a, a :: q <:+ node.best.pindexBest ∧ node.next q = some (a :: q) := by
  obtain ⟨l, hl⟩ := hq
  rcases List.eq_nil_or_concat l with rfl | ⟨l, a, rfl⟩
  · exact .inl hl
  · have hsuf : a :: q <:+ node.best.pindexBest := ⟨l, by rw [← hl]; simp⟩
    exact .inr ⟨a, hsuf, h.next_eq hsuf hne⟩

/-- The walk up stays on the main chain. -/
theorem Node.Ok.climb_suffix (h : node.Ok A J g) (hq : q <:+ node.best.pindexBest) (hne : q ≠ []) {nHeight fuel : ℕ}
    {pblockindex : PIndex} (hclimb : node.climb nHeight fuel q = some pblockindex) :
    pblockindex <:+ node.best.pindexBest ∧ pblockindex ≠ [] := by
  induction fuel generalizing q with
  | zero =>
    rw [Node.climb] at hclimb
    split at hclimb
    · cases hclimb
    · rw [Option.some_inj] at hclimb
      exact hclimb ▸ ⟨hq, hne⟩
  | succ fuel ih =>
    rw [Node.climb] at hclimb
    split at hclimb
    · rcases h.next_cases hq hne with rfl | ⟨a, hsuf, hnext⟩
      · rw [h.next_best] at hclimb
        cases hclimb
      · rw [hnext, Option.bind_some] at hclimb
        exact ih hsuf (List.cons_ne_nil a q) hclimb
    · rw [Option.some_inj] at hclimb
      exact hclimb ▸ ⟨hq, hne⟩

/-- The walk up ends at the height, if the best block is not below it. -/
theorem Node.Ok.climb_eq (h : node.Ok A J g) (hq : q <:+ node.best.pindexBest) (hne : q ≠ []) {nHeight fuel : ℕ}
    (hlow : q.nHeight ≤ nHeight) (hbest : nHeight ≤ node.best.pindexBest.nHeight) (hfuel : nHeight ≤ fuel + q.nHeight) :
    ∃ pblockindex, node.climb nHeight fuel q = some pblockindex ∧ pblockindex.nHeight = nHeight := by
  induction fuel generalizing q with
  | zero =>
    rw [Nat.zero_add] at hfuel
    exact ⟨q, by rw [Node.climb, if_neg (Nat.not_lt.2 hfuel)], Nat.le_antisymm hlow hfuel⟩
  | succ fuel ih =>
    rw [Node.climb]
    by_cases hlt : q.nHeight < nHeight
    · rw [if_pos hlt]
      rcases h.next_cases hq hne with rfl | ⟨a, hsuf, hnext⟩
      · omega
      · have hheight : PIndex.nHeight (a :: q) = q.nHeight + 1 := by
          have := List.length_pos_iff.2 hne
          rw [PIndex.nHeight, PIndex.nHeight, List.length_cons]
          omega
        rw [hnext, Option.bind_some]
        exact ih hsuf (List.cons_ne_nil a q) (by omega) (by omega)
    · rw [if_neg hlt]
      exact ⟨q, rfl, by omega⟩

theorem lowerTo_ne_nil {path : PIndex} (hne : path ≠ []) (nHeight : ℕ) : PIndex.lowerTo nHeight path ≠ [] := by
  induction path with
  | nil => exact absurd rfl hne
  | cons p pprev ih =>
    rw [PIndex.lowerTo]
    split
    · next hlt => exact ih (List.ne_nil_of_length_pos (Nat.zero_lt_of_lt hlt))
    · exact List.cons_ne_nil p pprev

theorem lowerTo_nHeight (path : PIndex) (nHeight : ℕ) : (PIndex.lowerTo nHeight path).nHeight ≤ nHeight := by
  induction path with
  | nil => exact Nat.zero_le nHeight
  | cons p pprev ih =>
    rw [PIndex.lowerTo]
    split
    · exact ih
    · next hge =>
      rw [PIndex.nHeight, List.length_cons]
      omega

end Walk

/-! ### Runs -/

namespace CachedNode

variable {W : Type} {g : CBlockIndex} {s : CachedNode W}

/-- The memory and the records agree, and the block that was found last is on the main chain. -/
structure CacheOk (g : CBlockIndex) (s : CachedNode W) : Prop where
  ok : s.toNode.Ok (fun _ _ => True) (fun _ _ => True) g
  last : ∀ pblockindex, s.pblockindexFBBHLast = some pblockindex →
    pblockindex <:+ s.best.pindexBest ∧ pblockindex ≠ []

/-- The walk starts on the main chain. -/
theorem CacheOk.walkStart (h : s.CacheOk g) (nHeight : ℕ) :
    s.walkStart s.pblockindexFBBHLast nHeight <:+ s.best.pindexBest ∧
      s.walkStart s.pblockindexFBBHLast nHeight ≠ [] := by
  have hpick : ∀ (b : Prop) [Decidable b] (x y : PIndex), x <:+ s.best.pindexBest ∧ x ≠ [] →
      y <:+ s.best.pindexBest ∧ y ≠ [] →
        (if b then x else y) <:+ s.best.pindexBest ∧ (if b then x else y) ≠ [] := by
    intro b _ x y hx hy
    split
    · exact hx
    · exact hy
  have hgenesis : s.pindexGenesisBlock <:+ s.best.pindexBest ∧ s.pindexGenesisBlock ≠ [] := by
    rw [h.ok.genesis]
    exact ⟨h.ok.genesis_suffix h.ok.indexed, List.cons_ne_nil g []⟩
  have hfar := hpick (nHeight < s.best.nBestHeight / 2) _ _ hgenesis ⟨List.suffix_rfl, h.ok.indexed.1⟩
  unfold Node.walkStart
  dsimp only
  cases hlast : s.pblockindexFBBHLast with
  | none => exact hfar
  | some last => exact hpick _ _ _ (h.last last hlast) hfar

/-- **What is found is the block of the main chain.** -/
theorem CacheOk.findBlockByHeight (h : s.CacheOk g) {nHeight : ℕ} (hheight : nHeight ≤ s.best.nBestHeight) :
    ∃ pblockindex, s.findBlockByHeight nHeight = some pblockindex ∧ pblockindex <:+ s.best.pindexBest ∧
      pblockindex.nHeight = nHeight := by
  obtain ⟨hsuf, hne⟩ := h.walkStart nHeight
  have hlow := (PIndex.lowerTo_suffix nHeight (s.walkStart s.pblockindexFBBHLast nHeight)).trans hsuf
  have hlowne := lowerTo_ne_nil hne nHeight
  obtain ⟨pblockindex, hclimb, heq⟩ := h.ok.climb_eq hlow hlowne (lowerTo_nHeight _ nHeight)
    (h.ok.nBestHeight ▸ hheight) (Nat.le_add_right nHeight _)
  exact ⟨pblockindex, hclimb, (h.ok.climb_suffix hlow hlowne hclimb).1, heq⟩

variable [Crypto] [CWalletInterface W] {params : CChainParams}

/-- Without a new best block, the best block stays. -/
theorem best_of_not_setsBest {node : Node W} {A : CBlockIndex → PIndex → Prop} {J : PIndex → TxMap → Prop}
    (h : node.Ok A J g) {event : NodeEvent} (hsets : setsBest params node event = false) :
    (node.step params event).best = node.best := by
  cases event with
  | tx env tx fLimitFree fRejectInsaneFee ignoreFees =>
    rw [Node.step]
    split <;> rfl
  | block env b =>
    rcases chainCall_cases params env node b with ⟨-, hbest, -⟩ | ⟨p, pprev, _, _, _, hcall, -, -, -, -, hcase⟩
    · exact hbest
    · rw [setsBest, hcall, Option.isSome_some, Bool.true_and] at hsets
      have hgen : ((node.insertEntry p pprev).commitEntry p pprev).pindexGenesisBlock ≠ [] := by
        change node.pindexGenesisBlock ≠ []
        rw [h.genesis]
        exact List.cons_ne_nil g []
      rw [Node.step]
      rcases setBestChain_cases params env.chain hgen p pprev with
        ⟨σ, e, hset⟩ | ⟨node', -, -, hset⟩ | ⟨_, _, node₂, error, -, -, -, -, hset⟩
      · rw [hcase, hset]
        rfl
      · rw [hcase, hset] at hsets
        cases hsets
      · rw [hcase, hset] at hsets
        cases hsets

/-- An event keeps that the block that was found last is on the main chain. -/
theorem CacheOk.step (h : s.CacheOk g) {event : HeightEvent} (hunbroken : s.Unbroken params event) :
    (s.step params event).CacheOk g := by
  cases event with
  | chain event =>
    refine ⟨h.ok.step pathInvariant_true (fun _ _ _ _ _ _ _ _ _ _ => trivial) hunbroken, fun pblockindex hlast => ?_⟩
    cases hsets : setsBest params s.toNode event with
    | true =>
      rw [CachedNode.step, hsets] at hlast
      cases hlast
    | false =>
      rw [CachedNode.step, hsets] at hlast
      change pblockindex <:+ (s.toNode.step params event).best.pindexBest ∧ pblockindex ≠ []
      rw [best_of_not_setsBest h.ok hsets]
      exact h.last pblockindex hlast
  | find nHeight =>
    rw [CachedNode.step]
    cases hfind : s.findBlockByHeight nHeight with
    | none => exact h
    | some found =>
      refine ⟨h.ok, fun pblockindex hlast => ?_⟩
      obtain rfl : found = pblockindex := Option.some.inj hlast
      obtain ⟨hsuf, hne⟩ := h.walkStart nHeight
      exact h.ok.climb_suffix ((PIndex.lowerTo_suffix nHeight _).trans hsuf) (lowerTo_ne_nil hne nHeight) hfind

/-- **In every run without a `break`, `FindBlockByHeight` finds the block of the main chain**, whatever it has found
before. -/
theorem findBlockByHeight_run (g : CBlockIndex) (wallets : W) {events : List HeightEvent}
    (h : Along (CachedNode.step params) (Unbroken params) { toNode := Node.genesis g wallets } events) {nHeight : ℕ}
    (hheight : nHeight ≤ (run (CachedNode.step params) { toNode := Node.genesis g wallets } events).best.nBestHeight) :
    let s := run (CachedNode.step params) { toNode := Node.genesis g wallets } events
    ∃ pblockindex, s.findBlockByHeight nHeight = some pblockindex ∧ pblockindex <:+ s.best.pindexBest ∧
      pblockindex.nHeight = nHeight := by
  intro s
  have hstart : CacheOk g { toNode := Node.genesis g wallets } :=
    ⟨Node.genesis_ok trivial wallets, fun pblockindex hlast => by cases hlast⟩
  have hok : CacheOk g s := invariant_of_along (fun _ _ _ hunbroken hI => hI.step hunbroken) h hstart
  exact hok.findBlockByHeight hheight

end CachedNode

/-! ### A run with a break -/

namespace HeightSample

open Sample

/-- Two blocks on top of `b₃`. -/
def d₄ : CBlock := block b₃ 4 [coinbase 4 3]
def d₅ : CBlock := block d₄ 5 [coinbase 5 3]

/-- The readings of `AcceptBlock` when no commit succeeds but that of the entry. -/
def uncommitted (nBlockPos : UInt32) : AcceptEnv :=
  { acceptEnv nBlockPos false with chain := ⟨fun _ => blockEnv false, false, fun _ => memPoolEnv⟩ }

/-- `b₂`, `b₃` and `d₄` are not committed when they come. When `d₅` comes, `Reorganize` connects `b₂`, and `b₃`, the
first of the postponed ones, fails. -/
def events : List HeightEvent :=
  [.chain (.block (acceptEnv 1000 true) b₁), .chain (.block (uncommitted 2000) b₂),
    .chain (.block (uncommitted 3000) b₃), .chain (.block (uncommitted 4000) d₄),
    .chain (.block (acceptEnv 5000 true) d₅), .find 2]

/-- The node after the first events. -/
def node (n : ℕ) : CachedNode Unit :=
  run (CachedNode.step CChainParams.test) { toNode := Node.genesis genesis () } (events.take n)

/-- With the first block, both blocks of the main chain are found. -/
theorem one_found : ∃ pblockindex, (node 1).findBlockByHeight 1 = some pblockindex ∧
    pblockindex <:+ (node 1).best.pindexBest ∧ pblockindex.nHeight = 1 := by
  have hfacts : (Node.genesis genesis ()).breaks CChainParams.test (.block (acceptEnv 1000 true) b₁) = false ∧
      1 ≤ (node 1).best.nBestHeight := by decide
  have hunbroken : Along (CachedNode.step CChainParams.test) (CachedNode.Unbroken CChainParams.test)
      { toNode := Node.genesis genesis () } (events.take 1) := ⟨hfacts.1, trivial⟩
  exact CachedNode.findBlockByHeight_run genesis () hunbroken hfacts.2

/-- **Above the block that was found last, `pnext` is `NULL`**, below the best block. -/
theorem gap_above : (node 6).best.nBestHeight = 5 ∧ (node 6).findBlockByHeight 3 = none := by
  decide +kernel

end HeightSample

end PayDayCoin
