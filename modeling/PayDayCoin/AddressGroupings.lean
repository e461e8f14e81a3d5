import PayDayCoin.Library.Overlaps
import PayDayCoin.Wallet
import Mathlib.Data.Finset.Sort
import Mathlib.Data.Finset.Union

/-!
# Address groupings

`GetAddressGroupings`: the addresses of the wallet's transactions come in groupings (`groupingsOf`), the inputs of a
transaction with its change, and each output of the wallet by itself. The groupings are merged through pointers to
sets on the heap, of which the old ones are deleted, and a map from each address to its set.
**`getAddressGroupings_partition`**: no deleted set is used, whatever addresses the heap gives to new sets and in
whatever order the groupings come, and the sets that are left are a partition of the addresses: two of them share a
set exactly if a chain of groupings links them. That the map knows the set of every address (`Sound`) is what each
merge keeps (`sound_mergeGrouping`).
-/

namespace PayDayCoin

open Library.Overlaps

/-- The wallet with its address book. -/
structure AddressWallet (CTxDestination : Type) where
  wallet : CWallet
  /-- The hashes of the wallet's transactions, in order. -/
  ids : List Uint256
  /-- `ExtractDestination`. -/
  extractDestination : CScript → Option CTxDestination
  /-- Whether an address is in `mapAddressBook`. -/
  inAddressBook : CTxDestination → Bool

namespace AddressWallet

variable {CTxDestination : Type} [DecidableEq CTxDestination] (s : AddressWallet CTxDestination)

/-- The output that an input spends, in a transaction of the wallet. -/
def spentOutput (txin : CTxIn) : Option CTxOut :=
  (s.wallet.mapWallet txin.prevout.hash).bind fun prev => prev.tx.vout[txin.prevout.n.toNat]?

/-- `CWallet::IsMine` of an input. -/
def isMineIn (txin : CTxIn) : Bool := (s.spentOutput txin).any s.wallet.isMineOut

/-- The address of an input that is the wallet's. -/
def inputAddress (txin : CTxIn) : Option CTxDestination :=
  if s.isMineIn txin then (s.spentOutput txin).bind fun txout => s.extractDestination txout.scriptPubKey else none

/-- `CWallet::IsChange`. -/
def isChange (txout : CTxOut) : Bool :=
  s.wallet.isMineScript txout.scriptPubKey &&
    match s.extractDestination txout.scriptPubKey with
    | none => true
    | some address => !s.inAddressBook address

/-- The address of an output that is change. -/
def changeAddress (txout : CTxOut) : Option CTxDestination :=
  if s.isChange txout then s.extractDestination txout.scriptPubKey else none

/-- The inputs of a transaction that are the wallet's, with the change; `any_mine` says that one has an address. -/
def inputGrouping (tx : CTransaction) : Finset CTxDestination :=
  if tx.vin.head?.any s.isMineIn then
    let grouping := (tx.vin.filterMap s.inputAddress).toFinset
    let any_mine := !(tx.vin.filterMap s.inputAddress).isEmpty
    if any_mine then grouping ∪ (tx.vout.filterMap s.changeAddress).toFinset else grouping
  else ∅

/-- An output that is the wallet's, by itself. -/
def loneGrouping (txout : CTxOut) : Option (Finset CTxDestination) :=
  if s.wallet.isMineOut txout then (s.extractDestination txout.scriptPubKey).map fun address => {address} else none

/-- The groupings of a transaction. -/
def groupingsOf (tx : CTransaction) : List (Finset CTxDestination) :=
  (if 0 < (s.inputGrouping tx).card then [s.inputGrouping tx] else []) ++ tx.vout.filterMap s.loneGrouping

/-- `groupings`: those of all transactions of the wallet. -/
def groupings : Finset (Finset CTxDestination) :=
  (s.ids.flatMap fun id =>
    match s.wallet.mapWallet id with
    | none => []
    | some wtx => s.groupingsOf wtx.tx).toFinset

/-- No grouping is empty. -/
theorem nonempty_of_mem_groupings {g : Finset CTxDestination} (h : g ∈ s.groupings) : g.Nonempty := by
  rw [groupings, List.mem_toFinset, List.mem_flatMap] at h
  obtain ⟨id, -, h⟩ := h
  cases hwtx : s.wallet.mapWallet id with
  | none =>
    rw [hwtx] at h
    cases h
  | some wtx =>
    rw [hwtx] at h
    dsimp only at h
    rw [groupingsOf, List.mem_append] at h
    rcases h with h | h
    · split at h
      · next hcard =>
        rw [List.mem_singleton] at h
        rw [h]
        exact Finset.card_pos.1 hcard
      · cases h
    · obtain ⟨txout, -, h⟩ := List.mem_filterMap.1 h
      rw [loneGrouping] at h
      split at h
      · obtain ⟨address, -, rfl⟩ := Option.map_eq_some_iff.1 h
        exact Finset.singleton_nonempty address
      · cases h

end AddressWallet

/-! ### The merge -/

/-- `operator new`: the address of a new set is not one of a set that is there. -/
structure SetAllocator where
  malloc : Finset ℕ → ℕ
  fresh : ∀ live, malloc live ∉ live

/-- There are always addresses left. -/
instance : Nonempty SetAllocator :=
  ⟨{ malloc := fun live => (Infinite.exists_notMem_finset live).choose
     fresh := fun live => (Infinite.exists_notMem_finset live).choose_spec }⟩

/-- The order of sets of addresses, which goes by their addresses. -/
structure SetOrder (CTxDestination : Type) where
  arrange : Finset (Finset CTxDestination) → List (Finset CTxDestination)
  nodup : ∀ sets, (arrange sets).Nodup
  mem : ∀ sets g, g ∈ arrange sets ↔ g ∈ sets

/-- The sets on the heap, and what points to them. -/
structure Merging (CTxDestination : Type) where
  /-- The addresses of the sets that are there. -/
  live : Finset ℕ := ∅
  value : ℕ → Finset CTxDestination := fun _ => ∅
  uniqueGroupings : Finset ℕ := ∅
  setmap : CTxDestination → Option ℕ := fun _ => none

namespace Merging

variable {CTxDestination : Type} [DecidableEq CTxDestination]

/-- The sets that a new grouping hits are inserted into the merged one, and deleted; `none` when one of the two is not
there. -/
def absorb (merged : ℕ) : List ℕ → Merging CTxDestination → Option (Merging CTxDestination)
  | [], m => some m
  | hit :: hits, m =>
    if hit ∈ m.live ∧ merged ∈ m.live then
      absorb merged hits
        { m with
          value := Function.update m.value merged (m.value merged ∪ m.value hit)
          uniqueGroupings := m.uniqueGroupings.erase hit
          live := m.live.erase hit }
    else none

/-- The sets that the map has for the addresses of a grouping. -/
def hits (grouping : Finset CTxDestination) (m : Merging CTxDestination) : Finset ℕ :=
  grouping.biUnion fun address => (m.setmap address).toFinset

/-- The elements of a set point to it. -/
def pointTo (merged : ℕ) (elements : Finset CTxDestination) (setmap : CTxDestination → Option ℕ)
    (element : CTxDestination) : Option ℕ :=
  if element ∈ elements then some merged else setmap element

/-- A turn of the loop over the groupings. -/
def mergeGrouping (a : SetAllocator) (m : Merging CTxDestination) (grouping : Finset CTxDestination) :
    Option (Merging CTxDestination) :=
  let merged := a.malloc m.live
  let hits := hits grouping m
  let m := { m with live := insert merged m.live, value := Function.update m.value merged grouping }
  (absorb merged (hits.sort (· ≤ ·)) m).bind fun m =>
    if merged ∈ m.live then
      some
        { m with
          uniqueGroupings := insert merged m.uniqueGroupings
          setmap := pointTo merged (m.value merged) m.setmap }
    else none

/-- The sets that are left are copied, and deleted. -/
def collect : List ℕ → Merging CTxDestination → Option (Finset (Finset CTxDestination))
  | [], _ => some ∅
  | uniqueGrouping :: rest, m =>
    if uniqueGrouping ∈ m.live then
      (collect rest { m with live := m.live.erase uniqueGrouping }).map (insert (m.value uniqueGrouping))
    else none

end Merging

/-- `CWallet::GetAddressGroupings`; `none` when a deleted set is used. -/
def AddressWallet.getAddressGroupings {CTxDestination : Type} [DecidableEq CTxDestination]
    (s : AddressWallet CTxDestination) (a : SetAllocator) (o : SetOrder CTxDestination) :
    Option (Finset (Finset CTxDestination)) :=
  ((o.arrange s.groupings).foldlM (Merging.mergeGrouping a) {}).bind fun m =>
    Merging.collect (m.uniqueGroupings.sort (· ≤ ·)) m

namespace Merging

variable {CTxDestination : Type} [DecidableEq CTxDestination] {m m' : Merging CTxDestination} {a : SetAllocator}

/-- The sets on the heap. -/
def blocks (m : Merging CTxDestination) : Set (Set CTxDestination) := {x | ∃ p ∈ m.live, x = ↑(m.value p)}

/-- The map knows the set of every address, and the sets are the components of the groupings so far. -/
structure Sound (G : Set (Set CTxDestination)) (m : Merging CTxDestination) : Prop where
  unique : m.uniqueGroupings = m.live
  setmap : ∀ address p, m.setmap address = some p ↔ p ∈ m.live ∧ address ∈ m.value p
  components : Components G m.blocks

omit [DecidableEq CTxDestination] in
theorem sound_start : Sound ∅ ({} : Merging CTxDestination) where
  unique := rfl
  setmap address p := by
    exact Iff.intro (fun h => absurd h.symm (Option.some_ne_none p)) fun h => absurd h.1 (Finset.notMem_empty p)
  components := by
    have hnone : ({} : Merging CTxDestination).blocks = ∅ := by
      rw [Set.eq_empty_iff_forall_notMem]
      rintro x ⟨p, hp, -⟩
      exact Finset.notMem_empty p hp
    rw [hnone]
    exact components_empty

/-- Sets that are there are inserted and deleted. -/
theorem absorb_eq {merged : ℕ} {hits : List ℕ} (hnodup : hits.Nodup) (hlive : ∀ hit ∈ hits, hit ∈ m.live)
    (hmerged : merged ∈ m.live) (hnew : merged ∉ hits) :
    absorb merged hits m = some
      { m with
        value := Function.update m.value merged (m.value merged ∪ hits.toFinset.biUnion m.value)
        uniqueGroupings := m.uniqueGroupings \ hits.toFinset
        live := m.live \ hits.toFinset } := by
  induction hits generalizing m with
  | nil =>
    rw [absorb, List.toFinset_nil, Finset.biUnion_empty, Finset.union_empty, Function.update_eq_self,
      Finset.sdiff_empty, Finset.sdiff_empty]
  | cons hit hits ih =>
    obtain ⟨hhit, hnodup⟩ := List.nodup_cons.1 hnodup
    obtain ⟨hne, hnew⟩ := List.ne_and_not_mem_of_not_mem_cons hnew
    rw [absorb, if_pos ⟨hlive hit List.mem_cons_self, hmerged⟩, ih hnodup ?_ ?_ hnew]
    · have hrest : hits.toFinset.biUnion (Function.update m.value merged (m.value merged ∪ m.value hit)) =
          hits.toFinset.biUnion m.value := by
        apply Finset.biUnion_congr rfl
        intro p hp
        rw [Function.update_of_ne]
        rintro rfl
        exact hnew (List.mem_toFinset.1 hp)
      dsimp only
      rw [Function.update_self, Function.update_idem, hrest, List.toFinset_cons, Finset.biUnion_insert,
        Finset.union_assoc, Finset.erase_sdiff_comm, Finset.erase_sdiff_comm, Finset.sdiff_insert,
        Finset.sdiff_insert]
    · intro p hp
      exact Finset.mem_erase.2 ⟨fun heq => hhit (heq ▸ hp), hlive p (List.mem_cons_of_mem hit hp)⟩
    · exact Finset.mem_erase.2 ⟨hne, hmerged⟩

omit [DecidableEq CTxDestination] in
theorem mem_hits {grouping : Finset CTxDestination} {G : Set (Set CTxDestination)} (h : m.Sound G) (p : ℕ) :
    p ∈ hits grouping m ↔ p ∈ m.live ∧ ∃ address ∈ grouping, address ∈ m.value p := by
  rw [hits, Finset.mem_biUnion]
  constructor
  · rintro ⟨address, hmem, hp⟩
    obtain ⟨hlive, hvalue⟩ := (h.setmap address p).1 (Option.mem_toFinset.1 hp)
    exact ⟨hlive, address, hmem, hvalue⟩
  · rintro ⟨hlive, address, hmem, hvalue⟩
    exact ⟨address, hmem, Option.mem_toFinset.2 ((h.setmap address p).2 ⟨hlive, hvalue⟩)⟩

/-- The set that takes the place of those that a grouping hits. -/
def mergedValue (grouping : Finset CTxDestination) (m : Merging CTxDestination) : Finset CTxDestination :=
  grouping ∪ (hits grouping m).biUnion m.value

/-- What a turn of the loop does. -/
def mergedInto (a : SetAllocator) (grouping : Finset CTxDestination) (m : Merging CTxDestination) :
    Merging CTxDestination where
  live := insert (a.malloc m.live) m.live \ hits grouping m
  value := Function.update m.value (a.malloc m.live) (mergedValue grouping m)
  uniqueGroupings := insert (a.malloc m.live) (m.uniqueGroupings \ hits grouping m)
  setmap := pointTo (a.malloc m.live) (mergedValue grouping m) m.setmap

theorem mergedInto_new (grouping : Finset CTxDestination) (m : Merging CTxDestination) :
    (mergedInto a grouping m).value (a.malloc m.live) = mergedValue grouping m := Function.update_self _ _ _

theorem mergedInto_old (grouping : Finset CTxDestination) {p : ℕ} (hp : p ∈ m.live) :
    (mergedInto a grouping m).value p = m.value p :=
  Function.update_of_ne (ne_of_mem_of_not_mem hp (a.fresh m.live)) _ _

/-- No turn of the loop uses a deleted set. -/
theorem mergeGrouping_eq {grouping : Finset CTxDestination} {G : Set (Set CTxDestination)} (h : m.Sound G) :
    mergeGrouping a m grouping = some (mergedInto a grouping m) := by
  have hlive : ∀ p ∈ hits grouping m, p ∈ m.live := fun p hp => ((mem_hits h p).1 hp).1
  have hfresh : a.malloc m.live ∉ hits grouping m := fun hp => a.fresh m.live (hlive _ hp)
  have hvalue : (hits grouping m).biUnion (Function.update m.value (a.malloc m.live) grouping) =
      (hits grouping m).biUnion m.value := by
    apply Finset.biUnion_congr rfl
    intro p hp
    rw [Function.update_of_ne]
    rintro rfl
    exact hfresh hp
  have hkept : a.malloc m.live ∈ insert (a.malloc m.live) m.live \ hits grouping m :=
    Finset.mem_sdiff.2 ⟨Finset.mem_insert_self _ _, hfresh⟩
  rw [mergeGrouping, absorb_eq (Finset.sort_nodup _ _)
    (fun p hp => Finset.mem_insert_of_mem (hlive p ((Finset.mem_sort _).1 hp)))
    (Finset.mem_insert_self _ _) (fun hp => hfresh ((Finset.mem_sort _).1 hp)), Option.bind_some]
  rw [Finset.sort_toFinset, if_pos hkept]
  dsimp only
  rw [Function.update_self, Function.update_idem, hvalue, Function.update_self]
  rfl

/-- The blocks after a turn are the merged ones. -/
theorem blocks_mergedInto {grouping : Finset CTxDestination} {G : Set (Set CTxDestination)} (h : m.Sound G) :
    (mergedInto a grouping m).blocks = merge m.blocks ↑grouping := by
  have hhit : ∀ p ∈ m.live, p ∈ hits grouping m ↔ ((m.value p : Set CTxDestination) ∩ grouping).Nonempty := by
    intro p hp
    rw [mem_hits h]
    exact ⟨fun ⟨_, x, hx, hxp⟩ => ⟨x, hxp, hx⟩, fun ⟨x, hxp, hx⟩ => ⟨hp, x, hx, hxp⟩⟩
  have hmerged : ((mergedValue grouping m : Finset CTxDestination) : Set CTxDestination) =
      ↑grouping ∪ ⋃₀ Library.Overlaps.hits m.blocks ↑grouping := by
    ext x
    rw [Finset.mem_coe, mergedValue, Finset.mem_union, Finset.mem_biUnion, Set.mem_union, Finset.mem_coe,
      Set.mem_sUnion]
    apply or_congr_right
    constructor
    · rintro ⟨p, hp, hx⟩
      have hlive := ((mem_hits h p).1 hp).1
      exact ⟨_, ⟨⟨p, hlive, rfl⟩, (hhit p hlive).1 hp⟩, hx⟩
    · rintro ⟨t, ⟨⟨p, hlive, rfl⟩, hmeet⟩, hx⟩
      exact ⟨p, (hhit p hlive).2 hmeet, hx⟩
  ext x
  rw [merge, ← hmerged, Set.mem_insert_iff]
  constructor
  · rintro ⟨p, hp, rfl⟩
    obtain ⟨hp, hmiss⟩ := Finset.mem_sdiff.1 hp
    rcases Finset.mem_insert.1 hp with rfl | hp
    · exact .inl (by rw [mergedInto_new])
    · rw [mergedInto_old grouping hp]
      exact .inr ⟨⟨p, hp, rfl⟩, fun hmeet => hmiss ((hhit p hp).2 hmeet)⟩
  · rintro (rfl | ⟨⟨p, hp, rfl⟩, hmiss⟩)
    · refine ⟨a.malloc m.live, Finset.mem_sdiff.2 ⟨Finset.mem_insert_self _ _, fun hp => ?_⟩, ?_⟩
      · exact a.fresh m.live ((mem_hits h _).1 hp).1
      · rw [mergedInto_new]
    · refine ⟨p, Finset.mem_sdiff.2 ⟨Finset.mem_insert_of_mem hp, fun hhits => hmiss ((hhit p hp).1 hhits)⟩, ?_⟩
      rw [mergedInto_old grouping hp]

/-- **A turn of the loop keeps that the map knows the set of every address.** -/
theorem sound_mergeGrouping {grouping : Finset CTxDestination} {G : Set (Set CTxDestination)} (h : m.Sound G)
    (hgrouping : grouping.Nonempty) : (mergedInto a grouping m).Sound (insert ↑grouping G) where
  unique := by
    have hfresh : a.malloc m.live ∉ hits grouping m := fun hp => a.fresh m.live ((mem_hits h _).1 hp).1
    rw [mergedInto, h.unique, Finset.insert_sdiff_of_notMem _ hfresh]
  setmap address p := by
    have hvalue : ∀ p ∈ m.live, (mergedInto a grouping m).value p = m.value p := fun p hp =>
      mergedInto_old grouping hp
    have hsame : ∀ p q, p ∈ m.live ∧ address ∈ m.value p → q ∈ m.live ∧ address ∈ m.value q → p = q := by
      intro p q hp hq
      rw [← Option.some_inj, ← (h.setmap address p).2 hp, ← (h.setmap address q).2 hq]
    by_cases hmem : address ∈ mergedValue grouping m
    · have hset : (mergedInto a grouping m).setmap address = some (a.malloc m.live) := if_pos hmem
      rw [hset, Option.some_inj]
      constructor
      · rintro rfl
        refine ⟨Finset.mem_sdiff.2 ⟨Finset.mem_insert_self _ _, fun hp => ?_⟩, ?_⟩
        · exact a.fresh m.live ((mem_hits h _).1 hp).1
        · rw [mergedInto_new]
          exact hmem
      · rintro ⟨hp, hin⟩
        obtain ⟨hp, hmiss⟩ := Finset.mem_sdiff.1 hp
        rcases Finset.mem_insert.1 hp with rfl | hp
        · rfl
        rw [hvalue p hp] at hin
        rw [mergedValue, Finset.mem_union, Finset.mem_biUnion] at hmem
        rcases hmem with hmem | ⟨q, hq, hin'⟩
        · exact absurd ((mem_hits h p).2 ⟨hp, address, hmem, hin⟩) hmiss
        · have heq := hsame p q ⟨hp, hin⟩ ⟨((mem_hits h q).1 hq).1, hin'⟩
          exact absurd (heq ▸ hq) hmiss
    · have hset : (mergedInto a grouping m).setmap address = m.setmap address := if_neg hmem
      rw [hset, h.setmap]
      constructor
      · rintro ⟨hp, hin⟩
        refine ⟨Finset.mem_sdiff.2 ⟨Finset.mem_insert_of_mem hp, fun hhit => hmem ?_⟩, ?_⟩
        · exact Finset.mem_union_right _ (Finset.mem_biUnion.2 ⟨p, hhit, hin⟩)
        · rw [hvalue p hp]
          exact hin
      · rintro ⟨hp, hin⟩
        obtain ⟨hp, -⟩ := Finset.mem_sdiff.1 hp
        rcases Finset.mem_insert.1 hp with rfl | hp
        · rw [mergedInto_new] at hin
          exact absurd hin hmem
        · rw [hvalue p hp] at hin
          exact ⟨hp, hin⟩
  components := by
    rw [blocks_mergedInto h]
    exact h.components.merge (Finset.coe_nonempty.2 hgrouping)

/-- The loop over the groupings. -/
theorem sound_groupings {groupings : List (Finset CTxDestination)} {G : Set (Set CTxDestination)} (h : m.Sound G)
    (hgroupings : ∀ g ∈ groupings, g.Nonempty) :
    ∃ m', groupings.foldlM (mergeGrouping a) m = some m' ∧ m'.Sound (G ∪ {x | ∃ g ∈ groupings, x = ↑g}) := by
  induction groupings generalizing m G with
  | nil =>
    refine ⟨m, rfl, ?_⟩
    have hnone : {x : Set CTxDestination | ∃ g ∈ ([] : List (Finset CTxDestination)), x = ↑g} = ∅ := by
      rw [Set.eq_empty_iff_forall_notMem]
      rintro x ⟨g, hg, -⟩
      exact List.not_mem_nil hg
    rw [hnone, Set.union_empty]
    exact h
  | cons g groupings ih =>
    rw [List.foldlM_cons, mergeGrouping_eq h]
    obtain ⟨m', hrun, hsound⟩ := ih (sound_mergeGrouping h (hgroupings g List.mem_cons_self))
      fun g' hg' => hgroupings g' (List.mem_cons_of_mem g hg')
    refine ⟨m', hrun, ?_⟩
    have hsets : insert (↑g) G ∪ {x : Set CTxDestination | ∃ g' ∈ groupings, x = ↑g'} =
        G ∪ {x | ∃ g' ∈ g :: groupings, x = ↑g'} := by
      ext x
      rw [Set.mem_union, Set.mem_insert_iff, Set.mem_union, or_assoc, or_left_comm]
      apply or_congr_right
      constructor
      · rintro (rfl | ⟨g', hg', rfl⟩)
        · exact ⟨g, List.mem_cons_self, rfl⟩
        · exact ⟨g', List.mem_cons_of_mem g hg', rfl⟩
      · rintro ⟨g', hg', rfl⟩
        rcases List.mem_cons.1 hg' with rfl | hg'
        · exact .inl rfl
        · exact .inr ⟨g', hg', rfl⟩
    rw [← hsets]
    exact hsound

/-- The sets that are left are all there. -/
theorem collect_eq {ps : List ℕ} (hnodup : ps.Nodup) (hlive : ∀ p ∈ ps, p ∈ m.live) :
    collect ps m = some (ps.toFinset.image m.value) := by
  induction ps generalizing m with
  | nil => rfl
  | cons p ps ih =>
    obtain ⟨hp, hnodup⟩ := List.nodup_cons.1 hnodup
    rw [collect, if_pos (hlive p List.mem_cons_self), ih hnodup, Option.map_some, List.toFinset_cons,
      Finset.image_insert]
    intro q hq
    exact Finset.mem_erase.2 ⟨fun heq => hp (heq ▸ hq), hlive q (List.mem_cons_of_mem p hq)⟩

end Merging

namespace AddressWallet

variable {CTxDestination : Type} [DecidableEq CTxDestination]

/-- **`GetAddressGroupings` uses no deleted set, and returns a partition of the addresses of the groupings**, in which
two addresses share a set exactly if a chain of groupings links them. -/
theorem getAddressGroupings_partition (s : AddressWallet CTxDestination) (a : SetAllocator)
    (o : SetOrder CTxDestination) :
    ∃ ret, s.getAddressGroupings a o = some ret ∧ ∅ ∉ ret ∧ (∀ x ∈ ret, ∀ y ∈ ret, x ≠ y → Disjoint x y) ∧
      (∀ address, (∃ x ∈ ret, address ∈ x) ↔ ∃ g ∈ s.groupings, address ∈ g) ∧
      ∀ address address', (∃ x ∈ ret, address ∈ x ∧ address' ∈ x) ↔ (∃ g ∈ s.groupings, address ∈ g) ∧
        Relation.ReflTransGen (fun b b' => ∃ g ∈ s.groupings, b ∈ g ∧ b' ∈ g) address address' := by
  have hnonempty : ∀ g ∈ o.arrange s.groupings, g.Nonempty :=
    fun g hg => s.nonempty_of_mem_groupings ((o.mem _ _).1 hg)
  obtain ⟨m, hrun, hsound⟩ := Merging.sound_groupings (a := a) Merging.sound_start hnonempty
  have hgroupings : (∅ ∪ {x : Set CTxDestination | ∃ g ∈ o.arrange s.groupings, x = ↑g}) =
      {x | ∃ g ∈ s.groupings, x = ↑g} := by
    rw [Set.empty_union]
    ext x
    exact exists_congr fun g => and_congr_left' (o.mem _ _)
  rw [hgroupings] at hsound
  have hblock : ∀ x : Finset CTxDestination, x ∈ m.live.image m.value ↔ (↑x : Set CTxDestination) ∈ m.blocks := by
    intro x
    rw [Finset.mem_image]
    exact ⟨fun ⟨p, hp, heq⟩ => ⟨p, hp, by rw [heq]⟩, fun ⟨p, hp, heq⟩ => ⟨p, hp, (Finset.coe_injective heq).symm⟩⟩
  have hof : ∀ x ∈ m.blocks, ∃ y ∈ m.live.image m.value, (↑y : Set CTxDestination) = x := by
    rintro x ⟨p, hp, rfl⟩
    exact ⟨m.value p, Finset.mem_image_of_mem _ hp, rfl⟩
  have hcover : ∀ address, (∃ g ∈ {x : Set CTxDestination | ∃ g ∈ s.groupings, x = ↑g}, address ∈ g) ↔
      ∃ g ∈ s.groupings, address ∈ g := by
    intro address
    exact ⟨fun ⟨_, ⟨g, hg, heq⟩, h⟩ => ⟨g, hg, Finset.mem_coe.1 (heq ▸ h)⟩, fun ⟨g, hg, h⟩ => ⟨g, ⟨g, hg, rfl⟩, h⟩⟩
  have hlinked : Linked {x : Set CTxDestination | ∃ g ∈ s.groupings, x = ↑g} =
      Relation.ReflTransGen fun b b' => ∃ g ∈ s.groupings, b ∈ g ∧ b' ∈ g := by
    rw [Linked]
    congr 1
    ext b b'
    exact ⟨fun ⟨_, ⟨g, hg, heq⟩, h, h'⟩ => ⟨g, hg, Finset.mem_coe.1 (heq ▸ h), Finset.mem_coe.1 (heq ▸ h')⟩,
      fun ⟨g, hg, h, h'⟩ => ⟨g, ⟨g, hg, rfl⟩, h, h'⟩⟩
  refine ⟨m.live.image m.value, ?_, ?_, ?_, ?_, ?_⟩
  · rw [getAddressGroupings, hrun, Option.bind_some, hsound.unique, Merging.collect_eq (Finset.sort_nodup _ _)
      (fun p hp => (Finset.mem_sort _).1 hp), Finset.sort_toFinset]
  · intro hempty
    obtain ⟨x, hx⟩ := hsound.components.nonempty _ ((hblock ∅).1 hempty)
    exact Finset.notMem_empty x (Finset.mem_coe.1 hx)
  · intro x hx y hy hne
    rw [Finset.disjoint_left]
    intro b hbx hby
    exact hne (Finset.coe_injective (hsound.components.eq_of_mem _ ((hblock x).1 hx) _ ((hblock y).1 hy) b hbx hby))
  · intro address
    rw [← hcover, ← hsound.components.cover]
    constructor
    · rintro ⟨x, hx, h⟩
      exact ⟨↑x, (hblock x).1 hx, h⟩
    · rintro ⟨x, hx, h⟩
      obtain ⟨y, hy, rfl⟩ := hof x hx
      exact ⟨y, hy, h⟩
  · intro address address'
    rw [← hcover, ← hlinked, ← hsound.components.exists_mem_iff]
    constructor
    · rintro ⟨x, hx, h, h'⟩
      exact ⟨↑x, (hblock x).1 hx, h, h'⟩
    · rintro ⟨x, hx, h, h'⟩
      obtain ⟨y, hy, rfl⟩ := hof x hx
      exact ⟨y, hy, h, h'⟩

end AddressWallet

end PayDayCoin
