import PayDayCoin.Library.Runs
import PayDayCoin.Library.SortedMaps

/-!
# Maps of limited size

A `limitedmap` has a map and a multimap from the values to the entries of the map, by which it finds the entry of the
lowest value when there is no more room. An insertion makes room as soon as the new entry fills the map, and before the
new entry is in the multimap.

**`right_iff_room`**: in a run of operations, the two maps agree, nothing undefined happens, and every insertion leaves
the entries of the highest values, if and only if no insertion of a new key fills a map of limited size or overfills it.
-/

namespace PayDayCoin

open Library.Runs Library.SortedMaps

/-- A `limitedmap`: an iterator into `map` is the key of its entry. -/
structure LimitedMap (K V : Type) where
  map : List (K × V) := []
  rmap : List (V × K) := []
  nMaxSize : ℕ

/-- What changes a `limitedmap`; `update` has an iterator, which is one of an entry. -/
inductive MapOp (K V : Type) where
  | insert (k : K) (v : V)
  | erase (k : K)
  | update (k : K) (v : V)
  | maxSize (s : ℕ)

namespace LimitedMap

variable {K V : Type} [LinearOrder K] [LinearOrder V]

/-- `map.erase(rmap.begin()->second); rmap.erase(rmap.begin());`, which needs an entry in `rmap`. -/
def evict (m : LimitedMap K V) : Option (LimitedMap K V) :=
  match m.rmap with
  | [] => none
  | (_, k) :: rest =>
    if (get? m.map k).isSome then some { m with map := Library.SortedMaps.erase m.map k, rmap := rest } else none

/-- `limitedmap::insert`. -/
def insert (m : LimitedMap K V) (k : K) (v : V) : Option (LimitedMap K V) :=
  if (get? m.map k).isSome then some m
  else do
    let m := { m with map := set m.map k v }
    let m ← if m.nMaxSize ≠ 0 ∧ m.map.length = m.nMaxSize then m.evict else some m
    pure { m with rmap := insertEqual m.rmap v k }

/-- `limitedmap::erase`: `none` is the assertion. -/
def erase (m : LimitedMap K V) (k : K) : Option (LimitedMap K V) :=
  match get? m.map k with
  | none => some m
  | some v =>
    if (v, k) ∈ m.rmap then some { m with map := Library.SortedMaps.erase m.map k, rmap := m.rmap.erase (v, k) } else none

/-- `limitedmap::update`: `none` is the assertion. -/
def update (m : LimitedMap K V) (k : K) (v : V) : Option (LimitedMap K V) :=
  match get? m.map k with
  | none => some m
  | some old =>
    if (old, k) ∈ m.rmap then
      some { m with map := set m.map k v, rmap := insertEqual (m.rmap.erase (old, k)) v k }
    else none

/-- The loop of `limitedmap::max_size`, for so many turns. -/
def shrink (s : ℕ) : ℕ → LimitedMap K V → Option (LimitedMap K V)
  | 0, m => some m
  | fuel + 1, m => if s < m.map.length then m.evict.bind (shrink s fuel) else some m

/-- `limitedmap::max_size`. -/
def maxSize (m : LimitedMap K V) (s : ℕ) : Option (LimitedMap K V) :=
  if s = 0 then some { m with nMaxSize := s }
  else (shrink s m.map.length m).map fun m => { m with nMaxSize := s }

/-- An operation; `none` is an assertion that fails, or an entry that is not there. -/
def step (m : LimitedMap K V) : MapOp K V → Option (LimitedMap K V)
  | .insert k v => m.insert k v
  | .erase k => m.erase k
  | .update k v => m.update k v
  | .maxSize s => m.maxSize s

/-! ### What the map is for -/

/-- One entry of `rmap` for each of `map`, both in their order. -/
structure Linked (m : LimitedMap K V) : Prop where
  keys : Sorted m.map
  values : m.rmap.Pairwise fun a b => a.1 ≤ b.1
  perm : (m.rmap.map Prod.swap).Perm m.map

/-- Of the entries of `m` and a new one, so many of the highest values as there is room for. -/
def KeepsHighest (m m' : LimitedMap K V) (e : K × V) : Prop :=
  m'.map.length = min m.nMaxSize (m.map.length + 1) ∧
    ∃ dropped, (m'.map ++ dropped).Perm (e :: m.map) ∧ ∀ kept ∈ m'.map, ∀ d ∈ dropped, d.2 ≤ kept.2

/-- An operation is defined and keeps the maps together; and an insertion of a new key keeps the highest values. -/
def Right (m : LimitedMap K V) (op : MapOp K V) : Prop :=
  ∃ m', m.step op = some m' ∧ m'.Linked ∧
    ∀ k v, op = .insert k v → get? m.map k = none → m.nMaxSize ≠ 0 → m.KeepsHighest m' (k, v)

/-- A new key does not fill a map of limited size. -/
def Room (m : LimitedMap K V) (op : MapOp K V) : Prop :=
  ∀ k v, op = .insert k v → get? m.map k = none → m.nMaxSize ≠ 0 → m.map.length + 1 < m.nMaxSize

/-! ### What the operations keep -/

section Steps

variable {m m' : LimitedMap K V} {k : K} {v : V}

/-- An entry of `map` is found in `rmap`. -/
theorem Linked.mem_rmap (h : m.Linked) (hget : get? m.map k = some v) : (v, k) ∈ m.rmap := by
  obtain ⟨⟨w, i⟩, he, heq⟩ := List.mem_map.1 (h.perm.mem_iff.2 (mem_of_get? hget))
  obtain ⟨rfl, rfl⟩ := Prod.mk.inj heq
  exact he

theorem Linked.get?_of_mem_rmap (h : m.Linked) (hmem : (v, k) ∈ m.rmap) : get? m.map k = some v :=
  get?_of_mem h.keys (h.perm.mem_iff.1 (List.mem_map_of_mem hmem) : (k, v) ∈ m.map)

/-- Without an entry in both maps. -/
theorem Linked.perm_erase (h : m.Linked) {rest : List (V × K)} (hget : get? m.map k = some v)
    (hrest : m.rmap.Perm ((v, k) :: rest)) : (rest.map Prod.swap).Perm (Library.SortedMaps.erase m.map k) := by
  have hmap := Library.SortedMaps.perm_erase h.keys hget
  have hrmap : (m.rmap.map Prod.swap).Perm ((k, v) :: rest.map Prod.swap) := hrest.map Prod.swap
  exact (hrmap.symm.trans (h.perm.trans hmap)).cons_inv

/-- With a new entry in both maps. -/
theorem Linked.perm_insert {map : List (K × V)} {rmap : List (V × K)} (hkeys : Sorted map)
    (hperm : (rmap.map Prod.swap).Perm (Library.SortedMaps.erase map k)) :
    ((insertEqual rmap v k).map Prod.swap).Perm (set map k v) := by
  have hrmap : ((insertEqual rmap v k).map Prod.swap).Perm ((k, v) :: rmap.map Prod.swap) :=
    (perm_insertEqual rmap v k).map Prod.swap
  exact hrmap.trans ((hperm.cons _).trans (perm_set hkeys k v).symm)

theorem Linked.erase (h : m.Linked) (k : K) : ∃ m', m.erase k = some m' ∧ m'.Linked := by
  rw [LimitedMap.erase]
  rcases hget : get? m.map k with _ | v
  · exact ⟨m, rfl, h⟩
  · have hmem := h.mem_rmap hget
    dsimp only
    rw [if_pos hmem]
    exact ⟨_, rfl, h.keys.erase k, h.values.sublist List.erase_sublist,
      h.perm_erase hget (List.perm_cons_erase hmem)⟩

theorem Linked.update (h : m.Linked) (k : K) (v : V) : ∃ m', m.update k v = some m' ∧ m'.Linked := by
  rw [LimitedMap.update]
  rcases hget : get? m.map k with _ | old
  · exact ⟨m, rfl, h⟩
  · have hmem := h.mem_rmap hget
    dsimp only
    rw [if_pos hmem]
    exact ⟨_, rfl, h.keys.set k v, pairwise_insertEqual (h.values.sublist List.erase_sublist) v k,
      Linked.perm_insert h.keys (h.perm_erase hget (List.perm_cons_erase hmem))⟩

/-- There is an entry to evict, and one less behind it. -/
theorem Linked.evict (h : m.Linked) (hne : m.map ≠ []) :
    ∃ m', m.evict = some m' ∧ m'.Linked ∧ m'.map.length + 1 = m.map.length := by
  rw [LimitedMap.evict]
  rcases hrmap : m.rmap with _ | ⟨⟨v, k⟩, rest⟩
  · refine absurd (List.length_eq_zero_iff.1 ?_) hne
    rw [← h.perm.length_eq, hrmap]
    rfl
  · have hget := h.get?_of_mem_rmap (hrmap ▸ List.mem_cons_self : (v, k) ∈ m.rmap)
    have hvalues := h.values
    rw [hrmap] at hvalues
    dsimp only
    rw [hget, Option.isSome_some, if_pos rfl]
    exact ⟨_, rfl, ⟨h.keys.erase k, (List.pairwise_cons.1 hvalues).2, h.perm_erase hget (hrmap ▸ .refl _)⟩,
      length_erase_of_sorted h.keys (mem_of_get? hget)⟩

theorem Linked.shrink (h : m.Linked) (s fuel : ℕ) : ∃ m', m.shrink s fuel = some m' ∧ m'.Linked := by
  induction fuel generalizing m with
  | zero => exact ⟨m, rfl, h⟩
  | succ fuel ih =>
    rw [LimitedMap.shrink]
    split
    · next hlt =>
      obtain ⟨m₁, hevict, h₁, -⟩ := h.evict (List.ne_nil_of_length_pos (Nat.zero_lt_of_lt hlt))
      rw [hevict, Option.bind_some]
      exact ih h₁
    · exact ⟨m, rfl, h⟩

theorem Linked.maxSize (h : m.Linked) (s : ℕ) : ∃ m', m.maxSize s = some m' ∧ m'.Linked := by
  rw [LimitedMap.maxSize]
  split
  · exact ⟨_, rfl, h.keys, h.values, h.perm⟩
  · obtain ⟨m₁, hshrink, h₁⟩ := h.shrink s m.map.length
    rw [hshrink, Option.map_some]
    exact ⟨_, rfl, h₁.keys, h₁.values, h₁.perm⟩

/-- A new key that leaves the others alone. -/
theorem Linked.insert (h : m.Linked) (hget : get? m.map k = none)
    (hroom : ¬ (m.nMaxSize ≠ 0 ∧ m.map.length + 1 = m.nMaxSize)) :
    ∃ m', m.insert k v = some m' ∧ m'.Linked ∧ m'.map.Perm ((k, v) :: m.map) := by
  have hset := perm_set h.keys k v
  rw [erase_of_get?_eq_none h.keys hget] at hset
  have hlength := hset.length_eq
  rw [List.length_cons] at hlength
  rw [LimitedMap.insert, hget, Option.isSome_none, if_neg Bool.false_ne_true]
  dsimp only
  rw [hlength, if_neg hroom]
  refine ⟨_, rfl, ⟨h.keys.set k v, pairwise_insertEqual h.values v k, Linked.perm_insert h.keys ?_⟩, hset⟩
  rw [erase_of_get?_eq_none h.keys hget]
  exact h.perm

/-- An insertion that fills the map makes room, so that one entry is missing. -/
theorem Linked.length_insert (h : m.Linked) (hget : get? m.map k = none)
    (hfull : m.nMaxSize ≠ 0 ∧ m.map.length + 1 = m.nMaxSize) (hinsert : m.insert k v = some m') :
    m'.map.length = m.map.length := by
  have hset := perm_set h.keys k v
  rw [erase_of_get?_eq_none h.keys hget] at hset
  have hlength := hset.length_eq
  rw [List.length_cons] at hlength
  rw [LimitedMap.insert, hget, Option.isSome_none, if_neg Bool.false_ne_true] at hinsert
  dsimp only at hinsert
  rw [hlength, if_pos hfull, LimitedMap.evict] at hinsert
  rcases hrmap : m.rmap with _ | ⟨⟨w, i⟩, rest⟩
  · rw [hrmap] at hinsert
    cases hinsert
  · rw [hrmap] at hinsert
    dsimp only at hinsert
    split at hinsert
    · next hsome =>
      obtain ⟨a, ha⟩ := Option.isSome_iff_exists.1 hsome
      have hshorter := length_erase_of_sorted (h.keys.set k v) (mem_of_get? ha)
      obtain rfl := Option.some.inj hinsert
      dsimp only at hshorter ⊢
      omega
    · cases hinsert

/-- **An operation is right if and only if there is room for a new key.** -/
theorem Linked.right_iff (h : m.Linked) (op : MapOp K V) : m.Right op ↔ m.Room op := by
  constructor
  · rintro ⟨m', hstep, hlinked, hkeeps⟩ k v rfl hget hmax
    obtain ⟨hlength, -⟩ := hkeeps k v rfl hget hmax
    by_contra hroom
    by_cases hfull : m.map.length + 1 = m.nMaxSize
    · have hsame := h.length_insert hget ⟨hmax, hfull⟩ hstep
      omega
    · obtain ⟨m₁, hinsert, -, hperm⟩ := h.insert (v := v) hget (fun hboth => hfull hboth.2)
      obtain rfl := Option.some.inj (hstep.symm.trans hinsert)
      have hmore := hperm.length_eq
      rw [List.length_cons] at hmore
      omega
  · intro hroom
    cases op with
    | insert k v =>
      rcases hget : get? m.map k with _ | old
      · have hfits : ¬ (m.nMaxSize ≠ 0 ∧ m.map.length + 1 = m.nMaxSize) := by
          rintro ⟨hmax, hfull⟩
          have hlt := hroom k v rfl hget hmax
          omega
        obtain ⟨m', hinsert, hlinked, hperm⟩ := h.insert (v := v) hget hfits
        refine ⟨m', hinsert, hlinked, ?_⟩
        rintro k' v' heq - hmax
        cases heq
        have hlt := hroom k v rfl hget hmax
        refine ⟨?_, [], by rwa [List.append_nil], fun _ _ d hd => absurd hd List.not_mem_nil⟩
        rw [hperm.length_eq, List.length_cons, min_eq_right hlt.le]
      · refine ⟨m, ?_, h, ?_⟩
        · rw [step, LimitedMap.insert, hget, Option.isSome_some, if_pos rfl]
        · rintro k' v' heq hnone
          cases heq
          rw [hget] at hnone
          cases hnone
    | erase k =>
      obtain ⟨m', hstep, hlinked⟩ := h.erase k
      exact ⟨m', hstep, hlinked, fun k v heq => by cases heq⟩
    | update k v =>
      obtain ⟨m', hstep, hlinked⟩ := h.update k v
      exact ⟨m', hstep, hlinked, fun k v heq => by cases heq⟩
    | maxSize s =>
      obtain ⟨m', hstep, hlinked⟩ := h.maxSize s
      exact ⟨m', hstep, hlinked, fun k v heq => by cases heq⟩

end Steps

/-! ### Runs -/

/-- A run ends where an operation is not defined. -/
def next (m : Option (LimitedMap K V)) (op : MapOp K V) : Option (LimitedMap K V) := m.bind fun m => m.step op

/-- A new map. -/
def empty (nMaxSize : ℕ) : LimitedMap K V where
  nMaxSize := nMaxSize

/-- **A run is right if and only if each new key finds room**: it does not fill or overfill a map of limited size. -/
theorem right_iff_room (nMaxSize : ℕ) (ops : List (MapOp K V)) :
    Along next (fun m op => ∃ m₁, m = some m₁ ∧ m₁.Right op) (some (empty nMaxSize)) ops ↔
      Along next (fun m op => ∃ m₁, m = some m₁ ∧ m₁.Room op) (some (empty nMaxSize)) ops := by
  have hempty : (empty nMaxSize : LimitedMap K V).Linked := ⟨List.Pairwise.nil, List.Pairwise.nil, .refl _⟩
  refine along_iff_along (I := fun m => ∃ m₁, m = some m₁ ∧ m₁.Linked) ?_ ?_ ⟨_, rfl, hempty⟩
  · rintro _ op ⟨m, rfl, hlinked⟩
    constructor
    · rintro ⟨m₁, heq, hright⟩
      obtain rfl := Option.some.inj heq
      exact ⟨m, rfl, (hlinked.right_iff op).1 hright⟩
    · rintro ⟨m₁, heq, hroom⟩
      obtain rfl := Option.some.inj heq
      exact ⟨m, rfl, (hlinked.right_iff op).2 hroom⟩
  · rintro _ op - ⟨m, rfl, m', hstep, hlinked, -⟩
    exact ⟨m', hstep, hlinked⟩

/-- **Entries are lost**: a map for one entry has nothing to evict for it, and a map for two entries keeps the lower
one of two. -/
theorem room_missing :
    run next (some (empty 1)) [MapOp.insert 1 5] = (none : Option (LimitedMap ℕ ℕ)) ∧
      run next (some (empty 2)) [MapOp.insert 1 5, MapOp.insert 2 3] =
        some ⟨[(2, 3)], [(3, 2)], 2⟩ ∧
      ¬ (⟨[], [], 1⟩ : LimitedMap ℕ ℕ).Right (.insert 1 5) ∧
      ¬ (⟨[(1, 5)], [(5, 1)], 2⟩ : LimitedMap ℕ ℕ).Right (.insert 2 3) := by
  refine ⟨rfl, rfl, ?_, ?_⟩
  · rintro ⟨m', hstep, -⟩
    cases hstep
  · rintro ⟨m', hstep, -, hkeeps⟩
    obtain rfl := Option.some.inj hstep
    have hlength := (hkeeps 2 3 rfl rfl (by decide)).1
    exact absurd hlength (by decide)

end LimitedMap

end PayDayCoin
