import PayDayCoin.AddrManPlacement

/-!
# The calls of the address manager

`Sound` puts together what holds of the tables: the indexes, the places of the entries, the counts of tried and of new
entries, and that no id is used twice. Each call succeeds in sound tables, which is to say that no assertion fails, and
leaves sound tables: **`CAddrMan.Sound.add`**, **`CAddrMan.Sound.good`**, `CAddrMan.Sound.getAddr` and the others. Where a
bucket is full they go through **`CAddrMan.Sound.shrinkNew`** and **`CAddrMan.Sound.replaceTried`**.
-/

namespace PayDayCoin.CAddrMan

open Library.Buckets

variable {m m' : CAddrMan} {nId id : ℕ} {info : CAddrInfo} {f : CAddrInfo → CAddrInfo} {pend pend' : ℕ → Pending}

/-! ### Counts -/

theorem mem_of_standing {s : Standing} (h : m.standing id = some s) : id ∈ m.mapInfo :=
  have ⟨_, hlookup, _⟩ := standing_eq_some.1 h
  Finmap.mem_of_lookup_eq_some hlookup

/-- Whether the entry under an id is tried. -/
def flag (m : CAddrMan) (id : ℕ) : Option Bool := (m.mapInfo.lookup id).map CAddrInfo.fInTried

/-- The ids of the entries that are tried, or of those that are not. -/
def idsOf (m : CAddrMan) (fInTried : Bool) : Finset ℕ := m.mapInfo.keys.filter fun id => m.flag id = some fInTried

theorem flag_eq (m : CAddrMan) (id : ℕ) : m.flag id = (m.standing id).map Standing.fInTried := by
  rw [standing, Option.map_map]
  rfl

theorem flag_congr (h : m'.standing id = m.standing id) : m'.flag id = m.flag id := by rw [flag_eq, flag_eq, h]

theorem mem_idsOf {b : Bool} : id ∈ m.idsOf b ↔ m.flag id = some b := by
  rw [idsOf, Finset.mem_filter, Finmap.mem_keys, and_iff_right_of_imp]
  intro h
  obtain ⟨info, hlookup, -⟩ := Option.map_eq_some_iff.1 h
  exact Finmap.mem_of_lookup_eq_some hlookup

/-- How the counts change with one entry. -/
theorem card_idsOf (b : Bool) (h : ∀ id, id ≠ nId → m'.flag id = m.flag id) : ((m'.idsOf b).card : ℤ) =
    (m.idsOf b).card - (if m.flag nId = some b then 1 else 0) + if m'.flag nId = some b then 1 else 0 := by
  have hrest : (m'.idsOf b).erase nId = (m.idsOf b).erase nId := by
    ext id
    rw [Finset.mem_erase, Finset.mem_erase, mem_idsOf, mem_idsOf]
    exact and_congr_right fun hne => by rw [h id hne]
  have hcard : ∀ m : CAddrMan, ((m.idsOf b).card : ℤ) =
      ((m.idsOf b).erase nId).card + if m.flag nId = some b then 1 else 0 := by
    intro m
    split
    case isTrue hflag => exact_mod_cast (Finset.card_erase_add_one (mem_idsOf.2 hflag)).symm
    case isFalse hflag => rw [Finset.erase_eq_of_notMem fun hmem => hflag (mem_idsOf.1 hmem), add_zero]
  rw [hcard m', hrest, hcard m, add_sub_cancel_right]

/-- The counts stay when two entries trade their flags. -/
theorem card_idsOf_swap (b : Bool) {nIdOld : ℕ} (h : ∀ id, m'.flag id = m.flag (Equiv.swap nId nIdOld id)) :
    (m'.idsOf b).card = (m.idsOf b).card := by
  have hmap : m'.idsOf b = (m.idsOf b).map (Equiv.swap nId nIdOld).toEmbedding := by
    ext id
    rw [Finset.mem_map_equiv, Equiv.symm_swap, mem_idsOf, mem_idsOf, h]
  rw [hmap, Finset.card_map]

/-- The counts of the tables are right. -/
structure Counted (m : CAddrMan) : Prop where
  nTried : m.nTried = (m.idsOf true).card
  nNew : m.nNew = (m.idsOf false).card

/-- The counts only go by which entries are tried. -/
theorem Counted.congr (h : m.Counted) (hnTried : m'.nTried = m.nTried) (hnNew : m'.nNew = m.nNew)
    (hflag : ∀ id, m'.flag id = m.flag id) : m'.Counted := by
  have hids : ∀ b, m'.idsOf b = m.idsOf b := fun b => Finset.ext fun id => by rw [mem_idsOf, mem_idsOf, hflag]
  exact ⟨by rw [hnTried, h.nTried, hids], by rw [hnNew, h.nNew, hids]⟩

/-! ### Sound tables -/

variable [AddrManHash]

/-- The tables are as they have to be, but for what is pending. -/
structure Sound (pend : ℕ → Pending) (m : CAddrMan) : Prop where
  indexed : m.Indexed
  placed : Placed pend m
  counted : m.Counted
  fresh : ∀ id ∈ m.mapInfo, id < m.nIdCount

/-- An entry changed where neither its place nor the indexes go by it. -/
theorem Sound.modify {n : ℕ} (h : Sound pend m)
    (hf : ∀ info, (f info).standing = info.standing ∧ (f info).nRandomPos = info.nRandomPos) :
    Sound pend (m.modifyInfo n f) := by
  have hstanding : ∀ info, (f info).standing = info.standing := fun info => (hf info).1
  refine ⟨h.indexed.modify fun info => ⟨?_, (hf info).2⟩, h.placed.modify hstanding,
    h.counted.congr rfl rfl fun id => flag_congr (standing_modifyInfo_keep hstanding id),
    fun id hid => h.fresh id (mem_modifyInfo.1 hid)⟩
  exact congrArg (fun s => s.service.ip) (hstanding info)

theorem Sound.reordered (h : Sound pend m) (hm : m.Reordered m') (hindexed : m'.Indexed) : Sound pend m' := by
  refine ⟨hindexed, h.placed.reordered hm,
    h.counted.congr hm.nTried hm.nNew fun id => flag_congr (hm.standing id), fun id hid => ?_⟩
  rw [hm.nIdCount]
  refine h.fresh id ((h.indexed.mem id).1 ?_)
  rw [← hm.perm.mem_iff]
  exact (hindexed.mem id).2 hid

/-- The tables at the start. -/
theorem sound_empty (nKey : List UInt8) : Sound (fun _ => .settled) { nKey := nKey } := by
  refine ⟨⟨List.nodup_nil, fun id => ?_, fun id info hlookup => ?_, fun ip id => ?_⟩,
    ⟨fun id => .absent _ rfl ?_, fun _ => Nat.zero_le _, fun _ => Nat.zero_le _⟩, ⟨rfl, rfl⟩, fun id hid => ?_⟩
  · simp [Finmap.notMem_empty]
  · simp at hlookup
  · simp
  · simp [holders_eq_empty]
  · exact absurd hid Finmap.notMem_empty

/-! ### Making room in a new bucket -/

/-- An entry leaves a new bucket, and is no longer there if that was its last reference. -/
theorem Sound.leave (h : Sound pend m) {b : Fin ADDRMAN_NEW_BUCKET_COUNT} (hmem : nId ∈ m.vvNew b)
    (hpend : pend nId = .settled) (hlookup : m.mapInfo.lookup nId = some info) (hindexed : m'.Indexed)
    (hnKey : m'.nKey = m.nKey) (hnIdCount : m'.nIdCount = m.nIdCount) (hnTried : m'.nTried = m.nTried)
    (hnNew : m'.nNew = m.nNew - if info.nRefCount - 1 = 0 then 1 else 0) (htried : m'.vvTried = m.vvTried)
    (hnew : m'.vvNew = takeOut m.vvNew b nId) (hother : ∀ id, id ≠ nId → m'.standing id = m.standing id)
    (hself : m'.standing nId =
      if info.nRefCount - 1 = 0 then none else some ⟨info.toCService, info.fInTried, info.nRefCount - 1⟩) :
    Sound pend m' := by
  obtain ⟨service, nRefCount, hstanding, -⟩ := h.placed.new_of_mem hmem
  rw [standing_of_lookup hlookup, CAddrInfo.standing, Option.some.injEq, Standing.mk.injEq] at hstanding
  have hflag : info.fInTried = false := hstanding.2.1
  have hflag' : m'.flag nId = if info.nRefCount - 1 = 0 then none else some false := by
    rw [flag_eq, hself, hflag]
    split <;> rfl
  have hflagged : m.flag nId = some false := by rw [flag, hlookup, Option.map_some, hflag]
  have hcard : ∀ c, ((m'.idsOf c).card : ℤ) = _ := fun c => card_idsOf c fun id hne => flag_congr (hother id hne)
  simp only [hflag', hflagged] at hcard
  refine ⟨hindexed, h.placed.leave hmem hpend hlookup hnKey htried hnew hother hself, ⟨?_, ?_⟩, fun id hid => ?_⟩
  · rw [hnTried, h.counted.nTried, hcard]
    by_cases hzero : info.nRefCount - 1 = 0 <;> simp [hzero]
  · rw [hnNew, h.counted.nNew, hcard]
    by_cases hzero : info.nRefCount - 1 = 0 <;> simp [hzero]
  · rw [hnIdCount]
    rcases eq_or_ne id nId with rfl | hne
    · exact h.fresh id (Finmap.mem_of_lookup_eq_some hlookup)
    · obtain ⟨info', hlookup'⟩ := Finmap.mem_iff.1 hid
      exact h.fresh id (mem_of_standing ((hother id hne).symm.trans (standing_of_lookup hlookup')))

/-- Dropping an entry from a new bucket. -/
theorem Sound.dropNew (h : Sound pend m) {b : Fin ADDRMAN_NEW_BUCKET_COUNT} (hmem : nId ∈ m.vvNew b)
    (hpend : pend nId = .settled) :
    ∃ m', m.dropNew nId b = some m' ∧ Sound pend m' ∧ m'.nKey = m.nKey ∧ m'.vvNew = takeOut m.vvNew b nId ∧
      ∀ id, id ≠ nId → m'.standing id = m.standing id := by
  obtain ⟨service, nRefCount, hstanding, -⟩ := h.placed.new_of_mem hmem
  obtain ⟨info, hlookup, -⟩ := standing_eq_some.1 hstanding
  rw [CAddrMan.dropNew, hlookup]
  dsimp only
  set m₁ := m.modifyInfo nId fun info => { info with nRefCount := info.nRefCount - 1 } with hm₁
  have hindexed : m₁.Indexed := h.indexed.modify fun _ => ⟨rfl, rfl⟩
  have hlookup₁ : m₁.mapInfo.lookup nId = some { info with nRefCount := info.nRefCount - 1 } :=
    lookup_modifyInfo_self hlookup
  by_cases hzero : info.nRefCount - 1 = 0
  · obtain ⟨m₂, m₃, hreordered, hdelete, hindexed₃, hm₃⟩ := deleteEntry_spec hindexed hlookup₁ info rfl rfl
    have hself : m₃.standing nId = none := by
      rw [standing, hm₃, Finmap.lookup_erase, Option.map_none]
    have hother : ∀ id, id ≠ nId → m₃.standing id = m.standing id := by
      intro id hne
      rw [standing, hm₃, Finmap.lookup_erase_ne hne]
      exact (hreordered.standing id).trans (standing_modifyInfo_of_ne hne)
    have hkept : m₃.nKey = m.nKey ∧ m₃.nIdCount = m.nIdCount ∧ m₃.nTried = m.nTried ∧ m₃.nNew = m.nNew - 1 ∧
        m₃.vvTried = m.vvTried ∧ m₃.vvNew = m.vvNew := by
      rw [hm₃]
      refine ⟨hreordered.nKey, hreordered.nIdCount, hreordered.nTried, ?_, hreordered.vvTried, hreordered.vvNew⟩
      exact congrArg (· - 1) hreordered.nNew
    obtain ⟨hnKey, hnIdCount, hnTried, hnNew, htried, hnew⟩ := hkept
    rw [if_pos hzero, hdelete]
    refine ⟨_, rfl, ?_, hnKey, congrArg (takeOut · b nId) hnew, hother⟩
    exact h.leave hmem hpend hlookup ⟨hindexed₃.nodup, hindexed₃.mem, hindexed₃.pos, hindexed₃.addr⟩ hnKey hnIdCount
      hnTried (by rw [if_pos hzero]; exact hnNew) htried (congrArg (takeOut · b nId) hnew) hother
      (by rw [if_pos hzero]; exact hself)
  · rw [if_neg hzero]
    have hother : ∀ id, id ≠ nId → m₁.standing id = m.standing id := fun id hne => standing_modifyInfo_of_ne hne
    refine ⟨_, rfl, ?_, rfl, rfl, hother⟩
    exact h.leave hmem hpend hlookup ⟨hindexed.nodup, hindexed.mem, hindexed.pos, hindexed.addr⟩ rfl rfl rfl
      (by rw [if_neg hzero, sub_zero]; rfl) rfl rfl hother (by rw [if_neg hzero]; exact standing_of_lookup hlookup₁)

omit [AddrManHash] in
theorem getRandInt_lt {nMax : ℕ} (h : 0 < nMax) (draw : ℕ) : getRandInt nMax draw < nMax := by
  rw [getRandInt, if_neg h.ne']
  exact Nat.mod_lt _ h

omit [AddrManHash] in
/-- The search for a terrible entry ends at one of the entries, if at any. -/
theorem firstTerrible_spec (nNow : ℤ) : ∀ {ids : List ℕ}, (∀ id ∈ ids, id ∈ m.mapInfo) →
    ∃ r, m.firstTerrible nNow ids = some r ∧ ∀ id ∈ r, id ∈ ids
  | [], _ => ⟨none, rfl, fun _ hid => absurd hid (Option.not_mem_none _)⟩
  | nId :: ids, hknown => by
    obtain ⟨info, hlookup⟩ := Finmap.mem_iff.1 (hknown nId List.mem_cons_self)
    simp only [firstTerrible, hlookup]
    by_cases hterrible : info.isTerrible nNow = true
    · exact ⟨some nId, if_pos hterrible, fun id hid => Option.mem_some_iff.1 hid ▸ List.mem_cons_self⟩
    · obtain ⟨r, hr, hmem⟩ := firstTerrible_spec nNow fun id hid => hknown id (List.mem_cons_of_mem _ hid)
      exact ⟨r, (if_neg hterrible).trans hr, fun id hid => List.mem_cons_of_mem _ (hmem id hid)⟩

omit [AddrManHash] in
/-- The oldest of the entries that are picked is one of them, and there is one if any is picked. -/
theorem oldestPicked_spec (n : List ℕ) : ∀ (nI : ℕ) (ids : List ℕ) (nOldest : Option ℕ),
    (∀ id ∈ ids, id ∈ m.mapInfo) → (∀ id ∈ nOldest, id ∈ m.mapInfo) →
    ∃ r, m.oldestPicked n nI ids nOldest = some r ∧ (∀ id ∈ r, id ∈ ids ∨ id ∈ nOldest) ∧
      (nOldest.isSome ∨ (∃ i ∈ n, nI ≤ i ∧ i < nI + ids.length) → r.isSome)
  | nI, [], nOldest, _, _ => by
    refine ⟨nOldest, rfl, fun id hid => .inr hid, ?_⟩
    rintro (hsome | ⟨i, -, hle, hlt⟩)
    · exact hsome
    · exact absurd hlt (Nat.not_lt.2 hle)
  | nI, nId :: ids, nOldest, hknown, hold => by
    have hids : ∀ id ∈ ids, id ∈ m.mapInfo := fun id hid => hknown id (List.mem_cons_of_mem _ hid)
    have hnId : nId ∈ m.mapInfo := hknown nId List.mem_cons_self
    -- The rest of the entries, with one of those looked at so far held for the oldest.
    have hheld : ∀ id', id' ∈ m.mapInfo → (id' = nId ∨ id' ∈ nOldest) →
        ∃ r, m.oldestPicked n (nI + 1) ids (some id') = some r ∧ (∀ id ∈ r, id ∈ nId :: ids ∨ id ∈ nOldest) ∧
          r.isSome := by
      intro id' hid' horigin
      obtain ⟨r, hr, hmem, hsome⟩ := oldestPicked_spec n (nI + 1) ids (some id') hids
        fun id hid => Option.mem_some_iff.1 hid ▸ hid'
      refine ⟨r, hr, fun id hid => ?_, hsome (.inl rfl)⟩
      rcases hmem id hid with hid | hid
      · exact .inl (List.mem_cons_of_mem _ hid)
      · rw [← Option.mem_some_iff.1 hid]
        exact horigin.imp_left fun heq : id' = nId => heq ▸ List.mem_cons_self
    unfold oldestPicked
    by_cases hpicked : nI ∈ n
    · rw [if_pos hpicked]
      cases nOldest with
      | none =>
        obtain ⟨r, hr, hmem, hsome⟩ := hheld nId hnId (.inl rfl)
        exact ⟨r, hr, hmem, fun _ => hsome⟩
      | some nOld =>
        have hnOld : nOld ∈ m.mapInfo := hold nOld rfl
        obtain ⟨info, hlookup⟩ := Finmap.mem_iff.1 hnId
        obtain ⟨infoOld, hlookupOld⟩ := Finmap.mem_iff.1 hnOld
        simp only [hlookup, hlookupOld]
        obtain ⟨r, hr, hmem, hsome⟩ := hheld (if info.nTime < infoOld.nTime then nId else nOld)
          (by split <;> assumption) (by split; exacts [.inl rfl, .inr rfl])
        exact ⟨r, hr, hmem, fun _ => hsome⟩
    · rw [if_neg hpicked]
      obtain ⟨r, hr, hmem, hsome⟩ := oldestPicked_spec n (nI + 1) ids nOldest hids hold
      refine ⟨r, hr, fun id hid => (hmem id hid).imp_left (List.mem_cons_of_mem _), fun hany => hsome ?_⟩
      refine hany.imp_right ?_
      rintro ⟨i, hi, hle, hlt⟩
      have hne : nI ≠ i := fun heq => hpicked (heq ▸ hi)
      rw [List.length_cons] at hlt
      exact ⟨i, hi, by omega, by omega⟩

/-- `ShrinkNew` drops an entry of the bucket. -/
theorem Sound.shrinkNew (h : Sound pend m) {b : Fin ADDRMAN_NEW_BUCKET_COUNT} (hne : m.vvNew b ≠ ∅) (nNow : ℤ)
    (rnd : ℕ → ℕ) : ∃ nId ∈ m.vvNew b, m.shrinkNew b nNow rnd = m.dropNew nId b := by
  have hmem : ∀ id, id ∈ (m.vvNew b).sort (· ≤ ·) ↔ id ∈ m.vvNew b := fun id => Finset.mem_sort _
  have hknown : ∀ id ∈ (m.vvNew b).sort (· ≤ ·), id ∈ m.mapInfo := by
    intro id hid
    obtain ⟨service, nRefCount, hstanding, -⟩ := h.placed.new_of_mem ((hmem id).1 hid)
    exact mem_of_standing hstanding
  rw [CAddrMan.shrinkNew]
  obtain ⟨r, hr, hfirst⟩ := firstTerrible_spec nNow hknown
  cases r with
  | some nId => exact ⟨nId, (hmem nId).1 (hfirst nId rfl), by simp only [hr]⟩
  | none =>
    have hlength : 0 < ((m.vvNew b).sort (· ≤ ·)).length := by
      rw [Finset.length_sort]
      exact Finset.card_pos.2 (Finset.nonempty_iff_ne_empty.2 hne)
    obtain ⟨r', hr', holdest, hsome⟩ := oldestPicked_spec
      ((List.range 4).map fun i => getRandInt ((m.vvNew b).sort (· ≤ ·)).length (rnd i)) 0 _ none
      hknown fun _ hid => absurd hid (Option.not_mem_none _)
    obtain ⟨nOldest, rfl⟩ := Option.isSome_iff_exists.1 (hsome (.inr ⟨getRandInt _ (rnd 0),
      List.mem_map.2 ⟨0, by simp, rfl⟩, Nat.zero_le _, by
        rw [zero_add]
        exact getRandInt_lt hlength (rnd 0)⟩))
    rcases holdest nOldest rfl with hold | hold
    · exact ⟨nOldest, (hmem nOldest).1 hold, by simp only [hr, hr']⟩
    · exact absurd hold (Option.not_mem_none _)

/-! ### Giving a reference -/

theorem Sound.promise (h : Sound pend m) (hlookup : m.mapInfo.lookup nId = some info) (hnew : info.fInTried = false)
    (hless : info.nRefCount < ADDRMAN_NEW_BUCKETS_PER_ADDRESS) (hpend : pend nId ≠ .promised) :
    Sound (Function.update pend nId .promised)
      (m.modifyInfo nId fun info => { info with nRefCount := info.nRefCount + 1 }) := by
  refine ⟨h.indexed.modify fun _ => ⟨rfl, rfl⟩, h.placed.promise hlookup hnew hless hpend,
    h.counted.congr rfl rfl fun id => ?_, fun id hid => h.fresh id (mem_modifyInfo.1 hid)⟩
  rw [flag, flag, lookup_modifyInfo]
  split
  · rw [Option.map_map]
    rfl
  · rfl

theorem Sound.give (h : Sound pend m) (hpend : pend nId = .promised) (hid : nId ∈ m.mapInfo)
    {b : Fin ADDRMAN_NEW_BUCKET_COUNT} (hnot : nId ∉ m.vvNew b) (hroom : (m.vvNew b).card < ADDRMAN_NEW_BUCKET_SIZE) :
    Sound (Function.update pend nId .settled) { m with vvNew := put m.vvNew b nId } :=
  ⟨⟨h.indexed.nodup, h.indexed.mem, h.indexed.pos, h.indexed.addr⟩, h.placed.give hpend hid hnot hroom,
    ⟨h.counted.nTried, h.counted.nNew⟩, h.fresh⟩

/-- A new entry is put into the bucket of a source, and the reference is counted. -/
theorem Sound.refer {p : Pending} (h : Sound (Function.update (fun _ => .settled) nId p) m) (hp : p ≠ .promised)
    (hlookup : m.mapInfo.lookup nId = some info) (hnew : info.fInTried = false)
    (hless : info.nRefCount < ADDRMAN_NEW_BUCKETS_PER_ADDRESS) (hsettled : holders m.vvNew nId ≠ ∅ → p = .settled)
    (source : CNetAddr) (now : ℤ) (rnd : ℕ → ℕ) :
    ∃ m', m.refer nId source now rnd = some m' ∧ Sound (fun _ => .settled) m' := by
  rw [CAddrMan.refer, hlookup]
  dsimp only
  set b := info.getNewBucket m.nKey source
  by_cases hmem : nId ∈ m.vvNew b
  · obtain rfl := hsettled (Finset.ne_empty_of_mem (mem_holders.2 hmem))
    rw [Function.update_eq_self nId fun _ => Pending.settled] at h
    exact ⟨m, if_pos hmem, h⟩
  rw [if_neg hmem]
  have hpromised := h.promise hlookup hnew hless (by rw [Function.update_self]; exact hp)
  rw [Function.update_idem] at hpromised
  set m₁ := m.modifyInfo nId fun info => { info with nRefCount := info.nRefCount + 1 }
  have hnId : nId ∈ m₁.mapInfo := mem_modifyInfo.2 (Finmap.mem_of_lookup_eq_some hlookup)
  -- Whether or not the bucket has to make room, there is a place for the entry then.
  have hroom : ∃ m₂, (if (m₁.vvNew b).card = ADDRMAN_NEW_BUCKET_SIZE then m₁.shrinkNew b now rnd else some m₁) = some m₂ ∧
      Sound (Function.update (fun _ => .settled) nId .promised) m₂ ∧ nId ∈ m₂.mapInfo ∧ nId ∉ m₂.vvNew b ∧
      (m₂.vvNew b).card < ADDRMAN_NEW_BUCKET_SIZE := by
    by_cases hfull : (m₁.vvNew b).card = ADDRMAN_NEW_BUCKET_SIZE
    · have hne : m₁.vvNew b ≠ ∅ := fun hempty => by simp [hempty, ADDRMAN_NEW_BUCKET_SIZE] at hfull
      obtain ⟨nIdOld, hold, hshrink⟩ := hpromised.shrinkNew hne now rnd
      have hneId : nIdOld ≠ nId := fun heq => hmem (heq ▸ hold)
      obtain ⟨m₂, hdrop, hsound, -, hvvNew, hother⟩ :=
        hpromised.dropNew hold (by rw [Function.update_of_ne hneId])
      obtain ⟨info₁, hlookup₁⟩ := Finmap.mem_iff.1 hnId
      refine ⟨m₂, by rw [if_pos hfull, hshrink, hdrop], hsound, ?_, ?_, ?_⟩
      · exact mem_of_standing ((hother nId hneId.symm).trans (standing_of_lookup hlookup₁))
      · rw [hvvNew, mem_takeOut]
        exact fun hin => hmem hin.1
      · rw [hvvNew]
        exact card_takeOut_lt hpromised.placed.newSize hold
    · exact ⟨m₁, if_neg hfull, hpromised, hnId, hmem, lt_of_le_of_ne (hpromised.placed.newSize b) hfull⟩
  obtain ⟨m₂, hm₂, hsound, hin, hnot, hlt⟩ := hroom
  refine ⟨_, by rw [hm₂], ?_⟩
  have hgiven := hsound.give (Function.update_self ..) hin hnot hlt
  rwa [Function.update_idem, Function.update_eq_self nId fun _ => Pending.settled] at hgiven

/-! ### `Add_` -/

/-- A new entry of a new address. -/
theorem Sound.create (h : Sound pend m) {addr : CAddress} (haddr : m.find addr.ip = none) (source : CNetAddr) :
    Sound (Function.update pend m.nIdCount .free) { m.create addr source with nNew := m.nNew + 1 } := by
  have hid : m.nIdCount ∉ m.mapInfo := fun hmem => (h.fresh _ hmem).false
  have hindexed := h.indexed.enter { addr with source := source, nLastTry := 0 } hid
    (h.indexed.find_eq_none haddr)
  have hplaced := h.placed.enter { addr with source := source, nLastTry := 0 } hid rfl rfl
  have hother : ∀ id, id ≠ m.nIdCount → (m.create addr source).standing id = m.standing id := by
    intro id hne
    rw [standing, standing]
    exact congrArg _ (lookup_enter_of_ne hne)
  have hflag : m.flag m.nIdCount = none := by rw [flag, Finmap.lookup_eq_none.2 hid, Option.map_none]
  have hflag' : (m.create addr source).flag m.nIdCount = some false := by
    rw [flag]
    exact congrArg _ lookup_enter_self
  have htried := card_idsOf true fun id hne => flag_congr (hother id hne)
  have hnew := card_idsOf false fun id hne => flag_congr (hother id hne)
  simp only [hflag, hflag', reduceCtorEq, if_false, if_true, Option.some.injEq, sub_zero, add_zero] at htried hnew
  refine ⟨⟨hindexed.nodup, hindexed.mem, hindexed.pos, hindexed.addr⟩, ⟨hplaced.fits, hplaced.triedSize, hplaced.newSize⟩,
    ⟨?_, ?_⟩, fun id hmem => ?_⟩
  · exact h.counted.nTried.trans htried.symm
  · exact (congrArg (· + 1) h.counted.nNew).trans hnew.symm
  · rcases mem_enter.1 hmem with rfl | hmem
    · exact Nat.lt_succ_self _
    · exact (h.fresh id hmem).trans (Nat.lt_succ_self _)

/-- **`Add_`** keeps the tables sound. -/
theorem Sound.add (h : Sound (fun _ => .settled) m) (addr : CAddress) (source : CNetAddr) (nTimePenalty now : ℤ)
    (rnd : ℕ → ℕ) : ∃ m' fNew, m.add addr source nTimePenalty now rnd = some (m', fNew) ∧
      Sound (fun _ => .settled) m' := by
  rw [CAddrMan.add]
  split
  · exact ⟨m, false, rfl, h⟩
  cases hfind : m.find addr.ip with
  | some found =>
    obtain ⟨nId, info⟩ := found
    obtain ⟨hlookup, -⟩ := h.indexed.find_eq_some.1 hfind
    have hnoted : Sound (fun _ => .settled) (m.noteSeen nId addr nTimePenalty now) := h.modify fun _ => ⟨rfl, rfl⟩
    obtain ⟨info', hlookup'⟩ : ∃ info', (m.noteSeen nId addr nTimePenalty now).mapInfo.lookup nId = some info' :=
      ⟨_, lookup_modifyInfo_self hlookup⟩
    simp only [hlookup']
    by_cases hrefuses : refuses info' addr (rnd 0) = true
    · exact ⟨_, false, if_pos hrefuses, hnoted⟩
    rw [if_neg hrefuses]
    simp only [refuses, decide_eq_true_eq, not_or, Bool.not_eq_true] at hrefuses
    obtain ⟨-, -, hflag, hmost, -⟩ := hrefuses
    have hle := (hnoted.placed.of_new hlookup' hflag).2.2.2
    rw [← Function.update_eq_self nId fun _ => Pending.settled] at hnoted
    obtain ⟨m', hm', hsound⟩ := hnoted.refer (by decide) hlookup' hflag (lt_of_le_of_ne hle hmost) (fun _ => rfl)
      source now fun n => rnd (n + 1)
    exact ⟨m', false, by rw [hm', Option.map_some], hsound⟩
  | none =>
    have hcreated := (h.create hfind source).modify (n := m.nIdCount)
      (f := fun info => { info with nTime := UInt32.ofInt (max 0 (info.nTime.toNat - nTimePenalty)) })
      fun _ => ⟨rfl, rfl⟩
    have hempty : holders m.vvNew m.nIdCount = ∅ :=
      (h.placed.absent_of_notMem fun hmem => (h.fresh _ hmem).false).2.2
    obtain ⟨m', hm', hsound⟩ := hcreated.refer (by decide)
      (lookup_modifyInfo_self (m := { m.create addr source with nNew := m.nNew + 1 }) lookup_enter_self) rfl
      (by decide : (0 : ℤ) < ADDRMAN_NEW_BUCKETS_PER_ADDRESS) (fun hne => absurd hempty hne) source now rnd
    exact ⟨m', true, congrArg (Option.map fun m => (m, true)) hm', hsound⟩

/-! ### Moving an entry to the tried buckets -/

omit [AddrManHash] in
/-- The loop of `SelectTried` shuffles the bucket, and holds one of its positions once it has looked at one. -/
theorem selectTriedLoop_spec (rnd : ℕ → ℕ) : ∀ (is vTried : List ℕ) (oldest : Option (ℕ × ℕ)),
    (∀ i ∈ is, i < vTried.length) → (∀ id ∈ vTried, id ∈ m.mapInfo) →
    (∀ o ∈ oldest, o.1 ∈ m.mapInfo ∧ o.2 < vTried.length) →
    ∃ l r, m.selectTriedLoop rnd is vTried oldest = some (l, r) ∧ l.Perm vTried ∧ (∀ o ∈ r, o.2 < vTried.length) ∧
      (is ≠ [] ∨ oldest.isSome → r.isSome)
  | [], vTried, oldest, _, _, hold =>
    ⟨vTried, oldest, rfl, .refl _, fun o ho => (hold o ho).2, fun h => h.resolve_left fun hne => hne rfl⟩
  | i :: is, vTried, oldest, hlt, hknown, hold => by
    have hi : i < vTried.length := hlt i List.mem_cons_self
    have hpos : getRandInt (vTried.length - i) (rnd i) + i < vTried.length := by
      have := getRandInt_lt (Nat.sub_pos_of_lt hi) (rnd i)
      omega
    set nPos := getRandInt (vTried.length - i) (rnd i) + i with hnPos
    have htemp : vTried[nPos]? = some vTried[nPos] := List.getElem?_eq_getElem hpos
    have hget : vTried[i]? = some vTried[i] := List.getElem?_eq_getElem hi
    have hperm : ((vTried.set nPos vTried[i]).set i vTried[nPos]).Perm vTried := swap_perm htemp hget
    obtain ⟨o, holder, ho⟩ : ∃ o, m.older vTried[nPos] nPos oldest = some o ∧
        o.1 ∈ m.mapInfo ∧ o.2 < vTried.length := by
      have hnew : vTried[nPos] ∈ m.mapInfo := hknown _ (List.getElem_mem hpos)
      cases oldest with
      | none => exact ⟨_, rfl, hnew, hpos⟩
      | some o =>
        obtain ⟨infoTemp, hlookup⟩ := Finmap.mem_iff.1 hnew
        obtain ⟨infoOldest, hlookupOld⟩ := Finmap.mem_iff.1 (hold o rfl).1
        rw [older, hlookup, hlookupOld]
        dsimp only
        split
        · exact ⟨_, rfl, hnew, hpos⟩
        · exact ⟨_, rfl, hold o rfl⟩
    have hlength : ((vTried.set nPos vTried[i]).set i vTried[nPos]).length = vTried.length := by simp
    obtain ⟨l, r, hloop, hl, hr, hsome⟩ := selectTriedLoop_spec rnd is _ (some o)
      (fun j hj => hlength ▸ hlt j (List.mem_cons_of_mem _ hj)) (fun id hid => hknown id (hperm.mem_iff.1 hid))
      fun o' ho' => by
        rw [hlength, ← Option.mem_some_iff.1 ho']
        exact ho
    refine ⟨l, r, ?_, hl.trans hperm, fun o' ho' => hlength ▸ hr o' ho', fun _ => hsome (.inr rfl)⟩
    rw [selectTriedLoop]
    simp only [← hnPos, htemp, hget, holder, hloop]

/-- `SelectTried` of a full bucket shuffles it and gives one of its positions. -/
theorem Placed.selectTried (h : Placed pend m) {k : Fin ADDRMAN_TRIED_BUCKET_COUNT} (hne : m.vvTried k ≠ [])
    (rnd : ℕ → ℕ) : ∃ l nPos, m.selectTried k rnd = some ({ m with vvTried := Function.update m.vvTried k l }, nPos) ∧
      l.Perm (m.vvTried k) ∧ nPos < l.length := by
  have hlength : 0 < (m.vvTried k).length := List.length_pos_iff.2 hne
  have hcount : 0 < min ADDRMAN_TRIED_ENTRIES_INSPECT_ON_EVICT (m.vvTried k).length := lt_min (by decide) hlength
  obtain ⟨l, r, hloop, hperm, hpos, hsome⟩ := selectTriedLoop_spec (m := m) rnd
    (List.range (min ADDRMAN_TRIED_ENTRIES_INSPECT_ON_EVICT (m.vvTried k).length)) (m.vvTried k) none
    (fun i hi => (List.mem_range.1 hi).trans_le (min_le_right _ _))
    (fun id hid => by
      obtain ⟨service, hstanding, -⟩ := h.tried_of_mem hid
      exact mem_of_standing hstanding)
    fun o ho => absurd ho (Option.not_mem_none _)
  obtain ⟨⟨nOldest, nOldestPos⟩, rfl⟩ := Option.isSome_iff_exists.1 (hsome (.inl fun hnil => by
    rw [List.range_eq_nil] at hnil
    exact hcount.ne' hnil))
  refine ⟨l, nOldestPos, ?_, hperm, hperm.length_eq ▸ hpos _ rfl⟩
  rw [CAddrMan.selectTried]
  simp only [hloop]

/-- A tried entry goes back to a new bucket, and the entry without a bucket takes its place. -/
theorem Placed.replaceTried_spec (h : Placed (Function.update (fun _ => .settled) nId .free) m) (hindexed : m.Indexed)
    (hlookup : m.mapInfo.lookup nId = some info) (hflag : info.fInTried = false) (hzero : info.nRefCount = 0)
    (hempty : holders m.vvNew nId = ∅) {nPos : ℕ}
    (hpos : nPos < (m.vvTried (info.getTriedBucket m.nKey)).length) (nOrigin : Fin ADDRMAN_NEW_BUCKET_COUNT)
    (hroom : (m.vvNew nOrigin).card < ADDRMAN_NEW_BUCKET_SIZE) :
    ∃ m' nIdOld, m.replaceTried (info.getTriedBucket m.nKey) nPos nId nOrigin = some m' ∧ m'.Indexed ∧
      Placed (fun _ => .settled) m' ∧ m'.nTried = m.nTried ∧ m'.nNew = m.nNew + 1 ∧ m'.nIdCount = m.nIdCount ∧
      (∀ id ∈ m'.mapInfo, id ∈ m.mapInfo) ∧ ∀ id, m'.flag id = m.flag (Equiv.swap nId nIdOld id) := by
  have hget : (m.vvTried (info.getTriedBucket m.nKey))[nPos]? = some _ := List.getElem?_eq_getElem hpos
  set nIdOld := (m.vvTried (info.getTriedBucket m.nKey))[nPos]
  obtain ⟨service, hstanding, -⟩ := h.tried_of_mem (List.mem_of_getElem? hget)
  obtain ⟨infoOld, hold, hinfoOld⟩ := standing_eq_some.1 hstanding
  have hflagOld : infoOld.fInTried = true := congrArg Standing.fInTried hinfoOld
  have hne : nIdOld ≠ nId := by
    intro heq
    rw [heq, hlookup, Option.some.injEq] at hold
    rw [← hold, hflag] at hflagOld
    cases hflagOld
  set b := if (m.vvNew (infoOld.getNewBucket m.nKey infoOld.source)).card < ADDRMAN_NEW_BUCKET_SIZE then
    infoOld.getNewBucket m.nKey infoOld.source else nOrigin with hb
  have hbucket : (m.vvNew b).card < ADDRMAN_NEW_BUCKET_SIZE := by
    rw [hb]
    split
    · assumption
    · exact hroom
  set m₁ := m.modifyInfo nIdOld fun info => { info with fInTried := false, nRefCount := 1 }
  have hlookup₁ : m₁.mapInfo.lookup nId = some info := (lookup_modifyInfo_of_ne hne.symm).trans hlookup
  have hindexed₁ : m₁.Indexed := hindexed.modify fun _ => ⟨rfl, rfl⟩
  set m₂ : CAddrMan := { m₁ with
    vvNew := put m.vvNew b nIdOld
    nNew := m.nNew + 1
    vvTried := putAt m.vvTried (info.getTriedBucket m.nKey) nPos nId }
  have hindexed₂ : m₂.Indexed := ⟨hindexed₁.nodup, hindexed₁.mem, hindexed₁.pos, hindexed₁.addr⟩
  set m₃ := m₂.modifyInfo nId fun info => { info with fInTried := true }
  have hself : m₃.mapInfo.lookup nId = some { info with fInTried := true } := lookup_modifyInfo_self (m := m₂) hlookup₁
  have holdSelf : m₃.mapInfo.lookup nIdOld = some { infoOld with fInTried := false, nRefCount := 1 } :=
    (lookup_modifyInfo_of_ne hne).trans (lookup_modifyInfo_self hold)
  have hother : ∀ id, id ≠ nId → id ≠ nIdOld → m₃.mapInfo.lookup id = m.mapInfo.lookup id := fun id hid hidOld =>
    (lookup_modifyInfo_of_ne hid).trans (lookup_modifyInfo_of_ne hidOld)
  refine ⟨m₃, nIdOld, ?_, hindexed₂.modify fun _ => ⟨rfl, rfl⟩, ?_, rfl, rfl, rfl, fun id hid => ?_, fun id => ?_⟩
  · rw [CAddrMan.replaceTried]
    simp only [hget, hold]
    rfl
  · have hplaced : Placed _ m₃ := h.replaceTried hlookup hflag hempty hget hbucket rfl rfl rfl
      (fun id hid hidOld => congrArg _ (hother id hid hidOld))
      (by rw [standing_of_lookup hself, CAddrInfo.standing, hzero]) (standing_of_lookup holdSelf)
    rwa [Function.update_idem, Function.update_eq_self nId fun _ => Pending.settled] at hplaced
  · exact mem_modifyInfo.1 (mem_modifyInfo (m := m₂).1 hid)
  · rcases eq_or_ne id nId with rfl | hid
    · rw [Equiv.swap_apply_left, flag, flag, hself, hold]
      exact congrArg some hflagOld.symm
    · rcases eq_or_ne id nIdOld with rfl | hidOld
      · rw [Equiv.swap_apply_right, flag, flag, holdSelf, hlookup]
        exact congrArg some hflag.symm
      · rw [Equiv.swap_apply_of_ne_of_ne hid hidOld, flag, flag, hother id hid hidOld]

/-- **`MakeTried`** keeps the tables sound. -/
theorem Sound.makeTried (h : Sound (fun _ => .settled) m) {nOrigin : Fin ADDRMAN_NEW_BUCKET_COUNT}
    (hmem : nId ∈ m.vvNew nOrigin) (rnd : ℕ → ℕ) :
    ∃ m', m.makeTried nId nOrigin rnd = some m' ∧ Sound (fun _ => .settled) m' := by
  obtain ⟨service, nRefCount, hstanding, -⟩ := h.placed.new_of_mem hmem
  obtain ⟨info, hlookup, -⟩ := standing_eq_some.1 hstanding
  obtain ⟨hflag, hcount, hplaced⟩ := h.placed.leaveAll hmem rfl hlookup (m.nNew - 1)
  rw [CAddrMan.makeTried, if_neg (not_not.2 hmem)]
  dsimp only
  set m₀ : CAddrMan := { m with vvNew := takeOutAll m.vvNew nId, nNew := m.nNew - 1 }
  have hindexed₀ : m₀.Indexed := ⟨h.indexed.nodup, h.indexed.mem, h.indexed.pos, h.indexed.addr⟩
  set m₁ := m₀.modifyInfo nId fun info => { info with nRefCount := info.nRefCount - (holders m.vvNew nId).card }
  have hindexed : m₁.Indexed := hindexed₀.modify fun _ => ⟨rfl, rfl⟩
  obtain ⟨info₁, hlookup₁, hservice₁, hflag₁, hzero⟩ : ∃ info₁, m₁.mapInfo.lookup nId = some info₁ ∧
      info₁.toCService = info.toCService ∧ info₁.fInTried = false ∧ info₁.nRefCount = 0 :=
    ⟨_, lookup_modifyInfo_self (m := m₀) hlookup, rfl, hflag, by simp only [hcount, sub_self]⟩
  have hflags : ∀ id, m₁.flag id = m.flag id := by
    intro id
    rcases eq_or_ne id nId with rfl | hne
    · rw [flag, flag, hlookup₁, hlookup, Option.map_some, Option.map_some, hflag₁, hflag]
    · exact congrArg _ (lookup_modifyInfo_of_ne hne)
  have hids : ∀ b, m₁.idsOf b = m.idsOf b := fun b => Finset.ext fun id => by rw [mem_idsOf, mem_idsOf, hflags]
  have hfresh : ∀ id ∈ m₁.mapInfo, id < m.nIdCount := fun id hid => h.fresh id (mem_modifyInfo (m := m₀).1 hid)
  have hempty : holders m₁.vvNew nId = ∅ := holders_takeOutAll_self
  simp only [hlookup₁, if_neg (not_not.2 hzero)]
  by_cases hroom : (m₁.vvTried (info₁.getTriedBucket m₁.nKey)).length < ADDRMAN_TRIED_BUCKET_SIZE
  · rw [if_pos hroom]
    have hpushed := hplaced.pushTried hlookup₁ hflag₁ hzero hempty hroom (m₁.nTried + 1)
    rw [Function.update_idem, Function.update_eq_self nId fun _ => Pending.settled] at hpushed
    set m₂ : CAddrMan := { m₁ with
      vvTried := push m₁.vvTried (info₁.getTriedBucket m₁.nKey) nId
      nTried := m₁.nTried + 1 }
    have hindexed₂ : m₂.Indexed := ⟨hindexed.nodup, hindexed.mem, hindexed.pos, hindexed.addr⟩
    set m₃ := m₂.modifyInfo nId fun info => { info with fInTried := true }
    have hself : m₃.flag nId = some true := congrArg _ (lookup_modifyInfo_self (m := m₂) hlookup₁)
    have hother : ∀ id, id ≠ nId → m₃.flag id = m₁.flag id := fun id hne => congrArg _ (lookup_modifyInfo_of_ne hne)
    have hold : m₁.flag nId = some false := by rw [flag, hlookup₁, Option.map_some, hflag₁]
    have htried := card_idsOf true hother
    have hnew := card_idsOf false hother
    simp only [hself, hold, hids, Option.some.injEq, reduceCtorEq, if_true, if_false, sub_zero, add_zero] at htried hnew
    refine ⟨m₃, rfl, hindexed₂.modify fun _ => ⟨rfl, rfl⟩, hpushed, ⟨?_, ?_⟩, fun id hid => ?_⟩
    · rw [htried, ← h.counted.nTried]
      rfl
    · rw [hnew, ← h.counted.nNew]
      rfl
    · exact hfresh id (mem_modifyInfo (m := m₂).1 hid)
  · rw [if_neg hroom]
    have hfull : m₁.vvTried (info₁.getTriedBucket m₁.nKey) ≠ [] := fun hnil => by
      rw [hnil] at hroom
      exact hroom (by decide)
    obtain ⟨l, nPos, hselect, hperm, hpos⟩ := hplaced.selectTried hfull rnd
    simp only [hselect]
    have hshuffled := hplaced.shuffle hperm
    set m₂ : CAddrMan := { m₁ with vvTried := Function.update m₁.vvTried (info₁.getTriedBucket m₁.nKey) l }
    have hindexed₂ : m₂.Indexed := ⟨hindexed.nodup, hindexed.mem, hindexed.pos, hindexed.addr⟩
    have hpos₂ : nPos < (m₂.vvTried (info₁.getTriedBucket m₂.nKey)).length := by
      have hbucket : m₂.vvTried (info₁.getTriedBucket m₂.nKey) = l := Function.update_self ..
      rwa [hbucket]
    obtain ⟨m₃, nIdOld, hreplace, hindexed₃, hplaced₃, hnTried, hnNew, hnIdCount, hknown, hswap⟩ :=
      hshuffled.replaceTried_spec hindexed₂ hlookup₁ hflag₁ hzero hempty hpos₂
        nOrigin (card_takeOutAll_lt h.placed.newSize hmem)
    have hcard : ∀ b, (m₃.idsOf b).card = (m.idsOf b).card := fun b => (card_idsOf_swap b hswap).trans
      (congrArg Finset.card (hids b))
    refine ⟨m₃, hreplace, hindexed₃, hplaced₃, ⟨?_, ?_⟩, fun id hid => ?_⟩
    · rw [hcard, ← h.counted.nTried, hnTried]
      rfl
    · rw [hcard, ← h.counted.nNew, hnNew]
      exact sub_add_cancel _ _
    · rw [hnIdCount]
      exact hfresh id (hknown id hid)

/-! ### The other calls -/

/-- **`Good_`** keeps the tables sound. -/
theorem Sound.good (h : Sound (fun _ => .settled) m) (addr : CService) (nTime : ℤ) (rnd : ℕ → ℕ) :
    ∃ m', m.good addr nTime rnd = some m' ∧ Sound (fun _ => .settled) m' := by
  rw [CAddrMan.good]
  cases hfind : m.find addr.ip with
  | none => exact ⟨m, rfl, h⟩
  | some found =>
    obtain ⟨nId, info⟩ := found
    dsimp only
    split
    · exact ⟨m, rfl, h⟩
    have hnoted : Sound (fun _ => .settled) (m.modifyInfo nId fun info =>
        { info with nLastSuccess := nTime, nLastTry := nTime, nTime := UInt32.ofInt nTime, nAttempts := 0 }) :=
      h.modify fun _ => ⟨rfl, rfl⟩
    split
    · exact ⟨_, rfl, hnoted⟩
    split
    · exact ⟨_, rfl, hnoted⟩
    next nUBucket hbucket =>
      have hmem := List.find?_some hbucket
      exact hnoted.makeTried (of_decide_eq_true hmem) _

/-- **`Attempt_`** keeps the tables sound. -/
theorem Sound.attempt (h : Sound pend m) (addr : CService) (nTime : ℤ) : Sound pend (m.attempt addr nTime) := by
  rw [CAddrMan.attempt]
  split
  · exact h
  split
  · exact h
  · exact h.modify fun _ => ⟨rfl, rfl⟩

/-- **`Connected_`** keeps the tables sound. -/
theorem Sound.connected (h : Sound pend m) (addr : CService) (nTime : ℤ) : Sound pend (m.connected addr nTime) := by
  rw [CAddrMan.connected]
  split
  · exact h
  split
  · exact h
  · refine h.modify fun info => ?_
    split <;> exact ⟨rfl, rfl⟩

/-- What holds of the loop of `GetAddr_`. -/
theorem Sound.getAddrLoop (rnd : ℕ → ℕ) : ∀ (left n : ℕ) {m : CAddrMan}, Sound pend m → n + left ≤ m.vRandom.length →
    ∃ m' vAddr, CAddrMan.getAddrLoop rnd left m n = some (m', vAddr) ∧ Sound pend m'
  | 0, _, m, h, _ => ⟨m, [], rfl, h⟩
  | left + 1, n, m, h, hle => by
    have hn : n < m.vRandom.length := by omega
    have hpos : getRandInt (m.vRandom.length - n) (rnd n) + n < m.vRandom.length := by
      have := getRandInt_lt (Nat.sub_pos_of_lt hn) (rnd n)
      omega
    obtain ⟨m₁, hswap, hindexed, hreordered, hvRandom⟩ := swapRandom_spec h.indexed
      (List.getElem?_eq_getElem hn) (List.getElem?_eq_getElem hpos)
    have hlength : m₁.vRandom.length = m.vRandom.length := hreordered.perm.length_eq
    have hget : m₁.vRandom[n]? = some _ := List.getElem?_eq_getElem (hlength ▸ hn)
    obtain ⟨info, hlookup⟩ := Finmap.mem_iff.1 ((hindexed.mem _).1 (List.mem_of_getElem? hget))
    obtain ⟨m', vAddr, hloop, hsound⟩ := Sound.getAddrLoop rnd left (n + 1)
      (h.reordered hreordered hindexed) (by rw [hlength]; omega)
    refine ⟨m', info.toCAddress :: vAddr, ?_, hsound⟩
    rw [CAddrMan.getAddrLoop, hswap]
    simp only [hget, hlookup, hloop, Option.map_some]

/-- **`GetAddr_`** keeps the tables sound. -/
theorem Sound.getAddr (h : Sound pend m) (rnd : ℕ → ℕ) : ∃ m' vAddr, m.getAddr rnd = some (m', vAddr) ∧ Sound pend m' := by
  refine Sound.getAddrLoop rnd _ _ h ?_
  rw [zero_add]
  refine (min_le_left _ _).trans (Nat.div_le_of_le_mul ?_)
  exact Nat.mul_le_mul_right _ (by decide)

/-- No assertion of `Select_` fails. -/
theorem Sound.select (h : Sound pend m) (fTried : Bool) (draws : List SelectDraw) :
    ∃ r, m.select fTried draws = some r := by
  have hknown : ∀ d, ∀ id ∈ m.selectBucket fTried d, id ∈ m.mapInfo := by
    intro d id hid
    rw [selectBucket] at hid
    split at hid
    · obtain ⟨service, hstanding, -⟩ := h.placed.tried_of_mem hid
      exact mem_of_standing hstanding
    · obtain ⟨service, nRefCount, hstanding, -⟩ := h.placed.new_of_mem ((Finset.mem_sort _).1 hid)
      exact mem_of_standing hstanding
  rw [CAddrMan.select]
  split
  · exact ⟨_, rfl⟩
  induction draws with
  | nil => exact ⟨none, rfl⟩
  | cons d draws ih =>
    rw [selectLoop]
    by_cases hempty : m.selectBucket fTried d = []
    · simpa only [if_pos hempty] using ih
    · have hget := List.getElem?_eq_getElem (getRandInt_lt (List.length_pos_iff.2 hempty) d.nPos)
      obtain ⟨info, hlookup⟩ := Finmap.mem_iff.1 (hknown d _ (List.mem_of_getElem? hget))
      simp only [if_neg hempty, hget, hlookup]
      split
      · exact ⟨_, rfl⟩
      · exact ih

end PayDayCoin.CAddrMan
