import PayDayCoin.AddrManIndex

/-!
# Where the entries of the address manager are

`Fits` says where one entry has to be: a tried one in its bucket, once, and nowhere else; a new one in as many new
buckets as it counts references. In the middle of a call an entry may be without a bucket (`free`), or count a reference
that it is yet to be given (`promised`). `Placed` says it of all entries, and that no bucket is over its size; each
change of the tables moves an entry from one of these to the next.
-/

namespace PayDayCoin

open Library.Buckets

/-- What `Fits` reads of an entry. -/
structure Standing where
  service : CService
  fInTried : Bool
  nRefCount : ℤ

/-- What the call that is going on still has to do for an entry. -/
inductive Pending where
  | settled
  | free
  | promised
deriving DecidableEq

namespace Pending

/-- The references that are counted and not yet given. -/
def owed : Pending → ℤ
  | settled => 0
  | free => 0
  | promised => 1

/-- The fewest references that a new entry may count. -/
def least : Pending → ℤ
  | settled => 1
  | free => 0
  | promised => 0

end Pending

section Fits

variable [AddrManHash]

/-- An entry is where it has to be: `tally` is how often it is in each tried bucket, and `holders` are the new buckets
that it is in. -/
inductive Fits (nKey : List UInt8) (tally : Fin ADDRMAN_TRIED_BUCKET_COUNT → ℕ)
    (holders : Finset (Fin ADDRMAN_NEW_BUCKET_COUNT)) : Pending → Option Standing → Prop
  | absent (p : Pending) : tally = 0 → holders = ∅ → Fits nKey tally holders p none
  | tried (service : CService) : tally = Pi.single (service.getTriedBucket nKey) 1 → holders = ∅ →
      Fits nKey tally holders .settled (some ⟨service, true, 0⟩)
  | new (p : Pending) (service : CService) (nRefCount : ℤ) : tally = 0 → nRefCount = holders.card + p.owed →
      p.least ≤ nRefCount → nRefCount ≤ ADDRMAN_NEW_BUCKETS_PER_ADDRESS →
      Fits nKey tally holders p (some ⟨service, false, nRefCount⟩)

end Fits

def CAddrInfo.standing (info : CAddrInfo) : Standing := ⟨info.toCService, info.fInTried, info.nRefCount⟩

namespace CAddrMan

variable {m m' : CAddrMan} {nId id : ℕ} {info : CAddrInfo} {f : CAddrInfo → CAddrInfo} {pend pend' : ℕ → Pending}

/-- What the tables hold under an id, as far as `Fits` reads it. -/
def standing (m : CAddrMan) (id : ℕ) : Option Standing := (m.mapInfo.lookup id).map CAddrInfo.standing

theorem standing_of_lookup (h : m.mapInfo.lookup id = some info) : m.standing id = some info.standing := by
  rw [standing, h, Option.map_some]

theorem standing_eq_some {s : Standing} :
    m.standing id = some s ↔ ∃ info, m.mapInfo.lookup id = some info ∧ info.standing = s := Option.map_eq_some_iff

theorem standing_modifyInfo_self (h : m.mapInfo.lookup nId = some info) :
    (m.modifyInfo nId f).standing nId = some (f info).standing := standing_of_lookup (lookup_modifyInfo_self h)

theorem standing_modifyInfo_of_ne (h : id ≠ nId) : (m.modifyInfo nId f).standing id = m.standing id := by
  rw [standing, lookup_modifyInfo_of_ne h, standing]

/-- A change that `Fits` does not read. -/
theorem standing_modifyInfo_keep (hf : ∀ info, (f info).standing = info.standing) (id : ℕ) :
    (m.modifyInfo nId f).standing id = m.standing id := by
  rw [standing, standing, lookup_modifyInfo]
  split
  · rw [Option.map_map]
    exact congrArg (fun g => Option.map g _) (funext hf)
  · rfl

theorem Reordered.standing (h : m.Reordered m') (id : ℕ) : m'.standing id = m.standing id := by
  have hentry := congrArg (Option.map CAddrInfo.standing) (h.entry id)
  rwa [Option.map_map, Option.map_map] at hentry

variable [AddrManHash]

/-- Every entry is where it has to be, and no bucket is over its size. -/
structure Placed (pend : ℕ → Pending) (m : CAddrMan) : Prop where
  fits : ∀ id, Fits m.nKey (tally m.vvTried id) (holders m.vvNew id) (pend id) (m.standing id)
  triedSize : ∀ k, (m.vvTried k).length ≤ ADDRMAN_TRIED_BUCKET_SIZE
  newSize : ∀ b, (m.vvNew b).card ≤ ADDRMAN_NEW_BUCKET_SIZE

/-- An entry in a new bucket is a new one. -/
theorem Placed.new_of_mem (h : Placed pend m) {b : Fin ADDRMAN_NEW_BUCKET_COUNT} (hmem : nId ∈ m.vvNew b) :
    ∃ service nRefCount, m.standing nId = some ⟨service, false, nRefCount⟩ ∧ tally m.vvTried nId = 0 ∧
      nRefCount = (holders m.vvNew nId).card + (pend nId).owed ∧ (pend nId).least ≤ nRefCount ∧
      nRefCount ≤ ADDRMAN_NEW_BUCKETS_PER_ADDRESS := by
  have hfits := h.fits nId
  have hne : holders m.vvNew nId ≠ ∅ := Finset.ne_empty_of_mem (mem_holders.2 hmem)
  generalize m.standing nId = s at hfits ⊢
  generalize pend nId = p at hfits ⊢
  cases hfits with
  | absent _ _ hempty => exact absurd hempty hne
  | tried _ _ hempty => exact absurd hempty hne
  | new _ service nRefCount htally hcount hleast hmost =>
    exact ⟨service, nRefCount, rfl, htally, hcount, hleast, hmost⟩

/-- An entry in a tried bucket is a tried one, and this is its bucket. -/
theorem Placed.tried_of_mem (h : Placed pend m) {k : Fin ADDRMAN_TRIED_BUCKET_COUNT} (hmem : nId ∈ m.vvTried k) :
    ∃ service, m.standing nId = some ⟨service, true, 0⟩ ∧ service.getTriedBucket m.nKey = k ∧
      tally m.vvTried nId = Pi.single k 1 ∧ holders m.vvNew nId = ∅ ∧ pend nId = .settled := by
  have hfits := h.fits nId
  have hne : tally m.vvTried nId ≠ 0 := fun hzero => not_mem_of_tally_eq_zero hzero hmem
  generalize hstanding : m.standing nId = s at hfits
  generalize hp : pend nId = p at hfits
  cases hfits with
  | absent _ hzero => exact absurd hzero hne
  | new _ _ _ hzero => exact absurd hzero hne
  | tried service htally hempty =>
    obtain rfl := (mem_of_tally_eq_single htally).1 hmem
    exact ⟨service, rfl, rfl, htally, hempty, rfl⟩

/-- What is said of an entry that is not tried. -/
theorem Placed.of_new (h : Placed pend m) (hlookup : m.mapInfo.lookup nId = some info) (hflag : info.fInTried = false) :
    tally m.vvTried nId = 0 ∧ info.nRefCount = (holders m.vvNew nId).card + (pend nId).owed ∧
      (pend nId).least ≤ info.nRefCount ∧ info.nRefCount ≤ ADDRMAN_NEW_BUCKETS_PER_ADDRESS := by
  have hfits := h.fits nId
  rw [standing_of_lookup hlookup, CAddrInfo.standing, hflag] at hfits
  generalize pend nId = p at hfits ⊢
  cases hfits with
  | new _ _ _ htally hcount hleast hmost => exact ⟨htally, hcount, hleast, hmost⟩

/-- The entries stay placed in tables with the same buckets. -/
theorem Placed.congr (h : Placed pend m) (hnKey : m'.nKey = m.nKey) (htried : m'.vvTried = m.vvTried)
    (hnew : m'.vvNew = m.vvNew) (hstanding : ∀ id, m'.standing id = m.standing id) : Placed pend m' := by
  refine ⟨fun id => ?_, htried ▸ h.triedSize, hnew ▸ h.newSize⟩
  rw [hnKey, htried, hnew, hstanding]
  exact h.fits id

theorem Placed.modify (h : Placed pend m) (hf : ∀ info, (f info).standing = info.standing) :
    Placed pend (m.modifyInfo nId f) := h.congr rfl rfl rfl (standing_modifyInfo_keep hf)

theorem Placed.reordered (h : Placed pend m) (hm : m.Reordered m') : Placed pend m' :=
  h.congr hm.nKey hm.vvTried hm.vvNew hm.standing

/-- **The step of a placement**: what is said of the ids that a step leaves alone carries over. -/
theorem Placed.step (h : Placed pend m) (touched : ℕ → Prop) (hnKey : m'.nKey = m.nKey)
    (htriedSize : ∀ k, (m'.vvTried k).length ≤ ADDRMAN_TRIED_BUCKET_SIZE)
    (hnewSize : ∀ b, (m'.vvNew b).card ≤ ADDRMAN_NEW_BUCKET_SIZE)
    (hframe : ∀ id, ¬touched id → tally m'.vvTried id = tally m.vvTried id ∧
      holders m'.vvNew id = holders m.vvNew id ∧ pend' id = pend id ∧ m'.standing id = m.standing id)
    (htouched : ∀ id, touched id →
      Fits m.nKey (tally m'.vvTried id) (holders m'.vvNew id) (pend' id) (m'.standing id)) : Placed pend' m' := by
  refine ⟨fun id => ?_, htriedSize, hnewSize⟩
  rw [hnKey]
  by_cases htouch : touched id
  · exact htouched id htouch
  · obtain ⟨htally, hholders, hpend, hstanding⟩ := hframe id htouch
    rw [htally, hholders, hpend, hstanding]
    exact h.fits id

/-! ### Moves -/

/-- What is said of an entry that is not there. -/
theorem Placed.absent_of_notMem (h : Placed pend m) (hid : nId ∉ m.mapInfo) :
    m.standing nId = none ∧ tally m.vvTried nId = 0 ∧ holders m.vvNew nId = ∅ := by
  have hstanding : m.standing nId = none := by rw [standing, Finmap.lookup_eq_none.2 hid, Option.map_none]
  have hfits := h.fits nId
  rw [hstanding] at hfits
  generalize pend nId = p at hfits
  cases hfits with
  | absent _ htally hempty => exact ⟨hstanding, htally, hempty⟩

/-- A new entry is in no bucket yet. -/
theorem Placed.enter (h : Placed pend m) (info : CAddrInfo) (hid : nId ∉ m.mapInfo) (htried : info.fInTried = false)
    (hcount : info.nRefCount = 0) : Placed (Function.update pend nId .free) (m.enter nId info) := by
  obtain ⟨-, htally, hempty⟩ := h.absent_of_notMem hid
  refine h.step (· = nId) rfl h.triedSize h.newSize (fun id hne => ⟨rfl, rfl, ?_, ?_⟩) ?_
  · exact Function.update_of_ne hne _ _
  · rw [standing, lookup_enter_of_ne hne, standing]
  · rintro id rfl
    rw [standing_of_lookup lookup_enter_self, Function.update_self, CAddrInfo.standing, htried, hcount]
    exact .new _ _ _ htally (by simp [CAddrMan.enter, hempty, Pending.owed]) (by decide) (by decide)

/-- A new entry counts a reference before it is put into a bucket. -/
theorem Placed.promise (h : Placed pend m) (hlookup : m.mapInfo.lookup nId = some info)
    (hnew : info.fInTried = false) (hless : info.nRefCount < ADDRMAN_NEW_BUCKETS_PER_ADDRESS)
    (hpend : pend nId ≠ .promised) : Placed (Function.update pend nId .promised)
      (m.modifyInfo nId fun info => { info with nRefCount := info.nRefCount + 1 }) := by
  refine h.step (· = nId) rfl h.triedSize h.newSize (fun id hne => ⟨rfl, rfl, ?_, ?_⟩) ?_
  · exact Function.update_of_ne hne _ _
  · exact standing_modifyInfo_of_ne hne
  · rintro id rfl
    obtain ⟨htally, hcount, hleast, -⟩ := h.of_new hlookup hnew
    rw [standing_modifyInfo_self hlookup, Function.update_self, CAddrInfo.standing, hnew]
    generalize pend id = p at hcount hleast hpend
    have howed : p.owed = 0 := by cases p <;> simp_all [Pending.owed]
    have hzero : 0 ≤ p.least := by cases p <;> decide
    refine .new _ _ _ htally ?_ ?_ hless
    · rw [modifyInfo_vvNew, hcount, howed, add_zero, Pending.owed]
    · exact (hzero.trans hleast).trans (Int.le_add_one le_rfl)

/-- The promised reference is given. -/
theorem Placed.give (h : Placed pend m) (hpend : pend nId = .promised) (hid : nId ∈ m.mapInfo)
    {b : Fin ADDRMAN_NEW_BUCKET_COUNT} (hnot : nId ∉ m.vvNew b) (hroom : (m.vvNew b).card < ADDRMAN_NEW_BUCKET_SIZE) :
    Placed (Function.update pend nId .settled) { m with vvNew := put m.vvNew b nId } := by
  refine h.step (· = nId) rfl h.triedSize (card_put_le h.newSize hroom)
    (fun id hne => ⟨rfl, holders_put_of_ne hne, Function.update_of_ne hne _ _, rfl⟩) ?_
  rintro id rfl
  have hfits := h.fits id
  obtain ⟨info, hlookup⟩ := Finmap.mem_iff.1 hid
  change Fits _ _ _ _ (m.standing id)
  rw [holders_put_self, Function.update_self]
  rw [hpend] at hfits
  generalize hs : m.standing id = s at hfits ⊢
  cases hfits with
  | absent => exact absurd (hs.symm.trans (standing_of_lookup hlookup)) (Option.some_ne_none _).symm
  | new _ _ _ htally hcount hleast hmost =>
    refine .new _ _ _ htally ?_ ?_ hmost
    · rw [Finset.card_insert_of_notMem fun hmem => hnot (mem_holders.1 hmem), hcount]
      simp [Pending.owed]
    · rw [hcount]
      simp [Pending.owed, Pending.least]

/-- An entry leaves a new bucket, and is no longer there if that was its last reference. -/
theorem Placed.leave (h : Placed pend m) {b : Fin ADDRMAN_NEW_BUCKET_COUNT} (hmem : nId ∈ m.vvNew b)
    (hpend : pend nId = .settled) (hlookup : m.mapInfo.lookup nId = some info) (hnKey : m'.nKey = m.nKey)
    (htried : m'.vvTried = m.vvTried) (hnew : m'.vvNew = takeOut m.vvNew b nId)
    (hother : ∀ id, id ≠ nId → m'.standing id = m.standing id)
    (hself : m'.standing nId =
      if info.nRefCount - 1 = 0 then none else some ⟨info.toCService, info.fInTried, info.nRefCount - 1⟩) :
    Placed pend m' := by
  refine h.step (· = nId) hnKey (htried ▸ h.triedSize) (hnew ▸ card_takeOut_le h.newSize) (fun id hne => ?_) ?_
  · rw [htried, hnew, holders_takeOut_of_ne hne, hother id hne]
    exact ⟨rfl, rfl, rfl, rfl⟩
  rintro id rfl
  obtain ⟨service, nRefCount, hstanding, htally, hcount, hleast, hmost⟩ := h.new_of_mem hmem
  rw [standing_of_lookup hlookup, CAddrInfo.standing, Option.some.injEq, Standing.mk.injEq] at hstanding
  obtain ⟨hservice, hflag, hrefs⟩ := hstanding
  have hcard : (((holders m.vvNew id).erase b).card : ℤ) = info.nRefCount - 1 := by
    rw [Finset.card_erase_of_mem (mem_holders.2 hmem), hrefs, hcount, hpend, Pending.owed, add_zero,
      Nat.cast_sub (Finset.card_pos.2 ⟨b, mem_holders.2 hmem⟩), Nat.cast_one]
  rw [hpend, Pending.least] at hleast
  rw [htried, hnew, holders_takeOut_self, hself, hpend]
  split
  case isTrue hzero =>
    refine .absent _ htally (Finset.card_eq_zero.1 ?_)
    exact_mod_cast hcard.trans hzero
  case isFalse hzero =>
    rw [hflag]
    refine .new _ _ _ htally ?_ ?_ ?_
    · rw [hcard, Pending.owed, add_zero]
    · rw [Pending.least]
      omega
    · omega

/-- A new entry leaves all its buckets. -/
theorem Placed.leaveAll (h : Placed pend m) {b : Fin ADDRMAN_NEW_BUCKET_COUNT} (hmem : nId ∈ m.vvNew b)
    (hpend : pend nId = .settled) (hlookup : m.mapInfo.lookup nId = some info) (n : ℤ) :
    info.fInTried = false ∧ info.nRefCount = (holders m.vvNew nId).card ∧ Placed (Function.update pend nId .free)
      ({ m with vvNew := takeOutAll m.vvNew nId, nNew := n }.modifyInfo nId
        fun info => { info with nRefCount := info.nRefCount - (holders m.vvNew nId).card }) := by
  obtain ⟨service, nRefCount, hstanding, htally, hcount, -⟩ := h.new_of_mem hmem
  rw [standing_of_lookup hlookup, CAddrInfo.standing, Option.some.injEq, Standing.mk.injEq] at hstanding
  obtain ⟨hservice, hflag, rfl⟩ := hstanding
  rw [hpend, Pending.owed, add_zero] at hcount
  refine ⟨hflag, hcount, h.step (· = nId) rfl h.triedSize (card_takeOutAll_le h.newSize)
    (fun id hne => ⟨rfl, holders_takeOutAll_of_ne hne, Function.update_of_ne hne _ _, ?_⟩) ?_⟩
  · rw [standing_modifyInfo_of_ne hne]
    rfl
  · rintro id rfl
    have hzero : info.nRefCount - ((holders m.vvNew id).card : ℤ) = 0 := by rw [hcount, sub_self]
    rw [standing_modifyInfo_self (m := { m with vvNew := takeOutAll m.vvNew id, nNew := n }) hlookup,
      Function.update_self, CAddrInfo.standing, hflag, hzero, modifyInfo_vvNew, holders_takeOutAll_self]
    exact .new _ _ 0 htally (by simp [Pending.owed]) (by decide) (by decide)

/-- A tried bucket in another order. -/
theorem Placed.shuffle (h : Placed pend m) {k : Fin ADDRMAN_TRIED_BUCKET_COUNT} {l : List ℕ}
    (hperm : l.Perm (m.vvTried k)) : Placed pend { m with vvTried := Function.update m.vvTried k l } := by
  refine ⟨fun id => ?_, fun j => ?_, h.newSize⟩
  · rw [tally_of_perm hperm]
    exact h.fits id
  · rcases eq_or_ne j k with rfl | hne
    · simpa [hperm.length_eq] using h.triedSize j
    · simpa [hne] using h.triedSize j

/-- An entry without a bucket is put into its tried bucket. -/
theorem Placed.pushTried (h : Placed pend m) (hlookup : m.mapInfo.lookup nId = some info)
    (hflag : info.fInTried = false) (hzero : info.nRefCount = 0) (hempty : holders m.vvNew nId = ∅)
    (hroom : (m.vvTried (info.getTriedBucket m.nKey)).length < ADDRMAN_TRIED_BUCKET_SIZE) (n : ℤ) :
    Placed (Function.update pend nId .settled)
      ({ m with vvTried := push m.vvTried (info.getTriedBucket m.nKey) nId, nTried := n }.modifyInfo nId
        fun info => { info with fInTried := true }) := by
  refine h.step (· = nId) rfl (length_push_le h.triedSize hroom) h.newSize
    (fun id hne => ⟨tally_push_of_ne hne, rfl, Function.update_of_ne hne _ _, standing_modifyInfo_of_ne hne⟩) ?_
  rintro id rfl
  rw [standing_modifyInfo_self (m := { m with vvTried := push m.vvTried (info.getTriedBucket m.nKey) id, nTried := n })
    hlookup, Function.update_self, CAddrInfo.standing, hzero]
  exact .tried _ (tally_push_self (h.of_new hlookup hflag).1) hempty

/-- An entry without a bucket takes the place of a tried one, which goes to a new bucket. -/
theorem Placed.replaceTried (h : Placed pend m) (hlookup : m.mapInfo.lookup nId = some info)
    (hflag : info.fInTried = false) (hempty : holders m.vvNew nId = ∅) {nIdOld nPos : ℕ} {infoOld : CAddrInfo}
    {b : Fin ADDRMAN_NEW_BUCKET_COUNT} (hpos : (m.vvTried (info.getTriedBucket m.nKey))[nPos]? = some nIdOld)
    (hroom : (m.vvNew b).card < ADDRMAN_NEW_BUCKET_SIZE) (hnKey : m'.nKey = m.nKey)
    (htried : m'.vvTried = putAt m.vvTried (info.getTriedBucket m.nKey) nPos nId)
    (hnew : m'.vvNew = put m.vvNew b nIdOld)
    (hother : ∀ id, id ≠ nId → id ≠ nIdOld → m'.standing id = m.standing id)
    (hself : m'.standing nId = some ⟨info.toCService, true, 0⟩)
    (hold : m'.standing nIdOld = some ⟨infoOld.toCService, false, 1⟩) :
    Placed (Function.update pend nId .settled) m' := by
  have htally := (h.of_new hlookup hflag).1
  obtain ⟨service, hservice, hbucket, htallyOld, hemptyOld, hpendOld⟩ := h.tried_of_mem (List.mem_of_getElem? hpos)
  have hne : nIdOld ≠ nId := by
    rintro rfl
    exact not_mem_of_tally_eq_zero htally (List.mem_of_getElem? hpos)
  refine h.step (fun id => id = nId ∨ id = nIdOld) hnKey
    (fun k => htried ▸ (length_putAt k).trans_le (h.triedSize k)) (hnew ▸ card_put_le h.newSize hroom)
    (fun id hid => ?_) ?_
  · obtain ⟨hid, hidOld⟩ := not_or.1 hid
    rw [htried, hnew]
    exact ⟨tally_putAt_of_ne hpos hid hidOld, holders_put_of_ne hidOld, Function.update_of_ne hid _ _,
      hother id hid hidOld⟩
  · rw [htried, hnew]
    rintro id (rfl | rfl)
    · rw [hself, Function.update_self]
      exact .tried _ (tally_putAt_new htally hpos) ((holders_put_of_ne hne.symm).trans hempty)
    · rw [hold, Function.update_of_ne hne, hpendOld, holders_put_self, hemptyOld]
      exact .new _ _ _ (tally_putAt_old htallyOld hpos hne.symm) rfl (by decide) (by decide)

end CAddrMan

end PayDayCoin
