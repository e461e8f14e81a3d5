import PayDayCoin.AddrMan

/-!
# The indexes of the address manager

`Indexed` says that `vRandom` lists the ids of all entries once, that each entry knows its place there, and that
`mapAddr` finds exactly the entries by their addresses. Each change of the tables keeps it: an entry changed in place,
two that trade places (**`CAddrMan.swapRandom_spec`**), one that is entered, and one that is deleted
(**`CAddrMan.deleteEntry_spec`**).
-/

namespace PayDayCoin.CAddrMan

open Library.Buckets

variable {m m' : CAddrMan} {nId id : ℕ} {info : CAddrInfo} {f : CAddrInfo → CAddrInfo}

/-! ### An entry changed in place -/

@[simp] theorem modifyInfo_nKey : (m.modifyInfo nId f).nKey = m.nKey := rfl
@[simp] theorem modifyInfo_nIdCount : (m.modifyInfo nId f).nIdCount = m.nIdCount := rfl
@[simp] theorem modifyInfo_mapAddr : (m.modifyInfo nId f).mapAddr = m.mapAddr := rfl
@[simp] theorem modifyInfo_vRandom : (m.modifyInfo nId f).vRandom = m.vRandom := rfl
@[simp] theorem modifyInfo_nTried : (m.modifyInfo nId f).nTried = m.nTried := rfl
@[simp] theorem modifyInfo_vvTried : (m.modifyInfo nId f).vvTried = m.vvTried := rfl
@[simp] theorem modifyInfo_nNew : (m.modifyInfo nId f).nNew = m.nNew := rfl
@[simp] theorem modifyInfo_vvNew : (m.modifyInfo nId f).vvNew = m.vvNew := rfl

theorem lookup_modifyInfo : (m.modifyInfo nId f).mapInfo.lookup id =
    if id = nId then (m.mapInfo.lookup id).map f else m.mapInfo.lookup id := by
  rw [modifyInfo]
  cases hlookup : m.mapInfo.lookup nId with
  | none =>
    rcases eq_or_ne id nId with rfl | hne
    · simp [hlookup]
    · simp [hne]
  | some info =>
    rcases eq_or_ne id nId with rfl | hne
    · simp [hlookup]
    · simp [hne, Finmap.lookup_insert_of_ne]

theorem lookup_modifyInfo_self (h : m.mapInfo.lookup nId = some info) :
    (m.modifyInfo nId f).mapInfo.lookup nId = some (f info) := by simp [lookup_modifyInfo, h]

theorem lookup_modifyInfo_of_ne (h : id ≠ nId) :
    (m.modifyInfo nId f).mapInfo.lookup id = m.mapInfo.lookup id := by simp [lookup_modifyInfo, h]

@[simp] theorem mem_modifyInfo : id ∈ (m.modifyInfo nId f).mapInfo ↔ id ∈ m.mapInfo := by
  rw [← Finmap.lookup_isSome, ← Finmap.lookup_isSome, lookup_modifyInfo]
  split <;> simp

/-! ### The indexes -/

/-- `vRandom` and `mapAddr` are indexes of the entries. -/
structure Indexed (m : CAddrMan) : Prop where
  nodup : m.vRandom.Nodup
  mem : ∀ id, id ∈ m.vRandom ↔ id ∈ m.mapInfo
  pos : ∀ id info, m.mapInfo.lookup id = some info → ∃ p : ℕ, info.nRandomPos = p ∧ m.vRandom[p]? = some id
  addr : ∀ ip id, m.mapAddr.lookup ip = some id ↔ ∃ info, m.mapInfo.lookup id = some info ∧ info.ip = ip

/-- What `Find` finds. -/
theorem Indexed.find_eq_some (h : m.Indexed) {ip : CNetAddr} :
    m.find ip = some (id, info) ↔ m.mapInfo.lookup id = some info ∧ info.ip = ip := by
  rw [find]
  constructor
  · intro hfind
    cases haddr : m.mapAddr.lookup ip with
    | none => simp [haddr] at hfind
    | some nId =>
      obtain ⟨info', hlookup, hip⟩ := (h.addr ip nId).1 haddr
      simp only [haddr, hlookup, Option.map_some, Option.some.injEq, Prod.mk.injEq] at hfind
      obtain ⟨rfl, rfl⟩ := hfind
      exact ⟨hlookup, hip⟩
  · rintro ⟨hlookup, hip⟩
    rw [(h.addr ip id).2 ⟨info, hlookup, hip⟩]
    simp [hlookup]

theorem Indexed.find_eq_none (h : m.Indexed) {ip : CNetAddr} (hfind : m.find ip = none) :
    m.mapAddr.lookup ip = none := by
  cases haddr : m.mapAddr.lookup ip with
  | none => rfl
  | some nId =>
    obtain ⟨info, hlookup, -⟩ := (h.addr ip nId).1 haddr
    simp [find, haddr, hlookup] at hfind

/-- Two entries of one address are one. -/
theorem Indexed.eq_of_ip (h : m.Indexed) {info' : CAddrInfo} (hid : m.mapInfo.lookup id = some info)
    (hnId : m.mapInfo.lookup nId = some info') (hip : info.ip = info'.ip) : id = nId := by
  have h₁ := (h.addr info.ip id).2 ⟨info, hid, rfl⟩
  have h₂ := (h.addr info.ip nId).2 ⟨info', hnId, hip.symm⟩
  exact Option.some.inj (h₁.symm.trans h₂)

/-- The indexes stay when an entry keeps its address and its place. -/
theorem Indexed.modify (h : m.Indexed) (hf : ∀ info, (f info).ip = info.ip ∧ (f info).nRandomPos = info.nRandomPos) :
    (m.modifyInfo nId f).Indexed := by
  refine ⟨h.nodup, fun id => (h.mem id).trans mem_modifyInfo.symm, fun id info hlookup => ?_, fun ip id => ?_⟩
  · rw [lookup_modifyInfo] at hlookup
    split at hlookup
    · obtain ⟨info', hlookup', rfl⟩ := Option.map_eq_some_iff.1 hlookup
      rw [(hf info').2]
      exact h.pos id info' hlookup'
    · exact h.pos id info hlookup
  · rw [modifyInfo_mapAddr, h.addr, lookup_modifyInfo]
    split
    · simp [(hf _).1]
    · rfl

/-! ### Two entries trade places -/

/-- The tables are the same but for the order of `vRandom`. -/
structure Reordered (m m' : CAddrMan) : Prop where
  entry : ∀ id, (m'.mapInfo.lookup id).map (fun info => { info with nRandomPos := 0 }) =
    (m.mapInfo.lookup id).map fun info => { info with nRandomPos := 0 }
  perm : m'.vRandom.Perm m.vRandom
  nKey : m'.nKey = m.nKey
  nIdCount : m'.nIdCount = m.nIdCount
  mapAddr : m'.mapAddr = m.mapAddr
  nTried : m'.nTried = m.nTried
  vvTried : m'.vvTried = m.vvTried
  nNew : m'.nNew = m.nNew
  vvNew : m'.vvNew = m.vvNew

theorem Reordered.refl (m : CAddrMan) : m.Reordered m := ⟨fun _ => rfl, .refl _, rfl, rfl, rfl, rfl, rfl, rfl, rfl⟩

theorem Reordered.trans {m'' : CAddrMan} (h : m.Reordered m') (h' : m'.Reordered m'') : m.Reordered m'' :=
  ⟨fun id => (h'.entry id).trans (h.entry id), h'.perm.trans h.perm, h'.nKey.trans h.nKey,
    h'.nIdCount.trans h.nIdCount, h'.mapAddr.trans h.mapAddr, h'.nTried.trans h.nTried,
    h'.vvTried.trans h.vvTried, h'.nNew.trans h.nNew, h'.vvNew.trans h.vvNew⟩

/-- `SwapRandom` succeeds at two positions of `vRandom`. -/
theorem swapRandom_spec (h : m.Indexed) {p q : ℕ} (hp : m.vRandom[p]? = some nId) (hq : m.vRandom[q]? = some id) :
    ∃ m', m.swapRandom p q = some m' ∧ m'.Indexed ∧ m.Reordered m' ∧
      m'.vRandom = (m.vRandom.set p id).set q nId := by
  rw [swapRandom]
  by_cases hpq : p = q
  · subst hpq
    obtain rfl : nId = id := Option.some.inj (hp.symm.trans hq)
    obtain ⟨hlt, rfl⟩ := List.getElem?_eq_some_iff.1 hp
    exact ⟨m, by simp, h, .refl m, by simp⟩
  obtain ⟨hplt, hpget⟩ := List.getElem?_eq_some_iff.1 hp
  obtain ⟨hqlt, hqget⟩ := List.getElem?_eq_some_iff.1 hq
  have hne : nId ≠ id := fun heq => hpq ((h.nodup.getElem_inj_iff).1 (by rw [hpget, hqget, heq]))
  have hnId : nId ∈ m.mapInfo := (h.mem nId).1 (List.mem_of_getElem? hp)
  have hid : id ∈ m.mapInfo := (h.mem id).1 (List.mem_of_getElem? hq)
  have hperm := swap_perm hp hq
  simp only [if_neg hpq, hp, hq, if_pos (And.intro hnId hid)]
  refine ⟨_, rfl, ⟨hperm.nodup_iff.2 h.nodup, fun x => ?_, fun x info hlookup => ?_, fun ip x => ?_⟩,
    ⟨fun x => ?_, hperm, rfl, rfl, rfl, rfl, rfl, rfl, rfl⟩, rfl⟩
  · simp [hperm.mem_iff, h.mem x]
  · rw [lookup_modifyInfo, lookup_modifyInfo] at hlookup
    rcases eq_or_ne x id with rfl | hxid
    · obtain ⟨info', -, rfl⟩ := by simpa [hne.symm] using hlookup
      refine ⟨p, rfl, ?_⟩
      simp [Ne.symm hpq, hplt]
    · rcases eq_or_ne x nId with rfl | hxnId
      · obtain ⟨info', -, rfl⟩ := by simpa [hxid] using hlookup
        refine ⟨q, rfl, ?_⟩
        simp [hqlt]
      · simp only [if_neg hxid, if_neg hxnId] at hlookup
        obtain ⟨r, hr, hget⟩ := h.pos x info hlookup
        refine ⟨r, hr, ?_⟩
        have hrp : p ≠ r := fun heq => hxnId (Option.some.inj (hget.symm.trans (heq ▸ hp)))
        have hrq : q ≠ r := fun heq => hxid (Option.some.inj (hget.symm.trans (heq ▸ hq)))
        simp [hrp, hrq, hget]
  · simp only [modifyInfo_mapAddr, h.addr, lookup_modifyInfo]
    split <;> split <;> simp
  · simp only [lookup_modifyInfo]
    split <;> split <;> simp [Function.comp_def]

/-! ### Entries come and go -/

@[simp] theorem lookup_enter_self : (m.enter nId info).mapInfo.lookup nId =
    some { info with nRandomPos := m.vRandom.length } := Finmap.lookup_insert _

theorem lookup_enter_of_ne (h : id ≠ nId) : (m.enter nId info).mapInfo.lookup id = m.mapInfo.lookup id :=
  Finmap.lookup_insert_of_ne _ h

theorem mem_enter : id ∈ (m.enter nId info).mapInfo ↔ id = nId ∨ id ∈ m.mapInfo := Finmap.mem_insert

/-- An entry with a new id and a new address is indexed. -/
theorem Indexed.enter (h : m.Indexed) (info : CAddrInfo) (hid : nId ∉ m.mapInfo) (hip : m.mapAddr.lookup info.ip = none) :
    (m.enter nId info).Indexed := by
  have hnew : nId ∉ m.vRandom := fun hmem => hid ((h.mem nId).1 hmem)
  have hlookup : m.mapInfo.lookup nId = none := Finmap.lookup_eq_none.2 hid
  refine ⟨?_, fun id => ?_, fun id info' hinfo => ?_, fun ip id => ?_⟩
  · exact List.nodup_append.2 ⟨h.nodup, List.nodup_singleton _, fun a ha b hb heq =>
      hnew (List.mem_singleton.1 hb ▸ heq ▸ ha)⟩
  · rw [mem_enter, CAddrMan.enter, List.mem_append, List.mem_singleton, h.mem, or_comm]
  · rcases eq_or_ne id nId with rfl | hne
    · rw [lookup_enter_self, Option.some.injEq] at hinfo
      exact ⟨m.vRandom.length, by rw [← hinfo], by simp [CAddrMan.enter]⟩
    · rw [lookup_enter_of_ne hne] at hinfo
      obtain ⟨p, hp, hget⟩ := h.pos id info' hinfo
      refine ⟨p, hp, ?_⟩
      rw [CAddrMan.enter, List.getElem?_append_left (List.getElem?_eq_some_iff.1 hget).1, hget]
  · rcases eq_or_ne ip info.ip with rfl | hneip
    · rw [CAddrMan.enter, Finmap.lookup_insert]
      constructor
      · rintro heq
        obtain rfl : nId = id := Option.some.inj heq
        exact ⟨_, Finmap.lookup_insert _, rfl⟩
      · rintro ⟨info', hinfo, hip'⟩
        rcases eq_or_ne id nId with rfl | hne
        · rfl
        · rw [Finmap.lookup_insert_of_ne _ hne] at hinfo
          rw [(h.addr info.ip id).2 ⟨info', hinfo, hip'⟩] at hip
          cases hip
    · rw [CAddrMan.enter, Finmap.lookup_insert_of_ne _ hneip, h.addr]
      rcases eq_or_ne id nId with rfl | hne
      · simp [hlookup, Ne.symm hneip]
      · rw [Finmap.lookup_insert_of_ne _ hne]

/-- What two tables that differ in the order hold under an id. -/
theorem Reordered.lookup (h : m.Reordered m') (hlookup : m.mapInfo.lookup id = some info) :
    ∃ p, m'.mapInfo.lookup id = some { info with nRandomPos := p } := by
  have hentry := h.entry id
  rw [hlookup, Option.map_some] at hentry
  obtain ⟨info', hlookup', heq⟩ := Option.map_eq_some_iff.1 hentry
  refine ⟨info'.nRandomPos, ?_⟩
  rw [hlookup', Option.some.injEq]
  calc info' = { ({ info' with nRandomPos := 0 } : CAddrInfo) with nRandomPos := info'.nRandomPos } := rfl
    _ = { info with nRandomPos := info'.nRandomPos } := by rw [heq]

/-- The last entry of `vRandom` leaves the indexes. -/
theorem Indexed.pop (h : m.Indexed) (hlast : m.vRandom[m.vRandom.length - 1]? = some nId)
    (hlookup : m.mapInfo.lookup nId = some info) :
    Indexed { m with
      vRandom := m.vRandom.dropLast
      mapAddr := m.mapAddr.erase info.ip
      mapInfo := m.mapInfo.erase nId
      nNew := m.nNew - 1 } := by
  obtain ⟨hlt, hget⟩ := List.getElem?_eq_some_iff.1 hlast
  have hsplit : m.vRandom = m.vRandom.dropLast ++ [nId] := by
    have hne : m.vRandom ≠ [] := fun hnil => by simp [hnil] at hlt
    have hlast' : m.vRandom.getLast hne = nId := by rw [List.getLast_eq_getElem, hget]
    rw [← hlast', List.dropLast_append_getLast]
  have hnodup : (m.vRandom.dropLast ++ [nId]).Nodup := hsplit ▸ h.nodup
  obtain ⟨hdrop, -, hapart⟩ := List.nodup_append.1 hnodup
  have hnotMem : nId ∉ m.vRandom.dropLast := fun hmem => hapart nId hmem nId (List.mem_singleton_self _) rfl
  have hmem : ∀ id, id ∈ m.vRandom.dropLast ↔ id ≠ nId ∧ id ∈ m.mapInfo := by
    intro id
    rw [← h.mem, hsplit]
    rcases eq_or_ne id nId with rfl | hne
    · simpa using hnotMem
    · simp [hne]
  refine ⟨hdrop, fun id => (hmem id).trans Finmap.mem_erase.symm, fun id info' hinfo => ?_, fun ip id => ?_⟩
  · have hne : id ≠ nId := by
      rintro rfl
      rw [Finmap.lookup_erase] at hinfo
      cases hinfo
    rw [Finmap.lookup_erase_ne hne] at hinfo
    obtain ⟨p, hp, hgetp⟩ := h.pos id info' hinfo
    refine ⟨p, hp, ?_⟩
    rw [hsplit] at hgetp
    rcases Nat.lt_or_ge p m.vRandom.dropLast.length with hplt | hple
    · rwa [List.getElem?_append_left hplt] at hgetp
    · rw [List.getElem?_append_right hple] at hgetp
      have := List.mem_of_getElem? hgetp
      exact absurd (List.mem_singleton.1 this) hne
  · rcases eq_or_ne ip info.ip with rfl | hneip
    · rw [Finmap.lookup_erase]
      refine ⟨fun hnone => absurd hnone.symm (Option.some_ne_none _), ?_⟩
      rintro ⟨info', hinfo, hip⟩
      rcases eq_or_ne id nId with rfl | hne
      · rw [Finmap.lookup_erase] at hinfo
        cases hinfo
      · rw [Finmap.lookup_erase_ne hne] at hinfo
        exact absurd (h.eq_of_ip hinfo hlookup hip) hne
    · rw [Finmap.lookup_erase_ne hneip, h.addr]
      rcases eq_or_ne id nId with rfl | hne
      · simp [hlookup, Ne.symm hneip]
      · rw [Finmap.lookup_erase_ne hne]

/-- An entry is deleted after the last one took its place. -/
theorem deleteEntry_spec (h : m.Indexed) (hlookup : m.mapInfo.lookup nId = some info) (info' : CAddrInfo)
    (hpos : info'.nRandomPos = info.nRandomPos) (hip : info'.ip = info.ip) :
    ∃ m' m'', m.Reordered m' ∧ m.deleteEntry nId info' = some m'' ∧ m''.Indexed ∧
      m'' = { m' with
        vRandom := m'.vRandom.dropLast
        mapAddr := m'.mapAddr.erase info.ip
        mapInfo := m'.mapInfo.erase nId
        nNew := m'.nNew - 1 } := by
  obtain ⟨p, hp, hget⟩ := h.pos nId info hlookup
  obtain ⟨hlt, -⟩ := List.getElem?_eq_some_iff.1 hget
  obtain ⟨last, hlast⟩ : ∃ last, m.vRandom[m.vRandom.length - 1]? = some last :=
    ⟨_, List.getElem?_eq_getElem (Nat.sub_one_lt_of_lt hlt)⟩
  obtain ⟨m', hswap, h', hreordered, hvRandom⟩ := swapRandom_spec h hget hlast
  have hlast' : m'.vRandom[m'.vRandom.length - 1]? = some nId := by
    simp [hvRandom, Nat.sub_lt (Nat.zero_lt_of_lt hlt)]
  obtain ⟨q, hlookup'⟩ := hreordered.lookup hlookup
  refine ⟨m', _, hreordered, ?_, h'.pop hlast' hlookup', rfl⟩
  rw [deleteEntry, hpos, hp, ← Int.ofNat_eq_natCast]
  simp only [hswap, hip]

end PayDayCoin.CAddrMan
