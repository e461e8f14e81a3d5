import PayDayCoin.AddrManCalls

/-!
# The file of the address manager

The tables are written as the new entries, the tried ones, and the new buckets with the places of their entries in the
file; the other indexes and the tried buckets are rebuilt when the file is read. **`CAddrMan.read_serialize`**: sound
tables are read back as sound ones that hold the same addresses.

The file is modelled as the values that are written one after the other.
-/

namespace PayDayCoin

open Library.Buckets

/-- What is written of an entry. -/
structure AddrRecord where
  nTime : UInt32
  nServices : UInt64
  addr : CService
  source : CNetAddr
  nLastSuccess : ℤ
  nAttempts : ℤ
deriving DecidableEq

/-- What is written of an entry. -/
def CAddrInfo.record (info : CAddrInfo) : AddrRecord :=
  ⟨info.nTime, info.nServices, info.toCService, info.source, info.nLastSuccess, info.nAttempts⟩

/-- The entry that is read, where what is kept in memory only is as at the start. -/
def AddrRecord.info (r : AddrRecord) : CAddrInfo where
  toCService := r.addr
  nServices := r.nServices
  nTime := r.nTime
  source := r.source
  nLastSuccess := r.nLastSuccess
  nAttempts := r.nAttempts

/-- A value in the file. -/
inductive AddrToken where
  | byte (n : UInt8)
  | bytes (vch : List UInt8)
  | int (n : ℤ)
  | info (r : AddrRecord)

namespace CAddrMan

/-! ### Writing -/

section Write

variable (m : CAddrMan)

/-- The entries in the order of `mapInfo`. -/
def entries : List (ℕ × CAddrInfo) :=
  (m.mapInfo.keys.sort (· ≤ ·)).filterMap fun nId => (m.mapInfo.lookup nId).map fun info => (nId, info)

/-- The new entries are written up to the count of them, and the ids that are gone over get their places. -/
def writeNew : List (ℕ × CAddrInfo) → ℕ → (ℕ → ℕ) → List AddrToken × (ℕ → ℕ)
  | [], _, mapUnkIds => ([], mapUnkIds)
  | (nId, info) :: entries, nIds, mapUnkIds =>
    if nIds = m.nNew then ([], mapUnkIds)
    else if info.nRefCount ≠ 0 then
      let rest := writeNew entries (nIds + 1) (Function.update mapUnkIds nId nIds)
      (.info info.record :: rest.1, rest.2)
    else writeNew entries nIds (Function.update mapUnkIds nId nIds)

/-- The tried entries are written up to the count of them. -/
def writeTried : List (ℕ × CAddrInfo) → ℕ → List AddrToken
  | [], _ => []
  | (_, info) :: entries, nIds =>
    if nIds = m.nTried then []
    else if info.fInTried then .info info.record :: writeTried entries (nIds + 1)
    else writeTried entries nIds

/-- A new bucket is written as its size and the places of its entries. -/
def writeBucket (mapUnkIds : ℕ → ℕ) (b : Fin ADDRMAN_NEW_BUCKET_COUNT) : List AddrToken :=
  .int (m.vvNew b).card :: ((m.vvNew b).sort (· ≤ ·)).map fun nId => .int (mapUnkIds nId)

/-- The tables are written. -/
def serialize : List AddrToken :=
  let news := m.writeNew m.entries 0 fun _ => 0
  [.byte 0, .bytes m.nKey, .int m.nNew, .int m.nTried, .int ADDRMAN_NEW_BUCKET_COUNT] ++ news.1 ++
    m.writeTried m.entries 0 ++ (List.finRange ADDRMAN_NEW_BUCKET_COUNT).flatMap (m.writeBucket news.2)

end Write

/-! ### Reading -/

section Read

variable [AddrManHash]

/-- The new entries are read, under ids from `n` on. Unless the new buckets are as many as now, each goes to its own. -/
def readNew (nUBuckets : ℤ) : ℕ → ℕ → CAddrMan → List AddrToken → Option (CAddrMan × List AddrToken)
  | 0, _, am, ts => some (am, ts)
  | left + 1, n, am, .info r :: ts =>
    let am := am.enter n r.info
    let am := if nUBuckets = ADDRMAN_NEW_BUCKET_COUNT then am
      else { am with vvNew := put am.vvNew (r.addr.getNewBucket am.nKey r.source) n }.modifyInfo n
        fun info => { info with nRefCount := info.nRefCount + 1 }
    readNew nUBuckets left (n + 1) am ts
  | _, _, _, _ => none

/-- The tried entries are read, each into its bucket; those that find it full are lost. -/
def readTried : ℕ → ℤ → CAddrMan → List AddrToken → Option (CAddrMan × ℤ × List AddrToken)
  | 0, nLost, am, ts => some (am, nLost, ts)
  | left + 1, nLost, am, .info r :: ts =>
    let nKBucket := r.addr.getTriedBucket am.nKey
    if (am.vvTried nKBucket).length < ADDRMAN_TRIED_BUCKET_SIZE then
      readTried left nLost { am.enter am.nIdCount { r.info with fInTried := true } with
        vvTried := push am.vvTried nKBucket am.nIdCount
        nIdCount := am.nIdCount + 1 } ts
    else readTried left (nLost + 1) am ts
  | _, _, _, _ => none

/-- The entries of a new bucket are read, and counted as references unless they have too many. -/
def readBucket (nUBuckets : ℤ) (b : ℕ) : ℕ → CAddrMan → List AddrToken → Option (CAddrMan × List AddrToken)
  | 0, am, ts => some (am, ts)
  | left + 1, am, .int (.ofNat nIndex) :: ts =>
    match am.mapInfo.lookup nIndex with
    | none => none
    | some info =>
      let am := if nUBuckets = ADDRMAN_NEW_BUCKET_COUNT ∧ info.nRefCount < ADDRMAN_NEW_BUCKETS_PER_ADDRESS then
          { am.modifyInfo nIndex fun info => { info with nRefCount := info.nRefCount + 1 } with
            vvNew := put am.vvNew (Fin.ofNat _ b) nIndex }
        else am
      readBucket nUBuckets b left am ts
  | _, _, _ => none

/-- The new buckets are read, from `b` on. -/
def readBuckets (nUBuckets : ℤ) : ℕ → ℕ → CAddrMan → List AddrToken → Option (CAddrMan × List AddrToken)
  | 0, _, am, ts => some (am, ts)
  | left + 1, b, am, .int nSize :: ts =>
    match readBucket nUBuckets b nSize.toNat am ts with
    | none => none
    | some (am, ts) => readBuckets nUBuckets left (b + 1) am ts
  | _, _, _, _ => none

/-- The tables are read. -/
def read : List AddrToken → Option CAddrMan
  | .byte _ :: .bytes nKey :: .int nNew :: .int nTried :: .int nUBuckets :: ts =>
    match readNew nUBuckets nNew.toNat 0 { nKey := nKey, nNew := nNew, nTried := nTried } ts with
    | none => none
    | some (am, ts) =>
      match readTried nTried.toNat 0 { am with nIdCount := nNew.toNat } ts with
      | none => none
      | some (am, nLost, ts) =>
        (readBuckets nUBuckets nUBuckets.toNat 0 { am with nTried := am.nTried - nLost } ts).map Prod.fst
  | _ => none

end Read

/-! ### What is written -/

section Written

variable {m : CAddrMan} {nId id : ℕ} {info : CAddrInfo}

theorem mem_entries {e : ℕ × CAddrInfo} : e ∈ m.entries ↔ m.mapInfo.lookup e.1 = some e.2 := by
  rw [entries, List.mem_filterMap]
  constructor
  · rintro ⟨nId, -, h⟩
    obtain ⟨info, hlookup, rfl⟩ := Option.map_eq_some_iff.1 h
    exact hlookup
  · intro h
    refine ⟨e.1, ?_, by rw [h, Option.map_some]⟩
    rw [Finset.mem_sort, Finmap.mem_keys]
    exact Finmap.mem_of_lookup_eq_some h

theorem nodup_entries (m : CAddrMan) : (m.entries.map Prod.fst).Nodup := by
  have hids : ∀ ids : List ℕ, ((ids.filterMap fun nId => (m.mapInfo.lookup nId).map fun info => (nId, info)).map
      Prod.fst).Sublist ids := by
    intro ids
    induction ids with
    | nil => exact List.Sublist.refl _
    | cons nId ids ih =>
      cases hlookup : m.mapInfo.lookup nId with
      | none => simpa [hlookup] using ih.cons nId
      | some info => simpa [hlookup] using ih
  exact (Finset.sort_nodup _ _).sublist (hids _)

/-- The new entries in the order of the file. -/
def newEntries (m : CAddrMan) : List (ℕ × CAddrInfo) := m.entries.filter fun e => e.2.nRefCount ≠ 0

/-- The tried entries in the order of the file. -/
def triedEntries (m : CAddrMan) : List (ℕ × CAddrInfo) := m.entries.filter fun e => e.2.fInTried

/-- All entries in the order of the file. -/
def savedEntries (m : CAddrMan) : List (ℕ × CAddrInfo) := m.newEntries ++ m.triedEntries

/-- The token of an entry. -/
def entryToken (e : ℕ × CAddrInfo) : AddrToken := .info e.2.record

/-- What is written of the new entries, and their places. -/
theorem writeNew_spec : ∀ (l : List (ℕ × CAddrInfo)) (nIds : ℕ) (mapUnkIds : ℕ → ℕ), (l.map Prod.fst).Nodup →
    ((nIds + (l.filter fun e => e.2.nRefCount ≠ 0).length : ℕ) : ℤ) = m.nNew →
    (m.writeNew l nIds mapUnkIds).1 = (l.filter fun e => e.2.nRefCount ≠ 0).map entryToken ∧
      (∀ i e, (l.filter fun e => e.2.nRefCount ≠ 0)[i]? = some e →
        (m.writeNew l nIds mapUnkIds).2 e.1 = nIds + i) ∧
      ∀ id, id ∉ l.map Prod.fst → (m.writeNew l nIds mapUnkIds).2 id = mapUnkIds id
  | [], nIds, mapUnkIds, _, _ => ⟨rfl, fun i e h => by simp at h, fun _ _ => rfl⟩
  | (nId, info) :: l, nIds, mapUnkIds, hnodup, hcount => by
    rw [List.map_cons, List.nodup_cons] at hnodup
    obtain ⟨hnId, hnodup⟩ := hnodup
    rw [writeNew]
    by_cases hbreak : (nIds : ℤ) = m.nNew
    · have hnone : ((nId, info) :: l).filter (fun e => e.2.nRefCount ≠ 0) = [] := by
        rw [← List.length_eq_zero_iff]
        omega
      rw [if_pos hbreak, hnone]
      exact ⟨rfl, fun i e h => by simp at h, fun _ _ => rfl⟩
    rw [if_neg hbreak]
    by_cases hnew : info.nRefCount ≠ 0
    · have hfilter : ((nId, info) :: l).filter (fun e => e.2.nRefCount ≠ 0) =
          (nId, info) :: l.filter fun e => e.2.nRefCount ≠ 0 := List.filter_cons_of_pos (by simpa using hnew)
      rw [hfilter] at hcount ⊢
      rw [if_pos hnew]
      obtain ⟨htokens, hplace, hother⟩ := writeNew_spec l (nIds + 1)
        (Function.update mapUnkIds nId nIds) hnodup (by rw [← hcount, List.length_cons]; omega)
      refine ⟨congrArg (entryToken (nId, info) :: ·) htokens, fun i e hget => ?_, fun id hid => ?_⟩
      · cases i with
        | zero =>
          obtain rfl : (nId, info) = e := by simpa using hget
          exact (hother nId hnId).trans (Function.update_self ..)
        | succ i =>
          rw [List.getElem?_cons_succ] at hget
          exact (hplace i e hget).trans (by omega)
      · rw [List.map_cons, List.mem_cons, not_or] at hid
        exact (hother id hid.2).trans (Function.update_of_ne hid.1 _ _)
    · have hfilter : ((nId, info) :: l).filter (fun e => e.2.nRefCount ≠ 0) = l.filter fun e => e.2.nRefCount ≠ 0 :=
        List.filter_cons_of_neg (by simpa using hnew)
      rw [hfilter] at hcount ⊢
      rw [if_neg hnew]
      obtain ⟨htokens, hplace, hother⟩ := writeNew_spec l nIds
        (Function.update mapUnkIds nId nIds) hnodup hcount
      refine ⟨htokens, hplace, fun id hid => ?_⟩
      rw [List.map_cons, List.mem_cons, not_or] at hid
      exact (hother id hid.2).trans (Function.update_of_ne hid.1 _ _)

/-- What is written of the tried entries. -/
theorem writeTried_spec : ∀ (l : List (ℕ × CAddrInfo)) (nIds : ℕ),
    ((nIds + (l.filter fun e => e.2.fInTried).length : ℕ) : ℤ) = m.nTried →
    m.writeTried l nIds = (l.filter fun e => e.2.fInTried).map entryToken
  | [], _, _ => rfl
  | (nId, info) :: l, nIds, hcount => by
    rw [writeTried]
    by_cases hbreak : (nIds : ℤ) = m.nTried
    · have hnone : ((nId, info) :: l).filter (fun e => e.2.fInTried) = [] := by
        rw [← List.length_eq_zero_iff]
        omega
      rw [if_pos hbreak, hnone, List.map_nil]
    rw [if_neg hbreak]
    by_cases htried : info.fInTried = true
    · have hfilter : ((nId, info) :: l).filter (fun e => e.2.fInTried) = (nId, info) :: l.filter fun e => e.2.fInTried :=
        List.filter_cons_of_pos htried
      rw [hfilter] at hcount ⊢
      rw [if_pos htried, writeTried_spec l (nIds + 1) (by rw [← hcount, List.length_cons]; omega)]
      rfl
    · have hfilter : ((nId, info) :: l).filter (fun e => e.2.fInTried) = l.filter fun e => e.2.fInTried :=
        List.filter_cons_of_neg htried
      rw [hfilter] at hcount ⊢
      rw [if_neg htried, writeTried_spec l nIds hcount]

end Written

/-! ### The entries in the order of the file -/

section Saved

variable [AddrManHash] {m am : CAddrMan} {nId id n i : ℕ} {info : CAddrInfo} {e : ℕ × CAddrInfo}

/-- The entries that count references are those that are not tried. -/
theorem Sound.nRefCount_ne_zero (h : Sound (fun _ => .settled) m) (hlookup : m.mapInfo.lookup id = some info) :
    info.nRefCount ≠ 0 ↔ info.fInTried = false := by
  have hfits := h.placed.fits id
  rw [standing_of_lookup hlookup] at hfits
  generalize hs : some info.standing = s at hfits
  cases hfits with
  | absent => cases hs
  | tried service =>
    obtain ⟨-, hflag, hzero⟩ := Standing.mk.inj (Option.some.inj hs)
    simp [hflag, hzero]
  | new _ service nRefCount _ _ hleast =>
    obtain ⟨-, hflag, hcount⟩ := Standing.mk.inj (Option.some.inj hs)
    rw [Pending.least, ← hcount] at hleast
    exact ⟨fun _ => hflag, fun _ => by omega⟩

theorem Sound.mem_newEntries (h : Sound (fun _ => .settled) m) :
    e ∈ m.newEntries ↔ m.mapInfo.lookup e.1 = some e.2 ∧ e.2.fInTried = false := by
  rw [newEntries, List.mem_filter, mem_entries, decide_eq_true_eq]
  exact and_congr_right fun hlookup => h.nRefCount_ne_zero hlookup

omit [AddrManHash] in
theorem mem_triedEntries : e ∈ m.triedEntries ↔ m.mapInfo.lookup e.1 = some e.2 ∧ e.2.fInTried = true := by
  rw [triedEntries, List.mem_filter, mem_entries]

theorem Sound.mem_savedEntries (h : Sound (fun _ => .settled) m) :
    e ∈ m.savedEntries ↔ m.mapInfo.lookup e.1 = some e.2 := by
  rw [savedEntries, List.mem_append, h.mem_newEntries, mem_triedEntries, ← and_or_left]
  exact and_iff_left (Bool.eq_false_or_eq_true _).symm

theorem Sound.nodup_savedEntries (h : Sound (fun _ => .settled) m) : (m.savedEntries.map Prod.fst).Nodup := by
  rw [savedEntries, List.map_append, List.nodup_append]
  refine ⟨(m.nodup_entries).sublist (List.filter_sublist.map _), (m.nodup_entries).sublist (List.filter_sublist.map _), ?_⟩
  rintro _ ha _ hb rfl
  obtain ⟨e, he, rfl⟩ := List.mem_map.1 ha
  obtain ⟨e', he', heq⟩ := List.mem_map.1 hb
  obtain ⟨hlookup, hflag⟩ := h.mem_newEntries.1 he
  obtain ⟨hlookup', hflag'⟩ := mem_triedEntries.1 he'
  rw [heq, hlookup, Option.some.injEq] at hlookup'
  rw [← hlookup', hflag] at hflag'
  cases hflag'

/-- Two places of an entry, or of two entries of one address, are one. -/
theorem Sound.saved_inj (h : Sound (fun _ => .settled) m) {e' : ℕ × CAddrInfo} (hi : m.savedEntries[i]? = some e)
    (hn : m.savedEntries[n]? = some e') (hip : e.2.ip = e'.2.ip) : i = n := by
  have hlookup := h.mem_savedEntries.1 (List.mem_of_getElem? hi)
  have hlookup' := h.mem_savedEntries.1 (List.mem_of_getElem? hn)
  have hid : e.1 = e'.1 := h.indexed.eq_of_ip hlookup hlookup' hip
  have hmap : (m.savedEntries.map Prod.fst)[i]? = (m.savedEntries.map Prod.fst)[n]? := by
    rw [List.getElem?_map, List.getElem?_map, hi, hn, Option.map_some, Option.map_some, hid]
  have hlt : i < (m.savedEntries.map Prod.fst).length := by
    rw [List.length_map]
    exact (List.getElem?_eq_some_iff.1 hi).1
  exact (List.getElem?_inj hlt h.nodup_savedEntries).1 hmap

/-- The new entries come before the tried ones. -/
theorem Sound.saved_flag (h : Sound (fun _ => .settled) m) (hn : m.savedEntries[n]? = some e) :
    e.2.fInTried = decide (m.newEntries.length ≤ n) := by
  rw [savedEntries] at hn
  rcases Nat.lt_or_ge n m.newEntries.length with hlt | hle
  · rw [List.getElem?_append_left hlt] at hn
    rw [decide_eq_false (Nat.not_le.2 hlt)]
    exact (h.mem_newEntries.1 (List.mem_of_getElem? hn)).2
  · rw [List.getElem?_append_right hle] at hn
    rw [decide_eq_true hle]
    exact (mem_triedEntries.1 (List.mem_of_getElem? hn)).2

omit [AddrManHash] in
/-- How many entries have a flag. -/
theorem card_idsOf_eq_length {b : Bool} {l : List (ℕ × CAddrInfo)} (hnodup : (l.map Prod.fst).Nodup)
    (hmem : ∀ e, e ∈ l ↔ m.mapInfo.lookup e.1 = some e.2 ∧ e.2.fInTried = b) : (m.idsOf b).card = l.length := by
  have hids : m.idsOf b = (l.map Prod.fst).toFinset := by
    ext id
    rw [mem_idsOf, List.mem_toFinset, List.mem_map, flag, Option.map_eq_some_iff]
    constructor
    · rintro ⟨info, hlookup, hflag⟩
      exact ⟨(id, info), (hmem _).2 ⟨hlookup, hflag⟩, rfl⟩
    · rintro ⟨e, he, rfl⟩
      exact ⟨e.2, (hmem e).1 he⟩
  rw [hids, List.toFinset_card_of_nodup hnodup, List.length_map]

theorem Sound.length_newEntries (h : Sound (fun _ => .settled) m) : (m.newEntries.length : ℤ) = m.nNew := by
  rw [h.counted.nNew, card_idsOf_eq_length ((m.nodup_entries).sublist (List.filter_sublist.map _))
    fun e => h.mem_newEntries]
  rfl

theorem Sound.length_triedEntries (h : Sound (fun _ => .settled) m) : (m.triedEntries.length : ℤ) = m.nTried := by
  rw [h.counted.nTried, card_idsOf_eq_length ((m.nodup_entries).sublist (List.filter_sublist.map _))
    fun e => mem_triedEntries]
  rfl

end Saved

/-! ### Reading the entries -/

section Entered

variable [AddrManHash] {m am : CAddrMan} {nId id n i : ℕ} {info : CAddrInfo} {e : ℕ × CAddrInfo}

/-- The entry that is read at a place. -/
def savedInfo (n : ℕ) (e : ℕ × CAddrInfo) : CAddrInfo :=
  { e.2.record.info with nRandomPos := n, fInTried := e.2.fInTried }

/-- The new entries that are read are in no bucket before the buckets are. -/
def savedPending (m : CAddrMan) (n : ℕ) : Pending := if n < m.newEntries.length then .free else .settled

/-- So many entries are read. -/
structure Entered (m : CAddrMan) (i : ℕ) (am : CAddrMan) : Prop where
  nKey : am.nKey = m.nKey
  vvNew : am.vvNew = fun _ => ∅
  lookup : ∀ n, am.mapInfo.lookup n = (m.savedEntries.take i)[n]?.map (savedInfo n)
  size : am.vRandom.length = i
  indexed : am.Indexed
  placed : Placed m.savedPending am

/-- The address of the entry at the next place is not known yet. -/
theorem Entered.unknown (h : Entered m i am) (hm : Sound (fun _ => .settled) m) (he : m.savedEntries[i]? = some e) :
    i ∉ am.mapInfo ∧ am.mapAddr.lookup e.2.ip = none := by
  constructor
  · rw [← Finmap.lookup_eq_none, h.lookup, List.getElem?_take, if_neg (lt_irrefl i), Option.map_none]
  · cases hlookup : am.mapAddr.lookup e.2.ip with
    | none => rfl
    | some n =>
      obtain ⟨info, hinfo, hip⟩ := (h.indexed.addr _ n).1 hlookup
      rw [h.lookup, List.getElem?_take] at hinfo
      obtain ⟨e', he', rfl⟩ := Option.map_eq_some_iff.1 hinfo
      by_cases hn : n < i
      · rw [if_pos hn] at he'
        exact absurd (hm.saved_inj he he' hip.symm) hn.ne'
      · rw [if_neg hn] at he'
        cases he'

/-- What the tables hold after one more entry. -/
theorem Entered.lookup_succ (h : Entered m i am) (he : m.savedEntries[i]? = some e) (n : ℕ) :
    (am.mapInfo.insert i (savedInfo i e)).lookup n = (m.savedEntries.take (i + 1))[n]?.map (savedInfo n) := by
  rw [List.getElem?_take]
  rcases eq_or_ne n i with rfl | hne
  · rw [Finmap.lookup_insert, if_pos (Nat.lt_succ_self _), he, Option.map_some]
  · rw [Finmap.lookup_insert_of_ne _ hne, h.lookup, List.getElem?_take]
    by_cases hn : n < i
    · rw [if_pos hn, if_pos (hn.trans (Nat.lt_succ_self _))]
    · rw [if_neg hn, if_neg fun hlt => hn (lt_of_le_of_ne (Nat.le_of_lt_succ hlt) hne)]

/-- The new entries are read. -/
theorem Entered.readNew (hm : Sound (fun _ => .settled) m) : ∀ (left n : ℕ) {am : CAddrMan} (ts : List AddrToken),
    n + left = m.newEntries.length → Entered m n am →
    ∃ am', CAddrMan.readNew ADDRMAN_NEW_BUCKET_COUNT left n am ((m.newEntries.drop n).map entryToken ++ ts) =
        some (am', ts) ∧ Entered m m.newEntries.length am' ∧ am'.nTried = am.nTried ∧ am'.nNew = am.nNew ∧
      am'.vvTried = am.vvTried
  | 0, n, am, ts, hn, h => by
    obtain rfl : n = m.newEntries.length := hn
    exact ⟨am, by rw [List.drop_length]; rfl, h, rfl, rfl, rfl⟩
  | left + 1, n, am, ts, hn, h => by
    have hlt : n < m.newEntries.length := by omega
    have hsaved : m.savedEntries[n]? = some m.newEntries[n] := by
      rw [savedEntries, List.getElem?_append_left hlt, List.getElem?_eq_getElem hlt]
    have hflag : m.newEntries[n].2.fInTried = false := (hm.mem_newEntries.1 (List.getElem_mem hlt)).2
    obtain ⟨hid, hip⟩ := h.unknown hm hsaved
    have hentry : { m.newEntries[n].2.record.info with nRandomPos := am.vRandom.length } =
        savedInfo n m.newEntries[n] := by rw [savedInfo, h.size, hflag]; rfl
    have hplaced := h.placed.enter m.newEntries[n].2.record.info hid rfl rfl
    have hpending : m.savedPending n = .free := if_pos hlt
    rw [← hpending, Function.update_eq_self] at hplaced
    have hentered : Entered m (n + 1) (am.enter n m.newEntries[n].2.record.info) := by
      refine ⟨h.nKey, h.vvNew, fun j => ?_, ?_, h.indexed.enter _ hid hip, hplaced⟩
      · rw [← h.lookup_succ hsaved, ← hentry]
        rfl
      · rw [CAddrMan.enter, List.length_append, h.size, List.length_singleton]
    obtain ⟨am', hread, hdone⟩ := Entered.readNew hm left (n + 1) ts (by omega) hentered
    refine ⟨am', ?_, hdone⟩
    rw [List.drop_eq_getElem_cons hlt, List.map_cons, List.cons_append, entryToken, CAddrMan.readNew]
    simpa only [if_true] using hread

/-- A tried entry is read into its bucket. -/
theorem Placed.enterTried {pend : ℕ → Pending} (h : Placed pend am) (info : CAddrInfo) (hid : nId ∉ am.mapInfo)
    (hpend : pend nId = .settled) (hflag : info.fInTried = true) (hcount : info.nRefCount = 0)
    (hroom : (am.vvTried (info.getTriedBucket am.nKey)).length < ADDRMAN_TRIED_BUCKET_SIZE) (k : ℕ) :
    Placed pend { am.enter nId info with
      vvTried := push am.vvTried (info.getTriedBucket am.nKey) nId
      nIdCount := k } := by
  obtain ⟨-, htally, hempty⟩ := h.absent_of_notMem hid
  refine h.step (· = nId) rfl (length_push_le h.triedSize hroom) h.newSize
    (fun id hne => ⟨tally_push_of_ne hne, rfl, rfl, congrArg _ (lookup_enter_of_ne hne)⟩) ?_
  rintro id rfl
  refine (standing_of_lookup lookup_enter_self).symm ▸ ?_
  rw [CAddrInfo.standing, hflag, hcount, hpend]
  exact .tried _ (tally_push_self htally) hempty

/-- A tried entry is in its bucket. -/
theorem Placed.mem_vvTried {pend : ℕ → Pending} (h : Placed pend m) (hlookup : m.mapInfo.lookup id = some info)
    (hflag : info.fInTried = true) : id ∈ m.vvTried (info.getTriedBucket m.nKey) := by
  have hfits := h.fits id
  rw [standing_of_lookup hlookup, CAddrInfo.standing, hflag] at hfits
  generalize pend id = p at hfits
  generalize info.nRefCount = c at hfits
  cases hfits with
  | tried service htally => exact (mem_of_tally_eq_single htally).2 rfl

/-- There is room for the next tried entry in its bucket: those in it came from the bucket that was written. -/
theorem Entered.room (h : Entered m i am) (hm : Sound (fun _ => .settled) m) (he : m.savedEntries[i]? = some e)
    (hflag : e.2.fInTried = true) : (am.vvTried (e.2.getTriedBucket am.nKey)).length < ADDRMAN_TRIED_BUCKET_SIZE := by
  rw [h.nKey]
  set k := e.2.getTriedBucket m.nKey
  have horigin : ∀ n ∈ am.vvTried k, ∃ e', m.savedEntries[n]? = some e' ∧ n < i ∧ e'.1 ∈ m.vvTried k := by
    intro n hn
    obtain ⟨service, hstanding, hbucket, -⟩ := h.placed.tried_of_mem hn
    obtain ⟨info, hlookup, hinfo⟩ := standing_eq_some.1 hstanding
    rw [h.lookup, List.getElem?_take] at hlookup
    by_cases hlt : n < i
    · rw [if_pos hlt] at hlookup
      obtain ⟨e', he', rfl⟩ := Option.map_eq_some_iff.1 hlookup
      obtain ⟨hservice, hflag', -⟩ := Standing.mk.inj hinfo
      have hmem := hm.placed.mem_vvTried (hm.mem_savedEntries.1 (List.mem_of_getElem? he')) hflag'
      have hservice' : e'.2.toCService = service := hservice
      rw [hservice', ← h.nKey, hbucket] at hmem
      exact ⟨e', he', hlt, hmem⟩
    · rw [if_neg hlt] at hlookup
      cases hlookup
  have hnodup : (am.vvTried k).Nodup := by
    refine List.nodup_iff_count_le_one.2 fun n => ?_
    by_cases hn : n ∈ am.vvTried k
    · obtain ⟨service, -, -, htally, -⟩ := h.placed.tried_of_mem hn
      have hcount := congrFun htally k
      rw [Pi.single_eq_same] at hcount
      exact hcount.le
    · rw [List.count_eq_zero.2 hn]
      exact Nat.zero_le _
  have hpick : ∀ n ∈ am.vvTried k, ∃ id, (m.savedEntries.map Prod.fst)[n]? = some id ∧ n < i ∧ id ∈ m.vvTried k := by
    intro n hn
    obtain ⟨e', he', hlt, hmem⟩ := horigin n hn
    exact ⟨e'.1, by rw [List.getElem?_map, he', Option.map_some], hlt, hmem⟩
  choose! g hg using hpick
  have hlast : (m.savedEntries.map Prod.fst)[i]? = some e.1 := by rw [List.getElem?_map, he, Option.map_some]
  have hinj : ∀ a b, a < (m.savedEntries.map Prod.fst).length → (m.savedEntries.map Prod.fst)[a]? =
      (m.savedEntries.map Prod.fst)[b]? → a = b := fun a b ha heq => (List.getElem?_inj ha hm.nodup_savedEntries).1 heq
  have hbound : ∀ {n id}, (m.savedEntries.map Prod.fst)[n]? = some id → n < (m.savedEntries.map Prod.fst).length :=
    fun hn => (List.getElem?_eq_some_iff.1 hn).1
  have hall : (e.1 :: (am.vvTried k).map g).Nodup := by
    refine List.nodup_cons.2 ⟨fun hmem => ?_, hnodup.map_on fun a ha b hb heq => ?_⟩
    · obtain ⟨n, hn, heq⟩ := List.mem_map.1 hmem
      obtain ⟨hget, hlt, -⟩ := hg n hn
      exact hlt.ne (hinj n i (hbound hget) (by rw [hget, hlast, heq]))
    · obtain ⟨hget, -, -⟩ := hg a ha
      obtain ⟨hget', -, -⟩ := hg b hb
      exact hinj a b (hbound hget) (by rw [hget, hget', heq])
  have hsub : e.1 :: (am.vvTried k).map g ⊆ m.vvTried k := by
    intro id hid
    rcases List.mem_cons.1 hid with rfl | hid
    · exact hm.placed.mem_vvTried (hm.mem_savedEntries.1 (List.mem_of_getElem? he)) hflag
    · obtain ⟨n, hn, rfl⟩ := List.mem_map.1 hid
      exact (hg n hn).2.2
  have hlength := (hall.subperm hsub).length_le
  rw [List.length_cons, List.length_map] at hlength
  exact hlength.trans (hm.placed.triedSize k)

/-- The tried entries are read, and none is lost. -/
theorem Entered.readTried (hm : Sound (fun _ => .settled) m) : ∀ (left : ℕ) (am : CAddrMan) (ts : List AddrToken),
    am.nIdCount + left = m.savedEntries.length → m.newEntries.length ≤ am.nIdCount → Entered m am.nIdCount am →
    ∃ am', CAddrMan.readTried left 0 am ((m.savedEntries.drop am.nIdCount).map entryToken ++ ts) = some (am', 0, ts) ∧
      Entered m m.savedEntries.length am' ∧ am'.nTried = am.nTried ∧ am'.nNew = am.nNew ∧
      am'.nIdCount = m.savedEntries.length
  | 0, am, ts, hn, _, h => by
    have hcount : am.nIdCount = m.savedEntries.length := hn
    exact ⟨am, by rw [hcount, List.drop_length]; rfl, hcount ▸ h, rfl, rfl, hcount⟩
  | left + 1, am, ts, hn, hle, h => by
    have hlt : am.nIdCount < m.savedEntries.length := by omega
    have hsaved : m.savedEntries[am.nIdCount]? = some m.savedEntries[am.nIdCount] := List.getElem?_eq_getElem hlt
    set e := m.savedEntries[am.nIdCount] with he
    have hflag : e.2.fInTried = true := (hm.saved_flag hsaved).trans (decide_eq_true hle)
    obtain ⟨hid, hip⟩ := h.unknown hm hsaved
    have hroom := h.room hm hsaved hflag
    have hentry : { ({ e.2.record.info with fInTried := true } : CAddrInfo) with nRandomPos := am.vRandom.length } =
        savedInfo am.nIdCount e := by rw [savedInfo, h.size, hflag]
    have hpending : m.savedPending am.nIdCount = .settled := if_neg (Nat.not_lt.2 hle)
    have hplaced := h.placed.enterTried { e.2.record.info with fInTried := true } hid hpending rfl rfl hroom
      (am.nIdCount + 1)
    have hindexed := h.indexed.enter { e.2.record.info with fInTried := true } hid hip
    set am₁ : CAddrMan := { am.enter am.nIdCount { e.2.record.info with fInTried := true } with
      vvTried := push am.vvTried (e.2.getTriedBucket am.nKey) am.nIdCount
      nIdCount := am.nIdCount + 1 }
    have hentered : Entered m am₁.nIdCount am₁ := by
      refine ⟨h.nKey, h.vvNew, fun j => ?_, ?_, ⟨hindexed.nodup, hindexed.mem, hindexed.pos, hindexed.addr⟩, hplaced⟩
      · rw [← h.lookup_succ hsaved, ← hentry]
        rfl
      · change (am.vRandom ++ [am.nIdCount]).length = am.nIdCount + 1
        rw [List.length_append, h.size, List.length_singleton]
    obtain ⟨am', hread, hdone⟩ := Entered.readTried hm left am₁ ts
      (by change am.nIdCount + 1 + left = _; omega) (hle.trans (Nat.le_succ _)) hentered
    refine ⟨am', ?_, hdone⟩
    rw [List.drop_eq_getElem_cons hlt, List.map_cons, List.cons_append, ← he, entryToken, CAddrMan.readTried]
    exact (if_pos hroom).trans hread

end Entered

/-! ### Reading the buckets -/

section Linked

variable [AddrManHash] {m am : CAddrMan} {nId id n i : ℕ} {info : CAddrInfo} {e : ℕ × CAddrInfo} {idx : ℕ → ℕ}
  {b : Fin ADDRMAN_NEW_BUCKET_COUNT}

/-- The ids of the entries give their places in the file. -/
def Places (m : CAddrMan) (idx : ℕ → ℕ) : Prop := ∀ i e, m.newEntries[i]? = some e → idx e.1 = i

/-- All entries are read, and some of the references of the new ones. -/
structure Linked (m : CAddrMan) (idx : ℕ → ℕ) (am : CAddrMan) : Prop where
  entry : ∀ n, (am.mapInfo.lookup n).map (fun info => (info.record, info.fInTried)) =
    m.savedEntries[n]?.map fun e => (e.2.record, e.2.fInTried)
  indexed : am.Indexed
  placed : ∃ pend, (∀ n, pend n ≠ .promised) ∧ Placed pend am
  within : ∀ b, am.vvNew b ⊆ (m.vvNew b).image idx

theorem Entered.linked (h : Entered m m.savedEntries.length am) : Linked m idx am := by
  refine ⟨fun n => ?_, h.indexed, ⟨m.savedPending, fun n => ?_, h.placed⟩, fun b => ?_⟩
  · rw [h.lookup, List.take_length, Option.map_map]
    rfl
  · rw [savedPending]
    split <;> decide
  · rw [h.vvNew]
    exact Finset.empty_subset _

/-- The entries of the new buckets have places in the file. -/
theorem Places.of_mem (hidx : Places m idx) (hm : Sound (fun _ => .settled) m) (hid : id ∈ m.vvNew b) :
    ∃ info, m.mapInfo.lookup id = some info ∧ info.fInTried = false ∧ m.newEntries[idx id]? = some (id, info) := by
  obtain ⟨service, nRefCount, hstanding, -⟩ := hm.placed.new_of_mem hid
  obtain ⟨info, hlookup, hinfo⟩ := standing_eq_some.1 hstanding
  have hflag : info.fInTried = false := congrArg Standing.fInTried hinfo
  obtain ⟨i, hi⟩ := List.mem_iff_getElem?.1 ((hm.mem_newEntries (e := (id, info))).2 ⟨hlookup, hflag⟩)
  have heq : idx id = i := hidx i _ hi
  exact ⟨info, hlookup, hflag, heq ▸ hi⟩

theorem Places.inj (hidx : Places m idx) (hm : Sound (fun _ => .settled) m) {b' : Fin ADDRMAN_NEW_BUCKET_COUNT}
    (hid : id ∈ m.vvNew b) (hid' : nId ∈ m.vvNew b') (heq : idx id = idx nId) : id = nId := by
  obtain ⟨info, -, -, hget⟩ := hidx.of_mem hm hid
  obtain ⟨info', -, -, hget'⟩ := hidx.of_mem hm hid'
  rw [heq, hget'] at hget
  exact (congrArg Prod.fst (Option.some.inj hget)).symm

/-- An entry of a bucket is read: it has fewer than its references yet, and the bucket has room. -/
theorem Linked.readEntry (h : Linked m idx am) (hm : Sound (fun _ => .settled) m) (hidx : Places m idx)
    (hid : id ∈ m.vvNew b) (hnot : idx id ∉ am.vvNew b) :
    ∃ info, am.mapInfo.lookup (idx id) = some info ∧ info.nRefCount < ADDRMAN_NEW_BUCKETS_PER_ADDRESS ∧
      Linked m idx { am.modifyInfo (idx id) fun info => { info with nRefCount := info.nRefCount + 1 } with
        vvNew := put am.vvNew b (idx id) } := by
  obtain ⟨info₀, hlookup₀, hflag₀, hget⟩ := hidx.of_mem hm hid
  have hlt : idx id < m.newEntries.length := (List.getElem?_eq_some_iff.1 hget).1
  have hentry := h.entry (idx id)
  rw [savedEntries, List.getElem?_append_left hlt, hget, Option.map_some] at hentry
  obtain ⟨info, hlookup, hinfo⟩ := Option.map_eq_some_iff.1 hentry
  have hflag : info.fInTried = false := (congrArg Prod.snd hinfo).trans hflag₀
  obtain ⟨pend, hpend, hplaced⟩ := h.placed
  have howed : (pend (idx id)).owed = 0 := by
    have := hpend (idx id)
    generalize pend (idx id) = p at this
    cases p <;> simp_all [Pending.owed]
  obtain ⟨-, hcount, -⟩ := hplaced.of_new hlookup hflag
  obtain ⟨-, hcount₀, -, hmost₀⟩ := hm.placed.of_new hlookup₀ hflag₀
  rw [howed, add_zero] at hcount
  rw [Pending.owed, add_zero] at hcount₀
  have hless : (holders am.vvNew (idx id)).card < (holders m.vvNew id).card := by
    refine Finset.card_lt_card (Finset.ssubset_iff_subset_ne.2 ⟨fun b' hb' => ?_, fun heq => ?_⟩)
    · obtain ⟨id', hid', heq⟩ := Finset.mem_image.1 (h.within b' (mem_holders.1 hb'))
      obtain rfl := hidx.inj hm hid' hid heq
      exact mem_holders.2 hid'
    · exact hnot (mem_holders.1 (heq ▸ mem_holders.2 hid))
  have hroom : (am.vvNew b).card < ADDRMAN_NEW_BUCKET_SIZE := by
    have hssub : am.vvNew b ⊂ (m.vvNew b).image idx := Finset.ssubset_iff_subset_ne.2 ⟨h.within b, fun heq =>
      hnot (heq ▸ Finset.mem_image_of_mem idx hid)⟩
    exact ((Finset.card_lt_card hssub).trans_le Finset.card_image_le).trans_le (hm.placed.newSize b)
  have hrefs : info.nRefCount < ADDRMAN_NEW_BUCKETS_PER_ADDRESS := by omega
  have hpromised := hplaced.promise hlookup hflag hrefs (hpend _)
  have hgiven := hpromised.give (b := b) (Function.update_self ..)
    (mem_modifyInfo.2 (Finmap.mem_of_lookup_eq_some hlookup)) hnot hroom
  have hindexed : (am.modifyInfo (idx id) fun info => { info with nRefCount := info.nRefCount + 1 }).Indexed :=
    h.indexed.modify fun _ => ⟨rfl, rfl⟩
  refine ⟨info, hlookup, hrefs, fun n => ?_, ⟨hindexed.nodup, hindexed.mem, hindexed.pos, hindexed.addr⟩,
    ⟨_, fun n => ?_, hgiven⟩, fun b' => ?_⟩
  · rw [← h.entry n, lookup_modifyInfo]
    split
    · rw [Option.map_map]
      rfl
    · rfl
  · rw [Function.update_idem]
    rcases eq_or_ne n (idx id) with rfl | hne
    · rw [Function.update_self]
      decide
    · rw [Function.update_of_ne hne]
      exact hpend n
  · intro n hn
    rcases mem_put.1 hn with hn | ⟨rfl, rfl⟩
    · exact h.within b' hn
    · exact Finset.mem_image_of_mem idx hid

/-- What is left as it was while the buckets are read. -/
structure SameCounts (am am' : CAddrMan) : Prop where
  nKey : am'.nKey = am.nKey
  nTried : am'.nTried = am.nTried
  nNew : am'.nNew = am.nNew
  nIdCount : am'.nIdCount = am.nIdCount

/-- A bucket is read. -/
theorem Linked.readBucket (hm : Sound (fun _ => .settled) m) (hidx : Places m idx) : ∀ (ids : List ℕ) {am : CAddrMan}
    (ts : List AddrToken), Linked m idx am → ids.Nodup → (∀ id ∈ ids, id ∈ m.vvNew b ∧ idx id ∉ am.vvNew b) →
    ∃ am', CAddrMan.readBucket ADDRMAN_NEW_BUCKET_COUNT b ids.length am
        ((ids.map fun id => AddrToken.int (idx id)) ++ ts) = some (am', ts) ∧ Linked m idx am' ∧ SameCounts am am' ∧
      (∀ b', b' ≠ b → am'.vvNew b' = am.vvNew b') ∧ am.vvNew b ⊆ am'.vvNew b ∧ ∀ id ∈ ids, idx id ∈ am'.vvNew b
  | [], am, ts, h, _, _ =>
    ⟨am, rfl, h, ⟨rfl, rfl, rfl, rfl⟩, fun _ _ => rfl, Finset.Subset.refl _, fun _ hid => absurd hid List.not_mem_nil⟩
  | id :: ids, am, ts, h, hnodup, hids => by
    obtain ⟨hid, hnodup⟩ := List.nodup_cons.1 hnodup
    obtain ⟨hmem, hnot⟩ := hids id List.mem_cons_self
    obtain ⟨info, hlookup, hrefs, hlinked⟩ := h.readEntry hm hidx hmem hnot
    set am₁ : CAddrMan := { am.modifyInfo (idx id) fun info => { info with nRefCount := info.nRefCount + 1 } with
      vvNew := put am.vvNew b (idx id) }
    have hrest : ∀ id' ∈ ids, id' ∈ m.vvNew b ∧ idx id' ∉ am₁.vvNew b := by
      intro id' hid'
      obtain ⟨hmem', hnot'⟩ := hids id' (List.mem_cons_of_mem _ hid')
      refine ⟨hmem', fun hin => ?_⟩
      rcases mem_put.1 hin with hin | ⟨-, heq⟩
      · exact hnot' hin
      · exact hid (hidx.inj hm hmem' hmem heq ▸ hid')
    obtain ⟨am', hread, hdone, hsame, hother, hsub, hall⟩ := Linked.readBucket hm hidx ids ts hlinked hnodup hrest
    have hput : ∀ n ∈ am.vvNew b, n ∈ am'.vvNew b := fun n hn => hsub (mem_put.2 (.inl hn))
    refine ⟨am', ?_, hdone, ⟨hsame.nKey, hsame.nTried, hsame.nNew, hsame.nIdCount⟩, fun b' hne => ?_, hput,
      fun id' hid' => ?_⟩
    · change CAddrMan.readBucket _ b (ids.length + 1) am (.int (.ofNat (idx id)) :: _) = _
      rw [CAddrMan.readBucket]
      simp only [hlookup, hrefs, and_self, if_true]
      have hb : Fin.ofNat ADDRMAN_NEW_BUCKET_COUNT (b : ℕ) = b := Fin.ofNat_val_eq_self b
      rw [hb]
      exact hread
    · rw [hother b' hne]
      exact Function.update_of_ne hne _ _
    · rcases List.mem_cons.1 hid' with rfl | hid'
      · exact hsub (mem_put.2 (.inr ⟨rfl, rfl⟩))
      · exact hall id' hid'

/-- The buckets are read, from `n` on. -/
theorem Linked.readBuckets (hm : Sound (fun _ => .settled) m) (hidx : Places m idx) : ∀ (left n : ℕ) {am : CAddrMan},
    n + left = ADDRMAN_NEW_BUCKET_COUNT → Linked m idx am →
    (∀ b : Fin ADDRMAN_NEW_BUCKET_COUNT, n ≤ b → am.vvNew b = ∅) →
    (∀ b : Fin ADDRMAN_NEW_BUCKET_COUNT, b < n → ∀ id ∈ m.vvNew b, idx id ∈ am.vvNew b) →
    ∃ am', CAddrMan.readBuckets ADDRMAN_NEW_BUCKET_COUNT left n am
        (((List.finRange ADDRMAN_NEW_BUCKET_COUNT).drop n).flatMap (m.writeBucket idx)) = some (am', []) ∧
      Linked m idx am' ∧ SameCounts am am' ∧ ∀ b, ∀ id ∈ m.vvNew b, idx id ∈ am'.vvNew b
  | 0, n, am, hn, h, _, hdone => by
    obtain rfl : n = ADDRMAN_NEW_BUCKET_COUNT := hn
    refine ⟨am, ?_, h, ⟨rfl, rfl, rfl, rfl⟩, fun b => hdone b b.isLt⟩
    rw [List.drop_of_length_le (List.length_finRange).le, List.flatMap_nil, CAddrMan.readBuckets]
  | left + 1, n, am, hn, h, hempty, hdone => by
    have hlt : n < ADDRMAN_NEW_BUCKET_COUNT := by omega
    have hlength : n < (List.finRange ADDRMAN_NEW_BUCKET_COUNT).length := by rwa [List.length_finRange]
    have hget : (List.finRange ADDRMAN_NEW_BUCKET_COUNT)[n] = ⟨n, hlt⟩ := by simp
    set b : Fin ADDRMAN_NEW_BUCKET_COUNT := ⟨n, hlt⟩
    obtain ⟨am₁, hread, hlinked, hsame, hother, -, hall⟩ := Linked.readBucket (b := b) hm hidx
      ((m.vvNew b).sort (· ≤ ·))
      (((List.finRange ADDRMAN_NEW_BUCKET_COUNT).drop (n + 1)).flatMap (m.writeBucket idx)) h (Finset.sort_nodup _ _)
      fun id hid => ⟨(Finset.mem_sort _).1 hid, by rw [hempty b (Nat.le_refl n)]; exact Finset.notMem_empty _⟩
    obtain ⟨am', hreads, hdone', hsame', hall'⟩ := Linked.readBuckets hm hidx left (n + 1) (by omega)
      hlinked
      (fun b' hb' => by
        have hne : b' ≠ b := fun heq => absurd hb' (by rw [heq]; exact Nat.not_succ_le_self n)
        rw [hother b' hne, hempty b' (Nat.le_of_succ_le hb')])
      (fun b' hb' id hid => by
        rcases eq_or_ne b' b with rfl | hne
        · exact hall id ((Finset.mem_sort _).2 hid)
        · rw [hother b' hne]
          exact hdone b' (lt_of_le_of_ne (Nat.le_of_lt_succ hb') fun heq => hne (Fin.ext heq)) id hid)
    refine ⟨am', ?_, hdone', ⟨hsame'.nKey.trans hsame.nKey, hsame'.nTried.trans hsame.nTried,
      hsame'.nNew.trans hsame.nNew, hsame'.nIdCount.trans hsame.nIdCount⟩, hall'⟩
    rw [Finset.length_sort] at hread
    have hread' : CAddrMan.readBucket ADDRMAN_NEW_BUCKET_COUNT n (m.vvNew b).card am _ = _ := hread
    rw [List.drop_eq_getElem_cons hlength, hget, List.flatMap_cons, writeBucket, List.cons_append, CAddrMan.readBuckets,
      Int.toNat_natCast, hread']
    exact hreads

/-- Tables whose entries and references are all read are sound. -/
theorem Linked.sound (h : Linked m idx am) (hm : Sound (fun _ => .settled) m) (hidx : Places m idx)
    (hall : ∀ b, ∀ id ∈ m.vvNew b, idx id ∈ am.vvNew b) (hnTried : am.nTried = m.nTried) (hnNew : am.nNew = m.nNew)
    (hnIdCount : am.nIdCount = m.savedEntries.length) : Sound (fun _ => .settled) am := by
  have hflag : ∀ n, am.flag n = m.savedEntries[n]?.map fun e => e.2.fInTried := by
    intro n
    have := congrArg (Option.map Prod.snd) (h.entry n)
    rwa [Option.map_map, Option.map_map] at this
  have hids : ∀ n c, n ∈ am.idsOf c ↔ n < m.savedEntries.length ∧ decide (m.newEntries.length ≤ n) = c := by
    intro n c
    rw [mem_idsOf, hflag, Option.map_eq_some_iff]
    constructor
    · rintro ⟨e, he, rfl⟩
      exact ⟨(List.getElem?_eq_some_iff.1 he).1, (hm.saved_flag he).symm⟩
    · rintro ⟨hlt, hc⟩
      exact ⟨_, List.getElem?_eq_getElem hlt, (hm.saved_flag (List.getElem?_eq_getElem hlt)).trans hc⟩
  have hlength : m.savedEntries.length = m.newEntries.length + m.triedEntries.length := List.length_append
  obtain ⟨pend, hpend, hplaced⟩ := h.placed
  refine ⟨h.indexed, ⟨fun n => ?_, hplaced.triedSize, hplaced.newSize⟩, ⟨?_, ?_⟩, fun n hn => ?_⟩
  · have hfits := hplaced.fits n
    generalize hs : am.standing n = s at hfits ⊢
    generalize hp : pend n = p at hfits
    cases hfits with
    | absent _ htally hempty => exact .absent _ htally hempty
    | tried service htally hempty => exact .tried _ htally hempty
    | new _ service nRefCount htally hcount hleast hmost =>
      have howed : p.owed = 0 := by
        have := hpend n
        rw [hp] at this
        cases p <;> simp_all [Pending.owed]
      refine .new _ _ _ htally (by rw [hcount, howed, Pending.owed]) ?_ hmost
      have hnew : n ∈ am.idsOf false := by rw [mem_idsOf, flag_eq, hs, Option.map_some]
      obtain ⟨hlt, hle⟩ := (hids n false).1 hnew
      have hlt' : n < m.newEntries.length := Nat.not_le.1 (of_decide_eq_false hle)
      have hget := List.getElem?_eq_getElem hlt'
      obtain ⟨hlookup, hflag₀⟩ := hm.mem_newEntries.1 (List.getElem_mem hlt')
      obtain ⟨-, hcount₀, hleast₀, -⟩ := hm.placed.of_new hlookup hflag₀
      rw [Pending.owed, add_zero] at hcount₀
      rw [Pending.least, hcount₀] at hleast₀
      obtain ⟨b, hb⟩ := Finset.card_pos.1 (by exact_mod_cast hleast₀ : 0 < (holders m.vvNew m.newEntries[n].1).card)
      have hin := hall b _ (mem_holders.1 hb)
      rw [hidx n _ hget] at hin
      have hpos : 0 < (holders am.vvNew n).card := Finset.card_pos.2 ⟨b, mem_holders.2 hin⟩
      rw [Pending.least, hcount, howed, add_zero]
      exact_mod_cast hpos
  · have hico : am.idsOf true = Finset.Ico m.newEntries.length m.savedEntries.length := by
      ext n
      rw [hids, Finset.mem_Ico, decide_eq_true_eq, and_comm]
    rw [hico, Nat.card_Ico, hnTried, ← hm.length_triedEntries, hlength, Nat.add_sub_cancel_left]
  · have hrange : am.idsOf false = Finset.range m.newEntries.length := by
      ext n
      rw [hids, Finset.mem_range, decide_eq_false_iff_not, Nat.not_le]
      exact and_iff_right_of_imp fun hlt => by omega
    rw [hrange, Finset.card_range, hnNew, hm.length_newEntries]
  · obtain ⟨info, hlookup⟩ := Finmap.mem_iff.1 hn
    have hentry := h.entry n
    rw [hlookup, Option.map_some, eq_comm, Option.map_eq_some_iff] at hentry
    obtain ⟨e, he, -⟩ := hentry
    rw [hnIdCount]
    exact (List.getElem?_eq_some_iff.1 he).1

/-- The tables hold an address, tried or new, with what is written of it. -/
def Holds (m : CAddrMan) (r : AddrRecord) (fInTried : Bool) : Prop :=
  ∃ id info, m.mapInfo.lookup id = some info ∧ info.record = r ∧ info.fInTried = fInTried

theorem Linked.holds_iff (h : Linked m idx am) (hm : Sound (fun _ => .settled) m) (r : AddrRecord) (fInTried : Bool) :
    am.Holds r fInTried ↔ m.Holds r fInTried := by
  constructor
  · rintro ⟨n, info, hlookup, rfl, rfl⟩
    have hentry := h.entry n
    rw [hlookup, Option.map_some, eq_comm, Option.map_eq_some_iff] at hentry
    obtain ⟨e, he, heq⟩ := hentry
    exact ⟨e.1, e.2, hm.mem_savedEntries.1 (List.mem_of_getElem? he), congrArg Prod.fst heq, congrArg Prod.snd heq⟩
  · rintro ⟨id, info, hlookup, rfl, rfl⟩
    obtain ⟨n, hn⟩ := List.mem_iff_getElem?.1 ((hm.mem_savedEntries (e := (id, info))).2 hlookup)
    have hentry := h.entry n
    rw [hn, Option.map_some, Option.map_eq_some_iff] at hentry
    obtain ⟨info', hlookup', heq⟩ := hentry
    exact ⟨n, info', hlookup', congrArg Prod.fst heq, congrArg Prod.snd heq⟩

/-- **Reading back** sound tables gives sound tables with the same addresses. -/
theorem Sound.read_serialize (hm : Sound (fun _ => .settled) m) : ∃ am, read m.serialize = some am ∧
    Sound (fun _ => .settled) am ∧ am.nKey = m.nKey ∧ ∀ r fInTried, am.Holds r fInTried ↔ m.Holds r fInTried := by
  have hnew := hm.length_newEntries
  have htried := hm.length_triedEntries
  obtain ⟨htokens, hplace, -⟩ := writeNew_spec (m := m) m.entries 0 (fun _ => 0)
    m.nodup_entries (by rw [zero_add]; exact hnew)
  set idx := (m.writeNew m.entries 0 fun _ => 0).2 with hidxdef
  have hidx : Places m idx := fun i e he => (hplace i e he).trans (zero_add i)
  have htriedTokens := writeTried_spec (m := m) m.entries 0 (by rw [zero_add]; exact htried)
  have hserialize : m.serialize = .byte 0 :: .bytes m.nKey :: .int m.nNew :: .int m.nTried ::
      .int ADDRMAN_NEW_BUCKET_COUNT :: (m.newEntries.map entryToken ++ (m.triedEntries.map entryToken ++
        (List.finRange ADDRMAN_NEW_BUCKET_COUNT).flatMap (m.writeBucket idx))) := by
    rw [serialize]
    simp only [← hidxdef, htokens, htriedTokens, newEntries, triedEntries, List.cons_append, List.nil_append,
      List.append_assoc]
  have hstart : Entered m 0 { nKey := m.nKey, nNew := m.nNew, nTried := m.nTried } := by
    have hempty := sound_empty m.nKey
    refine ⟨rfl, rfl, fun n => by simp, rfl,
      ⟨hempty.indexed.nodup, hempty.indexed.mem, hempty.indexed.pos, hempty.indexed.addr⟩,
      ⟨fun id => .absent _ rfl (holders_eq_empty.2 fun _ => Finset.notMem_empty _), hempty.placed.triedSize,
        hempty.placed.newSize⟩⟩
  obtain ⟨am₁, hread₁, hentered₁, hnTried₁, hnNew₁, -⟩ := Entered.readNew hm m.newEntries.length 0
    (m.triedEntries.map entryToken ++ (List.finRange ADDRMAN_NEW_BUCKET_COUNT).flatMap (m.writeBucket idx))
    (zero_add _) hstart
  obtain ⟨am₂, hread₂, hentered₂, hnTried₂, hnNew₂, hnIdCount₂⟩ := Entered.readTried hm m.triedEntries.length
    { am₁ with nIdCount := m.newEntries.length }
    ((List.finRange ADDRMAN_NEW_BUCKET_COUNT).flatMap (m.writeBucket idx)) List.length_append.symm le_rfl
    ⟨hentered₁.nKey, hentered₁.vvNew, hentered₁.lookup, hentered₁.size,
      ⟨hentered₁.indexed.nodup, hentered₁.indexed.mem, hentered₁.indexed.pos, hentered₁.indexed.addr⟩,
      ⟨hentered₁.placed.fits, hentered₁.placed.triedSize, hentered₁.placed.newSize⟩⟩
  have hlinked₂ : Linked m idx { am₂ with nTried := am₂.nTried - 0 } := by
    have hlinked : Linked m idx am₂ := hentered₂.linked
    obtain ⟨pend, hpend, hplaced⟩ := hlinked.placed
    exact ⟨hlinked.entry, ⟨hlinked.indexed.nodup, hlinked.indexed.mem, hlinked.indexed.pos, hlinked.indexed.addr⟩,
      ⟨pend, hpend, ⟨hplaced.fits, hplaced.triedSize, hplaced.newSize⟩⟩, hlinked.within⟩
  obtain ⟨am, hread, hlinked, hsame, hall⟩ := Linked.readBuckets hm hidx ADDRMAN_NEW_BUCKET_COUNT 0
    (zero_add _) hlinked₂ (fun b _ => congrFun hentered₂.vvNew b) fun b hb => absurd hb (Nat.not_lt_zero _)
  have hnKey : am.nKey = m.nKey := hsame.nKey.trans hentered₂.nKey
  have hnTried : am.nTried = m.nTried := by rw [hsame.nTried, sub_zero, hnTried₂, hnTried₁]
  have hnNew : am.nNew = m.nNew := hsame.nNew.trans (hnNew₂.trans hnNew₁)
  refine ⟨am, ?_, hlinked.sound hm hidx hall hnTried hnNew (hsame.nIdCount.trans hnIdCount₂), hnKey,
    hlinked.holds_iff hm⟩
  rw [List.drop_zero] at hread₁ hread
  have hdrop : m.savedEntries.drop m.newEntries.length = m.triedEntries := by rw [savedEntries, List.drop_left]
  rw [hdrop] at hread₂
  rw [hserialize, read, ← hnew, ← htried, Int.toNat_natCast, Int.toNat_natCast]
  rw [← hnew, ← htried] at hread₁
  simp only [hread₁, hread₂, Int.toNat_natCast, hread, Option.map_some]

end Linked

end CAddrMan

end PayDayCoin
