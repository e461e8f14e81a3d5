import PayDayCoin.KeyPool

/-!
# The invariant of the key pool

An index is live if it is in the set or reserved. Every live index has a record of its own, with a key of the wallet
that was never kept. A loop keeps this, and the records of the reserved indices, if it writes at no reserved index.
-/

namespace PayDayCoin

namespace KeyWallet

/-! ### The next index -/

theorem le_nEnd {w : KeyWallet} {i : ℤ} (hi : i ∈ w.setKeyPool) : i < w.nEnd := by
  have hne : w.setKeyPool.Nonempty := ⟨i, hi⟩
  have hmax := w.setKeyPool.le_max' i hi
  rw [nEnd, dif_pos hne]
  omega

theorem nEnd_notMem (w : KeyWallet) : w.nEnd ∉ w.setKeyPool := by
  intro hmem
  exact absurd (le_nEnd hmem) (by omega)

theorem one_le_nEnd {w : KeyWallet} (h : ∀ i ∈ w.setKeyPool, 1 ≤ i) : 1 ≤ w.nEnd := by
  by_cases hne : w.setKeyPool.Nonempty
  · have hmax := h _ (w.setKeyPool.max'_mem hne)
    rw [nEnd, dif_pos hne]
    omega
  · rw [nEnd, dif_neg hne]

theorem nEnd_of_insert {w w' : KeyWallet} (h : w'.setKeyPool = insert w.nEnd w.setKeyPool) :
    w'.nEnd = w.nEnd + 1 := by
  have hne : w'.setKeyPool.Nonempty := ⟨w.nEnd, by rw [h]; exact Finset.mem_insert_self _ _⟩
  have hmax : w'.setKeyPool.max' hne = w.nEnd := by
    refine le_antisymm ?_ ?_
    · refine Finset.max'_le _ _ _ fun i hi => ?_
      rw [h, Finset.mem_insert] at hi
      rcases hi with rfl | hi
      · rfl
      · exact (le_nEnd hi).le
    · refine Finset.le_max' _ _ ?_
      rw [h]
      exact Finset.mem_insert_self _ _
  rw [nEnd, dif_pos hne, hmax]

/-! ### The invariant of the wallet -/

variable [KeySource]

/-- The first keys that are generated are valid, and no two are the same. -/
structure DistinctKeys (N : ℕ) : Prop where
  inj : ∀ m n, m < N → n < N → KeySource.newKey m = KeySource.newKey n → m = n
  isValid : ∀ n < N, (KeySource.newKey n).isValid

/-- An index that is in the set or reserved. -/
def Live (w : KeyWallet) (held : Set ℤ) (i : ℤ) : Prop := i ∈ w.setKeyPool ∨ i ∈ held

/-- Keys that will be generated are other keys than this. -/
def Used (N : ℕ) (w : KeyWallet) (key : CPubKey) : Prop :=
  ∀ n, w.nGenerated ≤ n → n < N → key ≠ KeySource.newKey n

/-- The invariant of the wallet, with the reserved indices and the keys that were kept: every live index has a record
of its own with a key of the wallet. -/
structure Sound (N : ℕ) (held : Set ℤ) (kept : List CPubKey) (w : KeyWallet) : Prop where
  pos : ∀ i, w.Live held i → 1 ≤ i
  disjoint : ∀ i ∈ w.setKeyPool, i ∉ held
  record : ∀ i, w.Live held i → ∃ key, w.pool i = some ⟨key⟩ ∧ key.isValid ∧
    w.haveKey (KeySource.getID key)
  unkept : ∀ i key, w.Live held i → w.pool i = some ⟨key⟩ → w.Used N key ∧ key ∉ kept
  inj : ∀ i j, w.Live held i → w.Live held j → w.pool i = w.pool j → i = j
  kept_used : ∀ key ∈ kept, w.Used N key
  kept_nodup : kept.Nodup

variable {N : ℕ} {held : Set ℤ} {kept : List CPubKey} {w : KeyWallet}

theorem haveKey_generateNewKey {id : CKeyID} (h : w.haveKey id) : w.generateNewKey.1.haveKey id := by
  simp only [haveKey, generateNewKey, List.contains_cons, Bool.or_eq_true] at h ⊢
  exact .inr h

theorem haveKey_generated : w.generateNewKey.1.haveKey (KeySource.getID w.generateNewKey.2) := by
  simp [haveKey, generateNewKey]

theorem Used.generateNewKey {key : CPubKey} (h : w.Used N key) : w.generateNewKey.1.Used N key := by
  intro n hn
  exact h n (Nat.le_of_succ_le hn)

/-- `GenerateNewKey` alone leaves the records. -/
theorem Sound.generateNewKey (h : Sound N held kept w) : Sound N held kept w.generateNewKey.1 where
  pos := h.pos
  disjoint := h.disjoint
  record := by
    intro i hi
    obtain ⟨key, hpool, hvalid, hhave⟩ := h.record i hi
    exact ⟨key, hpool, hvalid, haveKey_generateNewKey hhave⟩
  unkept := by
    intro i key hi hpool
    obtain ⟨hused, hkept⟩ := h.unkept i key hi hpool
    exact ⟨hused.generateNewKey, hkept⟩
  inj := h.inj
  kept_used := by
    intro key hkey
    exact (h.kept_used key hkey).generateNewKey
  kept_nodup := h.kept_nodup

/-- The wallet with a new record at an index. -/
def addKey (w : KeyWallet) (i : ℤ) : KeyWallet :=
  (w.generateNewKey.1.writePool i ⟨w.generateNewKey.2⟩).insertIndex i

theorem setKeyPool_addKey (i : ℤ) : (w.addKey i).setKeyPool = insert i w.setKeyPool := rfl

theorem pool_addKey_self (i : ℤ) : (w.addKey i).pool i = some ⟨KeySource.newKey w.nGenerated⟩ := by
  simp [addKey, insertIndex, writePool, generateNewKey]

theorem pool_addKey_of_ne {i j : ℤ} (h : j ≠ i) : (w.addKey i).pool j = w.pool j := by
  simp [addKey, insertIndex, writePool, generateNewKey, h]

theorem live_addKey {i j : ℤ} : (w.addKey i).Live held j ↔ j = i ∨ w.Live held j := by
  simp only [Live, setKeyPool_addKey, Finset.mem_insert, or_assoc]

/-- A record at an index that is not reserved keeps the invariant. -/
theorem Sound.addKey {i : ℤ} (hnew : DistinctKeys N) (hN : w.nGenerated < N) (h : Sound N held kept w) (hpos : 1 ≤ i)
    (hset : i ∉ w.setKeyPool) (hheld : i ∉ held) : Sound N held kept (w.addKey i) := by
  have hnot : ¬ w.Live held i := by
    rintro (hi | hi)
    · exact hset hi
    · exact hheld hi
  have hne : ∀ j, w.Live held j → j ≠ i := by
    rintro j hj rfl
    exact hnot hj
  have hother : ∀ key, w.Used N key → key ≠ KeySource.newKey w.nGenerated := fun key hkey => hkey _ (Nat.le_refl _) hN
  have hrecord : ∀ j, w.Live held j → (w.addKey i).pool j ≠ (w.addKey i).pool i := by
    intro j hj heq
    obtain ⟨key, hpool, -, -⟩ := h.record j hj
    rw [pool_addKey_of_ne (hne j hj), pool_addKey_self, hpool] at heq
    simp only [Option.some.injEq, CKeyPool.mk.injEq] at heq
    exact hother key (h.unkept j key hj hpool).1 heq
  refine ⟨?_, ?_, ?_, ?_, ?_, ?_, h.kept_nodup⟩
  · intro j hj
    rcases live_addKey.mp hj with rfl | hj
    · exact hpos
    · exact h.pos j hj
  · intro j hj
    rw [setKeyPool_addKey, Finset.mem_insert] at hj
    rcases hj with rfl | hj
    · exact hheld
    · exact h.disjoint j hj
  · intro j hj
    rcases live_addKey.mp hj with rfl | hj
    · exact ⟨_, pool_addKey_self j, hnew.isValid _ hN, haveKey_generated⟩
    · obtain ⟨key, hpool, hvalid, hhave⟩ := h.record j hj
      refine ⟨key, ?_, hvalid, haveKey_generateNewKey hhave⟩
      rw [pool_addKey_of_ne (hne j hj), hpool]
  · intro j key hj hpool
    rcases live_addKey.mp hj with rfl | hj
    · rw [pool_addKey_self, Option.some.injEq, CKeyPool.mk.injEq] at hpool
      subst hpool
      refine ⟨?_, ?_⟩
      · intro n hn hnN heq
        have := hnew.inj _ _ hN hnN heq
        have hlt : w.nGenerated + 1 ≤ n := hn
        omega
      · intro hkept
        exact hother _ (h.kept_used _ hkept) rfl
    · rw [pool_addKey_of_ne (hne j hj)] at hpool
      obtain ⟨hused, hkept⟩ := h.unkept j key hj hpool
      exact ⟨hused.generateNewKey, hkept⟩
  · intro j k hj hk heq
    rcases live_addKey.mp hj with hji | hj' <;> rcases live_addKey.mp hk with hki | hk'
    · rw [hji, hki]
    · rw [hji] at heq
      exact absurd heq.symm (hrecord k hk')
    · rw [hki] at heq
      exact absurd heq (hrecord j hj')
    · rw [pool_addKey_of_ne (hne j hj'), pool_addKey_of_ne (hne k hk')] at heq
      exact h.inj j k hj' hk' heq
  · intro key hkey
    exact (h.kept_used key hkey).generateNewKey

/-! ### The loops -/

/-- A wallet after one that has written no record at a reserved index. -/
structure Keeps (N : ℕ) (held : Set ℤ) (kept : List CPubKey) (w w' : KeyWallet) : Prop where
  sound : Sound N held kept w'
  frame : ∀ i ∈ held, w'.pool i = w.pool i

/-- The records that a top-up writes are not at reserved indices. -/
def TopUpClear (held : Set ℤ) (disk : DiskWrites) (nSize : ℕ) (w : KeyWallet) : Prop :=
  ∀ k, w.setKeyPool.card + k < w.targetSize nSize → (∀ j ≤ k, disk.key j ∧ disk.pool j) → w.nEnd + k ∉ held

/-- One turn of the top-up. -/
theorem topUpLoop_succ (disk : DiskWrites) (nSize fuel turn : ℕ) (w : KeyWallet) :
    topUpLoop disk nSize (fuel + 1) turn w =
      if w.setKeyPool.card < nSize then
        if !disk.key turn then (w.generateNewKey.1, .error .addKeyFailed)
        else if !disk.pool turn then (w.generateNewKey.1, .error .writeFailed)
        else topUpLoop disk nSize fuel (turn + 1) (w.addKey w.nEnd)
      else (w, .ok true) := rfl

theorem le_nGenerated_topUpLoop (disk : DiskWrites) (nSize fuel turn : ℕ) (w : KeyWallet) :
    w.nGenerated ≤ (topUpLoop disk nSize fuel turn w).1.nGenerated := by
  induction fuel generalizing turn w with
  | zero => exact Nat.le_refl _
  | succ fuel ih =>
    rw [topUpLoop_succ]
    split
    · split
      · exact Nat.le_succ _
      split
      · exact Nat.le_succ _
      · exact Nat.le_trans (Nat.le_succ _) (ih (turn + 1) (w.addKey w.nEnd))
    · exact Nat.le_refl _

theorem keeps_topUpLoop {disk : DiskWrites} {nSize : ℕ} (hnew : DistinctKeys N) (fuel turn : ℕ) {w : KeyWallet}
    (h : Sound N held kept w) (hN : (topUpLoop disk nSize fuel turn w).1.nGenerated ≤ N)
    (hclear : ∀ k, w.setKeyPool.card + k < nSize →
      (∀ j ≤ k, disk.key (turn + j) ∧ disk.pool (turn + j)) → w.nEnd + k ∉ held) :
    Keeps N held kept w (topUpLoop disk nSize fuel turn w).1 := by
  induction fuel generalizing turn w with
  | zero => exact ⟨h, fun _ _ => rfl⟩
  | succ fuel ih =>
    rw [topUpLoop_succ] at hN ⊢
    by_cases hcard : w.setKeyPool.card < nSize
    · rw [if_pos hcard] at hN ⊢
      by_cases hkey : disk.key turn = true
      · by_cases hpool : disk.pool turn = true
        · rw [if_neg (by simp [hkey]), if_neg (by simp [hpool])] at hN ⊢
          have hlt : w.nGenerated < N := (le_nGenerated_topUpLoop _ _ _ _ (w.addKey w.nEnd)).trans hN
          have hheld : w.nEnd ∉ held := by
            have := hclear 0 (by omega) (by
              intro j hj
              rw [Nat.le_zero.mp hj]
              exact ⟨hkey, hpool⟩)
            simpa using this
          have hadd := h.addKey hnew hlt (one_le_nEnd fun i hi => h.pos i (.inl hi)) w.nEnd_notMem hheld
          have hmore := ih (turn + 1) hadd hN (by
            intro k hk hdisk
            rw [nEnd_of_insert rfl]
            rw [setKeyPool_addKey, Finset.card_insert_of_notMem w.nEnd_notMem] at hk
            have := hclear (k + 1) (by omega) (by
              intro j hj
              cases j with
              | zero => exact ⟨hkey, hpool⟩
              | succ j =>
                have := hdisk j (by omega)
                rw [show turn + (j + 1) = turn + 1 + j by omega]
                exact this)
            rw [show w.nEnd + 1 + (k : ℤ) = w.nEnd + ((k + 1 : ℕ) : ℤ) by push_cast; omega]
            exact this)
          refine ⟨hmore.sound, fun i hi => ?_⟩
          rw [hmore.frame i hi]
          apply pool_addKey_of_ne
          rintro rfl
          exact hheld hi
        · rw [if_neg (by simp [hkey]), if_pos (by simp [hpool])]
          exact ⟨h.generateNewKey, fun _ _ => rfl⟩
      · rw [if_pos (by simp [hkey])]
        exact ⟨h.generateNewKey, fun _ _ => rfl⟩
    · rw [if_neg hcard]
      exact ⟨h, fun _ _ => rfl⟩

theorem topUpLoop_error {disk : DiskWrites} {nSize : ℕ} (fuel turn : ℕ) {w : KeyWallet} {e : PoolError}
    (h : (topUpLoop disk nSize fuel turn w).2 = .error e) : e = .addKeyFailed ∨ e = .writeFailed := by
  induction fuel generalizing turn w with
  | zero => cases h
  | succ fuel ih =>
    rw [topUpLoop_succ] at h
    split at h
    · split at h
      · exact .inl (by cases h; rfl)
      split at h
      · exact .inr (by cases h; rfl)
      · exact ih _ h
    · cases h

/-- The fuel is enough. -/
theorem card_topUpLoop {disk : DiskWrites} {nSize : ℕ} (fuel turn : ℕ) {w : KeyWallet}
    (hfuel : nSize ≤ w.setKeyPool.card + fuel) (h : (topUpLoop disk nSize fuel turn w).2 = .ok true) :
    nSize ≤ (topUpLoop disk nSize fuel turn w).1.setKeyPool.card := by
  induction fuel generalizing turn w with
  | zero => exact hfuel
  | succ fuel ih =>
    rw [topUpLoop_succ] at h ⊢
    split at h
    · rename_i hcard
      rw [if_pos hcard]
      split at h
      · cases h
      rename_i hkey
      split at h
      · cases h
      rename_i hpool
      rw [if_neg hkey, if_neg hpool]
      refine ih _ ?_ h
      rw [setKeyPool_addKey, Finset.card_insert_of_notMem w.nEnd_notMem]
      omega
    · rename_i hcard
      rw [if_neg hcard]
      exact Nat.not_lt.mp hcard

/-- A top-up that does not throw fills the pool. -/
theorem card_topUpKeyPool {disk : DiskWrites} {nSize : ℕ} (hlock : w.fLocked = false)
    (h : (w.topUpKeyPool disk nSize).2 = .ok true) :
    w.targetSize nSize ≤ (w.topUpKeyPool disk nSize).1.setKeyPool.card := by
  rw [topUpKeyPool, hlock, if_neg Bool.false_ne_true] at h ⊢
  exact card_topUpLoop _ _ (Nat.le_add_left _ _) h

/-- The records that `NewKeyPool` writes are not at reserved indices, and it writes them all. -/
def NewKeysClear (held : Set ℤ) (disk : DiskWrites) (n : ℕ) : Prop :=
  ∀ k < n, (∀ j ≤ k, disk.key j) → disk.pool k ∧ (k + 1 : ℤ) ∉ held

theorem sound_erasePools (h : Sound N held kept w) : Keeps N held kept w w.erasePools := by
  have hframe : ∀ i ∈ held, w.erasePools.pool i = w.pool i := by
    intro i hi
    exact if_neg fun hmem => h.disjoint i hmem hi
  have hlive : ∀ i, w.erasePools.Live held i → i ∈ held := by
    rintro i (hi | hi)
    · simp [erasePools] at hi
    · exact hi
  refine ⟨⟨?_, ?_, ?_, ?_, ?_, h.kept_used, h.kept_nodup⟩, hframe⟩
  · intro i hi
    exact h.pos i (.inr (hlive i hi))
  · intro i hi
    simp [erasePools] at hi
  · intro i hi
    rw [hframe i (hlive i hi)]
    exact h.record i (.inr (hlive i hi))
  · intro i key hi hpool
    rw [hframe i (hlive i hi)] at hpool
    exact h.unkept i key (.inr (hlive i hi)) hpool
  · intro i j hi hj heq
    rw [hframe i (hlive i hi), hframe j (hlive j hj)] at heq
    exact h.inj i j (.inr (hlive i hi)) (.inr (hlive j hj)) heq

theorem le_nGenerated_newKeysLoop (disk : DiskWrites) (n i : ℕ) (w : KeyWallet) :
    w.nGenerated ≤ (newKeysLoop disk n i w).1.nGenerated := by
  induction n generalizing i w with
  | zero => exact Nat.le_refl _
  | succ n ih =>
    simp only [newKeysLoop]
    split
    · exact Nat.le_succ _
    · refine Nat.le_trans ?_ (ih _ _)
      split <;> exact Nat.le_succ _

theorem keeps_newKeysLoop {disk : DiskWrites} (hnew : DistinctKeys N) (n i : ℕ) {w : KeyWallet}
    (h : Sound N held kept w) (hN : (newKeysLoop disk n i w).1.nGenerated ≤ N) (hset : ∀ j ∈ w.setKeyPool, j ≤ i)
    (hclear : ∀ k < n, (∀ j ≤ k, disk.key (i + j)) → disk.pool (i + k) ∧ (i + k + 1 : ℤ) ∉ held) :
    Keeps N held kept w (newKeysLoop disk n i w).1 := by
  induction n generalizing i w with
  | zero => exact ⟨h, fun _ _ => rfl⟩
  | succ n ih =>
    simp only [newKeysLoop] at hN ⊢
    by_cases hkey : disk.key i = true
    · obtain ⟨hpool, hheld⟩ := hclear 0 (Nat.succ_pos n) (by
        intro j hj
        rw [Nat.le_zero.mp hj]
        exact hkey)
      simp only [Nat.add_zero, Nat.cast_zero, Int.add_zero] at hpool hheld
      rw [if_neg (by simp [hkey]), if_pos hpool] at hN ⊢
      change (newKeysLoop disk n (i + 1) (w.addKey (i + 1))).1.nGenerated ≤ N at hN
      change Keeps N held kept w (newKeysLoop disk n (i + 1) (w.addKey (i + 1))).1
      have hlt : w.nGenerated < N := (le_nGenerated_newKeysLoop _ _ _ (w.addKey (i + 1))).trans hN
      have hnotMem : (i + 1 : ℤ) ∉ w.setKeyPool := by
        intro hmem
        have := hset _ hmem
        omega
      have hadd := h.addKey hnew hlt (by omega) hnotMem hheld
      have hmore := ih (i + 1) hadd hN (by
        intro j hj
        rw [setKeyPool_addKey, Finset.mem_insert] at hj
        push_cast
        rcases hj with rfl | hj
        · exact Int.le_refl _
        · have := hset j hj
          omega) (by
        intro k hk hdisk
        have := hclear (k + 1) (by omega) (by
          intro j hj
          cases j with
          | zero => exact hkey
          | succ j =>
            rw [show i + (j + 1) = i + 1 + j by omega]
            exact hdisk j (by omega))
        rw [show i + 1 + k = i + (k + 1) by omega,
          show ((i + 1 : ℕ) : ℤ) + (k : ℤ) + 1 = (i : ℤ) + ((k + 1 : ℕ) : ℤ) + 1 by push_cast; omega]
        exact this)
      refine ⟨hmore.sound, fun j hj => ?_⟩
      rw [hmore.frame j hj]
      apply pool_addKey_of_ne
      rintro rfl
      exact hheld hj
    · rw [if_pos (by simp [hkey])]
      exact ⟨h.generateNewKey, fun _ _ => rfl⟩

theorem newKeysLoop_error {disk : DiskWrites} (n i : ℕ) {w : KeyWallet} {e : PoolError}
    (h : (newKeysLoop disk n i w).2 = .error e) : e = .addKeyFailed := by
  induction n generalizing i w with
  | zero => cases h
  | succ n ih =>
    simp only [newKeysLoop] at h
    split at h
    · cases h
      rfl
    · exact ih _ h

theorem le_nGenerated_topUpKeyPool (disk : DiskWrites) (nSize : ℕ) (w : KeyWallet) :
    w.nGenerated ≤ (w.topUpKeyPool disk nSize).1.nGenerated := by
  rw [topUpKeyPool]
  split
  · exact Nat.le_refl _
  · exact le_nGenerated_topUpLoop _ _ _ _ _

theorem le_nGenerated_newKeyPool (disk : DiskWrites) (w : KeyWallet) :
    w.nGenerated ≤ (w.newKeyPool disk).1.nGenerated := by
  rw [newKeyPool]
  split
  · exact Nat.le_refl _
  · exact le_nGenerated_newKeysLoop _ _ _ w.erasePools

theorem keeps_topUpKeyPool {disk : DiskWrites} {nSize : ℕ} (hnew : DistinctKeys N) (h : Sound N held kept w)
    (hN : (w.topUpKeyPool disk nSize).1.nGenerated ≤ N) (hclear : w.fLocked = false → TopUpClear held disk nSize w) :
    Keeps N held kept w (w.topUpKeyPool disk nSize).1 := by
  rw [topUpKeyPool] at hN ⊢
  cases hlock : w.fLocked with
  | true => exact ⟨h, fun _ _ => rfl⟩
  | false =>
    rw [hlock, if_neg Bool.false_ne_true] at hN
    rw [if_neg Bool.false_ne_true]
    apply keeps_topUpLoop hnew _ _ h hN
    intro k hk hdisk
    simp only [Nat.zero_add] at hdisk
    exact hclear hlock k hk hdisk

theorem keeps_newKeyPool {disk : DiskWrites} (hnew : DistinctKeys N) (h : Sound N held kept w)
    (hN : (w.newKeyPool disk).1.nGenerated ≤ N) (hclear : w.fLocked = false → NewKeysClear held disk w.keypoolSize) :
    Keeps N held kept w (w.newKeyPool disk).1 := by
  have herase := sound_erasePools h
  rw [newKeyPool] at hN ⊢
  cases hlock : w.fLocked with
  | true => exact herase
  | false =>
    rw [hlock, if_neg Bool.false_ne_true] at hN
    rw [if_neg Bool.false_ne_true]
    have hmore : Keeps N held kept w.erasePools (newKeysLoop disk w.keypoolSize 0 w.erasePools).1 := by
      apply keeps_newKeysLoop hnew _ _ herase.sound hN
      · intro j hj
        simp [erasePools] at hj
      · intro k hk hdisk
        simp only [Nat.zero_add, Nat.cast_zero, Int.zero_add] at hdisk ⊢
        exact hclear hlock k hk hdisk
    refine ⟨hmore.sound, fun i hi => ?_⟩
    rw [hmore.frame i hi, herase.frame i hi]

/-! ### Reservations -/

/-- What `ReserveKeyFromKeyPool` gives after the top-up, if the invariant holds. -/
theorem takeOldest_cases (h : Sound N held kept w) :
    (w.takeOldest.error = none ∧ w.takeOldest.nIndex = -1 ∧ w.takeOldest.wallet = w) ∨
      ∃ i key, i ∈ w.setKeyPool ∧ w.pool i = some ⟨key⟩ ∧ key.isValid ∧
        w.takeOldest = { wallet := { w with setKeyPool := w.setKeyPool.erase i }, nIndex := i, keypool := ⟨key⟩ } := by
  by_cases hne : w.setKeyPool.Nonempty
  · right
    have hmem := w.setKeyPool.min'_mem hne
    obtain ⟨key, hpool, hvalid, hhave⟩ := h.record _ (.inl hmem)
    refine ⟨w.setKeyPool.min' hne, key, hmem, hpool, hvalid, ?_⟩
    rw [takeOldest, dif_pos hne]
    simp only [hpool, hhave, hvalid, Bool.not_true, Bool.false_eq_true, if_false]
  · left
    rw [takeOldest, dif_neg hne]
    exact ⟨rfl, rfl, rfl⟩

theorem Sound.take {i : ℤ} (h : Sound N held kept w) (hi : i ∈ w.setKeyPool) :
    Sound N (insert i held) kept { w with setKeyPool := w.setKeyPool.erase i } := by
  have hlive : ∀ j, Live { w with setKeyPool := w.setKeyPool.erase i } (insert i held) j → w.Live held j := by
    rintro j (hj | rfl | hj)
    · exact .inl (Finset.mem_of_mem_erase hj)
    · exact .inl hi
    · exact .inr hj
  refine ⟨?_, ?_, ?_, ?_, ?_, h.kept_used, h.kept_nodup⟩
  · intro j hj
    exact h.pos j (hlive j hj)
  · rintro j hj (rfl | hheld)
    · exact absurd rfl (Finset.ne_of_mem_erase hj)
    · exact h.disjoint j (Finset.mem_of_mem_erase hj) hheld
  · intro j hj
    exact h.record j (hlive j hj)
  · intro j key hj hpool
    exact h.unkept j key (hlive j hj) hpool
  · intro j k hj hk heq
    exact h.inj j k (hlive j hj) (hlive k hk) heq

omit [KeySource] in
theorem pool_keepKey_of_ne {i j : ℤ} (h : j ≠ i) : (w.keepKey i).pool j = w.pool j := by
  rw [keepKey]
  split
  · simp [erasePool, h]
  · rfl

omit [KeySource] in
theorem keepKey_frame (w : KeyWallet) (i : ℤ) : (w.keepKey i).setKeyPool = w.setKeyPool ∧
    (w.keepKey i).keystore = w.keystore ∧ (w.keepKey i).nGenerated = w.nGenerated := by
  rw [keepKey]
  split <;> exact ⟨rfl, rfl, rfl⟩

theorem Sound.keepKey {i : ℤ} {key : CPubKey} (h : Sound N held kept w) (hi : i ∈ held)
    (hpool : w.pool i = some ⟨key⟩) : Sound N (held \ {i}) (kept ++ [key]) (w.keepKey i) := by
  obtain ⟨hset, hstore, hgen⟩ := w.keepKey_frame i
  have hlive : ∀ j, (w.keepKey i).Live (held \ {i}) j → w.Live held j ∧ j ≠ i := by
    rintro j (hj | hj)
    · rw [hset] at hj
      refine ⟨.inl hj, ?_⟩
      rintro rfl
      exact h.disjoint j hj hi
    · exact ⟨.inr hj.1, hj.2⟩
  have hused : ∀ {key'}, w.Used N key' → (w.keepKey i).Used N key' := by
    intro key' hkey' n hn
    rw [hgen] at hn
    exact hkey' n hn
  obtain ⟨hkeyUsed, hkeyKept⟩ := h.unkept i key (.inr hi) hpool
  refine ⟨?_, ?_, ?_, ?_, ?_, ?_, ?_⟩
  · intro j hj
    exact h.pos j (hlive j hj).1
  · rintro j hj ⟨hheld, -⟩
    rw [hset] at hj
    exact h.disjoint j hj hheld
  · intro j hj
    obtain ⟨key', hpool', hvalid, hhave⟩ := h.record j (hlive j hj).1
    refine ⟨key', ?_, hvalid, ?_⟩
    · rw [pool_keepKey_of_ne (hlive j hj).2, hpool']
    · rw [haveKey, hstore]
      exact hhave
  · intro j key' hj hpool'
    obtain ⟨hlivej, hne⟩ := hlive j hj
    rw [pool_keepKey_of_ne hne] at hpool'
    obtain ⟨hused', hkept'⟩ := h.unkept j key' hlivej hpool'
    refine ⟨hused hused', ?_⟩
    rw [List.mem_append, List.mem_singleton]
    rintro (hmem | rfl)
    · exact hkept' hmem
    · exact hne (h.inj j i hlivej (.inr hi) (hpool'.trans hpool.symm))
  · intro j k hj hk heq
    rw [pool_keepKey_of_ne (hlive j hj).2, pool_keepKey_of_ne (hlive k hk).2] at heq
    exact h.inj j k (hlive j hj).1 (hlive k hk).1 heq
  · intro key' hkey'
    rcases List.mem_append.mp hkey' with hmem | hmem
    · exact hused (h.kept_used key' hmem)
    · rw [List.mem_singleton.mp hmem]
      exact hused hkeyUsed
  · apply List.Nodup.append h.kept_nodup (List.nodup_singleton key)
    rw [List.disjoint_singleton]
    exact hkeyKept

theorem Sound.returnKey {i : ℤ} (h : Sound N held kept w) (hi : i ∈ held) :
    Sound N (held \ {i}) kept (w.returnKey i) := by
  have hlive : ∀ j, (w.returnKey i).Live (held \ {i}) j → w.Live held j := by
    rintro j (hj | hj)
    · rcases Finset.mem_insert.mp hj with rfl | hj
      · exact .inr hi
      · exact .inl hj
    · exact .inr hj.1
  refine ⟨?_, ?_, ?_, ?_, ?_, h.kept_used, h.kept_nodup⟩
  · intro j hj
    exact h.pos j (hlive j hj)
  · rintro j hj ⟨hheld, hne⟩
    rcases Finset.mem_insert.mp hj with rfl | hj
    · exact hne rfl
    · exact h.disjoint j hj hheld
  · intro j hj
    exact h.record j (hlive j hj)
  · intro j key hj hpool
    exact h.unkept j key (hlive j hj) hpool
  · intro j k hj hk heq
    exact h.inj j k (hlive j hj) (hlive k hk) heq

theorem nGenerated_takeOldest (w : KeyWallet) : w.takeOldest.wallet.nGenerated = w.nGenerated := by
  rw [takeOldest]
  split
  · dsimp only
    split
    · rfl
    split
    · rfl
    split <;> rfl
  · rfl

theorem nGenerated_reserveKeyFromKeyPool (disk : DiskWrites) (w : KeyWallet) :
    (w.reserveKeyFromKeyPool disk).wallet.nGenerated = (w.topUpKeyPool disk 0).1.nGenerated := by
  rw [reserveKeyFromKeyPool]
  cases hlock : w.fLocked with
  | true =>
    rw [if_pos rfl, topUpKeyPool, if_pos hlock]
    exact w.nGenerated_takeOldest
  | false =>
    rw [if_neg Bool.false_ne_true]
    rcases hres : w.topUpKeyPool disk 0 with ⟨w', e | b⟩
    · rfl
    · exact w'.nGenerated_takeOldest

/-- The top-up of a reservation, and what is taken after it. -/
theorem reserveKeyFromKeyPool_cases {disk : DiskWrites} (hnew : DistinctKeys N) (h : Sound N held kept w)
    (hN : (w.reserveKeyFromKeyPool disk).wallet.nGenerated ≤ N) (hclear : w.fLocked = false → TopUpClear held disk 0 w) :
    ∃ w', Keeps N held kept w w' ∧
      ((∃ e, (e = .addKeyFailed ∨ e = .writeFailed) ∧
        w.reserveKeyFromKeyPool disk = { wallet := w', error := some e }) ∨
      w.reserveKeyFromKeyPool disk = w'.takeOldest) := by
  cases hlock : w.fLocked with
  | true =>
    refine ⟨w, ⟨h, fun _ _ => rfl⟩, .inr ?_⟩
    rw [reserveKeyFromKeyPool, hlock, if_pos rfl]
  | false =>
    rw [nGenerated_reserveKeyFromKeyPool] at hN
    refine ⟨(w.topUpKeyPool disk 0).1, keeps_topUpKeyPool hnew h hN hclear, ?_⟩
    rw [reserveKeyFromKeyPool, hlock, if_neg Bool.false_ne_true]
    rcases hres : w.topUpKeyPool disk 0 with ⟨w', e | b⟩
    · refine .inl ⟨e, ?_, rfl⟩
      rw [topUpKeyPool, hlock, if_neg Bool.false_ne_true] at hres
      apply topUpLoop_error
      rw [hres]
    · exact .inr rfl

end KeyWallet

end PayDayCoin
