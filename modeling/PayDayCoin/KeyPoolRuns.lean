import PayDayCoin.KeyPoolInvariant

/-!
# Runs of the key pool

**`keyPool_run`**: in a run in which no call writes a record at an index that is reserved, and `NewKeyPool` writes
all its records, every index of the set has a record with a key of the wallet, no reservation throws because of a
record, and no key is kept twice. With a pool size of 0 the top-up of a second holder writes over the record of the
first.
-/

namespace PayDayCoin

/-! ### The holders -/

namespace KeySystem

variable [KeySource] {N : ℕ}

/-- The indices that are reserved. -/
def held (s : KeySystem) : Set ℤ := {i | i ≠ -1 ∧ ∃ h, (s.reserveKeys h).nIndex = i}

/-- The invariant of the wallet with its holders. -/
structure Sound (N : ℕ) (s : KeySystem) : Prop where
  wallet : s.wallet.Sound N s.held s.kept
  holder : ∀ h, (s.reserveKeys h).nIndex ≠ -1 →
    s.wallet.pool (s.reserveKeys h).nIndex = some ⟨(s.reserveKeys h).vchPubKey⟩
  distinct : ∀ h h', (s.reserveKeys h).nIndex ≠ -1 → (s.reserveKeys h).nIndex = (s.reserveKeys h').nIndex → h = h'
  thrown : ∀ e ∈ s.thrown, e = .addKeyFailed ∨ e = .writeFailed

omit [KeySource] in
theorem mem_held {s : KeySystem} {h : ℕ} (hne : (s.reserveKeys h).nIndex ≠ -1) :
    (s.reserveKeys h).nIndex ∈ s.held := ⟨hne, h, rfl⟩

omit [KeySource] in
/-- A holder that lets its index go. -/
theorem held_release {s s' : KeySystem} {h : ℕ} {r : CReserveKey} (hr : r.nIndex = -1)
    (hs' : s'.reserveKeys = Function.update s.reserveKeys h r)
    (hdistinct : ∀ h h', (s.reserveKeys h).nIndex ≠ -1 → (s.reserveKeys h).nIndex = (s.reserveKeys h').nIndex →
      h = h') :
    s'.held = s.held \ {(s.reserveKeys h).nIndex} := by
  ext i
  constructor
  · rintro ⟨hne, h', hi⟩
    by_cases hh : h' = h
    · subst hh
      rw [hs', Function.update_self, hr] at hi
      exact absurd hi.symm hne
    · rw [hs', Function.update_of_ne hh] at hi
      refine ⟨⟨hne, h', hi⟩, ?_⟩
      rintro rfl
      exact hh (hdistinct h' h (by rw [hi]; exact hne) hi)
  · rintro ⟨⟨hne, h', hi⟩, hother⟩
    have hh : h' ≠ h := by
      rintro rfl
      exact hother hi.symm
    refine ⟨hne, h', ?_⟩
    rw [hs', Function.update_of_ne hh, hi]

omit [KeySource] in
/-- A holder that takes an index. -/
theorem held_take {s s' : KeySystem} {h : ℕ} {r : CReserveKey} (hfree : (s.reserveKeys h).nIndex = -1)
    (hr : r.nIndex ≠ -1) (hs' : s'.reserveKeys = Function.update s.reserveKeys h r) :
    s'.held = insert r.nIndex s.held := by
  ext i
  constructor
  · rintro ⟨hne, h', hi⟩
    by_cases hh : h' = h
    · subst hh
      rw [hs', Function.update_self] at hi
      exact .inl hi.symm
    · rw [hs', Function.update_of_ne hh] at hi
      exact .inr ⟨hne, h', hi⟩
  · rintro (rfl | ⟨hne, h', hi⟩)
    · refine ⟨hr, h, ?_⟩
      rw [hs', Function.update_self]
    · have hh : h' ≠ h := by
        rintro rfl
        exact hne (hi.symm.trans hfree)
      refine ⟨hne, h', ?_⟩
      rw [hs', Function.update_of_ne hh, hi]

/-- A call that keeps the invariant of the wallet, and throws at most because of a write. -/
theorem Sound.after {α : Type} {s : KeySystem} (hs : s.Sound N) {r : KeyWallet × Except PoolError α}
    (hkeeps : s.wallet.Keeps N s.held s.kept r.1)
    (herr : ∀ e, r.2 = .error e → e = .addKeyFailed ∨ e = .writeFailed) : (s.after r).Sound N := by
  refine ⟨hkeeps.sound, ?_, hs.distinct, ?_⟩
  · intro h hne
    exact (hkeeps.frame _ (mem_held hne)).trans (hs.holder h hne)
  · intro e he
    rw [KeySystem.after] at he
    cases hr : r.2 with
    | ok a =>
      rw [hr] at he
      exact hs.thrown e he
    | error e' =>
      rw [hr] at he
      rcases List.mem_append.mp he with he | he
      · exact hs.thrown e he
      · rw [List.mem_singleton.mp he]
        exact herr e' hr

/-- A holder without an index changes what it shows. -/
theorem Sound.update {s : KeySystem} (hs : s.Sound N) {h : ℕ} {r : CReserveKey}
    (hfree : (s.reserveKeys h).nIndex = -1) (hr : r.nIndex = -1) :
    Sound N { s with reserveKeys := Function.update s.reserveKeys h r } := by
  have hindex : ∀ h', (Function.update s.reserveKeys h r h').nIndex = (s.reserveKeys h').nIndex := by
    intro h'
    by_cases hh : h' = h
    · subst hh
      rw [Function.update_self, hr, hfree]
    · rw [Function.update_of_ne hh]
  have hheld : KeySystem.held { s with reserveKeys := Function.update s.reserveKeys h r } = s.held := by
    simp only [held, hindex]
  refine ⟨?_, ?_, ?_, hs.thrown⟩
  · rw [hheld]
    exact hs.wallet
  · intro h' hne
    have hh : h' ≠ h := by
      rintro rfl
      exact hne (by simp only [hindex, hfree])
    simp only [Function.update_of_ne hh] at hne ⊢
    exact hs.holder h' hne
  · intro h₁ h₂ hne heq
    simp only [hindex] at hne heq
    exact hs.distinct h₁ h₂ hne heq

/-- A holder without an index takes one of the set. -/
theorem Sound.take {s : KeySystem} (hs : s.Sound N) {h : ℕ} {i : ℤ} {key : CPubKey}
    (hfree : (s.reserveKeys h).nIndex = -1) (hi : i ∈ s.wallet.setKeyPool) (hpool : s.wallet.pool i = some ⟨key⟩) :
    Sound N { s with
      wallet := { s.wallet with setKeyPool := s.wallet.setKeyPool.erase i }
      reserveKeys := Function.update s.reserveKeys h ⟨i, key⟩ } := by
  have hne : i ≠ -1 := by
    have := hs.wallet.pos i (.inl hi)
    omega
  refine ⟨?_, ?_, ?_, hs.thrown⟩
  · rw [held_take (s := s) hfree hne rfl]
    exact hs.wallet.take hi
  · intro h' hne'
    by_cases hh : h' = h
    · subst hh
      simp only [Function.update_self]
      exact hpool
    · simp only [Function.update_of_ne hh] at hne' ⊢
      exact hs.holder h' hne'
  · intro h₁ h₂ hne' heq
    have hother : ∀ h', (s.reserveKeys h').nIndex ≠ i := by
      rintro h' rfl
      exact hs.wallet.disjoint _ hi (mem_held hne)
    by_cases hh₁ : h₁ = h <;> by_cases hh₂ : h₂ = h
    · rw [hh₁, hh₂]
    · subst hh₁
      simp only [Function.update_self, Function.update_of_ne hh₂] at heq
      exact absurd heq.symm (hother h₂)
    · subst hh₂
      simp only [Function.update_self, Function.update_of_ne hh₁] at heq
      exact absurd heq (hother h₁)
    · simp only [Function.update_of_ne hh₁, Function.update_of_ne hh₂] at hne' heq
      exact hs.distinct h₁ h₂ hne' heq

/-- A holder that lets its index go, in a wallet that is sound without it. -/
theorem Sound.release {s : KeySystem} (hs : s.Sound N) {h : ℕ} {w : KeyWallet} {kept : List CPubKey}
    (hw : w.Sound N (s.held \ {(s.reserveKeys h).nIndex}) kept)
    (hframe : ∀ i, i ≠ (s.reserveKeys h).nIndex → w.pool i = s.wallet.pool i) :
    Sound N { s with wallet := w, kept, reserveKeys := Function.update s.reserveKeys h {} } := by
  have hindex : ∀ h', (Function.update s.reserveKeys h {} h').nIndex ≠ -1 → h' ≠ h := by
    rintro h' hne rfl
    exact hne (by rw [Function.update_self])
  refine ⟨?_, ?_, ?_, hs.thrown⟩
  · rw [held_release (s := s) (r := {}) rfl rfl hs.distinct]
    exact hw
  · intro h' hne
    have hh := hindex h' hne
    simp only [Function.update_of_ne hh] at hne ⊢
    rw [hframe _ fun heq => hh (hs.distinct h' h hne heq)]
    exact hs.holder h' hne
  · intro h₁ h₂ hne heq
    have hh₁ := hindex h₁ hne
    have hh₂ := hindex h₂ (fun h₂ne => hne (heq.trans h₂ne))
    simp only [Function.update_of_ne hh₁, Function.update_of_ne hh₂] at hne heq
    exact hs.distinct h₁ h₂ hne heq

/-! ### Steps and runs -/

/-- The call writes no record at an index that is reserved, and `NewKeyPool` writes all its records. -/
def Clear (s : KeySystem) : KeyStep → Prop
  | .topUpKeyPool disk nSize => s.wallet.fLocked = false → s.wallet.TopUpClear s.held disk nSize
  | .newKeyPool disk => s.wallet.fLocked = false → KeyWallet.NewKeysClear s.held disk s.wallet.keypoolSize
  | .getReservedKey disk holder =>
    (s.reserveKeys holder).nIndex = -1 → s.wallet.fLocked = false → s.wallet.TopUpClear s.held disk 0
  | _ => True

/-- Each call of a run is clear in the state before it. -/
def ClearRun : KeySystem → List KeyStep → Prop
  | _, [] => True
  | s, st :: steps => s.Clear st ∧ ClearRun (s.step st) steps

/-- What the key pool promises. -/
structure Promise (s : KeySystem) : Prop where
  recorded : ∀ i ∈ s.wallet.setKeyPool, ∃ keypool, s.wallet.pool i = some keypool ∧
    s.wallet.haveKey (KeySource.getID keypool.vchPubKey)
  not_thrown : PoolError.readFailed ∉ s.thrown
  kept_once : s.kept.Nodup

/-- A wallet as it is loaded, without holders: the records of its indices have keys of the wallet, each another one,
that will not be generated again. -/
structure Loaded (N : ℕ) (s : KeySystem) : Prop where
  free : ∀ h, (s.reserveKeys h).nIndex = -1
  kept : s.kept = []
  thrown : s.thrown = []
  pos : ∀ i ∈ s.wallet.setKeyPool, 1 ≤ i
  record : ∀ i ∈ s.wallet.setKeyPool, ∃ key, s.wallet.pool i = some ⟨key⟩ ∧ key.isValid ∧
    s.wallet.haveKey (KeySource.getID key) ∧ s.wallet.Used N key
  inj : ∀ i ∈ s.wallet.setKeyPool, ∀ j ∈ s.wallet.setKeyPool, s.wallet.pool i = s.wallet.pool j → i = j

theorem Loaded.sound {s : KeySystem} (h : s.Loaded N) : s.Sound N := by
  have hlive : ∀ i, s.wallet.Live s.held i → i ∈ s.wallet.setKeyPool := by
    rintro i (hi | ⟨hne, h', hi⟩)
    · exact hi
    · exact absurd (hi.symm.trans (h.free h')) hne
  refine ⟨⟨?_, ?_, ?_, ?_, ?_, ?_, ?_⟩, ?_, ?_, ?_⟩
  · intro i hi
    exact h.pos i (hlive i hi)
  · rintro i hi ⟨hne, h', hi'⟩
    exact hne (hi'.symm.trans (h.free h'))
  · intro i hi
    obtain ⟨key, hpool, hvalid, hhave, -⟩ := h.record i (hlive i hi)
    exact ⟨key, hpool, hvalid, hhave⟩
  · intro i key hi hpool
    obtain ⟨key', hpool', -, -, hused⟩ := h.record i (hlive i hi)
    rw [hpool, Option.some.injEq, CKeyPool.mk.injEq] at hpool'
    subst hpool'
    rw [h.kept]
    exact ⟨hused, List.not_mem_nil⟩
  · intro i j hi hj heq
    exact h.inj i (hlive i hi) j (hlive j hj) heq
  · rw [h.kept]
    exact fun key hkey => absurd hkey List.not_mem_nil
  · rw [h.kept]
    exact List.nodup_nil
  · intro h' hne
    exact absurd (h.free h') hne
  · intro h' _ hne _
    exact absurd (h.free h') hne
  · rw [h.thrown]
    exact fun e he => absurd he List.not_mem_nil

theorem Sound.promise {s : KeySystem} (hs : s.Sound N) : s.Promise := by
  refine ⟨?_, ?_, hs.wallet.kept_nodup⟩
  · intro i hi
    obtain ⟨key, hpool, -, hhave⟩ := hs.wallet.record i (.inl hi)
    exact ⟨⟨key⟩, hpool, hhave⟩
  · intro hmem
    rcases hs.thrown _ hmem with heq | heq <;> cases heq

theorem nGenerated_getReservedKey {s : KeySystem} {disk : DiskWrites} {h : ℕ}
    (hfree : (s.reserveKeys h).nIndex = -1) :
    (s.step (.getReservedKey disk h)).wallet.nGenerated =
      (s.wallet.reserveKeyFromKeyPool disk).wallet.nGenerated := by
  simp only [step, CReserveKey.getReservedKey, if_pos hfree]
  cases (s.wallet.reserveKeyFromKeyPool disk).error with
  | some e => rfl
  | none =>
    dsimp only
    split
    · split <;> rfl
    · split <;> rfl

theorem sound_getReservedKey (hnew : KeyWallet.DistinctKeys N) {s : KeySystem} (hs : s.Sound N) {disk : DiskWrites}
    {h : ℕ} (hN : (s.step (.getReservedKey disk h)).wallet.nGenerated ≤ N)
    (hclear : s.Clear (.getReservedKey disk h)) : (s.step (.getReservedKey disk h)).Sound N := by
  have hvalid : ∀ hne : (s.reserveKeys h).nIndex ≠ -1, (s.reserveKeys h).vchPubKey.isValid := by
    intro hne
    obtain ⟨key, hpool, hkey, -⟩ := hs.wallet.record _ (.inr (mem_held hne))
    rw [hs.holder h hne, Option.some.injEq, CKeyPool.mk.injEq] at hpool
    rw [hpool]
    exact hkey
  by_cases hfree : (s.reserveKeys h).nIndex = -1
  · have hgen : (s.wallet.reserveKeyFromKeyPool disk).wallet.nGenerated ≤ N := by
      rw [← nGenerated_getReservedKey hfree]
      exact hN
    obtain ⟨w', hkeeps, ⟨e, he, hres⟩ | hres⟩ :=
      KeyWallet.reserveKeyFromKeyPool_cases hnew hs.wallet hgen (hclear hfree)
    · have hget : (s.reserveKeys h).getReservedKey disk s.wallet =
          (w', { s.reserveKeys h with nIndex := -1 }, .error e) := by
        rw [CReserveKey.getReservedKey, if_pos hfree, hres]
      simp only [step, hget]
      have hafter : (s.after (w', (.error e : Except PoolError (Option CPubKey)))).Sound N := hs.after hkeeps (by
        intro e' he'
        cases he'
        exact he)
      exact hafter.update hfree rfl
    · have hafter : (s.after (w', (.ok none : Except PoolError (Option CPubKey)))).Sound N := hs.after hkeeps (by
        intro e' he'
        cases he')
      rcases KeyWallet.takeOldest_cases hkeeps.sound with ⟨herr, hidx, hwallet⟩ | ⟨i, key, hi, hpool, hkey, htake⟩
      · by_cases hdef : s.wallet.vchDefaultKey.isValid
        · have hget : (s.reserveKeys h).getReservedKey disk s.wallet =
              (w', ⟨-1, s.wallet.vchDefaultKey⟩, .ok (some s.wallet.vchDefaultKey)) := by
            simp [CReserveKey.getReservedKey, hfree, hres, herr, hidx, hwallet, hdef]
          simp only [step, hget]
          exact hafter.update hfree rfl
        · have hget : (s.reserveKeys h).getReservedKey disk s.wallet =
              (w', ⟨-1, (s.reserveKeys h).vchPubKey⟩, .ok none) := by
            simp [CReserveKey.getReservedKey, hfree, hres, herr, hidx, hwallet, hdef]
          simp only [step, hget]
          exact hafter.update hfree rfl
      · have hne : i ≠ -1 := by
          have := hkeeps.sound.pos i (.inl hi)
          omega
        have hget : (s.reserveKeys h).getReservedKey disk s.wallet =
            ({ w' with setKeyPool := w'.setKeyPool.erase i }, ⟨i, key⟩, .ok (some key)) := by
          simp [CReserveKey.getReservedKey, hfree, hres, htake, hne, hkey]
        simp only [step, hget]
        exact hafter.take hfree hi hpool
  · have hget : (s.reserveKeys h).getReservedKey disk s.wallet =
        (s.wallet, s.reserveKeys h, .ok (some (s.reserveKeys h).vchPubKey)) := by
      rw [CReserveKey.getReservedKey, if_neg hfree, if_pos (hvalid hfree)]
    simp only [step, hget, Function.update_eq_self]
    exact hs

/-- One call keeps the invariant. -/
theorem sound_step (hnew : KeyWallet.DistinctKeys N) {s : KeySystem} (hs : s.Sound N) {st : KeyStep}
    (hN : (s.step st).wallet.nGenerated ≤ N) (hclear : s.Clear st) : (s.step st).Sound N := by
  cases st with
  | topUpKeyPool disk nSize =>
    apply hs.after (KeyWallet.keeps_topUpKeyPool hnew hs.wallet hN hclear)
    intro e he
    rw [KeyWallet.topUpKeyPool] at he
    split at he
    · cases he
    · exact KeyWallet.topUpLoop_error _ _ he
  | newKeyPool disk =>
    apply hs.after (KeyWallet.keeps_newKeyPool hnew hs.wallet hN hclear)
    intro e he
    rw [KeyWallet.newKeyPool] at he
    split at he
    · cases he
    · exact .inl (KeyWallet.newKeysLoop_error _ _ he)
  | getReservedKey disk holder => exact sound_getReservedKey hnew hs hN hclear
  | keepKey holder =>
    simp only [step]
    by_cases hne : (s.reserveKeys holder).nIndex ≠ -1
    · rw [if_pos hne, if_pos hne]
      exact hs.release (hs.wallet.keepKey (mem_held hne) (hs.holder holder hne))
        fun i hi => KeyWallet.pool_keepKey_of_ne hi
    · rw [if_neg hne, if_neg hne]
      exact hs.update (not_not.mp hne) rfl
  | returnKey holder =>
    simp only [step]
    by_cases hne : (s.reserveKeys holder).nIndex ≠ -1
    · rw [if_pos hne]
      exact hs.release (hs.wallet.returnKey (mem_held hne)) fun _ _ => rfl
    · rw [if_neg hne]
      exact hs.update (not_not.mp hne) rfl
  | setLocked fLocked => exact ⟨⟨hs.wallet.pos, hs.wallet.disjoint, hs.wallet.record, hs.wallet.unkept,
      hs.wallet.inj, hs.wallet.kept_used, hs.wallet.kept_nodup⟩, hs.holder, hs.distinct, hs.thrown⟩

theorem le_nGenerated_step (s : KeySystem) (st : KeyStep) : s.wallet.nGenerated ≤ (s.step st).wallet.nGenerated := by
  cases st with
  | topUpKeyPool disk nSize => exact KeyWallet.le_nGenerated_topUpKeyPool disk nSize s.wallet
  | newKeyPool disk => exact KeyWallet.le_nGenerated_newKeyPool disk s.wallet
  | getReservedKey disk holder =>
    by_cases hfree : (s.reserveKeys holder).nIndex = -1
    · rw [nGenerated_getReservedKey hfree, KeyWallet.nGenerated_reserveKeyFromKeyPool]
      exact KeyWallet.le_nGenerated_topUpKeyPool disk 0 s.wallet
    · simp only [step, CReserveKey.getReservedKey, if_neg hfree]
      split <;> exact Nat.le_refl _
  | keepKey holder =>
    simp only [step]
    split
    · rw [(s.wallet.keepKey_frame _).2.2]
    · exact Nat.le_refl _
  | returnKey holder =>
    simp only [step]
    split <;> exact Nat.le_refl _
  | setLocked fLocked => exact Nat.le_refl _

theorem le_nGenerated_run (s : KeySystem) (steps : List KeyStep) :
    s.wallet.nGenerated ≤ (s.run steps).wallet.nGenerated := by
  induction steps generalizing s with
  | nil => exact Nat.le_refl _
  | cons st steps ih => exact Nat.le_trans (s.le_nGenerated_step st) (ih (s.step st))

theorem sound_run (hnew : KeyWallet.DistinctKeys N) {s : KeySystem} (hs : s.Sound N) {steps : List KeyStep}
    (hN : (s.run steps).wallet.nGenerated ≤ N) (hclear : s.ClearRun steps) : (s.run steps).Sound N := by
  induction steps generalizing s with
  | nil => exact hs
  | cons st steps ih =>
    have hstep : (s.step st).wallet.nGenerated ≤ N := Nat.le_trans (le_nGenerated_run _ steps) hN
    exact ih (sound_step hnew hs hstep hclear.1) hN hclear.2

/-- In every run of clear calls the key pool keeps its promise, if no two keys that the run generates are the same. -/
theorem keyPool_run {s : KeySystem} {steps : List KeyStep}
    (hnew : KeyWallet.DistinctKeys (s.run steps).wallet.nGenerated)
    (hs : s.Loaded (s.run steps).wallet.nGenerated) (hclear : s.ClearRun steps) : (s.run steps).Promise :=
  (sound_run hnew hs.sound (Nat.le_refl _) hclear).promise

end KeySystem

/-! ### A pool of size 0 -/

namespace KeyPoolSample

/-- Compressed keys that end with the number of the call. -/
scoped instance keySource : KeySource where
  newKey n := ⟨2 :: (List.replicate 31 0 ++ [UInt8.ofNat n])⟩
  getID key := ⟨List.replicate 19 0 ++ [key.vch.getLastD 0], by simp⟩

/-- All writes succeed. -/
def disk : DiskWrites := ⟨fun _ => true, fun _ => true⟩

/-- A new wallet with a pool size. -/
def start (size : ℤ) : KeySystem := ⟨{ keypoolArg := some size }, fun _ => {}, [], []⟩

/-- Two holders reserve a key each. The first returns its index, and the second keeps its key. -/
def twoHolders : List KeyStep :=
  [.getReservedKey disk 0, .getReservedKey disk 1, .returnKey 0, .keepKey 1]

theorem start_loaded (size : ℤ) (N : ℕ) : (start size).Loaded N where
  free _ := rfl
  kept := rfl
  thrown := rfl
  pos i hi := absurd hi (Finset.notMem_empty i)
  record i hi := absurd hi (Finset.notMem_empty i)
  inj i hi := absurd hi (Finset.notMem_empty i)

theorem distinctKeys {N : ℕ} (hN : N ≤ 256) : KeyWallet.DistinctKeys N where
  inj := by
    intro m n hm hn heq
    simp only [KeySource.newKey, CPubKey.mk.injEq, List.cons.injEq, List.append_cancel_left_eq, true_and,
      and_true] at heq
    have := congrArg UInt8.toNat heq
    simp only [UInt8.toNat_ofNat'] at this
    omega
  isValid _ _ := rfl

/-- With a pool size of 1 the second holder's record has index 3. Both keys are kept. -/
theorem keyPool_run_bothKept :
    ((start 1).run [.getReservedKey disk 0, .getReservedKey disk 1, .keepKey 0, .keepKey 1]).Promise := by
  apply KeySystem.keyPool_run (distinctKeys (by decide)) (start_loaded 1 _)
  refine ⟨?_, ?_, trivial, trivial, trivial⟩
  · rintro - - k - - ⟨hne, h, hi⟩
    exact hne hi.symm
  · have hend : ((start 1).step (.getReservedKey disk 0)).wallet.nEnd = 3 := by decide
    have hfirst : (((start 1).step (.getReservedKey disk 0)).reserveKeys 0).nIndex = 1 := by decide
    rintro - - k - - ⟨hne, h, hi⟩
    rw [hend] at hne hi
    cases h with
    | zero =>
      rw [hfirst] at hi
      omega
    | succ h => exact hne hi.symm

/-- With a pool size of 0 the index of the first holder is left in the set without a record, and the next reservation
throws. -/
theorem twoHolders_broken : (start 0).Loaded 2 ∧ KeyWallet.DistinctKeys 2 ∧
    ((start 0).run twoHolders).wallet.nGenerated = 2 ∧ ¬ ((start 0).run twoHolders).Promise ∧
      PoolError.readFailed ∈ ((start 0).run (twoHolders ++ [.getReservedKey disk 2])).thrown := by
  refine ⟨start_loaded 0 2, distinctKeys (by decide), by decide, ?_, by decide⟩
  intro h
  have hmem : (1 : ℤ) ∈ ((start 0).run twoHolders).wallet.setKeyPool := by decide
  have hnone : ((start 0).run twoHolders).wallet.pool 1 = none := by decide
  obtain ⟨keypool, hpool, -⟩ := h.recorded 1 hmem
  rw [hnone] at hpool
  cases hpool

end KeyPoolSample

end PayDayCoin
