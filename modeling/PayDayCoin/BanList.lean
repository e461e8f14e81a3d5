import PayDayCoin.Subnets
import PayDayCoin.Library.Expiry
import PayDayCoin.Library.Runs

/-!
# The list of bans

Subnets are banned up to a time, by the peer logic and by the user, for `-bantime` seconds if nothing else is said. A
later ban of the same subnet counts only if it is longer; expired bans are swept out; the list is written to
`banlist.dat` when it has changed (`DumpData`), or at once by the commands (`DumpBanlist`), and read when the node starts.

**`bans_refine`**: in every run an address is banned exactly when one of the bans that were made and not taken back, or
that were on file when the node last started, matches it and is not over, whatever has been merged, swept, written and
read in between. **`startNode_isBanned`**: while the flag says that nothing has changed, a node that is started again
bans the same addresses.
-/

namespace PayDayCoin

open Library Library.Runs

/-- `CBanEntry`. -/
structure CBanEntry where
  nVersion : Int32 := 1
  nCreateTime : ℤ := 0
  nBanUntil : ℤ := 0
  banReason : UInt8 := 0
deriving DecidableEq

/-- What `operator<` of subnets compares: not whether they are valid. -/
def CSubNet.key (subNet : CSubNet) : CNetAddr × List UInt8 := (subNet.network, subNet.netmask)

/-- `banmap_t`: what is banned under a key, with the subnet that the key was entered as. -/
abbrev BanMap := AList fun _ : CNetAddr × List UInt8 => CSubNet × CBanEntry

/-- The list of bans, whether it has changed, and what is on file. -/
structure BanState where
  setBanned : BanMap := ∅
  setBannedIsDirty : Bool := false
  banlist : BanMap := ∅

/-- The end of an entry. -/
def banEnd (e : CSubNet × CBanEntry) : ℤ := e.2.nBanUntil

/-- The end of a ban; `bantime` is the argument `-bantime`. -/
def banUntil (bantime now bantimeoffset : ℤ) (sinceUnixEpoch : Bool) : ℤ :=
  if bantimeoffset ≤ 0 then now + bantime else (if sinceUnixEpoch then 0 else now) + bantimeoffset

namespace BanState

/-- `IsBanned` of an address. -/
def isBanned (s : BanState) (now : ℤ) (ip : CNetAddr) : Bool :=
  s.setBanned.entries.any fun e => e.2.1.isMatch ip && now < e.2.2.nBanUntil

/-- `Ban`. -/
def ban (bantime now : ℤ) (s : BanState) (subNet : CSubNet) (banReason : UInt8) (bantimeoffset : ℤ)
    (sinceUnixEpoch : Bool) : BanState :=
  let banEntry : CBanEntry :=
    { nCreateTime := now, nBanUntil := banUntil bantime now bantimeoffset sinceUnixEpoch, banReason := banReason }
  -- looking a subnet up enters it with an empty entry
  let found := (s.setBanned.lookup subNet.key).getD (subNet, {})
  let entry := if found.2.nBanUntil < banEntry.nBanUntil then banEntry else found.2
  { s with setBanned := s.setBanned.insert subNet.key (found.1, entry), setBannedIsDirty := true }

/-- `Unban`. -/
def unban (s : BanState) (subNet : CSubNet) : Bool × BanState :=
  if (s.setBanned.lookup subNet.key).isSome then
    (true, { s with setBanned := s.setBanned.erase subNet.key, setBannedIsDirty := true })
  else (false, s)

/-- `ClearBanned`. -/
def clearBanned (s : BanState) : BanState := { s with setBanned := ∅, setBannedIsDirty := true }

/-- `SweepBanned`. -/
def sweepBanned (now : ℤ) (s : BanState) : BanState :=
  { s with setBanned := Expiry.sweep banEnd now s.setBanned
           setBannedIsDirty := s.setBannedIsDirty || s.setBanned.entries.any fun e => decide (banEnd e.2 < now) }

/-- `DumpBanlist`; whether `CBanDB::Write` succeeds is given. -/
def dumpBanlist (now : ℤ) (written : Bool) (s : BanState) : BanState :=
  let s := s.sweepBanned now
  if written then { s with banlist := s.setBanned } else s

/-- `DumpData`, of the bans. -/
def dumpData (now : ℤ) (written : Bool) (s : BanState) : BanState :=
  if s.setBannedIsDirty then { s.dumpBanlist now written with setBannedIsDirty := false } else s

/-- `StartNode`, of the bans: what is on file is read. -/
def startNode (now : ℤ) (s : BanState) : BanState :=
  { s with setBanned := s.banlist, setBannedIsDirty := false }.sweepBanned now

end BanState

/-- What happens to the bans. -/
inductive BanEvent
  | ban (subNet : CSubNet) (banReason : UInt8) (bantimeoffset : ℤ) (sinceUnixEpoch : Bool)
  | unban (subNet : CSubNet)
  | clearBanned
  | sweepBanned
  | dumpBanlist (written : Bool)
  | dumpData (written : Bool)
  | startNode

/-- An event at its time. -/
def BanState.step (bantime : ℤ) (s : BanState) : ℤ × BanEvent → BanState
  | (now, .ban subNet banReason bantimeoffset sinceUnixEpoch) =>
    s.ban bantime now subNet banReason bantimeoffset sinceUnixEpoch
  | (_, .unban subNet) => (s.unban subNet).2
  | (_, .clearBanned) => s.clearBanned
  | (now, .sweepBanned) => s.sweepBanned now
  | (now, .dumpBanlist written) => s.dumpBanlist now written
  | (now, .dumpData written) => s.dumpData now written
  | (now, .startNode) => s.startNode now

/-! ### What the list is for -/

/-- The bans that count, with their ends, and those that count once the node is started again. -/
structure BanRecord where
  banned : List (CSubNet × ℤ) := []
  stored : List (CSubNet × ℤ) := []

/-- Bans are made, and taken back; nothing is merged or swept. -/
def BanRecord.step (bantime : ℤ) (r : BanRecord) : ℤ × BanEvent → BanRecord
  | (now, .ban subNet _ bantimeoffset sinceUnixEpoch) =>
    { r with banned := (subNet, banUntil bantime now bantimeoffset sinceUnixEpoch) :: r.banned }
  | (_, .unban subNet) => { r with banned := r.banned.filter fun b => b.1.key ≠ subNet.key }
  | (_, .clearBanned) => { r with banned := [] }
  | (_, .sweepBanned) => r
  | (_, .dumpBanlist _) | (_, .dumpData _) => { r with stored := r.banned }
  | (_, .startNode) => { r with banned := r.stored }

/-- Only valid subnets are banned, and the file can be written. -/
def BanEvent.Proper : BanEvent → Prop
  | .ban subNet _ _ _ => subNet.valid = true
  | .dumpBanlist written | .dumpData written => written = true
  | _ => True

/-- The clock does not go back. -/
def InOrder : ℤ → List (ℤ × BanEvent) → Prop
  | _, [] => True
  | now, (t, e) :: events => now ≤ t ∧ e.Proper ∧ InOrder t events

/-- The time of the last event. -/
def clockAfter : ℤ → List (ℤ × BanEvent) → ℤ
  | now, [] => now
  | _, (t, _) :: events => clockAfter t events

/-- From a time on, a map bans what a list of bans does. -/
structure Shows (now : ℤ) (m : BanMap) (bans : List (CSubNet × ℤ)) : Prop where
  held : ∀ k t, now ≤ t → (Expiry.Held banEnd m k t ↔ Expiry.Granted CSubNet.key bans k t)
  entry : ∀ k e, e ∈ m.lookup k → e.1.key = k ∧ e.1.valid = true
  valid : ∀ b ∈ bans, b.1.valid = true

/-- The state is as the record says; a list that has not changed is on file. -/
structure BanState.Agrees (now : ℤ) (s : BanState) (r : BanRecord) : Prop where
  banned : Shows now s.setBanned r.banned
  stored : Shows now s.banlist r.stored
  clean : s.setBannedIsDirty = false → ∀ k t, now ≤ t →
    (Expiry.Granted CSubNet.key r.banned k t ↔ Expiry.Granted CSubNet.key r.stored k t)

theorem eq_of_key {a b : CSubNet} (hkey : a.key = b.key) (ha : a.valid = true) (hb : b.valid = true) : a = b := by
  cases a
  cases b
  simp_all [CSubNet.key]

namespace Shows

variable {now t : ℤ} {m : BanMap} {bans : List (CSubNet × ℤ)}

theorem mono (h : Shows now m bans) (hle : now ≤ t) : Shows t m bans where
  held k u hu := h.held k u (hle.trans hu)
  entry := h.entry
  valid := h.valid

theorem empty (now : ℤ) : Shows now ∅ [] where
  held k t _ := by simp [Expiry.Held, Expiry.Granted]
  entry k e he := by simp at he
  valid b hb := by cases hb

theorem sweep (h : Shows now m bans) : Shows now (Expiry.sweep banEnd now m) bans where
  held k t ht := (Expiry.held_sweep ht).trans (h.held k t ht)
  entry k e he := h.entry k e (Expiry.mem_lookup_sweep.1 he).1
  valid := h.valid

/-- What an address is banned by. -/
theorem any_iff (h : Shows now m bans) (ht : now ≤ t) (ip : CNetAddr) :
    (m.entries.any fun e => e.2.1.isMatch ip && t < e.2.2.nBanUntil) = true ↔
      ∃ b ∈ bans, b.1.isMatch ip = true ∧ t < b.2 := by
  simp only [List.any_eq_true, Bool.and_eq_true, decide_eq_true_eq]
  constructor
  · rintro ⟨⟨k, e⟩, hmem, hmatch, hend⟩
    have he : e ∈ m.lookup k := AList.mem_lookup_iff.2 hmem
    obtain ⟨b, hb, hkey, hb'⟩ := (h.held k t ht).1 ⟨e, he, hend⟩
    have heq := eq_of_key ((h.entry k e he).1.trans hkey.symm) (h.entry k e he).2 (h.valid b hb)
    exact ⟨b, hb, heq ▸ hmatch, hb'⟩
  · rintro ⟨b, hb, hmatch, hend⟩
    obtain ⟨e, he, he'⟩ := (h.held b.1.key t ht).2 ⟨b, hb, rfl, hend⟩
    have heq := eq_of_key (h.entry _ e he).1 (h.entry _ e he).2 (h.valid b hb)
    exact ⟨⟨b.1.key, e⟩, AList.mem_lookup_iff.1 he, heq ▸ hmatch, he'⟩

end Shows

/-! ### What an event does -/

section Events

variable {now t : ℤ} {m : BanMap} {bans : List (CSubNet × ℤ)} {subNet : CSubNet}

/-- What a lookup finds, an empty entry where there is none, holds its key as long as the map does. -/
theorem held_iff_found (ht : 0 ≤ t) :
    Expiry.Held banEnd m subNet.key t ↔ t < ((m.lookup subNet.key).getD (subNet, {})).2.nBanUntil := by
  rcases hlookup : m.lookup subNet.key with _ | e
  · simp only [Expiry.Held, hlookup, Option.not_mem_none, false_and, exists_false, Option.getD_none, false_iff, not_lt]
    exact ht
  · simp only [Expiry.Held, hlookup, Option.mem_some_iff, exists_eq_left', Option.getD_some]
    rfl

theorem Shows.ban (h : Shows now m bans) (hnow : 0 ≤ now) (hvalid : subNet.valid = true) (banEntry : CBanEntry)
    {found : CSubNet × CBanEntry} (hfound : found = (m.lookup subNet.key).getD (subNet, {})) :
    Shows now (m.insert subNet.key
      (found.1, if found.2.nBanUntil < banEntry.nBanUntil then banEntry else found.2))
      ((subNet, banEntry.nBanUntil) :: bans) where
  held k t ht := by
    rw [Expiry.held_insert, Expiry.granted_cons]
    split
    · next hk =>
      subst hk
      rw [← h.held _ t ht, held_iff_found (hnow.trans ht), ← hfound, and_iff_right rfl]
      simp only [banEnd]
      split <;> omega
    · next hk =>
      rw [h.held k t ht]
      exact (or_iff_right fun hkey => hk hkey.1.symm).symm
  entry k e he := by
    by_cases hk : k = subNet.key
    · subst hk
      rw [AList.lookup_insert, Option.mem_some_iff] at he
      subst he hfound
      rcases hlookup : m.lookup subNet.key with _ | e
      · exact ⟨rfl, hvalid⟩
      · exact h.entry _ e hlookup
    · rw [AList.lookup_insert_ne hk] at he
      exact h.entry k e he
  valid b hb := by
    rcases List.mem_cons.1 hb with rfl | hb
    · exact hvalid
    · exact h.valid b hb

theorem Shows.unban (h : Shows now m bans) (subNet : CSubNet) :
    Shows now (m.erase subNet.key) (bans.filter fun b => b.1.key ≠ subNet.key) where
  held k t ht := by rw [Expiry.held_erase, Expiry.granted_filter, h.held k t ht]
  entry k e he := by
    by_cases hk : k = subNet.key
    · rw [hk, AList.lookup_erase] at he
      cases he
    · rw [AList.lookup_erase_ne hk] at he
      exact h.entry k e he
  valid b hb := h.valid b (List.mem_filter.1 hb).1

/-- Bans of a subnet that is not in the map are over. -/
theorem Shows.granted_unban (h : Shows now m bans) (hnone : m.lookup subNet.key = none) {k : CNetAddr × List UInt8}
    (ht : now ≤ t) : Expiry.Granted CSubNet.key (bans.filter fun b => b.1.key ≠ subNet.key) k t ↔
      Expiry.Granted CSubNet.key bans k t := by
  rw [Expiry.granted_filter, ← h.held k t ht]
  refine and_iff_right_of_imp ?_
  rintro ⟨e, he, -⟩ rfl
  rw [hnone] at he
  cases he

variable {s : BanState} {r : BanRecord}

theorem BanState.Agrees.mono (h : s.Agrees now r) (hle : now ≤ t) : s.Agrees t r where
  banned := h.banned.mono hle
  stored := h.stored.mono hle
  clean hdirty k u hu := h.clean hdirty k u (hle.trans hu)

/-- A list that has not changed is what is on file. -/
theorem BanState.Agrees.file (h : s.Agrees now r) (hclean : s.setBannedIsDirty = false) :
    Shows now s.banlist r.banned where
  held k t ht := (h.stored.held k t ht).trans (h.clean hclean k t ht).symm
  entry := h.stored.entry
  valid := h.banned.valid

theorem BanState.Agrees.step (h : s.Agrees now r) (hnow : 0 ≤ now) {e : BanEvent} (he : e.Proper) (bantime : ℤ) :
    (s.step bantime (now, e)).Agrees now (r.step bantime (now, e)) := by
  cases e with
  | ban subNet banReason bantimeoffset sinceUnixEpoch =>
    exact ⟨h.banned.ban hnow he _ rfl, h.stored, fun hdirty => by cases hdirty⟩
  | unban subNet =>
    simp only [BanState.step, BanState.unban, BanRecord.step]
    rcases hlookup : s.setBanned.lookup subNet.key with _ | e
    · -- nothing is erased, and the flag stays as it is
      refine ⟨⟨fun k t ht => ?_, h.banned.entry, fun b hb => h.banned.valid b (List.mem_filter.1 hb).1⟩, h.stored,
        fun hdirty k t ht => ?_⟩
      · exact (h.banned.held k t ht).trans (h.banned.granted_unban hlookup ht).symm
      · exact (h.banned.granted_unban hlookup ht).trans (h.clean hdirty k t ht)
    · exact ⟨h.banned.unban subNet, h.stored, fun hdirty => by cases hdirty⟩
  | clearBanned => exact ⟨Shows.empty now, h.stored, fun hdirty => by cases hdirty⟩
  | sweepBanned =>
    exact ⟨h.banned.sweep, h.stored, fun hdirty => h.clean (Bool.or_eq_false_iff.1 hdirty).1⟩
  | dumpBanlist written =>
    obtain rfl : written = true := he
    exact ⟨h.banned.sweep, h.banned.sweep, fun _ _ _ _ => Iff.rfl⟩
  | dumpData written =>
    obtain rfl : written = true := he
    simp only [BanState.step, BanState.dumpData, BanRecord.step]
    split
    · exact ⟨h.banned.sweep, h.banned.sweep, fun _ _ _ _ => Iff.rfl⟩
    · next hclean => exact ⟨h.banned, h.file (Bool.eq_false_of_not_eq_true hclean), fun _ _ _ _ => Iff.rfl⟩
  | startNode => exact ⟨h.stored.sweep, h.stored, fun _ _ _ _ => Iff.rfl⟩

/-- A run keeps the state as the record says. -/
theorem BanState.Agrees.run {events : List (ℤ × BanEvent)} (h : s.Agrees now r) (hnow : 0 ≤ now)
    (hevents : InOrder now events) (bantime : ℤ) :
    (Runs.run (BanState.step bantime) s events).Agrees (clockAfter now events)
      (Runs.run (BanRecord.step bantime) r events) := by
  induction events generalizing now s r with
  | nil => exact h
  | cons e events ih =>
    obtain ⟨t, e⟩ := e
    obtain ⟨hle, he, hrest⟩ := hevents
    exact ih ((h.mono hle).step (hnow.trans hle) he bantime) (hnow.trans hle) hrest

theorem BanState.agrees_start : ({} : BanState).Agrees 0 {} where
  banned := Shows.empty 0
  stored := Shows.empty 0
  clean _ _ _ _ := Iff.rfl

end Events

/-! ### Runs -/

/-- A node that is started again while nothing has changed bans the same addresses. -/
theorem startNode_isBanned (bantime : ℤ) {events : List (ℤ × BanEvent)} (h : InOrder 0 events) {now t : ℤ}
    (hnow : clockAfter 0 events ≤ now) (ht : now ≤ t)
    (hclean : (run (BanState.step bantime) {} events).setBannedIsDirty = false) (ip : CNetAddr) :
    ((run (BanState.step bantime) {} events).startNode now).isBanned t ip =
      (run (BanState.step bantime) {} events).isBanned t ip := by
  have hagrees := (BanState.agrees_start.run (Int.le_refl 0) h bantime).mono hnow
  exact Bool.eq_iff_iff.2
    (((hagrees.file hclean).sweep.any_iff ht ip).trans (hagrees.banned.any_iff ht ip).symm)

namespace BanSample

def subNet : CSubNet := ⟨List.replicate 16 1, List.replicate 16 255, true⟩

/-- A ban, one of the same subnet that is shorter, and the time at which the list is written. -/
def events : List (ℤ × BanEvent) :=
  [(10, .ban subNet 1 100 false), (20, .ban subNet 2 50 false), (30, .dumpData true)]

theorem inOrder_events : InOrder 0 events :=
  ⟨by decide, rfl, by decide, rfl, by decide, rfl, trivial⟩

theorem startNode_isBanned_events :
    ((run (BanState.step 86400) {} events).startNode 40).isBanned 50 subNet.network =
      (run (BanState.step 86400) {} events).isBanned 50 subNet.network :=
  startNode_isBanned 86400 inOrder_events (by decide) (by decide) rfl subNet.network

end BanSample

end PayDayCoin
