import PayDayCoin.AddrManFile
import PayDayCoin.Library.Runs
import Mathlib.Algebra.BigOperators.Group.Finset.Basic

/-!
# Runs of the address manager

`Consistent` is what `Check_` asks of the tables, but for the times. **`CAddrMan.consistent_of_calls`**: over any
sequence of calls no assertion fails and the tables are consistent, and so are those that are read back from their file,
which hold the same addresses.
-/

namespace PayDayCoin

open Library.Buckets Library.Runs

namespace CAddrMan

/-- The tables agree with each other. -/
structure Consistent (m : CAddrMan) : Prop where
  /-- `vRandom` is a permutation of the ids. -/
  ids : m.vRandom.Nodup ∧ ∀ id, id ∈ m.vRandom ↔ id ∈ m.mapInfo
  places : ∀ id info, m.mapInfo.lookup id = some info → ∃ p : ℕ, info.nRandomPos = p ∧ m.vRandom[p]? = some id
  addresses : ∀ ip id, m.mapAddr.lookup ip = some id ↔ ∃ info, m.mapInfo.lookup id = some info ∧ info.ip = ip
  /-- A tried entry has no references, and is in one tried bucket, once. -/
  tried : ∀ id info, m.mapInfo.lookup id = some info → info.fInTried = true →
    info.nRefCount = 0 ∧ ∑ k, (m.vvTried k).count id = 1 ∧ ∀ b, id ∉ m.vvNew b
  /-- A new entry is in as many new buckets as it has references. -/
  new : ∀ id info, m.mapInfo.lookup id = some info → info.fInTried = false →
    1 ≤ info.nRefCount ∧ info.nRefCount ≤ ADDRMAN_NEW_BUCKETS_PER_ADDRESS ∧
      ((Finset.univ.filter fun b => id ∈ m.vvNew b).card : ℤ) = info.nRefCount ∧ ∀ k, id ∉ m.vvTried k
  known : ∀ id, (∃ k, id ∈ m.vvTried k) ∨ (∃ b, id ∈ m.vvNew b) → id ∈ m.mapInfo
  nTried : m.nTried = (m.idsOf true).card
  nNew : m.nNew = (m.idsOf false).card
  triedSize : ∀ k, (m.vvTried k).length ≤ ADDRMAN_TRIED_BUCKET_SIZE
  newSize : ∀ b, (m.vvNew b).card ≤ ADDRMAN_NEW_BUCKET_SIZE

/-- A call, with what it draws. -/
inductive Call where
  | add (addr : CAddress) (source : CNetAddr) (nTimePenalty now : ℤ) (rnd : ℕ → ℕ)
  | good (addr : CService) (nTime : ℤ) (rnd : ℕ → ℕ)
  | attempt (addr : CService) (nTime : ℤ)
  | connected (addr : CService) (nTime : ℤ)
  | getAddr (rnd : ℕ → ℕ)
  | select (fTried : Bool) (draws : List SelectDraw)
  /-- The tables are written, and read when the node starts again. -/
  | restart

variable [AddrManHash] {m : CAddrMan}

/-- The tables after a call; `none` if an assertion fails. -/
def call (m : CAddrMan) : Call → Option CAddrMan
  | .add addr source nTimePenalty now rnd => (m.add addr source nTimePenalty now rnd).map Prod.fst
  | .good addr nTime rnd => m.good addr nTime rnd
  | .attempt addr nTime => some (m.attempt addr nTime)
  | .connected addr nTime => some (m.connected addr nTime)
  | .getAddr rnd => (m.getAddr rnd).map Prod.fst
  | .select fTried draws => (m.select fTried draws).map fun _ => m
  | .restart => read m.serialize

/-- A call after the ones before it. -/
def step (s : Option CAddrMan) (c : Call) : Option CAddrMan := s.bind fun m => m.call c

/-- **One call** succeeds and keeps the tables sound. -/
theorem Sound.call (h : Sound (fun _ => .settled) m) (c : Call) :
    ∃ m', m.call c = some m' ∧ Sound (fun _ => .settled) m' := by
  cases c with
  | add addr source nTimePenalty now rnd =>
    obtain ⟨m', fNew, hadd, hsound⟩ := h.add addr source nTimePenalty now rnd
    exact ⟨m', by rw [CAddrMan.call, hadd, Option.map_some], hsound⟩
  | good addr nTime rnd => exact h.good addr nTime rnd
  | attempt addr nTime => exact ⟨_, rfl, h.attempt addr nTime⟩
  | connected addr nTime => exact ⟨_, rfl, h.connected addr nTime⟩
  | getAddr rnd =>
    obtain ⟨m', vAddr, hget, hsound⟩ := h.getAddr rnd
    exact ⟨m', by rw [CAddrMan.call, hget, Option.map_some], hsound⟩
  | select fTried draws =>
    obtain ⟨r, hselect⟩ := h.select fTried draws
    exact ⟨m, by rw [CAddrMan.call, hselect, Option.map_some], h⟩
  | restart =>
    obtain ⟨m', hread, hsound, -⟩ := h.read_serialize
    exact ⟨m', hread, hsound⟩

/-- Sound tables are consistent. -/
theorem Sound.consistent (h : Sound (fun _ => .settled) m) : m.Consistent := by
  refine ⟨⟨h.indexed.nodup, h.indexed.mem⟩, h.indexed.pos, h.indexed.addr, fun id info hlookup hflag => ?_,
    fun id info hlookup hflag => ?_, fun id hin => ?_, h.counted.nTried, h.counted.nNew, h.placed.triedSize,
    h.placed.newSize⟩
  · obtain ⟨service, hstanding, -, htally, hempty, -⟩ :=
      h.placed.tried_of_mem (h.placed.mem_vvTried hlookup hflag)
    rw [standing_of_lookup hlookup, Option.some.injEq] at hstanding
    refine ⟨congrArg Standing.nRefCount hstanding, ?_, holders_eq_empty.1 hempty⟩
    change ∑ k, tally m.vvTried id k = 1
    rw [htally, Finset.sum_pi_single']
    simp
  · obtain ⟨htally, hcount, hleast, hmost⟩ := h.placed.of_new hlookup hflag
    rw [Pending.owed, add_zero] at hcount
    exact ⟨hleast, hmost, hcount.symm, fun k => not_mem_of_tally_eq_zero htally⟩
  · rcases hin with ⟨k, hk⟩ | ⟨b, hb⟩
    · obtain ⟨service, hstanding, -⟩ := h.placed.tried_of_mem hk
      exact mem_of_standing hstanding
    · obtain ⟨service, nRefCount, hstanding, -⟩ := h.placed.new_of_mem hb
      exact mem_of_standing hstanding

/-- **Runs**: over any calls, with any addresses, times and draws, the tables stay consistent, and so are those that are
read back from what is written of them, with the same addresses. -/
theorem consistent_of_calls (nKey : List UInt8) (calls : List Call) :
    ∃ m, run step (some { nKey := nKey }) calls = some m ∧ m.Consistent ∧
      ∃ m', read m.serialize = some m' ∧ m'.Consistent ∧ ∀ r fInTried, m'.Holds r fInTried ↔ m.Holds r fInTried := by
  have hrun : ∃ m, run step (some { nKey := nKey }) calls = some m ∧ Sound (fun _ => .settled) m := by
    refine run_induct (I := fun s => ∃ m, s = some m ∧ Sound (fun _ => .settled) m) (fun c _ s hs => ?_)
      ⟨_, rfl, sound_empty nKey⟩
    obtain ⟨m, rfl, hsound⟩ := hs
    exact hsound.call c
  obtain ⟨m, hm, hsound⟩ := hrun
  obtain ⟨m', hread, hsound', -, hholds⟩ := hsound.read_serialize
  exact ⟨m, hm, hsound.consistent, m', hread, hsound'.consistent, hholds⟩

end CAddrMan

end PayDayCoin
