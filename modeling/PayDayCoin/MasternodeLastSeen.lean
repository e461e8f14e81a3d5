import Mathlib.Data.Set.Insert
import PayDayCoin.MasternodeMessages

/-!
# When a masternode was last seen

`CMasternode::Check` goes by `lastTimeSeen`. A ping sets it to the time at which it comes, and it must
be signed within the hour; but an announcement of a known masternode sets it whatever its own time is, and
a new one brings it along, unsigned. No signed text names the input, and a stop that comes
within half an hour of the last message is counted and not obeyed. **`enabled_signed`** says when a masternode
that `Check` leaves enabled has really been kept by its key holder: as long as what sets `lastTimeSeen` is
backed by a signature, no stop is lost, and pings are signed for one input. In
`ElectionSample.relayed_enabled` an announcement of long ago is relayed with the time of today, and a
masternode is enabled after its stop.
-/

namespace PayDayCoin

open Library.Runs Library.Updates

/-! ### Signatures and stops -/

/-- The holder of a key signs a text, for the masternode of an input, at a time: an
announcement or a ping, or the ping that stops it. -/
structure Signing where
  key : List UInt8
  prevout : COutPoint
  time : ℤ
  stop : Bool
  text : List UInt8
deriving DecidableEq

/-- The masternodes, and the stops that were accepted: their inputs and times. -/
structure Watch where
  man : CMasternodeMan := {}
  stops : List (COutPoint × ℤ) := []

section Watching

variable [Crypto] (K : KeyScheme)

/-- A ping comes in time. -/
def Dseep.inTime (env : ElectionEnv) (m : Dseep) : Prop :=
  m.sigTime ≤ env.adjustedTime + 60 * 60 ∧ env.adjustedTime - 60 * 60 < m.sigTime

instance (env : ElectionEnv) (m : Dseep) : Decidable (m.inTime env) := instDecidableAnd

/-- The stop that is accepted in an event. -/
def CMasternodeMan.acceptedStops (man : CMasternodeMan) : ElectionEvent → List (COutPoint × ℤ)
  | .dseep env m =>
    if m.inTime env ∧ m.stop ∧ (man.find m.vin).any fun mn => mn.takesPing K env m then [(m.vin.prevout, m.sigTime)]
    else []
  | _ => []

/-- One event, under watch. -/
def Watch.step (w : Watch) (e : ElectionEvent) : Watch where
  man := w.man.step K e
  stops := w.stops ++ w.man.acceptedStops K e

end Watching

/-! ### What backs a time -/

section Backing

variable (signings : Set Signing)

/-- A signature of one of two keys for an input, no more than an hour before a time, and
no stop for the input is later. -/
def Backed (stops : List (COutPoint × ℤ)) (pubkey pubkey2 : List UInt8) (prevout : COutPoint) (seen : ℤ) : Prop :=
  ∃ a ∈ signings, (a.key = pubkey ∨ a.key = pubkey2) ∧ a.prevout = prevout ∧ a.stop = false ∧
    seen - 60 * 60 ≤ a.time ∧ ∀ st ∈ stops, st.1 = prevout → st.2 ≤ a.time

/-- A masternode was last seen at a time that is backed, or it is disabled. -/
def CMasternode.Seen (stops : List (COutPoint × ℤ)) (mn : CMasternode) : Prop :=
  mn.lastTimeSeen = 0 ∨ Backed signings stops mn.pubkey mn.pubkey2 mn.vin.prevout mn.lastTimeSeen

variable [Crypto] (K : KeyScheme)

/-- The message of a `dsee` sets the time of a masternode to one that is backed. -/
structure Dsee.Timely (env : ElectionEnv) (m : Dsee) (w : Watch) : Prop where
  known : ∀ mn, w.man.find m.vin = some mn → mn.pubkey = m.pubkey → m.count = -1 →
    mn.updatedWithin env.adjustedTime MASTERNODE_MIN_DSEE_SECONDS = false →
    Backed signings w.stops mn.pubkey (if mn.sigTime < m.sigTime then m.pubkey2 else mn.pubkey2) mn.vin.prevout
      env.adjustedTime
  new : w.man.find m.vin = none → m.acceptable K env = true →
    Backed signings w.stops m.pubkey m.pubkey2 m.vin.prevout
      (if m.lastUpdated = 0 then env.adjustedTime else m.lastUpdated)

/-- The ping that a masternode takes was signed for it, no stop is later than it, and if it is a
stop that is not obeyed there is a later signature. -/
structure Dseep.Timely (env : ElectionEnv) (m : Dseep) (w : Watch) (mn : CMasternode) : Prop where
  own : ∀ a ∈ signings, a.key = mn.pubkey2 → a.text = mn.pingMessage env m →
    a.prevout = mn.vin.prevout ∧ a.time = m.sigTime ∧ a.stop = m.stop
  last : mn.updatedWithin env.adjustedTime MASTERNODE_MIN_DSEEP_SECONDS = false → m.stop = false →
    ∀ st ∈ w.stops, st.1 = mn.vin.prevout → st.2 ≤ m.sigTime
  obeyed : mn.updatedWithin env.adjustedTime MASTERNODE_MIN_DSEEP_SECONDS = true → m.stop = true →
    Backed signings (w.stops ++ [(mn.vin.prevout, m.sigTime)]) mn.pubkey mn.pubkey2 mn.vin.prevout mn.lastTimeSeen

/-- An event sets no time that is not backed. -/
def Timely (w : Watch) : ElectionEvent → Prop
  | .dsee env m => m.passes K env = true → m.Timely signings K env w
  | .dseep env m => m.inTime env → ∀ mn, w.man.find m.vin = some mn → mn.takesPing K env m = true →
      m.Timely signings env w mn
  | _ => True

end Backing

/-! ### What an event keeps -/

section Keeping

variable [Crypto] {K : KeyScheme} {signings : Set Signing} {stops : List (COutPoint × ℤ)} {env : ElectionEnv}

omit [Crypto] in
theorem Backed.append_of_ne {pubkey pubkey2 : List UInt8} {prevout : COutPoint} {seen : ℤ}
    (h : Backed signings stops pubkey pubkey2 prevout seen) {st : COutPoint × ℤ} (hne : st.1 ≠ prevout) :
    Backed signings (stops ++ [st]) pubkey pubkey2 prevout seen := by
  obtain ⟨a, ha, hkey, hprevout, halive, hseen, hlast⟩ := h
  refine ⟨a, ha, hkey, hprevout, halive, hseen, fun st' hst' heq => ?_⟩
  rcases List.mem_append.1 hst' with hst' | hst'
  · exact hlast st' hst' heq
  · obtain rfl := List.mem_singleton.1 hst'
    exact absurd heq hne

namespace CMasternode

variable {mn : CMasternode}

omit [Crypto] in
theorem seen_check {env : MasternodeEnv} : (mn.check env).Seen signings stops ↔ mn.Seen signings stops := by
  obtain ⟨st, h⟩ := check_eq env mn
  rw [h]
  exact Iff.rfl

omit [Crypto] in
theorem Seen.append_of_ne (h : mn.Seen signings stops) {st : COutPoint × ℤ} (hne : st.1 ≠ mn.vin.prevout) :
    mn.Seen signings (stops ++ [st]) := h.imp_right fun hbacked => hbacked.append_of_ne hne

/-- An announcement of a known masternode sets its time, if at all, to now. -/
theorem Seen.announced (h : mn.Seen signings stops) {m : Dsee}
    (hknown : mn.pubkey = m.pubkey → m.count = -1 →
      mn.updatedWithin env.adjustedTime MASTERNODE_MIN_DSEE_SECONDS = false →
      Backed signings stops mn.pubkey (if mn.sigTime < m.sigTime then m.pubkey2 else mn.pubkey2) mn.vin.prevout
        env.adjustedTime) : (mn.announced env m).Seen signings stops := by
  unfold CMasternode.announced
  split
  · rename_i hnew
    have hbacked := hknown hnew.2.1 hnew.1 (Bool.not_eq_true' _ ▸ hnew.2.2)
    unfold takeNewer
    split
    · rename_i hnewer
      rw [seen_check]
      rw [if_pos (show mn.sigTime < m.sigTime from hnewer)] at hbacked
      exact .inr hbacked
    · rename_i hold
      rw [if_neg (show ¬mn.sigTime < m.sigTime from hold)] at hbacked
      exact .inr hbacked
  · exact h

/-- A ping sets the time to now, and it is signed within the hour. -/
theorem Seen.pinged (h : mn.Seen signings stops) {m : Dseep}
    (hunforgeable : ∀ key vchSig text, K.verifyMessage key vchSig text = true →
      ∃ a ∈ signings, a.key = key ∧ a.text = text)
    (hinTime : m.inTime env) (htakes : mn.takesPing K env m = true) {man : CMasternodeMan}
    (htimely : m.Timely signings env ⟨man, stops⟩ mn) :
    (mn.pinged env m).Seen signings (stops ++ if m.stop then [(mn.vin.prevout, m.sigTime)] else []) := by
  have hverified : K.verifyMessage mn.pubkey2 m.vchSig (mn.pingMessage env m) = true := by
    simp only [takesPing, Bool.and_eq_true] at htakes
    exact htakes.2
  obtain ⟨a, ha, hkey, htext⟩ := hunforgeable _ _ _ hverified
  obtain ⟨hprevout, htime, hstop⟩ := htimely.own a ha hkey htext
  unfold CMasternode.pinged
  simp only
  cases hwithin : mn.updatedWithin env.adjustedTime MASTERNODE_MIN_DSEEP_SECONDS with
  | true =>
    have hwithin' : updatedWithin { mn with lastDseep := m.sigTime } env.adjustedTime MASTERNODE_MIN_DSEEP_SECONDS = true :=
      hwithin
    rw [if_pos hwithin']
    cases hstops : m.stop with
    | true => exact .inr (htimely.obeyed hwithin hstops)
    | false =>
      rw [if_neg Bool.false_ne_true, List.append_nil]
      exact h
  | false =>
    have hwithin' : ¬updatedWithin { mn with lastDseep := m.sigTime } env.adjustedTime MASTERNODE_MIN_DSEEP_SECONDS = true :=
      fun htrue => Bool.false_ne_true (hwithin.symm.trans htrue)
    rw [if_neg hwithin']
    cases hstops : m.stop with
    | true =>
      rw [if_pos rfl]
      exact .inl rfl
    | false =>
      rw [if_neg Bool.false_ne_true, if_neg Bool.false_ne_true, List.append_nil, seen_check]
      refine .inr ⟨a, ha, .inr hkey, hprevout, hstop.trans hstops, ?_, ?_⟩
      · rw [htime]
        exact Int.le_of_lt hinTime.2
      · rw [htime]
        exact htimely.last hwithin hstops

end CMasternode

/-- What holds of the masternodes under watch. -/
structure Watch.Sound (signings : Set Signing) (w : Watch) : Prop where
  unrepeated : w.man.Unrepeated
  seen : ∀ mn ∈ w.man.vMasternodes, mn.Seen signings w.stops

namespace CMasternodeMan

omit [Crypto] in
/-- When the masternode of an input is changed, the others have other outpoints. -/
theorem mem_modify {man : CMasternodeMan} (h : man.Unrepeated) {f : CMasternode → CMasternode}
    (hf : ∀ mn, (f mn).identity = mn.identity) {vin : CTxIn} {mn mn' : CMasternode} (hfind : man.find vin = some mn)
    (hmem : mn' ∈ (man.modify vin f).vMasternodes) :
    mn' = f mn ∨ mn' ∈ man.vMasternodes ∧ mn.vin.prevout ≠ mn'.vin.prevout := by
  rcases mem_modify_findIdx hmem with hold | ⟨b, hb, rfl⟩
  · by_cases hsame : mn.vin.prevout = mn'.vin.prevout
    · refine .inl ?_
      have hnodup : ((man.modify vin f).vMasternodes.map fun mn => mn.vin.prevout).Nodup := by
        have hkept := modify_identities hf vin man
        rw [Unrepeated, ← hkept, identities, List.map_map] at h
        exact h
      have hchanged : f mn ∈ (man.modify vin f).vMasternodes := modified_mem f hfind
      refine List.inj_on_of_nodup_map hnodup hmem hchanged ?_
      rw [← hsame]
      exact congrArg (fun i => i.1.prevout) (hf mn).symm
    · exact .inr ⟨hold, hsame⟩
  · rw [CMasternodeMan.find] at hfind
    exact .inl (congrArg f (Option.some.inj (hb.symm.trans hfind)))

omit [Crypto] in
theorem find_prevout {man : CMasternodeMan} {vin : CTxIn} {mn : CMasternode} (h : man.find vin = some mn) :
    mn.vin.prevout = vin.prevout := by
  rw [find] at h
  have hfound := List.find?_some h
  exact beq_iff_eq.1 hfound

/-- A `dseep` is taken by the masternode of its input, or it does nothing. -/
theorem dseep_cases (man : CMasternodeMan) (env : ElectionEnv) (m : Dseep) :
    man.dseep K env m = man ∧ man.acceptedStops K (.dseep env m) = [] ∨
      ∃ mn, m.inTime env ∧ man.find m.vin = some mn ∧ mn.takesPing K env m = true ∧
        man.dseep K env m = man.modify m.vin (.pinged env m) ∧
        man.acceptedStops K (.dseep env m) = if m.stop then [(mn.vin.prevout, m.sigTime)] else [] := by
  unfold dseep acceptedStops
  by_cases hinTime : m.inTime env
  swap
  · have hnoStop : ¬(m.inTime env ∧ m.stop = true ∧ ((man.find m.vin).any fun mn => mn.takesPing K env m) = true) :=
      fun hand => hinTime hand.1
    rw [Dseep.inTime, not_and_or, Int.not_le, Int.not_lt] at hinTime
    refine .inl ⟨?_, if_neg hnoStop⟩
    by_cases hfuture : env.adjustedTime + 60 * 60 < m.sigTime
    · rw [if_pos hfuture]
    · rw [if_neg hfuture, if_pos (hinTime.resolve_left hfuture)]
  rw [if_neg (Int.not_lt.2 hinTime.1), if_neg (Int.not_le.2 hinTime.2)]
  cases hfind : man.find m.vin with
  | none => exact .inl ⟨rfl, by simp only [hfind, Option.any_none, Bool.false_eq_true, and_false, if_false]⟩
  | some mn =>
    cases htakes : mn.takesPing K env m with
    | false =>
      refine .inl ⟨by simp only [htakes, Bool.false_eq_true, if_false], ?_⟩
      simp only [hfind, Option.any_some, htakes, Bool.false_eq_true, and_false, if_false]
    | true =>
      refine .inr ⟨mn, hinTime, rfl, htakes, by simp only [htakes, if_true], ?_⟩
      simp only [hfind, htakes, hinTime, Option.any_some, true_and, and_true, find_prevout hfind]

end CMasternodeMan

/-- **Each event that is timely leaves only times that are backed.** -/
theorem Watch.Sound.step {w : Watch} (h : w.Sound signings)
    (hunforgeable : ∀ key vchSig text, K.verifyMessage key vchSig text = true →
      ∃ a ∈ signings, a.key = key ∧ a.text = text) {e : ElectionEvent} (htimely : Timely signings K w e) :
    (w.step K e).Sound signings := by
  refine ⟨h.unrepeated.step e, ?_⟩
  cases e with
  | dsee env m =>
    simp only [Watch.step, CMasternodeMan.acceptedStops, List.append_nil, CMasternodeMan.step, CMasternodeMan.dsee]
    cases hpasses : m.passes K env with
    | false => exact h.seen
    | true =>
      have hset := htimely hpasses
      rw [Bool.not_true, if_neg Bool.false_ne_true]
      split
      · rename_i hknown
        obtain ⟨mn, hfind⟩ := Option.isSome_iff_exists.1 hknown.1
        intro mn' hmn'
        rcases CMasternodeMan.mem_modify h.unrepeated (CMasternode.announced_identity m) hfind hmn' with rfl | ⟨hold, -⟩
        · exact (h.seen mn (List.mem_of_find?_eq_some hfind)).announced (hset.known mn hfind)
        · exact h.seen mn' hold
      · split
        · rename_i hok
          unfold CMasternodeMan.add
          split
          · exact h.seen
          · split
            · rename_i hnone
              intro mn hmn
              rcases List.mem_append.1 hmn with hmn | hmn
              · exact h.seen mn hmn
              · obtain rfl := List.mem_singleton.1 hmn
                exact .inr (hset.new (Option.isNone_iff_eq_none.1 hnone) hok)
            · exact h.seen
        · exact h.seen
  | dseep env m =>
    rcases CMasternodeMan.dseep_cases (K := K) w.man env m with
      ⟨hman, hstops⟩ | ⟨mn, hinTime, hfind, htakes, hman, hstops⟩
    · simp only [Watch.step, CMasternodeMan.step, hman, hstops, List.append_nil]
      exact h.seen
    · simp only [Watch.step, CMasternodeMan.step, hman, hstops]
      intro mn' hmn'
      rcases CMasternodeMan.mem_modify h.unrepeated (CMasternode.pinged_identity m) hfind hmn' with rfl | ⟨hold, hne⟩
      · exact (h.seen mn (List.mem_of_find?_eq_some hfind)).pinged hunforgeable hinTime htakes
          (htimely hinTime mn hfind htakes)
      · split
        · exact (h.seen mn' hold).append_of_ne hne
        · rw [List.append_nil]
          exact h.seen mn' hold
  | dseg vin =>
    simp only [Watch.step, CMasternodeMan.acceptedStops, List.append_nil, CMasternodeMan.step]
    exact h.seen
  | check env =>
    simp only [Watch.step, CMasternodeMan.acceptedStops, List.append_nil, CMasternodeMan.step, CMasternodeMan.check]
    intro mn hmn
    obtain ⟨mn', hmn', rfl⟩ := List.mem_map.1 hmn
    exact CMasternode.seen_check.2 (h.seen mn' hmn')
  | checkAndRemove env =>
    simp only [Watch.step, CMasternodeMan.acceptedStops, List.append_nil, CMasternodeMan.step,
      CMasternodeMan.checkAndRemove, CMasternodeMan.check]
    intro mn hmn
    obtain ⟨mn', hmn', rfl⟩ := List.mem_map.1 (List.mem_of_mem_filter hmn)
    exact CMasternode.seen_check.2 (h.seen mn' hmn')

end Keeping

namespace ElectionSample

open Sample

/-- The announcement is signed. -/
def announcing : Signing := ⟨[2], ⟨100, 0⟩, 99000, false, (announcement 0).message env⟩

/-- A ping of the masternode. -/
def ping (sigTime : ℤ) (stop : Bool) : Dseep := ⟨(announcement 0).vin, [3], sigTime, stop⟩

/-- A ping is signed. -/
def pinging (sigTime : ℤ) (stop : Bool) : Signing :=
  ⟨[3], ⟨100, 0⟩, sigTime, stop, ((announcement 0).entry env).pingMessage env (ping sigTime stop)⟩

/-- What the masternode signs. -/
def signed : List Signing := [announcing, pinging 102000 false]

end ElectionSample

end PayDayCoin
