import PayDayCoin.Spork
import PayDayCoin.Library.Best

/-!
# Which spork is active

`ProcessSpork` drops a message that is not newer than the active one for its id, so of the
messages for an id that a node receives the newest becomes active, and of several as new the
one that came first. **`sporks_converge`** says that nodes which receive the same signed
messages end with the same sporks, whatever the order, exactly if each id has one newest
message; and that the active message of an id never gets older, as long as `UpdateSpork`,
which does not look at the active one, is called by a clock that is not behind it.
-/

namespace PayDayCoin

open Library.Best Library.Runs

/-- When a message was signed. -/
def CSporkMessage.signedAt (spork : CSporkMessage) : ℤ := spork.nTimeSigned.toInt

/-- The node takes sporks. -/
def SporkEnv.Listens (env : SporkEnv) : Prop := env.fLiteMode = false ∧ env.hasBest = true

/-- The node receives the messages of a list, each once or more, in any order. -/
def Receives (msgs : List (SporkEnv × CSporkMessage)) (sporks : List CSporkMessage) : Prop :=
  (∀ msg ∈ msgs, msg.1.Listens) ∧ ∀ spork, spork ∈ msgs.map Prod.snd ↔ spork ∈ sporks

/-- A message is among the newest for its id. -/
def CSporkMessage.IsNewest (spork : CSporkMessage) (sporks : List CSporkMessage) : Prop :=
  spork ∈ sporks ∧ ∀ spork' ∈ sporks, spork'.nSporkID = spork.nSporkID → spork'.nTimeSigned ≤ spork.nTimeSigned

section Received

variable (verifyMessage : List UInt8 → String → Bool)

/-- The sporks of a node that has received messages, from none. -/
def received (msgs : List (SporkEnv × CSporkMessage)) : Sporks :=
  Sporks.run verifyMessage {} (msgs.map fun msg => .spork msg.1 msg.2)

variable {verifyMessage}

/-- A signed message is offered to the register of its id. -/
theorem mapSporksActive_processSpork {env : SporkEnv} {spork : CSporkMessage} {st : Sporks} (henv : env.Listens)
    (hsig : spork.checkSignature verifyMessage = true) :
    (processSpork verifyMessage env spork st).mapSporksActive =
      record CSporkMessage.signedAt CSporkMessage.nSporkID st.mapSporksActive spork := by
  simp only [processSpork, henv.1, henv.2, hsig, Bool.not_true, if_neg Bool.false_ne_true, record]
  cases hactive : st.mapSporksActive spork.nSporkID with
  | none =>
    have hnew : st.seen spork = false := by rw [Sporks.seen, hactive]; rfl
    rw [hnew, if_neg Bool.false_ne_true]
    rfl
  | some active =>
    have hseen : st.seen spork = decide (spork.nTimeSigned ≤ active.nTimeSigned) := by rw [Sporks.seen, hactive]; rfl
    by_cases hle : spork.nTimeSigned ≤ active.nTimeSigned
    · have hrank : ¬active.signedAt < spork.signedAt := not_lt.2 (Int64.le_iff_toInt_le.1 hle)
      rw [hseen, if_pos (decide_eq_true hle), better, if_neg hrank, ← hactive, Function.update_eq_self]
    · have hrank : active.signedAt < spork.signedAt := not_le.1 fun h => hle (Int64.le_iff_toInt_le.2 h)
      rw [hseen, if_neg (by simpa using hle), better, if_pos hrank]
      rfl

/-- **What a node ends with** when it has received signed messages. -/
theorem mapSporksActive_received {msgs : List (SporkEnv × CSporkMessage)} (hmsgs : ∀ msg ∈ msgs, msg.1.Listens)
    (hsig : ∀ spork ∈ msgs.map Prod.snd, spork.checkSignature verifyMessage = true) :
    (received verifyMessage msgs).mapSporksActive =
      (msgs.map Prod.snd).foldl (record CSporkMessage.signedAt CSporkMessage.nSporkID) fun _ => none := by
  simp only [received, Sporks.run, run, List.foldl_map]
  have hgen : ∀ (st : Sporks), (msgs.foldl (fun st msg => st.step verifyMessage (.spork msg.1 msg.2)) st).mapSporksActive =
      msgs.foldl (fun m msg => record CSporkMessage.signedAt CSporkMessage.nSporkID m msg.2) st.mapSporksActive := by
    induction msgs with
    | nil => exact fun _ => rfl
    | cons msg msgs ih =>
      intro st
      rw [List.forall_mem_cons] at hmsgs
      rw [List.map_cons, List.forall_mem_cons] at hsig
      rw [List.foldl_cons, List.foldl_cons, ih hmsgs.2 hsig.2, Sporks.step,
        mapSporksActive_processSpork hmsgs.1 hsig.1]
  exact hgen {}

/-- Nodes that receive the same signed messages end with the same sporks exactly if each id
has one newest message. -/
theorem received_agree_iff {sporks : List CSporkMessage}
    (hsig : ∀ spork ∈ sporks, spork.checkSignature verifyMessage = true) :
    (∀ msgs msgs', Receives msgs sporks → Receives msgs' sporks →
      ∀ nSporkID, (received verifyMessage msgs).mapSporksActive nSporkID =
        (received verifyMessage msgs').mapSporksActive nSporkID) ↔
      ∀ spork spork' : CSporkMessage, spork.IsNewest sporks → spork'.IsNewest sporks →
        spork.nSporkID = spork'.nSporkID → spork = spork' := by
  have hbest : ∀ {k : Int32} {spork : CSporkMessage},
      IsBest CSporkMessage.signedAt (sporks.filter fun spork => spork.nSporkID = k) spork ↔
        spork.IsNewest sporks ∧ spork.nSporkID = k := by
    intro k spork
    simp only [IsBest, CSporkMessage.IsNewest, List.mem_filter, decide_eq_true_eq, CSporkMessage.signedAt,
      ← Int64.le_iff_toInt_le, and_imp]
    constructor
    · rintro ⟨⟨hmem, rfl⟩, hall⟩
      exact ⟨⟨hmem, hall⟩, rfl⟩
    · rintro ⟨⟨hmem, hall⟩, rfl⟩
      exact ⟨⟨hmem, rfl⟩, hall⟩
  have hreceived : ∀ {msgs}, Receives msgs sporks → (received verifyMessage msgs).mapSporksActive =
      (msgs.map Prod.snd).foldl (record CSporkMessage.signedAt CSporkMessage.nSporkID) fun _ => none := fun hmsgs =>
    mapSporksActive_received hmsgs.1 fun spork hmem => hsig spork ((hmsgs.2 spork).1 hmem)
  constructor
  · intro hall spork spork' hnew hnew' hid
    refine (register_agree_iff (g := id)).1 (fun l l' hl hl' => ?_) spork spork' (hbest.2 ⟨hnew, rfl⟩)
      (hbest.2 ⟨hnew', hid.symm⟩)
    -- any node that listens will do
    let env : SporkEnv := ⟨false, true, fun _ => 0, 0, fun _ => none⟩
    have hmap : ∀ l : List CSporkMessage, (l.map fun spork => (env, spork)).map Prod.snd = l := fun l => by
      rw [List.map_map]
      exact List.map_id l
    have hrec : ∀ {l : List CSporkMessage}, (∀ spork, spork ∈ l ↔ spork ∈ sporks) →
        Receives (l.map fun spork => (env, spork)) sporks := by
      refine fun hl => ⟨fun msg hmem => ?_, fun spork => by rw [hmap, hl]⟩
      obtain ⟨spork, -, rfl⟩ := List.mem_map.1 hmem
      exact ⟨rfl, rfl⟩
    have heq := hall _ _ (hrec hl) (hrec hl') spork.nSporkID
    rw [hreceived (hrec hl), hreceived (hrec hl'), hmap, hmap] at heq
    rw [heq]
  · intro hone msgs msgs' hmsgs hmsgs' nSporkID
    rw [hreceived hmsgs, hreceived hmsgs']
    have hagree : ∀ l l' : List CSporkMessage, (∀ a, a ∈ l ↔ a ∈ sporks) → (∀ a, a ∈ l' ↔ a ∈ sporks) →
        (l.foldl (record CSporkMessage.signedAt CSporkMessage.nSporkID) (fun _ => none) nSporkID).map id =
          (l'.foldl (record CSporkMessage.signedAt CSporkMessage.nSporkID) (fun _ => none) nSporkID).map id :=
      register_agree_iff.2 fun spork spork' hnew hnew' =>
        hone spork spork' (hbest.1 hnew).1 (hbest.1 hnew').1 ((hbest.1 hnew).2.trans (hbest.1 hnew').2.symm)
    simpa only [Option.map_id, id] using hagree _ _ hmsgs.2 hmsgs'.2

end Received

/-! ### Runs -/

section Runs

variable {verifyMessage : List UInt8 → String → Bool} {st st' : Sporks} {spork : CSporkMessage} {env : SporkEnv}

/-- The active message of each id is as new as before, or newer. -/
def Sporks.NoOlder (st st' : Sporks) : Prop :=
  ∀ nSporkID active, st.mapSporksActive nSporkID = some active →
    ∃ active', st'.mapSporksActive nSporkID = some active' ∧ active.nTimeSigned ≤ active'.nTimeSigned

/-- `UpdateSpork` is called at a time that is not before the signing time of the active
message. -/
def SporkEvent.ClockNotBehind (st : Sporks) : SporkEvent → Prop
  | .spork _ _ => True
  | .update env nSporkID _ => ∀ active, st.mapSporksActive nSporkID = some active → active.nTimeSigned ≤ env.now

theorem Sporks.NoOlder.refl (st : Sporks) : st.NoOlder st := fun _ active hactive => ⟨active, hactive, Int64.le_refl _⟩

theorem Sporks.NoOlder.trans {st'' : Sporks} (h : st.NoOlder st') (h' : st'.NoOlder st'') : st.NoOlder st'' := by
  intro nSporkID active hactive
  obtain ⟨active', hactive', hle⟩ := h nSporkID active hactive
  obtain ⟨active'', hactive'', hle'⟩ := h' nSporkID active' hactive'
  exact ⟨active'', hactive'', Int64.le_trans hle hle'⟩

/-- A message that is not older than the active one may become active. -/
theorem noOlder_activate
    (h : ∀ active, st.mapSporksActive spork.nSporkID = some active → active.nTimeSigned ≤ spork.nTimeSigned) :
    st.NoOlder (st.activate env spork) := by
  intro nSporkID active hactive
  by_cases hid : nSporkID = spork.nSporkID
  · subst hid
    exact ⟨spork, Function.update_self _ _ _, h active hactive⟩
  · exact ⟨active, (Function.update_of_ne hid _ _).trans hactive, Int64.le_refl _⟩

theorem noOlder_step {event : SporkEvent} (hclock : event.ClockNotBehind st) :
    st.NoOlder (st.step verifyMessage event) := by
  cases event with
  | spork env spork =>
    simp only [Sporks.step, processSpork]
    split
    · exact .refl st
    split
    · exact .refl st
    split
    · exact .refl st
    · rename_i hseen
      split
      · exact .refl st
      · refine noOlder_activate fun active hactive => ?_
        rw [Sporks.seen, hactive] at hseen
        exact Int64.le_of_lt (Int64.not_le.1 (by simpa using hseen))
  | update env nSporkID nValue =>
    simp only [Sporks.step, updateSpork]
    split
    · exact .refl st
    · exact noOlder_activate hclock

/-- **Nodes that receive the same signed messages end with the same sporks** exactly if each
id has one newest message among them; and in a run whose clock is never behind, the active
message of an id does not get older. -/
theorem sporks_converge (verifyMessage : List UInt8 → String → Bool) :
    (∀ sporks : List CSporkMessage, (∀ spork ∈ sporks, spork.checkSignature verifyMessage = true) →
      ((∀ msgs msgs', Receives msgs sporks → Receives msgs' sporks →
        ∀ nSporkID, (received verifyMessage msgs).mapSporksActive nSporkID =
          (received verifyMessage msgs').mapSporksActive nSporkID) ↔
        ∀ spork spork' : CSporkMessage, spork.IsNewest sporks → spork'.IsNewest sporks →
          spork.nSporkID = spork'.nSporkID → spork = spork')) ∧
    ∀ (st : Sporks) (events : List SporkEvent),
      Along (Sporks.step verifyMessage) (fun st event => event.ClockNotBehind st) st events →
      ∀ n m, n ≤ m → (st.run verifyMessage (events.take n)).NoOlder (st.run verifyMessage (events.take m)) :=
  ⟨fun _ hsig => received_agree_iff hsig, fun _ _ hclock _ _ hle =>
    progress_of_along Sporks.NoOlder.refl Sporks.NoOlder.trans (fun _ _ => noOlder_step) hclock hle⟩

end Runs

/-! ### Two sporks of one second -/

namespace Sample

/-- InstantX is switched on and off in the same second. -/
def sporkOn : CSporkMessage := ⟨[1], 10001, 978307200, 1523532400⟩
def sporkOff : CSporkMessage := ⟨[1], 10001, 4070908800, 1523532400⟩

/-- The master key's signature is `[1]`. -/
def signedSpork (vchSig : List UInt8) (_ : String) : Bool := vchSig == [1]

/-- A message, and a command of the holder of the key. -/
def sporkEvents : List SporkEvent :=
  [.spork sporkEnv sporkOn, .update { sporkEnv with sign := fun _ => some [1] } 10001 4070908800]

/-- The holder's clock is behind. -/
def lateEvents : List SporkEvent :=
  [.spork sporkEnv sporkOn, .update { sporkEnv with now := 1523532000, sign := fun _ => some [1] } 10001 4070908800]

theorem receives_sporkOn : Receives [(sporkEnv, sporkOn)] [sporkOn] ∧
    Receives [(sporkEnv, sporkOn), (sporkEnv, sporkOn)] [sporkOn] := by
  simp [Receives, SporkEnv.Listens, sporkEnv]

/-- A message that comes twice makes no difference, and a command that comes later replaces it. -/
theorem sporkOn_converges :
    (received signedSpork [(sporkEnv, sporkOn)]).mapSporksActive 10001 =
      (received signedSpork [(sporkEnv, sporkOn), (sporkEnv, sporkOn)]).mapSporksActive 10001 ∧
    (Sporks.run signedSpork {} (sporkEvents.take 1)).NoOlder (Sporks.run signedSpork {} (sporkEvents.take 2)) := by
  constructor
  · refine ((sporks_converge signedSpork).1 [sporkOn] (by decide)).2 (fun spork spork' hnew hnew' _ => ?_) _ _
      receives_sporkOn.1 receives_sporkOn.2 10001
    exact (List.mem_singleton.1 hnew.1).trans (List.mem_singleton.1 hnew'.1).symm
  · refine (sporks_converge signedSpork).2 {} sporkEvents ⟨trivial, fun active hactive => ?_, trivial⟩ 1 2 (by decide)
    have hon : (({} : Sporks).step signedSpork (.spork sporkEnv sporkOn)).mapSporksActive 10001 = some sporkOn := by decide
    rw [hon] at hactive
    obtain rfl := Option.some.inj hactive
    decide

/-- **Two sporks of one second leave two nodes apart**, and a command by a clock that is
behind makes the active message older. -/
theorem sporks_diverge :
    ¬(∀ msgs msgs', Receives msgs [sporkOn, sporkOff] → Receives msgs' [sporkOn, sporkOff] →
      ∀ nSporkID, (received signedSpork msgs).mapSporksActive nSporkID =
        (received signedSpork msgs').mapSporksActive nSporkID) ∧
    ¬(Sporks.run signedSpork {} (lateEvents.take 1)).NoOlder (Sporks.run signedSpork {} (lateEvents.take 2)) := by
  refine ⟨fun hall => ?_, fun hall => ?_⟩
  · have heq := hall [(sporkEnv, sporkOn), (sporkEnv, sporkOff)] [(sporkEnv, sporkOff), (sporkEnv, sporkOn)]
      (by simp [Receives, SporkEnv.Listens, sporkEnv]) (by simp [Receives, SporkEnv.Listens, sporkEnv, or_comm]) 10001
    revert heq
    decide
  · obtain ⟨active, hactive, hle⟩ := hall 10001 sporkOn (by decide)
    have hlate : (Sporks.run signedSpork {} (lateEvents.take 2)).mapSporksActive 10001 =
        some ⟨[1], 10001, 4070908800, 1523532000⟩ := by decide
    rw [hlate] at hactive
    obtain rfl := Option.some.inj hactive
    revert hle
    decide

end Sample

end PayDayCoin
