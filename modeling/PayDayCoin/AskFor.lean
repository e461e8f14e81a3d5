import PayDayCoin.Library.Runs
import PayDayCoin.BigNum
import Mathlib.Data.Finset.Card
import Mathlib.Data.List.Nodup

/-!
# Requests for objects

A peer announces an object, and `AskFor` puts it into `mapAskFor`, a queue by the time of the request; `SendMessages`
takes what is due out of the queue and requests it. `setAskFor` has the hashes that must not be queued once more. It is
filled by `AskFor`, and a hash goes when the node turns out to have the object, or when a transaction arrives that it
does not have; the handlers of blocks, lock requests, votes, sporks and winners do not touch it, and nothing looks at
`SETASKFOR_MAX_SZ`. Beside the peer's data a run keeps the requests that were not answered yet, and whether an
announcement was lost.

**`setAskFor_exact_iff`**: `setAskFor` has exactly the hashes that are queued or requested, and at most
`SETASKFOR_MAX_SZ`, and no announcement is lost, as long as only transactions that are new to the node arrive, when
they are not queued, and the announcements find room; and not any longer.
-/

namespace PayDayCoin

open Library.Runs

/-- An object that is announced: what it is, and its hash. -/
structure CInv where
  type : Int32
  hash : Uint256
deriving DecidableEq, Repr

def MSG_TX : Int32 := 1
def MSG_BLOCK : Int32 := 2
def MSG_TXLOCK_REQUEST : Int32 := 4
def MSG_TXLOCK_VOTE : Int32 := 5
def MSG_SPORK : Int32 := 6
def MSG_MASTERNODE_WINNER : Int32 := 7
def MSG_DSTX : Int32 := 9

def MAX_INV_SZ : ℕ := 50000
def MAPASKFOR_MAX_SZ : ℕ := MAX_INV_SZ
def SETASKFOR_MAX_SZ : ℕ := 2 * MAX_INV_SZ

/-! ### When something was asked for -/

/-- A `multimap` from times, in its order: a new entry comes after those of the same time. -/
def insertAt {α : Type} (time : ℤ) (a : α) (l : List (ℤ × α)) : List (ℤ × α) :=
  l.takeWhile (fun e => e.1 ≤ time) ++ (time, a) :: l.dropWhile fun e => e.1 ≤ time

/-- `mapAlreadyAskedFor`: a `limitedmap` of at most `MAX_INV_SZ` entries, in the order of the times. -/
abbrev AskedFor := List (ℤ × CInv)

namespace AskedFor

/-- `limitedmap::find`. -/
def find (m : AskedFor) (inv : CInv) : Option ℤ := (m.find? fun e => e.2 == inv).map Prod.fst

/-- `limitedmap::erase`. -/
def erase (m : AskedFor) (inv : CInv) : AskedFor := m.filter fun e => e.2 != inv

/-- `limitedmap::insert`: the earliest entry makes room. -/
def insert (m : AskedFor) (inv : CInv) (time : ℤ) : AskedFor :=
  if (m.find inv).isSome then m else insertAt time inv (if m.length + 1 = MAX_INV_SZ then m.tail else m)

/-- `limitedmap::update`. -/
def update (m : AskedFor) (inv : CInv) (time : ℤ) : AskedFor := insertAt time inv (m.erase inv)

end AskedFor

/-! ### A peer -/

/-- What the node keeps for a peer, and of all peers `mapAlreadyAskedFor` and the `nLastTime` of `AskFor`. -/
structure AskState where
  setAskFor : Finset Uint256 := ∅
  /-- The queue, in the order of the times. -/
  mapAskFor : List (ℤ × CInv) := []
  mapAlreadyAskedFor : AskedFor := []
  nLastTime : ℤ := 0

namespace AskState

/-- `CNode::AskFor`, at a `GetTime()`. -/
def askFor (p : AskState) (inv : CInv) (fImmediateRetry : Bool) (now : ℤ) : AskState :=
  if MAPASKFOR_MAX_SZ < p.mapAskFor.length then p
  else if inv.hash ∈ p.setAskFor then p
  else
    let it := p.mapAlreadyAskedFor.find inv
    let nNow := max ((now - 1) * 1000000) (p.nLastTime + 1)
    let nRequestTime := if fImmediateRetry then nNow else max (it.getD 0 + 2 * 60 * 1000000) nNow
    { setAskFor := insert inv.hash p.setAskFor
      mapAskFor := insertAt nRequestTime inv p.mapAskFor
      mapAlreadyAskedFor :=
        if it.isSome then p.mapAlreadyAskedFor.update inv nRequestTime else p.mapAlreadyAskedFor.insert inv nRequestTime
      nLastTime := nNow }

/-- The loop of `SendMessages` over the queue: what is left of it and of `setAskFor`, and what is requested. -/
def sendLoop (alreadyHave : CInv → Bool) (nNow : ℤ) :
    List (ℤ × CInv) → Finset Uint256 → List (ℤ × CInv) × Finset Uint256 × List CInv
  | [], setAskFor => ([], setAskFor, [])
  | (time, inv) :: mapAskFor, setAskFor =>
    if nNow < time then ((time, inv) :: mapAskFor, setAskFor, [])
    else if alreadyHave inv then sendLoop alreadyHave nNow mapAskFor (setAskFor.erase inv.hash)
    else
      let (mapAskFor, setAskFor, vGetData) := sendLoop alreadyHave nNow mapAskFor setAskFor
      (mapAskFor, setAskFor, inv :: vGetData)

/-- `SendMessages`, at a `GetTime()`: what is requested in `getdata` messages of at most 1000 objects. -/
def sendMessages (p : AskState) (alreadyHave : CInv → Bool) (now : ℤ) : AskState × List CInv :=
  let (mapAskFor, setAskFor, vGetData) := sendLoop alreadyHave (now * 1000000) p.mapAskFor p.setAskFor
  ({ p with mapAskFor, setAskFor }, vGetData)

end AskState

/-- A message with an object, and what its handler makes of it. -/
inductive ObjectMessage where
  /-- `tx`, and whether the node has it already. -/
  | tx (hash : Uint256) (alreadyHave : Bool)
  /-- `dstx`; it is refused when its masternode may not send it, or did not sign it. -/
  | dstx (hash : Uint256) (alreadyHave refused : Bool)
  /-- `block`, and the result of `ProcessBlock`. -/
  | block (hash : Uint256) (processed : Bool)
  | txlreq (hash : Uint256)
  | txlvote (hash : Uint256)
  | spork (hash : Uint256)
  | mnw (hash : Uint256)

namespace ObjectMessage

/-- The object of a message. -/
def inv : ObjectMessage → CInv
  | tx hash _ => ⟨MSG_TX, hash⟩
  | dstx hash _ _ => ⟨MSG_DSTX, hash⟩
  | block hash _ => ⟨MSG_BLOCK, hash⟩
  | txlreq hash => ⟨MSG_TXLOCK_REQUEST, hash⟩
  | txlvote hash => ⟨MSG_TXLOCK_VOTE, hash⟩
  | spork hash => ⟨MSG_SPORK, hash⟩
  | mnw hash => ⟨MSG_MASTERNODE_WINNER, hash⟩

/-- The handler comes to the line that erases the hash from `setAskFor`. -/
def erases : ObjectMessage → Bool
  | tx _ alreadyHave => !alreadyHave
  | dstx _ alreadyHave refused => !alreadyHave && !refused
  | _ => false

/-- The handler comes to the line that erases the object from `mapAlreadyAskedFor`. -/
def erasesAsked : ObjectMessage → Bool
  | tx _ alreadyHave => !alreadyHave
  | dstx _ alreadyHave refused => !alreadyHave && !refused
  | block _ processed => processed
  | _ => false

end ObjectMessage

/-- What the handler of a message does to the data of the peer. -/
def AskState.processMessage (p : AskState) (m : ObjectMessage) : AskState :=
  { p with
    setAskFor := if m.erases then p.setAskFor.erase m.inv.hash else p.setAskFor
    mapAlreadyAskedFor := if m.erasesAsked then p.mapAlreadyAskedFor.erase m.inv else p.mapAlreadyAskedFor }

/-! ### Runs -/

/-- What happens at a peer. -/
inductive AskEvent where
  /-- The peer announces an object that the node does not have. -/
  | askFor (inv : CInv) (fImmediateRetry : Bool) (now : ℤ)
  | sendMessages (alreadyHave : CInv → Bool) (now : ℤ)
  | arrives (m : ObjectMessage)
  /-- Other peers ask and answer. -/
  | elsewhere (mapAlreadyAskedFor : AskedFor) (nLastTime : ℤ)

/-- A peer's data, the requests that were not answered, and whether an announcement was lost. -/
structure AskRun extends AskState where
  requested : List CInv := []
  missed : Bool := false

namespace AskRun

/-- The objects that are queued. -/
def queued (s : AskRun) : List CInv := s.mapAskFor.map Prod.snd

/-- The objects that are queued or were requested and did not arrive. -/
def outstanding (s : AskRun) : List CInv := s.queued ++ s.requested

/-- An event. -/
def step (s : AskRun) : AskEvent → AskRun
  | .askFor inv fImmediateRetry now =>
    let p := s.toAskState.askFor inv fImmediateRetry now
    { s with
      toAskState := p
      missed := s.missed || !(inv ∈ s.outstanding || inv ∈ p.mapAskFor.map Prod.snd) }
  | .sendMessages alreadyHave now =>
    let (p, vGetData) := s.toAskState.sendMessages alreadyHave now
    { s with toAskState := p, requested := s.requested ++ vGetData }
  | .arrives m =>
    { s with toAskState := s.toAskState.processMessage m, requested := s.requested.filter (· != m.inv) }
  | .elsewhere mapAlreadyAskedFor nLastTime => { s with mapAlreadyAskedFor, nLastTime }

/-- `setAskFor` has exactly the hashes that are outstanding, not too many, and nothing was lost. -/
structure Exact (s : AskRun) : Prop where
  mem_iff : ∀ hash, hash ∈ s.setAskFor ↔ hash ∈ s.outstanding.map CInv.hash
  card_le : s.setAskFor.card ≤ SETASKFOR_MAX_SZ
  missed : s.missed = false

/-- What keeps `setAskFor` exact: an announcement finds room, and its hash is not that of something else; what arrives
was not requested from the peer, or is a transaction that is taken out of `setAskFor` and is not queued. -/
def Clean (s : AskRun) : AskEvent → Prop
  | .askFor inv _ _ => inv ∈ s.outstanding ∨
      (inv.hash ∉ s.outstanding.map CInv.hash ∧ s.mapAskFor.length ≤ MAPASKFOR_MAX_SZ ∧
        s.setAskFor.card < SETASKFOR_MAX_SZ)
  | .sendMessages _ _ => True
  | .arrives m =>
    if m.erases then m.inv.hash ∉ s.queued.map CInv.hash ∧ ∀ inv ∈ s.requested, inv.hash = m.inv.hash → inv = m.inv
    else m.inv ∉ s.requested
  | .elsewhere _ _ => True

end AskRun

/-! ### What is outstanding -/

/-- The hashes of objects, of which no two have the same. -/
structure HashesOf (setAskFor : Finset Uint256) (l : List CInv) : Prop where
  mem_iff : ∀ hash, hash ∈ setAskFor ↔ hash ∈ l.map CInv.hash
  nodup : (l.map CInv.hash).Nodup

namespace HashesOf

variable {setAskFor : Finset Uint256} {l l' : List CInv} {inv : CInv}

theorem perm (h : HashesOf setAskFor l) (hperm : l.Perm l') : HashesOf setAskFor l' where
  mem_iff hash := (h.mem_iff hash).trans (hperm.map CInv.hash).mem_iff
  nodup := (hperm.map CInv.hash).nodup_iff.1 h.nodup

theorem insert (h : HashesOf setAskFor l) (hnew : inv.hash ∉ l.map CInv.hash) :
    HashesOf (insert inv.hash setAskFor) (inv :: l) where
  mem_iff hash := by rw [Finset.mem_insert, h.mem_iff, List.map_cons, List.mem_cons]
  nodup := List.nodup_cons.2 ⟨hnew, h.nodup⟩

theorem erase (h : HashesOf setAskFor (inv :: l)) : HashesOf (setAskFor.erase inv.hash) l where
  mem_iff hash := by
    have hnew := (List.nodup_cons.1 h.nodup).1
    rw [Finset.mem_erase, h.mem_iff, List.map_cons, List.mem_cons]
    constructor
    · exact fun ⟨hne, hor⟩ => hor.resolve_left hne
    · intro hmem
      refine ⟨?_, .inr hmem⟩
      rintro rfl
      exact hnew hmem
  nodup := (List.nodup_cons.1 h.nodup).2

end HashesOf

theorem insertAt_perm {α : Type} (time : ℤ) (a : α) (l : List (ℤ × α)) : (insertAt time a l).Perm ((time, a) :: l) := by
  refine List.perm_middle.trans (List.Perm.of_eq ?_)
  rw [List.takeWhile_append_dropWhile]

namespace AskState

/-- `AskFor` does nothing, or the object is new in the set and in the queue. -/
theorem askFor_cases (p : AskState) (inv : CInv) (fImmediateRetry : Bool) (now : ℤ) :
    ((MAPASKFOR_MAX_SZ < p.mapAskFor.length ∨ inv.hash ∈ p.setAskFor) ∧ p.askFor inv fImmediateRetry now = p) ∨
    (p.mapAskFor.length ≤ MAPASKFOR_MAX_SZ ∧ inv.hash ∉ p.setAskFor ∧
      (p.askFor inv fImmediateRetry now).setAskFor = insert inv.hash p.setAskFor ∧
      ((p.askFor inv fImmediateRetry now).mapAskFor.map Prod.snd).Perm (inv :: p.mapAskFor.map Prod.snd)) := by
  rw [askFor]
  split
  · next h => exact .inl ⟨.inl h, rfl⟩
  · next h =>
    split
    · next h' => exact .inl ⟨.inr h', rfl⟩
    · next h' => exact .inr ⟨Nat.le_of_not_lt h, h', rfl, (insertAt_perm _ inv p.mapAskFor).map Prod.snd⟩

/-- What leaves the queue is requested, or leaves the set as well. -/
theorem sendLoop_hashes (alreadyHave : CInv → Bool) (nNow : ℤ) {mapAskFor : List (ℤ × CInv)} :
    ∀ {setAskFor : Finset Uint256} {requested : List CInv},
      HashesOf setAskFor (mapAskFor.map Prod.snd ++ requested) →
      HashesOf (sendLoop alreadyHave nNow mapAskFor setAskFor).2.1
        ((sendLoop alreadyHave nNow mapAskFor setAskFor).1.map Prod.snd ++
          (requested ++ (sendLoop alreadyHave nNow mapAskFor setAskFor).2.2)) ∧
      (sendLoop alreadyHave nNow mapAskFor setAskFor).2.1.card ≤ setAskFor.card := by
  induction mapAskFor with
  | nil =>
    intro setAskFor requested h
    rw [sendLoop, List.append_nil]
    exact ⟨h, le_rfl⟩
  | cons e mapAskFor ih =>
    obtain ⟨time, inv⟩ := e
    intro setAskFor requested h
    rw [sendLoop]
    split
    · rw [List.append_nil]
      exact ⟨h, le_rfl⟩
    · split
      · obtain ⟨hhashes, hcard⟩ := ih (HashesOf.erase h)
        exact ⟨hhashes, hcard.trans (Finset.card_erase_le)⟩
      · have hperm : (inv :: mapAskFor.map Prod.snd ++ requested).Perm
            (mapAskFor.map Prod.snd ++ (requested ++ [inv])) := by
          rw [List.cons_append, ← List.append_assoc]
          exact (List.perm_append_singleton inv _).symm
        obtain ⟨hhashes, hcard⟩ := ih (h.perm hperm)
        rw [List.append_assoc] at hhashes
        exact ⟨hhashes, hcard⟩

end AskState

namespace AskRun

/-- The invariant of runs: exact, and no hash twice. -/
structure Inv (s : AskRun) : Prop where
  exact : s.Exact
  nodup : (s.outstanding.map CInv.hash).Nodup

theorem Inv.hashes {s : AskRun} (h : s.Inv) : HashesOf s.setAskFor s.outstanding := ⟨h.exact.mem_iff, h.nodup⟩

theorem Inv.of_hashes {s : AskRun} (h : HashesOf s.setAskFor s.outstanding) (hcard : s.setAskFor.card ≤ SETASKFOR_MAX_SZ)
    (hmissed : s.missed = false) : s.Inv := ⟨⟨h.mem_iff, hcard, hmissed⟩, h.nodup⟩

theorem queued_askFor (s : AskRun) (inv : CInv) (fImmediateRetry : Bool) (now : ℤ) :
    (s.step (.askFor inv fImmediateRetry now)).outstanding =
      (s.toAskState.askFor inv fImmediateRetry now).mapAskFor.map Prod.snd ++ s.requested := rfl

/-- A requested object is the only one with its hash. -/
theorem Inv.perm_of_requested {s : AskRun} {inv : CInv} (h : s.Inv) (hmem : inv ∈ s.requested) :
    s.outstanding.Perm (inv :: (s.queued ++ s.requested.filter (· != inv))) := by
  have hnodup : s.requested.Nodup := (List.nodup_append.1 (List.Nodup.of_map _ h.nodup)).2.1
  rw [← hnodup.erase_eq_filter inv]
  exact ((List.perm_cons_erase hmem).append_left s.queued).trans List.perm_middle

theorem Inv.askFor {s : AskRun} {inv : CInv} {fImmediateRetry : Bool} {now : ℤ} (h : s.Inv)
    (hclean : s.Clean (.askFor inv fImmediateRetry now)) : (s.step (.askFor inv fImmediateRetry now)).Inv := by
  have hmissed := h.exact.missed
  rcases hclean with hmem | ⟨hnew, hroom, hcard⟩
  · have hset : inv.hash ∈ s.setAskFor := (h.exact.mem_iff _).2 (List.mem_map_of_mem hmem)
    rcases s.toAskState.askFor_cases inv fImmediateRetry now with ⟨-, heq⟩ | ⟨-, hnot, -⟩
    · simp only [step, heq, hmem, hmissed, decide_true, Bool.true_or, Bool.not_true, Bool.or_false]
      exact .of_hashes h.hashes h.exact.card_le rfl
    · exact absurd hset hnot
  · rw [← h.exact.mem_iff] at hnew
    rcases s.toAskState.askFor_cases inv fImmediateRetry now with ⟨hfull | hold, -⟩ | ⟨-, -, hset, hperm⟩
    · omega
    · exact absurd hold hnew
    · refine .of_hashes ?_ ?_ ?_
      · rw [queued_askFor]
        refine HashesOf.perm (l := inv :: s.outstanding) ?_ (hperm.append_right s.requested).symm
        change HashesOf (s.toAskState.askFor inv fImmediateRetry now).setAskFor _
        rw [hset]
        exact h.hashes.insert (by rwa [← h.exact.mem_iff])
      · change (s.toAskState.askFor inv fImmediateRetry now).setAskFor.card ≤ _
        rw [hset]
        exact (Finset.card_insert_le _ _).trans hcard
      · have hin : inv ∈ (s.toAskState.askFor inv fImmediateRetry now).mapAskFor.map Prod.snd :=
          hperm.mem_iff.2 List.mem_cons_self
        simp only [step, hmissed, hin, decide_true, Bool.or_true, Bool.not_true, Bool.or_false]

theorem Inv.sendMessages {s : AskRun} (h : s.Inv) (alreadyHave : CInv → Bool) (now : ℤ) :
    (s.step (.sendMessages alreadyHave now)).Inv := by
  obtain ⟨hhashes, hcard⟩ := AskState.sendLoop_hashes alreadyHave (now * 1000000) h.hashes
  exact .of_hashes hhashes (hcard.trans h.exact.card_le) h.exact.missed

theorem Inv.arrives {s : AskRun} {m : ObjectMessage} (h : s.Inv) (hclean : s.Clean (.arrives m)) :
    (s.step (.arrives m)).Inv := by
  have hsame : m.inv ∉ s.requested → s.requested.filter (· != m.inv) = s.requested := fun hnot =>
    List.filter_eq_self.2 fun inv hinv => by
      rw [bne_iff_ne]
      rintro rfl
      exact hnot hinv
  rw [Clean] at hclean
  split at hclean
  · next herases =>
    have hset : (s.step (.arrives m)).setAskFor = s.setAskFor.erase m.inv.hash := by
      simp only [step, AskState.processMessage, herases, if_true]
    by_cases hmem : m.inv ∈ s.requested
    · refine .of_hashes ?_ ?_ h.exact.missed
      · rw [hset]
        exact (h.hashes.perm (h.perm_of_requested hmem)).erase
      · rw [hset]
        exact Finset.card_erase_le.trans h.exact.card_le
    · have hnot : m.inv.hash ∉ s.setAskFor := by
        rw [h.exact.mem_iff, outstanding, List.map_append, List.mem_append, not_or]
        refine ⟨hclean.1, fun hin => ?_⟩
        obtain ⟨inv, hinv, hhash⟩ := List.mem_map.1 hin
        rw [hclean.2 inv hinv hhash] at hinv
        exact hmem hinv
      rw [Finset.erase_eq_of_notMem hnot] at hset
      refine .of_hashes ?_ ?_ h.exact.missed
      · rw [hset]
        change HashesOf _ (s.queued ++ s.requested.filter (· != m.inv))
        rw [hsame hmem]
        exact h.hashes
      · rw [hset]
        exact h.exact.card_le
  · next herases =>
    have hset : (s.step (.arrives m)).setAskFor = s.setAskFor := by
      simp only [step, AskState.processMessage, herases, if_false, Bool.false_eq_true]
    refine .of_hashes ?_ ?_ h.exact.missed
    · rw [hset]
      change HashesOf _ (s.queued ++ s.requested.filter (· != m.inv))
      rw [hsame hclean]
      exact h.hashes
    · rw [hset]
      exact h.exact.card_le

/-- A clean event keeps the invariant. -/
theorem Inv.step {s : AskRun} (h : s.Inv) {e : AskEvent} (hclean : s.Clean e) : (s.step e).Inv := by
  cases e with
  | askFor inv fImmediateRetry now => exact h.askFor hclean
  | sendMessages alreadyHave now => exact h.sendMessages alreadyHave now
  | arrives m => exact h.arrives hclean
  | elsewhere mapAlreadyAskedFor nLastTime => exact .of_hashes h.hashes h.exact.card_le h.exact.missed

/-- Any other event leads to a state that is not exact. -/
theorem Inv.broken {s : AskRun} (h : s.Inv) {e : AskEvent} (hnot : ¬s.Clean e) : ¬(s.step e).Exact := by
  intro hexact
  cases e with
  | askFor inv fImmediateRetry now =>
    simp only [Clean, not_or, not_and, Nat.not_lt] at hnot
    obtain ⟨hnew, hroom⟩ := hnot
    rcases s.toAskState.askFor_cases inv fImmediateRetry now with ⟨-, heq⟩ | ⟨hlen, hset, hins, -⟩
    · have hqueued : inv ∉ s.mapAskFor.map Prod.snd := fun hmem => hnew (List.mem_append_left _ hmem)
      have hmissed := hexact.missed
      simp [AskRun.step, heq, hnew, hqueued] at hmissed
    · have hcard := hexact.card_le
      have hfull := hroom (by rwa [← h.exact.mem_iff]) hlen
      change (s.toAskState.askFor inv fImmediateRetry now).setAskFor.card ≤ _ at hcard
      rw [hins, Finset.card_insert_of_notMem hset] at hcard
      omega
  | sendMessages alreadyHave now => exact hnot trivial
  | arrives m =>
    have hmem := hexact.mem_iff m.inv.hash
    rw [Clean] at hnot
    split at hnot
    · next herases =>
      have hgone : m.inv.hash ∉ (s.step (.arrives m)).setAskFor := by
        simp only [AskRun.step, AskState.processMessage, herases, if_true, Finset.notMem_erase, not_false_eq_true]
      refine hgone (hmem.2 ?_)
      change m.inv.hash ∈ (s.queued ++ s.requested.filter (· != m.inv)).map CInv.hash
      rw [List.map_append, List.mem_append]
      by_contra hnone
      refine hnot ⟨fun hq => hnone (.inl hq), fun inv hinv hhash => ?_⟩
      by_contra hne
      refine hnone (.inr (List.mem_map.2 ⟨inv, List.mem_filter.2 ⟨hinv, bne_iff_ne.2 hne⟩, hhash⟩))
    · next herases =>
      have hreq := not_not.1 hnot
      have hnodup := (((h.perm_of_requested hreq).map CInv.hash).nodup_iff.1 h.nodup)
      refine (List.nodup_cons.1 hnodup).1 (hmem.1 ?_)
      simp only [AskRun.step, AskState.processMessage, herases, if_false, Bool.false_eq_true]
      exact (h.exact.mem_iff _).2 (List.mem_map_of_mem (List.mem_append_right _ hreq))
  | elsewhere mapAlreadyAskedFor nLastTime => exact hnot trivial

/-- A new peer: nothing is asked for. -/
def start (mapAlreadyAskedFor : AskedFor) (nLastTime : ℤ) : AskRun := { mapAlreadyAskedFor, nLastTime }

theorem inv_start (mapAlreadyAskedFor : AskedFor) (nLastTime : ℤ) : (start mapAlreadyAskedFor nLastTime).Inv :=
  .of_hashes ⟨fun _ => by simp [start, outstanding, queued], List.nodup_nil⟩ (Nat.zero_le _) rfl

/-- In every run of a peer, `setAskFor` is exact in all states exactly if all events are clean. -/
theorem setAskFor_exact_iff (mapAlreadyAskedFor : AskedFor) (nLastTime : ℤ) (events : List AskEvent) :
    (∀ n, (run step (start mapAlreadyAskedFor nLastTime) (events.take n)).Exact) ↔
      Along step Clean (start mapAlreadyAskedFor nLastTime) events :=
  forall_take_iff_along (fun _ h => h.exact) (fun _ _ hclean h => h.step hclean) (fun _ _ hnot h => h.broken hnot)
    (inv_start mapAlreadyAskedFor nLastTime)

/-- A block that was requested has arrived: its hash stays in `setAskFor`, and the next announcement is lost. -/
theorem not_exact_after_block :
    ¬(run step (start [] 0) [.askFor ⟨MSG_BLOCK, 7⟩ false 1000, .sendMessages (fun _ => false) 1000,
        .arrives (.block 7 true)]).Exact ∧
    (run step (start [] 0) [.askFor ⟨MSG_BLOCK, 7⟩ false 1000, .sendMessages (fun _ => false) 1000,
        .arrives (.block 7 true), .askFor ⟨MSG_BLOCK, 7⟩ false 2000]).missed = true := by
  refine ⟨fun h => ?_, by decide⟩
  have hmem := (h.mem_iff 7).1 (by decide)
  exact absurd hmem (by decide)

end AskRun

end PayDayCoin
