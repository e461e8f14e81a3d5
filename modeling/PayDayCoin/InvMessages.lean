import PayDayCoin.AskFor

/-!
# Announcements of objects

An `inv` message announces objects, and the node looks each of them up, asks for what it does not have, and asks for more
blocks behind the last one. A type of object that the node does not know has nothing to look up; but the line of the
loop that logs the entry takes the name of its type, and that throws for a type that has none. What is left of the
message is dropped then, as the caller catches everything.

**`invMessage_eq_filter_iff`**: a message has the effect that it has without the entries of unknown type, and all of its
entries are looked at, if and only if none of them stands in front of another entry. A single one of them in front hides
a whole announcement (`InvSample.hidden`).
-/

namespace PayDayCoin

/-- `ppszTypeName`. -/
def ppszTypeName : List String :=
  ["ERROR", "tx", "dstx", "block", "filtered block", "tx lock request", "tx lock vote", "spork", "masternode winner",
    "unknown", "unknown", "unknown", "unknown", "unknown", "unknown"]

namespace CInv

/-- `CInv::IsKnownType`. -/
def isKnownType (inv : CInv) : Bool := 1 ≤ inv.type.toInt && inv.type.toInt < ppszTypeName.length

/-- `CInv::GetCommand`, with nothing for the exception. -/
def getCommand (inv : CInv) : Option String :=
  if inv.isKnownType then ppszTypeName[inv.type.toInt.toNat]? else none

end CInv

/-! ### What the node has -/

/-- What the handler looks up, and its two flags. -/
structure InvNode where
  mapDarksendBroadcastTxes : Uint256 → Bool
  mempool : Uint256 → Bool
  mapOrphanTransactions : Uint256 → Bool
  /-- `txdb.ContainsTx`. -/
  containsTx : Uint256 → Bool
  mapBlockIndex : Uint256 → Bool
  /-- The hashes of the orphan blocks, each with its `hashPrev`. -/
  mapOrphanBlocks : List (Uint256 × Uint256)
  mapTxLockReq : Uint256 → Bool
  mapTxLockReqRejected : Uint256 → Bool
  mapTxLockVote : Uint256 → Bool
  mapSporks : Uint256 → Bool
  mapSeenMasternodeVotes : Uint256 → Bool
  /-- The hash of `pindexBest`. -/
  hashBestChain : Uint256
  fImporting : Bool

namespace InvNode

/-- `AlreadyHave`. -/
def alreadyHave (node : InvNode) (inv : CInv) : Bool :=
  if inv.type = MSG_DSTX then node.mapDarksendBroadcastTxes inv.hash
  else if inv.type = MSG_TX then
    node.mempool inv.hash || node.mapOrphanTransactions inv.hash || node.containsTx inv.hash
  else if inv.type = MSG_BLOCK then node.mapBlockIndex inv.hash || (node.mapOrphanBlocks.lookup inv.hash).isSome
  else if inv.type = MSG_TXLOCK_REQUEST then node.mapTxLockReq inv.hash || node.mapTxLockReqRejected inv.hash
  else if inv.type = MSG_TXLOCK_VOTE then node.mapTxLockVote inv.hash
  else if inv.type = MSG_SPORK then node.mapSporks inv.hash
  else if inv.type = MSG_MASTERNODE_WINNER then node.mapSeenMasternodeVotes inv.hash
  else true

/-- The loop of `GetOrphanRoot`, which takes at most a step for each orphan. -/
def orphanRootLoop (node : InvNode) : ℕ → Uint256 → Uint256
  | 0, hash => hash
  | n + 1, hash =>
    match node.mapOrphanBlocks.lookup hash with
    | none => hash
    | some hashPrev =>
      if (node.mapOrphanBlocks.lookup hashPrev).isSome then node.orphanRootLoop n hashPrev else hash

/-- `GetOrphanRoot`. -/
def getOrphanRoot (node : InvNode) (hash : Uint256) : Uint256 :=
  node.orphanRootLoop node.mapOrphanBlocks.length hash

end InvNode

/-! ### The handler -/

/-- What the handler calls. -/
inductive InvCall where
  | addInventoryKnown (inv : CInv)
  | askFor (inv : CInv)
  /-- `PushGetBlocks`, with the hash of the block to begin with. -/
  | pushGetBlocks (hashBegin hashEnd : Uint256)
  /-- The signal to the wallets. -/
  | inventory (hash : Uint256)
deriving DecidableEq, Repr

/-- What a message leads to: the calls, each with the entry that it is for, whether the handler came to its end, and the
misbehaviour. -/
structure InvResult where
  calls : List (CInv × InvCall)
  fRet : Bool
  howmuch : ℕ := 0

/-- The position of the last block in the message. -/
def lastBlock (vInv : List CInv) : Option ℕ :=
  (vInv.reverse.findIdx? fun inv => inv.type = MSG_BLOCK).map fun nInv => vInv.length - 1 - nInv

namespace InvNode

/-- What an entry leads to behind the line that logs it. -/
def invRequests (node : InvNode) (nLastBlock : Option ℕ) (nInv : ℕ) (inv : CInv) : List InvCall :=
  if !node.alreadyHave inv then if !node.fImporting then [.askFor inv] else []
  else if inv.type = MSG_BLOCK ∧ (node.mapOrphanBlocks.lookup inv.hash).isSome then
    [.pushGetBlocks node.hashBestChain (node.getOrphanRoot inv.hash)]
  else if some nInv = nLastBlock then [.pushGetBlocks inv.hash 0]
  else []

/-- The loop of the handler, from a position on. The exception for an unknown type leaves it. -/
def invLoop (node : InvNode) (nLastBlock : Option ℕ) : ℕ → List CInv → InvResult
  | _, [] => ⟨[], true, 0⟩
  | nInv, inv :: vInv =>
    match inv.getCommand with
    | none => ⟨[(inv, .addInventoryKnown inv)], false, 0⟩
    | some _ =>
      let rest := node.invLoop nLastBlock (nInv + 1) vInv
      { rest with
        calls := (inv, .addInventoryKnown inv) :: (node.invRequests nLastBlock nInv inv).map (inv, ·) ++
          (inv, .inventory inv.hash) :: rest.calls }

/-- The handler of `inv`. -/
def invMessage (node : InvNode) (vInv : List CInv) : InvResult :=
  if MAX_INV_SZ < vInv.length then ⟨[], false, 20⟩ else node.invLoop (lastBlock vInv) 0 vInv

end InvNode

/-- The calls for entries of known type. -/
def onKnown (calls : List (CInv × InvCall)) : List (CInv × InvCall) := calls.filter fun c => c.1.isKnownType

/-- The entries that the loop came to. -/
def reached (calls : List (CInv × InvCall)) : List CInv :=
  calls.filterMap fun c => match c.2 with
    | .addInventoryKnown inv => some inv
    | _ => none

/-- What is passed to `AskFor`. -/
def asked (calls : List (CInv × InvCall)) : List CInv :=
  calls.filterMap fun c => match c.2 with
    | .askFor inv => some inv
    | _ => none

/-! ### An entry -/

theorem getCommand_eq (inv : CInv) : (∃ name, inv.getCommand = some name) ↔ inv.isKnownType = true := by
  rw [CInv.getCommand]
  by_cases h : inv.isKnownType = true
  · rw [if_pos h, CInv.isKnownType, Bool.and_eq_true, decide_eq_true_eq, decide_eq_true_eq] at *
    have hlt : inv.type.toInt.toNat < ppszTypeName.length := by omega
    exact ⟨fun _ => h, fun _ => ⟨_, List.getElem?_eq_getElem hlt⟩⟩
  · rw [if_neg h]
    exact ⟨fun ⟨_, hname⟩ => (nomatch hname), fun hknown => absurd hknown h⟩

theorem getCommand_eq_none {inv : CInv} (h : inv.isKnownType = false) : inv.getCommand = none := by
  rw [CInv.getCommand, h]
  rfl

namespace InvNode

variable {node : InvNode} {nLastBlock : Option ℕ} {nInv : ℕ} {inv : CInv} {vInv : List CInv}

/-- The node has everything of a type that it does not know. -/
theorem alreadyHave_of_unknown (h : inv.isKnownType = false) : node.alreadyHave inv = true := by
  have hne : ∀ type : Int32, 1 ≤ type.toInt && type.toInt < ppszTypeName.length → inv.type ≠ type := by
    rintro type htype rfl
    rw [CInv.isKnownType] at h
    rw [h] at htype
    cases htype
  rw [alreadyHave, if_neg (hne _ (by decide)), if_neg (hne _ (by decide)), if_neg (hne _ (by decide)),
    if_neg (hne _ (by decide)), if_neg (hne _ (by decide)), if_neg (hne _ (by decide)), if_neg (hne _ (by decide))]

/-- **An entry of known type**. -/
theorem invLoop_cons (h : inv.isKnownType = true) : (node.invLoop nLastBlock nInv (inv :: vInv)).calls =
    (inv, .addInventoryKnown inv) :: (node.invRequests nLastBlock nInv inv).map (inv, ·) ++
      (inv, .inventory inv.hash) :: (node.invLoop nLastBlock (nInv + 1) vInv).calls := by
  obtain ⟨name, hname⟩ := (getCommand_eq inv).2 h
  rw [invLoop, hname]

/-- **An entry of unknown type** is the last one. -/
theorem invLoop_cons_unknown (h : inv.isKnownType = false) :
    (node.invLoop nLastBlock nInv (inv :: vInv)).calls = [(inv, .addInventoryKnown inv)] := by
  rw [invLoop, getCommand_eq_none h]

theorem asked_requests : asked ((node.invRequests nLastBlock nInv inv).map (inv, ·)) =
    if !node.fImporting && !node.alreadyHave inv then [inv] else [] := by
  rw [invRequests]
  by_cases hhave : node.alreadyHave inv = true
  · rw [hhave, if_neg (Bool.not_true ▸ Bool.false_ne_true), Bool.not_true, Bool.and_false, if_neg Bool.false_ne_true]
    split
    · rfl
    · split
      · rfl
      · rfl
  · rw [Bool.not_eq_true] at hhave
    rw [hhave]
    cases node.fImporting
    · rfl
    · rfl

theorem reached_requests : reached ((node.invRequests nLastBlock nInv inv).map (inv, ·)) = [] := by
  rw [invRequests]
  split
  · split
    · rfl
    · rfl
  · split
    · rfl
    · split
      · rfl
      · rfl

/-! ### A message -/

theorem reached_invLoop_cons (h : inv.isKnownType = true) :
    reached (node.invLoop nLastBlock nInv (inv :: vInv)).calls =
      inv :: reached (node.invLoop nLastBlock (nInv + 1) vInv).calls := by
  have happ : ∀ l l' : List (CInv × InvCall), reached (l ++ l') = reached l ++ reached l' := fun l l' =>
    List.filterMap_append
  rw [invLoop_cons h, List.cons_append, ← List.singleton_append, happ, happ, reached_requests, ← List.singleton_append,
    happ]
  rfl

theorem asked_invLoop_cons (h : inv.isKnownType = true) :
    asked (node.invLoop nLastBlock nInv (inv :: vInv)).calls =
      (if !node.fImporting && !node.alreadyHave inv then [inv] else []) ++
        asked (node.invLoop nLastBlock (nInv + 1) vInv).calls := by
  have happ : ∀ l l' : List (CInv × InvCall), asked (l ++ l') = asked l ++ asked l' := fun l l' =>
    List.filterMap_append
  rw [invLoop_cons h, List.cons_append, ← List.singleton_append, happ, happ, asked_requests, ← List.singleton_append,
    happ]
  rfl

/-- All the calls for entries of known type are for such entries. -/
theorem known_of_mem_invLoop (h : ∀ inv ∈ vInv, inv.isKnownType = true) {c : CInv × InvCall}
    (hc : c ∈ (node.invLoop nLastBlock nInv vInv).calls) : c.1.isKnownType = true := by
  induction vInv generalizing nInv with
  | nil => cases hc
  | cons inv vInv ih =>
    have hinv := h inv List.mem_cons_self
    rw [invLoop_cons hinv] at hc
    rcases List.mem_append.1 hc with hc | hc
    · rcases List.mem_cons.1 hc with rfl | hc
      · exact hinv
      · obtain ⟨call, -, rfl⟩ := List.mem_map.1 hc
        exact hinv
    · rcases List.mem_cons.1 hc with rfl | hc
      · exact hinv
      · exact ih (fun i hi => h i (List.mem_cons_of_mem _ hi)) hc

theorem onKnown_invLoop (h : ∀ inv ∈ vInv, inv.isKnownType = true) :
    onKnown (node.invLoop nLastBlock nInv vInv).calls = (node.invLoop nLastBlock nInv vInv).calls :=
  List.filter_eq_self.2 fun _ hc => known_of_mem_invLoop h hc

/-- An entry of unknown type behind entries of known type. -/
theorem invLoop_concat (h : ∀ inv ∈ vInv, inv.isKnownType = true) (hinv : inv.isKnownType = false) :
    (node.invLoop nLastBlock nInv (vInv ++ [inv])).calls =
      (node.invLoop nLastBlock nInv vInv).calls ++ [(inv, .addInventoryKnown inv)] := by
  induction vInv generalizing nInv with
  | nil => exact invLoop_cons_unknown hinv
  | cons inv' vInv ih =>
    have hinv' := h inv' List.mem_cons_self
    rw [List.cons_append, invLoop_cons hinv', invLoop_cons hinv', ih fun i hi => h i (List.mem_cons_of_mem _ hi)]
    simp only [List.append_assoc, List.cons_append]

/-- **All entries are looked at** if and only if none of unknown type stands in front of another one. -/
theorem reached_invLoop_iff :
    reached (node.invLoop nLastBlock nInv vInv).calls = vInv ↔ ∀ inv ∈ vInv.dropLast, inv.isKnownType = true := by
  induction vInv generalizing nInv with
  | nil => exact ⟨fun _ inv hinv => (nomatch hinv), fun _ => rfl⟩
  | cons inv vInv ih =>
    by_cases hinv : inv.isKnownType = true
    · rw [reached_invLoop_cons hinv, List.cons_eq_cons, and_iff_right rfl, ih]
      cases vInv with
      | nil => exact ⟨fun _ _ hmem => (nomatch hmem), fun _ _ hmem => (nomatch hmem)⟩
      | cons inv' vInv =>
        rw [List.dropLast_cons_cons, List.forall_mem_cons]
        exact (and_iff_right hinv).symm
    · rw [Bool.not_eq_true] at hinv
      rw [invLoop_cons_unknown hinv]
      cases vInv with
      | nil => exact ⟨fun _ _ hmem => (nomatch hmem), fun _ => rfl⟩
      | cons inv' vInv =>
        rw [List.dropLast_cons_cons, List.forall_mem_cons, hinv]
        exact ⟨fun hreached => (nomatch hreached), fun hall => (nomatch hall.1)⟩

/-- What is asked for, where all types are known. -/
theorem asked_invLoop (h : ∀ inv ∈ vInv, inv.isKnownType = true) :
    asked (node.invLoop nLastBlock nInv vInv).calls =
      vInv.filter fun inv => !node.fImporting && !node.alreadyHave inv := by
  induction vInv generalizing nInv with
  | nil => rfl
  | cons inv vInv ih =>
    rw [asked_invLoop_cons (h inv List.mem_cons_self), ih fun i hi => h i (List.mem_cons_of_mem _ hi), List.filter_cons]
    split
    · rfl
    · rfl

/-- An entry of another type is not the last block. -/
theorem lastBlock_concat (h : inv.type ≠ MSG_BLOCK) : lastBlock (vInv ++ [inv]) = lastBlock vInv := by
  rw [lastBlock, lastBlock, List.reverse_append, List.reverse_singleton, List.singleton_append, List.findIdx?_cons,
    decide_eq_false h, if_neg Bool.false_ne_true, Option.map_map, List.length_append, List.length_singleton]
  apply congrArg (Option.map · _)
  funext i
  change vInv.length + 1 - 1 - (i + 1) = vInv.length - 1 - i
  omega

/-- **A message does for its entries of known type what it does without the others**, asks for what is missing, and
comes to all of its entries, if and only if none of unknown type stands in front of another one. -/
theorem invMessage_eq_filter_iff (h : vInv.length ≤ MAX_INV_SZ) :
    (onKnown (node.invMessage vInv).calls = (node.invMessage (vInv.filter CInv.isKnownType)).calls ∧
        asked (node.invMessage vInv).calls = (vInv.filter fun inv => !node.fImporting && !node.alreadyHave inv) ∧
        reached (node.invMessage vInv).calls = vInv) ↔
      ∀ inv ∈ vInv.dropLast, inv.isKnownType = true := by
  rw [invMessage, invMessage, if_neg (Nat.not_lt.2 h),
    if_neg (Nat.not_lt.2 ((List.length_filter_le _ _).trans h))]
  refine ⟨fun hall => reached_invLoop_iff.1 hall.2.2, fun hfront => ?_⟩
  rw [← and_assoc]
  refine ⟨?_, reached_invLoop_iff.2 hfront⟩
  by_cases hall : ∀ inv ∈ vInv, inv.isKnownType = true
  · rw [List.filter_eq_self.2 hall]
    exact ⟨onKnown_invLoop hall, asked_invLoop hall⟩
  -- the last entry, and only it, is of unknown type
  obtain rfl | ⟨l, last, rfl⟩ := vInv.eq_nil_or_concat
  · exact absurd (fun inv hinv => (nomatch hinv)) hall
  rw [List.concat_eq_append] at *
  rw [List.dropLast_concat] at hfront
  have hlast : last.isKnownType = false := by
    rw [← Bool.not_eq_true]
    intro hlast
    apply hall
    intro inv hinv
    rcases List.mem_append.1 hinv with hinv | hinv
    · exact hfront inv hinv
    · rw [List.mem_singleton.1 hinv]
      exact hlast
  have hblock : last.type ≠ MSG_BLOCK := by
    intro hblock
    rw [CInv.isKnownType, hblock] at hlast
    cases hlast
  rw [lastBlock_concat hblock, invLoop_concat hfront hlast, List.filter_append, List.filter_eq_self.2 hfront,
    List.filter_cons_of_neg (by rw [hlast]; exact Bool.false_ne_true), List.filter_nil, List.append_nil]
  constructor
  · rw [onKnown, List.filter_append, List.filter_cons_of_neg (by rw [hlast]; exact Bool.false_ne_true), List.filter_nil,
      List.append_nil]
    exact onKnown_invLoop hfront
  · rw [List.filter_append, ← asked_invLoop hfront, asked, List.filterMap_append,
      List.filter_cons_of_neg (by rw [alreadyHave_of_unknown hlast, Bool.not_true, Bool.and_false]; exact Bool.false_ne_true)]
    rfl

end InvNode

namespace InvSample

/-- A node that has nothing. -/
def node : InvNode where
  mapDarksendBroadcastTxes _ := false
  mempool _ := false
  mapOrphanTransactions _ := false
  containsTx _ := false
  mapBlockIndex _ := false
  mapOrphanBlocks := []
  mapTxLockReq _ := false
  mapTxLockReqRejected _ := false
  mapTxLockVote _ := false
  mapSporks _ := false
  mapSeenMasternodeVotes _ := false
  hashBestChain := 0
  fImporting := false

/-- A transaction is announced alone. -/
theorem lone_announcement : asked (node.invMessage [⟨MSG_TX, 5⟩]).calls = [⟨MSG_TX, 5⟩] := by
  have hlength : [(⟨MSG_TX, 5⟩ : CInv)].length ≤ MAX_INV_SZ := by decide
  exact ((InvNode.invMessage_eq_filter_iff hlength).2 fun _ h => (nomatch h)).2.1

/-- **An announcement is hidden** behind an entry of type 0, although the transaction is of a known type. -/
theorem hidden : onKnown (node.invMessage [⟨0, 7⟩, ⟨MSG_TX, 5⟩]).calls = [] ∧
    (node.invMessage ([⟨0, 7⟩, ⟨MSG_TX, 5⟩].filter CInv.isKnownType)).calls =
      [(⟨MSG_TX, 5⟩, .addInventoryKnown ⟨MSG_TX, 5⟩), (⟨MSG_TX, 5⟩, .askFor ⟨MSG_TX, 5⟩), (⟨MSG_TX, 5⟩, .inventory 5)] := by
  decide

end InvSample

end PayDayCoin
