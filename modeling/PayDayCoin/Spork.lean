import PayDayCoin.Library.Runs
import PayDayCoin.Block

/-!
# Sporks

A spork is a switch of the network, set by a message that the holder of the master key
signs. `ProcessSpork` takes a message that is newer than the active one for its id, and
`UpdateSpork` is the command of the holder. What a step reads of the rest of the node comes
with it, as a `SporkEnv`; the relaying of messages is left out.
-/

namespace PayDayCoin

/-- A spork message. -/
structure CSporkMessage where
  vchSig : List UInt8
  nSporkID : Int32
  nValue : Int64
  nTimeSigned : Int64
deriving DecidableEq

/-- What a message says, without the signature. -/
def CSporkMessage.content (spork : CSporkMessage) : Int32 × Int64 × Int64 :=
  (spork.nSporkID, spork.nValue, spork.nTimeSigned)

/-- The text that `CSporkManager::Sign` signs and `CheckSignature` verifies. -/
def CSporkMessage.strMessage (spork : CSporkMessage) : String :=
  toString spork.nSporkID ++ toString spork.nValue ++ toString spork.nTimeSigned

/-- `mapSporks` and `mapSporksActive`. -/
structure Sporks where
  mapSporks : Uint256 → Option CSporkMessage := fun _ => none
  mapSporksActive : Int32 → Option CSporkMessage := fun _ => none

/-- What a step reads of the rest of the node. -/
structure SporkEnv where
  /-- `fLiteMode`. -/
  fLiteMode : Bool
  /-- `pindexBest` is not `NULL`. -/
  hasBest : Bool
  /-- `Hash` of a message from `nSporkID` to `nTimeSigned`. -/
  hash : Int32 × Int64 × Int64 → Uint256
  /-- `GetTime()`. -/
  now : Int64
  /-- `CSporkManager::Sign` of a text, when the node has the master key. -/
  sign : String → Option (List UInt8)

/-! ### Messages

`verifyMessage` is `VerifyMessage` of a signature and a text, for `strMainPubKey`. -/

section Messages

variable (verifyMessage : List UInt8 → String → Bool)

/-- `CSporkManager::CheckSignature`. -/
def CSporkMessage.checkSignature (spork : CSporkMessage) : Bool := verifyMessage spork.vchSig spork.strMessage

/-- A message becomes the active one for its id. -/
def Sporks.activate (env : SporkEnv) (spork : CSporkMessage) (st : Sporks) : Sporks where
  mapSporks := Function.update st.mapSporks (env.hash spork.content) (some spork)
  mapSporksActive := Function.update st.mapSporksActive spork.nSporkID (some spork)

/-- The node has seen a message as new as this one for its id. -/
def Sporks.seen (spork : CSporkMessage) (st : Sporks) : Bool :=
  (st.mapSporksActive spork.nSporkID).any fun active => spork.nTimeSigned ≤ active.nTimeSigned

/-- `ProcessSpork`. -/
def processSpork (env : SporkEnv) (spork : CSporkMessage) (st : Sporks) : Sporks :=
  if env.fLiteMode then st
  else if !env.hasBest then st
  else if st.seen spork then st
  else if !spork.checkSignature verifyMessage then st
  else st.activate env spork

/-- `CSporkManager::UpdateSpork`. -/
def updateSpork (env : SporkEnv) (nSporkID : Int32) (nValue : Int64) (st : Sporks) : Sporks × Bool :=
  let msg : CSporkMessage := ⟨[], nSporkID, nValue, env.now⟩
  match env.sign msg.strMessage with
  | none => (st, false)
  | some vchSig => (st.activate env { msg with vchSig := vchSig }, true)

/-- What happens to the sporks. -/
inductive SporkEvent where
  /-- A `spork` is received. -/
  | spork (env : SporkEnv) (spork : CSporkMessage)
  /-- The holder of the master key sets a spork. -/
  | update (env : SporkEnv) (nSporkID : Int32) (nValue : Int64)

/-- The state after an event. -/
def Sporks.step (st : Sporks) : SporkEvent → Sporks
  | .spork env spork => processSpork verifyMessage env spork st
  | .update env nSporkID nValue => (updateSpork env nSporkID nValue st).1

/-- The state after a sequence of events. -/
def Sporks.run (st : Sporks) (events : List SporkEvent) : Sporks :=
  Library.Runs.run (Sporks.step verifyMessage) st events

end Messages

namespace Sample

/-- A node that takes sporks and has no key. -/
def sporkEnv : SporkEnv where
  fLiteMode := false
  hasBest := true
  hash _ := 0
  now := 1523532500
  sign _ := none

end Sample

end PayDayCoin
