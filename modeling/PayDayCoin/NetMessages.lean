import PayDayCoin.Serialize
import PayDayCoin.Library.Framing

/-!
# Receiving messages

A peer sends a stream of bytes, in which a header of 24 bytes stands before the data of each message. `ReceiveMsgBytes`
gets the stream in chunks as `recv` happened to cut it: each chunk goes to the message at the back of `vRecvMsg`, its
header first and then its data, and a chunk that has more starts a new message. The buffers are filled in place, and the
one for the data grows ahead of what has arrived.

**`receiveMsgBytes_feed`** says what a chunk does, in terms of a receiver that takes the stream byte by byte: the messages
that are complete are its frames, and the call fails where it refuses the stream. So neither depends on the cutting
(**`receiveChunks_eq`**).

Sizes are natural numbers: none comes near 32 bits, as a header that announces more than `MAX_SIZE` is refused.
-/

namespace PayDayCoin

open Library.Framing

/-! ### Headers -/

def MESSAGE_START_SIZE : ℕ := 4

/-- The header of a message. -/
structure CMessageHeader where
  pchMessageStart : List UInt8
  pchCommand : List UInt8
  nMessageSize : UInt32
  nChecksum : UInt32
deriving DecidableEq, Inhabited

namespace CMessageHeader

def COMMAND_SIZE : ℕ := 12
def MESSAGE_SIZE_OFFSET : ℕ := MESSAGE_START_SIZE + COMMAND_SIZE
def CHECKSUM_OFFSET : ℕ := MESSAGE_SIZE_OFFSET + 4
def HEADER_SIZE : ℕ := CHECKSUM_OFFSET + 4

/-- The header as it is sent. -/
def write (hdr : CMessageHeader) : List UInt8 :=
  hdr.pchMessageStart ++ hdr.pchCommand ++ leBytes 4 hdr.nMessageSize.toNat ++ leBytes 4 hdr.nChecksum.toNat

/-- `hdrbuf >> hdr`, which throws when there are too few bytes. -/
def read (hdrbuf : List UInt8) : Option CMessageHeader :=
  if hdrbuf.length < HEADER_SIZE then none
  else some {
    pchMessageStart := hdrbuf.take MESSAGE_START_SIZE
    pchCommand := (hdrbuf.drop MESSAGE_START_SIZE).take COMMAND_SIZE
    nMessageSize := UInt32.ofNat (ofBytes ((hdrbuf.drop MESSAGE_SIZE_OFFSET).take 4))
    nChecksum := UInt32.ofNat (ofBytes ((hdrbuf.drop CHECKSUM_OFFSET).take 4)) }

/-- The fields that are arrays have their sizes. -/
def Sized (hdr : CMessageHeader) : Prop :=
  hdr.pchMessageStart.length = MESSAGE_START_SIZE ∧ hdr.pchCommand.length = COMMAND_SIZE

theorem length_write {hdr : CMessageHeader} (h : hdr.Sized) : hdr.write.length = HEADER_SIZE := by
  simp [write, h.1, h.2, length_leBytes, HEADER_SIZE, CHECKSUM_OFFSET, MESSAGE_SIZE_OFFSET, MESSAGE_START_SIZE,
    COMMAND_SIZE]

theorem read_write {hdr : CMessageHeader} (h : hdr.Sized) : read hdr.write = some hdr := by
  obtain ⟨pchMessageStart, pchCommand, nMessageSize, nChecksum⟩ := hdr
  obtain ⟨hstart, hcommand⟩ := h
  have hnumber : ∀ n : UInt32, UInt32.ofNat (ofBytes (leBytes 4 n.toNat)) = n := fun n => by
    rw [ofBytes_leBytes n.toNat_lt, UInt32.ofNat_toNat]
  have hwhole : ∀ n : UInt32, (leBytes 4 n.toNat).take 4 = leBytes 4 n.toNat := fun n =>
    List.take_of_length_le (length_leBytes 4 _).le
  rw [read, if_neg (length_write ⟨hstart, hcommand⟩).ge.not_gt]
  simp only [write, MESSAGE_SIZE_OFFSET, CHECKSUM_OFFSET, MESSAGE_START_SIZE, COMMAND_SIZE] at hstart hcommand ⊢
  simp [List.drop_append, hstart, hcommand, length_leBytes, hnumber, hwhole, List.drop_of_length_le]

end CMessageHeader

/-! ### Buffers -/

/-- `memcpy(&buf[pos], src, n)`. -/
def memcpy (buf : List UInt8) (pos : ℕ) (src : List UInt8) : List UInt8 :=
  buf.take pos ++ src ++ buf.drop (pos + src.length)

/-- `resize`. -/
def resize (buf : List UInt8) (n : ℕ) : List UInt8 := buf.take n ++ List.replicate (n - buf.length) 0

section Buffers

variable {buf src : List UInt8} {pos n : ℕ}

theorem length_memcpy (h : pos + src.length ≤ buf.length) : (memcpy buf pos src).length = buf.length := by
  simp only [memcpy, List.length_append, List.length_take, List.length_drop]
  omega

theorem take_memcpy (h : pos ≤ buf.length) : (memcpy buf pos src).take (pos + src.length) = buf.take pos ++ src := by
  rw [memcpy, List.take_append_of_le_length (by simp; omega), List.take_of_length_le (by simp)]

theorem length_resize : (resize buf n).length = n := by
  simp only [resize, List.length_append, List.length_take, List.length_replicate]
  omega

theorem take_resize (hpos : pos ≤ buf.length) (hn : pos ≤ n) : (resize buf n).take pos = buf.take pos := by
  rw [resize, List.take_append_of_le_length (by simp; omega), List.take_take, min_eq_left hn]

end Buffers

/-! ### Messages -/

/-- A message that is being received. The header is not looked at before it is complete. -/
structure CNetMessage where
  in_data : Bool := false
  hdrbuf : List UInt8 := List.replicate 24 0
  hdr : CMessageHeader := default
  nHdrPos : ℕ := 0
  vRecv : List UInt8 := []
  nDataPos : ℕ := 0

namespace CNetMessage

/-- `CNetMessage::complete`. -/
def complete (msg : CNetMessage) : Bool := msg.in_data && msg.hdr.nMessageSize.toNat == msg.nDataPos

/-- `CNetMessage::readHeader`: the number of bytes handled, none for `-1`. -/
def readHeader (msg : CNetMessage) (pch : List UInt8) : CNetMessage × Option ℕ :=
  let nRemaining := 24 - msg.nHdrPos
  let nCopy := min nRemaining pch.length
  let msg := { msg with
    hdrbuf := memcpy msg.hdrbuf msg.nHdrPos (pch.take nCopy), nHdrPos := msg.nHdrPos + nCopy }
  if msg.nHdrPos < 24 then (msg, some nCopy)
  else
    match CMessageHeader.read msg.hdrbuf with
    | none => (msg, none)
    | some hdr =>
      -- what has been read is taken out of the buffer
      let msg := { msg with hdrbuf := msg.hdrbuf.drop 24, hdr := hdr }
      if MAX_SIZE < hdr.nMessageSize.toNat then (msg, none) else ({ msg with in_data := true }, some nCopy)

/-- `CNetMessage::readData`. -/
def readData (msg : CNetMessage) (pch : List UInt8) : CNetMessage × Option ℕ :=
  let nRemaining := msg.hdr.nMessageSize.toNat - msg.nDataPos
  let nCopy := min nRemaining pch.length
  let vRecv :=
    if msg.vRecv.length < msg.nDataPos + nCopy then
      resize msg.vRecv (min msg.hdr.nMessageSize.toNat (msg.nDataPos + nCopy + 256 * 1024))
    else msg.vRecv
  ({ msg with vRecv := memcpy vRecv msg.nDataPos (pch.take nCopy), nDataPos := msg.nDataPos + nCopy }, some nCopy)

/-- The network data are absorbed. -/
def absorb (msg : CNetMessage) (pch : List UInt8) : CNetMessage × Option ℕ :=
  if !msg.in_data then msg.readHeader pch else msg.readData pch

end CNetMessage

/-- The current incomplete message, or a new one, behind the others. -/
def currentMessage (vRecvMsg : List CNetMessage) : List CNetMessage × CNetMessage :=
  match vRecvMsg.getLast? with
  | none => (vRecvMsg, {})
  | some msg => if msg.complete then (vRecvMsg, {}) else (vRecvMsg.dropLast, msg)

/-- The loop of `ReceiveMsgBytes`; `fuel` bounds its turns. -/
def receiveBytesLoop : ℕ → List CNetMessage → List UInt8 → List CNetMessage × Bool
  | 0, vRecvMsg, _ => (vRecvMsg, true)
  | fuel + 1, vRecvMsg, pch =>
    if pch.isEmpty then (vRecvMsg, true)
    else
      let (others, msg) := currentMessage vRecvMsg
      match msg.absorb pch with
      | (msg, none) => (others ++ [msg], false)
      | (msg, some handled) => receiveBytesLoop fuel (others ++ [msg]) (pch.drop handled)

/-- `CNode::ReceiveMsgBytes`. -/
def receiveMsgBytes (vRecvMsg : List CNetMessage) (pch : List UInt8) : List CNetMessage × Bool :=
  receiveBytesLoop pch.length vRecvMsg pch

/-- The chunks of a stream are received, up to one that is refused. -/
def receiveChunks : List CNetMessage → List (List UInt8) → List CNetMessage × Bool
  | vRecvMsg, [] => (vRecvMsg, true)
  | vRecvMsg, pch :: chunks =>
    match receiveMsgBytes vRecvMsg pch with
    | (vRecvMsg, false) => (vRecvMsg, false)
    | (vRecvMsg, true) => receiveChunks vRecvMsg chunks

/-- The messages that are complete. -/
def parsedMessages (vRecvMsg : List CNetMessage) : List (CMessageHeader × List UInt8) :=
  (vRecvMsg.filter CNetMessage.complete).map fun msg => (msg.hdr, msg.vRecv)

/-! ### Byte by byte -/

/-- The messages as frames. -/
def messageLayout : Layout UInt8 CMessageHeader where
  headerSize := 24
  headerSize_pos := by decide
  parse s := (CMessageHeader.read s).filter fun hdr => hdr.nMessageSize.toNat ≤ MAX_SIZE
  size hdr := hdr.nMessageSize.toNat

/-- The message holds a header and the data after it as far as they are there. -/
structure CNetMessage.HoldsData (msg : CNetMessage) (hdr : CMessageHeader) (bytes : List UInt8) : Prop where
  in_data : msg.in_data = true
  hdr_eq : msg.hdr = hdr
  nDataPos : msg.nDataPos = bytes.length
  le_size : bytes.length ≤ hdr.nMessageSize.toNat
  le_length : bytes.length ≤ msg.vRecv.length
  length_le : msg.vRecv.length ≤ hdr.nMessageSize.toNat
  take_eq : msg.vRecv.take bytes.length = bytes

/-- The message holds the start of a header. -/
structure CNetMessage.HoldsHeader (msg : CNetMessage) (bytes : List UInt8) : Prop where
  in_data : msg.in_data = false
  length_eq : msg.hdrbuf.length = 24
  nHdrPos : msg.nHdrPos = bytes.length
  lt : bytes.length < 24
  take_eq : msg.hdrbuf.take bytes.length = bytes
  vRecv : msg.vRecv = []
  nDataPos : msg.nDataPos = 0

/-- The message holds the part of a frame. -/
def CNetMessage.Holds (msg : CNetMessage) : Part UInt8 CMessageHeader → Prop
  | .header bytes => msg.HoldsHeader bytes
  | .data hdr bytes => msg.HoldsData hdr bytes ∧ bytes.length < hdr.nMessageSize.toNat

/-- The messages are those of a receiver: its frames, and the part of the next frame if there is one. -/
def Represents (vRecvMsg : List CNetMessage) (r : Receiver UInt8 CMessageHeader) : Prop :=
  ∃ done, (∀ msg ∈ done, msg.complete = true) ∧ r.frames = done.map (fun msg => (msg.hdr, msg.vRecv)) ∧
    (vRecvMsg = done ∧ r.part = .header [] ∨
      ∃ msg, vRecvMsg = done ++ [msg] ∧ msg.Holds r.part ∧ r.part ≠ .header [])

section Receiving

variable {msg : CNetMessage} {vRecvMsg done : List CNetMessage} {r : Receiver UInt8 CMessageHeader} {pch : List UInt8}
  {part : Part UInt8 CMessageHeader} {hdr : CMessageHeader} {bytes : List UInt8}

theorem CNetMessage.Holds.not_complete (h : msg.Holds part) : msg.complete = false := by
  cases part with
  | header bytes => simp [complete, h.in_data]
  | data hdr bytes =>
    obtain ⟨h, hlt⟩ := h
    simp only [complete, Bool.and_eq_false_iff, beq_eq_false_iff_ne, h.nDataPos, h.hdr_eq]
    exact .inr hlt.ne'

theorem parsedMessages_append_of_not_complete (hdone : ∀ msg ∈ done, msg.complete = true)
    (hmsg : msg.complete = false) :
    parsedMessages (done ++ [msg]) = done.map fun msg => (msg.hdr, msg.vRecv) := by
  rw [parsedMessages, List.filter_append, List.filter_eq_self.2 hdone]
  simp [hmsg]

theorem Represents.parsedMessages_eq (h : Represents vRecvMsg r) : parsedMessages vRecvMsg = r.frames := by
  obtain ⟨done, hdone, hframes, ⟨rfl, -⟩ | ⟨msg, rfl, hholds, -⟩⟩ := h
  · rw [hframes, parsedMessages, List.filter_eq_self.2 hdone]
  · rw [hframes, parsedMessages_append_of_not_complete hdone hholds.not_complete]

theorem represents_nil : Represents [] {} := ⟨[], by simp, rfl, .inl ⟨rfl, rfl⟩⟩

/-- The current message holds the part of the frame that is there. -/
theorem Represents.currentMessage (h : Represents vRecvMsg r) :
    ∃ done msg, currentMessage vRecvMsg = (done, msg) ∧ (∀ msg ∈ done, msg.complete = true) ∧
      r.frames = done.map (fun msg => (msg.hdr, msg.vRecv)) ∧ msg.Holds r.part := by
  obtain ⟨done, hdone, hframes, ⟨rfl, hpart⟩ | ⟨msg, rfl, hholds, -⟩⟩ := h
  · refine ⟨vRecvMsg, {}, ?_, hdone, hframes, ?_⟩
    · rw [PayDayCoin.currentMessage]
      cases hlast : vRecvMsg.getLast? with
      | none => rfl
      | some msg => simp only [hdone msg (List.mem_of_getLast? hlast), if_true]
    · rw [hpart]
      exact ⟨rfl, rfl, rfl, by decide, rfl, rfl, rfl⟩
  · exact ⟨done, msg, by simp [PayDayCoin.currentMessage, hholds.not_complete], hdone, hframes, hholds⟩

/-- Data that are there, or complete. -/
theorem represents_settle (hdone : ∀ msg ∈ done, msg.complete = true)
    (hframes : r.frames = done.map fun msg => (msg.hdr, msg.vRecv)) (h : msg.HoldsData hdr bytes) :
    Represents (done ++ [msg]) (r.settle messageLayout hdr bytes) := by
  rw [Receiver.settle]
  split
  · next hlt => exact ⟨done, hdone, hframes, .inr ⟨msg, rfl, ⟨h, hlt⟩, by simp⟩⟩
  · next hnot =>
    have hsize : hdr.nMessageSize.toNat = bytes.length := le_antisymm (not_lt.1 hnot) h.le_size
    have hbytes : msg.vRecv = bytes := by
      have hlength : msg.vRecv.length ≤ bytes.length := hsize ▸ h.length_le
      rw [← List.take_of_length_le hlength, h.take_eq]
    refine ⟨done ++ [msg], ?_, ?_, .inl ⟨rfl, rfl⟩⟩
    · intro msg' hmsg'
      rcases List.mem_append.1 hmsg' with hmem | hmem
      · exact hdone msg' hmem
      · rw [List.mem_singleton.1 hmem]
        simp [CNetMessage.complete, h.in_data, h.hdr_eq, h.nDataPos, hsize]
    · simp [hframes, h.hdr_eq, hbytes]

theorem CNetMessage.HoldsData.readData (h : msg.HoldsData hdr bytes) (pch : List UInt8) :
    ∃ msg', msg.readData pch = (msg', some (min (hdr.nMessageSize.toNat - bytes.length) pch.length)) ∧
      msg'.HoldsData hdr (bytes ++ pch.take (min (hdr.nMessageSize.toNat - bytes.length) pch.length)) := by
  obtain ⟨hin, rfl, hpos, hsize, hle, hlen, htake⟩ := h
  refine ⟨_, by rw [CNetMessage.readData, hpos], ?_⟩
  set n := min (msg.hdr.nMessageSize.toNat - bytes.length) pch.length with hn
  set vRecv := if msg.vRecv.length < bytes.length + n then
      resize msg.vRecv (min msg.hdr.nMessageSize.toNat (bytes.length + n + 256 * 1024)) else msg.vRecv with hvRecv
  have htaken : (pch.take n).length = n := by
    rw [List.length_take]
    omega
  -- the buffer has room, is no larger than announced, and keeps what is there
  have hroom : bytes.length + n ≤ vRecv.length ∧ vRecv.length ≤ msg.hdr.nMessageSize.toNat ∧
      vRecv.take bytes.length = bytes := by
    rw [hvRecv]
    split
    · rw [length_resize, take_resize hle (by omega)]
      exact ⟨by omega, by omega, htake⟩
    · exact ⟨by omega, hlen, htake⟩
  obtain ⟨hfits, hbound, hkeep⟩ := hroom
  have hlength : (memcpy vRecv bytes.length (pch.take n)).length = vRecv.length := length_memcpy (by omega)
  refine ⟨hin, rfl, ?_, ?_, ?_, ?_, ?_⟩
  · simp [htaken]
  · rw [List.length_append, htaken]
    omega
  · rw [List.length_append, htaken]
    exact hfits.trans hlength.ge
  · exact hlength.le.trans hbound
  · rw [List.length_append]
    show (memcpy vRecv bytes.length (pch.take n)).take _ = _
    rw [take_memcpy (by omega), hkeep]

/-- A header that is not complete yet takes in what there is of it. -/
theorem CNetMessage.HoldsHeader.readHeader_of_lt (h : msg.HoldsHeader bytes) (hlt : bytes.length + pch.length < 24) :
    ∃ msg', msg.readHeader pch = (msg', some pch.length) ∧ msg'.HoldsHeader (bytes ++ pch) := by
  obtain ⟨hin, hlength, hpos, hlt', htake, hvRecv, hdata⟩ := h
  have hn : min (24 - bytes.length) pch.length = pch.length := by omega
  refine ⟨{ msg with hdrbuf := memcpy msg.hdrbuf bytes.length pch, nHdrPos := bytes.length + pch.length }, ?_, ?_⟩
  · simp only [CNetMessage.readHeader, hpos, hn, List.take_length, if_pos hlt]
  refine ⟨hin, (length_memcpy (by omega)).trans hlength, by simp, by simpa using hlt, ?_, hvRecv, hdata⟩
  rw [List.length_append]
  exact (take_memcpy (by omega)).trans (by rw [htake])

/-- A header that is complete is read. -/
theorem CNetMessage.HoldsHeader.readHeader_of_le (h : msg.HoldsHeader bytes) (hle : 24 ≤ bytes.length + pch.length) :
    (∃ hdr msg', messageLayout.parse (bytes ++ pch.take (24 - bytes.length)) = some hdr ∧
      msg.readHeader pch = (msg', some (24 - bytes.length)) ∧ msg'.HoldsData hdr []) ∨
    ∃ msg', messageLayout.parse (bytes ++ pch.take (24 - bytes.length)) = none ∧
      msg.readHeader pch = (msg', none) ∧ msg'.complete = false := by
  obtain ⟨hin, hlength, hpos, hlt', htake, hvRecv, hdata⟩ := h
  have hn : min (24 - bytes.length) pch.length = 24 - bytes.length := by omega
  have htaken : (pch.take (24 - bytes.length)).length = 24 - bytes.length := by
    rw [List.length_take]
    omega
  have hfull : bytes.length + (24 - bytes.length) = 24 := by omega
  have hbuf : memcpy msg.hdrbuf bytes.length (pch.take (24 - bytes.length)) =
      bytes ++ pch.take (24 - bytes.length) := by
    rw [← htake, List.length_take, hlength, min_eq_left (by omega), ← take_memcpy (by omega), htaken, hfull,
      List.take_of_length_le ((length_memcpy (by omega)).trans hlength).le]
  have hread : msg.readHeader pch =
      match CMessageHeader.read (bytes ++ pch.take (24 - bytes.length)) with
      | none => ({ msg with hdrbuf := bytes ++ pch.take (24 - bytes.length), nHdrPos := 24 }, none)
      | some hdr =>
        if MAX_SIZE < hdr.nMessageSize.toNat then
          ({ msg with hdrbuf := (bytes ++ pch.take (24 - bytes.length)).drop 24, hdr := hdr, nHdrPos := 24 }, none)
        else
          ({ msg with hdrbuf := (bytes ++ pch.take (24 - bytes.length)).drop 24, hdr := hdr, nHdrPos := 24,
                      in_data := true }, some (24 - bytes.length)) := by
    rw [CNetMessage.readHeader]
    simp only [hpos, hn, hbuf, hfull, lt_irrefl, if_false]
  rw [hread]
  simp only [messageLayout]
  cases hhdr : CMessageHeader.read (bytes ++ pch.take (24 - bytes.length)) with
  | none => exact .inr ⟨_, rfl, rfl, by simp [CNetMessage.complete, hin]⟩
  | some hdr =>
    by_cases hmax : MAX_SIZE < hdr.nMessageSize.toNat
    · refine .inr ⟨_, ?_, if_pos hmax, by simp [CNetMessage.complete, hin]⟩
      simp [Option.filter, hmax]
    · refine .inl ⟨hdr, _, ?_, if_neg hmax, ⟨rfl, rfl, hdata, Nat.zero_le _, Nat.zero_le _, by simp [hvRecv], rfl⟩⟩
      simp [Option.filter, not_lt.1 hmax]

/-- **What one turn of the loop does**: the bytes that it handles are taken in, and it fails where they are refused. -/
theorem absorb_feed (h : Represents vRecvMsg r) (hok : r.refused = false) (hpch : pch ≠ []) :
    ∃ others msg n, currentMessage vRecvMsg = (others, msg) ∧ 0 < n ∧ n ≤ pch.length ∧
      ((∃ msg', msg.absorb pch = (msg', some n) ∧ (feed messageLayout r (pch.take n)).refused = false ∧
          Represents (others ++ [msg']) (feed messageLayout r (pch.take n))) ∨
        ∃ msg', msg.absorb pch = (msg', none) ∧ (feed messageLayout r (pch.take n)).refused = true ∧
          parsedMessages (others ++ [msg']) = (feed messageLayout r (pch.take n)).frames) := by
  obtain ⟨done, msg, hcur, hdone, hframes, hholds⟩ := h.currentMessage
  have hpos := List.length_pos_of_ne_nil hpch
  cases hpart : r.part with
  | header bytes =>
    rw [hpart] at hholds
    have hholds : msg.HoldsHeader bytes := hholds
    have hread : msg.absorb pch = msg.readHeader pch := by simp [CNetMessage.absorb, hholds.in_data]
    have hbytes := hholds.lt
    by_cases hlt : bytes.length + pch.length < 24
    · obtain ⟨msg', heq, hholds'⟩ := hholds.readHeader_of_lt hlt
      refine ⟨done, msg, pch.length, hcur, hpos, le_rfl, .inl ⟨msg', hread.trans heq, ?_⟩⟩
      rw [List.take_length, feed_header hok hpart hholds.lt hlt.le, start_of_lt (by simpa [messageLayout] using hlt)]
      exact ⟨hok, done, hdone, hframes, .inr ⟨msg', rfl, hholds', by simp [hpch]⟩⟩
    · have htaken : bytes.length + (pch.take (24 - bytes.length)).length = 24 := by
        rw [List.length_take]
        omega
      have hfull : ¬(bytes ++ pch.take (24 - bytes.length)).length < messageLayout.headerSize := by
        rw [List.length_append, htaken]
        exact lt_irrefl 24
      have hfeed := feed_header (L := messageLayout) hok hpart hholds.lt htaken.le
      rw [Receiver.start, if_neg hfull] at hfeed
      refine ⟨done, msg, 24 - bytes.length, hcur, by omega, by omega, ?_⟩
      rcases hholds.readHeader_of_le (not_lt.1 hlt) with ⟨hdr, msg', hparse, heq, hdata⟩ | ⟨msg', hparse, heq, hnot⟩
      · refine .inl ⟨msg', hread.trans heq, ?_⟩
        simp only [hparse] at hfeed
        rw [hfeed]
        exact ⟨settle_refused.trans hok, represents_settle hdone hframes hdata⟩
      · refine .inr ⟨msg', hread.trans heq, ?_⟩
        simp only [hparse] at hfeed
        rw [hfeed]
        exact ⟨rfl, (parsedMessages_append_of_not_complete hdone hnot).trans hframes.symm⟩
  | data hdr bytes =>
    rw [hpart] at hholds
    obtain ⟨hdata, hlt⟩ := hholds
    obtain ⟨msg', heq, hdata'⟩ := hdata.readData pch
    have hread : msg.absorb pch = msg.readData pch := by simp [CNetMessage.absorb, hdata.in_data]
    refine ⟨done, msg, _, hcur, ?_, min_le_right _ _, .inl ⟨msg', hread.trans heq, ?_⟩⟩
    · exact lt_min (Nat.sub_pos_of_lt hlt) hpos
    · rw [feed_data hok hpart hlt (by simp only [List.length_take, messageLayout]; omega)]
      exact ⟨settle_refused.trans hok, represents_settle hdone hframes hdata'⟩

theorem receiveBytesLoop_feed {fuel : ℕ} (hfuel : pch.length ≤ fuel) (h : Represents vRecvMsg r) (hok : r.refused = false) :
    (receiveBytesLoop fuel vRecvMsg pch).2 = !(feed messageLayout r pch).refused ∧
    parsedMessages (receiveBytesLoop fuel vRecvMsg pch).1 = (feed messageLayout r pch).frames ∧
    ((feed messageLayout r pch).refused = false →
      Represents (receiveBytesLoop fuel vRecvMsg pch).1 (feed messageLayout r pch)) := by
  induction fuel generalizing vRecvMsg r pch with
  | zero =>
    obtain rfl := List.eq_nil_of_length_eq_zero (Nat.le_zero.1 hfuel)
    exact ⟨by simp [receiveBytesLoop, hok], h.parsedMessages_eq, fun _ => h⟩
  | succ fuel ih =>
    by_cases hpch : pch = []
    · subst hpch
      exact ⟨by simp [receiveBytesLoop, hok], h.parsedMessages_eq, fun _ => h⟩
    · obtain ⟨others, msg, n, hcur, hpos, hle, hturn⟩ := absorb_feed h hok hpch
      have hsplit : feed messageLayout r pch = feed messageLayout (feed messageLayout r (pch.take n)) (pch.drop n) := by
        rw [← feed_append, List.take_append_drop]
      rcases hturn with ⟨msg', habsorb, hok', hrep⟩ | ⟨msg', habsorb, hrefused, hparsed⟩
      · have hloop : receiveBytesLoop (fuel + 1) vRecvMsg pch = receiveBytesLoop fuel (others ++ [msg']) (pch.drop n) := by
          simp only [receiveBytesLoop, List.isEmpty_eq_false_iff.2 hpch, hcur, habsorb, Bool.false_eq_true, if_false]
        rw [hloop, hsplit]
        exact ih (by rw [List.length_drop]; omega) hrep hok'
      · have hloop : receiveBytesLoop (fuel + 1) vRecvMsg pch = (others ++ [msg'], false) := by
          simp only [receiveBytesLoop, List.isEmpty_eq_false_iff.2 hpch, hcur, habsorb, Bool.false_eq_true, if_false]
        rw [hloop, hsplit, feed_refused hrefused]
        exact ⟨by simp [hrefused], hparsed, fun hfalse => by simp [hrefused] at hfalse⟩

/-- **A chunk is taken in byte by byte.** -/
theorem receiveMsgBytes_feed (pch : List UInt8) (h : Represents vRecvMsg r) (hok : r.refused = false) :
    (receiveMsgBytes vRecvMsg pch).2 = !(feed messageLayout r pch).refused ∧
    parsedMessages (receiveMsgBytes vRecvMsg pch).1 = (feed messageLayout r pch).frames ∧
    ((feed messageLayout r pch).refused = false →
      Represents (receiveMsgBytes vRecvMsg pch).1 (feed messageLayout r pch)) := receiveBytesLoop_feed le_rfl h hok

/-- So is a stream, however it is cut. -/
theorem receiveChunks_feed (chunks : List (List UInt8)) (h : Represents vRecvMsg r) (hok : r.refused = false) :
    (receiveChunks vRecvMsg chunks).2 = !(feed messageLayout r chunks.flatten).refused ∧
    parsedMessages (receiveChunks vRecvMsg chunks).1 = (feed messageLayout r chunks.flatten).frames ∧
    ((feed messageLayout r chunks.flatten).refused = false →
      Represents (receiveChunks vRecvMsg chunks).1 (feed messageLayout r chunks.flatten)) := by
  induction chunks generalizing vRecvMsg r with
  | nil => exact ⟨by simp [receiveChunks, hok], h.parsedMessages_eq, fun _ => h⟩
  | cons pch chunks ih =>
    obtain ⟨hres, hparsed, hrep⟩ := receiveMsgBytes_feed pch h hok
    rw [List.flatten_cons, feed_append]
    cases hrefused : (feed messageLayout r pch).refused with
    | true =>
      have hcall : receiveMsgBytes vRecvMsg pch = ((receiveMsgBytes vRecvMsg pch).1, false) :=
        Prod.ext rfl (by rw [hres, hrefused]; rfl)
      rw [receiveChunks, hcall, feed_refused hrefused]
      exact ⟨by simp [hrefused], hparsed, fun hfalse => by simp [hrefused] at hfalse⟩
    | false =>
      have hcall : receiveMsgBytes vRecvMsg pch = ((receiveMsgBytes vRecvMsg pch).1, true) :=
        Prod.ext rfl (by rw [hres, hrefused]; rfl)
      rw [receiveChunks, hcall]
      exact ih (hrep hrefused) hrefused

/-- **The cutting does not matter**: neither the messages nor whether the stream is accepted depends on it. -/
theorem receiveChunks_eq {chunks chunks' : List (List UInt8)} (h : chunks.flatten = chunks'.flatten) :
    (receiveChunks [] chunks).2 = (receiveChunks [] chunks').2 ∧
      parsedMessages (receiveChunks [] chunks).1 = parsedMessages (receiveChunks [] chunks').1 := by
  obtain ⟨hres, hparsed, -⟩ := receiveChunks_feed chunks represents_nil rfl
  obtain ⟨hres', hparsed', -⟩ := receiveChunks_feed chunks' represents_nil rfl
  rw [hres, hres', hparsed, hparsed', h]
  exact ⟨rfl, rfl⟩

end Receiving

end PayDayCoin
