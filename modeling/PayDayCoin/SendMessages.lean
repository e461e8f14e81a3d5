import PayDayCoin.NetMessages
import PayDayCoin.Library.Runs

/-!
# Sending messages

`BeginMessage` and `EndMessage` put a message behind the others in `vSendMsg`, and `SocketSendData` hands the bytes to a
socket that may take any number of them: `nSendOffset` says how much of the first message is gone, and `nSendSize` how
much the messages are together. A call that empties the queue asserts that both are zero.

**`delivered`**: whatever messages are sent and whatever the socket takes of them, no assertion fails and the two numbers
are right, and once everything has been sent a peer that receives the bytes, in whatever chunks, has these messages and
nothing else. The dropping of messages for tests is left out.
-/

namespace PayDayCoin

open Library.Framing Library.Runs

/-- How the messages of a network look: how they start, and the hash that their checksum is taken from. -/
structure MessageFormat where
  pchMessageStart : List UInt8
  length_eq : pchMessageStart.length = MESSAGE_START_SIZE
  /-- `Hash`. -/
  hash : List UInt8 → Uint256

/-! ### Headers -/

section Headers

variable (format : MessageFormat)

/-- `CMessageHeader(pszCommand, nMessageSizeIn)`. -/
def CMessageHeader.new (pszCommand : List UInt8) (nMessageSizeIn : UInt32) : CMessageHeader where
  pchMessageStart := format.pchMessageStart
  pchCommand := pszCommand.take COMMAND_SIZE ++ List.replicate (COMMAND_SIZE - pszCommand.length) 0
  nMessageSize := nMessageSizeIn
  nChecksum := 0

/-- `CMessageHeader::GetCommand`. -/
def CMessageHeader.getCommand (hdr : CMessageHeader) : List UInt8 := hdr.pchCommand.takeWhile (· != 0)

/-- The check of the command in `CMessageHeader::IsValid`. -/
def validCommand : List UInt8 → Bool
  | [] => true
  | c :: rest =>
    if c = 0 then rest.all (· == 0)
    else if c < 0x20 || 0x7E < c then false
    else validCommand rest

/-- `CMessageHeader::IsValid`. -/
def CMessageHeader.isValid (hdr : CMessageHeader) : Bool :=
  hdr.pchMessageStart == format.pchMessageStart && validCommand hdr.pchCommand && hdr.nMessageSize.toNat ≤ MAX_SIZE

/-- The checksum of a message: the first bytes of its hash. -/
def checksum (data : List UInt8) : UInt32 := UInt32.ofNat (format.hash data).toNat

/-- What `BeginMessage` puts into `ssSend`. -/
def beginMessage (pszCommand : List UInt8) : List UInt8 := (CMessageHeader.new format pszCommand 0).write

/-- The size and the checksum are set, in `EndMessage`. -/
def setSizeAndChecksum (ssSend : List UInt8) : List UInt8 :=
  let nSize := UInt32.ofNat (ssSend.length - CMessageHeader.HEADER_SIZE)
  let ssSend := memcpy ssSend CMessageHeader.MESSAGE_SIZE_OFFSET (leBytes 4 nSize.toNat)
  let nChecksum := checksum format (ssSend.drop CMessageHeader.HEADER_SIZE)
  memcpy ssSend CMessageHeader.CHECKSUM_OFFSET (leBytes 4 nChecksum.toNat)

end Headers

/-! ### The queue -/

/-- What a call of `send` comes to. -/
inductive SendResult where
  /-- The socket has room for this many bytes. -/
  | takes (n : ℕ)
  /-- An error, perhaps one that closes the connection. -/
  | fails (fatal : Bool)

/-- The part of a `CNode` that sends. -/
structure SendQueue where
  vSendMsg : List (List UInt8) := []
  nSendSize : ℕ := 0
  nSendOffset : ℕ := 0
  fDisconnect : Bool := false
  /-- The bytes that the socket has taken. -/
  wire : List UInt8 := []

/-- The loop of `SocketSendData`, over the rest of the messages; `none` if the assertion fails. -/
def socketSendLoop : List SendResult → List (List UInt8) → SendQueue → Option (List (List UInt8) × SendQueue)
  | _, [], s => some ([], s)
  | [], data :: rest, s => if data.length ≤ s.nSendOffset then none else some (data :: rest, s)
  | .fails fatal :: _, data :: rest, s =>
    if data.length ≤ s.nSendOffset then none
    else some (data :: rest, { s with fDisconnect := s.fDisconnect || fatal })
  | .takes n :: results, data :: rest, s =>
    if data.length ≤ s.nSendOffset then none
    else
      -- a socket that is closed takes nothing
      let nBytes := if s.fDisconnect then 0 else min n (data.length - s.nSendOffset)
      if 0 < nBytes then
        let s := { s with
          wire := s.wire ++ (data.drop s.nSendOffset).take nBytes, nSendOffset := s.nSendOffset + nBytes }
        if s.nSendOffset = data.length then
          socketSendLoop results rest { s with nSendOffset := 0, nSendSize := s.nSendSize - data.length }
        else some (data :: rest, s)
      else some (data :: rest, s)

/-- `SocketSendData`. -/
def socketSendData (results : List SendResult) (s : SendQueue) : Option SendQueue := do
  let (rest, s) ← socketSendLoop results s.vSendMsg s
  if rest.isEmpty && !(s.nSendOffset == 0 && s.nSendSize == 0) then none else some { s with vSendMsg := rest }

/-- `EndMessage`: the message is put behind the others, and sent at once if there are none. -/
def endMessage (format : MessageFormat) (results : List SendResult) (ssSend : List UInt8) (s : SendQueue) :
    Option SendQueue :=
  if ssSend.isEmpty then some s
  else
    let data := setSizeAndChecksum format ssSend
    let optimistic := s.vSendMsg.isEmpty
    let s := { s with vSendMsg := s.vSendMsg ++ [data], nSendSize := s.nSendSize + data.length }
    if optimistic then socketSendData results s else some s

/-- What happens on the side that sends, with what the socket takes then. -/
inductive SendCall where
  /-- A message is sent. -/
  | message (pszCommand data : List UInt8) (results : List SendResult)
  /-- `SocketSendData` is called. -/
  | flush (results : List SendResult)

/-- The queue after an event. -/
def SendCall.apply (format : MessageFormat) (s : SendQueue) : SendCall → Option SendQueue
  | .message pszCommand data results => endMessage format results (beginMessage format pszCommand ++ data) s
  | .flush results => socketSendData results s

/-- The queue after an event, unless an assertion has failed. -/
def sendStep (format : MessageFormat) (s : Option SendQueue) (e : SendCall) : Option SendQueue :=
  s.bind fun s => e.apply format s

/-- The message of an event. -/
def SendCall.sent : SendCall → List (List UInt8 × List UInt8)
  | .message pszCommand data _ => [(pszCommand, data)]
  | .flush _ => []

/-- The command is printable and fits, and so does the data. -/
def ValidMessage (m : List UInt8 × List UInt8) : Prop :=
  (∀ c ∈ m.1, 0x20 ≤ c ∧ c ≤ 0x7E) ∧ m.1.length ≤ CMessageHeader.COMMAND_SIZE ∧ m.2.length ≤ MAX_SIZE

instance instDecidableValidMessage (m : List UInt8 × List UInt8) : Decidable (ValidMessage m) :=
  inferInstanceAs (Decidable (_ ∧ _ ∧ _))

/-! ### Headers as they are sent -/

section Written

variable {format : MessageFormat} {m : List UInt8 × List UInt8}

variable (format m) in
/-- The header that a message is sent with. -/
def headerOf : CMessageHeader :=
  { CMessageHeader.new format m.1 (UInt32.ofNat m.2.length) with nChecksum := checksum format m.2 }

variable (format m) in
theorem headerOf_sized : (headerOf format m).Sized := by
  refine ⟨format.length_eq, ?_⟩
  simp only [headerOf, CMessageHeader.new, List.length_append, List.length_take, List.length_replicate]
  omega

theorem memcpy_append {pre mid post src : List UInt8} (h : src.length = mid.length) :
    memcpy (pre ++ (mid ++ post)) pre.length src = pre ++ (src ++ post) := by
  rw [memcpy, h, List.take_left, List.append_assoc, List.drop_append, List.drop_of_length_le (by omega),
    List.nil_append, Nat.add_sub_cancel_left, List.drop_left]

/-- What is sent is the header and the data. -/
theorem setSizeAndChecksum_eq :
    setSizeAndChecksum format (beginMessage format m.1 ++ m.2) = (headerOf format m).write ++ m.2 := by
  set pre := format.pchMessageStart ++ (CMessageHeader.new format m.1 0).pchCommand with hpre
  have hlength : pre.length = CMessageHeader.MESSAGE_SIZE_OFFSET := by
    obtain ⟨hstart, hcommand⟩ := headerOf_sized format m
    simp only [hpre, List.length_append, format.length_eq]
    exact congrArg (MESSAGE_START_SIZE + ·) hcommand
  have hbegin : beginMessage format m.1 ++ m.2 = pre ++ (leBytes 4 0 ++ (leBytes 4 0 ++ m.2)) := by
    simp [beginMessage, CMessageHeader.write, CMessageHeader.new, hpre]
  have hsize : (beginMessage format m.1 ++ m.2).length - CMessageHeader.HEADER_SIZE = m.2.length := by
    rw [hbegin]
    simp only [List.length_append, hlength, length_leBytes, CMessageHeader.HEADER_SIZE, CMessageHeader.CHECKSUM_OFFSET]
    omega
  have hdrop : ∀ size : List UInt8, size.length = 4 →
      (pre ++ (size ++ (leBytes 4 0 ++ m.2))).drop CMessageHeader.HEADER_SIZE = m.2 := by
    intro size hsize4
    have hlen : (pre ++ (size ++ leBytes 4 0)).length = CMessageHeader.HEADER_SIZE := by
      simp [hlength, hsize4, length_leBytes, CMessageHeader.HEADER_SIZE, CMessageHeader.CHECKSUM_OFFSET]
    rw [← hlen, show pre ++ (size ++ (leBytes 4 0 ++ m.2)) = pre ++ (size ++ leBytes 4 0) ++ m.2 by simp, List.drop_left]
  have hchecksum : ∀ size : List UInt8, size.length = 4 →
      (pre ++ size).length = CMessageHeader.CHECKSUM_OFFSET := fun size hsize4 => by
    simp [hlength, hsize4, CMessageHeader.CHECKSUM_OFFSET]
  rw [setSizeAndChecksum, hsize, hbegin, ← hlength, memcpy_append (by simp [length_leBytes]), hdrop _ (length_leBytes 4 _), ← hchecksum _ (length_leBytes 4 _),
    ← List.append_assoc pre, memcpy_append (by simp [length_leBytes])]
  simp [headerOf, CMessageHeader.write, CMessageHeader.new, hpre]

variable (format) in
theorem nMessageSize_headerOf (h : ValidMessage m) : (headerOf format m).nMessageSize.toNat = m.2.length := by
  have hsize : m.2.length < 4294967296 := h.2.2.trans_lt (by decide)
  simp only [headerOf, CMessageHeader.new, UInt32.toNat_ofNat']
  exact Nat.mod_eq_of_lt hsize

theorem parse_headerOf (h : ValidMessage m) :
    messageLayout.parse (headerOf format m).write = some (headerOf format m) := by
  simp only [messageLayout, CMessageHeader.read_write (headerOf_sized format m)]
  exact Option.filter_some_pos (by simpa [nMessageSize_headerOf format h] using h.2.2)

theorem pchCommand_headerOf (h : ValidMessage m) : (headerOf format m).pchCommand =
    m.1 ++ List.replicate (CMessageHeader.COMMAND_SIZE - m.1.length) 0 := by
  simp only [headerOf, CMessageHeader.new, List.take_of_length_le h.2.1]

theorem ne_zero_of_valid (h : ValidMessage m) {c : UInt8} (hc : c ∈ m.1) : c ≠ 0 := by
  rintro rfl
  exact absurd (h.1 0 hc).1 (by decide)

theorem getCommand_headerOf (h : ValidMessage m) : (headerOf format m).getCommand = m.1 := by
  rw [CMessageHeader.getCommand, pchCommand_headerOf h, List.takeWhile_append_of_pos fun c hc => by
    simpa using ne_zero_of_valid h hc]
  cases CMessageHeader.COMMAND_SIZE - m.1.length <;> simp [List.replicate_succ]

theorem validCommand_append {n : ℕ} : ∀ {cmd : List UInt8}, (∀ c ∈ cmd, 0x20 ≤ c ∧ c ≤ 0x7E) →
    validCommand (cmd ++ List.replicate n 0) = true
  | [], _ => by cases n <;> simp [validCommand, List.replicate_succ]
  | c :: cmd, h => by
    obtain ⟨hlow, hhigh⟩ := h c List.mem_cons_self
    have hzero : c ≠ 0 := by
      rintro rfl
      exact absurd hlow (by decide)
    have hrange : (decide (c < 0x20) || decide (0x7E < c)) = false := by
      simp [UInt8.not_lt.2 hlow, UInt8.not_lt.2 hhigh]
    rw [List.cons_append, validCommand, if_neg hzero, hrange, if_neg (by decide)]
    exact validCommand_append fun c' hc' => h c' (List.mem_cons_of_mem c hc')

theorem isValid_headerOf (h : ValidMessage m) : (headerOf format m).isValid format = true := by
  have hcommand : validCommand (headerOf format m).pchCommand = true := by
    rw [pchCommand_headerOf h]
    exact validCommand_append h.1
  rw [CMessageHeader.isValid, hcommand, nMessageSize_headerOf format h]
  simpa [headerOf, CMessageHeader.new] using h.2.2

end Written

/-! ### What the queue holds -/

/-- The messages are queued: the numbers are theirs, and with what has been sent they are the stream. -/
structure SendQueue.Queues (s : SendQueue) (queue : List (List UInt8)) (stream : List UInt8) : Prop where
  nSendSize : s.nSendSize = (queue.map List.length).sum
  /-- The offset is inside the first message. -/
  inside : ∀ data rest, queue = data :: rest → s.nSendOffset < data.length
  offset : queue = [] → s.nSendOffset = 0
  nonempty : ∀ data ∈ queue, data ≠ []
  stream_eq : s.wire ++ queue.flatten.drop s.nSendOffset = stream

section Queue

variable {s : SendQueue} {queue rest : List (List UInt8)} {data stream : List UInt8} {results : List SendResult}

/-- A part of the first message is sent. -/
theorem SendQueue.Queues.sent_part (h : s.Queues (data :: rest) stream) {n : ℕ}
    (hn : s.nSendOffset + n < data.length) :
    SendQueue.Queues { s with wire := s.wire ++ (data.drop s.nSendOffset).take n, nSendOffset := s.nSendOffset + n }
      (data :: rest) stream where
  nSendSize := h.nSendSize
  inside data' rest' heq := by
    cases heq
    exact hn
  offset heq := by cases heq
  nonempty := h.nonempty
  stream_eq := by
    have hpart : (data.drop s.nSendOffset).take n ++ data.drop (s.nSendOffset + n) = data.drop s.nSendOffset := by
      rw [← List.drop_drop, List.take_append_drop]
    have hinside := h.inside data rest rfl
    rw [← h.stream_eq, List.flatten_cons, List.drop_append_of_le_length hn.le,
      List.drop_append_of_le_length hinside.le]
    conv_rhs => rw [← hpart]
    simp only [List.append_assoc]

/-- The first message is sent to its end. -/
theorem SendQueue.Queues.sent_all (h : s.Queues (data :: rest) stream) {n : ℕ}
    (hn : s.nSendOffset + n = data.length) :
    SendQueue.Queues { s with
        wire := s.wire ++ (data.drop s.nSendOffset).take n, nSendOffset := 0, nSendSize := s.nSendSize - data.length }
      rest stream where
  nSendSize := by
    rw [h.nSendSize, List.map_cons, List.sum_cons, Nat.add_sub_cancel_left]
  inside data' rest' heq :=
    List.length_pos_of_ne_nil (h.nonempty data' (heq ▸ List.mem_cons_of_mem data List.mem_cons_self))
  offset _ := rfl
  nonempty data' hmem := h.nonempty data' (List.mem_cons_of_mem data hmem)
  stream_eq := by
    have hinside := h.inside data rest rfl
    have hwhole : (data.drop s.nSendOffset).take n = data.drop s.nSendOffset :=
      List.take_of_length_le (by rw [List.length_drop]; omega)
    rw [← h.stream_eq, List.flatten_cons, List.drop_append_of_le_length hinside.le, hwhole, List.drop_zero,
      List.append_assoc]

/-- The loop keeps what is queued, and its assertion holds. -/
theorem SendQueue.Queues.socketSendLoop (h : s.Queues queue stream) (results : List SendResult) :
    ∃ rest s', socketSendLoop results queue s = some (rest, s') ∧ s'.Queues rest stream := by
  induction queue generalizing s results with
  | nil => exact ⟨[], s, by cases results <;> rfl, h⟩
  | cons data rest ih =>
    have hinside := h.inside data rest rfl
    have hassert : ¬data.length ≤ s.nSendOffset := not_le.2 hinside
    cases results with
    | nil => exact ⟨data :: rest, s, by rw [PayDayCoin.socketSendLoop, if_neg hassert], h⟩
    | cons result results =>
      cases result with
      | fails fatal =>
        refine ⟨data :: rest, _, by rw [PayDayCoin.socketSendLoop, if_neg hassert], ?_⟩
        exact ⟨h.nSendSize, h.inside, h.offset, h.nonempty, h.stream_eq⟩
      | takes n =>
        rw [PayDayCoin.socketSendLoop, if_neg hassert]
        set nBytes := if s.fDisconnect then 0 else min n (data.length - s.nSendOffset) with hnBytes
        have hle : s.nSendOffset + nBytes ≤ data.length := by
          rw [hnBytes]
          split <;> omega
        simp only
        by_cases hpos : 0 < nBytes
        · rw [if_pos hpos]
          by_cases hall : s.nSendOffset + nBytes = data.length
          · rw [if_pos hall]
            exact ih (h.sent_all hall) results
          · rw [if_neg hall]
            exact ⟨_, _, rfl, h.sent_part (lt_of_le_of_ne hle hall)⟩
        · rw [if_neg hpos]
          exact ⟨_, _, rfl, h⟩

/-- So does `SocketSendData`. -/
theorem SendQueue.Queues.socketSendData (h : s.Queues s.vSendMsg stream) (results : List SendResult) :
    ∃ s', socketSendData results s = some s' ∧ s'.Queues s'.vSendMsg stream := by
  obtain ⟨rest, s', hloop, h'⟩ := h.socketSendLoop results
  refine ⟨{ s' with vSendMsg := rest }, ?_, h'.nSendSize, h'.inside, h'.offset, h'.nonempty, h'.stream_eq⟩
  have hasserts : (rest.isEmpty && !(s'.nSendOffset == 0 && s'.nSendSize == 0)) = false := by
    cases rest with
    | nil => simp [h'.offset rfl, h'.nSendSize]
    | cons data rest => rfl
  simp only [PayDayCoin.socketSendData, hloop, Option.bind_eq_bind, Option.bind_some, hasserts, Bool.false_eq_true,
    if_false]

/-- A message comes behind the others. -/
theorem SendQueue.Queues.push (h : s.Queues s.vSendMsg stream) (hdata : data ≠ []) :
    SendQueue.Queues { s with vSendMsg := s.vSendMsg ++ [data], nSendSize := s.nSendSize + data.length }
      (s.vSendMsg ++ [data]) (stream ++ data) where
  nSendSize := by simp [h.nSendSize]
  inside data' rest heq := by
    cases hqueue : s.vSendMsg with
    | nil =>
      rw [hqueue] at heq
      cases heq
      have hzero : s.nSendOffset = 0 := h.offset hqueue
      simpa [hzero] using List.length_pos_of_ne_nil hdata
    | cons first others =>
      rw [hqueue] at heq
      cases heq
      exact h.inside _ _ hqueue
  offset heq := by simp at heq
  nonempty data' hmem := by
    rcases List.mem_append.1 hmem with hmem | hmem
    · exact h.nonempty data' hmem
    · rwa [List.mem_singleton.1 hmem]
  stream_eq := by
    have hoffset : s.nSendOffset ≤ s.vSendMsg.flatten.length := by
      cases hqueue : s.vSendMsg with
      | nil => simp [h.offset hqueue]
      | cons first others =>
        rw [List.flatten_cons, List.length_append]
        exact (h.inside first others hqueue).le.trans (Nat.le_add_right _ _)
    rw [← h.stream_eq, List.flatten_append, List.drop_append_of_le_length hoffset]
    simp

theorem SendQueue.Queues.endMessage (h : s.Queues s.vSendMsg stream) (format : MessageFormat) (results : List SendResult)
    (m : List UInt8 × List UInt8) :
    ∃ s', endMessage format results (beginMessage format m.1 ++ m.2) s = some s' ∧
      s'.Queues s'.vSendMsg (stream ++ ((headerOf format m).write ++ m.2)) := by
  have hne : (headerOf format m).write ++ m.2 ≠ [] := fun hnil => by
    have hlen := CMessageHeader.length_write (headerOf_sized format m)
    rw [(List.append_eq_nil_iff.1 hnil).1] at hlen
    cases hlen
  have hsend : beginMessage format m.1 ++ m.2 ≠ [] := fun hnil => by
    have hlen : (beginMessage format m.1).length = CMessageHeader.HEADER_SIZE :=
      CMessageHeader.length_write (headerOf_sized format m)
    rw [(List.append_eq_nil_iff.1 hnil).1] at hlen
    cases hlen
  have hpush := h.push hne
  rw [PayDayCoin.endMessage, if_neg (by simpa using hsend)]
  simp only [setSizeAndChecksum_eq]
  split
  · exact hpush.socketSendData results
  · exact ⟨_, rfl, hpush⟩

/-- **The stream is the messages**, one after the other, whatever the socket takes. -/
theorem queues_run (format : MessageFormat) (calls : List SendCall) : ∀ {s : SendQueue} {stream : List UInt8},
    s.Queues s.vSendMsg stream → ∃ s', run (sendStep format) (some s) calls = some s' ∧
      s'.Queues s'.vSendMsg
        (stream ++ (calls.flatMap SendCall.sent).flatMap fun m => (headerOf format m).write ++ m.2) := by
  induction calls with
  | nil => exact fun {s stream} h => ⟨s, rfl, by simpa using h⟩
  | cons e calls ih =>
    intro s stream h
    cases e with
    | message pszCommand data results =>
      obtain ⟨s₁, hstep, h₁⟩ := h.endMessage format results (pszCommand, data)
      obtain ⟨s', hrun, h'⟩ := ih h₁
      exact ⟨s', (congrArg (run (sendStep format) · calls) hstep).trans hrun, by simpa [SendCall.sent] using h'⟩
    | flush results =>
      obtain ⟨s₁, hstep, h₁⟩ := h.socketSendData results
      obtain ⟨s', hrun, h'⟩ := ih h₁
      exact ⟨s', (congrArg (run (sendStep format) · calls) hstep).trans hrun, by simpa [SendCall.sent] using h'⟩

end Queue

/-! ### What the peer receives -/

/-- The messages arrive, however their bytes are cut. -/
theorem received_of_stream (format : MessageFormat) {messages : List (List UInt8 × List UInt8)}
    (hvalid : ∀ m ∈ messages, ValidMessage m) {chunks : List (List UInt8)}
    (hchunks : chunks.flatten = messages.flatMap fun m => (headerOf format m).write ++ m.2) :
    ∃ vRecvMsg, receiveChunks [] chunks = (vRecvMsg, true) ∧ (∀ msg ∈ vRecvMsg, msg.complete = true) ∧
      vRecvMsg.map (fun msg => (msg.hdr, msg.vRecv)) = messages.map fun m => (headerOf format m, m.2) := by
  have hframe : ∀ m ∈ messages, (headerOf format m).write.length = messageLayout.headerSize ∧
      messageLayout.parse (headerOf format m).write = some (headerOf format m) ∧
      m.2.length = messageLayout.size (headerOf format m) := fun m hm =>
    ⟨CMessageHeader.length_write (headerOf_sized format m), parse_headerOf (hvalid m hm),
      (nMessageSize_headerOf format (hvalid m hm)).symm⟩
  have hfeed : feed messageLayout {} chunks.flatten =
      { frames := messages.map fun m => (headerOf format m, m.2) } := by
    rw [hchunks, feed_frames hframe rfl rfl]
    simp
  obtain ⟨hres, -, hrep⟩ := receiveChunks_feed chunks represents_nil rfl
  rw [hfeed] at hres hrep
  obtain ⟨done, hdone, hframes, ⟨heq, -⟩ | ⟨msg, -, -, hpart⟩⟩ := hrep rfl
  · exact ⟨done, Prod.ext heq hres, hdone, hframes.symm⟩
  · exact absurd rfl hpart

/-- **Messages are delivered.** Whatever is sent and however much the socket takes each time, the assertions hold,
`nSendSize` is the size of the queue and `nSendOffset` is inside the first message; once the queue is empty, a peer that
gets the bytes in any chunks has these messages, with their checksums, and no other. And what a peer makes of any stream
does not depend on the chunks. -/
theorem delivered (format : MessageFormat) (calls : List SendCall)
    (hvalid : ∀ m ∈ calls.flatMap SendCall.sent, ValidMessage m) :
    (∃ s, run (sendStep format) (some {}) calls = some s ∧ s.nSendSize = (s.vSendMsg.map List.length).sum ∧
      (∀ data rest, s.vSendMsg = data :: rest → s.nSendOffset < data.length) ∧ (s.vSendMsg = [] → s.nSendOffset = 0) ∧
      (s.vSendMsg = [] → ∀ chunks : List (List UInt8), chunks.flatten = s.wire →
        ∃ vRecvMsg, receiveChunks [] chunks = (vRecvMsg, true) ∧
          vRecvMsg.map (fun msg => (msg.hdr.getCommand, msg.vRecv)) = calls.flatMap SendCall.sent ∧
          ∀ msg ∈ vRecvMsg, msg.complete = true ∧ msg.hdr.isValid format = true ∧
            msg.hdr.nChecksum = checksum format msg.vRecv)) ∧
    ∀ chunks chunks' : List (List UInt8), chunks.flatten = chunks'.flatten →
      (receiveChunks [] chunks).2 = (receiveChunks [] chunks').2 ∧
        parsedMessages (receiveChunks [] chunks).1 = parsedMessages (receiveChunks [] chunks').1 := by
  refine ⟨?_, fun chunks chunks' => receiveChunks_eq⟩
  have hnil : SendQueue.Queues {} [] [] := ⟨rfl, fun _ _ heq => (by cases heq), fun _ => rfl, by simp, rfl⟩
  obtain ⟨s, hrun, h⟩ := queues_run format calls hnil
  refine ⟨s, hrun, h.nSendSize, h.inside, h.offset, fun hempty chunks hchunks => ?_⟩
  have hwire := h.stream_eq
  simp only [hempty, List.flatten_nil, List.drop_nil, List.append_nil, List.nil_append] at hwire
  obtain ⟨vRecvMsg, hreceive, hcomplete, hmap⟩ := received_of_stream format hvalid (hchunks.trans hwire)
  refine ⟨vRecvMsg, hreceive, ?_, fun msg hmsg => ?_⟩
  · have hcommands := congrArg (List.map fun p : CMessageHeader × List UInt8 => (p.1.getCommand, p.2)) hmap
    rw [List.map_map, List.map_map] at hcommands
    refine hcommands.trans ((List.map_congr_left fun m hm => ?_).trans (List.map_id _))
    simp [getCommand_headerOf (hvalid m hm)]
  · have hmem : (msg.hdr, msg.vRecv) ∈ vRecvMsg.map fun msg => (msg.hdr, msg.vRecv) := List.mem_map_of_mem hmsg
    rw [hmap] at hmem
    obtain ⟨m, hm, heq⟩ := List.mem_map.1 hmem
    obtain ⟨hhdr, hdata⟩ := Prod.mk.inj heq
    refine ⟨hcomplete msg hmsg, ?_, ?_⟩
    · rw [← hhdr]
      exact isValid_headerOf (hvalid m hm)
    · rw [← hhdr, ← hdata]
      rfl

namespace SendSample

/-- Messages that start with four bytes, and a hash that is the sum of the bytes. -/
def format : MessageFormat := ⟨[1, 2, 3, 4], rfl, fun s => BitVec.ofNat 256 (s.map UInt8.toNat).sum⟩

/-- A message is sent, of which the socket takes a part, and one without data. -/
def calls : List SendCall :=
  [.message [0x74, 0x78] [5, 6] [.takes 10], .message [0x76] [] [], .flush [.takes 100, .takes 100]]

theorem delivered_all : (∀ m ∈ calls.flatMap SendCall.sent, ValidMessage m) ∧
    ∃ s, run (sendStep format) (some {}) calls = some s ∧ s.nSendSize = (s.vSendMsg.map List.length).sum := by
  have hvalid : ∀ m ∈ calls.flatMap SendCall.sent, ValidMessage m := by decide +kernel
  obtain ⟨⟨s, hrun, hsize, -⟩, -⟩ := delivered format calls hvalid
  exact ⟨hvalid, s, hrun, hsize⟩

end SendSample

end PayDayCoin
