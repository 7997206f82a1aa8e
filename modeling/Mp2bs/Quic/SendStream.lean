import Mp2bs.Fec.Encoder

/-!
# A send stream with FEC (`enhanced-quic/send_stream.go`)

`popStreamFrame` gives the framer the next frame of a stream: a retransmission, or a FEC frame
of the last block, or new data. New data go to `PushToEncode` after it is settled whether the
stream has more to send. FEC is enabled throughout, and write deadlines are not set.
-/

namespace Mp2bs.Quic
open Mp2bs.Fec

-- internal/protocol/protocol.go:62 and params.go:123
def maxPacketBufferSize : ℕ := 1452
def minStreamFrameSize : ℕ := 128

-- quicvarint.Len, quicvarint/varint.go:120-139, for numbers below 2^62
def varintLen (i : ℕ) : ℕ :=
  if i ≤ 63 then 1 else if i ≤ 16383 then 2 else if i ≤ 1073741823 then 4 else 8

theorem varintLen_le (i : ℕ) : varintLen i ≤ 8 := by
  unfold varintLen
  split_ifs <;> omega

/- A STREAM frame with its buffer of the frame pool (`internal/wire/pool.go:11-18`). A stream
holds frames with `DataLenPresent` only (132, 297, 340, 353, 438); the framer
clears it in a frame that has left the stream. -/
structure PooledFrame where
  frame : StreamFrame
  le : frame.data.length ≤ maxPacketBufferSize
  deriving Repr, DecidableEq

def headerLen (streamID offset : ℕ) : ℕ :=
  1 + varintLen streamID + if offset = 0 then 0 else varintLen offset

theorem headerLen_le (streamID offset : ℕ) : headerLen streamID offset ≤ 17 := by
  have := varintLen_le streamID
  have := varintLen_le offset
  unfold headerLen
  split_ifs <;> omega

-- StreamFrame.MaxDataLen with DataLenPresent, stream_frame.go:134-152
def maxDataLen (streamID offset maxSize : ℕ) : ℕ :=
  let headerLen := headerLen streamID offset + 1
  if maxSize < headerLen then 0
  else
    let maxDataLen := maxSize - headerLen
    if varintLen maxDataLen ≠ 1 then maxDataLen - 1 else maxDataLen

namespace PooledFrame

def headerLen (f : PooledFrame) : ℕ := Quic.headerLen f.frame.streamID f.frame.offset

-- StreamFrame.Length, stream_frame.go:116-125
def length (f : PooledFrame) (dataLenPresent : Bool) : ℕ :=
  f.headerLen + (if dataLenPresent then varintLen f.frame.data.length else 0) +
    f.frame.data.length

def take (f : PooledFrame) (n : ℕ) : PooledFrame where
  frame := { f.frame with data := f.frame.data.take n, fin := false }
  le := le_trans (List.length_take_le' n _) f.le

def drop (f : PooledFrame) (n : ℕ) : PooledFrame where
  frame := { f.frame with data := f.frame.data.drop n, offset := f.frame.offset + n }
  le := le_trans (by simp) f.le

def setFin (f : PooledFrame) (fin : Bool) : PooledFrame :=
  { f with frame := { f.frame with fin := fin } }

/- `MaybeSplitOffFrame` (`stream_frame.go:159-185`): the frame that is split off, whether a split
was needed, and the rest. -/
def maybeSplitOffFrame (f : PooledFrame) (maxSize : ℕ) :
    Except Stop (Option PooledFrame × Bool × PooledFrame) :=
  if f.length true ≤ maxSize then .ok (none, false, f)
  else
    let n := maxDataLen f.frame.streamID f.frame.offset maxSize
    if n = 0 then .ok (none, true, f)
    else if f.frame.data.length < n then .error .panic
    else .ok (some (f.take n), true, f.drop n)

end PooledFrame

-- FecFrame.Length, fec_frame.go:117-124
def fecLength (f : FecFrame) : ℕ :=
  1 + varintLen f.streamID + varintLen f.streamOffset + varintLen f.fecDataOffset +
    varintLen f.symbolSize + varintLen f.numOfSymbols + varintLen f.fecDataLength +
    varintLen f.fecTotalLength + f.fecData.length

inductive Frame
  | stream (f : PooledFrame) (dataLenPresent : Bool)
  | fec (f : FecFrame)
  deriving Repr, DecidableEq

def Frame.length : Frame → ℕ
  | .stream f dataLenPresent => f.length dataLenPresent
  | .fec f => fecLength f

-- the sending half of baseFlowController, flowcontrol/base_flow_controller.go:11-15
structure FlowController where
  bytesSent : ℕ
  sendWindow : ℕ
  lastBlockedAt : ℕ
  deriving Repr, DecidableEq

namespace FlowController

-- sendWindowSize, base_flow_controller.go:55-61
def sendWindowSize (c : FlowController) : ℕ := c.sendWindow - c.bytesSent

-- UpdateSendWindow, base_flow_controller.go:49-53
def updateSendWindow (c : FlowController) (offset : ℕ) : FlowController :=
  if c.sendWindow < offset then { c with sendWindow := offset } else c

def addBytesSent (c : FlowController) (n : ℕ) : FlowController :=
  { c with bytesSent := c.bytesSent + n }

end FlowController

/- The call of `Write` of a stream: it has to notify the session and then returns if all of the
data are in `nextFrame`, or it waits on `writeChan`. -/
inductive Writer
  | idle
  | notifying (copied : Bool)
  | waiting
  deriving Repr, DecidableEq

/- A `dataForWriting` of nil is the empty list: the slices that are kept are never empty. Of
`closeForShutdownErr` only whether it is set matters. -/
structure SendStream where
  streamID : ℕ
  numOutstandingFrames : ℕ
  retransmissionQueue : List PooledFrame
  writeOffset : ℕ
  closedForShutdown : Bool
  closeForShutdownErr : Bool
  finishedWriting : Bool
  canceledWrite : Bool
  finSent : Bool
  dataForWriting : Bytes
  nextFrame : Option PooledFrame
  writeChan : Bool
  writer : Writer
  flowController : FlowController
  fec : FecEncoder
  deriving Repr, DecidableEq

namespace SendStream

-- newSendStream, 70-86
def new (streamID : ℕ) : SendStream where
  streamID := streamID
  numOutstandingFrames := 0
  retransmissionQueue := []
  writeOffset := 0
  closedForShutdown := false
  closeForShutdownErr := false
  finishedWriting := false
  canceledWrite := false
  finSent := false
  dataForWriting := []
  nextFrame := none
  writeChan := false
  writer := .idle
  flowController := ⟨0, 0, 0⟩
  fec := .new

def signalWrite (s : SendStream) : SendStream := { s with writeChan := true }

-- canBufferStreamFrame, 195-201
def canBufferStreamFrame (s : SendStream) : Bool :=
  (s.nextFrame.elim 0 (·.frame.data.length)) + s.dataForWriting.length ≤ maxPacketBufferSize

/- The copy of `dataForWriting` to `nextFrame` (127-141). -/
def buffer (s : SendStream) : SendStream :=
  match s.nextFrame with
  | none =>
    if h : s.dataForWriting.length ≤ maxPacketBufferSize then
      { s with
        nextFrame := some ⟨⟨s.streamID, s.writeOffset, s.dataForWriting, false⟩, h⟩
        dataForWriting := [] }
    else s
  | some f =>
    if h : (f.frame.data ++ s.dataForWriting).length ≤ maxPacketBufferSize then
      { s with
        nextFrame := some ⟨{ f.frame with data := f.frame.data ++ s.dataForWriting }, h⟩
        dataForWriting := [] }
    else s

/- `popNewStreamFrame` with a `nextFrame` (330-347). -/
def popNextFrame (s : SendStream) (f : PooledFrame) (maxBytes sendWindow : ℕ) :
    SendStream × PooledFrame × Bool :=
  let maxDataLen := min sendWindow (Quic.maxDataLen f.frame.streamID f.frame.offset maxBytes)
  if maxDataLen < f.frame.data.length then
    let rest : PooledFrame :=
      ⟨⟨s.streamID, s.writeOffset + maxDataLen, f.frame.data.drop maxDataLen, false⟩,
        le_trans (by simp) f.le⟩
    ({ s with nextFrame := some rest }, f.take maxDataLen, true)
  else ({ s with nextFrame := none }.signalWrite, f, !s.dataForWriting.isEmpty)

/- `popNewStreamFrame` without one (349-372, 391-405). A slice beyond the buffer
panics, and so does the caller on a nil frame (317). -/
def popNewData (s : SendStream) (maxBytes sendWindow : ℕ) :
    Except Stop (SendStream × PooledFrame × Bool) :=
  let maxDataLen := Quic.maxDataLen s.streamID s.writeOffset maxBytes
  if maxDataLen = 0 then .error .panic
  else
    let n := min maxDataLen sendWindow
    if h : (s.dataForWriting.take n).length ≤ maxPacketBufferSize then
      let s' : SendStream := { s with dataForWriting := s.dataForWriting.drop n }
      let s' := if s'.dataForWriting = [] ∨ s'.canBufferStreamFrame then s'.signalWrite else s'
      if s.dataForWriting.take n = [] then .error .panic
      else .ok (s', ⟨⟨s.streamID, s.writeOffset, s.dataForWriting.take n, false⟩, h⟩,
        !s'.dataForWriting.isEmpty || s.finishedWriting)
    else .error .panic

-- popNewStreamFrame, 329-362
def popNewStreamFrame (s : SendStream) (maxBytes sendWindow : ℕ) :
    Except Stop (SendStream × PooledFrame × Bool) :=
  match s.nextFrame with
  | some f => .ok (s.popNextFrame f maxBytes sendWindow)
  | none => s.popNewData maxBytes sendWindow

/- `maybeGetRetransmission` (374-382), without its second result: the caller
claims more data in any case (281). -/
def maybeGetRetransmission (s : SendStream) (maxBytes : ℕ) :
    Except Stop (SendStream × Option PooledFrame) :=
  match s.retransmissionQueue with
  | [] => .error .panic
  | f :: rest => match f.maybeSplitOffFrame maxBytes with
    | .error stop => .error stop
    | .ok (newFrame, true, f) => .ok ({ s with retransmissionQueue := f :: rest }, newFrame)
    | .ok (_, false, f) => .ok ({ s with retransmissionQueue := rest }, some f)

/- What `popNewOrRetransmittedStreamFrame` returns, with the stream and the flow controller of
the connection after it. -/
structure Popped where
  stream : SendStream
  conn : FlowController
  frame : Option PooledFrame
  hasMoreData : Bool
  retransmission : Bool

-- streamFlowController.SendWindowSize, stream_flow_controller.go:125-127
def sendWindowSize (s : SendStream) (conn : FlowController) : ℕ :=
  min s.flowController.sendWindowSize conn.sendWindowSize

/- New data, once there are some and the window is open (316-326). -/
def popNew (s : SendStream) (conn : FlowController) (maxBytes : ℕ) : Except Stop Popped :=
  match s.popNewStreamFrame maxBytes (s.sendWindowSize conn) with
  | .error stop => .error stop
  | .ok (s', f, hasMoreData) =>
    let fin := s'.finishedWriting && s'.dataForWriting.isEmpty && s'.nextFrame.isNone && !s'.finSent
    .ok
      { stream := { s' with
          writeOffset := s'.writeOffset + f.frame.data.length
          flowController := s'.flowController.addBytesSent f.frame.data.length
          finSent := s'.finSent || fin }
        conn := conn.addBytesSent f.frame.data.length
        frame := some (f.setFin fin)
        hasMoreData := hasMoreData
        retransmission := false }

def stopped (s : SendStream) : Prop := s.canceledWrite ∨ s.closeForShutdownErr

instance (s : SendStream) : Decidable s.stopped :=
  inferInstanceAs (Decidable (_ ∨ _))

-- popNewOrRetransmittedStreamFrame, 268-327
def popNewOrRetransmittedStreamFrame (s : SendStream) (conn : FlowController) (maxBytes : ℕ) :
    Except Stop Popped :=
  if s.stopped then .ok ⟨s, conn, none, false, false⟩
  else if s.retransmissionQueue ≠ [] then
    match s.maybeGetRetransmission maxBytes with
    | .error stop => .error stop
    | .ok (s', f) => .ok ⟨s', conn, f, true, true⟩
  else if s.fec.transmissionQueue ≠ [] then .ok ⟨s, conn, none, true, false⟩
  else if s.dataForWriting = [] ∧ s.nextFrame = none then
    if s.finishedWriting ∧ ¬s.finSent then
      .ok ⟨{ s with finSent := true }, conn,
        some ⟨⟨s.streamID, s.writeOffset, [], true⟩, Nat.zero_le _⟩, false, false⟩
    else .ok ⟨s, conn, none, false, false⟩
  else if s.sendWindowSize conn = 0 then
    -- IsNewlyBlocked of the stream's own window, base_flow_controller.go:36-42
    if s.flowController.sendWindowSize ≠ 0 ∨
        s.flowController.sendWindow = s.flowController.lastBlockedAt then
      .ok ⟨s, conn, none, true, false⟩
    else
      let blocked := { s.flowController with lastBlockedAt := s.flowController.sendWindow }
      .ok ⟨{ s with flowController := blocked }, conn, none, false, false⟩
  else s.popNew conn maxBytes

-- PopFecFrame, fec_handler.go:148-165
def popFecFrame (s : SendStream) (maxBytes : ℕ) : SendStream × Option FecFrame :=
  match s.fec.transmissionQueue with
  | [] => (s, none)
  | fecFrame :: rest =>
    if fecFrame.symbolSize ≤ maxBytes then
      ({ s with fec := { s.fec with transmissionQueue := rest } }, some fecFrame)
    else (s, none)

/- `popStreamFrame` (207-264): the stream and the connection's flow controller
after it, the frame, and whether there is more to send. -/
def popStreamFrame (s : SendStream) (conn : FlowController) (maxBytes : ℕ) :
    Except Stop (SendStream × FlowController × Option Frame × Bool) :=
  match s.popNewOrRetransmittedStreamFrame conn maxBytes with
  | .error stop => .error stop
  | .ok r => match r.frame with
    | some f =>
      let s' := { r.stream with numOutstandingFrames := r.stream.numOutstandingFrames + 1 }
      if r.retransmission then .ok (s', r.conn, some (.stream f true), r.hasMoreData)
      else match s'.fec.pushToEncode f.frame with
        | .error stop => .error stop
        -- hasMoreData was settled before the encoder had the frame
        | .ok (fec, _) =>
          .ok ({ s' with fec := fec }, r.conn, some (.stream f true), r.hasMoreData)
    | none =>
      if r.retransmission then .ok (r.stream, r.conn, none, r.hasMoreData)
      else match r.stream.popFecFrame maxBytes with
        | (s', some fecFrame) => .ok (s'.signalWrite, r.conn, some (.fec fecFrame), r.hasMoreData)
        | (s', none) => .ok (s', r.conn, none, r.hasMoreData)

end SendStream

/-! ### Lengths -/

variable {n maxSize : ℕ} {e : FecEncoder} {frame : StreamFrame}

theorem varintLen_of_le (h : n ≤ maxPacketBufferSize) : varintLen n ≤ 2 := by
  unfold maxPacketBufferSize at h
  unfold varintLen
  split_ifs <;> omega

theorem maxDataLen_pos (streamID offset : ℕ) (h : minStreamFrameSize ≤ maxSize) :
    0 < maxDataLen streamID offset maxSize := by
  have := headerLen_le streamID offset
  unfold minStreamFrameSize at h
  simp only [maxDataLen]
  split_ifs <;> omega

theorem length_le_of_le_maxDataLen {streamID offset : ℕ} (hpos : 0 < n)
    (hbuf : n ≤ maxPacketBufferSize) (h : n ≤ maxDataLen streamID offset maxSize) :
    headerLen streamID offset + varintLen n + n ≤ maxSize := by
  have htwo := varintLen_of_le hbuf
  simp only [maxDataLen] at h
  split_ifs at h with hsmall hlen
  · omega
  · omega
  · -- a remainder with a length field of one byte is at most 63
    have hone : maxSize - (headerLen streamID offset + 1) ≤ 63 := by
      unfold varintLen at hlen
      split_ifs at hlen <;> omega
    have : varintLen n = 1 := by
      unfold varintLen
      rw [if_pos (by omega)]
    omega

namespace PooledFrame

theorem headerLen_le (f : PooledFrame) : f.headerLen ≤ 17 := Quic.headerLen_le _ _

variable {f : PooledFrame} {maxSize : ℕ}

theorem length_false_le {remainingLen : ℕ} (hmin : minStreamFrameSize ≤ remainingLen)
    (h : f.length true ≤ remainingLen + varintLen remainingLen) :
    f.length false ≤ remainingLen := by
  have hhdr := f.headerLen_le
  have hbuf := f.le
  unfold minStreamFrameSize at hmin
  unfold maxPacketBufferSize at hbuf
  simp only [length, if_true, Bool.false_eq_true, if_false] at h ⊢
  by_cases hdata : f.frame.data.length ≤ 63
  · omega
  by_cases hrem : remainingLen ≤ 16383
  · have hlen : varintLen f.frame.data.length = 2 := by
      unfold varintLen
      rw [if_neg hdata, if_pos (by omega)]
    have : varintLen remainingLen ≤ 2 := by
      unfold varintLen
      split_ifs <;> omega
    omega
  · omega

theorem maxDataLen_le (hmin : minStreamFrameSize ≤ maxSize) (h : maxSize < f.length true) :
    maxDataLen f.frame.streamID f.frame.offset maxSize ≤ f.frame.data.length := by
  by_contra hlt
  have hhdr := f.headerLen_le
  unfold minStreamFrameSize at hmin
  simp only [length, if_true] at h
  by_cases hpos : 0 < f.frame.data.length
  · have := length_le_of_le_maxDataLen hpos f.le (by omega :
      f.frame.data.length ≤ maxDataLen f.frame.streamID f.frame.offset maxSize)
    simp only [headerLen] at h
    omega
  · have := varintLen_le f.frame.data.length
    omega

theorem length_le_of_le_maxDataLen (hmin : minStreamFrameSize ≤ maxSize)
    (h : f.frame.data.length ≤ maxDataLen f.frame.streamID f.frame.offset maxSize) :
    f.length true ≤ maxSize := by
  simp only [length, if_true]
  by_cases hpos : 0 < f.frame.data.length
  · exact Quic.length_le_of_le_maxDataLen hpos f.le h
  · have := f.headerLen_le
    have := varintLen_le f.frame.data.length
    unfold minStreamFrameSize at hmin
    omega

end PooledFrame

/-! ### What a pop can do -/

theorem pushToEncode_short (h : e.encQueue.length + frame.data.length < srcBlockSize) :
    e.pushToEncode frame = .ok ({ e with
      encQueue := e.encQueue ++ frame.data
      startOffset := if e.encQueue.length = 0 then frame.offset else e.endOffset }, none) := by
  simp only [FecEncoder.pushToEncode, List.length_append]
  rw [if_neg (by omega)]

theorem pushToEncode_full (h : srcBlockSize ≤ e.encQueue.length + frame.data.length) :
    ∃ fec b, e.pushToEncode frame = .ok (fec, b) ∧ fec.transmissionQueue ≠ [] ∧
      fec.encQueue = (e.encQueue ++ frame.data).drop srcBlockSize := by
  simp only [FecEncoder.pushToEncode, List.length_append, if_pos h, pushToTransmissionQueue_eq,
    Except.ok.injEq, Prod.mk.injEq]
  exact ⟨_, _, ⟨rfl, rfl⟩, by simp [fecFrames, numRedSymbols], rfl⟩

theorem pushToEncode_ok (e : FecEncoder) (frame : StreamFrame) :
    ∃ fec b, e.pushToEncode frame = .ok (fec, b) := by
  by_cases h : e.encQueue.length + frame.data.length < srcBlockSize
  · exact ⟨_, _, pushToEncode_short h⟩
  · obtain ⟨fec, b, hpush, -⟩ := pushToEncode_full (Nat.le_of_not_lt h)
    exact ⟨fec, b, hpush⟩

namespace SendStream

/- New data are next, without a frame that buffers them. -/
def Unbuffered (s : SendStream) : Prop :=
  ¬s.stopped ∧ s.retransmissionQueue = [] ∧ s.fec.transmissionQueue = [] ∧ s.nextFrame = none

instance (s : SendStream) : Decidable s.Unbuffered :=
  inferInstanceAs (Decidable (_ ∧ _ ∧ _ ∧ _))

/- More new data than the buffer of a frame holds would be taken at once. -/
def Overflows (s : SendStream) (conn : FlowController) (maxBytes : ℕ) : Prop :=
  s.Unbuffered ∧ maxPacketBufferSize < min (min (maxDataLen s.streamID s.writeOffset maxBytes)
    (s.sendWindowSize conn)) s.dataForWriting.length

instance (s : SendStream) (conn : FlowController) (maxBytes : ℕ) :
    Decidable (s.Overflows conn maxBytes) :=
  inferInstanceAs (Decidable (_ ∧ _))

def fecNext (s : SendStream) (maxBytes : ℕ) : Option FecFrame :=
  if s.stopped ∨ s.retransmissionQueue = [] then
    s.fec.transmissionQueue.head?.filter (·.symbolSize ≤ maxBytes)
  else none

/- A pop would take all of the new data, so that the stream reports no more of them. -/
def TakesAll (s : SendStream) (conn : FlowController) (maxBytes : ℕ) : Prop :=
  match s.nextFrame with
  | some f => s.dataForWriting = [] ∧ f.frame.data.length ≤
      min (s.sendWindowSize conn) (maxDataLen f.frame.streamID f.frame.offset maxBytes)
  | none => s.finishedWriting = false ∧ s.dataForWriting.length ≤
      min (maxDataLen s.streamID s.writeOffset maxBytes) (s.sendWindowSize conn)

instance (s : SendStream) (conn : FlowController) (maxBytes : ℕ) :
    Decidable (s.TakesAll conn maxBytes) :=
  match h : s.nextFrame with
  | some f => decidable_of_iff (s.dataForWriting = [] ∧ f.frame.data.length ≤
      min (s.sendWindowSize conn) (maxDataLen f.frame.streamID f.frame.offset maxBytes))
      (by rw [TakesAll, h])
  | none => decidable_of_iff (s.finishedWriting = false ∧ s.dataForWriting.length ≤
      min (maxDataLen s.streamID s.writeOffset maxBytes) (s.sendWindowSize conn))
      (by rw [TakesAll, h])

def pending (s : SendStream) : ℕ :=
  s.nextFrame.elim 0 (·.frame.data.length) + s.dataForWriting.length

structure SameFlags (s s' : SendStream) : Prop where
  streamID : s'.streamID = s.streamID
  canceledWrite : s'.canceledWrite = s.canceledWrite
  closedForShutdown : s'.closedForShutdown = s.closedForShutdown
  closeForShutdownErr : s'.closeForShutdownErr = s.closeForShutdownErr

/- The effects of `popStreamFrame`: its result and what the framer relies on. -/
inductive Pops (s : SendStream) (conn : FlowController) (maxBytes : ℕ) :
    SendStream → Option Frame → Bool → Prop
  | nothing {s' : SendStream} {more : Bool} (flags : s.SameFlags s') (fec : s'.fec = s.fec)
      (next : s.fecNext maxBytes = none)
      (last : more = false → ¬s.stopped → s.fec.transmissionQueue = []) :
      Pops s conn maxBytes s' none more
  | retransmitted {s' : SendStream} {f : PooledFrame} (flags : s.SameFlags s')
      (fec : s'.fec = s.fec) (next : s.fecNext maxBytes = none)
      (length : f.length true ≤ maxBytes) :
      Pops s conn maxBytes s' (some (.stream f true)) true
  | fec {s' : SendStream} {e : FecFrame} {more : Bool} (flags : s.SameFlags s')
      (next : s.fecNext maxBytes = some e) (enc : s'.fec.encQueue = s.fec.encQueue)
      (last : more = false → s.stopped) :
      Pops s conn maxBytes s' (some (.fec e)) more
  | new {s' : SendStream} {f : PooledFrame} {more : Bool} {b : Option Bytes}
      (flags : s.SameFlags s') (next : s.fecNext maxBytes = none)
      (live : ¬s.stopped) (retr : s.retransmissionQueue = [])
      (empty : s.fec.transmissionQueue = [])
      (push : s.fec.pushToEncode f.frame = .ok (s'.fec, b)) (length : f.length true ≤ maxBytes)
      (last : more = false → f.frame.data = [] ∨
        s.TakesAll conn maxBytes ∧ f.frame.data.length = s.pending) :
      Pops s conn maxBytes s' (some (.stream f true)) more

theorem SameFlags.refl (s : SendStream) : s.SameFlags s := ⟨rfl, rfl, rfl, rfl⟩

section
variable {s s' : SendStream} {conn : FlowController} {maxBytes sendWindow : ℕ}

structure NewFrame (s s' : SendStream) (f : PooledFrame) (maxBytes : ℕ) : Prop where
  flags : s.SameFlags s'
  fec : s'.fec = s.fec
  length : f.length true ≤ maxBytes

variable {f : PooledFrame} {more : Bool} {r : Popped}

theorem popNextFrame_spec {f' : PooledFrame} (hmin : minStreamFrameSize ≤ maxBytes)
    (h : s.popNextFrame f maxBytes sendWindow = (s', f', more)) :
    NewFrame s s' f' maxBytes ∧ (more = false → s.dataForWriting = [] ∧ f' = f ∧
      f.frame.data.length ≤
        min sendWindow (maxDataLen f.frame.streamID f.frame.offset maxBytes)) := by
  simp only [popNextFrame] at h
  split_ifs at h with hlt
  · -- the frame is split
    obtain ⟨rfl, rfl, rfl⟩ := h
    refine ⟨⟨⟨rfl, rfl, rfl, rfl⟩, rfl, ?_⟩, by simp⟩
    apply PooledFrame.length_le_of_le_maxDataLen hmin
    simp only [PooledFrame.take, List.length_take]
    omega
  · obtain ⟨rfl, rfl, rfl⟩ := h
    have hle := Nat.le_of_not_lt hlt
    refine ⟨⟨⟨rfl, rfl, rfl, rfl⟩, rfl, ?_⟩, ?_⟩
    · exact PooledFrame.length_le_of_le_maxDataLen hmin (le_trans hle (min_le_right _ _))
    · intro hmore
      exact ⟨by simpa using hmore, rfl, hle⟩

theorem popNewData_spec (hmin : minStreamFrameSize ≤ maxBytes)
    (h : s.popNewData maxBytes sendWindow = .ok (s', f, more)) :
    NewFrame s s' f maxBytes ∧ (more = false → s.finishedWriting = false ∧
      s.dataForWriting.length ≤ min (maxDataLen s.streamID s.writeOffset maxBytes) sendWindow ∧
      f.frame.data = s.dataForWriting) := by
  simp only [popNewData] at h
  split at h
  · cases h
  split at h
  swap
  · cases h
  rename_i hbuf
  by_cases hnil : s.dataForWriting.take
      (min (maxDataLen s.streamID s.writeOffset maxBytes) sendWindow) = []
  · rw [if_pos hnil] at h
    cases h
  rw [if_neg hnil] at h
  simp only [Except.ok.injEq, Prod.mk.injEq] at h
  obtain ⟨hs, hf, hmore⟩ := h
  subst hf
  refine ⟨⟨?_, ?_, ?_⟩, ?_⟩
  · rw [← hs]
    split <;> exact ⟨rfl, rfl, rfl, rfl⟩
  · rw [← hs]
    split <;> rfl
  · apply PooledFrame.length_le_of_le_maxDataLen hmin
    simp only [List.length_take]
    omega
  · intro hfalse
    rw [hfalse] at hmore
    have hdrop : s.dataForWriting.drop
        (min (maxDataLen s.streamID s.writeOffset maxBytes) sendWindow) = [] := by
      split at hmore <;> simp_all [signalWrite]
    have hle := List.drop_eq_nil_iff.mp hdrop
    refine ⟨?_, hle, List.take_of_length_le hle⟩
    simp only [Bool.or_eq_false_iff] at hmore
    exact hmore.2

theorem popNewData_error {stop : Stop} (hmin : minStreamFrameSize ≤ maxBytes)
    (hdata : s.dataForWriting ≠ []) (hwindow : 0 < sendWindow)
    (h : s.popNewData maxBytes sendWindow = .error stop) :
    maxPacketBufferSize < min (min (maxDataLen s.streamID s.writeOffset maxBytes) sendWindow)
      s.dataForWriting.length := by
  have hpos := maxDataLen_pos s.streamID s.writeOffset hmin
  have hlen := List.length_pos_iff.mpr hdata
  simp only [popNewData] at h
  rw [if_neg (by omega)] at h
  split at h
  · have hne : s.dataForWriting.take
        (min (maxDataLen s.streamID s.writeOffset maxBytes) sendWindow) ≠ [] := by
      apply List.length_pos_iff.mp
      simp only [List.length_take]
      omega
    rw [if_neg hne] at h
    cases h
  · rename_i hbuf
    simp only [List.length_take] at hbuf
    omega

theorem maybeGetRetransmission_spec (hmin : minStreamFrameSize ≤ maxBytes)
    (hq : s.retransmissionQueue ≠ []) :
    ∃ s' f, s.maybeGetRetransmission maxBytes = .ok (s', f) ∧ s.SameFlags s' ∧ s'.fec = s.fec ∧
      ∀ f' ∈ f, f'.length true ≤ maxBytes := by
  obtain ⟨f, rest, hcons⟩ := List.exists_cons_of_ne_nil hq
  simp only [maybeGetRetransmission, hcons, PooledFrame.maybeSplitOffFrame]
  by_cases hfit : f.length true ≤ maxBytes
  · rw [if_pos hfit]
    exact ⟨_, _, rfl, ⟨rfl, rfl, rfl, rfl⟩, rfl, by simpa using hfit⟩
  have hpos := maxDataLen_pos f.frame.streamID f.frame.offset hmin
  have hle := PooledFrame.maxDataLen_le hmin (Nat.lt_of_not_le hfit)
  rw [if_neg hfit, if_neg (by omega), if_neg (by omega)]
  refine ⟨_, _, rfl, ⟨rfl, rfl, rfl, rfl⟩, rfl, ?_⟩
  intro f' hf'
  obtain rfl := Option.mem_some_iff.mp hf'
  apply PooledFrame.length_le_of_le_maxDataLen hmin
  simp only [PooledFrame.take, List.length_take]
  omega

theorem fecNext_of_empty (h : s.fec.transmissionQueue = []) : s.fecNext maxBytes = none := by
  simp [fecNext, h]

theorem fecNext_of_retransmission (hs : ¬s.stopped) (h : s.retransmissionQueue ≠ []) :
    s.fecNext maxBytes = none := by
  simp [fecNext, hs, h]

theorem pops_of_popFecFrame {r : SendStream} (flags : s.SameFlags r) (hfec : r.fec = s.fec)
    (hidle : s.stopped ∨ s.retransmissionQueue = [])
    (hmore : more = false → s.stopped ∨ s.fec.transmissionQueue = []) (conn c : FlowController) :
    ∃ s' f, (match r.popFecFrame maxBytes with
        | (s', some e) => .ok (s'.signalWrite, c, some (Frame.fec e), more)
        | (s', none) => .ok (s', c, none, more) :
          Except Stop (SendStream × FlowController × Option Frame × Bool)) =
        .ok (s', c, f, more) ∧ Pops s conn maxBytes s' f more := by
  cases hq : s.fec.transmissionQueue with
  | nil =>
    simp only [popFecFrame, hfec, hq]
    exact ⟨_, _, rfl, .nothing flags hfec (fecNext_of_empty hq) (fun _ _ => hq)⟩
  | cons e rest =>
    have hstop : more = false → s.stopped := by
      intro h
      rcases hmore h with h | h
      · exact h
      · rw [hq] at h
        cases h
    by_cases hsize : e.symbolSize ≤ maxBytes
    · have hnext : s.fecNext maxBytes = some e := by
        simp [fecNext, hidle, hq, hsize]
      simp only [popFecFrame, hfec, hq, if_pos hsize]
      refine ⟨_, _, rfl, .fec ?_ hnext rfl hstop⟩
      exact ⟨flags.streamID, flags.canceledWrite, flags.closedForShutdown,
        flags.closeForShutdownErr⟩
    · have hnext : s.fecNext maxBytes = none := by
        simp only [fecNext, hq, if_pos hidle]
        simpa using hsize
      simp only [popFecFrame, hfec, hq, if_neg hsize]
      exact ⟨_, _, rfl, .nothing flags hfec hnext (fun h hs => absurd (hstop h) hs)⟩

theorem popStreamFrame_of_new (hr : s.popNewOrRetransmittedStreamFrame conn maxBytes = .ok r)
    (hf : r.frame = some f) (hretr : r.retransmission = false) (flags : s.SameFlags r.stream)
    (hfec : r.stream.fec = s.fec) (hs : ¬s.stopped) (hnone : s.retransmissionQueue = [])
    (hq : s.fec.transmissionQueue = []) (length : f.length true ≤ maxBytes)
    (last : r.hasMoreData = false → f.frame.data = [] ∨ s.TakesAll conn maxBytes ∧ f.frame.data.length = s.pending)
    :
    ∃ s' c f more, s.popStreamFrame conn maxBytes = .ok (s', c, f, more) ∧
      Pops s conn maxBytes s' f more := by
  obtain ⟨fec, b, hpush⟩ := pushToEncode_ok s.fec f.frame
  simp only [popStreamFrame, hr, hf, hretr, hfec, hpush, Bool.false_eq_true, if_false]
  refine ⟨_, _, _, _, rfl, .new ?_ (fecNext_of_empty hq) hs hnone hq hpush length last⟩
  exact ⟨flags.streamID, flags.canceledWrite, flags.closedForShutdown, flags.closeForShutdownErr⟩

theorem popStreamFrame_of_none (hr : s.popNewOrRetransmittedStreamFrame conn maxBytes = .ok r)
    (hf : r.frame = none) (hretr : r.retransmission = false) (flags : s.SameFlags r.stream)
    (hfec : r.stream.fec = s.fec) (hidle : s.stopped ∨ s.retransmissionQueue = [])
    (hmore : r.hasMoreData = false → s.stopped ∨ s.fec.transmissionQueue = []) :
    ∃ s' c f more, s.popStreamFrame conn maxBytes = .ok (s', c, f, more) ∧
      Pops s conn maxBytes s' f more := by
  obtain ⟨s', f, heq, hpops⟩ := pops_of_popFecFrame flags hfec hidle hmore conn r.conn
  refine ⟨s', r.conn, f, r.hasMoreData, ?_, hpops⟩
  simp only [popStreamFrame, hr, hf, hretr, Bool.false_eq_true, if_false]
  exact heq

theorem popNew_pops (hmin : minStreamFrameSize ≤ maxBytes) (hs : ¬s.stopped)
    (hretr : s.retransmissionQueue = []) (hq : s.fec.transmissionQueue = [])
    (hdata : ¬(s.dataForWriting = [] ∧ s.nextFrame = none))
    (hwindow : s.sendWindowSize conn ≠ 0)
    (hr : s.popNewOrRetransmittedStreamFrame conn maxBytes = s.popNew conn maxBytes) :
    (∃ stop, s.popStreamFrame conn maxBytes = .error stop ∧ s.Overflows conn maxBytes) ∨
      ∃ s' c f more, s.popStreamFrame conn maxBytes = .ok (s', c, f, more) ∧
        Pops s conn maxBytes s' f more := by
  cases hnext : s.nextFrame with
  | some f =>
    right
    rcases hpop : s.popNextFrame f maxBytes (s.sendWindowSize conn) with ⟨s', f', more⟩
    obtain ⟨hnew, hlast⟩ := popNextFrame_spec hmin hpop
    simp only [popNew, popNewStreamFrame, hnext, hpop] at hr
    refine popStreamFrame_of_new hr rfl rfl ?_ hnew.fec hs hretr hq hnew.length ?_
    · exact ⟨hnew.flags.streamID, hnew.flags.canceledWrite, hnew.flags.closedForShutdown,
        hnew.flags.closeForShutdownErr⟩
    · intro hmore
      obtain ⟨hnil, hsame, hle⟩ := hlast hmore
      right
      refine ⟨by simpa only [TakesAll, hnext] using ⟨hnil, hle⟩, ?_⟩
      simp [PooledFrame.setFin, pending, hnext, hnil, hsame]
  | none =>
    have hne : s.dataForWriting ≠ [] := fun h => hdata ⟨h, hnext⟩
    cases hpop : s.popNewData maxBytes (s.sendWindowSize conn) with
    | error stop =>
      left
      refine ⟨stop, ?_, ⟨hs, hretr, hq, hnext⟩,
        popNewData_error hmin hne (Nat.pos_of_ne_zero hwindow) hpop⟩
      simp only [popNew, popNewStreamFrame, hnext, hpop] at hr
      simp only [popStreamFrame, hr]
    | ok r =>
      right
      obtain ⟨s', f, more⟩ := r
      obtain ⟨hnew, hlast⟩ := popNewData_spec hmin hpop
      simp only [popNew, popNewStreamFrame, hnext, hpop] at hr
      refine popStreamFrame_of_new hr rfl rfl ?_ hnew.fec hs hretr hq hnew.length ?_
      · exact ⟨hnew.flags.streamID, hnew.flags.canceledWrite, hnew.flags.closedForShutdown,
          hnew.flags.closeForShutdownErr⟩
      · intro hmore
        obtain ⟨hfin, hle, hall⟩ := hlast hmore
        right
        refine ⟨by simpa only [TakesAll, hnext] using ⟨hfin, hle⟩, ?_⟩
        simp [PooledFrame.setFin, pending, hnext, hall]

theorem popStreamFrame_pops (s : SendStream) (conn : FlowController) {maxBytes : ℕ}
    (hmin : minStreamFrameSize ≤ maxBytes) :
    (∃ stop, s.popStreamFrame conn maxBytes = .error stop ∧ s.Overflows conn maxBytes) ∨
      ∃ s' c f more, s.popStreamFrame conn maxBytes = .ok (s', c, f, more) ∧
        Pops s conn maxBytes s' f more := by
  by_cases hs : s.stopped
  · right
    have hr : s.popNewOrRetransmittedStreamFrame conn maxBytes =
        .ok ⟨s, conn, none, false, false⟩ := by
      rw [popNewOrRetransmittedStreamFrame, if_pos hs]
    exact popStreamFrame_of_none hr rfl rfl (.refl s) rfl (.inl hs) (fun _ => .inl hs)
  by_cases hretr : s.retransmissionQueue = []
  swap
  · right
    obtain ⟨s', f, hget, hflags, hfec, hlen⟩ := maybeGetRetransmission_spec hmin hretr
    have hnext : s.fecNext maxBytes = none := fecNext_of_retransmission hs hretr
    have hr : s.popNewOrRetransmittedStreamFrame conn maxBytes = .ok ⟨s', conn, f, true, true⟩ := by
      rw [popNewOrRetransmittedStreamFrame, if_neg hs, if_pos hretr, hget]
    cases f with
    | none =>
      simp only [popStreamFrame, hr, if_true]
      exact ⟨_, _, _, _, rfl, .nothing hflags hfec hnext (by simp)⟩
    | some f =>
      simp only [popStreamFrame, hr, if_true]
      refine ⟨_, _, _, _, rfl, .retransmitted ?_ hfec hnext (hlen f rfl)⟩
      exact ⟨hflags.streamID, hflags.canceledWrite, hflags.closedForShutdown,
        hflags.closeForShutdownErr⟩
  by_cases hq : s.fec.transmissionQueue = []
  swap
  · right
    have hr : s.popNewOrRetransmittedStreamFrame conn maxBytes =
        .ok ⟨s, conn, none, true, false⟩ := by
      rw [popNewOrRetransmittedStreamFrame, if_neg hs, if_neg (by simpa using hretr), if_pos hq]
    exact popStreamFrame_of_none hr rfl rfl (.refl s) rfl (.inr hretr) (by simp)
  have hhead : s.popNewOrRetransmittedStreamFrame conn maxBytes =
      if s.dataForWriting = [] ∧ s.nextFrame = none then
        if s.finishedWriting ∧ ¬s.finSent then
          .ok ⟨{ s with finSent := true }, conn,
            some ⟨⟨s.streamID, s.writeOffset, [], true⟩, Nat.zero_le _⟩, false, false⟩
        else .ok ⟨s, conn, none, false, false⟩
      else if s.sendWindowSize conn = 0 then
        if s.flowController.sendWindowSize ≠ 0 ∨
            s.flowController.sendWindow = s.flowController.lastBlockedAt then
          .ok ⟨s, conn, none, true, false⟩
        else .ok ⟨{ s with flowController :=
          { s.flowController with lastBlockedAt := s.flowController.sendWindow } },
          conn, none, false, false⟩
      else s.popNew conn maxBytes := by
    rw [popNewOrRetransmittedStreamFrame, if_neg hs, if_neg (by simpa using hretr),
      if_neg (by simpa using hq)]
  by_cases hdata : s.dataForWriting = [] ∧ s.nextFrame = none
  · right
    rw [if_pos hdata] at hhead
    by_cases hfin : s.finishedWriting ∧ ¬s.finSent
    · rw [if_pos hfin] at hhead
      refine popStreamFrame_of_new hhead rfl rfl ⟨rfl, rfl, rfl, rfl⟩ rfl hs hretr hq ?_
        (fun _ => .inl rfl)
      exact PooledFrame.length_le_of_le_maxDataLen hmin (Nat.zero_le _)
    · rw [if_neg hfin] at hhead
      exact popStreamFrame_of_none hhead rfl rfl (.refl s) rfl (.inr hretr) (fun _ => .inr hq)
  rw [if_neg hdata] at hhead
  by_cases hwindow : s.sendWindowSize conn = 0
  · right
    rw [if_pos hwindow] at hhead
    split at hhead
    · exact popStreamFrame_of_none hhead rfl rfl (.refl s) rfl (.inr hretr) (fun _ => .inr hq)
    · exact popStreamFrame_of_none hhead rfl rfl ⟨rfl, rfl, rfl, rfl⟩ rfl (.inr hretr)
        (fun _ => .inr hq)
  rw [if_neg hwindow] at hhead
  exact popNew_pops hmin hs hretr hq hdata hwindow hhead

theorem popStreamFrame_of_overflows (hmin : minStreamFrameSize ≤ maxBytes)
    (h : s.Overflows conn maxBytes) : s.popStreamFrame conn maxBytes = .error .panic := by
  obtain ⟨⟨hs, hretr, hq, hnext⟩, hlt⟩ := h
  have hpos := maxDataLen_pos s.streamID s.writeOffset hmin
  have hdata : ¬(s.dataForWriting = [] ∧ s.nextFrame = none) := by
    rintro ⟨hnil, -⟩
    simp [hnil] at hlt
  have hwindow : s.sendWindowSize conn ≠ 0 := by
    intro h0
    simp [h0] at hlt
  have hpop : s.popNewData maxBytes (s.sendWindowSize conn) = .error .panic := by
    simp only [popNewData, List.length_take]
    rw [if_neg (by omega), dif_neg (by omega)]
  have hr : s.popNewOrRetransmittedStreamFrame conn maxBytes = .error .panic := by
    rw [popNewOrRetransmittedStreamFrame, if_neg hs, if_neg (by simpa using hretr),
      if_neg (by simpa using hq), if_neg hdata, if_neg hwindow]
    simp only [popNew, popNewStreamFrame, hnext, hpop]
  simp only [popStreamFrame, hr]

end

end SendStream

end Mp2bs.Quic
