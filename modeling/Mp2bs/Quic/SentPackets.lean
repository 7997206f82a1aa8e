import Mp2bs.Go
import Mp2bs.Lib.Machine
import Mp2bs.Lib.Loop

/-!
# The packets a connection has sent

`sentPacketHandler` and `sentPacketHistory` (`internal/ackhandler/sent_packet_handler.go`, whose lines are
given alone, and `sent_packet_history.go`). A time is an integer of nanoseconds and the zero time is `none`;
the packet list and the map of `sentPacketHistory` are one list. The RTT estimate is an argument of the
operations, and so is the alarm of `setLossDetectionTimer` when no loss time is set (the PTO alarm, or none).
The calls of `OnLost` and of the congestion controller's `OnPacketLost` are recorded.
-/

namespace Mp2bs.Quic.Ackhandler
open Mp2bs.Lib

-- internal/protocol/params.go:173, in nanoseconds
def timerGranularity : ℕ := 1000000
-- sent_packet_handler.go:22
def packetThreshold : ℤ := 3
-- internal/protocol/packet_number.go
def invalidPacketNumber : ℤ := -1

inductive EncryptionLevel where
  | initial
  | handshake
  | zeroRTT
  | oneRTT
  deriving Repr, DecidableEq

def EncryptionLevel.string : EncryptionLevel → String
  | .initial => "Initial"
  | .handshake => "Handshake"
  | .zeroRTT => "0-RTT"
  | .oneRTT => "1-RTT"

inductive Failure where
  | panic (text : String)
  | error (text : String)
  deriving Repr, DecidableEq

def nilSpace : Failure := .panic "invalid memory address or nil pointer dereference"

/-- `Packet` (`interfaces.go:10-24`); `LargestAcked` is left out. -/
structure Packet (F : Type) where
  packetNumber : ℤ
  frames : List F
  length : ℕ
  encryptionLevel : EncryptionLevel
  sendTime : ℤ
  isPathMTUProbePacket : Bool
  includedInBytesInFlight : Bool
  declaredLost : Bool
  skippedPacket : Bool
  deriving Repr, DecidableEq

/-- `packetNumberSpace` (29-38) with the fields of its `history`. -/
structure PacketNumberSpace (F : Type) where
  history : List (Packet F)
  highestSent : ℤ
  lossTime : Option ℤ
  largestAcked : ℤ
  largestSent : ℤ
  deriving Repr, DecidableEq

/-- A call `OnPacketLost(number, lostBytes, priorInFlight)` of the congestion controller. -/
structure LossReport where
  number : ℤ
  lostBytes : ℕ
  priorInFlight : ℕ
  deriving Repr, DecidableEq

structure SentPacketHandler (F : Type) where
  initialPackets : Option (PacketNumberSpace F)
  handshakePackets : Option (PacketNumberSpace F)
  appDataPackets : PacketNumberSpace F
  isClient : Bool
  peerCompletedAddressValidation : Bool
  bytesInFlight : ℕ
  alarm : Option ℤ
  retransmitted : List F
  reported : List LossReport
  deriving Repr, DecidableEq

/-- `maxRTT` and `lossDelay` of `detectLostPackets` (558-562). -/
structure RttEstimate where
  lossDelay : ℕ
  maxRTT : ℕ
  granularity : timerGranularity ≤ lossDelay

variable {F σ : Type}

/-- `newPacketNumberSpace` (40-53). -/
def newPacketNumberSpace : PacketNumberSpace F where
  history := []
  highestSent := invalidPacketNumber
  lossTime := none
  largestAcked := invalidPacketNumber
  largestSent := invalidPacketNumber

namespace SentPacketHandler

/-- `newSentPacketHandler` (104-133). -/
def newSentPacketHandler (isClient : Bool) : SentPacketHandler F where
  initialPackets := some newPacketNumberSpace
  handshakePackets := some newPacketNumberSpace
  appDataPackets := newPacketNumberSpace
  isClient := isClient
  peerCompletedAddressValidation := !isClient
  bytesInFlight := 0
  alarm := none
  retransmitted := []
  reported := []

/-- `getPacketNumberSpace` (243-254); `none` is the nil pointer of a dropped space. -/
def getPacketNumberSpace (h : SentPacketHandler F) : EncryptionLevel → Option (PacketNumberSpace F)
  | .initial => h.initialPackets
  | .handshake => h.handshakePackets
  | .zeroRTT => some h.appDataPackets
  | .oneRTT => some h.appDataPackets

/-- The handler after the space of a level has been written through its pointer. -/
def setPacketNumberSpace (h : SentPacketHandler F) (encLevel : EncryptionLevel) (sp : PacketNumberSpace F) :
    SentPacketHandler F :=
  match encLevel with
  | .initial => { h with initialPackets := some sp }
  | .handshake => { h with handshakePackets := some sp }
  | .zeroRTT => { h with appDataPackets := sp }
  | .oneRTT => { h with appDataPackets := sp }

end SentPacketHandler

/-- `sentPacketHistory.Iterate` (`sent_packet_history.go:50-62`); the callback writes through the pointer it
is given. -/
def iterate (cb : Packet F → σ → Except Failure (Bool × Packet F × σ)) :
    List (Packet F) → σ → Except Failure (List (Packet F) × σ)
  | [], st => .ok ([], st)
  | p :: ps, st => do
    let (cont, p, st) ← cb p st
    if cont then
      let (ps, st) ← iterate cb ps st
      .ok (p :: ps, st)
    else .ok (p :: ps, st)

/-- `removeFromBytesInFlight` (145-153). -/
def removeFromBytesInFlight (p : Packet F) (bytesInFlight : ℕ) : Except Failure (Packet F × ℕ) :=
  if p.includedInBytesInFlight then
    if bytesInFlight < p.length then .error (.panic "negative bytes_in_flight")
    else .ok ({ p with includedInBytesInFlight := false }, bytesInFlight - p.length)
  else .ok (p, bytesInFlight)

/-- `queueFramesForRetransmission` (814-822). -/
def queueFramesForRetransmission (p : Packet F) (retransmitted : List F) : Except Failure (Packet F × List F) :=
  if p.frames.isEmpty then .error (.panic "no frames")
  else .ok ({ p with frames := [] }, retransmitted ++ p.frames)

/-! ### Detection of lost packets -/

/-- What the callback of `detectLostPackets` writes besides the packet. -/
structure Scan (F : Type) where
  lossTime : Option ℤ
  bytesInFlight : ℕ
  retransmitted : List F
  reported : List LossReport
  lostPackets : List (Packet F)

-- lines 566-573
def lostSendTime (fecEnable : Bool) (rtt : RttEstimate) (now : ℤ) : ℤ :=
  if fecEnable then now - rtt.lossDelay else now - rtt.lossDelay - rtt.maxRTT

def report (priorInFlight : ℕ) (p : Packet F) : LossReport := ⟨p.packetNumber, p.length, priorInFlight⟩

/-- A packet that is lost: lines 617-630. -/
def declareLost (fecEnable : Bool) (priorInFlight : ℕ) (p : Packet F) (st : Scan F) :
    Except Failure (Packet F × Scan F) := do
  let (p, bytesInFlight) ← removeFromBytesInFlight { p with declaredLost := true } st.bytesInFlight
  let (p, retransmitted) ← queueFramesForRetransmission p st.retransmitted
  let st := { st with bytesInFlight := bytesInFlight, retransmitted := retransmitted }
  if fecEnable then .ok (p, { st with lostPackets := st.lostPackets ++ [p] })
  else if p.isPathMTUProbePacket then .ok (p, st)
  else .ok (p, { st with reported := st.reported ++ [report priorInFlight p] })

-- lines 590-607
def packetLost (threshold largestAcked : ℤ) (p : Packet F) : Bool :=
  decide (p.sendTime < threshold) || decide (p.packetNumber + packetThreshold ≤ largestAcked)

/-- The callback of `detectLostPackets` (581-632). -/
def detect (fecEnable : Bool) (rtt : RttEstimate) (threshold largestAcked : ℤ) (priorInFlight : ℕ) (p : Packet F)
    (st : Scan F) : Except Failure (Bool × Packet F × Scan F) :=
  if largestAcked < p.packetNumber then .ok (false, p, st)
  else if p.declaredLost || p.skippedPacket then .ok (true, p, st)
  else if packetLost threshold largestAcked p then do
    let (p, st) ← declareLost fecEnable priorInFlight p st
    .ok (true, p, st)
  else .ok (true, p, { st with lossTime := st.lossTime <|> some (p.sendTime + rtt.lossDelay) })

/-- The reports after the scan with FEC (635-648). -/
def fecReports (fecEnable : Bool) (priorInFlight : ℕ) (lostPackets : List (Packet F)) : List LossReport :=
  if fecEnable && decide (2 < lostPackets.length) then
    (lostPackets.filter fun p => p.declaredLost && !p.isPathMTUProbePacket).map (report priorInFlight)
  else []

namespace SentPacketHandler

/-- The handler after the scan of a space (635-650). -/
def scannedSpace (fecEnable : Bool) (encLevel : EncryptionLevel) (sp : PacketNumberSpace F) (history : List (Packet F))
    (st : Scan F) (h : SentPacketHandler F) : SentPacketHandler F :=
  { h.setPacketNumberSpace encLevel { sp with history := history, lossTime := st.lossTime } with
    bytesInFlight := st.bytesInFlight
    retransmitted := st.retransmitted
    reported := st.reported ++ fecReports fecEnable h.bytesInFlight st.lostPackets }

/-- `detectLostPackets` (554-651). -/
def detectLostPackets (fecEnable : Bool) (rtt : RttEstimate) (now : ℤ) (encLevel : EncryptionLevel)
    (h : SentPacketHandler F) : Except Failure (SentPacketHandler F) :=
  match h.getPacketNumberSpace encLevel with
  | none => .error nilSpace
  | some sp => do
    let (history, st) ← iterate
      (detect fecEnable rtt (lostSendTime fecEnable rtt now) sp.largestAcked h.bytesInFlight) sp.history
      ⟨none, h.bytesInFlight, h.retransmitted, h.reported, []⟩
    .ok (h.scannedSpace fecEnable encLevel sp history st)

/-- `lossTime.IsZero() || (!t.IsZero() && t.Before(lossTime))`: the loss time of a further space is taken. -/
def takeEarlier (best : Option ℤ × EncryptionLevel) (lossTime : Option ℤ) (encLevel : EncryptionLevel) :
    Option ℤ × EncryptionLevel :=
  match lossTime, best.1 with
  | _, none => (lossTime, encLevel)
  | none, some _ => best
  | some s, some t => if s < t then (lossTime, encLevel) else best

/-- `getLossTimeAndSpace` (429-446). -/
def getLossTimeAndSpace (h : SentPacketHandler F) : Option ℤ × EncryptionLevel :=
  let first := (h.initialPackets.bind PacketNumberSpace.lossTime, EncryptionLevel.initial)
  let second := match h.handshakePackets with
    | none => first
    | some sp => takeEarlier first sp.lossTime .handshake
  takeEarlier second h.appDataPackets.lossTime .oneRTT

/-- `setLossDetectionTimer` (500-552). -/
def setLossDetectionTimer (pto : SentPacketHandler F → Option ℤ) (h : SentPacketHandler F) : SentPacketHandler F :=
  match h.getLossTimeAndSpace.1 with
  | some t => { h with alarm := some t }
  | none => { h with alarm := pto h }

/-- `OnLossDetectionTimeout` (653-715); in PTO mode it writes nothing of the model. -/
def onLossDetectionTimeout (pto : SentPacketHandler F → Option ℤ) (fecEnable : Bool) (rtt : RttEstimate) (now : ℤ)
    (h : SentPacketHandler F) : Except Failure (SentPacketHandler F) :=
  match h.getLossTimeAndSpace with
  | (some _, encLevel) => do
    let h ← h.detectLostPackets fecEnable rtt now encLevel
    .ok (h.setLossDetectionTimer pto)
  | (none, _) =>
    if h.bytesInFlight = 0 && !h.peerCompletedAddressValidation && h.initialPackets.isNone &&
        h.handshakePackets.isNone then
      .error (.error
        "sentPacketHandler BUG: PTO fired, but bytes_in_flight is 0 and Initial and Handshake already dropped")
    else .ok (h.setLossDetectionTimer pto)

end SentPacketHandler

/-! ### The other operations -/

/-- The numbers between the highest one sent and that of `p` (`sent_packet_history.go:32-40`). -/
def skippedPackets (highestSent : ℤ) (p : Packet F) : List (Packet F) :=
  (List.range (p.packetNumber - highestSent - 1).toNat).map fun i : ℕ =>
    { packetNumber := highestSent + 1 + (i : ℤ)
      frames := []
      length := 0
      encryptionLevel := p.encryptionLevel
      sendTime := p.sendTime
      isPathMTUProbePacket := false
      includedInBytesInFlight := false
      declaredLost := false
      skippedPacket := true }

/-- `sentPacketHistory.SentPacket` (`sent_packet_history.go:27-47`). -/
def PacketNumberSpace.sentPacket (p : Packet F) (isAckEliciting : Bool) (sp : PacketNumberSpace F) :
    Except Failure (PacketNumberSpace F) :=
  if p.packetNumber ≤ sp.highestSent then .error (.panic "non-sequential packet number use")
  else .ok { sp with
    history := sp.history ++ skippedPackets sp.highestSent p ++ if isAckEliciting then [p] else []
    highestSent := p.packetNumber }

/-- `sentPacketHistory.Remove` (`sent_packet_history.go:80-88`). -/
def remove (pn : ℤ) (history : List (Packet F)) : Except Failure (List (Packet F)) :=
  if history.any fun p => decide (p.packetNumber = pn) then
    .ok (history.eraseP fun p => decide (p.packetNumber = pn))
  else .error (.error ("packet " ++ toString pn ++ " not found in sent packet history"))

/-- `sentPacketHistory.DeleteOldPackets` (`sent_packet_history.go:94-110`), with `limit = now - maxAge`. -/
def deleteOldPackets (limit : ℤ) : List (Packet F) → List (Packet F)
  | [] => []
  | p :: ps =>
    if limit < p.sendTime then p :: ps
    else if !p.skippedPacket && !p.declaredLost then p :: deleteOldPackets limit ps
    else deleteOldPackets limit ps

/-- `QueueProbePacket` on the first outstanding packet that is no MTU probe (800-812,
`sent_packet_history.go:65-73`); `none` if there is none. -/
def queueProbe : List (Packet F) → ℕ → List F → Except Failure (Option (List (Packet F) × ℕ × List F))
  | [], _, _ => .ok none
  | p :: ps, bytesInFlight, retransmitted =>
    if !p.declaredLost && !p.skippedPacket && !p.isPathMTUProbePacket then do
      let (p, retransmitted) ← queueFramesForRetransmission p retransmitted
      let (p, bytesInFlight) ← removeFromBytesInFlight p bytesInFlight
      .ok (some ({ p with declaredLost := true } :: ps, bytesInFlight, retransmitted))
    else do
      let r ← queueProbe ps bytesInFlight retransmitted
      .ok (r.map fun q => (p :: q.1, q.2))

/-- Rejected 0-RTT packets at the front of the history (181-188). -/
def dropZeroRTT : List (Packet F) → ℕ → Except Failure (List (Packet F) × ℕ)
  | [], bytesInFlight => .ok ([], bytesInFlight)
  | p :: ps, bytesInFlight =>
    if p.encryptionLevel ≠ .zeroRTT then .ok (p :: ps, bytesInFlight)
    else do
      let (_, bytesInFlight) ← removeFromBytesInFlight p bytesInFlight
      dropZeroRTT ps bytesInFlight

structure AckRange where
  smallest : ℤ
  largest : ℤ
  deriving Repr, DecidableEq

/-- The advance of `ackRangeIndex`, over the ranges in ascending order (376-381). -/
def laterRange (pn : ℤ) : List AckRange → List AckRange
  | [] => []
  | [r] => [r]
  | r :: r' :: rs => if r.largest < pn then laterRange pn (r' :: rs) else r :: r' :: rs

/-- The callback of `detectAndRemoveAckedPackets` (366-399); the state is the rest of
the ranges and the packets acknowledged so far. -/
def acknowledge (encLevel : EncryptionLevel) (lowestAcked largestAcked : ℤ) (hasMissingRanges : Bool) (p : Packet F)
    (st : List AckRange × List (Packet F)) : Except Failure (Bool × Packet F × List AckRange × List (Packet F)) :=
  if p.packetNumber < lowestAcked then .ok (true, p, st)
  else if largestAcked < p.packetNumber then .ok (false, p, st)
  else
    let ranges := if hasMissingRanges then laterRange p.packetNumber st.1 else st.1
    match ranges with
    | [] => .error (.panic "index out of range")
    | r :: _ =>
      if hasMissingRanges && decide (p.packetNumber < r.smallest) then .ok (true, p, ranges, st.2)
      else if hasMissingRanges && decide (r.largest < p.packetNumber) then
        .error (.error ("BUG: ackhandler would have acked wrong packet " ++ toString p.packetNumber ++
          ", while evaluating range " ++ toString r.smallest ++ " -> " ++ toString r.largest))
      else if p.skippedPacket then
        .error (.error ("received an ACK for skipped packet number: " ++ toString p.packetNumber ++
          " (" ++ encLevel.string ++ ")"))
      else .ok (true, p, ranges, st.2 ++ [p])

/-- `detectAndRemoveAckedPackets` (360-427), for an ACK frame that has the ranges
`ranges`, the largest first. -/
def detectAndRemoveAckedPackets (encLevel : EncryptionLevel) (ranges : List AckRange) (lowestAcked largestAcked : ℤ)
    (history : List (Packet F)) : Except Failure (List (Packet F) × List (Packet F)) := do
  let (_, _, ackedPackets) ← iterate
    (acknowledge encLevel lowestAcked largestAcked (decide (1 < ranges.length))) history (ranges.reverse, [])
  let history ← ackedPackets.foldlM (fun history p => remove p.packetNumber history) history
  .ok (ackedPackets, history)

-- lines 327-335
def removeAcked (ackedPackets : List (Packet F)) (bytesInFlight : ℕ) : Except Failure ℕ :=
  ackedPackets.foldlM (fun bytesInFlight p => do
    let r ← removeFromBytesInFlight p bytesInFlight
    .ok r.2) bytesInFlight

namespace SentPacketHandler
variable (pto : SentPacketHandler F → Option ℤ) (fecEnable : Bool)

/-- `dropPackets` (155-199). -/
def dropPackets (encLevel : EncryptionLevel) (h : SentPacketHandler F) : Except Failure (SentPacketHandler F) :=
  let clear (sp : PacketNumberSpace F) := iterate (fun p bytesInFlight => do
    let (p, bytesInFlight) ← removeFromBytesInFlight p bytesInFlight
    .ok (true, p, bytesInFlight)) sp.history h.bytesInFlight
  match encLevel with
  | .initial =>
    match h.initialPackets with
    | none => .error nilSpace
    | some sp => do
      let (_, bytesInFlight) ← clear sp
      .ok (setLossDetectionTimer pto { h with initialPackets := none, bytesInFlight := bytesInFlight })
  | .handshake =>
    match h.handshakePackets with
    | none => .error nilSpace
    | some sp => do
      let (_, bytesInFlight) ← clear sp
      .ok (setLossDetectionTimer pto { h with
        handshakePackets := none
        bytesInFlight := bytesInFlight
        peerCompletedAddressValidation := h.isClient || h.peerCompletedAddressValidation })
  | .zeroRTT => do
    let (history, bytesInFlight) ← dropZeroRTT h.appDataPackets.history h.bytesInFlight
    .ok (setLossDetectionTimer pto { h with
      appDataPackets := { h.appDataPackets with history := history }
      bytesInFlight := bytesInFlight })
  | .oneRTT => .error (.panic ("Cannot drop keys for encryption level " ++ EncryptionLevel.oneRTT.string))

/-- A client drops its Initial packets with the first Handshake packet (230-232). -/
def dropInitial (p : Packet F) (h : SentPacketHandler F) : Except Failure (SentPacketHandler F) :=
  if h.isClient && decide (p.encryptionLevel = .handshake) && h.initialPackets.isSome then h.dropPackets pto .initial
  else .ok h

-- lines 268-275
def recordSent (p : Packet F) (isAckEliciting : Bool) (sp : PacketNumberSpace F) (h : SentPacketHandler F) :
    SentPacketHandler F :=
  { h.setPacketNumberSpace p.encryptionLevel sp with
    bytesInFlight := if isAckEliciting then h.bytesInFlight + p.length else h.bytesInFlight }

/-- `SentPacket` and `sentPacketImpl` (227-241, 256-279). -/
def sentPacket (p : Packet F) (h : SentPacketHandler F) : Except Failure (SentPacketHandler F) := do
  let h ← h.dropInitial pto p
  match h.getPacketNumberSpace p.encryptionLevel with
  | none => .error nilSpace
  | some sp =>
    let isAckEliciting := !p.frames.isEmpty
    let p := { p with includedInBytesInFlight := isAckEliciting || p.includedInBytesInFlight }
    let sp ← { sp with largestSent := p.packetNumber }.sentPacket p isAckEliciting
    let h := h.recordSent p isAckEliciting sp
    .ok (if isAckEliciting || !h.peerCompletedAddressValidation then h.setLossDetectionTimer pto else h)

/-- `QueueProbePacket` (800-812). -/
def queueProbePacket (encLevel : EncryptionLevel) (h : SentPacketHandler F) :
    Except Failure (Bool × SentPacketHandler F) :=
  match h.getPacketNumberSpace encLevel with
  | none => .error nilSpace
  | some sp => do
    let r ← queueProbe sp.history h.bytesInFlight h.retransmitted
    match r with
    | none => .ok (false, h)
    | some (history, bytesInFlight, retransmitted) =>
      .ok (true, { h.setPacketNumberSpace encLevel { sp with history := history } with
        bytesInFlight := bytesInFlight
        retransmitted := retransmitted })

-- lines 294-302
def completeValidation (encLevel : EncryptionLevel) (h : SentPacketHandler F) : SentPacketHandler F :=
  if h.isClient && !h.peerCompletedAddressValidation &&
      (decide (encLevel = .handshake) || decide (encLevel = .oneRTT)) then
    setLossDetectionTimer pto { h with peerCompletedAddressValidation := true }
  else h

/-- The end of `ReceivedAck` (324-352), with `limit = rcvTime - maxAge`. -/
def finishAck (rtt : RttEstimate) (encLevel : EncryptionLevel) (rcvTime limit : ℤ) (ackedPackets : List (Packet F))
    (h : SentPacketHandler F) : Except Failure (SentPacketHandler F) := do
  let h ← h.detectLostPackets fecEnable rtt rcvTime encLevel
  let bytesInFlight ← removeAcked ackedPackets h.bytesInFlight
  match h.getPacketNumberSpace encLevel with
  | none => .error nilSpace
  | some sp =>
    .ok (setLossDetectionTimer pto
      { h.setPacketNumberSpace encLevel { sp with history := deleteOldPackets limit sp.history } with
        bytesInFlight := bytesInFlight })

/-- `ReceivedAck` (281-353). -/
def receivedAck (rtt : RttEstimate) (ranges : List AckRange) (encLevel : EncryptionLevel) (rcvTime : ℤ) (maxAge : ℕ)
    (h : SentPacketHandler F) : Except Failure (SentPacketHandler F) :=
  match h.getPacketNumberSpace encLevel, ranges.head?, ranges.getLast? with
  | none, _, _ => .error nilSpace
  | some sp, some top, some bottom =>
    if sp.largestSent < top.largest then .error (.error "received ACK for an unsent packet")
    else do
      let sp := { sp with largestAcked := max sp.largestAcked top.largest }
      let h := (h.setPacketNumberSpace encLevel sp).completeValidation pto encLevel
      let (ackedPackets, history) ← detectAndRemoveAckedPackets encLevel ranges bottom.smallest top.largest sp.history
      if ackedPackets.isEmpty then .ok h
      else
        (h.setPacketNumberSpace encLevel { sp with history := history }).finishAck pto fecEnable rtt encLevel rcvTime
          (rcvTime - maxAge) ackedPackets
  | some _, _, _ => .error (.panic "index out of range")

end SentPacketHandler

/-! ### One scan of the history -/

def Packet.outstanding (p : Packet F) : Bool := !p.declaredLost && !p.skippedPacket

def Packet.bytes (p : Packet F) : ℕ := if p.includedInBytesInFlight then p.length else 0

def inFlight (ps : List (Packet F)) : ℕ := (ps.map Packet.bytes).sum

def Packet.asLost (p : Packet F) : Packet F :=
  { p with frames := [], includedInBytesInFlight := false, declaredLost := true }

/-- The packets the scan looks at: it stops at the first number above the largest acknowledged one. -/
def examined (largestAcked : ℤ) (ps : List (Packet F)) : List (Packet F) :=
  ps.takeWhile fun p => decide (p.packetNumber ≤ largestAcked)

/-- The packets that the scan looks at and that neither threshold decides. -/
def undecided (threshold largestAcked : ℤ) (ps : List (Packet F)) : List (Packet F) :=
  (examined largestAcked ps).filter fun p => p.outstanding && !packetLost threshold largestAcked p

/-- The loss time that the first of the undecided packets gives. -/
def firstLossTime (rtt : RttEstimate) (ps : List (Packet F)) : Option ℤ :=
  ps.head?.map fun p => p.sendTime + (rtt.lossDelay : ℤ)

/-- The history after the scan. -/
def scanned (threshold largestAcked : ℤ) : List (Packet F) → List (Packet F)
  | [] => []
  | p :: ps =>
    if largestAcked < p.packetNumber then p :: ps
    else (if p.outstanding && packetLost threshold largestAcked p then p.asLost else p) ::
      scanned threshold largestAcked ps

theorem inFlight_cons (p : Packet F) (ps : List (Packet F)) : inFlight (p :: ps) = p.bytes + inFlight ps := rfl

theorem Packet.bytes_asLost (p : Packet F) : p.asLost.bytes = 0 := rfl

theorem removeFromBytesInFlight_ok (p : Packet F) {bytesInFlight : ℕ} (hb : p.bytes ≤ bytesInFlight) :
    removeFromBytesInFlight p bytesInFlight =
      .ok ({ p with includedInBytesInFlight := false }, bytesInFlight - p.bytes) := by
  unfold removeFromBytesInFlight Packet.bytes at *
  by_cases hin : p.includedInBytesInFlight = true
  · rw [if_pos hin] at hb
    rw [if_pos hin, if_neg (by omega), if_pos hin]
  · rw [if_neg hin, if_neg hin, Nat.sub_zero]
    have hp : p = { p with includedInBytesInFlight := false } := by
      cases p
      simp_all
    rw [← hp]

variable {p p' : Packet F} {ps qs acked : List (Packet F)} {b b' : ℕ} {encLevel : EncryptionLevel}
  {lowest largest : ℤ} {missing : Bool} {st st' : List AckRange × List (Packet F)}

theorem declareLost_ok (fecEnable : Bool) (priorInFlight : ℕ) {st : Scan F} (hf : p.frames ≠ [])
    (hb : p.bytes ≤ st.bytesInFlight) :
    ∃ st', declareLost fecEnable priorInFlight p st = .ok (p.asLost, st') ∧ st'.lossTime = st.lossTime ∧
      st'.bytesInFlight + p.bytes = st.bytesInFlight := by
  have hremove : removeFromBytesInFlight { p with declaredLost := true } st.bytesInFlight =
      .ok ({ p with declaredLost := true, includedInBytesInFlight := false }, st.bytesInFlight - p.bytes) :=
    removeFromBytesInFlight_ok _ hb
  have hframes : p.frames.isEmpty = false := by
    cases hcases : p.frames with
    | nil => exact absurd hcases hf
    | cons f fs => rfl
  have hbytes : st.bytesInFlight - p.bytes + p.bytes = st.bytesInFlight := Nat.sub_add_cancel hb
  unfold declareLost
  rw [hremove]
  simp only [queueFramesForRetransmission, hframes, bind, Except.bind, Bool.false_eq_true, if_false]
  split
  next => exact ⟨_, rfl, rfl, hbytes⟩
  next =>
    split
    next => exact ⟨_, rfl, rfl, hbytes⟩
    next => exact ⟨_, rfl, rfl, hbytes⟩

theorem iterate_detect (fecEnable : Bool) (rtt : RttEstimate) (threshold largestAcked : ℤ) (priorInFlight : ℕ)
    (ps : List (Packet F)) (st : Scan F) (hb : inFlight ps ≤ st.bytesInFlight)
    (hf : ∀ p ∈ ps, p.outstanding = true → p.frames ≠ []) :
    ∃ st', iterate (detect fecEnable rtt threshold largestAcked priorInFlight) ps st =
        .ok (scanned threshold largestAcked ps, st') ∧
      st'.lossTime = (st.lossTime <|> firstLossTime rtt (undecided threshold largestAcked ps)) ∧
      st'.bytesInFlight + inFlight ps = st.bytesInFlight + inFlight (scanned threshold largestAcked ps) := by
  induction ps generalizing st with
  | nil => exact ⟨st, rfl, by simp [undecided, examined, firstLossTime], rfl⟩
  | cons p ps ih =>
    rw [inFlight_cons] at hb ⊢
    have hrest := fun q hq => hf q (List.mem_cons_of_mem p hq)
    by_cases habove : largestAcked < p.packetNumber
    · have hstop : undecided threshold largestAcked (p :: ps) = [] := by
        simp [undecided, examined, not_le.2 habove]
      refine ⟨st, ?_, ?_, ?_⟩
      · simp only [iterate, detect, if_pos habove, scanned, bind, Except.bind]
        rfl
      · rw [hstop]
        simp [firstLossTime]
      · rw [scanned, if_pos habove, inFlight_cons]
    · have hexamined : undecided threshold largestAcked (p :: ps) =
          if p.outstanding && !packetLost threshold largestAcked p then
            p :: undecided threshold largestAcked ps else undecided threshold largestAcked ps := by
        simp only [undecided, examined, List.takeWhile_cons, decide_eq_true (not_lt.1 habove), if_true,
          List.filter_cons]
      by_cases hout : p.outstanding = true
      · have hskip : (p.declaredLost || p.skippedPacket) = false := by
          simpa [Packet.outstanding] using hout
        by_cases hlost : packetLost threshold largestAcked p = true
        · obtain ⟨st₁, hdeclare, htime, hbytes⟩ := declareLost_ok fecEnable priorInFlight
            (hf p (List.mem_cons_self ..) hout) (show p.bytes ≤ st.bytesInFlight by omega)
          obtain ⟨st', hscan, htime', hbytes'⟩ := ih st₁ (by omega) hrest
          refine ⟨st', ?_, ?_, ?_⟩
          · simp only [iterate, detect, if_neg habove, hskip, hlost, hdeclare, bind, Except.bind, Bool.false_eq_true,
              if_false, if_true, hscan, scanned, hout, Bool.and_self]
          · rw [htime', htime, hexamined, hlost]
            simp
          · rw [scanned, if_neg habove, hout, hlost, Bool.and_self, if_pos rfl, inFlight_cons, Packet.bytes_asLost]
            omega
        · obtain ⟨st', hscan, htime', hbytes'⟩ :=
            ih { st with lossTime := st.lossTime <|> some (p.sendTime + rtt.lossDelay) } (by simp only; omega) hrest
          have hfalse : packetLost threshold largestAcked p = false := Bool.not_eq_true _ ▸ hlost
          refine ⟨st', ?_, ?_, ?_⟩
          · simp only [iterate, detect, if_neg habove, hskip, hfalse, bind, Except.bind, Bool.false_eq_true,
              if_false, if_true, hscan, scanned, Bool.and_false]
          · rw [htime', hexamined, hout, hfalse]
            cases st.lossTime with
            | none => simp [firstLossTime]
            | some t => simp
          · rw [scanned, if_neg habove, hfalse, Bool.and_false, if_neg (by simp), inFlight_cons]
            simp only at hbytes'
            omega
      · have hfalse : p.outstanding = false := Bool.not_eq_true _ ▸ hout
        have hskip : (p.declaredLost || p.skippedPacket) = true := by
          simpa [Packet.outstanding, ← Bool.not_or] using hfalse
        obtain ⟨st', hscan, htime', hbytes'⟩ := ih st (by omega) hrest
        refine ⟨st', ?_, ?_, ?_⟩
        · simp only [iterate, detect, if_neg habove, hskip, bind, Except.bind, if_true, hscan, scanned, hfalse,
            Bool.false_and, Bool.false_eq_true, if_false]
        · rw [htime', hexamined, hfalse, Bool.false_and, if_neg (by simp)]
        · rw [scanned, if_neg habove, hfalse, Bool.false_and, if_neg (by simp), inFlight_cons]
          omega

theorem map_scanned (threshold largestAcked : ℤ) (ps : List (Packet F)) :
    (scanned threshold largestAcked ps).map Packet.packetNumber = ps.map Packet.packetNumber := by
  induction ps with
  | nil => rfl
  | cons p ps ih =>
    rw [scanned]
    split_ifs
    · rfl
    · rw [List.map_cons, List.map_cons, ih]
      rfl
    · rw [List.map_cons, List.map_cons, ih]

theorem mem_scanned {threshold largestAcked : ℤ} {q : Packet F} (hq : q ∈ scanned threshold largestAcked ps) :
    q ∈ ps ∨ q.outstanding = false := by
  induction ps with
  | nil => cases hq
  | cons p ps ih =>
    rw [scanned] at hq
    split_ifs at hq
    · exact Or.inl hq
    · rcases List.mem_cons.1 hq with rfl | hq
      · exact Or.inr rfl
      · exact (ih hq).imp_left (List.mem_cons_of_mem p)
    · rcases List.mem_cons.1 hq with rfl | hq
      · exact Or.inl (List.mem_cons_self ..)
      · exact (ih hq).imp_left (List.mem_cons_of_mem p)

/-! ### What every operation keeps -/

/-- The numbers of a history ascend up to the highest one sent, and an outstanding packet has frames. -/
structure PacketNumberSpace.WellFormed (sp : PacketNumberSpace F) : Prop where
  ascending : (sp.history.map Packet.packetNumber).Pairwise (· < ·)
  sent : ∀ n ∈ sp.history.map Packet.packetNumber, n ≤ sp.highestSent
  frames : ∀ p ∈ sp.history, p.outstanding = true → p.frames ≠ []

theorem inFlight_append (ps qs : List (Packet F)) : inFlight (ps ++ qs) = inFlight ps + inFlight qs := by
  simp only [inFlight, List.map_append, List.sum_append]

theorem inFlight_le_of_sublist (h : ps.Sublist qs) : inFlight ps ≤ inFlight qs :=
  (h.map Packet.bytes).sum_le_sum fun _ _ => Nat.zero_le _

namespace PacketNumberSpace.WellFormed
variable {sp sp' : PacketNumberSpace F}

theorem new : (newPacketNumberSpace : PacketNumberSpace F).WellFormed :=
  ⟨List.Pairwise.nil, by simp [newPacketNumberSpace], by simp [newPacketNumberSpace]⟩

theorem scan (hw : sp.WellFormed) (threshold largestAcked : ℤ) (lossTime : Option ℤ) :
    { sp with history := scanned threshold largestAcked sp.history, lossTime := lossTime }.WellFormed := by
  refine ⟨?_, ?_, ?_⟩
  · rw [map_scanned]
    exact hw.ascending
  · rw [map_scanned]
    exact hw.sent
  · intro q hq hout
    rcases mem_scanned hq with hq | hlost
    · exact hw.frames q hq hout
    · rw [hlost] at hout
      cases hout

end PacketNumberSpace.WellFormed

namespace SentPacketHandler

def inFlight (h : SentPacketHandler F) : ℕ :=
  (h.initialPackets.elim 0 fun sp => Ackhandler.inFlight sp.history) +
    (h.handshakePackets.elim 0 fun sp => Ackhandler.inFlight sp.history) + Ackhandler.inFlight h.appDataPackets.history

structure WellFormed (h : SentPacketHandler F) : Prop where
  spaces : ∀ encLevel sp, h.getPacketNumberSpace encLevel = some sp → sp.WellFormed
  bytes : h.inFlight ≤ h.bytesInFlight

variable {h h' : SentPacketHandler F} {encLevel : EncryptionLevel} {sp sp' : PacketNumberSpace F}

theorem getPacketNumberSpace_set (h : SentPacketHandler F) (encLevel : EncryptionLevel) (sp : PacketNumberSpace F) :
    (h.setPacketNumberSpace encLevel sp).getPacketNumberSpace encLevel = some sp := by
  cases encLevel with
  | initial => rfl
  | handshake => rfl
  | zeroRTT => rfl
  | oneRTT => rfl

structure SameSpaces (h h' : SentPacketHandler F) : Prop where
  initial : h'.initialPackets = h.initialPackets
  handshake : h'.handshakePackets = h.handshakePackets
  appData : h'.appDataPackets = h.appDataPackets

theorem SameSpaces.get (hs : SameSpaces h h') (encLevel : EncryptionLevel) :
    h'.getPacketNumberSpace encLevel = h.getPacketNumberSpace encLevel := by
  cases encLevel with
  | initial => exact hs.initial
  | handshake => exact hs.handshake
  | zeroRTT | oneRTT => exact congrArg some hs.appData

theorem SameSpaces.inFlight_eq (hs : SameSpaces h h') : h'.inFlight = h.inFlight := by
  unfold inFlight
  rw [hs.initial, hs.handshake, hs.appData]

theorem inFlight_set (hsp : h.getPacketNumberSpace encLevel = some sp) :
    (h.setPacketNumberSpace encLevel sp').inFlight + Ackhandler.inFlight sp.history =
      h.inFlight + Ackhandler.inFlight sp'.history := by
  unfold inFlight
  cases encLevel with
  | initial =>
    have hinit : h.initialPackets = some sp := hsp
    rw [hinit]
    simp only [setPacketNumberSpace, Option.elim]
    omega
  | handshake =>
    have hhs : h.handshakePackets = some sp := hsp
    rw [hhs]
    simp only [setPacketNumberSpace, Option.elim]
    omega
  | zeroRTT | oneRTT =>
    have happ : h.appDataPackets = sp := Option.some.inj hsp
    rw [happ]
    simp only [setPacketNumberSpace]
    omega

theorem get_of_set {l : EncryptionLevel} {sq : PacketNumberSpace F}
    (hl : (h.setPacketNumberSpace encLevel sp').getPacketNumberSpace l = some sq) :
    sq = sp' ∨ h.getPacketNumberSpace l = some sq := by
  cases encLevel <;> cases l <;>
    first
      | exact Or.inr hl
      | exact Or.inl (Option.some.inj hl).symm

theorem WellFormed.replace (hw : h.WellFormed) (hsp : h.getPacketNumberSpace encLevel = some sp)
    (hwf : sp'.WellFormed) (hs : SameSpaces (h.setPacketNumberSpace encLevel sp') h')
    (hb : h.bytesInFlight + Ackhandler.inFlight sp'.history ≤ h'.bytesInFlight + Ackhandler.inFlight sp.history) :
    h'.WellFormed := by
  refine ⟨?_, ?_⟩
  · intro l sq hl
    rw [hs.get] at hl
    rcases get_of_set hl with rfl | hl
    · exact hwf
    · exact hw.spaces l sq hl
  · have hset : (h.setPacketNumberSpace encLevel sp').inFlight + Ackhandler.inFlight sp.history =
        h.inFlight + Ackhandler.inFlight sp'.history := inFlight_set hsp
    have hbytes := hw.bytes
    rw [hs.inFlight_eq]
    omega

theorem le_bytesInFlight (hw : h.WellFormed) (hsp : h.getPacketNumberSpace encLevel = some sp) :
    Ackhandler.inFlight sp.history ≤ h.bytesInFlight := by
  have hset : (h.setPacketNumberSpace encLevel { sp with history := [] }).inFlight + Ackhandler.inFlight sp.history =
      h.inFlight + 0 := inFlight_set hsp
  have hbytes := hw.bytes
  omega

theorem detectLostPackets_ok (hw : h.WellFormed) (hsp : h.getPacketNumberSpace encLevel = some sp) (fecEnable : Bool)
    (rtt : RttEstimate) (now : ℤ) :
    ∃ h', h.detectLostPackets fecEnable rtt now encLevel = .ok h' ∧ h'.WellFormed ∧
      h'.getPacketNumberSpace encLevel = some { sp with
        history := scanned (lostSendTime fecEnable rtt now) sp.largestAcked sp.history
        lossTime := firstLossTime rtt (undecided (lostSendTime fecEnable rtt now) sp.largestAcked sp.history) } ∧
      h'.bytesInFlight + h.inFlight = h.bytesInFlight + h'.inFlight := by
  obtain ⟨st, hscan, htime, hbytes⟩ := iterate_detect fecEnable rtt (lostSendTime fecEnable rtt now) sp.largestAcked
    h.bytesInFlight sp.history ⟨none, h.bytesInFlight, h.retransmitted, h.reported, []⟩ (le_bytesInFlight hw hsp)
    (hw.spaces encLevel sp hsp).frames
  have hnone : st.lossTime = firstLossTime rtt
      (undecided (lostSendTime fecEnable rtt now) sp.largestAcked sp.history) := by
    rw [htime]
    simp
  have hwf := (hw.spaces encLevel sp hsp).scan (lostSendTime fecEnable rtt now) sp.largestAcked st.lossTime
  have hsame : SameSpaces (h.setPacketNumberSpace encLevel
      { sp with
        history := scanned (lostSendTime fecEnable rtt now) sp.largestAcked sp.history
        lossTime := st.lossTime })
      (h.scannedSpace fecEnable encLevel sp (scanned (lostSendTime fecEnable rtt now) sp.largestAcked sp.history) st) :=
    ⟨rfl, rfl, rfl⟩
  rw [← hnone]
  refine ⟨_, ?_, hw.replace hsp hwf hsame (le_of_eq hbytes.symm), ?_, ?_⟩
  · simp only [detectLostPackets, hsp, hscan, bind, Except.bind]
  · rw [hsame.get]
    exact getPacketNumberSpace_set ..
  · have hset : (h.setPacketNumberSpace encLevel { sp with
        history := scanned (lostSendTime fecEnable rtt now) sp.largestAcked sp.history
        lossTime := st.lossTime }).inFlight + Ackhandler.inFlight sp.history =
        h.inFlight + Ackhandler.inFlight (scanned (lostSendTime fecEnable rtt now) sp.largestAcked sp.history) :=
      inFlight_set hsp
    have hst : (h.scannedSpace fecEnable encLevel sp
        (scanned (lostSendTime fecEnable rtt now) sp.largestAcked sp.history) st).bytesInFlight = st.bytesInFlight := rfl
    rw [hsame.inFlight_eq, hst]
    simp only at hbytes
    omega

end SentPacketHandler

/-! ### What every run keeps -/

/-- The call does not panic over the bytes in flight or a packet without frames, and its result meets `P`. -/
def Safe {α : Type} (P : α → Prop) : Except Failure α → Prop
  | .ok a => P a
  | .error e => e ≠ .panic "negative bytes_in_flight" ∧ e ≠ .panic "no frames"

section Safe
variable {α β : Type} {P : α → Prop} {Q : β → Prop}

theorem Safe.bind {x : Except Failure α} {f : α → Except Failure β} (hx : Safe P x) (hf : ∀ a, P a → Safe Q (f a)) :
    Safe Q (x >>= f) := by
  cases x with
  | error e => exact hx
  | ok a => exact hf a hx

theorem Safe.imp {Q : α → Prop} {x : Except Failure α} (hx : Safe P x) (h : ∀ a, P a → Q a) : Safe Q x := by
  cases x with
  | error e => exact hx
  | ok a => exact h a hx

theorem safe_error (text : String) : Safe P (.error (.error text)) := by simp [Safe]

theorem safe_nilSpace : Safe P (.error nilSpace) := by simp [Safe, nilSpace]

end Safe

theorem iterate_remove (hb : inFlight ps ≤ b) :
    Safe (fun r : List (Packet F) × ℕ => r.2 + inFlight ps = b) (iterate (fun p b => do
      let (p, b) ← removeFromBytesInFlight p b
      .ok (true, p, b)) ps b) := by
  induction ps generalizing b with
  | nil => rfl
  | cons p ps ih =>
    rw [inFlight_cons] at hb ⊢
    rw [iterate, removeFromBytesInFlight_ok p (by omega)]
    change Safe _ (iterate _ ps (b - p.bytes) >>= _)
    refine (ih (b := b - p.bytes) (by omega)).bind fun r hr => ?_
    show r.2 + _ = b
    omega

theorem removeAcked_safe (hb : inFlight acked ≤ b) : Safe (· + inFlight acked = b) (removeAcked acked b) := by
  unfold removeAcked
  induction acked generalizing b with
  | nil => rfl
  | cons p acked ih =>
    rw [inFlight_cons] at hb ⊢
    rw [List.foldlM_cons, removeFromBytesInFlight_ok p (by omega)]
    exact (ih (b := b - p.bytes) (by omega)).imp fun b' h => by omega

theorem dropZeroRTT_safe (hb : inFlight ps ≤ b) :
    Safe (fun r => r.1.Sublist ps ∧ b + inFlight r.1 = r.2 + inFlight ps) (dropZeroRTT ps b) := by
  induction ps generalizing b with
  | nil => exact ⟨List.Sublist.refl [], rfl⟩
  | cons p ps ih =>
    rw [inFlight_cons] at hb ⊢
    rw [dropZeroRTT]
    split
    next => exact ⟨List.Sublist.refl _, rfl⟩
    next =>
      rw [removeFromBytesInFlight_ok p (by omega)]
      exact (ih (b := b - p.bytes) (by omega)).imp fun r hr => ⟨hr.1.cons p, by omega⟩

theorem queueProbe_safe {fs : List F} (hb : inFlight ps ≤ b) (hf : ∀ p ∈ ps, p.outstanding = true → p.frames ≠ []) :
    Safe (fun r => ∀ q ∈ r, q.1.map Packet.packetNumber = ps.map Packet.packetNumber ∧
      (∀ p ∈ q.1, p ∈ ps ∨ p.outstanding = false ∧ p.bytes = 0) ∧ b + inFlight q.1 = q.2.1 + inFlight ps)
      (queueProbe ps b fs) := by
  induction ps with
  | nil => exact nofun
  | cons p ps ih =>
    rw [inFlight_cons] at hb ⊢
    rw [queueProbe]
    split
    next hout =>
      have hframes : p.frames.isEmpty = false := by
        have := hf p (List.mem_cons_self ..) (by simp_all [Packet.outstanding])
        simpa using this
      have hle : ({ p with frames := [] } : Packet F).bytes ≤ b := show p.bytes ≤ b by omega
      rw [queueFramesForRetransmission, hframes]
      change Safe _ (removeFromBytesInFlight { p with frames := [] } b >>= _)
      rw [removeFromBytesInFlight_ok _ hle]
      rintro _ ⟨⟩
      refine ⟨rfl, fun q hq => ?_, ?_⟩
      · rcases List.mem_cons.1 hq with rfl | hq
        · exact .inr ⟨rfl, rfl⟩
        · exact .inl (List.mem_cons_of_mem p hq)
      · change b + (p.asLost.bytes + inFlight ps) = b - p.bytes + (p.bytes + inFlight ps)
        rw [Packet.bytes_asLost]
        omega
    next =>
      refine (ih (by omega) fun q hq => hf q (List.mem_cons_of_mem p hq)).bind fun r hr => ?_
      rintro _ hmapped
      obtain ⟨q, hq, rfl⟩ := Option.map_eq_some_iff.mp hmapped
      obtain ⟨hmap, hmem, hsum⟩ := hr q hq
      refine ⟨by simp [hmap], fun r hr => ?_, ?_⟩
      · rcases List.mem_cons.1 hr with rfl | hr
        · exact .inl (List.mem_cons_self ..)
        · exact (hmem r hr).imp_left (List.mem_cons_of_mem p)
      · show b + (p.bytes + inFlight q.1) = q.2.1 + _
        omega

theorem acknowledge_safe : Safe (fun r => r.2.2.2 = st.2 ∨ r.2.2.2 = st.2 ++ [p])
    (acknowledge encLevel lowest largest missing p st) := by
  unfold acknowledge
  by_cases hlow : p.packetNumber < lowest
  · rw [if_pos hlow]
    exact .inl rfl
  by_cases hhigh : largest < p.packetNumber
  · rw [if_neg hlow, if_pos hhigh]
    exact .inl rfl
  rw [if_neg hlow, if_neg hhigh]
  generalize (if missing = true then laterRange p.packetNumber st.1 else st.1) = ranges
  cases ranges with
  | nil => simp [Safe]
  | cons r rs =>
    dsimp only
    split_ifs
    · exact .inl rfl
    · exact safe_error _
    · exact safe_error _
    · exact .inr rfl

theorem iterate_acknowledge : Safe (fun r => ∃ acked, acked.Sublist ps ∧ r.2.2 = st.2 ++ acked)
    (iterate (acknowledge encLevel lowest largest missing) ps st) := by
  induction ps generalizing st with
  | nil => exact ⟨[], List.Sublist.refl [], (List.append_nil _).symm⟩
  | cons p ps ih =>
    rw [iterate]
    refine acknowledge_safe.bind fun ⟨cont, p', st₁⟩ hst => ?_
    have hadd : ∀ acked : List (Packet F), acked.Sublist ps →
        ∃ acked', acked'.Sublist (p :: ps) ∧ st₁.2 ++ acked = st.2 ++ acked' := by
      intro acked hsub
      rcases hst with hsame | hadd
      · exact ⟨acked, hsub.cons p, by rw [← hsame]⟩
      · exact ⟨p :: acked, hsub.cons_cons p, by simp_all⟩
    cases cont with
    | false =>
      obtain ⟨acked', hsub', heq⟩ := hadd [] (List.nil_sublist ps)
      exact ⟨acked', hsub', by rwa [List.append_nil] at heq⟩
    | true =>
      refine ih.bind fun r ⟨acked, hsub, hr⟩ => ?_
      obtain ⟨acked', hsub', heq⟩ := hadd acked hsub
      exact ⟨acked', hsub', hr.trans heq⟩

theorem foldlM_remove {history : List (Packet F)} (hasc : (history.map Packet.packetNumber).Pairwise (· < ·))
    (hacked : (acked.map Packet.packetNumber).Pairwise (· < ·)) (hmem : ∀ p ∈ acked, p ∈ history) :
    Safe (fun rest => rest.Sublist history ∧ inFlight rest + inFlight acked = inFlight history)
      (acked.foldlM (fun history p => remove p.packetNumber history) history) := by
  induction acked generalizing history with
  | nil => exact ⟨List.Sublist.refl _, rfl⟩
  | cons p acked ih =>
    have hp := hmem p (List.mem_cons_self ..)
    obtain ⟨q, front, back, _, hq, hsplit, herase⟩ :=
      List.exists_of_eraseP hp (p := fun r => decide (r.packetNumber = p.packetNumber)) (by simp)
    obtain rfl : q = p := List.inj_on_of_nodup_map hasc.nodup (by simp [hsplit]) hp (of_decide_eq_true hq)
    obtain ⟨hfirst, hacked⟩ := List.pairwise_cons.mp hacked
    have hsub := List.eraseP_sublist (p := fun r => decide (r.packetNumber = q.packetNumber)) (l := history)
    rw [List.foldlM_cons, remove, if_pos (List.any_eq_true.mpr ⟨q, hp, by simp⟩)]
    refine (ih (hasc.sublist (hsub.map _)) hacked fun r hr => ?_).imp fun rest h => ⟨h.1.trans hsub, ?_⟩
    · have := hfirst r.packetNumber (List.mem_map_of_mem hr)
      exact (List.mem_eraseP_of_neg (by simpa using this.ne')).mpr (hmem r (List.mem_cons_of_mem q hr))
    · have hsum := h.2
      rw [herase, inFlight_append] at hsum
      rw [hsplit, inFlight_append, inFlight_cons, inFlight_cons]
      omega

theorem deleteOldPackets_sublist (limit : ℤ) (ps : List (Packet F)) : (deleteOldPackets limit ps).Sublist ps := by
  induction ps with
  | nil => exact List.Sublist.refl []
  | cons p ps ih =>
    rw [deleteOldPackets]
    split_ifs
    · exact List.Sublist.refl _
    · exact ih.cons_cons p
    · exact ih.cons p

theorem inFlight_deleteOldPackets (limit : ℤ) (hsettled : ∀ p ∈ ps, p.outstanding = false → p.bytes = 0) :
    inFlight (deleteOldPackets limit ps) = inFlight ps := by
  induction ps with
  | nil => rfl
  | cons p ps ih =>
    obtain ⟨hp, hrest⟩ := List.forall_mem_cons.mp hsettled
    rw [deleteOldPackets]
    split_ifs with hyoung hout
    · rfl
    · rw [inFlight_cons, inFlight_cons, ih hrest]
    · rw [inFlight_cons, ih hrest, hp (by simp_all [Packet.outstanding, Bool.and_comm]), Nat.zero_add]

theorem settled_scanned {threshold largestAcked : ℤ} (hsettled : ∀ p ∈ ps, p.outstanding = false → p.bytes = 0) :
    ∀ q ∈ scanned threshold largestAcked ps, q.outstanding = false → q.bytes = 0 := by
  induction ps with
  | nil => exact hsettled
  | cons p ps ih =>
    obtain ⟨hp, hrest⟩ := List.forall_mem_cons.mp hsettled
    rw [scanned]
    split_ifs
    · exact hsettled
    · exact List.forall_mem_cons.mpr ⟨fun _ => p.bytes_asLost, ih hrest⟩
    · exact List.forall_mem_cons.mpr ⟨hp, ih hrest⟩

/-- Besides, a packet that is lost or skipped is not in flight if all packets were new when they were sent. -/
structure PacketNumberSpace.Exact (fresh : Prop) (sp : PacketNumberSpace F) : Prop
    extends PacketNumberSpace.WellFormed sp where
  settled : fresh → ∀ p ∈ sp.history, p.outstanding = false → p.bytes = 0

variable {fresh : Prop}

namespace PacketNumberSpace.Exact
variable {sp sp' : PacketNumberSpace F}

theorem of_sublist (hx : sp.Exact fresh) (hsub : sp'.history.Sublist sp.history)
    (hsent : sp'.highestSent = sp.highestSent) : sp'.Exact fresh := by
  have hmap := hsub.map Packet.packetNumber
  refine ⟨⟨hx.ascending.sublist hmap, fun n hn => ?_, fun p hp => hx.frames p (hsub.subset hp)⟩,
    fun hfresh p hp => hx.settled hfresh p (hsub.subset hp)⟩
  rw [hsent]
  exact hx.sent n (hmap.subset hn)

theorem sentPacket {isAckEliciting : Bool} (hx : sp.Exact fresh) (hframes : isAckEliciting = true → p.frames ≠ [])
    (hout : fresh → p.outstanding = true) :
    Safe (fun sp' => sp'.Exact fresh ∧ Ackhandler.inFlight sp'.history =
      Ackhandler.inFlight sp.history + if isAckEliciting then p.bytes else 0) (sp.sentPacket p isAckEliciting) := by
  by_cases hnumber : p.packetNumber ≤ sp.highestSent
  · rw [PacketNumberSpace.sentPacket, if_pos hnumber]
    simp [Safe]
  · rw [PacketNumberSpace.sentPacket, if_neg hnumber]
    have hskipped : ∀ q ∈ skippedPackets sp.highestSent p,
        sp.highestSent < q.packetNumber ∧ q.packetNumber < p.packetNumber ∧ q.outstanding = false ∧ q.bytes = 0 := by
      intro q hq
      obtain ⟨i, hi, rfl⟩ := List.mem_map.1 hq
      have := List.mem_range.1 hi
      exact ⟨by simp only; omega, by simp only; omega, rfl, rfl⟩
    have hasc : (skippedPackets sp.highestSent p).Pairwise fun q r => q.packetNumber < r.packetNumber := by
      rw [skippedPackets, List.pairwise_map]
      exact List.pairwise_lt_range.imp fun h => by simp only; omega
    have hbytes : Ackhandler.inFlight (skippedPackets sp.highestSent p) = 0 :=
      List.sum_eq_zero fun b hb => by
        obtain ⟨q, hq, rfl⟩ := List.mem_map.1 hb
        exact (hskipped q hq).2.2.2
    have hlast : ∀ q ∈ (if isAckEliciting = true then [p] else []), q = p ∧ isAckEliciting = true := by
      intro q hq
      split at hq <;> simp_all
    obtain ⟨⟨hold, hsent, hf⟩, hsettled⟩ := hx
    rw [List.pairwise_map] at hold
    rw [List.forall_mem_map] at hsent
    refine ⟨⟨⟨?_, ?_, ?_⟩, ?_⟩, ?_⟩
    · rw [List.pairwise_map, List.pairwise_append, List.pairwise_append]
      grind
    · rw [List.forall_mem_map]
      grind
    · grind
    · grind
    · rw [inFlight_append, inFlight_append, hbytes]
      split <;> rfl

end PacketNumberSpace.Exact

namespace SentPacketHandler

/-- `k` are the bytes of acknowledged packets that have left the history. -/
structure Exact (fresh : Prop) (h : SentPacketHandler F) (k : ℕ) : Prop where
  spaces : ∀ encLevel sp, h.getPacketNumberSpace encLevel = some sp → sp.Exact fresh
  bytes : h.inFlight + k ≤ h.bytesInFlight
  exact : fresh → h.bytesInFlight = h.inFlight + k

variable {h h' : SentPacketHandler F} {encLevel : EncryptionLevel} {sp sp' : PacketNumberSpace F} {k k' : ℕ}
  {rtt : RttEstimate} {now rcvTime : ℤ} (pto : SentPacketHandler F → Option ℤ) (fecEnable : Bool)

namespace Exact

theorem wellFormed (hx : h.Exact fresh k) : h.WellFormed :=
  ⟨fun l sp hl => (hx.spaces l sp hl).toWellFormed, le_of_add_le_left hx.bytes⟩

theorem new (isClient : Bool) : (newSentPacketHandler isClient : SentPacketHandler F).Exact fresh 0 := by
  refine ⟨fun l sp hsp => ?_, le_rfl, fun _ => rfl⟩
  obtain rfl : newPacketNumberSpace = sp := by cases l <;> exact Option.some.inj hsp
  exact ⟨.new, nofun⟩

theorem of_get (hx : h.Exact fresh k)
    (hget : ∀ l sq, h'.getPacketNumberSpace l = some sq → h.getPacketNumberSpace l = some sq)
    (hb : h'.bytesInFlight + h.inFlight = h.bytesInFlight + h'.inFlight) : h'.Exact fresh k := by
  refine ⟨fun l sq hl => hx.spaces l sq (hget l sq hl), ?_, fun hfresh => ?_⟩
  · have := hx.bytes
    omega
  · have := hx.exact hfresh
    omega

theorem replace {b : ℕ} (hx : h.Exact fresh k) (hsp : h.getPacketNumberSpace encLevel = some sp)
    (hsp' : sp'.Exact fresh) (hs : SameSpaces (h.setPacketNumberSpace encLevel sp') h')
    (hle : Ackhandler.inFlight sp'.history ≤ b) (heq : fresh → Ackhandler.inFlight sp'.history = b)
    (hb : h'.bytesInFlight + k + Ackhandler.inFlight sp.history = h.bytesInFlight + k' + b) : h'.Exact fresh k' := by
  have hset : (h.setPacketNumberSpace encLevel sp').inFlight + _ = _ := inFlight_set hsp
  refine ⟨fun l sq hl => ?_, ?_, fun hfresh => ?_⟩
  · rw [hs.get] at hl
    rcases get_of_set hl with rfl | hl
    · exact hsp'
    · exact hx.spaces l sq hl
  · have hbytes := hx.bytes
    rw [hs.inFlight_eq]
    omega
  · have hbytes := hx.exact hfresh
    rw [hs.inFlight_eq, ← heq hfresh] at *
    omega

theorem setLossDetectionTimer (hx : h.Exact fresh k) : (h.setLossDetectionTimer pto).Exact fresh k := by
  unfold SentPacketHandler.setLossDetectionTimer
  split <;> exact ⟨hx.spaces, hx.bytes, hx.exact⟩

theorem completeValidation (hx : h.Exact fresh k) (encLevel : EncryptionLevel) :
    (h.completeValidation pto encLevel).Exact fresh k := by
  unfold SentPacketHandler.completeValidation
  split
  · exact setLossDetectionTimer pto ⟨hx.spaces, hx.bytes, hx.exact⟩
  · exact hx

theorem detectLostPackets (hx : h.Exact fresh k) :
    Safe (·.Exact fresh k) (h.detectLostPackets fecEnable rtt now encLevel) := by
  rw [SentPacketHandler.detectLostPackets]
  split
  next => exact safe_nilSpace
  next sp hsp =>
    have hspace := hx.spaces encLevel sp hsp
    obtain ⟨st, hscan, -, hbytes⟩ := iterate_detect fecEnable rtt (lostSendTime fecEnable rtt now) sp.largestAcked
      h.bytesInFlight sp.history ⟨none, h.bytesInFlight, h.retransmitted, h.reported, []⟩
      (le_bytesInFlight hx.wellFormed hsp) hspace.frames
    rw [hscan]
    refine hx.replace hsp ⟨hspace.toWellFormed.scan _ _ st.lossTime, fun hfresh => settled_scanned (hspace.settled hfresh)⟩
      ⟨rfl, rfl, rfl⟩ le_rfl (fun _ => rfl) ?_
    change st.bytesInFlight + k + _ = h.bytesInFlight + k + _
    simp only at hbytes ⊢
    omega

theorem onLossDetectionTimeout (hx : h.Exact fresh k) :
    Safe (·.Exact fresh k) (h.onLossDetectionTimeout pto fecEnable rtt now) := by
  unfold SentPacketHandler.onLossDetectionTimeout
  split
  next => exact (hx.detectLostPackets fecEnable).bind fun h' hx' => hx'.setLossDetectionTimer pto
  next =>
    split
    next => exact safe_error _
    next => exact hx.setLossDetectionTimer pto

theorem dropPackets (hx : h.Exact fresh 0) : Safe (·.Exact fresh 0) (h.dropPackets pto encLevel) := by
  have hbytes := hx.bytes
  unfold SentPacketHandler.inFlight at hbytes
  cases encLevel with
  | initial | handshake =>
    rw [SentPacketHandler.dropPackets]
    dsimp only
    split
    next => exact safe_nilSpace
    next sp hsp =>
      rw [hsp] at hbytes
      simp only [Option.elim] at hbytes
      refine (iterate_remove (show Ackhandler.inFlight sp.history ≤ _ by omega)).bind fun r hr => setLossDetectionTimer pto ?_
      refine hx.of_get (fun l sq hl => ?_) ?_
      · cases l <;> first | exact hl | cases hl
      · simp only [SentPacketHandler.inFlight, hsp, Option.elim]
        omega
  | zeroRTT =>
    refine (dropZeroRTT_safe (by omega)).bind fun r ⟨hsub, hsum⟩ => setLossDetectionTimer pto ?_
    have hsp : h.getPacketNumberSpace .zeroRTT = some h.appDataPackets := rfl
    have hspace : { h.appDataPackets with history := r.1 }.Exact fresh := (hx.spaces .zeroRTT _ hsp).of_sublist hsub rfl
    refine hx.replace hsp hspace ⟨rfl, rfl, rfl⟩ le_rfl (fun _ => rfl) ?_
    simp only
    omega
  | oneRTT => exact ⟨by decide, by decide⟩

theorem sentPacket {p : Packet F} (hx : h.Exact fresh 0) (hout : fresh → p.outstanding = true) :
    Safe (·.Exact fresh 0) (h.sentPacket pto p) := by
  have hdrop : Safe (·.Exact fresh 0) (h.dropInitial pto p) := by
    unfold dropInitial
    split
    · exact hx.dropPackets pto
    · exact hx
  refine hdrop.bind fun h₁ hx₁ => ?_
  split
  next => exact safe_nilSpace
  next sp hsp =>
    have hspace : { sp with largestSent := p.packetNumber }.Exact fresh :=
      (hx₁.spaces _ sp hsp).of_sublist (List.Sublist.refl _) rfl
    have hframes : (!p.frames.isEmpty) = true → p.frames ≠ [] := by simp
    refine Safe.bind (hspace.sentPacket (p := { p with
      includedInBytesInFlight := !p.frames.isEmpty || p.includedInBytesInFlight }) hframes hout)
      fun sp' ⟨hspace', hbytes⟩ => ?_
    have hkept : (h₁.recordSent p (!p.frames.isEmpty) sp').Exact fresh 0 := by
      refine hx₁.replace hsp hspace' ⟨rfl, rfl, rfl⟩ le_rfl (fun _ => rfl) ?_
      rw [hbytes, recordSent]
      cases hack : !p.frames.isEmpty with
      | false => simp
      | true =>
        simp only [Packet.bytes, Bool.true_or, if_true]
        omega
    change Exact fresh (if _ then _ else _) 0
    split
    · exact hkept.setLossDetectionTimer pto
    · exact hkept

theorem queueProbePacket (hx : h.Exact fresh 0) : Safe (·.2.Exact fresh 0) (h.queueProbePacket encLevel) := by
  rw [SentPacketHandler.queueProbePacket]
  split
  next => exact safe_nilSpace
  next sp hsp =>
    have hspace := hx.spaces encLevel sp hsp
    refine (queueProbe_safe (le_bytesInFlight hx.wellFormed hsp) hspace.frames).bind fun r hr => ?_
    split
    next => exact hx
    next history b fs =>
      obtain ⟨hmap, hmem, hsum⟩ := hr _ rfl
      have hspace' : { sp with history := history }.Exact fresh := by
        refine ⟨⟨hmap ▸ hspace.ascending, hmap ▸ hspace.sent, fun q hq hout => ?_⟩, fun hfresh q hq hout => ?_⟩
        · exact (hmem q hq).elim (hspace.frames q · hout) fun h => by simp [h.1] at hout
        · exact (hmem q hq).elim (hspace.settled hfresh q · hout) And.right
      refine hx.replace hsp hspace' ⟨rfl, rfl, rfl⟩ le_rfl (fun _ => rfl) ?_
      simp only at hsum ⊢
      omega

/-- The acknowledged packets have left the history, and their bytes leave at the end. -/
theorem finishAck {limit : ℤ} {acked : List (Packet F)} (hx : h.Exact fresh (Ackhandler.inFlight acked)) :
    Safe (·.Exact fresh 0) (h.finishAck pto fecEnable rtt encLevel rcvTime limit acked) := by
  refine (hx.detectLostPackets fecEnable).bind fun h₁ hx₁ => ?_
  refine (removeAcked_safe (by have := hx₁.bytes; omega)).bind fun b hb => ?_
  split
  next => exact safe_nilSpace
  next sp hsp =>
    have hspace := hx₁.spaces encLevel sp hsp
    have hsub := deleteOldPackets_sublist limit sp.history
    have hspace' : { sp with history := deleteOldPackets limit sp.history }.Exact fresh := hspace.of_sublist hsub rfl
    refine setLossDetectionTimer pto (hx₁.replace hsp hspace' ⟨rfl, rfl, rfl⟩ (inFlight_le_of_sublist hsub)
      (fun hfresh => inFlight_deleteOldPackets limit (hspace.settled hfresh)) ?_)
    simp only
    omega

theorem receivedAck {ranges : List AckRange} {maxAge : ℕ} (hx : h.Exact fresh 0) :
    Safe (·.Exact fresh 0) (h.receivedAck pto fecEnable rtt ranges encLevel rcvTime maxAge) := by
  unfold SentPacketHandler.receivedAck
  split
  next => exact safe_nilSpace
  next sp top bottom hsp _ _ =>
    split
    next => exact safe_error _
    next =>
      have hspace : { sp with largestAcked := max sp.largestAcked top.largest }.Exact fresh :=
        (hx.spaces encLevel sp hsp).of_sublist (List.Sublist.refl _) rfl
      generalize hraised : { sp with largestAcked := max sp.largestAcked top.largest } = raised at *
      have hx₁ : (h.setPacketNumberSpace encLevel raised).Exact fresh 0 := by
        refine hx.replace hsp hspace ⟨rfl, rfl, rfl⟩ le_rfl (fun _ => rfl) ?_
        rw [← hraised]
        cases encLevel <;> rfl
      have hx₂ := hx₁.completeValidation pto encLevel
      have hsp₂ : ((h.setPacketNumberSpace encLevel raised).completeValidation pto encLevel).getPacketNumberSpace
          encLevel = some raised := by
        unfold SentPacketHandler.completeValidation SentPacketHandler.setLossDetectionTimer
        split
        · split <;> exact getPacketNumberSpace_set ..
        · exact getPacketNumberSpace_set ..
      have hdetect : Safe (fun r => r.2.Sublist raised.history ∧
          Ackhandler.inFlight r.2 + Ackhandler.inFlight r.1 = Ackhandler.inFlight raised.history)
          (detectAndRemoveAckedPackets encLevel ranges bottom.smallest top.largest raised.history) := by
        refine iterate_acknowledge.bind fun ⟨_, _, acked⟩ ⟨acked', hsub, hacked⟩ => ?_
        obtain rfl : acked = acked' := hacked
        refine (foldlM_remove hspace.ascending (hspace.ascending.sublist (hsub.map _)) fun p hp =>
          hsub.subset hp).bind fun history hrest => ?_
        exact hrest
      refine hdetect.bind fun ⟨acked, history⟩ ⟨hsub, hsum⟩ => ?_
      change Safe _ (if _ then _ else _)
      split
      · exact hx₂
      · have hspace' : { raised with history := history }.Exact fresh := hspace.of_sublist hsub rfl
        refine finishAck pto fecEnable (hx₂.replace hsp₂ hspace' ⟨rfl, rfl, rfl⟩ le_rfl (fun _ => rfl) ?_)
        have hb : ∀ h₂ : SentPacketHandler F, (h₂.setPacketNumberSpace encLevel
            { raised with history := history }).bytesInFlight = h₂.bytesInFlight := fun h₂ => by cases encLevel <;> rfl
        rw [hb]
        simp only at hsum ⊢
        omega
  next => simp [Safe]

end Exact
end SentPacketHandler
/-! ### Runs -/

inductive Event (F : Type) where
  | sentPacket (p : Packet F)
  | receivedAck (rtt : RttEstimate) (ranges : List AckRange) (encLevel : EncryptionLevel) (rcvTime : ℤ) (maxAge : ℕ)
  | onLossDetectionTimeout (rtt : RttEstimate) (now : ℤ)
  | queueProbePacket (encLevel : EncryptionLevel)
  | dropPackets (encLevel : EncryptionLevel)

def step (pto : SentPacketHandler F → Option ℤ) (fecEnable : Bool) (h : SentPacketHandler F) :
    Event F → Except Failure (SentPacketHandler F)
  | .sentPacket p => h.sentPacket pto p
  | .receivedAck rtt ranges encLevel rcvTime maxAge => h.receivedAck pto fecEnable rtt ranges encLevel rcvTime maxAge
  | .onLossDetectionTimeout rtt now => h.onLossDetectionTimeout pto fecEnable rtt now
  | .queueProbePacket encLevel => do
    let r ← h.queueProbePacket encLevel
    .ok r.2
  | .dropPackets encLevel => h.dropPackets pto encLevel

/-- The packets given to `SentPacket` are new. -/
def Fresh (_ : SentPacketHandler F) : Event F → Prop
  | .sentPacket p => p.outstanding = true
  | _ => True

theorem exact_step {fresh : Prop} (pto : SentPacketHandler F → Option ℤ) (fecEnable : Bool) {h : SentPacketHandler F}
    (hx : h.Exact fresh 0) {e : Event F} (hfresh : fresh → Fresh h e) :
    Safe (·.Exact fresh 0) (step pto fecEnable h e) := by
  cases e with
  | sentPacket p => exact hx.sentPacket pto hfresh
  | receivedAck rtt ranges encLevel rcvTime maxAge => exact hx.receivedAck pto fecEnable
  | onLossDetectionTimeout rtt now => exact hx.onLossDetectionTimeout pto fecEnable
  | queueProbePacket encLevel => exact hx.queueProbePacket.bind fun r hr => hr
  | dropPackets encLevel => exact hx.dropPackets pto

theorem exact_of_run {fresh : Prop} {pto : SentPacketHandler F → Option ℤ} {fecEnable isClient : Bool}
    {es : List (Event F)} {h : SentPacketHandler F} {ok : SentPacketHandler F → Event F → Prop}
    (hok : ∀ h e, ok h e → fresh → Fresh h e)
    (hrun : Machine.Run (step pto fecEnable) ok (SentPacketHandler.newSentPacketHandler isClient) es h) :
    h.Exact fresh 0 := by
  refine hrun.invariant (·.Exact fresh 0) (.new isClient) fun s e s' hx he hstep => ?_
  have hsafe := exact_step pto fecEnable hx (hok s e he)
  rwa [hstep] at hsafe

/-- Every handler of a connection is well-formed, whatever the peer acknowledges and whenever the timer fires. -/
theorem wellFormed_of_run (pto : SentPacketHandler F → Option ℤ) (fecEnable isClient : Bool) {es : List (Event F)}
    {h : SentPacketHandler F}
    (hrun : Machine.Run (step pto fecEnable) Machine.always (SentPacketHandler.newSentPacketHandler isClient) es h) :
    h.WellFormed :=
  (exact_of_run (fun _ _ _ => False.elim) hrun).wellFormed

/-- **The bytes in flight.** Whatever the peer acknowledges and whenever the timer fires, `bytesInFlight` is the
sum over the packets of the histories that are in flight, and no call makes it negative or retransmits a packet
without frames. -/
theorem bytes_in_flight_exact (pto : SentPacketHandler F → Option ℤ) (fecEnable isClient : Bool) {es : List (Event F)}
    {h : SentPacketHandler F}
    (hrun : Machine.Run (step pto fecEnable) Fresh (SentPacketHandler.newSentPacketHandler isClient) es h) :
    h.bytesInFlight = h.inFlight ∧ ∀ e, step pto fecEnable h e ≠ .error (.panic "negative bytes_in_flight") ∧
      step pto fecEnable h e ≠ .error (.panic "no frames") := by
  have hx : h.Exact True 0 := exact_of_run (fun _ _ he _ => he) hrun
  refine ⟨hx.exact trivial, fun e => ?_⟩
  have hx' : h.Exact False 0 := ⟨fun l sp hl => ⟨(hx.spaces l sp hl).1, False.elim⟩, hx.bytes, False.elim⟩
  have hsafe := exact_step pto fecEnable hx' (e := e) False.elim
  constructor <;>
  · intro hstep
    rw [hstep] at hsafe
    simp [Safe] at hsafe

/-- Packet 0 is declared lost when packet 5 is acknowledged, and is acknowledged after that. -/
def lateAck : List (Event Unit) :=
  [.sentPacket ⟨0, [()], 1200, .oneRTT, 0, false, false, false, false⟩,
    .sentPacket ⟨5, [()], 100, .oneRTT, 0, false, false, false, false⟩,
    .receivedAck ⟨timerGranularity, 0, le_rfl⟩ [⟨5, 5⟩] .oneRTT 1 2,
    .receivedAck ⟨timerGranularity, 0, le_rfl⟩ [⟨5, 5⟩, ⟨0, 0⟩] .oneRTT 1 2]

theorem bytes_in_flight_exact_late_ack : ∃ h : SentPacketHandler Unit,
    Machine.Run (step (fun _ => none) true) Fresh (SentPacketHandler.newSentPacketHandler false) lateAck h ∧
      h.retransmitted = [()] ∧ h.bytesInFlight = 0 ∧ h.bytesInFlight = h.inFlight := by
  have hrun : Machine.Run (step (fun _ => none) true) Fresh (SentPacketHandler.newSentPacketHandler false) lateAck _ :=
    .of_exec _ ⟨rfl, rfl, trivial, trivial, trivial⟩ rfl
  exact ⟨_, hrun, rfl, rfl, (bytes_in_flight_exact _ _ _ hrun).1⟩

end Mp2bs.Quic.Ackhandler
