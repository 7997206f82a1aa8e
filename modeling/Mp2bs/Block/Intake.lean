import Mp2bs.Block.ReadEnd
import Mp2bs.Mp2session.Codec

/-!
# Data packets of any shape

`ParseBlockDataPacket` takes what the wire says (`block_data_packet.go:42-85`), and
`handleBlockDataPacket` looks for a segment by the numbers only (`mp2session.go:304-323`). The
handler is cut at the token that it puts into `sem` (348), where it can wait.
-/

namespace Mp2bs.Block.Intake
open Mp2bs.Lib Mp2bs.Lib.Slice Mp2bs.Lib.Machine
open Mp2bs.Block.ReadEnd (segments segments_of_some segments_setRecvBuffer_self
  segments_setRecvBuffer_of_ne takes_source addRecvBuffer_segments
  mp2ReadBlock_ok segments_handleBlockInfoPacket)

def received (p : Mp2session.BlockDataPacket) : BlockDataPacket :=
  ⟨p.length.toNat, p.blockNumber.toNat, p.dataNumber.toNat, p.sessionID.toNat, p.redundant.toNat, p.data⟩

/-- `handleBlockDataPacket` up to the token (`mp2session.go:295-346`): the segment that the packet was
stored in, with its position. -/
def fileBlockData (m : Manager) (s : Mp2Session) (packet : BlockDataPacket) :
    Except Stop (Manager × Option (ℕ × Segment)) :=
  match m.recvBuffer s.blockNumber with
  | none => .error .panic
  | some bb => match bb.buffer.findIdx? (·.takes packet) with
    | none => .ok (m, none)
    | some i => match bb.buffer[i]? with
      | none => .error .panic
      | some segment =>
        if packet.redundant = fecSourceData then
          match segment.pushData packet.blockNumber packet.dataNumber packet.data with
          | .error e => .error e
          | .ok (segment, _) =>
            .ok ((m.addSendBuffer packet.data).setRecvBuffer s.blockNumber { bb with
              lastRecvBytes := u32 (bb.lastRecvBytes + u32 packet.data.length)
              buffer := bb.buffer.set i segment }, some (i, segment))
        else
          match segment.pushRedData packet.blockNumber packet.dataNumber packet.data with
          | .error e => .error e
          | .ok (segment, _) =>
            .ok (m.setRecvBuffer s.blockNumber { bb with buffer := bb.buffer.set i segment },
              some (i, segment))

/-- The write of `FecFinish` (`mp2session.go:350`) to the segment at position `i`. -/
def setSegment (m : Manager) (blockNumber i : ℕ) (g : Segment) : Manager :=
  match m.recvBuffer blockNumber with
  | none => m
  | some bb => m.setRecvBuffer blockNumber { bb with buffer := bb.buffer.set i g }

theorem setRecvBuffer_setRecvBuffer (m : Manager) (b : ℕ) (bb bb' : BlockBuffer) :
    (m.setRecvBuffer b bb).setRecvBuffer b bb' = m.setRecvBuffer b bb' := by
  simp only [Manager.setRecvBuffer, Function.update_idem]

theorem handleBlockDataPacket_eq (m : Manager) (s : Mp2Session) (packet : BlockDataPacket) :
    s.handleBlockDataPacket m packet =
      match fileBlockData m s packet with
      | .error e => .error e
      | .ok (m, none) => .ok (m, s)
      | .ok (m, some (i, g)) => match s.release g with
        | .error e => .error e
        | .ok (s', g) => .ok (setSegment m s.blockNumber i g, s') := by
  unfold Mp2Session.handleBlockDataPacket fileBlockData
  cases hm : m.recvBuffer s.blockNumber with
  | none => rfl
  | some bb =>
    simp only
    cases hi : bb.buffer.findIdx? (·.takes packet) with
    | none => rfl
    | some i =>
      simp only
      cases hg : bb.buffer[i]? with
      | none => rfl
      | some g =>
        simp only [Mp2Session.storeBlockData]
        by_cases hsrc : packet.redundant = fecSourceData
        · simp only [if_pos hsrc]
          cases hpush : g.pushData packet.blockNumber packet.dataNumber packet.data with
          | error e => rfl
          | ok pushed =>
            simp only
            cases hrelease : s.release pushed.1 with
            | error e => rfl
            | ok released =>
              simp only [setSegment, Manager.setRecvBuffer_recvBuffer, setRecvBuffer_setRecvBuffer, List.set_set,
                Mp2Session.release_blockNumber hrelease]
        · simp only [if_neg hsrc]
          cases hpush : g.pushRedData packet.blockNumber packet.dataNumber packet.data with
          | error e => rfl
          | ok pushed =>
            simp only
            cases hrelease : s.release pushed.1 with
            | error e => rfl
            | ok released =>
              simp only [setSegment, Manager.setRecvBuffer_recvBuffer, setRecvBuffer_setRecvBuffer, List.set_set,
                Mp2Session.release_blockNumber hrelease]

/-! ### The receive buffer under any calls -/

/-- Any `Mp2Session` of the node handles a packet or takes a turn of a request loop, a waiting handler
gets its token through, a timer flushes, or the application reads. -/
inductive Label
  | info (session : Mp2Session) (packet : BlockInfoPacket) (sessionID : ℕ)
  | request (session : Mp2Session) (job : RequestJob)
  | fecRequest (session : Mp2Session) (numPeers : ℕ) (job : RequestJob)
  | data (session : Mp2Session) (packet : BlockDataPacket)
  | finish (blockNumber i : ℕ)
  | flush (blockNumber : ℕ)
  | read (blockNumber bufLen : ℕ)
  deriving DecidableEq

def init : Manager := ⟨[], fun _ => none, false⟩

def step (m : Manager) : Label → Except Stop Manager
  | .info session packet sessionID => .ok (session.handleBlockInfoPacket m packet sessionID).1
  | .request session job => match session.sendBlockRequest m job with
    | .error e => .error e
    | .ok (m, _) => .ok m
  | .fecRequest session numPeers job => match session.sendFecBlockRequest m numPeers job with
    | .error e => .error e
    | .ok (m, _) => .ok m
  | .data session packet => match fileBlockData m session packet with
    | .error e => .error e
    | .ok (m, _) => .ok m
  | .finish b i => match (segments m b)[i]? with
    | none => .error .blocked
    | some g =>
      if g.complete ∧ ¬g.fecFinish then .ok (setSegment m b i { g with fecFinish := true })
      else .error .blocked
  | .flush b => match m.recvBuffer b with
    | none => .error .panic
    | some bb =>
      if bb.lastRecvBytes ≤ bb.readBytes then .ok (m.setRecvBuffer b { bb with buffer := [] })
      else .error .blocked
  | .read b bufLen => match m.mp2ReadBlock bufLen b with
    | .error e => .error e
    | .ok (m, _) => .ok m

/-! ### What a payload has room for -/

def found (bb : BlockBuffer) (packet : BlockDataPacket) : Option Segment :=
  (bb.buffer.findIdx? (·.takes packet)).bind (bb.buffer[·]?)

def Room (g : Segment) (packet : BlockDataPacket) : Prop :=
  if packet.redundant = fecSourceData then
    payloadSize * (packet.dataNumber - g.startDataNumber) + packet.data.length ≤ g.size
  else
    packet.dataNumber - g.startRedDataNumber < g.recvRedDataSize.length ∧
      payloadSize * (packet.dataNumber - g.startRedDataNumber) + packet.data.length ≤ g.recvRedBuffer.length

instance (g : Segment) (packet : BlockDataPacket) : Decidable (Room g packet) :=
  inferInstanceAs (Decidable (if packet.redundant = fecSourceData then _ ≤ _ else _ < _ ∧ _ ≤ _))

/-- The payload of a source packet that is still expected is no longer than the payload of one packet. -/
def OnePayload (g : Segment) (packet : BlockDataPacket) : Prop :=
  packet.redundant = fecSourceData → g.expectedDataNumber ≤ packet.dataNumber → packet.data.length ≤ payloadSize

instance (g : Segment) (packet : BlockDataPacket) : Decidable (OnePayload g packet) :=
  inferInstanceAs (Decidable (_ → _ → _))

/-- The block of the session has a buffer, and the segment found for the packet has room for it. -/
def InRange (m : Manager) (s : Mp2Session) (packet : BlockDataPacket) : Prop :=
  ∃ bb, m.recvBuffer s.blockNumber = some bb ∧ ∀ g ∈ found bb packet, Room g packet

def Paced (m : Manager) (s : Mp2Session) (packet : BlockDataPacket) : Prop :=
  ∀ bb ∈ m.recvBuffer s.blockNumber, ∀ g ∈ found bb packet, OnePayload g packet

/-- Sizes are of the types of the source; a data packet fits. -/
def Guard (m : Manager) : Label → Prop
  | .request _ job | .fecRequest _ _ job => job.blockSize < 2 ^ 32
  | .data session packet => packet.data.length < 2 ^ 16 ∧ InRange m session packet ∧ Paced m session packet
  | .info .. | .finish .. | .flush _ | .read .. => True

def Within (m : Manager) : Prop := ∀ b, ∀ g ∈ segments m b, g.lastRecvDataOffset ≤ g.size

/-! ### Segments -/

theorem createSegmentWithRedundant_lengths (blockNumber sessionID idx start size : ℕ) (last : Bool)
    {end' symSize numSrcSym numEncSym bytes packets : ℕ} (hbytes : u32 (symSize * u32Sub numEncSym numSrcSym) = bytes)
    (hpackets : numData bytes = packets) (hend : end' + 1 + packets < 2 ^ 32) (hpos : 0 < packets) :
    (createSegmentWithRedundant blockNumber sessionID idx start end' size last symSize numSrcSym
      numEncSym).recvRedDataSize.length = packets ∧
    (createSegmentWithRedundant blockNumber sessionID idx start end' size last symSize numSrcSym
      numEncSym).recvRedBuffer.length = bytes := by
  have hstart : u32 (end' + 1) = end' + 1 := u32_of_lt (by omega)
  have hsum : u32 (end' + 1 + packets) = end' + 1 + packets := u32_of_lt hend
  have hlast : u32Sub (end' + 1 + packets) 1 = end' + packets := by
    rw [u32Sub_of_le (by omega) hend]
    omega
  have hcount : u32Sub (end' + packets) (end' + 1) = packets - 1 := by
    rw [u32Sub_of_le (by omega) (by omega)]
    omega
  have hlength : u32 (packets - 1 + 1) = packets := by
    rw [Nat.sub_add_cancel hpos]
    exact u32_of_lt (by omega)
  unfold createSegmentWithRedundant
  simp only [hbytes, hpackets, hstart, hsum, hlast, hcount, hlength, List.length_replicate, and_self]

/-- The shape of a segment, and what the sizes of the packets still expected are bounded by. -/
structure Sound (g : Segment) : Prop where
  size_le : g.size ≤ segmentSize
  end_eq : g.endDataNumber + 1 = g.startDataNumber + numData g.size
  end_lt : g.endDataNumber + 1 < 2 ^ 32
  buffer_length : g.recvBuffer.length = g.size
  sizes_length : g.recvDataSize.length = numData g.size
  start_le : g.startDataNumber ≤ g.expectedDataNumber
  le_end : g.expectedDataNumber ≤ g.endDataNumber + 1
  lastRecv_le : g.lastRecvDataOffset ≤ g.size
  lastRecv_le_mul : g.lastRecvDataOffset ≤ payloadSize * (g.expectedDataNumber - g.startDataNumber)
  sizes_le : ∀ i n, g.expectedDataNumber - g.startDataNumber ≤ i → g.recvDataSize[i]? = some n →
    n ≤ payloadSize ∧ payloadSize * i + n ≤ g.size
  red_length : g.recvRedDataSize.length ≤ 4
  red_buffer_length : g.recvRedBuffer.length ≤ 4096

namespace Sound
variable {g : Segment}

variable {g' : Segment} {d : ℕ} {data : Bytes} {job : RequestJob}

theorem congr (h : Sound g) (hsize : g'.size = g.size) (hstart : g'.startDataNumber = g.startDataNumber)
    (hend : g'.endDataNumber = g.endDataNumber) (hexpected : g'.expectedDataNumber = g.expectedDataNumber)
    (hlast : g'.lastRecvDataOffset = g.lastRecvDataOffset) (hbuffer : g'.recvBuffer = g.recvBuffer)
    (hsizes : g'.recvDataSize = g.recvDataSize) (hred : g'.recvRedDataSize.length ≤ 4)
    (hredBuffer : g'.recvRedBuffer.length ≤ 4096) : Sound g' := by
  refine ⟨?_, ?_, ?_, ?_, ?_, ?_, ?_, ?_, ?_, ?_, hred, hredBuffer⟩
  · rw [hsize]
    exact h.size_le
  · rw [hsize, hstart, hend]
    exact h.end_eq
  · rw [hend]
    exact h.end_lt
  · rw [hbuffer, hsize]
    exact h.buffer_length
  · rw [hsizes, hsize]
    exact h.sizes_length
  · rw [hstart, hexpected]
    exact h.start_le
  · rw [hexpected, hend]
    exact h.le_end
  · rw [hlast, hsize]
    exact h.lastRecv_le
  · rw [hlast, hexpected, hstart]
    exact h.lastRecv_le_mul
  · rw [hexpected, hstart, hsizes, hsize]
    exact h.sizes_le

theorem advance (h : Sound g) {n : ℕ} (hn : g.recvDataSize[g.expectedDataNumber - g.startDataNumber]? = some n)
    (complete : Bool) :
    Sound { g with
      complete := complete
      lastRecvDataOffset := u32 (g.lastRecvDataOffset + n)
      expectedDataNumber := u32 (g.expectedDataNumber + 1) } := by
  obtain ⟨hone, hfit⟩ := h.sizes_le _ n le_rfl hn
  have hlen := (List.getElem?_eq_some_iff.1 hn).1
  have hstart := h.start_le
  have hend := h.end_eq
  have hlt := h.end_lt
  have hmul := h.lastRecv_le_mul
  have hsize := h.size_le
  have hsizes := h.sizes_length
  have hnext : g.expectedDataNumber + 1 ≤ g.endDataNumber + 1 := by omega
  have hexpected : u32 (g.expectedDataNumber + 1) = g.expectedDataNumber + 1 := u32_of_lt (by omega)
  have hsum : g.lastRecvDataOffset + n ≤ g.size := by omega
  have hlast : u32 (g.lastRecvDataOffset + n) = g.lastRecvDataOffset + n := by
    apply u32_of_lt
    simp only [segmentSize] at hsize
    omega
  rw [hexpected, hlast]
  have hidx : g.expectedDataNumber + 1 - g.startDataNumber = g.expectedDataNumber - g.startDataNumber + 1 := by omega
  refine ⟨hsize, hend, hlt, h.buffer_length, hsizes, ?_, hnext, hsum, ?_, ?_, h.red_length, h.red_buffer_length⟩
  · exact hstart.trans (Nat.le_succ _)
  · change g.lastRecvDataOffset + n ≤ payloadSize * (g.expectedDataNumber + 1 - g.startDataNumber)
    rw [hidx, Nat.mul_add, Nat.mul_one]
    omega
  · intro i k hi hk
    change g.expectedDataNumber + 1 - g.startDataNumber ≤ i at hi
    exact h.sizes_le i k (by omega) hk

theorem fill (h : Sound g) (l : List ℕ) (hl : g.recvDataSize.drop (g.expectedDataNumber - g.startDataNumber) = l) :
    Sound (g.fill l) := by
  induction l generalizing g with
  | nil => exact h
  | cons n rest ih =>
    rw [Segment.fill]
    split_ifs
    · have hn : g.recvDataSize[g.expectedDataNumber - g.startDataNumber]? = some n := by
        rw [← List.head?_drop, hl]
        rfl
      have hnext := h.advance hn (g.complete || g.expectedDataNumber == g.endDataNumber)
      refine ih hnext ?_
      have hidx : u32 (g.expectedDataNumber + 1) - g.startDataNumber =
          g.expectedDataNumber - g.startDataNumber + 1 := by
        have hlen := (List.getElem?_eq_some_iff.1 hn).1
        have hlt := h.end_lt
        have hend := h.end_eq
        have hstart := h.start_le
        have hsizes := h.sizes_length
        rw [u32_of_lt (by omega)]
        omega
      simp only [hidx]
      rw [← List.tail_drop, hl]
      rfl
    · exact h

theorem store (h : Sound g) (hlo : g.startDataNumber ≤ d) (hhi : d ≤ g.endDataNumber)
    (hroom : payloadSize * (d - g.startDataNumber) + data.length ≤ g.size)
    (hone : g.expectedDataNumber ≤ d → data.length ≤ payloadSize) (numDataNumber : ℕ) :
    Sound { g with
      recvBuffer := writeAt g.recvBuffer (payloadSize * (d - g.startDataNumber)) data
      recvDataSize := g.recvDataSize.set (d - g.startDataNumber) data.length
      numDataNumber := numDataNumber } := by
  have hend := h.end_eq
  have hstart := h.start_le
  have hlen : d - g.startDataNumber < g.recvDataSize.length := by
    rw [h.sizes_length]
    omega
  refine ⟨h.size_le, h.end_eq, h.end_lt, ?_, ?_, h.start_le, h.le_end, h.lastRecv_le, h.lastRecv_le_mul, ?_,
    h.red_length, h.red_buffer_length⟩
  · rw [← h.buffer_length] at hroom ⊢
    exact writeAt_length _ _ _ hroom
  · exact (List.length_set ..).trans h.sizes_length
  · intro i n hi hn
    by_cases hid : d - g.startDataNumber = i
    · subst hid
      rw [List.getElem?_set_self hlen] at hn
      cases hn
      refine ⟨hone ?_, hroom⟩
      change g.expectedDataNumber - g.startDataNumber ≤ d - g.startDataNumber at hi
      omega
    · rw [List.getElem?_set_ne hid] at hn
      exact h.sizes_le i n hi hn

theorem pushData_eq (h : Sound g) (hlo : g.startDataNumber ≤ d) (hhi : d ≤ g.endDataNumber)
    (hdata : data.length < 2 ^ 16) :
    g.pushData g.blockNumber d data =
      if payloadSize * (d - g.startDataNumber) + data.length ≤ g.size then
        let g := { g with
          recvBuffer := writeAt g.recvBuffer (payloadSize * (d - g.startDataNumber)) data
          recvDataSize := g.recvDataSize.set (d - g.startDataNumber) data.length
          numDataNumber := u32 (g.numDataNumber + 1) }
        .ok (if d = g.expectedDataNumber then g.fill (g.recvDataSize.drop (d - g.startDataNumber)) else g, true)
      else .error .panic := by
  have hend := h.end_eq
  have hsize := h.size_le
  have hidx : d - g.startDataNumber < numData g.size := by omega
  have hpos := (lt_numData_iff _ _).1 hidx
  have hsizes : d - g.startDataNumber < g.recvDataSize.length := by
    rw [h.sizes_length]
    exact hidx
  have hsmall : payloadSize * (d - g.startDataNumber) + data.length < 2 ^ 32 := by
    simp only [segmentSize, payloadSize] at hsize hpos ⊢
    omega
  have hmul : u32 ((d - g.startDataNumber) * payloadSize) = payloadSize * (d - g.startDataNumber) := by
    rw [Nat.mul_comm]
    exact u32_of_lt (by omega)
  have hlen : u32 data.length = data.length := u32_of_lt (by omega)
  have hsum : u32 (payloadSize * (d - g.startDataNumber) + data.length) =
      payloadSize * (d - g.startDataNumber) + data.length := u32_of_lt hsmall
  have htake : data.take (payloadSize * (d - g.startDataNumber) + data.length - payloadSize * (d - g.startDataNumber)) =
      data := by
    rw [Nat.add_sub_cancel_left]
    exact List.take_length
  unfold Segment.pushData
  rw [if_pos ⟨rfl, hlo, hhi⟩]
  simp only [hmul, hlen, hsum, htake, h.buffer_length]
  by_cases hroom : payloadSize * (d - g.startDataNumber) + data.length ≤ g.size
  · rw [if_pos ⟨Nat.le_add_right _ _, hroom, hsizes⟩, if_pos hroom]
    split <;> rfl
  · rw [if_neg fun hfit => hroom hfit.2.1, if_neg hroom]

theorem pushData (h : Sound g) (hlo : g.startDataNumber ≤ d) (hhi : d ≤ g.endDataNumber)
    (hdata : data.length < 2 ^ 16) (hroom : payloadSize * (d - g.startDataNumber) + data.length ≤ g.size)
    (hone : g.expectedDataNumber ≤ d → data.length ≤ payloadSize) :
    ∃ g' r, g.pushData g.blockNumber d data = .ok (g', r) ∧ Sound g' := by
  rw [h.pushData_eq hlo hhi hdata, if_pos hroom]
  have hstore := h.store hlo hhi hroom hone (u32 (g.numDataNumber + 1))
  refine ⟨_, _, rfl, ?_⟩
  split
  next hexpected =>
    apply hstore.fill
    rw [hexpected]
  next => exact hstore

theorem pushRedData_eq (h : Sound g) (hlo : g.startRedDataNumber ≤ d) (hhi : d ≤ g.endRedDataNumber)
    (hdata : data.length < 2 ^ 16) :
    g.pushRedData g.blockNumber d data =
      if d - g.startRedDataNumber < g.recvRedDataSize.length ∧
          payloadSize * (d - g.startRedDataNumber) + data.length ≤ g.recvRedBuffer.length then
        .ok ({ g with
          recvRedBuffer := writeAt g.recvRedBuffer (payloadSize * (d - g.startRedDataNumber)) data
          recvRedDataSize := g.recvRedDataSize.set (d - g.startRedDataNumber) data.length
          numRedDataNumber := u32 (g.numRedDataNumber + 1) }, true)
      else .error .panic := by
  have hlen : u32 data.length = data.length := u32_of_lt (by omega)
  have hred := h.red_length
  unfold Segment.pushRedData
  rw [if_pos ⟨rfl, hlo, hhi⟩]
  simp only [hlen]
  by_cases hidx : d - g.startRedDataNumber < g.recvRedDataSize.length
  · have hsmall : payloadSize * (d - g.startRedDataNumber) + data.length < 2 ^ 32 := by
      simp only [payloadSize]
      omega
    have hmul : u32 ((d - g.startRedDataNumber) * payloadSize) = payloadSize * (d - g.startRedDataNumber) := by
      rw [Nat.mul_comm]
      exact u32_of_lt (by omega)
    have hsum : u32 (payloadSize * (d - g.startRedDataNumber) + data.length) =
        payloadSize * (d - g.startRedDataNumber) + data.length := u32_of_lt hsmall
    have htake : data.take
        (payloadSize * (d - g.startRedDataNumber) + data.length - payloadSize * (d - g.startRedDataNumber)) = data := by
      rw [Nat.add_sub_cancel_left]
      exact List.take_length
    simp only [hmul, hsum, htake]
    by_cases hroom : payloadSize * (d - g.startRedDataNumber) + data.length ≤ g.recvRedBuffer.length
    · rw [if_pos ⟨Nat.le_add_right _ _, hroom, hidx⟩, if_pos ⟨hidx, hroom⟩]
    · rw [if_neg fun hfit => hroom hfit.2.1, if_neg fun hfit => hroom hfit.2]
  · rw [if_neg fun hfit => hidx hfit.2.2, if_neg fun hfit => hidx hfit.1]

theorem pushRedData (h : Sound g) {b : ℕ} {r : Bool} (hpush : g.pushRedData b d data = .ok (g', r)) : Sound g' := by
  unfold Segment.pushRedData at hpush
  split at hpush
  next =>
    simp only at hpush
    split at hpush
    next hfit =>
      cases hpush
      refine h.congr rfl rfl rfl rfl rfl rfl rfl ?_ ?_
      · exact (List.length_set ..).trans_le h.red_length
      · refine (writeAt_length _ _ _ ?_).trans_le h.red_buffer_length
        rw [List.length_take]
        omega
    next => cases hpush
  next =>
    cases hpush
    exact h

theorem finish (h : Sound g) (fecFinish : Bool) : Sound { g with fecFinish := fecFinish } :=
  h.congr rfl rfl rfl rfl rfl rfl rfl h.red_length h.red_buffer_length

theorem popData (h : Sound g) {bufLen : ℕ} {done : Bool} (hpop : g.popData bufLen = .ok (data, done, g')) :
    Sound g' := by
  unfold Segment.popData at hpop
  dsimp only at hpop
  split_ifs at hpop
  all_goals
    rw [← (Prod.mk.inj (Prod.mk.inj (Except.ok.inj hpop)).2).2]
    exact h.congr rfl rfl rfl rfl rfl rfl rfl h.red_length h.red_buffer_length

theorem segment (hlt : job.offset < job.blockSize) (hb : job.blockSize < 2 ^ 32) (sessionID : ℕ) :
    Sound (job.segment sessionID) := by
  have hturn : AtTurn job.blockNumber job.blockSize job.offset 0 job := by
    refine ⟨rfl, rfl, ?_⟩
    rw [Nat.mul_zero, Nat.add_zero]
    omega
  have hshape := hturn.shaped hb hlt sessionID
  have hdata := (hturn.data_lt hb hlt).2
  have hend := hshape.end_eq
  have hsize := hshape.size
  have hzero : (job.segment sessionID).expectedDataNumber = (job.segment sessionID).startDataNumber := rfl
  have hstart : (job.segment sessionID).startDataNumber = job.startDataNumber := rfl
  have hjob : (job.segment sessionID).size = job.size := rfl
  refine ⟨?_, hend, ?_, hshape.buffer_length, hshape.sizes_length, le_of_eq hzero.symm, ?_, Nat.zero_le _,
    Nat.zero_le _, ?_, Nat.zero_le _, Nat.zero_le _⟩
  · rw [hsize]
    exact Nat.min_le_left _ _
  · rw [hend, hstart, hjob]
    omega
  · rw [hzero]
    omega
  · intro i n hi hn
    have hi' := (List.getElem?_eq_some_iff.1 hn).1
    rw [hshape.sizes_length] at hi'
    have hpos := (lt_numData_iff _ _).1 hi'
    have hnil : n = 0 := List.eq_of_mem_replicate (List.mem_of_getElem? hn)
    rw [hnil]
    exact ⟨Nat.zero_le _, by omega⟩

theorem fecSegment (hlt : job.offset < job.blockSize) (hb : job.blockSize < 2 ^ 32) (sessionID : ℕ) :
    Sound (job.fecSegment sessionID) := by
  have h := segment hlt hb sessionID
  have hturn : AtTurn job.blockNumber job.blockSize job.offset 0 job := by
    refine ⟨rfl, rfl, ?_⟩
    rw [Nat.mul_zero, Nat.add_zero]
    omega
  have hdata := (hturn.data_lt hb hlt).2
  have hend := hturn.endDataNumber hb hlt
  have hred : u32 (fecSymbolSize * u32Sub fecNumEncSymbols fecNumSourceSymbols) = 4096 := by decide
  have hnum : numData 4096 = 4 := by decide
  obtain ⟨hsizes, hbuffer⟩ := createSegmentWithRedundant_lengths job.blockNumber sessionID job.idx job.startDataNumber
    job.size job.lastSegment hred hnum (show job.endDataNumber + 1 + 4 < 2 ^ 32 by omega) (by decide)
  exact h.congr rfl rfl rfl rfl rfl rfl rfl (le_of_eq hsizes) (le_of_eq hbuffer)

end Sound

/-! ### The receive buffer -/

def AllSound (m : Manager) : Prop := ∀ b, ∀ g ∈ segments m b, Sound g

variable {m m' : Manager} {s : Mp2Session} {packet : BlockDataPacket}

theorem AllSound.within (h : AllSound m) : Within m := fun b g hg => (h b g hg).lastRecv_le

variable {b i : ℕ} {g : Segment}

theorem AllSound.replace (h : AllSound m) (hother : ∀ c ≠ b, segments m' c = segments m c)
    (hown : ∀ g ∈ segments m' b, Sound g) : AllSound m' := by
  intro c g hg
  by_cases hc : c = b
  · rw [hc] at hg
    exact hown g hg
  · rw [hother c hc] at hg
    exact h c g hg

theorem takes_redundant (hred : packet.redundant ≠ fecSourceData) (h : g.takes packet = true) :
    packet.blockNumber = g.blockNumber ∧ g.startRedDataNumber ≤ packet.dataNumber ∧
      packet.dataNumber ≤ g.endRedDataNumber := by
  simpa only [Segment.takes, if_neg hred, decide_eq_true_eq] using h

theorem found_cases (bb : BlockBuffer) (packet : BlockDataPacket) :
    (bb.buffer.findIdx? (·.takes packet) = none ∧ found bb packet = none) ∨
      ∃ i g, bb.buffer.findIdx? (·.takes packet) = some i ∧ bb.buffer[i]? = some g ∧ found bb packet = some g ∧
        g.takes packet = true := by
  unfold found
  cases hi : bb.buffer.findIdx? (·.takes packet) with
  | none => exact Or.inl ⟨rfl, rfl⟩
  | some i =>
    obtain ⟨hlt, htakes, _⟩ := List.findIdx?_eq_some_iff_getElem.1 hi
    exact Or.inr ⟨i, bb.buffer[i], rfl, List.getElem?_eq_getElem hlt, List.getElem?_eq_getElem hlt, htakes⟩

theorem fileBlockData_room {bb : BlockBuffer} (hbb : m.recvBuffer s.blockNumber = some bb)
    (hi : bb.buffer.findIdx? (·.takes packet) = some i) (hg : bb.buffer[i]? = some g)
    (htakes : g.takes packet = true) (hsound : Sound g) (hlen : packet.data.length < 2 ^ 16) :
    (Room g packet → ∃ m' g', fileBlockData m s packet = .ok (m', some (i, g')) ∧
      segments m' s.blockNumber = bb.buffer.set i g' ∧ (∀ c ≠ s.blockNumber, segments m' c = segments m c) ∧
      (OnePayload g packet → Sound g')) ∧
    (¬Room g packet → fileBlockData m s packet = .error .panic) := by
  unfold fileBlockData Room OnePayload
  simp only [hbb, hi, hg]
  by_cases hsrc : packet.redundant = fecSourceData
  · obtain ⟨hnum, hlo, hhi⟩ := takes_source hsrc htakes
    simp only [if_pos hsrc, hnum, hsound.pushData_eq hlo hhi hlen]
    refine ⟨?_, ?_⟩
    · intro hroom
      simp only [if_pos hroom]
      refine ⟨_, _, rfl, segments_setRecvBuffer_self .., ?_, ?_⟩
      · intro c hc
        exact segments_setRecvBuffer_of_ne _ _ hc
      · intro hone
        obtain ⟨g', r, hpush, hsound'⟩ := hsound.pushData hlo hhi hlen hroom (hone hsrc)
        rw [hsound.pushData_eq hlo hhi hlen, if_pos hroom] at hpush
        rw [← (Prod.mk.inj (Except.ok.inj hpush)).1] at hsound'
        exact hsound'
    · intro hroom
      simp only [if_neg hroom]
  · obtain ⟨hnum, hlo, hhi⟩ := takes_redundant hsrc htakes
    simp only [if_neg hsrc, hnum]
    refine ⟨?_, ?_⟩
    · intro hroom
      have hpush := hsound.pushRedData_eq hlo hhi hlen
      rw [if_pos hroom] at hpush
      rw [hpush]
      refine ⟨_, _, rfl, segments_setRecvBuffer_self .., ?_, fun _ => hsound.pushRedData hpush⟩
      intro c hc
      exact segments_setRecvBuffer_of_ne _ _ hc
    · intro hroom
      rw [hsound.pushRedData_eq hlo hhi hlen, if_neg hroom]

theorem fileBlockData_of_inRange (h : AllSound m) (hlen : packet.data.length < 2 ^ 16) (hrange : InRange m s packet) :
    ∃ m' o, fileBlockData m s packet = .ok (m', o) ∧
      (Paced m s packet → AllSound m' ∧ ∀ i g, o = some (i, g) → Sound g) := by
  obtain ⟨bb, hbb, hroom⟩ := hrange
  rcases found_cases bb packet with ⟨hi, _⟩ | ⟨i, g, hi, hg, hfound, htakes⟩
  · refine ⟨m, none, ?_, ?_⟩
    · unfold fileBlockData
      simp only [hbb, hi]
    · intro _
      exact ⟨h, fun _ _ ho => nomatch ho⟩
  · have hmem : g ∈ segments m s.blockNumber := by
      rw [segments_of_some hbb]
      exact List.mem_of_getElem? hg
    obtain ⟨m', g', hfile, hown, hother, hsound⟩ :=
      (fileBlockData_room hbb hi hg htakes (h _ g hmem) hlen).1 (hroom g hfound)
    refine ⟨m', _, hfile, ?_⟩
    intro hpaced
    have hg' := hsound (hpaced bb hbb g hfound)
    refine ⟨h.replace hother ?_, ?_⟩
    · intro x hx
      rw [hown] at hx
      rcases List.mem_or_eq_of_mem_set hx with hx | rfl
      · refine h s.blockNumber x ?_
        rw [segments_of_some hbb]
        exact hx
      · exact hg'
    · intro j x hx
      cases hx
      exact hg'

theorem fileBlockData_of_not_inRange (h : AllSound m) (hlen : packet.data.length < 2 ^ 16)
    (hrange : ¬InRange m s packet) : fileBlockData m s packet = .error .panic := by
  cases hbb : m.recvBuffer s.blockNumber with
  | none =>
    unfold fileBlockData
    simp only [hbb]
  | some bb =>
    rcases found_cases bb packet with ⟨_, hfound⟩ | ⟨i, g, hi, hg, hfound, htakes⟩
    · refine absurd ⟨bb, hbb, ?_⟩ hrange
      intro g hg
      rw [hfound] at hg
      cases hg
    · have hmem : g ∈ segments m s.blockNumber := by
        rw [segments_of_some hbb]
        exact List.mem_of_getElem? hg
      refine (fileBlockData_room hbb hi hg htakes (h _ g hmem) hlen).2 ?_
      intro hroom
      refine hrange ⟨bb, hbb, ?_⟩
      intro x hx
      rw [hfound] at hx
      cases hx
      exact hroom

theorem release_ne_panic (s : Mp2Session) (g : Segment) : s.release g ≠ .error .panic := by
  unfold Mp2Session.release
  split_ifs
  · exact fun h => nomatch h
  · exact fun h => nomatch h
  · exact fun h => nomatch h

theorem segments_setSegment (m : Manager) (b i : ℕ) (g : Segment) :
    segments (setSegment m b i g) b = (segments m b).set i g ∧
      ∀ c ≠ b, segments (setSegment m b i g) c = segments m c := by
  unfold setSegment
  cases hbb : m.recvBuffer b with
  | none =>
    have hnil : segments m b = [] := by
      unfold segments
      rw [hbb]
    rw [hnil]
    exact ⟨rfl, fun _ _ => rfl⟩
  | some bb =>
    rw [segments_of_some hbb]
    exact ⟨segments_setRecvBuffer_self .., fun c hc => segments_setRecvBuffer_of_ne _ _ hc⟩

theorem AllSound.setSegment (h : AllSound m) (hg : Sound g) : AllSound (setSegment m b i g) := by
  obtain ⟨hown, hother⟩ := segments_setSegment m b i g
  refine h.replace hother ?_
  intro x hx
  rw [hown] at hx
  rcases List.mem_or_eq_of_mem_set hx with hx | rfl
  · exact h b x hx
  · exact hg

theorem handleBlockDataPacket_ne_panic_iff (h : AllSound m) (hlen : packet.data.length < 2 ^ 16) :
    s.handleBlockDataPacket m packet ≠ .error .panic ↔ InRange m s packet := by
  rw [handleBlockDataPacket_eq]
  constructor
  · intro hne
    by_contra hrange
    rw [fileBlockData_of_not_inRange h hlen hrange] at hne
    exact hne rfl
  · intro hrange
    obtain ⟨m', o, hfile, _⟩ := fileBlockData_of_inRange h hlen hrange
    rw [hfile]
    rcases o with _ | ⟨i, g⟩
    · exact fun heq => nomatch heq
    · simp only
      cases hrelease : s.release g with
      | error e =>
        intro heq
        cases heq
        exact release_ne_panic s g hrelease
      | ok released => exact fun heq => nomatch heq

/-! ### Runs -/

theorem AllSound.init : AllSound init := by
  intro b g hg
  cases hg

theorem AllSound.addRecvBuffer (h : AllSound m) (hg : Sound g) (hadd : m.addRecvBuffer g = .ok m') :
    AllSound m' := by
  obtain ⟨hown, hother⟩ := addRecvBuffer_segments hadd
  refine h.replace hother ?_
  intro x hx
  rw [hown] at hx
  rcases List.mem_append.1 hx with hx | hx
  · exact h _ x hx
  · rw [List.mem_singleton.1 hx]
    exact hg

theorem AllSound.step (h : AllSound m) {a : Label} (hguard : Guard m a) (hstep : step m a = .ok m') : AllSound m' := by
  cases a with
  | info session packet sessionID =>
    cases hstep
    intro b g hg
    rw [segments_handleBlockInfoPacket] at hg
    exact h b g hg
  | request session job =>
    unfold Intake.step at hstep
    simp only at hstep
    split at hstep
    next => cases hstep
    next m₁ r hrequest =>
      cases hstep
      obtain ⟨s', job', id, packet⟩ := r
      obtain ⟨hlt, hadd, _⟩ := Mp2Session.sendBlockRequest_ok hrequest
      exact h.addRecvBuffer (Sound.segment hlt hguard id) hadd
  | fecRequest session numPeers job =>
    unfold Intake.step at hstep
    simp only at hstep
    split at hstep
    next => cases hstep
    next m₁ r hrequest =>
      cases hstep
      obtain ⟨s', job', packets⟩ := r
      obtain ⟨hlt, ⟨id, hadd⟩, _⟩ := Mp2Session.sendFecBlockRequest_ok hrequest
      exact h.addRecvBuffer (Sound.fecSegment hlt hguard id) hadd
  | data session packet =>
    obtain ⟨hlen, hrange, hpaced⟩ := hguard
    obtain ⟨m₁, o, hfile, hsound⟩ := fileBlockData_of_inRange h hlen hrange
    unfold Intake.step at hstep
    simp only [hfile] at hstep
    cases hstep
    exact (hsound hpaced).1
  | finish b i =>
    unfold Intake.step at hstep
    simp only at hstep
    split at hstep
    next => cases hstep
    next g hg =>
      split at hstep
      next =>
        cases hstep
        exact h.setSegment ((h b g (List.mem_of_getElem? hg)).finish true)
      next => cases hstep
  | flush b =>
    unfold Intake.step at hstep
    simp only at hstep
    split at hstep
    next => cases hstep
    next bb hbb =>
      split at hstep
      next =>
        cases hstep
        refine h.replace (fun c hc => segments_setRecvBuffer_of_ne _ _ hc) ?_
        intro g hg
        rw [segments_setRecvBuffer_self] at hg
        cases hg
      next => cases hstep
  | read b bufLen =>
    unfold Intake.step at hstep
    simp only at hstep
    split at hstep
    next => cases hstep
    next m₁ data hread =>
      cases hstep
      rcases mp2ReadBlock_ok hread with ⟨_, _, rfl, _⟩ | ⟨g, rest, done, g', hseg, _, hpop, hown, hother⟩
      · exact h
      · refine h.replace hother ?_
        have hall := h b
        rw [hseg] at hall
        intro x hx
        rw [hown] at hx
        split at hx
        next => exact hall x (List.mem_cons_of_mem g hx)
        next =>
          rcases List.mem_cons.1 hx with rfl | hx
          · exact (hall g (List.mem_cons_self ..)).popData hpop
          · exact hall x (List.mem_cons_of_mem g hx)

theorem allSound_of_run {as : List Label} (hrun : Run step Guard init as m) : AllSound m :=
  hrun.invariant AllSound AllSound.init fun _ _ _ h hguard hstep => h.step hguard hstep

theorem length_of_parse {r : Bytes} {p : Mp2session.BlockDataPacket} (hp : Mp2session.parseBlockDataPacket r = some p) :
    (received p).data.length < 2 ^ 16 := by
  unfold Mp2session.parseBlockDataPacket at hp
  obtain ⟨⟨⟨type, length⟩, r₁⟩, _, hp⟩ := Option.bind_eq_some_iff.1 hp
  obtain ⟨⟨blockNumber, r₂⟩, _, hp⟩ := Option.bind_eq_some_iff.1 hp
  obtain ⟨⟨dataNumber, r₃⟩, _, hp⟩ := Option.bind_eq_some_iff.1 hp
  obtain ⟨⟨sessionID, r₄⟩, _, hp⟩ := Option.bind_eq_some_iff.1 hp
  obtain ⟨⟨redundant, r₅⟩, _, hp⟩ := Option.bind_eq_some_iff.1 hp
  cases hp
  change (Wire.readData (length - 16).toNat r₅).length < 2 ^ 16
  rw [Wire.readData_length]
  exact UInt16.toNat_lt _

/-- In every run whose data packets fit, a parsed data packet is handled without a panic exactly if its block has a
buffer and its segment room for the payload; if it also is no longer than one payload where it is still expected, no
segment is filled beyond its size, not even while the handler waits for `sem`. -/
theorem data_packet_safe {as : List Label} (hrun : Run step Guard init as m) (s : Mp2Session) {r : Bytes}
    {p : Mp2session.BlockDataPacket} (hp : Mp2session.parseBlockDataPacket r = some p) :
    (s.handleBlockDataPacket m (received p) ≠ .error .panic ↔ InRange m s (received p)) ∧
    (InRange m s (received p) → Paced m s (received p) →
      ∃ m' o, fileBlockData m s (received p) = .ok (m', o) ∧ Within m' ∧
        ∀ m'' s', s.handleBlockDataPacket m (received p) = .ok (m'', s') → Within m'') := by
  have h := allSound_of_run hrun
  have hlen := length_of_parse hp
  refine ⟨handleBlockDataPacket_ne_panic_iff h hlen, ?_⟩
  intro hrange hpaced
  obtain ⟨m', o, hfile, hsound⟩ := fileBlockData_of_inRange h hlen hrange
  obtain ⟨hm', hg⟩ := hsound hpaced
  refine ⟨m', o, hfile, hm'.within, ?_⟩
  intro m'' s' hhandle
  rw [handleBlockDataPacket_eq, hfile] at hhandle
  rcases o with _ | ⟨i, g⟩
  · cases hhandle
    exact hm'.within
  · cases hrelease : s.release g with
    | error e =>
      simp only [hrelease] at hhandle
      cases hhandle
    | ok released =>
      simp only [hrelease] at hhandle
      cases hhandle
      obtain ⟨finish, hfinish⟩ := Mp2Session.release_segment hrelease
      rw [hfinish]
      exact (hm'.setSegment ((hg i g rfl).finish finish)).within

/-! ### One peer and one segment -/

def askingSession : Mp2Session := ⟨[1], [(1, .hasBlock)], 7, [1], 1⟩

def asked (blockSize : ℕ) : List Label :=
  [.info (Mp2Session.create [1]) ⟨7, .hasBlock, blockSize⟩ 1, .request askingSession ⟨7, blockSize, 0, 0⟩]

def waitingSession : Mp2Session := ⟨[1], [(1, .downloading)], 7, [], 1⟩

def dataOf (dataNumber : UInt32) (redundant : UInt8) (data : Bytes) : Mp2session.BlockDataPacket :=
  ⟨14, UInt16.ofNat (16 + data.length), 7, dataNumber, 1, redundant, data⟩

theorem data_packet_safe_two_bytes : ∃ m, Run step Guard init (asked 2) m ∧
    ∃ m' o, fileBlockData m waitingSession (received (dataOf 0 0 [5, 6])) = .ok (m', o) ∧ Within m' ∧
      ∀ m'' s', waitingSession.handleBlockDataPacket m (received (dataOf 0 0 [5, 6])) = .ok (m'', s') → Within m'' := by
  have hguarded : Guarded step Guard init (asked 2) :=
    ⟨trivial, show (2 : ℕ) < 2 ^ 32 by norm_num, trivial⟩
  have hrun := Run.of_exec (asked 2) hguarded rfl
  have hparse : Mp2session.parseBlockDataPacket [14, 0, 18, 0, 0, 0, 7, 0, 0, 0, 0, 0, 0, 0, 1, 0, 5, 6] =
      some (dataOf 0 0 [5, 6]) := by decide +kernel
  refine ⟨_, hrun, (data_packet_safe hrun waitingSession hparse).2 ⟨_, rfl, ?_⟩ ?_⟩
  · intro g hg
    cases hg
    decide
  · intro bb hbb g hg
    cases hbb
    cases hg
    decide

/-- There is no buffer before the Block Info Packet; three bytes for a block of two, or a redundant packet without
FEC, are out of range; 1025 and 1 bytes fill a segment of 1025 beyond its size. -/
theorem data_packet_crashes :
    (Mp2Session.create [1]).handleBlockDataPacket init (received (dataOf 0 0 [5, 6])) = .error .panic ∧
    (∃ m, Run step always init (asked 2) m ∧
      waitingSession.handleBlockDataPacket m (received (dataOf 0 0 [5, 6, 7])) = .error .panic ∧
      waitingSession.handleBlockDataPacket m (received (dataOf 0 1 [])) = .error .panic) ∧
    ∃ m, Run step always init (asked 1025 ++
      [.data waitingSession (received (dataOf 0 0 (List.replicate 1025 0))),
        .data waitingSession (received (dataOf 1 0 [0]))]) m ∧ ¬Within m := by
  have hguarded : Guarded step always init (asked 2) := Guarded.always _
  have hlong : Guarded step always init (asked 1025 ++
      [.data waitingSession (received (dataOf 0 0 (List.replicate 1025 0))),
        .data waitingSession (received (dataOf 1 0 [0]))]) := Guarded.always _
  refine ⟨rfl, ⟨_, Run.of_exec (asked 2) hguarded rfl, rfl, rfl⟩, ?_⟩
  obtain ⟨m, hrun, hover⟩ := Run.exists_of_exec step init _
    (fun m => (segments m 7).any fun g => decide (g.size < g.lastRecvDataOffset)) hlong (by decide +kernel)
  refine ⟨m, hrun, ?_⟩
  intro hwithin
  obtain ⟨g, hg, hlt⟩ := List.any_eq_true.1 hover
  exact absurd (hwithin 7 g hg) (Nat.not_le.2 (of_decide_eq_true hlt))

end Mp2bs.Block.Intake
