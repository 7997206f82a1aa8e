import Mp2bs.Block.Reassembly

/-!
# The receiving side of a node

`mp2session/block_buffer.go`, the receive path of `Mp2SessionManager`
(`mp2session_manager.go:427-483, 640-655`) and the handlers of `Mp2Session`
(`mp2session.go:237-354, 416-474`). Each definition is one handler call, one read
call or one turn of the loop of `sendBlockRequest`. Line numbers alone are those of `mp2session.go`.
-/

namespace Mp2bs.Block
open Mp2bs.Lib.Slice

structure BlockBuffer where
  lastRecvBytes : ℕ
  readBytes : ℕ
  buffer : List Segment
  deriving Repr, DecidableEq

def createBlockBuffer : BlockBuffer := ⟨0, 0, []⟩

-- the fields of Mp2SessionManager on the receive path
structure Manager where
  sendBuffer : Bytes
  recvBuffer : ℕ → Option BlockBuffer
  goodbye : Bool

namespace Manager

def setRecvBuffer (m : Manager) (blockNumber : ℕ) (bb : BlockBuffer) : Manager :=
  { m with recvBuffer := Function.update m.recvBuffer blockNumber (some bb) }

@[simp] theorem setRecvBuffer_recvBuffer (m : Manager) (b : ℕ) (bb : BlockBuffer) :
    (m.setRecvBuffer b bb).recvBuffer b = some bb := by
  simp [setRecvBuffer]

-- AddRecvBuffer, mp2session_manager.go:641-650
def addRecvBuffer (m : Manager) (segment : Segment) : Except Stop Manager :=
  match m.recvBuffer segment.blockNumber with
  | none => .error .panic
  | some bb => .ok (m.setRecvBuffer segment.blockNumber { bb with buffer := bb.buffer ++ [segment] })

-- AddSendBuffer, mp2session_manager.go:653-655
def addSendBuffer (m : Manager) (buf : Bytes) : Manager :=
  { m with sendBuffer := m.sendBuffer ++ buf }

/-- `Mp2ReadBlock` (`mp2session_manager.go:427-483`) on a buffer of `bufLen` bytes. It waits
(`.blocked`) for a segment, then for data in the first one. -/
def mp2ReadBlock (m : Manager) (bufLen blockNumber : ℕ) : Except Stop (Manager × Bytes) :=
  match m.recvBuffer blockNumber with
  | none => .error .panic
  | some bb => match bb.buffer with
    | [] => if m.goodbye then .ok (m, []) else .error .blocked
    | segment :: rest =>
      if segment.hasDataToRead then match segment.popData bufLen with
        | .error e => .error e
        | .ok (data, complete, segment') =>
          let bb' : BlockBuffer := { bb with
            readBytes := u32 (bb.readBytes + u32 data.length)
            buffer := if complete then rest else segment' :: rest }
          .ok ({ m.setRecvBuffer blockNumber bb' with
            goodbye := m.goodbye || (complete && segment.last) }, data)
      else .error .blocked

end Manager

-- config.go:41-44
inductive PeerStatus where
  | notKnown
  | hasBlock
  | hasNoBlock
  | downloading
  deriving Repr, DecidableEq

/-- `Mp2Session` on the receive path. `blockOwners` is a Go map in the order in which `range` runs over
it. The channel `sem` has capacity `semCap` (zero before `sendBlockRequest` has made it). -/
structure Mp2Session where
  sessionMap : List ℕ
  blockOwners : List (ℕ × PeerStatus)
  blockNumber : ℕ
  sem : List ℕ
  semCap : ℕ
  deriving Repr, DecidableEq

-- the local variables of sendBlockRequest
structure RequestJob where
  blockNumber : ℕ
  blockSize : ℕ
  offset : ℕ
  idx : ℕ
  deriving Repr, DecidableEq

-- the size of the next segment, 443-447
def RequestJob.size (job : RequestJob) : ℕ :=
  if segmentSize ≤ u32Sub job.blockSize job.offset then segmentSize
  else u32Sub job.blockSize job.offset

structure BlockInfoPacket where
  blockNumber : ℕ
  status : PeerStatus
  blockSize : ℕ
  deriving Repr, DecidableEq

namespace Mp2Session

-- AddSession for each session of the list, 53-58
def create (sessions : List ℕ) : Mp2Session :=
  ⟨sessions, sessions.map fun id => (id, .notKnown), 0, [], 0⟩

-- FindBlock on each session, 61-70
def findBlock (s : Mp2Session) (blockNumber : ℕ) : Mp2Session :=
  { s with blockNumber := blockNumber, blockOwners := s.sessionMap.map fun id => (id, .notKnown) }

def setOwner (s : Mp2Session) (sessionID : ℕ) (status : PeerStatus) : Mp2Session :=
  { s with blockOwners :=
      if s.blockOwners.any (·.1 == sessionID) then
        s.blockOwners.map fun o => if o.1 = sessionID then (sessionID, status) else o
      else s.blockOwners ++ [(sessionID, status)] }

def ownersWith (s : Mp2Session) (status : PeerStatus) : List ℕ :=
  (s.blockOwners.filter (·.2 == status)).map (·.1)

-- the head of sendBlockRequest, 417-436
def startBlockRequest (s : Mp2Session) (blockNumber blockSize offset : ℕ) :
    Mp2Session × RequestJob :=
  ({ s with sem := s.ownersWith .hasBlock, semCap := (s.ownersWith .hasBlock).length },
    ⟨blockNumber, blockSize, offset, 0⟩)

/-- `handleBlockInfoPacket` (237-281), not in FEC mode: the last peer to answer makes the block
buffer and starts `sendBlockRequest`. The status in the packet is not looked at. -/
def handleBlockInfoPacket (m : Manager) (s : Mp2Session) (packet : BlockInfoPacket)
    (sessionID : ℕ) : Manager × Mp2Session × Option RequestJob :=
  let s := { s with blockNumber := packet.blockNumber }.setOwner sessionID .hasBlock
  let cnt := (s.ownersWith .hasBlock).length + (s.ownersWith .hasNoBlock).length
  if cnt = s.blockOwners.length then
    let bb := (m.recvBuffer s.blockNumber).getD createBlockBuffer
    let (s, job) := s.startBlockRequest packet.blockNumber packet.blockSize bb.lastRecvBytes
    (m.setRecvBuffer s.blockNumber bb, s, some job)
  else (m, s, none)

/-- One turn of the loop of `sendBlockRequest` (440-473): the session the
request goes to, and the request. -/
def sendBlockRequest (m : Manager) (s : Mp2Session) (job : RequestJob) :
    Except Stop (Manager × Mp2Session × RequestJob × ℕ × BlockRequestPacket) :=
  if job.offset < job.blockSize then match s.sem with
    | [] => .error .blocked
    | selectedSessionID :: sem =>
      let size := job.size
      let s := { s with sem := sem }.setOwner selectedSessionID .downloading
      let startDataNumber := job.offset / payloadSize
      let endDataNumber := u32Sub (u32 (startDataNumber + numData size)) 1
      let lastSegment : Bool := u32 (job.offset + size) == job.blockSize
      let segment := createSegment job.blockNumber selectedSessionID job.idx startDataNumber
        endDataNumber size lastSegment
      match m.addRecvBuffer segment with
      | .error e => .error e
      | .ok m =>
        -- sendPacket writes to the session of this ID, 750-759
        if selectedSessionID ∈ s.sessionMap then
          .ok (m, s, { job with offset := u32 (job.offset + size), idx := u32 (job.idx + 1) },
            selectedSessionID, ⟨job.blockNumber, startDataNumber, endDataNumber, 0⟩)
        else .error .panic
  else .error .blocked

theorem sendBlockRequest_eq_ok {m m' : Manager} {s s' : Mp2Session} {job job' : RequestJob}
    {id : ℕ} {packet : BlockRequestPacket}
    (h : s.sendBlockRequest m job = .ok (m', s', job', id, packet)) :
    ∃ sem, job.offset < job.blockSize ∧ s.sem = id :: sem ∧ id ∈ s.sessionMap ∧
      m.addRecvBuffer (createSegment job.blockNumber id job.idx (job.offset / payloadSize)
        (u32Sub (u32 (job.offset / payloadSize + numData job.size)) 1) job.size
        (u32 (job.offset + job.size) == job.blockSize)) = .ok m' ∧
      s' = { s with sem := sem }.setOwner id .downloading ∧
      job' = { job with offset := u32 (job.offset + job.size), idx := u32 (job.idx + 1) } ∧
      packet = ⟨job.blockNumber, job.offset / payloadSize,
        u32Sub (u32 (job.offset / payloadSize + numData job.size)) 1, 0⟩ := by
  unfold sendBlockRequest at h
  by_cases hlt : job.offset < job.blockSize
  · simp only [if_pos hlt] at h
    cases hsem : s.sem with
    | nil => simp [hsem] at h
    | cons sel sem =>
      simp only [hsem] at h
      split at h
      · cases h
      · rename_i m₁ hadd
        split_ifs at h with hmem
        simp only [Except.ok.injEq, Prod.mk.injEq] at h
        obtain ⟨rfl, rfl, rfl, rfl, rfl⟩ := h
        exact ⟨sem, hlt, rfl, hmem, hadd, rfl, rfl, rfl⟩
  · simp [if_neg hlt] at h

end Mp2Session

-- the test of the search loop, 305-322
def Segment.takes (g : Segment) (packet : BlockDataPacket) : Bool :=
  if packet.redundant = fecSourceData then
    packet.blockNumber = g.blockNumber ∧ g.startDataNumber ≤ packet.dataNumber ∧
      packet.dataNumber ≤ g.endDataNumber
  else
    packet.blockNumber = g.blockNumber ∧ g.startRedDataNumber ≤ packet.dataNumber ∧
      packet.dataNumber ≤ g.endRedDataNumber

namespace Mp2Session

-- the token of a completed segment, 348-353
def release (s : Mp2Session) (segment : Segment) : Except Stop (Mp2Session × Segment) :=
  if segment.complete ∧ ¬segment.fecFinish then
    if s.sem.length < s.semCap then
      .ok ({ s with sem := s.sem ++ [segment.sessionID] }, { segment with fecFinish := true })
    else .error .blocked
  else .ok (s, segment)

/-- The part of `handleBlockDataPacket` after the search (330-353), for the
segment at position `i` of the block buffer. -/
def storeBlockData (m : Manager) (s : Mp2Session) (bb : BlockBuffer) (i : ℕ) (segment : Segment)
    (packet : BlockDataPacket) : Except Stop (Manager × Mp2Session) :=
  if packet.redundant = fecSourceData then
    match segment.pushData packet.blockNumber packet.dataNumber packet.data with
    | .error e => .error e
    | .ok (segment, _) => match s.release segment with
      | .error e => .error e
      | .ok (s, segment) =>
        .ok ((m.addSendBuffer packet.data).setRecvBuffer s.blockNumber { bb with
          lastRecvBytes := u32 (bb.lastRecvBytes + u32 packet.data.length)
          buffer := bb.buffer.set i segment }, s)
  else
    match segment.pushRedData packet.blockNumber packet.dataNumber packet.data with
    | .error e => .error e
    | .ok (segment, _) => match s.release segment with
      | .error e => .error e
      | .ok (s, segment) =>
        .ok (m.setRecvBuffer s.blockNumber { bb with buffer := bb.buffer.set i segment }, s)

-- handleBlockDataPacket, 295-354
def handleBlockDataPacket (m : Manager) (s : Mp2Session) (packet : BlockDataPacket) :
    Except Stop (Manager × Mp2Session) :=
  match m.recvBuffer s.blockNumber with
  | none => .error .panic
  | some bb => match bb.buffer.findIdx? (·.takes packet) with
    | none => .ok (m, s)
    | some i => match bb.buffer[i]? with
      | none => .error .panic
      | some segment => s.storeBlockData m bb i segment packet

variable {s s' : Mp2Session} {g g' : Segment}

theorem release_blockNumber (h : s.release g = .ok (s', g')) : s'.blockNumber = s.blockNumber := by
  unfold release at h
  split_ifs at h
  · rw [← (Prod.mk.inj (Except.ok.inj h)).1]
  · rw [← (Prod.mk.inj (Except.ok.inj h)).1]

theorem release_segment (h : s.release g = .ok (s', g')) :
    ∃ finish, g' = { g with fecFinish := finish } := by
  unfold release at h
  split_ifs at h
  · exact ⟨true, (Prod.mk.inj (Except.ok.inj h)).2.symm⟩
  · exact ⟨g.fecFinish, (Prod.mk.inj (Except.ok.inj h)).2.symm⟩

theorem handleBlockDataPacket_ok {m m' : Manager} {packet : BlockDataPacket}
    (h : s.handleBlockDataPacket m packet = .ok (m', s')) :
    ∃ bb, m.recvBuffer s.blockNumber = some bb ∧
      ((bb.buffer.findIdx? (·.takes packet) = none ∧ m' = m ∧ s' = s) ∨
        ∃ i g g₁ r g₂, bb.buffer.findIdx? (·.takes packet) = some i ∧ bb.buffer[i]? = some g ∧
          g.takes packet = true ∧ s.release g₁ = .ok (s', g₂) ∧
          (packet.redundant = fecSourceData ∧
              g.pushData packet.blockNumber packet.dataNumber packet.data = .ok (g₁, r) ∧
              m' = (m.addSendBuffer packet.data).setRecvBuffer s.blockNumber { bb with
                lastRecvBytes := u32 (bb.lastRecvBytes + u32 packet.data.length)
                buffer := bb.buffer.set i g₂ } ∨
            packet.redundant ≠ fecSourceData ∧
              g.pushRedData packet.blockNumber packet.dataNumber packet.data = .ok (g₁, r) ∧
              m' = m.setRecvBuffer s.blockNumber { bb with buffer := bb.buffer.set i g₂ })) := by
  unfold handleBlockDataPacket at h
  cases hm : m.recvBuffer s.blockNumber with
  | none => simp [hm] at h
  | some bb =>
    refine ⟨bb, rfl, ?_⟩
    simp only [hm] at h
    cases hi : bb.buffer.findIdx? (·.takes packet) with
    | none =>
      simp only [hi, Except.ok.injEq, Prod.mk.injEq] at h
      exact .inl ⟨rfl, h.1.symm, h.2.symm⟩
    | some i =>
      obtain ⟨hlt, htakes, _⟩ := List.findIdx?_eq_some_iff_getElem.mp hi
      simp only [hi, List.getElem?_eq_getElem hlt, storeBlockData] at h
      right
      split_ifs at h with hsrc
      all_goals
        split at h
        · cases h
        · rename_i g₁ r hpush
          split at h
          · cases h
          · rename_i s₁ g₂ hrelease
            simp only [Except.ok.injEq, Prod.mk.injEq] at h
            obtain ⟨rfl, rfl⟩ := h
            refine ⟨i, _, g₁, r, g₂, rfl, List.getElem?_eq_getElem hlt, htakes, hrelease, ?_⟩
            rw [release_blockNumber hrelease]
            first
              | exact .inl ⟨hsrc, hpush, rfl⟩
              | exact .inr ⟨hsrc, hpush, rfl⟩

end Mp2Session

end Mp2bs.Block
