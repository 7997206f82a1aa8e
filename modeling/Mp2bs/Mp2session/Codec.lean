import Mp2bs.Block.Basic
import Mp2bs.Lib.Wire

/-!
# The packets of the mp2 layer (`mp2session/*_packet.go`)

Each packet starts with its type and a 16-bit length that its Create function counts by hand.
`sessionHandler` (`mp2session.go:105-152`) reads this header, then the rest of the packet into a buffer
of `PACKET_SIZE` bytes, and gives the whole buffer to `parsePacket`. A packet is recovered when it is
parsed; the handlers are left out here.
-/

namespace Mp2bs.Mp2session
open Mp2bs.Lib.Wire Mp2bs.Block

-- block_find_packet.go:11-15
structure BlockFindPacket where
  type : UInt8
  length : UInt16
  blockNumber : UInt32
  deriving Repr, DecidableEq

-- block_info_packet.go:11-17
structure BlockInfoPacket where
  type : UInt8
  length : UInt16
  blockNumber : UInt32
  status : UInt32
  blockSize : UInt32
  deriving Repr, DecidableEq

-- block_request_packet.go:11-18
structure BlockRequestPacket where
  type : UInt8
  length : UInt16
  blockNumber : UInt32
  startDataNumber : UInt32
  endDataNumber : UInt32
  fecIndex : UInt8
  deriving Repr, DecidableEq

-- block_data_packet.go:10-19
structure BlockDataPacket where
  type : UInt8
  length : UInt16
  blockNumber : UInt32
  dataNumber : UInt32
  sessionID : UInt32
  redundant : UInt8
  data : Bytes
  deriving Repr, DecidableEq

-- block_data_ack_packet.go:11-16
structure BlockDataAckPacket where
  type : UInt8
  length : UInt16
  blockNumber : UInt32
  lastDataNumber : UInt32
  deriving Repr, DecidableEq

-- block_fin_packet.go:11-16
structure BlockFinPacket where
  type : UInt8
  length : UInt16
  sessionID : UInt32
  blockNumber : UInt32
  deriving Repr, DecidableEq

-- control_packet.go:10-14
structure ControlPacket where
  type : UInt8
  length : UInt16
  data : Bytes
  deriving Repr, DecidableEq

-- node_info_packet.go:11-16
structure NodeInfo where
  nodeIP : UInt32
  port : UInt16
  numOfChilds : UInt8
  offsetOfChild : UInt8
  deriving Repr, DecidableEq

-- node_info_packet.go:18-24
structure NodeInfoPacket where
  type : UInt8
  length : UInt16
  reserved : UInt16
  nodeInfos : List NodeInfo
  deriving Repr, DecidableEq

-- node_info_ack_packet.go:11-15
structure NodeInfoAckPacket where
  type : UInt8
  length : UInt16
  numOfInfo : UInt16
  deriving Repr, DecidableEq

inductive Packet
  | blockFind (p : BlockFindPacket)
  | blockInfo (p : BlockInfoPacket)
  | blockRequest (p : BlockRequestPacket)
  | blockData (p : BlockDataPacket)
  | blockDataAck (p : BlockDataAckPacket)
  | blockFin (p : BlockFinPacket)
  | control (p : ControlPacket)
  | nodeInfo (p : NodeInfoPacket)
  | nodeInfoAck (p : NodeInfoAckPacket)
  deriving Repr, DecidableEq

/-! ### Create -/

/- The length of a packet with data, converted to `uint16` and then compared
(`block_data_packet.go:26-30`, `control_packet.go:21-25`). -/
def dataLength (headerLen : ℕ) (data : Bytes) : Except Stop UInt16 :=
  let length := UInt16.ofNat (headerLen + data.length)
  if headerLen + payloadSize < length.toNat then .error .panic else .ok length

-- block_find_packet.go:17-23
def createBlockFindPacket (blockNumber : UInt32) : BlockFindPacket := ⟨11, 7, blockNumber⟩

-- block_info_packet.go:19-27
def createBlockInfoPacket (blockNumber status blockSize : UInt32) : BlockInfoPacket :=
  ⟨12, 15, blockNumber, status, blockSize⟩

-- block_request_packet.go:20-29
def createBlockRequestPacket (blockNumber startDataNumber endDataNumber : UInt32)
    (fecIndex : UInt8) : BlockRequestPacket :=
  ⟨13, 16, blockNumber, startDataNumber, endDataNumber, fecIndex⟩

-- block_data_packet.go:23-40
def createBlockDataPacket (blockNumber dataNumber sessionID : UInt32) (redundant : UInt8)
    (data : Bytes) : Except Stop BlockDataPacket := do
  let length ← dataLength 16 data
  .ok ⟨14, length, blockNumber, dataNumber, sessionID, redundant, data⟩

-- block_data_ack_packet.go:18-26
def createBlockDataAckPacket (blockNumber lastDataNumber : UInt32) : BlockDataAckPacket :=
  ⟨15, 11, blockNumber, lastDataNumber⟩

-- block_fin_packet.go:18-26
def createBlockFinPacket (sessionID blockNumber : UInt32) : BlockFinPacket :=
  ⟨16, 11, sessionID, blockNumber⟩

-- control_packet.go:18-30
def createControlPacket (data : Bytes) : Except Stop ControlPacket := do
  let length ← dataLength 3 data
  .ok ⟨17, length, data⟩

-- node_info_packet.go:26-34
def createNodeInfoPacket (nodeInfos : List NodeInfo) : NodeInfoPacket :=
  ⟨18, UInt16.ofNat (5 + nodeInfos.length * 8), 0, nodeInfos⟩

-- node_info_ack_packet.go:17-24
def createNodeInfoAckPacket (numOfInfo : UInt16) : NodeInfoAckPacket := ⟨19, 5, numOfInfo⟩

def Payload : Type := { data : Bytes // data.length ≤ payloadSize }

inductive Call
  | blockFind (blockNumber : UInt32)
  | blockInfo (blockNumber status blockSize : UInt32)
  | blockRequest (blockNumber startDataNumber endDataNumber : UInt32) (fecIndex : UInt8)
  | blockData (blockNumber dataNumber sessionID : UInt32) (redundant : UInt8) (data : Payload)
  | blockDataAck (blockNumber lastDataNumber : UInt32)
  | blockFin (sessionID blockNumber : UInt32)
  | control (data : Payload)
  | nodeInfo (nodeInfos : List NodeInfo)
  | nodeInfoAck (numOfInfo : UInt16)

def Call.create : Call → Except Stop Packet
  | .blockFind blockNumber => .ok (.blockFind (createBlockFindPacket blockNumber))
  | .blockInfo blockNumber status blockSize =>
    .ok (.blockInfo (createBlockInfoPacket blockNumber status blockSize))
  | .blockRequest blockNumber startDataNumber endDataNumber fecIndex =>
    .ok (.blockRequest
      (createBlockRequestPacket blockNumber startDataNumber endDataNumber fecIndex))
  | .blockData blockNumber dataNumber sessionID redundant data =>
    (createBlockDataPacket blockNumber dataNumber sessionID redundant data.1).map .blockData
  | .blockDataAck blockNumber lastDataNumber =>
    .ok (.blockDataAck (createBlockDataAckPacket blockNumber lastDataNumber))
  | .blockFin sessionID blockNumber => .ok (.blockFin (createBlockFinPacket sessionID blockNumber))
  | .control data => (createControlPacket data.1).map .control
  | .nodeInfo nodeInfos => .ok (.nodeInfo (createNodeInfoPacket nodeInfos))
  | .nodeInfoAck numOfInfo => .ok (.nodeInfoAck (createNodeInfoAckPacket numOfInfo))

/-! ### Write -/

def writeHeader (type : UInt8) (length : UInt16) : Bytes := type :: writeUint16 length

-- block_find_packet.go:51-56
def BlockFindPacket.write (p : BlockFindPacket) : Bytes :=
  writeHeader p.type p.length ++ writeUint32 p.blockNumber

-- block_info_packet.go:67-74
def BlockInfoPacket.write (p : BlockInfoPacket) : Bytes :=
  writeHeader p.type p.length ++ (writeUint32 p.blockNumber ++
    (writeUint32 p.status ++ writeUint32 p.blockSize))

-- block_request_packet.go:75-83
def BlockRequestPacket.write (p : BlockRequestPacket) : Bytes :=
  writeHeader p.type p.length ++ (writeUint32 p.blockNumber ++
    (writeUint32 p.startDataNumber ++ (writeUint32 p.endDataNumber ++ [p.fecIndex])))

-- block_data_packet.go:88-98
def BlockDataPacket.write (p : BlockDataPacket) : Bytes :=
  writeHeader p.type p.length ++ (writeUint32 p.blockNumber ++
    (writeUint32 p.dataNumber ++ (writeUint32 p.sessionID ++ p.redundant :: p.data)))

-- block_data_ack_packet.go:60-67
def BlockDataAckPacket.write (p : BlockDataAckPacket) : Bytes :=
  writeHeader p.type p.length ++ (writeUint32 p.blockNumber ++ writeUint32 p.lastDataNumber)

-- block_fin_packet.go:60-67
def BlockFinPacket.write (p : BlockFinPacket) : Bytes :=
  writeHeader p.type p.length ++ (writeUint32 p.sessionID ++ writeUint32 p.blockNumber)

-- control_packet.go:54-60
def ControlPacket.write (p : ControlPacket) : Bytes :=
  writeHeader p.type p.length ++ p.data

-- node_info_packet.go:89-92
def NodeInfo.write (n : NodeInfo) : Bytes :=
  writeUint32 n.nodeIP ++ (writeUint16 n.port ++ [n.numOfChilds, n.offsetOfChild])

-- node_info_packet.go:83-96
def NodeInfoPacket.write (p : NodeInfoPacket) : Bytes :=
  writeHeader p.type p.length ++ (writeUint16 p.reserved ++ p.nodeInfos.flatMap NodeInfo.write)

-- node_info_ack_packet.go:51-57
def NodeInfoAckPacket.write (p : NodeInfoAckPacket) : Bytes :=
  writeHeader p.type p.length ++ writeUint16 p.numOfInfo

def Packet.write : Packet → Bytes
  | .blockFind p => p.write
  | .blockInfo p => p.write
  | .blockRequest p => p.write
  | .blockData p => p.write
  | .blockDataAck p => p.write
  | .blockFin p => p.write
  | .control p => p.write
  | .nodeInfo p => p.write
  | .nodeInfoAck p => p.write

/-! ### Parse -/

/- The type and the length, which every Parse function reads first. -/
def readHeader : Reader (UInt8 × UInt16) := fun r => do
  let (type, r) ← readByte r
  let (length, r) ← readUint16 r
  some ((type, length), r)

-- block_find_packet.go:25-48
def parseBlockFindPacket (r : Bytes) : Option BlockFindPacket := do
  let ((type, length), r) ← readHeader r
  let (blockNumber, _) ← readUint32 r
  some ⟨type, length, blockNumber⟩

-- block_info_packet.go:29-64
def parseBlockInfoPacket (r : Bytes) : Option BlockInfoPacket := do
  let ((type, length), r) ← readHeader r
  let (blockNumber, r) ← readUint32 r
  let (status, r) ← readUint32 r
  let (blockSize, _) ← readUint32 r
  some ⟨type, length, blockNumber, status, blockSize⟩

-- block_request_packet.go:31-72
def parseBlockRequestPacket (r : Bytes) : Option BlockRequestPacket := do
  let ((type, length), r) ← readHeader r
  let (blockNumber, r) ← readUint32 r
  let (startDataNumber, r) ← readUint32 r
  let (endDataNumber, r) ← readUint32 r
  let (fecIndex, _) ← readByte r
  some ⟨type, length, blockNumber, startDataNumber, endDataNumber, fecIndex⟩

-- block_data_packet.go:42-85
def parseBlockDataPacket (r : Bytes) : Option BlockDataPacket := do
  let ((type, length), r) ← readHeader r
  let (blockNumber, r) ← readUint32 r
  let (dataNumber, r) ← readUint32 r
  let (sessionID, r) ← readUint32 r
  let (redundant, r) ← readByte r
  some ⟨type, length, blockNumber, dataNumber, sessionID, redundant,
    readData (length - 16).toNat r⟩

-- block_data_ack_packet.go:28-57
def parseBlockDataAckPacket (r : Bytes) : Option BlockDataAckPacket := do
  let ((type, length), r) ← readHeader r
  let (blockNumber, r) ← readUint32 r
  let (lastDataNumber, _) ← readUint32 r
  some ⟨type, length, blockNumber, lastDataNumber⟩

-- block_fin_packet.go:28-57
def parseBlockFinPacket (r : Bytes) : Option BlockFinPacket := do
  let ((type, length), r) ← readHeader r
  let (sessionID, r) ← readUint32 r
  let (blockNumber, _) ← readUint32 r
  some ⟨type, length, sessionID, blockNumber⟩

-- control_packet.go:32-51
def parseControlPacket (r : Bytes) : Option ControlPacket := do
  let ((type, length), r) ← readHeader r
  some ⟨type, length, readData (length - 3).toNat r⟩

-- node_info_packet.go:54-71
def readNodeInfos : ℕ → Reader (List NodeInfo)
  | 0, r => some ([], r)
  | n + 1, r => do
    let (nodeIP, r) ← readUint32 r
    let (port, r) ← readUint16 r
    let (numOfChilds, r) ← readByte r
    let (offsetOfChild, r) ← readByte r
    let (nodeInfos, r) ← readNodeInfos n r
    some (⟨nodeIP, port, numOfChilds, offsetOfChild⟩ :: nodeInfos, r)

-- node_info_packet.go:36-80
def parseNodeInfoPacket (r : Bytes) : Option NodeInfoPacket := do
  let ((type, length), r) ← readHeader r
  let (reserved, r) ← readUint16 r
  let (nodeInfos, _) ← readNodeInfos ((length - 5) / 8).toNat r
  some ⟨type, length, reserved, nodeInfos⟩

-- node_info_ack_packet.go:26-48
def parseNodeInfoAckPacket (r : Bytes) : Option NodeInfoAckPacket := do
  let ((type, length), r) ← readHeader r
  let (numOfInfo, _) ← readUint16 r
  some ⟨type, length, numOfInfo⟩

/- `parsePacket` (`mp2session.go:154-226`); a read error and an unknown type are panics. -/
def parsePacket (packetType : UInt8) (packet : Bytes) : Option Packet :=
  match packetType.toNat with
  | 11 => (parseBlockFindPacket packet).map .blockFind
  | 12 => (parseBlockInfoPacket packet).map .blockInfo
  | 13 => (parseBlockRequestPacket packet).map .blockRequest
  | 14 => (parseBlockDataPacket packet).map .blockData
  | 15 => (parseBlockDataAckPacket packet).map .blockDataAck
  | 16 => (parseBlockFinPacket packet).map .blockFin
  | 17 => (parseControlPacket packet).map .control
  | 18 => (parseNodeInfoPacket packet).map .nodeInfo
  | 19 => (parseNodeInfoAckPacket packet).map .nodeInfoAck
  | _ => none

/- One turn of `sessionHandler` (`mp2session.go:111-151`) with the bytes that have come in. -/
def handlerTurn (packetSize : UInt16) (bs : Bytes) : Except Stop (Turn Packet) :=
  -- buf[:3]
  if packetSize.toNat < 3 then .error .panic
  else match readHeader bs with
    | none => .ok (.waits bs)
    | some ((packetType, packetLength), r) =>
      if packetType = 0 ∧ packetLength = 0 then .ok (.closes r)
      -- buf[3:packetLength]
      else if packetLength.toNat < 3 ∨ packetSize.toNat < packetLength.toNat then .error .panic
      else if r.length < packetLength.toNat - 3 then .ok (.waits r)
      else match parsePacket packetType (bs.take packetLength.toNat ++
          List.replicate (packetSize.toNat - packetLength.toNat) 0) with
        | none => .error .panic
        | some p => .ok (.packet p (bs.drop packetLength.toNat))

def sessionHandler (packetSize : UInt16) (bs : Bytes) : Except Stop (List Packet × Bytes) :=
  drain (handlerTurn packetSize) (bs.length + 1) bs

/-! ### One packet -/

@[simp] theorem readHeader_write (type : UInt8) (length : UInt16) (r : Bytes) :
    readHeader (writeHeader type length ++ r) = some ((type, length), r) := by
  simp [readHeader, writeHeader]

@[simp] theorem length_writeHeader (type : UInt8) (length : UInt16) :
    (writeHeader type length).length = 3 := rfl

theorem length_write_nodeInfos (nodeInfos : List NodeInfo) :
    (nodeInfos.flatMap NodeInfo.write).length = nodeInfos.length * 8 := by
  induction nodeInfos with
  | nil => rfl
  | cons n nodeInfos ih =>
    simp only [List.flatMap_cons, List.length_append, ih, NodeInfo.write, length_writeUint32,
      length_writeUint16, List.length_cons, List.length_nil]
    omega

theorem readNodeInfos_write (nodeInfos : List NodeInfo) (r : Bytes) :
    readNodeInfos nodeInfos.length (nodeInfos.flatMap NodeInfo.write ++ r) =
      some (nodeInfos, r) := by
  induction nodeInfos with
  | nil => rfl
  | cons n nodeInfos ih =>
    simp only [List.length_cons, List.flatMap_cons, NodeInfo.write, List.append_assoc,
      List.cons_append, List.nil_append, readNodeInfos, readUint32_write, readUint16_write,
      readByte_cons, Option.bind_eq_bind, Option.bind_some, ih]

theorem readNodeInfos_length {n : ℕ} {r r' : Bytes} {nodeInfos : List NodeInfo}
    (h : readNodeInfos n r = some (nodeInfos, r')) : nodeInfos.length = n := by
  induction n generalizing r nodeInfos r' with
  | zero =>
    simp only [readNodeInfos, Option.some.injEq, Prod.mk.injEq] at h
    rw [← h.1]
    rfl
  | succ n ih =>
    simp only [readNodeInfos, Option.bind_eq_bind, Option.bind_eq_some_iff, Option.some.injEq,
      Prod.mk.injEq] at h
    obtain ⟨_, -, _, -, _, -, _, -, x, hx, hcons, -⟩ := h
    rw [← hcons, List.length_cons, ih hx]

def Call.size : Call → ℕ
  | .blockFind _ => 7
  | .blockInfo _ _ _ => 15
  | .blockRequest _ _ _ _ => 16
  | .blockData _ _ _ _ data => 16 + data.1.length
  | .blockDataAck _ _ => 11
  | .blockFin _ _ => 11
  | .control data => 3 + data.1.length
  | .nodeInfo nodeInfos => 5 + nodeInfos.length * 8
  | .nodeInfoAck _ => 5

/- A packet of `size` bytes, its header with the size as a `uint16`. It is parsed back from a
buffer that it starts if the size is one, and it is not parsed from any buffer otherwise. -/
structure Encoded (size : ℕ) (p : Packet) (type : UInt8) (body : Bytes) : Prop where
  write : p.write = writeHeader type (UInt16.ofNat size) ++ body
  length : body.length + 3 = size
  type_ne : type ≠ 0
  parse : size < 2 ^ 16 → ∀ pad, parsePacket type (p.write ++ pad) = some p
  wrapped : 2 ^ 16 ≤ size → ∀ r, parsePacket type
    (writeHeader type (UInt16.ofNat size) ++ r) ≠ some p

theorem dataLength_of_le {headerLen : ℕ} {data : Bytes} (hh : headerLen ≤ 16)
    (h : data.length ≤ payloadSize) :
    dataLength headerLen data = .ok (UInt16.ofNat (headerLen + data.length)) := by
  unfold payloadSize at h
  simp only [dataLength, toNat_ofNat (show headerLen + data.length < 2 ^ 16 by omega), payloadSize]
  rw [if_neg (by omega)]

theorem Call.create_encoded (c : Call) :
    ∃ p type body, c.create = .ok p ∧ Encoded c.size p type body := by
  cases c with
  | blockFind blockNumber =>
    refine ⟨_, 11, _, rfl, rfl, rfl, by decide, fun _ pad => ?_,
      fun h => absurd h (by simp [Call.size])⟩
    simp [parsePacket, parseBlockFindPacket, Packet.write, BlockFindPacket.write,
      createBlockFindPacket]
  | blockInfo blockNumber status blockSize =>
    refine ⟨_, 12, _, rfl, rfl, rfl, by decide, fun _ pad => ?_,
      fun h => absurd h (by simp [Call.size])⟩
    simp [parsePacket, parseBlockInfoPacket, Packet.write, BlockInfoPacket.write,
      createBlockInfoPacket]
  | blockRequest blockNumber startDataNumber endDataNumber fecIndex =>
    refine ⟨_, 13, _, rfl, rfl, rfl, by decide, fun _ pad => ?_,
      fun h => absurd h (by simp [Call.size])⟩
    simp [parsePacket, parseBlockRequestPacket, Packet.write, BlockRequestPacket.write,
      createBlockRequestPacket]
  | blockData blockNumber dataNumber sessionID redundant data =>
    have hle := data.2
    unfold payloadSize at hle
    have hcreate : (Call.blockData blockNumber dataNumber sessionID redundant data).create =
        .ok (.blockData ⟨14, UInt16.ofNat (16 + data.1.length), blockNumber, dataNumber, sessionID,
          redundant, data.1⟩) := by
      simp only [Call.create, createBlockDataPacket, dataLength_of_le (le_refl 16) data.2]
      rfl
    refine ⟨_, 14, _, hcreate, rfl, ?_, by decide, fun hsize pad => ?_, fun h => ?_⟩
    · simp [Call.size]
      omega
    · have hsub := sub_ofNat hsize
      simp only [Packet.write, BlockDataPacket.write, parsePacket, parseBlockDataPacket,
        List.append_assoc, List.cons_append, readHeader_write, readUint32_write, readByte_cons,
        Option.bind_eq_bind, Option.bind_some]
      rw [show (16 : UInt16) = UInt16.ofNat 16 from rfl, hsub, readData_append]
      rfl
    · simp only [Call.size] at h
      omega
  | blockDataAck blockNumber lastDataNumber =>
    refine ⟨_, 15, _, rfl, rfl, rfl, by decide, fun _ pad => ?_,
      fun h => absurd h (by simp [Call.size])⟩
    simp [parsePacket, parseBlockDataAckPacket, Packet.write, BlockDataAckPacket.write,
      createBlockDataAckPacket]
  | blockFin sessionID blockNumber =>
    refine ⟨_, 16, _, rfl, rfl, rfl, by decide, fun _ pad => ?_,
      fun h => absurd h (by simp [Call.size])⟩
    simp [parsePacket, parseBlockFinPacket, Packet.write, BlockFinPacket.write,
      createBlockFinPacket]
  | control data =>
    have hle := data.2
    unfold payloadSize at hle
    have hcreate : (Call.control data).create =
        .ok (.control ⟨17, UInt16.ofNat (3 + data.1.length), data.1⟩) := by
      simp only [Call.create, createControlPacket,
        dataLength_of_le (by decide : 3 ≤ 16) data.2]
      rfl
    refine ⟨_, 17, _, hcreate, rfl, ?_, by decide, fun hsize pad => ?_, fun h => ?_⟩
    · simp only [Call.size]
      omega
    · have hsub := sub_ofNat hsize
      simp only [Packet.write, ControlPacket.write, parsePacket, parseControlPacket,
        List.append_assoc, readHeader_write, Option.bind_eq_bind, Option.bind_some]
      rw [show (3 : UInt16) = UInt16.ofNat 3 from rfl, hsub, readData_append]
      rfl
    · simp only [Call.size] at h
      omega
  | nodeInfo nodeInfos =>
    refine ⟨_, 18, _, rfl, rfl, ?_, by decide, fun hsize pad => ?_, fun h r hparse => ?_⟩
    · simp only [Call.size, createNodeInfoPacket, List.length_append, length_writeUint16,
        length_write_nodeInfos]
      omega
    · simp only [Call.size] at hsize
      have hcount : ((UInt16.ofNat (5 + nodeInfos.length * 8) - 5) / 8).toNat =
          nodeInfos.length := by
        rw [UInt16.toNat_div, show (5 : UInt16) = UInt16.ofNat 5 from rfl, sub_ofNat hsize]
        exact Nat.mul_div_cancel _ (by decide)
      simp only [createNodeInfoPacket, Packet.write, NodeInfoPacket.write, parsePacket,
        parseNodeInfoPacket, List.append_assoc, readHeader_write, readUint16_write,
        Option.bind_eq_bind, Option.bind_some, hcount, readNodeInfos_write]
      rfl
    · -- the count that is parsed comes from 16 bits
      simp only [createNodeInfoPacket, parsePacket, parseNodeInfoPacket, readHeader_write,
        Option.bind_eq_bind, Option.bind_some] at hparse
      simp only [UInt8.reduceToNat, Option.map_eq_some_iff, Option.bind_eq_some_iff,
        Option.some.injEq, Packet.nodeInfo.injEq] at hparse
      obtain ⟨_, ⟨_, -, x, hx, hpacket⟩, heq⟩ := hparse
      have hlen := readNodeInfos_length hx
      rw [← hpacket] at heq
      simp only [NodeInfoPacket.mk.injEq] at heq
      rw [heq.2.2.2, UInt16.toNat_div] at hlen
      have hlt := (UInt16.ofNat (Call.nodeInfo nodeInfos).size - 5).toNat_lt
      have height : (8 : UInt16).toNat = 8 := rfl
      rw [height] at hlen
      simp only [Call.size] at h
      omega
  | nodeInfoAck numOfInfo =>
    refine ⟨_, 19, _, rfl, rfl, rfl, by decide, fun _ pad => ?_,
      fun h => absurd h (by simp [Call.size])⟩
    simp [parsePacket, parseNodeInfoAckPacket, Packet.write, NodeInfoAckPacket.write,
      createNodeInfoAckPacket]

/-! ### One turn, and the stream -/

section
variable {packetSize : UInt16} {size : ℕ} {p : Packet} {type : UInt8} {body : Bytes}

theorem Encoded.length_write (h : Encoded size p type body) : p.write.length = size := by
  rw [h.write, List.length_append, length_writeHeader]
  have := h.length
  omega

theorem handlerTurn_nil (h : 3 ≤ packetSize.toNat) :
    handlerTurn packetSize [] = .ok (.waits []) := by
  rw [handlerTurn, if_neg (by omega)]
  rfl

theorem Encoded.turn (h : Encoded size p type body) (hfit : size ≤ packetSize.toNat)
    (rest : Bytes) : handlerTurn packetSize (p.write ++ rest) = .ok (.packet p rest) := by
  have hlt := packetSize.toNat_lt
  have hsize : size < 2 ^ 16 := by omega
  have hlen := h.length
  have hwrite := h.length_write
  have hnat := toNat_ofNat hsize
  have hparse := h.parse hsize (List.replicate (packetSize.toNat - size) 0)
  have hheader : readHeader (p.write ++ rest) =
      some ((type, UInt16.ofNat size), body ++ rest) := by
    rw [h.write, List.append_assoc, readHeader_write]
  have htake : (p.write ++ rest).take size = p.write := by
    rw [← hwrite, List.take_left]
  have hdrop : (p.write ++ rest).drop size = rest := by
    rw [← hwrite, List.drop_left]
  simp only [handlerTurn, hheader, hnat, htake, hdrop, hparse]
  rw [if_neg (by omega), if_neg (fun hz => h.type_ne hz.1), if_neg (by omega),
    if_neg (by rw [List.length_append]; omega)]

theorem Encoded.turn_ne (h : Encoded size p type body) (hfit : packetSize.toNat < size)
    {rest r : Bytes} {q : Packet}
    (hturn : handlerTurn packetSize (p.write ++ rest) = .ok (.packet q r)) : q ≠ p := by
  have hheader : readHeader (p.write ++ rest) =
      some ((type, UInt16.ofNat size), body ++ rest) := by
    rw [h.write, List.append_assoc, readHeader_write]
  simp only [handlerTurn, hheader] at hturn
  split at hturn
  · cases hturn
  split at hturn
  · cases hturn
  split at hturn
  · cases hturn
  rename_i hslice
  split at hturn
  · cases hturn
  split at hturn
  · cases hturn
  rename_i q' hparse
  simp only [Except.ok.injEq, Turn.packet.injEq] at hturn
  rw [hturn.1] at hparse
  intro heq
  by_cases hsize : size < 2 ^ 16
  · rw [toNat_ofNat hsize] at hslice
    omega
  · -- the buffer starts with the header that was written
    have hthree : 3 ≤ (UInt16.ofNat size).toNat := by omega
    have hbuf : ∃ tail, (p.write ++ rest).take (UInt16.ofNat size).toNat =
        writeHeader type (UInt16.ofNat size) ++ tail := by
      refine ⟨(body ++ rest).take ((UInt16.ofNat size).toNat - 3), ?_⟩
      rw [h.write, List.append_assoc, List.take_append, length_writeHeader,
        List.take_of_length_le (by rw [length_writeHeader]; exact hthree)]
    obtain ⟨tail, htail⟩ := hbuf
    rw [htail, List.append_assoc, heq] at hparse
    exact h.wrapped (Nat.le_of_not_lt hsize) _ hparse

end

theorem mapM_create (calls : List Call) : ∃ ps, calls.mapM Call.create = .ok ps ∧
    ps.map (fun p => p.write.length) = calls.map Call.size ∧
    ∀ p ∈ ps, ∃ type body, Encoded p.write.length p type body := by
  induction calls with
  | nil => exact ⟨[], rfl, rfl, by simp⟩
  | cons c calls ih =>
    obtain ⟨p, type, body, hc, henc⟩ := c.create_encoded
    obtain ⟨ps, hps, hsizes, hall⟩ := ih
    have hsize := henc.length_write
    refine ⟨p :: ps, ?_, ?_, ?_⟩
    · rw [List.mapM_cons, hc, hps]
      rfl
    · rw [List.map_cons, List.map_cons, hsizes, hsize]
    · intro q hq
      rcases List.mem_cons.mp hq with rfl | hq
      · rw [hsize]
        exact ⟨type, body, henc⟩
      · exact hall q hq

theorem length_le_flatMap_write {ps : List Packet}
    (h : ∀ p ∈ ps, ∃ type body, Encoded p.write.length p type body) :
    ps.length ≤ (ps.flatMap Packet.write).length := by
  induction ps with
  | nil => exact le_refl _
  | cons p ps ih =>
    obtain ⟨_, _, henc⟩ := h p (List.mem_cons_self ..)
    have hlen := henc.length
    have hps := ih fun q hq => h q (List.mem_cons_of_mem _ hq)
    rw [List.length_cons, List.flatMap_cons, List.length_append]
    omega

/- The handler recovers just the packets that were written, and takes all of their bytes, if each
of them fits into the buffer; if one does not, it does not. -/
theorem sessionHandler_recovers_iff (packetSize : UInt16) (calls : List Call) :
    ∃ ps, calls.mapM Call.create = .ok ps ∧
      (sessionHandler packetSize (ps.flatMap Packet.write) = .ok (ps, []) ↔
        3 ≤ packetSize.toNat ∧ ∀ c ∈ calls, c.size ≤ packetSize.toNat) := by
  obtain ⟨ps, hps, hsizes, henc⟩ := mapM_create calls
  have hfits : (∀ c ∈ calls, c.size ≤ packetSize.toNat) ↔
      ∀ p ∈ ps, p.write.length ≤ packetSize.toNat := by
    rw [← List.forall_mem_map (P := (· ≤ packetSize.toNat)), ← hsizes, List.forall_mem_map]
  refine ⟨ps, hps, ?_⟩
  rw [hfits]
  constructor
  · intro h
    have hthree : 3 ≤ packetSize.toNat := by
      by_contra hlt
      simp only [sessionHandler, drain, handlerTurn] at h
      rw [if_pos (by omega)] at h
      cases h
    refine ⟨hthree, turn_of_drain ?_ ?_ h⟩
    · intro p hp hfit rest
      obtain ⟨_, _, hp⟩ := henc p hp
      exact hp.turn hfit rest
    · intro p hp hfit rest q r hturn
      obtain ⟨_, _, hp⟩ := henc p hp
      exact hp.turn_ne (Nat.lt_of_not_le hfit) hturn
  · rintro ⟨hthree, hfit⟩
    apply drain_flatMap (handlerTurn_nil hthree)
    · intro p hp rest
      obtain ⟨_, _, henc⟩ := henc p hp
      exact henc.turn (hfit p hp) rest
    · have := length_le_flatMap_write henc
      omega

/- With the buffer of 1500 bytes that the configuration sets, a list of 187 nodes panics. -/
theorem sessionHandler_long_list :
    (Call.nodeInfo (List.replicate 187 ⟨0, 0, 0, 0⟩)).create =
      .ok (.nodeInfo (createNodeInfoPacket (List.replicate 187 ⟨0, 0, 0, 0⟩))) ∧
    sessionHandler 1500 (createNodeInfoPacket (List.replicate 187 ⟨0, 0, 0, 0⟩)).write =
      .error .panic := by
  refine ⟨rfl, ?_⟩
  decide +kernel

end Mp2bs.Mp2session
