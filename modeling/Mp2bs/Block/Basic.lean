import Mp2bs.Go

/-!
# Constants and packets of the block layer

`config/config.go:30-64`, `mp2session/block_data_packet.go` and
`mp2session/block_request_packet.go`.
-/

namespace Mp2bs.Block

abbrev payloadSize : ℕ := 1024
abbrev segmentSize : ℕ := 2 * 1024 * 1024
abbrev fecSourceData : ℕ := 0
abbrev fecRedundantData : ℕ := 1

/-- `uint32(math.Ceil(float64(size) / float64(config.PAYLOAD_SIZE)))`, exact because the divisor is a
power of two. -/
def numData (size : ℕ) : ℕ := (size + payloadSize - 1) / payloadSize

structure BlockRequestPacket where
  blockNumber : ℕ
  startDataNumber : ℕ
  endDataNumber : ℕ
  fecIndex : ℕ
  deriving Repr, DecidableEq

structure BlockDataPacket where
  length : ℕ
  blockNumber : ℕ
  dataNumber : ℕ
  sessionID : ℕ
  redundant : ℕ
  data : Bytes
  deriving Repr, DecidableEq

abbrev blockDataPacketHeaderLen : ℕ := 16

/-- `CreateBlockDataPacket` (`block_data_packet.go:23-40`); the length is
converted to `uint16` before it is compared. -/
def createBlockDataPacket (blockNumber dataNumber sessionID redundant : ℕ) (data : Bytes) :
    Except Stop BlockDataPacket :=
  let length := (blockDataPacketHeaderLen + data.length) % 2 ^ 16
  if blockDataPacketHeaderLen + payloadSize < length then .error .panic
  else .ok ⟨length, blockNumber, dataNumber, sessionID, redundant, data⟩

theorem createBlockDataPacket_of_le (blockNumber dataNumber sessionID redundant : ℕ)
    (data : Bytes) (h : data.length ≤ payloadSize) :
    createBlockDataPacket blockNumber dataNumber sessionID redundant data =
      .ok ⟨16 + data.length, blockNumber, dataNumber, sessionID, redundant, data⟩ := by
  simp only [payloadSize] at h
  have hl : (16 + data.length) % 2 ^ 16 = 16 + data.length := Nat.mod_eq_of_lt (by omega)
  simp only [createBlockDataPacket, blockDataPacketHeaderLen, payloadSize, hl]
  rw [if_neg (by omega)]

theorem numData_pos {size : ℕ} (h : 0 < size) : 0 < numData size := by
  simp only [numData, payloadSize]
  omega

theorem lt_numData_iff (size i : ℕ) : i < numData size ↔ payloadSize * i < size := by
  simp only [numData, payloadSize]
  omega

theorem le_numData_mul (size : ℕ) : size ≤ payloadSize * numData size := by
  simp only [numData, payloadSize]
  omega

end Mp2bs.Block
