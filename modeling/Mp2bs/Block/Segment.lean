import Mp2bs.Block.Basic
import Mp2bs.Lib.Slice
import Mp2bs.Lib.FrontRun

/-!
# Segments of the receive buffer (`mp2session/segment.go`)

A segment collects the data packets of one block request. Every slice expression and index is checked
(`.error .panic` where Go would panic).
-/

namespace Mp2bs.Block
open Mp2bs.Lib.Slice Mp2bs.Lib.FrontRun

structure Segment where
  blockNumber : ℕ
  sessionID : ℕ
  index : ℕ
  startDataNumber : ℕ
  endDataNumber : ℕ
  expectedDataNumber : ℕ
  readDataOffset : ℕ
  lastRecvDataOffset : ℕ
  size : ℕ
  complete : Bool
  last : Bool
  recvBuffer : Bytes
  recvDataSize : List ℕ
  -- FEC mode
  symSize : ℕ
  numSrcSymbols : ℕ
  numEncSymbols : ℕ
  numDataNumber : ℕ
  numRedDataNumber : ℕ
  startRedDataNumber : ℕ
  endRedDataNumber : ℕ
  recvRedBuffer : Bytes
  recvRedDataSize : List ℕ
  fecFinish : Bool
  deriving Repr, DecidableEq

/-- `CreateSegment` (39-68). -/
def createSegment (blockNumber sessionID idx start end' size : ℕ) (last : Bool) : Segment where
  blockNumber := blockNumber
  sessionID := sessionID
  index := idx
  startDataNumber := start
  endDataNumber := end'
  expectedDataNumber := start
  readDataOffset := 0
  lastRecvDataOffset := 0
  size := size
  complete := false
  last := last
  recvBuffer := List.replicate size 0
  recvDataSize := List.replicate (u32 (u32Sub end' start + 1)) 0
  symSize := 0
  numSrcSymbols := 0
  numEncSymbols := 0
  numDataNumber := 0
  numRedDataNumber := 0
  startRedDataNumber := 0
  endRedDataNumber := 0
  recvRedBuffer := []
  recvRedDataSize := []
  fecFinish := false

/-- `CreateSegmentWithRedundant` (70-97). -/
def createSegmentWithRedundant (blockNumber sessionID idx start end' size : ℕ) (last : Bool)
    (symSize numSrcSym numEncSym : ℕ) : Segment :=
  let redundantSize := u32 (symSize * u32Sub numEncSym numSrcSym)
  let startRed := u32 (end' + 1)
  let endRed := u32Sub (u32 (startRed + numData redundantSize)) 1
  { createSegment blockNumber sessionID idx start end' size last with
    symSize := symSize
    numSrcSymbols := numSrcSym
    numEncSymbols := numEncSym
    startRedDataNumber := startRed
    endRedDataNumber := endRed
    recvRedBuffer := List.replicate redundantSize 0
    recvRedDataSize := List.replicate (u32 (u32Sub endRed startRed + 1)) 0 }

namespace Segment

/-- The loop of `PushData` that moves `expectedDataNumber` over the packets that are there
(114-125), on the entries of `recvDataSize` from that number on. -/
def fill (g : Segment) : List ℕ → Segment
  | [] => g
  | size :: rest =>
    if 0 < size then
      fill { g with
        complete := g.complete || g.expectedDataNumber == g.endDataNumber
        lastRecvDataOffset := u32 (g.lastRecvDataOffset + size)
        expectedDataNumber := u32 (g.expectedDataNumber + 1) } rest
    else g

/-- `PushData` (99-133). -/
def pushData (g : Segment) (blockNumber dataNumber : ℕ) (data : Bytes) :
    Except Stop (Segment × Bool) :=
  if blockNumber = g.blockNumber ∧ g.startDataNumber ≤ dataNumber ∧
      dataNumber ≤ g.endDataNumber then
    let dataIdx := dataNumber - g.startDataNumber
    let startIdx := u32 (dataIdx * payloadSize)
    let endIdx := u32 (startIdx + u32 data.length)
    if startIdx ≤ endIdx ∧ endIdx ≤ g.recvBuffer.length ∧ dataIdx < g.recvDataSize.length then
      let g := { g with
        recvBuffer := writeAt g.recvBuffer startIdx (data.take (endIdx - startIdx))
        recvDataSize := g.recvDataSize.set dataIdx (u32 data.length)
        numDataNumber := u32 (g.numDataNumber + 1) }
      if dataNumber = g.expectedDataNumber then
        .ok (g.fill (g.recvDataSize.drop dataIdx), true)
      else .ok (g, true)
    else .error .panic
  else .ok (g, false)

/-- `PushRedData` (136-155). -/
def pushRedData (g : Segment) (blockNumber dataNumber : ℕ) (data : Bytes) :
    Except Stop (Segment × Bool) :=
  if blockNumber = g.blockNumber ∧ g.startRedDataNumber ≤ dataNumber ∧
      dataNumber ≤ g.endRedDataNumber then
    let dataIdx := dataNumber - g.startRedDataNumber
    let startIdx := u32 (dataIdx * payloadSize)
    let endIdx := u32 (startIdx + u32 data.length)
    if startIdx ≤ endIdx ∧ endIdx ≤ g.recvRedBuffer.length ∧
        dataIdx < g.recvRedDataSize.length then
      .ok ({ g with
        recvRedBuffer := writeAt g.recvRedBuffer startIdx (data.take (endIdx - startIdx))
        recvRedDataSize := g.recvRedDataSize.set dataIdx (u32 data.length)
        numRedDataNumber := u32 (g.numRedDataNumber + 1) }, true)
    else .error .panic
  else .ok (g, false)

/-- `hasDataToRead` (185-187). -/
def hasDataToRead (g : Segment) : Bool := g.readDataOffset < g.lastRecvDataOffset

/-- `PopData` (157-183) on a buffer of `bufLen` bytes: the bytes
copied, whether the segment has been read to its end, and the segment after. -/
def popData (g : Segment) (bufLen : ℕ) : Except Stop (Bytes × Bool × Segment) :=
  if g.readDataOffset < g.lastRecvDataOffset then
    let unreadDataSize := u32Sub g.lastRecvDataOffset g.readDataOffset
    let readLen := if u32 bufLen < unreadDataSize then u32 bufLen else unreadDataSize
    let high := u32 (g.readDataOffset + readLen)
    if g.readDataOffset ≤ high ∧ high ≤ g.recvBuffer.length then
      let g' := { g with readDataOffset := high }
      .ok (window g.recvBuffer g.readDataOffset (high - g.readDataOffset),
        g'.readDataOffset == g'.size, g')
    else .error .panic
  else .ok ([], g.readDataOffset == g.size, g)

end Segment

end Mp2bs.Block
