import Mp2bs.Go
import Mp2bs.Lib.Slice
import Mp2bs.Lib.Machine

/-!
# The receive buffer of one FEC block (`enhanced-quic/fec/fec_buffer.go`)

A `FecBuffer` collects the 16 symbols of a block of the stream and its four redundant symbols. Frames
that continue what is there are copied into `encBlock` at once, frames behind a gap wait in one of two
queues until `GetEncodeBlock`. Slices and indexes out of range are `.error .panic`.
-/

namespace Mp2bs.Fec
open Mp2bs.Lib.Slice Mp2bs.Lib.Machine

def symbolSize : ℕ := 1024
def numSrcSymbols : ℕ := 16
-- uint32(float32(numSrcSyms) / 0.8), 43-44
def numEncSymbols : ℕ := 20
def srcBlockSize : ℕ := symbolSize * numSrcSymbols
def recvSizeForDecode : ℕ := symbolSize * 18

-- internal/wire/stream_frame.go:13-21
structure StreamFrame where
  streamID : ℕ
  offset : ℕ
  data : Bytes
  fin : Bool
  deriving Repr, DecidableEq

-- internal/wire/fec_frame.go:13-23
structure FecFrame where
  streamID : ℕ
  streamOffset : ℕ
  symbolSize : ℕ
  numOfSymbols : ℕ
  fecDataOffset : ℕ
  fecDataLength : ℕ
  fecTotalLength : ℕ
  fecData : Bytes
  fin : Bool
  deriving Repr, DecidableEq

/- The fields that never change after `Init` but for their default are constants above; the
timer is with the goroutines. `packetNumberMap` has its last entry first. -/
structure FecBuffer where
  streamID : ℕ
  startStreamOffset : ℕ
  endStreamOffset : ℕ
  nextFrameOffset : ℕ
  streamFrameDataLength : ℕ
  fecFrameDataLength : ℕ
  oobStreamFrameQueue : List StreamFrame
  oobFecFrameQueue : List FecFrame
  encBlock : Bytes
  bufferMap : List ℕ
  decodeStarted : Bool
  packetNumberMap : List (ℕ × ℕ)
  deriving Repr, DecidableEq

-- Init, 38-79
def FecBuffer.init (streamID startOffset : ℕ) : FecBuffer where
  streamID := streamID
  startStreamOffset := startOffset
  endStreamOffset := startOffset + srcBlockSize - 1
  nextFrameOffset := startOffset
  streamFrameDataLength := 0
  fecFrameDataLength := 0
  oobStreamFrameQueue := []
  oobFecFrameQueue := []
  encBlock := List.replicate (symbolSize * numEncSymbols) 0
  bufferMap := List.replicate numEncSymbols 0
  decodeStarted := false
  packetNumberMap := []

/- `copy(block[startPos:endPos], data)` with `endPos - startPos = len(data)`. -/
def copyAt (block : Bytes) (startPos : ℕ) (data : Bytes) : Except Stop Bytes :=
  if startPos + data.length ≤ block.length then .ok (writeAt block startPos data)
  else .error .panic

-- the loop of setBufferMap, 228-239; the first argument counts its turns
def fillMap : ℕ → ℕ → ℕ → List ℕ → Except Stop (List ℕ)
  | 0, _, _, bufferMap => .ok bufferMap
  | turns + 1, i, remainingLength, bufferMap =>
    match bufferMap[i]? with
    | none => .error .panic
    | some received =>
      let diff := symbolSize - received
      if diff ≤ remainingLength then
        fillMap turns (i + 1) (remainingLength - diff) (bufferMap.set i (received + diff))
      else .ok (bufferMap.set i (received + remainingLength))

-- setBufferMap, 217-240
def setBufferMap (startStreamOffset startOffset endOffset : ℕ) (bufferMap : List ℕ) :
    Except Stop (List ℕ) :=
  let startSymIndex := u32 (startOffset - startStreamOffset) / symbolSize
  let endSymIndex := u32 (endOffset - startStreamOffset) / symbolSize
  let endSymIndex := if endSymIndex = bufferMap.length then endSymIndex - 1 else endSymIndex
  fillMap (endSymIndex + 1 - startSymIndex) startSymIndex (endOffset - startOffset) bufferMap

section
variable {α : Type} (offset : α → ℕ) (data : α → Bytes)

/- The loop that moves `nextFrameOffset` over waiting frames (110-120 and
180-190). When it has passed over all of them the queue stays as it was. -/
def drain (queue : List α) : List α → ℕ → ℕ × List α
  | [], nextFrameOffset => (nextFrameOffset, queue)
  | frame :: rest, nextFrameOffset =>
    if offset frame = nextFrameOffset then drain queue rest (offset frame + (data frame).length)
    else (nextFrameOffset, frame :: rest)

structure Placed (α : Type) where
  encBlock : Bytes
  nextFrameOffset : ℕ
  queue : List α
  bufferMap : List ℕ

/- The common body of `PushStreamFrame` and `PushFecFrame` (81-148 and 150-215), which differ in
the queue and in where a frame begins; `none` is the return for a full duplicate. -/
def FecBuffer.place (b : FecBuffer) (queue : List α) (frame : α) :
    Except Stop (Option (Placed α)) :=
  let startOffset := offset frame
  let endOffset := startOffset + (data frame).length
  let placed (encBlock : Bytes) (nextFrameOffset : ℕ) (queue : List α) :
      Except Stop (Option (Placed α)) :=
    match setBufferMap b.startStreamOffset b.nextFrameOffset nextFrameOffset b.bufferMap with
    | .error e => .error e
    | .ok bufferMap => .ok (some ⟨encBlock, nextFrameOffset, queue, bufferMap⟩)
  if startOffset < b.nextFrameOffset ∧ endOffset ≤ b.nextFrameOffset then .ok none
  else if startOffset = b.nextFrameOffset then
    match copyAt b.encBlock (startOffset - b.startStreamOffset) (data frame) with
    | .error e => .error e
    | .ok encBlock =>
      let (nextFrameOffset, queue) := drain offset data queue queue endOffset
      placed encBlock nextFrameOffset queue
  else if b.nextFrameOffset < startOffset then
    placed b.encBlock b.nextFrameOffset
      ((queue ++ [frame]).insertionSort (fun x y => offset x ≤ offset y))
  else placed b.encBlock b.nextFrameOffset queue

-- a loop of GetEncodeBlock over one of the queues, 244-259 and 262-277
def takeIn (startStreamOffset : ℕ) : List α → Bytes × List ℕ → Except Stop (Bytes × List ℕ)
  | [], blocks => .ok blocks
  | frame :: rest, (encBlock, bufferMap) =>
    match copyAt encBlock (offset frame - startStreamOffset) (data frame) with
    | .error e => .error e
    | .ok encBlock =>
      match setBufferMap startStreamOffset (offset frame) (offset frame + (data frame).length)
          bufferMap with
      | .error e => .error e
      | .ok bufferMap => takeIn startStreamOffset rest (encBlock, bufferMap)

end

namespace FecBuffer

-- where a FEC frame begins in the buffer, line 152
def fecStart (b : FecBuffer) (frame : FecFrame) : ℕ := b.endStreamOffset + 1 + frame.fecDataOffset

def putStream (b : FecBuffer) (frame : StreamFrame) (packetNumber : ℕ)
    (placed : Placed StreamFrame) : FecBuffer :=
  { b with
    encBlock := placed.encBlock
    nextFrameOffset := placed.nextFrameOffset
    oobStreamFrameQueue := placed.queue
    streamFrameDataLength := b.streamFrameDataLength + frame.data.length
    bufferMap := placed.bufferMap
    packetNumberMap := (frame.offset, packetNumber) :: b.packetNumberMap }

def putFec (b : FecBuffer) (frame : FecFrame) (placed : Placed FecFrame) : FecBuffer :=
  { b with
    encBlock := placed.encBlock
    nextFrameOffset := placed.nextFrameOffset
    oobFecFrameQueue := placed.queue
    fecFrameDataLength := b.fecFrameDataLength + frame.fecData.length
    bufferMap := placed.bufferMap }

-- PushStreamFrame, 81-148
def pushStreamFrame (b : FecBuffer) (frame : StreamFrame) (packetNumber : ℕ) :
    Except Stop FecBuffer :=
  match b.place (·.offset) (·.data) b.oobStreamFrameQueue frame with
  | .error e => .error e
  | .ok none => .ok b
  | .ok (some placed) => .ok (b.putStream frame packetNumber placed)

-- PushFecFrame, 150-215
def pushFecFrame (b : FecBuffer) (frame : FecFrame) : Except Stop FecBuffer :=
  match b.place b.fecStart (·.fecData) b.oobFecFrameQueue frame with
  | .error e => .error e
  | .ok none => .ok b
  | .ok (some placed) => .ok (b.putFec frame placed)

end FecBuffer

structure EncodeBlock where
  encBlock : Bytes
  symbolMap : List ℕ
  lost : ℕ
  deriving Repr, DecidableEq

/- The compaction loop (283-297) from symbol `i` on, whose entries of
`bufferMap` are the first argument. -/
def compact (block : Bytes) : List ℕ → ℕ → ℕ → EncodeBlock → Except Stop EncodeBlock
  | [], _, _, out => .ok out
  | received :: rest, i, idx, out =>
    if received = symbolSize then
      match copyAt out.encBlock (idx * symbolSize) (window block (i * symbolSize) symbolSize) with
      | .error e => .error e
      | .ok encBlock =>
        compact block rest (i + 1) (idx + 1) ⟨encBlock, out.symbolMap.set idx i, out.lost⟩
    else compact block rest (i + 1) idx { out with lost := out.lost + 1 }

-- GetEncodeBlock, 242-300
def FecBuffer.getEncodeBlock (b : FecBuffer) : Except Stop (FecBuffer × EncodeBlock) :=
  match takeIn (·.offset) (·.data) b.startStreamOffset b.oobStreamFrameQueue
      (b.encBlock, b.bufferMap) with
  | .error e => .error e
  | .ok blocks => match takeIn b.fecStart (·.fecData) b.startStreamOffset b.oobFecFrameQueue
        blocks with
    | .error e => .error e
    | .ok (encBlock, bufferMap) =>
      match compact encBlock bufferMap 0 0
          ⟨List.replicate (symbolSize * numEncSymbols) 0, List.replicate numEncSymbols 0, 0⟩ with
      | .error e => .error e
      | .ok out => .ok ({ b with encBlock := encBlock, bufferMap := bufferMap }, out)

end Mp2bs.Fec
