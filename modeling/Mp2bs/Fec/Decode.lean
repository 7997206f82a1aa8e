import Mp2bs.Fec.Encoder
import Mp2bs.Fec.Symbols

/-!
# Decoding one block (`enhanced-quic/fec/fec_handler.go:274-358`)

What `decode` does with the symbols of a buffer: the Raptor decoder, and the frames that
`pushReceiveStreamFrameQueue` makes of its result, each with the packet number that it is
counted under.
-/

namespace Mp2bs.Fec
open Mp2bs.Lib Mp2bs.Lib.Slice Mp2bs.Raptor

-- raptor_decoding2 and RaptorDecode, raptor.go:1236-1278 and 1382-1392
def raptorDecode (data : Bytes) (symbolMap : List ℕ) : Option Bytes :=
  let encBlock := (List.range raptor.N).map (symbolAt data)
  (raptor.raptorDecoder encBlock symbolMap).map fun decBlock =>
    (List.range numSrcSymbols).flatMap fun i => (decBlock.getD i 0).entries

/- The loop of `pushReceiveStreamFrameQueue` (329-357) from `i` on: the symbols
that it takes for lost, and their packet numbers. -/
def lostSymbols (packetNumber : ℕ → ℕ) (symbolMap : List ℕ) :
    ℕ → ℕ → ℕ → ℕ → ℕ → List (ℕ × ℕ)
  | 0, _, _, _, _ => []
  | turns + 1, i, nextIdx, prevPacketNumber, prevIdx =>
    let symbol := symbolMap.getD i 0
    if symbol ≠ nextIdx then
      (List.range' i (min symbol numSrcSymbols - i)).map
          (fun j => (j, prevPacketNumber + (j - prevIdx))) ++
        lostSymbols packetNumber symbolMap turns (i + 1) (symbol + 1) prevPacketNumber prevIdx
    else lostSymbols packetNumber symbolMap turns (i + 1) (symbol + 1) (packetNumber i) i

namespace FecBuffer

-- packetNumberMap[startStreamOffset + i * symbolSize], 353-354
def packetNumberOf (b : FecBuffer) (i : ℕ) : ℕ :=
  (b.packetNumberMap.lookup (b.startStreamOffset + i * symbolSize)).getD 0

-- pushReceiveStreamFrameQueue, 324-358
def recoveredFrames (b : FecBuffer) (decBlock : Bytes) (symbolMap : List ℕ) :
    List (StreamFrame × ℕ) :=
  (lostSymbols b.packetNumberOf symbolMap numSrcSymbols 0 0 0 0).map fun (j, packetNumber) =>
    (⟨b.streamID, b.startStreamOffset + j * symbolSize,
      window decBlock (j * symbolSize) symbolSize, false⟩, packetNumber)

/- Decoding cases 2 and 3 (274-304). -/
def decodeBlock (b : FecBuffer) : Except Stop (FecBuffer × List (StreamFrame × ℕ)) :=
  match b.getEncodeBlock with
  | .error stop => .error stop
  | .ok (b, out) => match raptorDecode out.encBlock out.symbolMap with
    | none => .ok (b, [])
    | some decBlock => .ok (b, b.recoveredFrames decBlock out.symbolMap)

theorem decodeBlock_of_error {b : FecBuffer} {stop : Stop} (h : b.getEncodeBlock = .error stop) :
    b.decodeBlock = .error stop := by
  unfold decodeBlock
  rw [h]

/- Later proofs use this equation: reducing `decodeBlock` evaluates the decoder. -/
theorem decodeBlock_of_get {b b' : FecBuffer} {out : EncodeBlock}
    (h : b.getEncodeBlock = .ok (b', out)) :
    b.decodeBlock = .ok (b', ((raptorDecode out.encBlock out.symbolMap).map
      fun decBlock => b'.recoveredFrames decBlock out.symbolMap).getD []) := by
  unfold decodeBlock
  rw [h]
  dsimp only
  cases raptorDecode out.encBlock out.symbolMap with
  | none => rfl
  | some decBlock => rfl

end FecBuffer

end Mp2bs.Fec
