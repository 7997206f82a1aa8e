import Mp2bs.Fec.Buffer
import Mp2bs.Raptor.Codec

/-!
# Encoding the blocks of a stream (`enhanced-quic/fec/fec_handler.go:75-146`)

The data of new STREAM frames are collected in `encQueue`. A full block is given to the Raptor
encoder, and the redundant symbols are queued as FEC frames. The receiver finds the block of a FEC
frame from its `StreamOffset`.
-/

namespace Mp2bs.Fec
open Mp2bs.Lib Mp2bs.Lib.Slice Mp2bs.Lib.Machine Mp2bs.Raptor

-- RaptorInit, raptor.go:1351-1366; N = round(1.0758 * 16) and M = round(1.8 * 16)
def raptor : RaptorParams symbolSize :=
  (raptorInitialization numSrcSymbols symbolSize 17 29).get (by decide +kernel)

theorem raptor_eq : raptorInitialization numSrcSymbols symbolSize 17 29 = some raptor :=
  (Option.some_get _).symm

/- One row of the two-dimensional arrays of `raptor_encoding` and `raptor_decoding2`. -/
def toSymbol (data : Bytes) : Symbol symbolSize := XorArray.ofFn symbolSize (data.getD · 0)

def symbolAt (data : Bytes) (i : ℕ) : Symbol symbolSize := toSymbol (chunk symbolSize data i)

/- Redundant symbols of a block, `ceil(16 / 0.8) - 16`. -/
def numRedSymbols : ℕ := 4

-- raptor_encoding and RaptorEncode, raptor.go:1200-1234 and 1368-1380
def raptorEncode (data : Bytes) : Bytes :=
  let srcBlock := (List.range numSrcSymbols).map (symbolAt data)
  let encBlock := raptor.raptorEncoder2 srcBlock numEncSymbols
  (List.range numRedSymbols).flatMap fun i => (encBlock.getD (numSrcSymbols + i) 0).entries

structure FecEncoder where
  encQueue : Bytes
  startOffset : ℕ
  endOffset : ℕ
  transmissionQueue : List FecFrame
  deriving Repr, DecidableEq

namespace FecEncoder

-- NewFecHandler, 44-58
def new : FecEncoder := ⟨[], 0, 0, []⟩

/- The loop of `pushToTransmissionQueue` (117-143); the first argument counts
its turns. -/
def makeFrames (streamID startOffset totalLength : ℕ) : ℕ → Bytes → ℕ → Except Stop (List FecFrame)
  | 0, _, _ => .error .panic
  | turns + 1, fecBlock, fecDataOffset =>
    if fecBlock.length < symbolSize then .error .panic
    else
      let rest := fecBlock.drop symbolSize
      let frame : FecFrame := ⟨streamID, startOffset, symbolSize, numSrcSymbols, fecDataOffset,
        symbolSize, totalLength, fecBlock.take symbolSize, rest.isEmpty⟩
      if rest.isEmpty then .ok [frame]
      else match makeFrames streamID startOffset totalLength turns rest
          (fecDataOffset + symbolSize) with
        | .error e => .error e
        | .ok frames => .ok (frame :: frames)

-- pushToTransmissionQueue, 110-146
def pushToTransmissionQueue (e : FecEncoder) (fecBlock : Bytes) (streamID : ℕ) :
    Except Stop FecEncoder :=
  match makeFrames streamID e.startOffset fecBlock.length (fecBlock.length + 1) fecBlock 0 with
  | .error stop => .error stop
  | .ok frames => .ok { e with transmissionQueue := e.transmissionQueue ++ frames }

/- `PushToEncode` (76-108), with the block that it gives to `RaptorEncode`. -/
def pushToEncode (e : FecEncoder) (frame : StreamFrame) :
    Except Stop (FecEncoder × Option Bytes) :=
  let startOffset := if e.encQueue.length = 0 then frame.offset else e.endOffset
  let encQueue := e.encQueue ++ frame.data
  if srcBlockSize ≤ encQueue.length then
    let srcBlock := encQueue.take srcBlockSize
    match pushToTransmissionQueue
        { e with
          encQueue := encQueue.drop srcBlockSize
          startOffset := startOffset
          endOffset := frame.offset + frame.data.length }
        (raptorEncode srcBlock) frame.streamID with
    | .error stop => .error stop
    | .ok e => .ok (e, some srcBlock)
  else .ok ({ e with encQueue := encQueue, startOffset := startOffset }, none)

end FecEncoder

/-! ### The frames of one block -/

def fecFrameAt (streamID startOffset : ℕ) (fecBlock : Bytes) (r : ℕ) : FecFrame where
  streamID := streamID
  streamOffset := startOffset
  symbolSize := symbolSize
  numOfSymbols := numSrcSymbols
  fecDataOffset := symbolSize * r
  fecDataLength := symbolSize
  fecTotalLength := fecBlock.length
  fecData := chunk symbolSize fecBlock r
  fin := fecBlock.length = symbolSize * (r + 1)

def fecFrames (streamID startOffset : ℕ) (fecBlock : Bytes) : List FecFrame :=
  (List.range numRedSymbols).map (fecFrameAt streamID startOffset fecBlock)

theorem raptorEncode_length (data : Bytes) :
    (raptorEncode data).length = symbolSize * numRedSymbols := by
  simp only [raptorEncode, List.length_flatMap, XorArray.length_eq, List.map_const',
    List.sum_replicate, List.length_range, smul_eq_mul, Nat.mul_comm]

theorem makeFrames_eq (streamID startOffset : ℕ) (fecBlock : Bytes) {m : ℕ}
    (hlen : fecBlock.length = symbolSize * m) (left : ℕ) {r : ℕ} (turns : ℕ) (hr : r + (left + 1) = m)
    (hturns : left < turns) :
    FecEncoder.makeFrames streamID startOffset fecBlock.length turns
        (fecBlock.drop (symbolSize * r)) (symbolSize * r) =
      .ok ((List.range' r (left + 1)).map (fecFrameAt streamID startOffset fecBlock)) := by
  induction left generalizing r turns with
  | zero =>
    obtain ⟨turns, rfl⟩ := Nat.exists_eq_succ_of_ne_zero (Nat.ne_of_gt hturns)
    have hrest : ((fecBlock.drop (symbolSize * r)).drop symbolSize).isEmpty = true := by
      rw [List.isEmpty_iff, List.drop_drop, List.drop_eq_nil_iff, hlen, ← hr]
      exact le_of_eq (by ring)
    have hfit : ¬(fecBlock.drop (symbolSize * r)).length < symbolSize := by
      rw [List.length_drop, hlen, ← hr, Nat.mul_add]
      omega
    have hfin : fecBlock.length = symbolSize * (r + 1) := by rw [hlen, ← hr]
    simp only [FecEncoder.makeFrames, if_neg hfit, hrest, if_true]
    simp [fecFrameAt, hfin, chunk, window]
  | succ left ih =>
    obtain ⟨turns, rfl⟩ := Nat.exists_eq_succ_of_ne_zero (Nat.ne_of_gt (Nat.zero_lt_of_lt hturns))
    have hnext := ih (r := r + 1) turns (by omega) (by omega)
    have hdrop : (fecBlock.drop (symbolSize * r)).drop symbolSize =
        fecBlock.drop (symbolSize * (r + 1)) := by
      rw [List.drop_drop, Nat.mul_succ]
    have hlong : symbolSize * (r + 1) + symbolSize ≤ fecBlock.length := by
      rw [hlen, ← hr, ← Nat.mul_succ]
      exact Nat.mul_le_mul_left _ (by omega)
    have hpos : 0 < symbolSize := by decide
    have hrest : (fecBlock.drop (symbolSize * (r + 1))).isEmpty = false := by
      rw [List.isEmpty_eq_false_iff, Ne, List.drop_eq_nil_iff]
      omega
    have hfit : ¬(fecBlock.drop (symbolSize * r)).length < symbolSize := by
      rw [List.length_drop, Nat.mul_succ] at *
      omega
    have hfin : ¬fecBlock.length = symbolSize * (r + 1) := by omega
    rw [FecEncoder.makeFrames, if_neg hfit]
    simp only [hdrop, hrest, Bool.false_eq_true, if_false]
    rw [← Nat.mul_succ, hnext]
    conv_rhs => rw [List.range'_succ, List.map_cons]
    simp only [fecFrameAt, hfin, decide_false, chunk, window]

theorem pushToTransmissionQueue_eq (e : FecEncoder) (block : Bytes) (streamID : ℕ) :
    e.pushToTransmissionQueue (raptorEncode block) streamID = .ok { e with
      transmissionQueue := e.transmissionQueue ++
        fecFrames streamID e.startOffset (raptorEncode block) } := by
  have hlen := raptorEncode_length block
  have hmake := makeFrames_eq streamID e.startOffset (raptorEncode block) hlen 3
    (r := 0) ((raptorEncode block).length + 1) rfl
    (by rw [hlen]; decide)
  rw [FecEncoder.pushToTransmissionQueue]
  rw [Nat.mul_zero, List.drop_zero] at hmake
  rw [hmake, ← List.range_eq_range']
  rfl

theorem fecFrames_data (streamID startOffset : ℕ) (block : Bytes) :
    (fecFrames streamID startOffset (raptorEncode block)).flatMap (·.fecData) =
      raptorEncode block := by
  rw [fecFrames, List.flatMap_map]
  show (List.range numRedSymbols).flatMap (chunk symbolSize (raptorEncode block)) = _
  rw [← take_eq_flatMap_chunk, List.take_of_length_le (raptorEncode_length block).le]

/-! ### The blocks of a stream -/

structure Encoding where
  encoder : FecEncoder
  calls : List Bytes
  deriving Repr, DecidableEq

namespace Encoding

def init : Encoding := ⟨.new, []⟩

def push (s : Encoding) (frame : StreamFrame) : Except Stop Encoding :=
  match s.encoder.pushToEncode frame with
  | .error stop => .error stop
  | .ok (encoder, call) => .ok ⟨encoder, s.calls ++ call.toList⟩

/- New STREAM frames of one stream from `offset` on, each shorter than a block. -/
def Contiguous (streamID : ℕ) : ℕ → List StreamFrame → Prop
  | _, [] => True
  | offset, frame :: frames => frame.streamID = streamID ∧ frame.offset = offset ∧
    frame.data.length < srcBlockSize ∧ Contiguous streamID (offset + frame.data.length) frames

instance Contiguous.decidable (streamID : ℕ) : ∀ offset frames,
    Decidable (Contiguous streamID offset frames)
  | _, [] => .isTrue trivial
  | offset, frame :: frames =>
    have := Contiguous.decidable streamID (offset + frame.data.length) frames
    inferInstanceAs (Decidable (_ ∧ _))

/- What was done with the bytes `sent`; `starts` are the `StreamOffset`s of the blocks. -/
structure Inv (streamID : ℕ) (sent : Bytes) (starts : List ℕ) (s : Encoding) : Prop where
  le : srcBlockSize * s.calls.length ≤ sent.length
  lt : sent.length < srcBlockSize * (s.calls.length + 1)
  encQueue : s.encoder.encQueue = sent.drop (srcBlockSize * s.calls.length)
  calls : s.calls = (List.range s.calls.length).map (chunk srcBlockSize sent)
  endOffset : s.encoder.endOffset / srcBlockSize = s.calls.length
  length_starts : starts.length = s.calls.length
  starts_div : ∀ k start, starts[k]? = some start → start / srcBlockSize = k
  queued : s.encoder.transmissionQueue = (starts.zip s.calls).flatMap fun e =>
    fecFrames streamID e.1 (raptorEncode e.2)

theorem init_inv (streamID : ℕ) : init.Inv streamID [] [] := by
  refine ⟨le_rfl, by decide, rfl, rfl, rfl, rfl, ?_, rfl⟩
  intro k start hk
  simp at hk

section
variable {streamID : ℕ} {sent : Bytes} {starts : List ℕ} {s : Encoding} {frame : StreamFrame}

theorem Inv.length_encQueue (h : s.Inv streamID sent starts) :
    s.encoder.encQueue.length = sent.length - srcBlockSize * s.calls.length := by
  rw [h.encQueue, List.length_drop]

theorem Inv.encQueue_append (h : s.Inv streamID sent starts) (data : Bytes) :
    s.encoder.encQueue ++ data = (sent ++ data).drop (srcBlockSize * s.calls.length) := by
  rw [h.encQueue, List.drop_append_of_le_length h.le]

theorem Inv.calls_append (h : s.Inv streamID sent starts) (data : Bytes) :
    s.calls = (List.range s.calls.length).map (chunk srcBlockSize (sent ++ data)) := by
  conv_lhs => rw [h.calls]
  refine List.map_congr_left ?_
  intro k hk
  have hle : srcBlockSize * (k + 1) ≤ sent.length :=
    le_trans (Nat.mul_le_mul_left _ (List.mem_range.mp hk)) h.le
  exact (chunk_append_of_le _ _ _ hle).symm

theorem Inv.push_short (h : s.Inv streamID sent starts)
    (hshort : ¬srcBlockSize ≤ (s.encoder.encQueue ++ frame.data).length) :
    ∃ s', s.push frame = .ok s' ∧ s'.Inv streamID (sent ++ frame.data) starts := by
  have hle := h.le
  have hlen := h.length_encQueue
  have happ := h.encQueue_append frame.data
  refine ⟨⟨{ s.encoder with
    encQueue := s.encoder.encQueue ++ frame.data
    startOffset := if s.encoder.encQueue.length = 0 then frame.offset else s.encoder.endOffset },
    s.calls⟩, ?_, ?_, ?_, happ, h.calls_append _, h.endOffset, h.length_starts, h.starts_div,
    h.queued⟩
  · simp only [Encoding.push, FecEncoder.pushToEncode, if_neg hshort, Option.toList_none,
      List.append_nil]
  · rw [List.length_append]
    exact le_trans hle (Nat.le_add_right _ _)
  · rw [List.length_append] at hshort ⊢
    rw [Nat.mul_succ]
    dsimp only
    omega

theorem Inv.push_full (h : s.Inv streamID sent starts) (hid : frame.streamID = streamID)
    (hoff : frame.offset = sent.length) (hlen : frame.data.length < srcBlockSize)
    (hfull : srcBlockSize ≤ (s.encoder.encQueue ++ frame.data).length) :
    ∃ s' start, s.push frame = .ok s' ∧
      s'.Inv streamID (sent ++ frame.data) (starts ++ [start]) := by
  have hle := h.le
  have hlt := h.lt
  have hq := h.length_encQueue
  have happ := h.encQueue_append frame.data
  have hpos : 0 < srcBlockSize := by decide
  rw [Nat.mul_succ] at hlt
  have hfull' : srcBlockSize * (s.calls.length + 1) ≤ (sent ++ frame.data).length := by
    rw [List.length_append] at hfull ⊢
    rw [Nat.mul_succ]
    omega
  have hblock : (s.encoder.encQueue ++ frame.data).take srcBlockSize =
      chunk srcBlockSize (sent ++ frame.data) s.calls.length := by
    rw [happ]
    rfl
  -- a block begins where the last one ended, or a rest of it is in the queue
  have hstart : (if s.encoder.encQueue.length = 0 then frame.offset else s.encoder.endOffset) /
      srcBlockSize = s.calls.length := by
    by_cases hz : s.encoder.encQueue.length = 0
    · rw [if_pos hz, hoff]
      exact Nat.div_eq_of_lt_le (by rw [Nat.mul_comm]; omega) (by rw [Nat.mul_comm, Nat.mul_succ]; omega)
    · rw [if_neg hz]
      exact h.endOffset
  refine ⟨⟨⟨(s.encoder.encQueue ++ frame.data).drop srcBlockSize,
    if s.encoder.encQueue.length = 0 then frame.offset else s.encoder.endOffset,
    frame.offset + frame.data.length,
    s.encoder.transmissionQueue ++ fecFrames streamID
      (if s.encoder.encQueue.length = 0 then frame.offset else s.encoder.endOffset)
      (raptorEncode (chunk srcBlockSize (sent ++ frame.data) s.calls.length))⟩,
    s.calls ++ [chunk srcBlockSize (sent ++ frame.data) s.calls.length]⟩, 
    if s.encoder.encQueue.length = 0 then frame.offset else s.encoder.endOffset, ?_, ?_⟩
  · simp only [Encoding.push, FecEncoder.pushToEncode, if_pos hfull, hblock,
      pushToTransmissionQueue_eq, hid, Option.toList_some]
  · have hcalls : (s.calls ++ [chunk srcBlockSize (sent ++ frame.data) s.calls.length]).length =
        s.calls.length + 1 := by simp
    constructor
    · rw [hcalls]
      exact hfull'
    · rw [hcalls, List.length_append, Nat.mul_succ, Nat.mul_succ]
      omega
    · rw [hcalls, happ, List.drop_drop, Nat.mul_succ]
    · rw [hcalls, List.range_succ, List.map_append, ← h.calls_append]
      rfl
    · show (frame.offset + frame.data.length) / srcBlockSize = _
      rw [hcalls, hoff]
      rw [List.length_append] at hfull'
      refine Nat.div_eq_of_lt_le ?_ ?_
      · rw [Nat.mul_comm]
        exact hfull'
      · rw [Nat.mul_comm, Nat.mul_succ, Nat.mul_succ]
        omega
    · rw [hcalls, List.length_append, h.length_starts]
      rfl
    · intro k start hk
      rw [List.getElem?_append] at hk
      by_cases hkl : k < starts.length
      · rw [if_pos hkl] at hk
        exact h.starts_div k start hk
      · rw [if_neg hkl, List.getElem?_singleton] at hk
        by_cases hz : k - starts.length = 0
        · rw [if_pos hz, Option.some.injEq] at hk
          rw [← hk, hstart, ← h.length_starts]
          omega
        · rw [if_neg hz] at hk
          cases hk
    · rw [h.queued, List.zip_append h.length_starts, List.flatMap_append]
      rfl

theorem Inv.push_frames (h : s.Inv streamID sent starts) {frames : List StreamFrame}
    (hf : Contiguous streamID sent.length frames) :
    ∃ s' starts', exec push s frames = .ok s' ∧
      s'.Inv streamID (sent ++ frames.flatMap (·.data)) starts' := by
  induction frames generalizing sent starts s with
  | nil => exact ⟨s, starts, rfl, by simpa using h⟩
  | cons frame frames ih =>
    obtain ⟨hid, hoff, hlen, hrest⟩ := hf
    have hstep : ∃ s₁ starts₁, s.push frame = .ok s₁ ∧
        s₁.Inv streamID (sent ++ frame.data) starts₁ := by
      by_cases hfull : srcBlockSize ≤ (s.encoder.encQueue ++ frame.data).length
      · obtain ⟨s₁, start, hs, hi⟩ := h.push_full hid hoff hlen hfull
        exact ⟨s₁, _, hs, hi⟩
      · obtain ⟨s₁, hs, hi⟩ := h.push_short hfull
        exact ⟨s₁, _, hs, hi⟩
    obtain ⟨s₁, starts₁, hs, hi⟩ := hstep
    obtain ⟨s', starts', hs', hi'⟩ := ih hi (by rw [List.length_append]; exact hrest)
    refine ⟨s', starts', ?_, ?_⟩
    · rw [exec, hs]
      exact hs'
    · rw [List.flatMap_cons, ← List.append_assoc]
      exact hi'

end

/- The blocks of a stream are encoded one by one, each with four FEC frames that the receiver
finds in the same block. -/
theorem blocks_of_stream (streamID : ℕ) (frames : List StreamFrame)
    (hf : Contiguous streamID 0 frames) :
    let stream := frames.flatMap (·.data)
    ∃ (s : Encoding) (starts : List ℕ), exec push init frames = .ok s ∧
      s.calls = (List.range (stream.length / srcBlockSize)).map (chunk srcBlockSize stream) ∧
      starts.length = s.calls.length ∧
      (∀ k start, starts[k]? = some start → start / srcBlockSize = k) ∧
      (s.encoder.transmissionQueue = (starts.zip s.calls).flatMap fun e =>
        (List.range numRedSymbols).map (fecFrameAt streamID e.1 (raptorEncode e.2))) ∧
      ∀ e ∈ starts.zip s.calls, ((List.range numRedSymbols).map
        (fecFrameAt streamID e.1 (raptorEncode e.2))).flatMap (·.fecData) = raptorEncode e.2 := by
  intro stream
  obtain ⟨s, starts, hs, hi⟩ := (init_inv streamID).push_frames hf
  rw [List.nil_append] at hi
  have hk : stream.length / srcBlockSize = s.calls.length :=
    Nat.div_eq_of_lt_le (by rw [Nat.mul_comm]; exact hi.le) (by rw [Nat.mul_comm]; exact hi.lt)
  refine ⟨s, starts, hs, ?_, hi.length_starts, hi.starts_div, hi.queued, ?_⟩
  · rw [hk]
    exact hi.calls
  · intro e he
    exact fecFrames_data streamID e.1 e.2

theorem blocks_of_stream_straddle : ∃ (s : Encoding) (starts : List ℕ),
    exec push init [⟨4, 0, List.replicate 10 7, false⟩, ⟨4, 10, List.replicate 10000 8, false⟩,
      ⟨4, 10010, List.replicate 10000 9, true⟩] = .ok s ∧
    s.calls.length = 1 ∧ starts.length = 1 ∧
    ∀ k start, starts[k]? = some start → start / srcBlockSize = k := by
  obtain ⟨s, starts, hs, hcalls, hstarts, hdiv, _⟩ := blocks_of_stream 4
    [⟨4, 0, List.replicate 10 7, false⟩, ⟨4, 10, List.replicate 10000 8, false⟩,
      ⟨4, 10010, List.replicate 10000 9, true⟩]
    (by decide +kernel)
  have hone : s.calls.length = 1 := by
    rw [hcalls, List.length_map, List.length_range]
    decide +kernel
  exact ⟨s, starts, hs, hone, by rw [hstarts, hone], hdiv⟩

end Encoding

end Mp2bs.Fec
