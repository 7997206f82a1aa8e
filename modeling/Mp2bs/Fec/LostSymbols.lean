import Mp2bs.Fec.Decode

/-!
# The frames of the lost symbols

`pushReceiveStreamFrameQueue` (`enhanced-quic/fec/fec_handler.go:324-358`) for any number of source
symbols and any symbol size. It walks over the first entries of the symbol map, not over the
symbols, and hands over a frame for every symbol that it takes for lost.
-/

namespace Mp2bs.Fec
open Mp2bs.Lib Mp2bs.Lib.Slice

/-- A turn of the inner loop (`fec_handler.go:331-350`): the frame of symbol `j` and its packet
number. -/
def recoveredFrame (symbolSize : ℕ) (b : FecBuffer) (decBlock : Bytes)
    (prevPacketNumber prevIdx j : ℕ) : Except Stop (StreamFrame × ℕ) :=
  let startPos := u32 (j * symbolSize)
  let endPos := u32 (startPos + symbolSize)
  if startPos ≤ endPos ∧ endPos ≤ decBlock.length then
    .ok (⟨b.streamID, b.startStreamOffset + startPos,
      writeAt (List.replicate symbolSize 0) 0 (window decBlock startPos (endPos - startPos)), false⟩,
      prevPacketNumber + (j - prevIdx))
  else .error .panic

/-- The loop over the positions of the symbol map (`fec_handler.go:329-357`) from `i` on; the first
number counts its turns. -/
def pushLost (symbolSize numSrcSymbols : ℕ) (b : FecBuffer) (decBlock : Bytes)
    (symbolMap : List ℕ) : ℕ → ℕ → ℕ → ℕ → ℕ → Except Stop (List (StreamFrame × ℕ))
  | 0, _, _, _, _ => .ok []
  | turns + 1, i, nextIdx, prevPacketNumber, prevIdx =>
    match symbolMap[i]? with
    | none => .error .panic
    | some symbol =>
      if symbol ≠ nextIdx then do
        let frames ← (List.range' i (min symbol numSrcSymbols - i)).mapM
          (recoveredFrame symbolSize b decBlock prevPacketNumber prevIdx)
        let rest ← pushLost symbolSize numSrcSymbols b decBlock symbolMap turns (i + 1)
          (u32 (symbol + 1)) prevPacketNumber prevIdx
        return frames ++ rest
      else pushLost symbolSize numSrcSymbols b decBlock symbolMap turns (i + 1) (u32 (symbol + 1))
        ((b.packetNumberMap.lookup (b.startStreamOffset + u32 (i * symbolSize))).getD 0) i

/-- `pushReceiveStreamFrameQueue`: the frames sent on `FecChan`, with the packet numbers that are
appended to `FecRecoveredPacketList`. -/
def pushReceiveStreamFrameQueue (symbolSize numSrcSymbols : ℕ) (b : FecBuffer) (decBlock : Bytes)
    (symbolMap : List ℕ) : Except Stop (List (StreamFrame × ℕ)) :=
  pushLost symbolSize numSrcSymbols b decBlock symbolMap numSrcSymbols 0 0 0 0

def FecBuffer.symbolFrame (b : FecBuffer) (symbolSize : ℕ) (decBlock : Bytes) (j : ℕ) : StreamFrame :=
  ⟨b.streamID, b.startStreamOffset + j * symbolSize, window decBlock (j * symbolSize) symbolSize, false⟩

section

variable {symbolSize numSrcSymbols : ℕ} {b : FecBuffer} {decBlock : Bytes}
  (hsize : numSrcSymbols * symbolSize < 2 ^ 32)
  (hblock : decBlock.length = numSrcSymbols * symbolSize)

include hsize hblock

theorem recoveredFrame_eq {j : ℕ} (hj : j < numSrcSymbols) (prevPacketNumber prevIdx : ℕ) :
    recoveredFrame symbolSize b decBlock prevPacketNumber prevIdx j =
      .ok (b.symbolFrame symbolSize decBlock j, prevPacketNumber + (j - prevIdx)) := by
  have hend : j * symbolSize + symbolSize ≤ numSrcSymbols * symbolSize := by
    rw [← Nat.succ_mul]
    exact Nat.mul_le_mul_right _ hj
  have hstart : u32 (j * symbolSize) = j * symbolSize := u32_of_lt (by omega)
  have hstop : u32 (j * symbolSize + symbolSize) = j * symbolSize + symbolSize :=
    u32_of_lt (by omega)
  have hlen : (window decBlock (j * symbolSize) symbolSize).length = symbolSize := by
    rw [window_length]
    omega
  have hcopy : writeAt (List.replicate symbolSize (0 : UInt8)) 0
      (window decBlock (j * symbolSize) symbolSize) = window decBlock (j * symbolSize) symbolSize := by
    rw [writeAt, hlen, List.take_zero, List.nil_append, Nat.zero_add, List.drop_of_length_le
      (Nat.le_of_eq List.length_replicate), List.append_nil]
  unfold recoveredFrame
  dsimp only
  rw [hstart, hstop, if_pos ⟨Nat.le_add_right _ _, by omega⟩, Nat.add_sub_cancel_left, hcopy]
  rfl

theorem mapM_recoveredFrame {js : List ℕ} (hjs : ∀ j ∈ js, j < numSrcSymbols)
    (prevPacketNumber prevIdx : ℕ) :
    js.mapM (recoveredFrame symbolSize b decBlock prevPacketNumber prevIdx) =
      .ok (js.map fun j =>
        (b.symbolFrame symbolSize decBlock j, prevPacketNumber + (j - prevIdx))) := by
  induction js with
  | nil => rfl
  | cons j js ih =>
    rw [List.mapM_cons, recoveredFrame_eq hsize hblock (hjs j (List.mem_cons_self ..)),
      ih fun j hj => hjs j (List.mem_cons_of_mem _ hj)]
    rfl

theorem pushLost_spec {symbolMap lost : List ℕ} (hcount : numSrcSymbols ≤ 2 ^ 32)
    (hget : ∀ i < numSrcSymbols, ∃ symbol, symbolMap[i]? = some symbol ∧ i ≤ symbol ∧
      symbol ∉ lost) {turns i : ℕ} (hturns : i + turns = numSrcSymbols)
    (nextIdx prevPacketNumber prevIdx : ℕ) :
    ∃ frames, pushLost symbolSize numSrcSymbols b decBlock symbolMap turns i nextIdx
        prevPacketNumber prevIdx = .ok frames ∧
      (∀ s ∈ lost, s < numSrcSymbols → i ≤ nextIdx → nextIdx ≤ s →
        ∃ frame ∈ frames, frame.1 = b.symbolFrame symbolSize decBlock s) ∧
      ∀ frame ∈ frames, ∃ j < numSrcSymbols, frame.1 = b.symbolFrame symbolSize decBlock j := by
  induction turns generalizing i nextIdx prevPacketNumber prevIdx with
  | zero =>
    refine ⟨[], rfl, fun s _ hs hi hnext => ?_, fun _ h => absurd h List.not_mem_nil⟩
    omega
  | succ turns ih =>
    obtain ⟨symbol, hsymbol, hle, hkept⟩ := hget i (by omega)
    -- a lost symbol above this entry is left to the later turns
    have hlater : ∀ s ∈ lost, s < numSrcSymbols → symbol < s →
        i + 1 ≤ u32 (symbol + 1) ∧ u32 (symbol + 1) ≤ s := by
      intro s _ hs hlt
      have hnext : u32 (symbol + 1) = symbol + 1 := u32_of_lt (by omega)
      omega
    rw [pushLost, hsymbol]
    dsimp only
    by_cases hgap : symbol ≠ nextIdx
    · rw [if_pos hgap]
      obtain ⟨rest, hrest, hall, hright⟩ := ih (i := i + 1) (by omega) (u32 (symbol + 1))
        prevPacketNumber prevIdx
      have hjs : ∀ j ∈ List.range' i (min symbol numSrcSymbols - i), j < numSrcSymbols := by
        intro j hj
        obtain ⟨_, hlt⟩ := List.mem_range'_1.mp hj
        omega
      have hframes := mapM_recoveredFrame (b := b) hsize hblock hjs prevPacketNumber prevIdx
      refine ⟨_, by rw [hframes, hrest]; rfl, fun s hs hlt hi hnext => ?_, fun frame hframe => ?_⟩
      · have hne : s ≠ symbol := fun h => hkept (h ▸ hs)
        rcases Nat.lt_or_ge s symbol with hbelow | habove
        · have hmem : s ∈ List.range' i (min symbol numSrcSymbols - i) :=
            List.mem_range'_1.mpr (by omega)
          exact ⟨_, List.mem_append_left _ (List.mem_map_of_mem hmem), rfl⟩
        · obtain ⟨h1, h2⟩ := hlater s hs hlt (by omega)
          obtain ⟨frame, hframe, heq⟩ := hall s hs hlt h1 h2
          exact ⟨frame, List.mem_append_right _ hframe, heq⟩
      · rcases List.mem_append.mp hframe with hframe | hframe
        · obtain ⟨j, hj, rfl⟩ := List.mem_map.mp hframe
          exact ⟨j, hjs j hj, rfl⟩
        · exact hright frame hframe
    · rw [if_neg hgap]
      obtain ⟨rest, hrest, hall, hright⟩ := ih (i := i + 1) (by omega) (u32 (symbol + 1))
        ((b.packetNumberMap.lookup (b.startStreamOffset + u32 (i * symbolSize))).getD 0) i
      refine ⟨rest, hrest, fun s hs hlt hi hnext => ?_, hright⟩
      have hne : s ≠ symbol := fun h => hkept (h ▸ hs)
      obtain ⟨h1, h2⟩ := hlater s hs hlt (by omega)
      exact hall s hs hlt h1 h2

end

variable {i : ℕ} {b : FecBuffer} {decBlock : Bytes} {symbolMap : List ℕ}

theorem le_of_increasing {l : List ℕ} (h : l.Pairwise (· < ·)) {v : ℕ} (hv : l[i]? = some v) :
    i ≤ v := by
  induction i generalizing v with
  | zero => exact Nat.zero_le _
  | succ i ih =>
    obtain ⟨hlt, rfl⟩ := List.getElem?_eq_some_iff.mp hv
    have hprev := ih (List.getElem?_eq_getElem (Nat.lt_of_succ_lt hlt))
    have hstep := List.pairwise_iff_getElem.mp h i (i + 1) (Nat.lt_of_succ_lt hlt) hlt
      (Nat.lt_succ_self i)
    omega

/-- **Every lost symbol is handed over.** For any `K` source symbols, of which those in `received`
have arrived, each other one is pushed with its offset and its bytes, and nothing else is. -/
theorem lost_symbols_pushed (symbolSize numSrcSymbols : ℕ) (hpos : 1 ≤ numSrcSymbols)
    (b : FecBuffer) (decBlock : Bytes) (received unused : List ℕ)
    (hsize : numSrcSymbols * symbolSize < 2 ^ 32)
    (hblock : decBlock.length = numSrcSymbols * symbolSize)
    (hincreasing : received.Pairwise (· < ·)) (hwidth : ∀ symbol ∈ received, symbol < 2 ^ 32)
    (hcount : numSrcSymbols ≤ received.length) :
    ∃ frames, pushReceiveStreamFrameQueue symbolSize numSrcSymbols b decBlock
        (received ++ unused) = .ok frames ∧
      (∀ s < numSrcSymbols, s ∉ received → ∃ frame ∈ frames,
        frame.1.offset = b.startStreamOffset + s * symbolSize ∧
        frame.1.data = window decBlock (s * symbolSize) symbolSize) ∧
      ∀ frame ∈ frames, ∃ j < numSrcSymbols,
        frame.1.offset = b.startStreamOffset + j * symbolSize ∧
        frame.1.data = window decBlock (j * symbolSize) symbolSize := by
  have hlast : numSrcSymbols ≤ 2 ^ 32 := by
    have hlt : numSrcSymbols - 1 < received.length := by omega
    have hle := le_of_increasing hincreasing (List.getElem?_eq_getElem hlt)
    have hbound := hwidth _ (List.getElem_mem hlt)
    omega
  have hget : ∀ i < numSrcSymbols, ∃ symbol, (received ++ unused)[i]? = some symbol ∧ i ≤ symbol ∧
      symbol ∉ (List.range numSrcSymbols).filter (· ∉ received) := by
    intro i hi
    have hlt : i < received.length := by omega
    have hsome := List.getElem?_eq_getElem hlt
    refine ⟨received[i], ?_, le_of_increasing hincreasing hsome, fun hmem => ?_⟩
    · rw [List.getElem?_append_left hlt]
      exact hsome
    · exact of_decide_eq_true (List.mem_filter.mp hmem).2 (List.getElem_mem hlt)
  obtain ⟨frames, hframes, hall, hright⟩ := pushLost_spec (b := b) hsize hblock hlast hget
    (Nat.zero_add numSrcSymbols) 0 0 0
  refine ⟨frames, hframes, fun s hs hnot => ?_, fun frame hframe => ?_⟩
  · have hmem : s ∈ (List.range numSrcSymbols).filter (· ∉ received) :=
      List.mem_filter.mpr ⟨List.mem_range.mpr hs, decide_eq_true hnot⟩
    obtain ⟨frame, hframe, heq⟩ := hall s hmem hs (Nat.le_refl 0) (Nat.zero_le s)
    exact ⟨frame, hframe, by rw [heq]; rfl, by rw [heq]; rfl⟩
  · obtain ⟨j, hj, heq⟩ := hright frame hframe
    exact ⟨j, hj, by rw [heq]; rfl, by rw [heq]; rfl⟩

theorem lost_symbols_pushed_ends : ∃ frames,
    pushReceiveStreamFrameQueue 2 4 (.init 0 100) [1, 2, 3, 4, 5, 6, 7, 8] ([1, 2, 4, 5] ++ [0]) =
        .ok frames ∧
      (∀ s < 4, s ∉ [1, 2, 4, 5] → ∃ frame ∈ frames,
        frame.1.offset = (FecBuffer.init 0 100).startStreamOffset + s * 2 ∧
        frame.1.data = window [1, 2, 3, 4, 5, 6, 7, 8] (s * 2) 2) ∧
      ∀ frame ∈ frames, ∃ j < 4,
        frame.1.offset = (FecBuffer.init 0 100).startStreamOffset + j * 2 ∧
        frame.1.data = window [1, 2, 3, 4, 5, 6, 7, 8] (j * 2) 2 :=
  lost_symbols_pushed 2 4 (by decide) (.init 0 100) [1, 2, 3, 4, 5, 6, 7, 8] [1, 2, 4, 5] [0]
    (by decide) rfl (by decide) (by decide) (by decide)

/-! ### The handler's own sizes -/

theorem pushLost_eq (hblock : decBlock.length = srcBlockSize) (hlen : numSrcSymbols ≤ symbolMap.length)
    (hwidth : ∀ symbol ∈ symbolMap, symbol + 1 < 2 ^ 32) {turns : ℕ}
    (hturns : i + turns = numSrcSymbols) (nextIdx prevPacketNumber prevIdx : ℕ) :
    pushLost symbolSize numSrcSymbols b decBlock symbolMap turns i nextIdx prevPacketNumber
        prevIdx =
      .ok ((lostSymbols b.packetNumberOf symbolMap turns i nextIdx prevPacketNumber prevIdx).map
        fun (j, packetNumber) => (b.symbolFrame symbolSize decBlock j, packetNumber)) := by
  have hsize : numSrcSymbols * symbolSize < 2 ^ 32 := by decide
  have hblock' : decBlock.length = numSrcSymbols * symbolSize := hblock
  induction turns generalizing i nextIdx prevPacketNumber prevIdx with
  | zero => rfl
  | succ turns ih =>
    have hlt : i < symbolMap.length := by omega
    have hsome := List.getElem?_eq_getElem hlt
    have hgetD : symbolMap.getD i 0 = symbolMap[i] := by
      rw [List.getD_eq_getElem?_getD, hsome]
      rfl
    have hnext : u32 (symbolMap[i] + 1) = symbolMap[i] + 1 :=
      u32_of_lt (hwidth _ (List.getElem_mem hlt))
    rw [pushLost, lostSymbols, hsome, hgetD]
    dsimp only
    rw [hnext]
    by_cases hgap : symbolMap[i] ≠ nextIdx
    · rw [if_pos hgap, if_pos hgap]
      have hjs : ∀ j ∈ List.range' i (min symbolMap[i] numSrcSymbols - i), j < numSrcSymbols := by
        intro j hj
        obtain ⟨_, hj⟩ := List.mem_range'_1.mp hj
        omega
      rw [mapM_recoveredFrame hsize hblock' hjs, ih (by omega), List.map_append, List.map_map]
      rfl
    · have hpos : u32 (i * symbolSize) = i * symbolSize := by
        refine u32_of_lt (lt_of_le_of_lt ?_ hsize)
        exact Nat.mul_le_mul_right _ (by omega)
      rw [if_neg hgap, if_neg hgap, hpos, ih (by omega)]
      rfl

theorem pushReceiveStreamFrameQueue_eq (hblock : decBlock.length = srcBlockSize)
    (hlen : numSrcSymbols ≤ symbolMap.length) (hwidth : ∀ symbol ∈ symbolMap, symbol + 1 < 2 ^ 32) :
    pushReceiveStreamFrameQueue symbolSize numSrcSymbols b decBlock symbolMap =
      .ok (b.recoveredFrames decBlock symbolMap) :=
  pushLost_eq hblock hlen hwidth (Nat.zero_add numSrcSymbols) 0 0 0

end Mp2bs.Fec
