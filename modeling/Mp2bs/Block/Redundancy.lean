import Mp2bs.Block.Serving
import Mp2bs.Fec.Recovery

/-!
# The redundant data of a segment (`Mp2Session.sendBlockRedData`)

`mp2session.go:590-629` copies a segment of `sendBuffer`, 2048 packets of 1024 bytes, into a source
block for `Raptor.Encode`, which reads 16 symbols of 1024 bytes of it (`mp2session/raptor.go:1198-1234`,
`1357-1394`). The parameters are those of the FEC frames, so this encoder is `Fec.raptorEncode`.
-/

namespace Mp2bs.Block
open Mp2bs.Lib Mp2bs.Lib.Slice Mp2bs.Lib.Gf2
open Mp2bs.Fec (raptor raptor_valid raptorEncode raptorEncode_length encoded encoded_length
  blockSymbols symbolAt toSymbol toSymbol_entries entries_toSymbol toSymbol_encoded
  chunk_raptorEncode symbolSize numSrcSymbols numEncSymbols numRedSymbols)

/-- `srcBlock`, a copy of the segment with zeros behind it (`mp2session.go:593-601`). -/
def sourceBlock (sendBuffer : Bytes) (startDataNumber : ℕ) : Except Stop Bytes :=
  let offset := u32 (startDataNumber * payloadSize)
  let size := if u32 (offset + segmentSize) ≤ u32 sendBuffer.length then segmentSize
    else u32Sub (u32 sendBuffer.length) offset
  let high := u32 (offset + size)
  if offset ≤ high ∧ high ≤ sendBuffer.length then
    let part := (window sendBuffer offset (high - offset)).take segmentSize
    .ok (part ++ List.replicate (segmentSize - part.length) 0)
  else .error .panic

/-- `redundant` (`mp2session.go:604-607`). -/
def redundantData (sendBuffer : Bytes) (startDataNumber : ℕ) : Except Stop Bytes :=
  match sourceBlock sendBuffer startDataNumber with
  | .error e => .error e
  | .ok srcBlock =>
    let redundant := raptorEncode srcBlock
    if redundant.length = 0 then .error .panic else .ok redundant

/-- A turn of the loop over the redundant packets: the packet it sends, if it does not skip
(`mp2session.go:615-627`). -/
def sendRedTurn (sessionID : ℕ) (r : BlockRequestPacket) (redundant : Bytes)
    (startRedDataNumber dataNumber : ℕ) : Except Stop (Option BlockDataPacket) :=
  let redOffset := u32 (u32Sub dataNumber startRedDataNumber * payloadSize)
  let high := u32 (redOffset + payloadSize)
  if r.numPeers = 0 then .error .panic
  else if dataNumber % r.numPeers ≠ r.peerIdx then .ok none
  else if redOffset ≤ high ∧ high ≤ redundant.length then
    (createBlockDataPacket r.blockNumber dataNumber sessionID fecRedundantData
      (window redundant redOffset (high - redOffset))).map some
  else .error .panic

/-- The loop (`mp2session.go:614-628`); the first number counts its turns. -/
def sendRedLoop (turn : ℕ → Except Stop (Option BlockDataPacket)) (endRedDataNumber : ℕ) :
    ℕ → ℕ → Except Stop (List BlockDataPacket)
  | 0, _ => .error .blocked
  | turns + 1, dataNumber =>
    if endRedDataNumber < dataNumber then .ok []
    else do
      let packet ← turn dataNumber
      let packets ← sendRedLoop turn endRedDataNumber turns (u32 (dataNumber + 1))
      return packet.toList ++ packets

/-- `sendBlockRedData`, in FEC mode as at its call (`mp2session.go:289-291`). -/
def sendBlockRedData (turns : ℕ) (sendBuffer : Bytes) (sessionID : ℕ) (r : BlockRequestPacket) :
    Except Stop (List BlockDataPacket) :=
  match redundantData sendBuffer r.startDataNumber with
  | .error e => .error e
  | .ok redundant =>
    let startRedDataNumber := u32 (r.endDataNumber + 1)
    let endRedDataNumber := u32 (r.endDataNumber + numData redundant.length)
    sendRedLoop (sendRedTurn sessionID r redundant startRedDataNumber) endRedDataNumber turns
      startRedDataNumber

abbrev segmentPackets : ℕ := segmentSize / payloadSize

/-- A `sendBuffer` with the full segment `segment` from data number `startDataNumber` on. -/
structure Holds (sendBuffer : Bytes) (startDataNumber : ℕ) (segment : Bytes) : Prop where
  segment_eq : window sendBuffer (payloadSize * startDataNumber) segmentSize = segment
  full : segment.length = segmentSize
  buffer_lt : sendBuffer.length < 2 ^ 32

/-- Two segments that differ in exactly the data packet `p`. -/
def DifferAt (segment segment' : Bytes) (p : ℕ) : Prop :=
  ∀ i < segmentPackets, chunk payloadSize segment i = chunk payloadSize segment' i ↔ i ≠ p

/-- Packet `p` of a segment is determined by the other data packets and the redundant data. -/
def Determined (p : ℕ) : Prop :=
  ∀ sendBuffer sendBuffer' startDataNumber segment segment',
    Holds sendBuffer startDataNumber segment → Holds sendBuffer' startDataNumber segment' →
    (∀ i < segmentPackets, i ≠ p → chunk payloadSize segment i = chunk payloadSize segment' i) →
    redundantData sendBuffer startDataNumber = redundantData sendBuffer' startDataNumber →
    chunk payloadSize segment p = chunk payloadSize segment' p

/-! ### The source block -/

variable {sendBuffer sendBuffer' segment segment' : Bytes} {startDataNumber p : ℕ}

theorem Holds.le_length (h : Holds sendBuffer startDataNumber segment) :
    payloadSize * startDataNumber + segmentSize ≤ sendBuffer.length := by
  have hlen := h.full
  rw [← h.segment_eq, window_length] at hlen
  simp only [segmentSize] at *
  omega

theorem sourceBlock_eq (h : Holds sendBuffer startDataNumber segment) :
    sourceBlock sendBuffer startDataNumber = .ok segment := by
  have hle := h.le_length
  have hlt := h.buffer_lt
  have hoffset : u32 (startDataNumber * payloadSize) = payloadSize * startDataNumber := by
    rw [Nat.mul_comm]
    exact u32_of_lt (by omega)
  have hhigh : u32 (payloadSize * startDataNumber + segmentSize) =
      payloadSize * startDataNumber + segmentSize := u32_of_lt (by omega)
  have hpart : (window sendBuffer (payloadSize * startDataNumber) segmentSize).take segmentSize =
      segment := by
    rw [h.segment_eq, List.take_of_length_le h.full.le]
  simp only [sourceBlock, hoffset, hhigh, u32_of_lt hlt, if_pos hle]
  rw [if_pos ⟨Nat.le_add_right _ _, hle⟩, Nat.add_sub_cancel_left, hpart, h.full, Nat.sub_self,
    List.replicate_zero, List.append_nil]

theorem redundantData_eq (h : Holds sendBuffer startDataNumber segment) :
    redundantData sendBuffer startDataNumber = .ok (raptorEncode segment) := by
  have hlen : (raptorEncode segment).length ≠ 0 := by
    rw [raptorEncode_length]
    decide
  rw [redundantData, sourceBlock_eq h]
  exact if_neg hlen

/-! ### The packets -/

def redPacket (sessionID : ℕ) (r : BlockRequestPacket) (redundant : Bytes) (k : ℕ) :
    BlockDataPacket :=
  ⟨16 + payloadSize, r.blockNumber, r.endDataNumber + 1 + k, sessionID, fecRedundantData,
    chunk payloadSize redundant k⟩

variable {r : BlockRequestPacket} {redundant block block' : Bytes} {n k turns i : ℕ}

theorem sendRedTurn_eq (sessionID : ℕ) (hred : redundant.length = payloadSize * n)
    (hwrap : r.endDataNumber + n + 1 < 2 ^ 32) (hpeers : 0 < r.numPeers) (hn : n < 2 ^ 20) (hk : k < n) :
    sendRedTurn sessionID r redundant (r.endDataNumber + 1) (r.endDataNumber + 1 + k) =
      .ok (if (r.endDataNumber + 1 + k) % r.numPeers = r.peerIdx
        then some (redPacket sessionID r redundant k) else none) := by
  have hplace : u32Sub (r.endDataNumber + 1 + k) (r.endDataNumber + 1) = k := by
    rw [u32Sub_of_le (Nat.le_add_right _ _) (by omega), Nat.add_sub_cancel_left]
  have hoff : u32 (k * payloadSize) = payloadSize * k := by
    rw [Nat.mul_comm]
    exact u32_of_lt (by simp only [payloadSize]; omega)
  have hhigh : u32 (payloadSize * k + payloadSize) = payloadSize * k + payloadSize :=
    u32_of_lt (by simp only [payloadSize]; omega)
  have hfit : payloadSize * k + payloadSize ≤ redundant.length := by
    rw [hred, ← Nat.mul_succ]
    exact Nat.mul_le_mul_left _ hk
  have hdata : (window redundant (payloadSize * k) payloadSize).length = payloadSize := by
    rw [window_length]
    omega
  simp only [sendRedTurn, hplace, hoff, hhigh]
  rw [if_neg hpeers.ne']
  by_cases hsel : (r.endDataNumber + 1 + k) % r.numPeers = r.peerIdx
  · rw [if_neg (not_not_intro hsel), if_pos ⟨Nat.le_add_right _ _, hfit⟩, if_pos hsel,
      Nat.add_sub_cancel_left, createBlockDataPacket_of_le _ _ _ _ _ hdata.le, hdata]
    rfl
  · rw [if_pos hsel, if_neg hsel]

theorem sendRedLoop_eq (sessionID : ℕ) (hred : redundant.length = payloadSize * n)
    (hwrap : r.endDataNumber + n + 1 < 2 ^ 32) (hpeers : 0 < r.numPeers) (hn : n < 2 ^ 20) {left : ℕ}
    (hk : k + left = n) (hturns : left < turns) :
    sendRedLoop (sendRedTurn sessionID r redundant (r.endDataNumber + 1)) (r.endDataNumber + n)
        turns (r.endDataNumber + 1 + k) =
      .ok (((List.range' k left).filter fun k =>
        (r.endDataNumber + 1 + k) % r.numPeers = r.peerIdx).map
          (redPacket sessionID r redundant)) := by
  induction left generalizing k turns with
  | zero =>
    obtain ⟨turns, rfl⟩ := Nat.exists_eq_succ_of_ne_zero (Nat.ne_of_gt hturns)
    rw [sendRedLoop, if_pos (by omega)]
    rfl
  | succ left ih =>
    obtain ⟨turns, rfl⟩ := Nat.exists_eq_succ_of_ne_zero (show turns ≠ 0 by omega)
    have hnext : u32 (r.endDataNumber + 1 + k + 1) = r.endDataNumber + 1 + (k + 1) :=
      u32_of_lt (by omega)
    have hturn := sendRedTurn_eq sessionID hred hwrap hpeers hn (show k < n by omega)
    have hrest := ih (show k + 1 + left = n by omega) (show left < turns by omega)
    rw [sendRedLoop, if_neg (by omega), hturn, hnext, hrest, List.range'_succ, List.filter_cons]
    by_cases hsel : (r.endDataNumber + 1 + k) % r.numPeers = r.peerIdx
    · simp only [hsel, decide_true, if_true]
      rfl
    · simp only [hsel, decide_false, if_false]
      rfl

theorem sendBlockRedData_eq (sessionID : ℕ) (h : Holds sendBuffer r.startDataNumber segment)
    (hwrap : r.endDataNumber + 5 < 2 ^ 32) (hpeers : 0 < r.numPeers) (hturns : 4 < turns) :
    sendBlockRedData turns sendBuffer sessionID r =
      .ok (((List.range numRedSymbols).filter fun k =>
        (r.endDataNumber + 1 + k) % r.numPeers = r.peerIdx).map
          (redPacket sessionID r (raptorEncode segment))) := by
  have hlen : (raptorEncode segment).length = payloadSize * numRedSymbols :=
    raptorEncode_length segment
  have hcount : numData (raptorEncode segment).length = numRedSymbols := by
    rw [hlen]
    decide
  have hstart : u32 (r.endDataNumber + 1) = r.endDataNumber + 1 := u32_of_lt (by omega)
  have hend : u32 (r.endDataNumber + numRedSymbols) = r.endDataNumber + numRedSymbols :=
    u32_of_lt (by simp only [numRedSymbols]; omega)
  rw [sendBlockRedData, redundantData_eq h]
  simp only [hcount, hstart, hend]
  rw [List.range_eq_range']
  exact sendRedLoop_eq sessionID hlen hwrap hpeers (by decide) (show 0 + numRedSymbols = numRedSymbols from rfl)
    hturns

/-! ### Which packets reach the redundant data -/

/-- The part of source symbol `p` in redundant symbol `r`. -/
def repairCoefficient (r p : ℕ) : ZMod 2 :=
  dot raptor.K (raptor.coefficients (raptor.tripleOf (numSrcSymbols + r))).get
    fun k => if (raptor.AI.getD k 0).get p then 1 else 0

theorem exists_repairCoefficient :
    ∀ p < numSrcSymbols, ∃ r < numRedSymbols, repairCoefficient r p = 1 := by
  decide +kernel

theorem value_blockSymbols (block : Bytes) (hi : i < numSrcSymbols) :
    value (blockSymbols block) i = symbolAt block i := by
  rw [value, blockSymbols, List.getD_eq_getElem?_getD, List.getElem?_map, List.getElem?_range hi]
  rfl

theorem encoded_sub (hp : p < numSrcSymbols)
    (hagree : ∀ i < numSrcSymbols, i ≠ p → symbolAt block i = symbolAt block' i) {r : ℕ}
    (hr : r < numRedSymbols) :
    toSymbol (encoded block (numSrcSymbols + r)) - toSymbol (encoded block' (numSrcSymbols + r)) =
      repairCoefficient r p • (symbolAt block p - symbolAt block' p) := by
  have hK : raptor.K = numSrcSymbols := raptor_valid.2.1
  have henc : numSrcSymbols + r < numEncSymbols := Nat.add_lt_add_left hr numSrcSymbols
  have hsource : ∀ i < raptor.K, i ≠ p →
      value (blockSymbols block) i - value (blockSymbols block') i = 0 := by
    intro i hi hne
    have hi' : i < numSrcSymbols := hK ▸ hi
    rw [value_blockSymbols _ hi', value_blockSymbols _ hi', hagree i hi' hne, sub_self]
  have hmiddle : ∀ k < raptor.K,
      value (raptor.intermediate (blockSymbols block)) k -
          value (raptor.intermediate (blockSymbols block')) k =
        (if (raptor.AI.getD k 0).get p then (1 : ZMod 2) else 0) •
          (symbolAt block p - symbolAt block' p) := by
    intro k hk
    rw [Raptor.RaptorParams.value_intermediate _ hk, Raptor.RaptorParams.value_intermediate _ hk,
      ← dot_sub, dot_single (hK.symm ▸ hp) hsource, value_blockSymbols _ hp,
      value_blockSymbols _ hp, ite_smul, one_smul, zero_smul]
  rw [toSymbol_encoded _ henc, toSymbol_encoded _ henc, ← dot_sub, repairCoefficient, ← dot_smul]
  exact dot_congr (fun _ _ => rfl) hmiddle

theorem symbolAt_eq_of_raptorEncode_eq (hp : p < numSrcSymbols)
    (hagree : ∀ i < numSrcSymbols, i ≠ p → symbolAt block i = symbolAt block' i)
    (hred : raptorEncode block = raptorEncode block') : symbolAt block p = symbolAt block' p := by
  obtain ⟨r, hr, hcoeff⟩ := exists_repairCoefficient p hp
  have henc : encoded block (numSrcSymbols + r) = encoded block' (numSrcSymbols + r) := by
    rw [← chunk_raptorEncode block hr, hred, chunk_raptorEncode block' hr]
  have hsub := encoded_sub hp hagree hr
  rw [henc, sub_self, hcoeff, one_smul] at hsub
  exact sub_eq_zero.mp hsub.symm

theorem raptorEncode_congr (h : ∀ i < numSrcSymbols, symbolAt block i = symbolAt block' i) :
    raptorEncode block = raptorEncode block' := by
  have hsource : (List.range numSrcSymbols).map (symbolAt block) =
      (List.range numSrcSymbols).map (symbolAt block') :=
    List.map_congr_left fun i hi => h i (List.mem_range.mp hi)
  simp only [raptorEncode, hsource]

theorem chunk_eq_of_symbolAt_eq (hfull : segment.length = segmentSize) (hfull' : segment'.length = segmentSize)
    (hi : i < segmentPackets) (h : symbolAt segment i = symbolAt segment' i) :
    chunk payloadSize segment i = chunk payloadSize segment' i := by
  have hlen : ∀ seg : Bytes, seg.length = segmentSize → (chunk symbolSize seg i).length = symbolSize := by
    intro seg hseg
    rw [chunk_length, hseg]
    simp only [segmentPackets, segmentSize, payloadSize, symbolSize] at *
    omega
  have hentries := congrArg XorArray.entries h
  rw [symbolAt, symbolAt, entries_toSymbol (hlen _ hfull), entries_toSymbol (hlen _ hfull')]
    at hentries
  exact hentries

theorem raptorEncode_eq_of_unread (hp : numSrcSymbols ≤ p)
    (hagree : ∀ i < segmentPackets, i ≠ p →
      chunk payloadSize segment i = chunk payloadSize segment' i) :
    raptorEncode segment = raptorEncode segment' := by
  refine raptorEncode_congr ?_
  intro i hi
  have hpackets : i < segmentPackets := by
    simp only [segmentPackets, segmentSize, payloadSize, numSrcSymbols] at *
    omega
  exact congrArg toSymbol (hagree i hpackets (Nat.ne_of_lt (hi.trans_le hp)))

theorem chunk_eq_of_redundant (hfull : segment.length = segmentSize)
    (hfull' : segment'.length = segmentSize) (hp : p < numSrcSymbols)
    (hagree : ∀ i < segmentPackets, i ≠ p →
      chunk payloadSize segment i = chunk payloadSize segment' i)
    (hred : raptorEncode segment = raptorEncode segment') :
    chunk payloadSize segment p = chunk payloadSize segment' p := by
  have hpackets : ∀ i, i < numSrcSymbols → i < segmentPackets := by
    intro i hi
    simp only [segmentPackets, segmentSize, payloadSize, numSrcSymbols] at *
    omega
  have hsymbols : ∀ i < numSrcSymbols, i ≠ p → symbolAt segment i = symbolAt segment' i :=
    fun i hi hne => congrArg toSymbol (hagree i (hpackets i hi) hne)
  exact chunk_eq_of_symbolAt_eq hfull hfull' (hpackets p hp)
    (symbolAt_eq_of_raptorEncode_eq hp hsymbols hred)

/-! ### A packet that is not read -/

/-- A full segment of zeros, and the same with another first byte in packet `p`. -/
def blankSegment : Bytes := List.replicate segmentSize 0
def markedSegment (p : ℕ) : Bytes := writeAt blankSegment (payloadSize * p) [1]

theorem length_blankSegment : blankSegment.length = segmentSize := List.length_replicate

theorem mark_le (hp : p < segmentPackets) :
    payloadSize * p + [(1 : UInt8)].length ≤ blankSegment.length := by
  rw [length_blankSegment, List.length_singleton]
  simp only [segmentPackets, segmentSize, payloadSize] at *
  omega

theorem length_markedSegment (hp : p < segmentPackets) :
    (markedSegment p).length = segmentSize :=
  (writeAt_length _ _ _ (mark_le hp)).trans length_blankSegment

theorem holds_self (h : segment.length = segmentSize) : Holds segment 0 segment where
  segment_eq := by
    rw [Nat.mul_zero, window, List.drop_zero, List.take_of_length_le h.le]
  full := h
  buffer_lt := by
    rw [h]
    norm_num

theorem markedSegment_getElem? (hp : p < segmentPackets) (j : ℕ) :
    (markedSegment p)[j]? = if j = payloadSize * p then some 1 else blankSegment[j]? := by
  rw [markedSegment, writeAt_getElem? _ _ _ _ (mark_le hp), List.length_singleton]
  by_cases hj : j = payloadSize * p
  · rw [if_pos (by omega), if_pos hj, hj, Nat.sub_self]
    rfl
  · rw [if_neg (by omega), if_neg hj]

theorem differAt_markedSegment (hp : p < segmentPackets) :
    DifferAt blankSegment (markedSegment p) p := by
  intro i _
  have hplace : ∀ k < payloadSize, payloadSize * i + k = payloadSize * p → i = p := by
    intro k hk hik
    simp only [payloadSize] at *
    omega
  constructor
  · rintro heq rfl
    have hfirst : (chunk payloadSize blankSegment i)[0]? =
        (chunk payloadSize (markedSegment i) i)[0]? := by rw [heq]
    have hlt : payloadSize * i < segmentSize := by
      simp only [segmentPackets, segmentSize, payloadSize] at *
      omega
    have hblank : blankSegment[payloadSize * i]? = some 0 := List.getElem?_replicate_of_lt hlt
    rw [chunk, chunk, window_getElem?, window_getElem?, if_pos (by decide), if_pos (by decide),
      Nat.add_zero, markedSegment_getElem? hp, if_pos rfl, hblank] at hfirst
    cases hfirst
  · intro hne
    refine List.ext_getElem? ?_
    intro k
    rw [chunk, chunk, window_getElem?, window_getElem?]
    split_ifs with hk
    · rw [markedSegment_getElem? hp, if_neg fun h => hne (hplace k hk h)]
    · rfl

theorem redundantData_marked (hp : p < segmentPackets) (hunread : numSrcSymbols ≤ p) :
    redundantData blankSegment 0 = redundantData (markedSegment p) 0 := by
  rw [redundantData_eq (holds_self length_blankSegment),
    redundantData_eq (holds_self (length_markedSegment hp)),
    raptorEncode_eq_of_unread hunread fun i hi => (differAt_markedSegment hp i hi).mpr]

/-- Two full segments that differ in one packet have different redundant data if the packet is one of
the first 16 of the 2048; the redundant data and the other packets determine a packet in this case only. -/
theorem redundancy_covers_iff (hp : p < segmentPackets) :
    (∀ sendBuffer sendBuffer' startDataNumber segment segment',
      Holds sendBuffer startDataNumber segment → Holds sendBuffer' startDataNumber segment' →
      DifferAt segment segment' p →
      ∃ redundant redundant', redundantData sendBuffer startDataNumber = .ok redundant ∧
        redundantData sendBuffer' startDataNumber = .ok redundant' ∧
        (redundant ≠ redundant' ↔ p < 16)) ∧
    (Determined p ↔ p < 16) := by
  constructor
  · intro sendBuffer sendBuffer' startDataNumber segment segment' h h' hdiff
    have hagree : ∀ i < segmentPackets, i ≠ p →
        chunk payloadSize segment i = chunk payloadSize segment' i :=
      fun i hi => (hdiff i hi).mpr
    refine ⟨_, _, redundantData_eq h, redundantData_eq h', ?_⟩
    constructor
    · intro hne
      by_contra hunread
      exact hne (raptorEncode_eq_of_unread (Nat.not_lt.mp hunread) hagree)
    · intro hread heq
      have hsame := chunk_eq_of_redundant h.full h'.full hread hagree heq
      exact (hdiff p hp).mp hsame rfl
  · constructor
    · intro hdet
      by_contra hunread
      have hdiff := differAt_markedSegment hp
      have hsame := hdet blankSegment (markedSegment p) 0 blankSegment (markedSegment p)
        (holds_self length_blankSegment) (holds_self (length_markedSegment hp))
        (fun i hi => (hdiff i hi).mpr) (redundantData_marked hp (Nat.not_lt.mp hunread))
      exact (hdiff p hp).mp hsame rfl
    · intro hread sendBuffer sendBuffer' startDataNumber segment segment' h h' hagree hred
      rw [redundantData_eq h, redundantData_eq h'] at hred
      exact chunk_eq_of_redundant h.full h'.full hread hagree (Except.ok.inj hred)

theorem redundancy_covers_last : 15 < segmentPackets ∧ Determined 15 :=
  ⟨by decide, (redundancy_covers_iff (show 15 < segmentPackets by decide)).2.mpr (by decide)⟩

/-- Two full segments that differ in packet 16 have the same redundant data. -/
theorem redundancy_misses_packet :
    ∃ sendBuffer sendBuffer' segment segment',
      Holds sendBuffer 0 segment ∧ Holds sendBuffer' 0 segment' ∧ DifferAt segment segment' 16 ∧
      redundantData sendBuffer 0 = redundantData sendBuffer' 0 :=
  have hp : 16 < segmentPackets := by decide
  ⟨blankSegment, markedSegment 16, blankSegment, markedSegment 16, holds_self length_blankSegment,
    holds_self (length_markedSegment hp), differAt_markedSegment hp, redundantData_marked hp le_rfl⟩

end Mp2bs.Block
