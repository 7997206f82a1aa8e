import Mp2bs.Quic.SendStream

/-!
# FEC frames on the wire

`FecFrame.Write`, `FecFrame.Length` and `parseFecFrame` (`internal/wire/fec_frame.go:25-129`), with the
variable-length integers of `quicvarint/varint.go` and the dispatch of `frameParser.ParseNext`
(`internal/wire/frame_parser.go:29-118`). The parsers of the other frame types are parameters.
-/

namespace Mp2bs.Quic
open Mp2bs.Fec

/-! ### Variable-length integers -/

namespace Varint

/-- `quicvarint.Write` (`varint.go:71-88`). -/
def write (i : ℕ) : Except Stop Bytes :=
  if i ≤ 63 then .ok [UInt8.ofNat i]
  else if i ≤ 16383 then .ok [UInt8.ofNat (i / 2 ^ 8) ||| 0x40, UInt8.ofNat i]
  else if i ≤ 1073741823 then
    .ok [UInt8.ofNat (i / 2 ^ 24) ||| 0x80, UInt8.ofNat (i / 2 ^ 16), UInt8.ofNat (i / 2 ^ 8),
      UInt8.ofNat i]
  else if i ≤ 4611686018427387903 then
    .ok [UInt8.ofNat (i / 2 ^ 56) ||| 0xc0, UInt8.ofNat (i / 2 ^ 48), UInt8.ofNat (i / 2 ^ 40),
      UInt8.ofNat (i / 2 ^ 32), UInt8.ofNat (i / 2 ^ 24), UInt8.ofNat (i / 2 ^ 16),
      UInt8.ofNat (i / 2 ^ 8), UInt8.ofNat i]
  else .error .panic

/-- `quicvarint.Read` (`varint.go:26-68`): the number and the bytes after it. -/
def read : Bytes → Except String (ℕ × Bytes)
  | [] => .error "EOF"
  | firstByte :: r =>
    let len := 1 <<< ((firstByte &&& 0xc0) >>> 6).toNat
    let b1 := (firstByte &&& (0xff - 0xc0)).toNat
    if len = 1 then .ok (b1, r)
    else match r with
      | [] => .error "EOF"
      | b2 :: r =>
        if len = 2 then .ok (b2.toNat + b1 * 2 ^ 8, r)
        else match r with
          | b3 :: b4 :: r =>
            if len = 4 then
              .ok (b4.toNat + b3.toNat * 2 ^ 8 + b2.toNat * 2 ^ 16 + b1 * 2 ^ 24, r)
            else match r with
              | b5 :: b6 :: b7 :: b8 :: r =>
                .ok (b8.toNat + b7.toNat * 2 ^ 8 + b6.toNat * 2 ^ 16 + b5.toNat * 2 ^ 24 +
                  b4.toNat * 2 ^ 32 + b3.toNat * 2 ^ 40 + b2.toNat * 2 ^ 48 + b1 * 2 ^ 56, r)
              | _ => .error "EOF"
          | _ => .error "EOF"

theorem firstByte (x : ℕ) (hx : x < 64) :
    (((UInt8.ofNat x &&& 0xc0) >>> 6).toNat = 0 ∧
      (UInt8.ofNat x &&& (0xff - 0xc0)).toNat = x) ∧
    ((((UInt8.ofNat x ||| 0x40) &&& 0xc0) >>> 6).toNat = 1 ∧
      ((UInt8.ofNat x ||| 0x40) &&& (0xff - 0xc0)).toNat = x) ∧
    ((((UInt8.ofNat x ||| 0x80) &&& 0xc0) >>> 6).toNat = 2 ∧
      ((UInt8.ofNat x ||| 0x80) &&& (0xff - 0xc0)).toNat = x) ∧
    (((UInt8.ofNat x ||| 0xc0) &&& 0xc0) >>> 6).toNat = 3 ∧
      ((UInt8.ofNat x ||| 0xc0) &&& (0xff - 0xc0)).toNat = x := by
  revert x
  decide +kernel

theorem toNat_byte (i : ℕ) : (UInt8.ofNat i).toNat = i % 2 ^ 8 := UInt8.toNat_ofNat'

theorem read_write {i : ℕ} (hi : i < 2 ^ 62) :
    ∃ bytes, write i = .ok bytes ∧ bytes.length = varintLen i ∧
      ∀ rest, read (bytes ++ rest) = .ok (i, rest) := by
  unfold write varintLen
  by_cases h1 : i ≤ 63
  · obtain ⟨⟨hlen, hbits⟩, _⟩ := firstByte i (by omega)
    rw [if_pos h1, if_pos h1]
    refine ⟨_, rfl, rfl, fun rest => ?_⟩
    simp only [List.cons_append, List.nil_append, read, hlen, hbits]
    rfl
  rw [if_neg h1, if_neg h1]
  by_cases h2 : i ≤ 16383
  · obtain ⟨_, ⟨hlen, hbits⟩, _⟩ := firstByte (i / 2 ^ 8) (by omega)
    have hsum : i % 2 ^ 8 + i / 2 ^ 8 * 2 ^ 8 = i := by omega
    rw [if_pos h2, if_pos h2]
    refine ⟨_, rfl, rfl, fun rest => ?_⟩
    simp only [List.cons_append, List.nil_append, read, hlen, hbits, toNat_byte, hsum]
    rfl
  rw [if_neg h2, if_neg h2]
  by_cases h4 : i ≤ 1073741823
  · obtain ⟨_, _, ⟨hlen, hbits⟩, _⟩ := firstByte (i / 2 ^ 24) (by omega)
    have hsum : i % 2 ^ 8 + i / 2 ^ 8 % 2 ^ 8 * 2 ^ 8 + i / 2 ^ 16 % 2 ^ 8 * 2 ^ 16 +
        i / 2 ^ 24 * 2 ^ 24 = i := by omega
    rw [if_pos h4, if_pos h4]
    refine ⟨_, rfl, rfl, fun rest => ?_⟩
    simp only [List.cons_append, List.nil_append, read, hlen, hbits, toNat_byte, hsum]
    rfl
  rw [if_neg h4, if_neg h4]
  obtain ⟨_, _, _, hlen, hbits⟩ := firstByte (i / 2 ^ 56) (by omega)
  have hsum : i % 2 ^ 8 + i / 2 ^ 8 % 2 ^ 8 * 2 ^ 8 + i / 2 ^ 16 % 2 ^ 8 * 2 ^ 16 +
      i / 2 ^ 24 % 2 ^ 8 * 2 ^ 24 + i / 2 ^ 32 % 2 ^ 8 * 2 ^ 32 + i / 2 ^ 40 % 2 ^ 8 * 2 ^ 40 +
      i / 2 ^ 48 % 2 ^ 8 * 2 ^ 48 + i / 2 ^ 56 * 2 ^ 56 = i := by omega
  rw [if_pos (by omega)]
  refine ⟨_, rfl, rfl, fun rest => ?_⟩
  simp only [List.cons_append, List.nil_append, read, hlen, hbits, toNat_byte, hsum]
  rfl

end Varint

/-! ### The frame -/

-- internal/protocol/protocol.go:50
def maxByteCount : ℕ := 2 ^ 62 - 1

/-- `FecFrame.Write` (`fec_frame.go:94-114`): a panic of `quicvarint.Write`, an error, or the bytes.
The lines that would set the bit of `Fin` are commented out. -/
def writeFec (f : FecFrame) : Except Stop (Except String Bytes) :=
  if f.fecData.length = 0 ∧ f.fin = false then
    .ok (.error "FECFrame: attempting to write empty frame without FIN")
  else do
    let streamID ← Varint.write f.streamID
    let streamOffset ← Varint.write f.streamOffset
    let symbolSize ← Varint.write f.symbolSize
    let numOfSymbols ← Varint.write f.numOfSymbols
    let fecDataOffset ← Varint.write f.fecDataOffset
    let fecDataLength ← Varint.write f.fecDataLength
    let fecTotalLength ← Varint.write f.fecTotalLength
    return .ok (0x20 :: (streamID ++ (streamOffset ++ (symbolSize ++ (numOfSymbols ++
      (fecDataOffset ++ (fecDataLength ++ (fecTotalLength ++ f.fecData))))))))

def readByte : Bytes → Except String (UInt8 × Bytes)
  | [] => .error "EOF"
  | b :: r => .ok (b, r)

/-- `io.ReadFull` into a slice of `n` bytes, which is not called for an empty one. -/
def readFull (n : ℕ) (r : Bytes) : Except String (Bytes × Bytes) :=
  if n = 0 then .ok ([], r)
  else if r = [] then .error "EOF"
  else if r.length < n then .error "unexpected EOF"
  else .ok (r.take n, r.drop n)

/-- `parseFecFrame` (`fec_frame.go:25-91`). -/
def parseFecFrame (r : Bytes) : Except String (FecFrame × Bytes) := do
  let (typeByte, r) ← readByte r
  let (streamID, r) ← Varint.read r
  let (offset, r) ← Varint.read r
  let (symbolSize, r) ← Varint.read r
  let (numOfSymbols, r) ← Varint.read r
  let (fecDataOffset, r) ← Varint.read r
  let (fecDataLength, r) ← Varint.read r
  let (fecTotalLength, r) ← Varint.read r
  let (fecData, r) ← readFull (u32 fecDataLength) r
  if fecDataOffset + fecData.length > maxByteCount then
    .error "fec reundant data overflows maximum offset"
  else
    return (⟨streamID, offset, u32 symbolSize, u32 numOfSymbols, fecDataOffset, u32 fecDataLength,
      u32 fecTotalLength, fecData, typeByte &&& 0x1 > 0⟩, r)

/-! ### The parser of frames -/

-- internal/protocol/encryption_level.go:7-16
inductive EncryptionLevel
  | initial
  | handshake
  | zeroRtt
  | oneRtt
  deriving Repr, DecidableEq

def EncryptionLevel.string : EncryptionLevel → String
  | .initial => "Initial"
  | .handshake => "Handshake"
  | .zeroRtt => "0-RTT"
  | .oneRtt => "1-RTT"

inductive ParsedFrame (α : Type)
  | fec (f : FecFrame)
  | other (f : α)
  deriving Repr, DecidableEq

/-- The frame types but FEC: their parsers by type byte, which are also the error for an unknown
type, the levels they are allowed at and their names. -/
structure FrameParser (α : Type) where
  parseOther : UInt8 → EncryptionLevel → Bytes → Except String (α × Bytes)
  isAllowedOther : α → EncryptionLevel → Bool
  name : α → String

-- the code is FrameEncodingError, 41-45
structure TransportError where
  frameType : UInt8
  errorMessage : String
  deriving Repr, DecidableEq

namespace FrameParser

variable {α : Type} (p : FrameParser α)

/-- `isAllowedAtEncLevel` (120-141). -/
def isAllowedAtEncLevel : ParsedFrame α → EncryptionLevel → Bool
  | .fec _, .initial | .fec _, .handshake => false
  | .fec _, .zeroRtt | .fec _, .oneRtt => true
  | .other f, encLevel => p.isAllowedOther f encLevel

def frameName : ParsedFrame α → String
  | .fec _ => "FecFrame"
  | .other f => p.name f

/-- The switch over the type (55-110). -/
def parseType (r : Bytes) (typeByte : UInt8) (encLevel : EncryptionLevel) :
    Except String (ParsedFrame α × Bytes) :=
  if typeByte = 0x20 then (parseFecFrame r).map fun (f, r) => (.fec f, r)
  else (p.parseOther typeByte encLevel r).map fun (f, r) => (.other f, r)

/-- `parseFrame` (52-118). -/
def parseFrame (r : Bytes) (typeByte : UInt8) (encLevel : EncryptionLevel) :
    Except String (ParsedFrame α × Bytes) :=
  match p.parseType r typeByte encLevel with
  | .error message => .error message
  | .ok (frame, r) =>
    if p.isAllowedAtEncLevel frame encLevel then .ok (frame, r)
    else .error (p.frameName frame ++ " not allowed at encryption level " ++ encLevel.string)

/-- `ParseNext` (31-50): the frame, or none at the end, and the bytes after it. -/
def parseNext (encLevel : EncryptionLevel) :
    Bytes → Except TransportError (Option (ParsedFrame α) × Bytes)
  | [] => .ok (none, [])
  | typeByte :: r =>
    if typeByte = 0x0 then parseNext encLevel r
    else match p.parseFrame (typeByte :: r) typeByte encLevel with
      | .error message => .error ⟨typeByte, message⟩
      | .ok (frame, r) => .ok (some frame, r)

end FrameParser

/-! ### The round trip -/

/-- The frames of `pushToTransmissionQueue`, with any numbers in their fields. -/
structure Built (f : FecFrame) : Prop where
  streamID_lt : f.streamID < 2 ^ 62
  streamOffset_lt : f.streamOffset < 2 ^ 62
  symbolSize_lt : f.symbolSize < 2 ^ 32
  numOfSymbols_lt : f.numOfSymbols < 2 ^ 32
  fecDataOffset_lt : f.fecDataOffset < 2 ^ 62
  fecDataLength_lt : f.fecDataLength < 2 ^ 32
  fecTotalLength_lt : f.fecTotalLength < 2 ^ 32
  fecDataLength_eq : f.fecDataLength = f.fecData.length
  fecData_pos : 0 < f.fecData.length

theorem readFull_append {data : Bytes} (h : 0 < data.length) (rest : Bytes) :
    readFull data.length (data ++ rest) = .ok (data, rest) := by
  have hne : data ++ rest ≠ [] := by
    intro hnil
    have hlen := congrArg List.length hnil
    rw [List.length_append, List.length_nil] at hlen
    omega
  have hlen : ¬ (data ++ rest).length < data.length := by
    rw [List.length_append]
    omega
  rw [readFull, if_neg (by omega), if_neg hne, if_neg hlen, List.take_left, List.drop_left]

theorem parseFecFrame_write {f : FecFrame} (hf : Built f) :
    ∃ bytes, writeFec f = .ok (.ok (0x20 :: bytes)) ∧ bytes.length + 1 = fecLength f ∧
      ∀ rest, parseFecFrame (0x20 :: (bytes ++ rest)) =
        if f.fecDataOffset + f.fecData.length > maxByteCount then
          .error "fec reundant data overflows maximum offset"
        else .ok ({ f with fin := false }, rest) := by
  have hwide : ∀ {n : ℕ}, n < 2 ^ 32 → n < 2 ^ 62 := fun h => lt_trans h (by norm_num)
  obtain ⟨w1, h1, l1, r1⟩ := Varint.read_write hf.streamID_lt
  obtain ⟨w2, h2, l2, r2⟩ := Varint.read_write hf.streamOffset_lt
  obtain ⟨w3, h3, l3, r3⟩ := Varint.read_write (hwide hf.symbolSize_lt)
  obtain ⟨w4, h4, l4, r4⟩ := Varint.read_write (hwide hf.numOfSymbols_lt)
  obtain ⟨w5, h5, l5, r5⟩ := Varint.read_write hf.fecDataOffset_lt
  obtain ⟨w6, h6, l6, r6⟩ := Varint.read_write (hwide hf.fecDataLength_lt)
  obtain ⟨w7, h7, l7, r7⟩ := Varint.read_write (hwide hf.fecTotalLength_lt)
  have hpos := hf.fecData_pos
  refine ⟨w1 ++ (w2 ++ (w3 ++ (w4 ++ (w5 ++ (w6 ++ (w7 ++ f.fecData)))))), ?_, ?_, fun rest => ?_⟩
  · unfold writeFec
    rw [if_neg (by omega), h1, h2, h3, h4, h5, h6, h7]
    rfl
  · simp only [List.length_append, l1, l2, l3, l4, l5, l6, l7, fecLength]
    omega
  · have hfull : readFull f.fecDataLength (f.fecData ++ rest) = .ok (f.fecData, rest) := by
      rw [hf.fecDataLength_eq]
      exact readFull_append hpos rest
    simp only [parseFecFrame, readByte, List.append_assoc, bind, Except.bind, r1, r2, r3, r4, r5, r6,
      r7, hfull, u32_of_lt hf.symbolSize_lt, u32_of_lt hf.numOfSymbols_lt,
      u32_of_lt hf.fecDataLength_lt, u32_of_lt hf.fecTotalLength_lt]
    rfl

theorem FrameParser.parseNext_fec {α : Type} (p : FrameParser α) (bytes : Bytes) :
    p.parseNext .oneRtt (0x20 :: bytes) = match parseFecFrame (0x20 :: bytes) with
      | .error message => .error ⟨0x20, message⟩
      | .ok (f, rest) => .ok (some (.fec f), rest) := by
  rw [parseNext, if_neg (by decide), parseFrame, parseType, if_pos rfl]
  cases parseFecFrame (0x20 :: bytes) with
  | error message => rfl
  | ok r => rfl

/-- **The codec of FEC frames.** A frame is written with its length and parsed back with the bytes
after it left just if it has no `Fin` and its data ends below `2^62`. -/
theorem fec_frame_codec_iff {α : Type} (p : FrameParser α) (f : FecFrame) (hf : Built f)
    (rest : Bytes) :
    (∃ bytes, writeFec f = .ok (.ok bytes) ∧ bytes.length = fecLength f ∧
      p.parseNext .oneRtt (bytes ++ rest) = .ok (some (.fec f), rest)) ↔
      f.fin = false ∧ f.fecDataOffset + f.fecData.length < 2 ^ 62 := by
  obtain ⟨bytes, hwrite, hlen, hparse⟩ := parseFecFrame_write hf
  have hnext := p.parseNext_fec (bytes ++ rest)
  rw [hparse rest] at hnext
  by_cases hover : f.fecDataOffset + f.fecData.length > maxByteCount
  · rw [if_pos hover] at hnext
    refine iff_of_false ?_ fun h => ?_
    · rintro ⟨bytes', hwrite', -, hparse'⟩
      rw [hwrite] at hwrite'
      cases hwrite'
      rw [List.cons_append, hnext] at hparse'
      cases hparse'
    · have hlt := h.2
      simp only [maxByteCount] at hover
      omega
  · rw [if_neg hover] at hnext
    have hlt : f.fecDataOffset + f.fecData.length < 2 ^ 62 := by
      simp only [maxByteCount] at hover
      omega
    constructor
    · rintro ⟨bytes', hwrite', -, hparse'⟩
      rw [hwrite] at hwrite'
      cases hwrite'
      rw [List.cons_append, hnext] at hparse'
      have hframe : ({ f with fin := false } : FecFrame) = f := by
        injection hparse' with hpair
        injection (Prod.mk.inj hpair).1 with hsome
        injection hsome
      exact ⟨(congrArg FecFrame.fin hframe).symm, hlt⟩
    · rintro ⟨hfin, _⟩
      refine ⟨0x20 :: bytes, hwrite, hlen, ?_⟩
      have hsame : ({ f with fin := false } : FecFrame) = f := by
        cases f
        cases hfin
        rfl
      rw [List.cons_append, hnext, hsame]

def fecOnly : FrameParser Empty := ⟨fun _ _ _ => .error "unknown frame type", nofun, nofun⟩

def smallFrame (fin : Bool) : FecFrame := ⟨4, 16384, 1024, 16, 3072, 2, 4096, [1, 2], fin⟩

theorem smallFrame_built (fin : Bool) : Built (smallFrame fin) := by
  cases fin <;> constructor <;> decide

theorem fec_frame_codec_small : ∃ bytes, writeFec (smallFrame false) = .ok (.ok bytes) ∧
    bytes.length = fecLength (smallFrame false) ∧
    fecOnly.parseNext .oneRtt (bytes ++ [1]) = .ok (some (.fec (smallFrame false)), [1]) :=
  (fec_frame_codec_iff fecOnly (smallFrame false) (smallFrame_built false) [1]).mpr
    ⟨rfl, by decide⟩

/-- The last frame of a block comes back without `Fin`. -/
theorem fec_fin_lost : ∃ bytes, writeFec (smallFrame true) = .ok (.ok bytes) ∧
    fecOnly.parseNext .oneRtt bytes = .ok (some (.fec (smallFrame false)), []) ∧
    smallFrame false ≠ smallFrame true := by
  obtain ⟨bytes, hwrite, _, hparse⟩ := parseFecFrame_write (smallFrame_built true)
  have hnext := fecOnly.parseNext_fec (bytes ++ [])
  rw [hparse [], if_neg (by decide), List.append_nil] at hnext
  exact ⟨0x20 :: bytes, hwrite, hnext, by decide⟩

/-! ### The frames of the encoder -/

theorem makeFrames_built {streamID startOffset totalLength : ℕ} (hid : streamID < 2 ^ 62)
    (hstart : startOffset < 2 ^ 62) (htotal : totalLength < 2 ^ 32) {turns fecDataOffset : ℕ}
    {fecBlock : Bytes} {frames : List FecFrame}
    (hoffset : fecDataOffset + fecBlock.length ≤ totalLength)
    (h : FecEncoder.makeFrames streamID startOffset totalLength turns fecBlock fecDataOffset =
      .ok frames) : ∀ f ∈ frames, Built f ∧ f.fecDataOffset + f.fecData.length < 2 ^ 62 := by
  induction turns generalizing fecBlock fecDataOffset frames with
  | zero => cases h
  | succ turns ih =>
    rw [FecEncoder.makeFrames] at h
    by_cases hshort : fecBlock.length < symbolSize
    · rw [if_pos hshort] at h
      cases h
    · rw [if_neg hshort] at h
      have hlen : (fecBlock.take symbolSize).length = symbolSize := by
        rw [List.length_take]
        omega
      have hsize : symbolSize < 2 ^ 32 := by decide
      have hpos : 0 < symbolSize := by decide
      have hhead : ∀ fin, Built ⟨streamID, startOffset, symbolSize, numSrcSymbols, fecDataOffset,
          symbolSize, totalLength, fecBlock.take symbolSize, fin⟩ := fun fin =>
        { streamID_lt := hid
          streamOffset_lt := hstart
          symbolSize_lt := hsize
          numOfSymbols_lt := show numSrcSymbols < 2 ^ 32 by decide
          fecDataOffset_lt := by dsimp only; omega
          fecDataLength_lt := hsize
          fecTotalLength_lt := htotal
          fecDataLength_eq := hlen.symm
          fecData_pos := by dsimp only; omega }
      have hend : fecDataOffset + (fecBlock.take symbolSize).length < 2 ^ 62 := by omega
      dsimp only at h
      split at h
      · cases h
        intro f hf
        rw [List.mem_singleton.mp hf]
        exact ⟨hhead _, hend⟩
      · split at h
        · cases h
        · rename_i rest hrest
          cases h
          intro f hf
          rcases List.mem_cons.mp hf with rfl | hf
          · exact ⟨hhead _, hend⟩
          · refine ih ?_ hrest f hf
            rw [List.length_drop]
            omega

theorem pushToTransmissionQueue_built {e e' : FecEncoder} {fecBlock : Bytes} {streamID : ℕ}
    (hid : streamID < 2 ^ 62) (hstart : e.startOffset < 2 ^ 62) (hlen : fecBlock.length < 2 ^ 32)
    (h : e.pushToTransmissionQueue fecBlock streamID = .ok e') :
    ∃ frames, e'.transmissionQueue = e.transmissionQueue ++ frames ∧
      ∀ f ∈ frames, Built f ∧ f.fecDataOffset + f.fecData.length < 2 ^ 62 := by
  unfold FecEncoder.pushToTransmissionQueue at h
  split at h
  · cases h
  · rename_i frames hframes
    cases h
    exact ⟨frames, rfl, makeFrames_built hid hstart hlen (Nat.le_of_eq (Nat.zero_add _)) hframes⟩

end Mp2bs.Quic
