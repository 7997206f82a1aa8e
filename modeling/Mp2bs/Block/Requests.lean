import Mp2bs.Block.Tiling
import Mp2bs.Lib.Machine

/-!
# The segments of a request loop

`sendBlockRequest` asks for a block from a resume offset on, `sendFecBlockRequest` from its start
(`mp2session.go:437-474, 500-539`). Each turn waits for a session ID from `sem` and makes a segment. A
turn starts from any manager and session; only the local variables go from one turn to the next.
-/

namespace Mp2bs.Block
open Mp2bs.Lib Mp2bs.Lib.Machine

/- The parameters of the code (`config/config.go:53-56`, `raptor.go:1359-1361`). -/
abbrev fecSymbolSize : ℕ := 1024
abbrev fecNumSourceSymbols : ℕ := 16
abbrev fecNumEncSymbols : ℕ := 20

namespace RequestJob

/- The data numbers and the flag of the next segment (`mp2session.go:454-460, 513-519`). -/
def startDataNumber (job : RequestJob) : ℕ := job.offset / payloadSize
def endDataNumber (job : RequestJob) : ℕ := u32Sub (u32 (job.startDataNumber + numData job.size)) 1
def lastSegment (job : RequestJob) : Bool := u32 (job.offset + job.size) == job.blockSize

/-- The segment for `selectedSessionID` (`mp2session.go:463`). -/
def segment (job : RequestJob) (selectedSessionID : ℕ) : Segment :=
  createSegment job.blockNumber selectedSessionID job.idx job.startDataNumber job.endDataNumber
    job.size job.lastSegment

/-- The segment of `sendFecBlockRequest` (`mp2session.go:522-523`). -/
def fecSegment (job : RequestJob) (selectedSessionID : ℕ) : Segment :=
  createSegmentWithRedundant job.blockNumber selectedSessionID job.idx job.startDataNumber
    job.endDataNumber job.size job.lastSegment fecSymbolSize fecNumSourceSymbols fecNumEncSymbols

end RequestJob

/-- One turn of the loop of `sendFecBlockRequest` (`mp2session.go:502-538`) with the requests to
the owners. `idx` is `fecIdx`. -/
def Mp2Session.sendFecBlockRequest (m : Manager) (s : Mp2Session) (numPeers : ℕ)
    (job : RequestJob) :
    Except Stop (Manager × Mp2Session × RequestJob × List (ℕ × BlockRequestPacket)) :=
  if job.offset < job.blockSize then match s.sem with
    | [] => .error .blocked
    | selectedSessionID :: sem =>
      match m.addRecvBuffer (job.fecSegment selectedSessionID) with
      | .error e => .error e
      | .ok m =>
        let peers := s.ownersWith .hasBlock
        if ∀ id ∈ peers, id ∈ s.sessionMap then
          .ok (m, { s with sem := sem },
            { job with
              offset := u32 (job.offset + job.size)
              idx := u32 (numPeers * 10 + peers.length) },
            peers.mapIdx fun i id => (id, ⟨job.blockNumber, job.startDataNumber,
              job.endDataNumber, u32 (numPeers * 10 + i) % 2 ^ 8⟩))
        else .error .panic
  else .error .blocked

def Manager.newest (m : Manager) (blockNumber : ℕ) : Option Segment :=
  (m.recvBuffer blockNumber).bind (·.buffer.getLast?)

structure Requests where
  job : RequestJob
  segments : List Segment

def Requests.turn (r : Requests) (w : Manager × Mp2Session) : Except Stop Requests :=
  match w.2.sendBlockRequest w.1 r.job with
  | .error e => .error e
  | .ok (m, _, job, _, _) => .ok ⟨job, r.segments ++ (m.newest r.job.blockNumber).toList⟩

def Requests.fecTurn (numPeers : ℕ) (r : Requests) (w : Manager × Mp2Session) :
    Except Stop Requests :=
  match w.2.sendFecBlockRequest w.1 numPeers r.job with
  | .error e => .error e
  | .ok (m, _, job, _) => .ok ⟨job, r.segments ++ (m.newest r.job.blockNumber).toList⟩

def startRequests (blockNumber blockSize offset : ℕ) : Requests :=
  ⟨⟨blockNumber, blockSize, offset, 0⟩, []⟩

/-! ### What is expected of the segments -/

/-- The segments tile the block from `offset` on. A packet `d` of the block has 1024 bytes, or the
remainder. -/
structure Tiled (blockSize offset : ℕ) (segments : List Segment) : Prop where
  consecutive : ∀ i g g', segments[i]? = some g → segments[i + 1]? = some g' →
    g'.startDataNumber = g.endDataNumber + 1
  disjoint : segments.Pairwise fun g g' => g.endDataNumber < g'.startDataNumber
  covers : ∀ d, (∃ g ∈ segments, g.startDataNumber ≤ d ∧ d ≤ g.endDataNumber) ↔
    offset / payloadSize ≤ d ∧ d < numData blockSize
  sum_size : (segments.map (·.size)).sum = blockSize - offset
  size : ∀ g ∈ segments, 1 ≤ g.size ∧ g.size ≤ segmentSize
  last : ∀ i g, segments[i]? = some g → (g.last = true ↔ i + 1 = segments.length)
  fits : ∀ g ∈ segments, ∀ d, g.startDataNumber ≤ d → d ≤ g.endDataNumber →
    d - g.startDataNumber < g.recvDataSize.length ∧
      payloadSize * (d - g.startDataNumber) + min payloadSize (blockSize - payloadSize * d) ≤
        g.recvBuffer.length

/-- No operation of a turn on offsets, sizes and data numbers wraps, those of `CreateSegment` and of
`CreateSegmentWithRedundant` included. -/
structure RequestJob.NoOverflow (job : RequestJob) : Prop where
  rest : job.offset ≤ job.blockSize
  next : job.offset + job.size < 2 ^ 32
  data : 1 ≤ job.startDataNumber + numData job.size ∧
    job.startDataNumber + numData job.size < 2 ^ 32
  count : job.startDataNumber ≤ job.endDataNumber ∧
    job.endDataNumber - job.startDataNumber + 1 < 2 ^ 32
  redundantSize : fecNumSourceSymbols ≤ fecNumEncSymbols ∧
    fecSymbolSize * (fecNumEncSymbols - fecNumSourceSymbols) < 2 ^ 32
  redundant : job.endDataNumber + 1 +
    numData (fecSymbolSize * (fecNumEncSymbols - fecNumSourceSymbols)) < 2 ^ 32

/-- The loop from `offset`: `n` turns are all it takes, each can be taken when there is a session to
ask, and then the segments tile the block. -/
structure TilesBlock (f : Requests → Manager × Mp2Session → Except Stop Requests)
    (blockNumber blockSize offset : ℕ) : Prop where
  noOverflow : ∀ {ws r}, Run f always (startRequests blockNumber blockSize offset) ws r →
    r.job.offset < r.job.blockSize → r.job.NoOverflow ∧ ws.length + 1 < 2 ^ 32
  turns : ∀ {ws r}, Run f always (startRequests blockNumber blockSize offset) ws r →
    ws.length ≤ numSegments (blockSize - offset) ∧
      (r.job.offset < r.job.blockSize ↔ ws.length < numSegments (blockSize - offset))
  enabled : ∀ {ws r}, Run f always (startRequests blockNumber blockSize offset) ws r →
    r.job.offset < r.job.blockSize → ∀ (m : Manager) (s : Mp2Session),
      (m.recvBuffer blockNumber).isSome → s.sem ≠ [] → (∀ id ∈ s.sem, id ∈ s.sessionMap) →
      (∀ id ∈ s.ownersWith .hasBlock, id ∈ s.sessionMap) → ∃ r', f r (m, s) = .ok r'
  tiled : ∀ {ws r}, Run f always (startRequests blockNumber blockSize offset) ws r →
    ¬ r.job.offset < r.job.blockSize → Tiled blockSize offset r.segments

/-! ### One turn -/

structure Shaped (blockSize offset i : ℕ) (g : Segment) : Prop where
  lt : offset + segmentSize * i < blockSize
  start : g.startDataNumber = offset / payloadSize + packetsPerSegment * i
  size : g.size = min segmentSize (blockSize - (offset + segmentSize * i))
  end_eq : g.endDataNumber + 1 = g.startDataNumber + numData g.size
  last : g.last = decide (blockSize ≤ offset + segmentSize * (i + 1))
  buffer_length : g.recvBuffer.length = g.size
  sizes_length : g.recvDataSize.length = numData g.size

structure AtTurn (blockNumber blockSize offset i : ℕ) (job : RequestJob) : Prop where
  blockNumber_eq : job.blockNumber = blockNumber
  blockSize_eq : job.blockSize = blockSize
  offset_eq : job.offset = min (offset + segmentSize * i) blockSize

theorem add_piece {c i a n : ℕ} (h : a + c * i < n) :
    a + c * i + min c (n - (a + c * i)) = min (a + c * (i + 1)) n := by
  rw [Nat.mul_succ]
  omega

section Turn
variable {blockNumber blockSize offset i : ℕ} {job : RequestJob}

theorem AtTurn.lt (h : AtTurn blockNumber blockSize offset i job)
    (hlt : job.offset < job.blockSize) :
    job.offset = offset + segmentSize * i ∧ offset + segmentSize * i < blockSize := by
  have ho := h.offset_eq
  have hs := h.blockSize_eq
  omega

theorem AtTurn.size (h : AtTurn blockNumber blockSize offset i job) (hb : blockSize < 2 ^ 32)
    (hlt : job.offset < job.blockSize) :
    job.size = min segmentSize (blockSize - (offset + segmentSize * i)) := by
  obtain ⟨ho, hi⟩ := h.lt hlt
  have hsub : u32Sub job.blockSize job.offset = blockSize - (offset + segmentSize * i) := by
    rw [h.blockSize_eq, ho]
    exact u32Sub_of_le hi.le hb
  simp only [RequestJob.size, hsub]
  split_ifs <;> omega

theorem AtTurn.startDataNumber (h : AtTurn blockNumber blockSize offset i job)
    (hlt : job.offset < job.blockSize) :
    job.startDataNumber = offset / payloadSize + packetsPerSegment * i := by
  rw [RequestJob.startDataNumber, (h.lt hlt).1]
  simp only [segmentSize, payloadSize, packetsPerSegment]
  omega

theorem AtTurn.data_lt (h : AtTurn blockNumber blockSize offset i job) (hb : blockSize < 2 ^ 32)
    (hlt : job.offset < job.blockSize) :
    1 ≤ numData job.size ∧ job.startDataNumber + numData job.size + 5 < 2 ^ 32 := by
  have hi := (h.lt hlt).2
  have hsize := h.size hb hlt
  have hstart := h.startDataNumber hlt
  simp only [numData, payloadSize, segmentSize, packetsPerSegment] at *
  omega

theorem AtTurn.endDataNumber (h : AtTurn blockNumber blockSize offset i job)
    (hb : blockSize < 2 ^ 32) (hlt : job.offset < job.blockSize) :
    job.endDataNumber + 1 = job.startDataNumber + numData job.size := by
  obtain ⟨hone, hdata⟩ := h.data_lt hb hlt
  rw [RequestJob.endDataNumber, u32_of_lt (by omega), u32Sub_of_le (by omega) (by omega)]
  omega

theorem AtTurn.next_lt (h : AtTurn blockNumber blockSize offset i job) (hb : blockSize < 2 ^ 32)
    (hlt : job.offset < job.blockSize) : job.offset + job.size ≤ blockSize := by
  obtain ⟨ho, hi⟩ := h.lt hlt
  have hsize := h.size hb hlt
  omega

theorem AtTurn.noOverflow (h : AtTurn blockNumber blockSize offset i job) (hb : blockSize < 2 ^ 32)
    (hlt : job.offset < job.blockSize) : job.NoOverflow := by
  have hdata := h.data_lt hb hlt
  have hend := h.endDataNumber hb hlt
  have hnext := h.next_lt hb hlt
  have hred : numData (fecSymbolSize * (fecNumEncSymbols - fecNumSourceSymbols)) = 4 := rfl
  exact ⟨hlt.le, by omega, by omega, by omega, by decide, by omega⟩

theorem AtTurn.next (h : AtTurn blockNumber blockSize offset i job) (hb : blockSize < 2 ^ 32)
    (hlt : job.offset < job.blockSize) {job' : RequestJob}
    (hnum : job'.blockNumber = job.blockNumber) (hsize' : job'.blockSize = job.blockSize)
    (hoff : job'.offset = u32 (job.offset + job.size)) :
    AtTurn blockNumber blockSize offset (i + 1) job' := by
  obtain ⟨ho, hi⟩ := h.lt hlt
  have hnext := h.next_lt hb hlt
  have hsize := h.size hb hlt
  have hu : u32 (job.offset + job.size) = job.offset + job.size := u32_of_lt (by omega)
  have hsum : job.offset + job.size = min (offset + segmentSize * (i + 1)) blockSize := by
    rw [hsize, ho]
    exact add_piece hi
  exact ⟨hnum.trans h.blockNumber_eq, hsize'.trans h.blockSize_eq, hoff.trans (hu.trans hsum)⟩

theorem AtTurn.shaped (h : AtTurn blockNumber blockSize offset i job) (hb : blockSize < 2 ^ 32)
    (hlt : job.offset < job.blockSize) (sessionID : ℕ) :
    Shaped blockSize offset i (job.segment sessionID) := by
  obtain ⟨ho, hi⟩ := h.lt hlt
  have hnext := h.next_lt hb hlt
  have hsize := h.size hb hlt
  have hend := h.endDataNumber hb hlt
  obtain ⟨hone, hdata⟩ := h.data_lt hb hlt
  have hu : u32 (job.offset + job.size) = job.offset + job.size := u32_of_lt (by omega)
  have hlast : job.offset + job.size = blockSize ↔ blockSize ≤ offset + segmentSize * (i + 1) := by
    rw [hsize, ho, add_piece hi]
    exact min_eq_right_iff
  refine ⟨hi, h.startDataNumber hlt, hsize, hend, ?_, List.length_replicate, ?_⟩
  · show (u32 (job.offset + job.size) == job.blockSize) = _
    rw [hu, h.blockSize_eq]
    exact Bool.eq_iff_iff.mpr (beq_iff_eq.trans (hlast.trans decide_eq_true_iff.symm))
  · show (List.replicate (u32 (u32Sub job.endDataNumber job.startDataNumber + 1)) 0).length = _
    rw [List.length_replicate, u32Sub_of_le (by omega) (by omega), u32_of_lt (by omega)]
    show _ = numData job.size
    omega

theorem Shaped.fecSegment {sessionID : ℕ}
    (h : Shaped blockSize offset i (job.segment sessionID)) :
    Shaped blockSize offset i (job.fecSegment sessionID) :=
  ⟨h.lt, h.start, h.size, h.end_eq, h.last, h.buffer_length, h.sizes_length⟩

end Turn

def Makes (f : Requests → Manager × Mp2Session → Except Stop Requests)
    (segment : RequestJob → ℕ → Segment) : Prop :=
  ∀ r w r', f r w = .ok r' → r.job.offset < r.job.blockSize ∧
    (∃ sessionID, r'.segments = r.segments ++ [segment r.job sessionID]) ∧
    r'.job.blockNumber = r.job.blockNumber ∧ r'.job.blockSize = r.job.blockSize ∧
    r'.job.offset = u32 (r.job.offset + r.job.size)

variable {m m' : Manager} {s s' : Mp2Session} {job job' : RequestJob}

theorem Manager.newest_addRecvBuffer {g : Segment} (h : m.addRecvBuffer g = .ok m') :
    m'.newest g.blockNumber = some g := by
  unfold addRecvBuffer at h
  split at h
  · cases h
  · cases h
    simp [newest]

theorem Mp2Session.sendBlockRequest_ok {id : ℕ} {packet : BlockRequestPacket}
    (h : s.sendBlockRequest m job = .ok (m', s', job', id, packet)) :
    job.offset < job.blockSize ∧ m.addRecvBuffer (job.segment id) = .ok m' ∧
      job' = { job with offset := u32 (job.offset + job.size), idx := u32 (job.idx + 1) } := by
  obtain ⟨_, hlt, _, _, hadd, _, hjob, _⟩ := sendBlockRequest_eq_ok h
  exact ⟨hlt, hadd, hjob⟩

theorem Mp2Session.sendFecBlockRequest_ok {numPeers : ℕ} {packets : List (ℕ × BlockRequestPacket)}
    (h : s.sendFecBlockRequest m numPeers job = .ok (m', s', job', packets)) :
    job.offset < job.blockSize ∧ (∃ id, m.addRecvBuffer (job.fecSegment id) = .ok m') ∧
      job' = { job with
        offset := u32 (job.offset + job.size)
        idx := u32 (numPeers * 10 + (s.ownersWith .hasBlock).length) } := by
  unfold sendFecBlockRequest at h
  by_cases hlt : job.offset < job.blockSize
  · simp only [if_pos hlt] at h
    cases hsem : s.sem with
    | nil => simp [hsem] at h
    | cons sel sem =>
      simp only [hsem] at h
      split at h
      · cases h
      · rename_i m₁ hadd
        split_ifs at h with hmem
        simp only [Except.ok.injEq, Prod.mk.injEq] at h
        obtain ⟨rfl, rfl, rfl, rfl⟩ := h
        exact ⟨hlt, ⟨sel, hadd⟩, rfl⟩
  · simp [if_neg hlt] at h

theorem Requests.turn_makes : Makes Requests.turn RequestJob.segment := by
  intro r w r' h
  unfold Requests.turn at h
  split at h
  · cases h
  · rename_i m _ job id packet hturn
    obtain ⟨hlt, hadd, hnext⟩ := Mp2Session.sendBlockRequest_ok hturn
    have hnum : (r.job.segment id).blockNumber = r.job.blockNumber := rfl
    have hnew := Manager.newest_addRecvBuffer hadd
    rw [hnum] at hnew
    rw [hnew, Option.toList_some] at h
    have hr' := (Except.ok.inj h).symm
    have hseg : r'.segments = r.segments ++ [r.job.segment id] := by rw [hr']
    have hjob : r'.job = job := by rw [hr']
    exact ⟨hlt, ⟨id, hseg⟩, by rw [hjob, hnext], by rw [hjob, hnext], by rw [hjob, hnext]⟩

theorem Requests.fecTurn_makes (numPeers : ℕ) :
    Makes (Requests.fecTurn numPeers) RequestJob.fecSegment := by
  intro r w r' h
  unfold Requests.fecTurn at h
  split at h
  · cases h
  · rename_i m _ job packets hturn
    obtain ⟨hlt, ⟨id, hadd⟩, hnext⟩ := Mp2Session.sendFecBlockRequest_ok hturn
    have hnum : (r.job.fecSegment id).blockNumber = r.job.blockNumber := rfl
    have hnew := Manager.newest_addRecvBuffer hadd
    rw [hnum] at hnew
    rw [hnew, Option.toList_some] at h
    have hr' := (Except.ok.inj h).symm
    have hseg : r'.segments = r.segments ++ [r.job.fecSegment id] := by rw [hr']
    have hjob : r'.job = job := by rw [hr']
    exact ⟨hlt, ⟨id, hseg⟩, by rw [hjob, hnext], by rw [hjob, hnext], by rw [hjob, hnext]⟩

/-! ### Whole loops -/

section Loop
variable {blockNumber blockSize offset : ℕ} {f : Requests → Manager × Mp2Session → Except Stop Requests}
  {segment : RequestJob → ℕ → Segment} {ws : List (Manager × Mp2Session)} {r : Requests}

theorem forall_getElem?_append {α : Type} {P : ℕ → α → Prop} {l : List α} {x : α}
    (h : ∀ i y, l[i]? = some y → P i y) (hx : P l.length x) :
    ∀ i y, (l ++ [x])[i]? = some y → P i y := by
  intro i y hy
  rcases Nat.lt_trichotomy i l.length with hi | rfl | hi
  · rw [List.getElem?_append_left hi] at hy
    exact h i y hy
  · rw [List.getElem?_concat_length] at hy
    rwa [← Option.some.inj hy]
  · have hlt := (List.getElem?_eq_some_iff.mp hy).1
    rw [List.length_append, List.length_singleton] at hlt
    omega

structure Requested (blockNumber blockSize offset n : ℕ) (r : Requests) : Prop where
  atTurn : AtTurn blockNumber blockSize offset n r.job
  length_eq : r.segments.length = n
  shaped : ∀ i g, r.segments[i]? = some g → Shaped blockSize offset i g

theorem Makes.requested (hf : Makes f segment) (hb : blockSize < 2 ^ 32) (hoff : offset ≤ blockSize)
    (hshape : ∀ {i job}, AtTurn blockNumber blockSize offset i job → job.offset < job.blockSize →
      ∀ sessionID, Shaped blockSize offset i (segment job sessionID))
    (h : Run f always (startRequests blockNumber blockSize offset) ws r) :
    Requested blockNumber blockSize offset ws.length r := by
  induction h with
  | nil =>
    refine ⟨⟨rfl, rfl, ?_⟩, rfl, fun i g hg => by cases hg⟩
    rw [List.length_nil, Nat.mul_zero, Nat.add_zero, Nat.min_eq_left hoff]
    rfl
  | snoc _ _ hs ih =>
    obtain ⟨hlt, ⟨id, hseg⟩, hnum, hsize, hnext⟩ := hf _ _ _ hs
    rw [List.length_append, List.length_singleton]
    refine ⟨ih.atTurn.next hb hlt hnum hsize hnext, ?_, ?_⟩
    · rw [hseg, List.length_append, List.length_singleton, ih.length_eq]
    · rw [hseg]
      apply forall_getElem?_append ih.shaped
      rw [ih.length_eq]
      exact hshape ih.atTurn hlt id

theorem Requested.lt_iff (h : Requested blockNumber blockSize offset ws.length r) :
    r.job.offset < r.job.blockSize ↔ ws.length < numSegments (blockSize - offset) := by
  have ho := h.atTurn.offset_eq
  have hs := h.atTurn.blockSize_eq
  rw [lt_numSegments_iff, ho, hs]
  simp only [segmentSize]
  omega

theorem Requested.length_le (h : Requested blockNumber blockSize offset ws.length r) :
    ws.length ≤ numSegments (blockSize - offset) := by
  rcases Nat.eq_zero_or_pos ws.length with h0 | hpos
  · omega
  · have hlast : ws.length - 1 < r.segments.length := by
      rw [h.length_eq]
      omega
    have hlt := (h.shaped _ _ (List.getElem?_eq_getElem hlast)).lt
    have hnum : ws.length - 1 < numSegments (blockSize - offset) := by
      rw [lt_numSegments_iff]
      simp only [segmentSize] at hlt ⊢
      omega
    omega

theorem numSegments_lt (offset : ℕ) (hb : blockSize < 2 ^ 32) :
    numSegments (blockSize - offset) < 2 ^ 31 := by
  simp only [numSegments, segmentSize]
  omega

/-! ### Segments of these shapes tile the block -/

variable {segments : List Segment}

theorem Shaped.numData_size {i : ℕ} {g : Segment} (h : Shaped blockSize offset i g) (t : ℕ) :
    t < numData g.size ↔ t < packetsPerSegment ∧
      offset + segmentSize * i + payloadSize * t < blockSize := by
  rw [lt_numData_iff, h.size]
  have hlt := h.lt
  simp only [segmentSize, payloadSize, packetsPerSegment] at *
  omega

theorem sum_shaped (h : ∀ i g, segments[i]? = some g → Shaped blockSize offset i g) :
    (segments.map (·.size)).sum = min (segmentSize * segments.length) (blockSize - offset) := by
  induction segments using List.reverseRecOn with
  | nil => simp
  | append_singleton segments g ih =>
    have hg := h segments.length g (by simp)
    have hrest := ih fun i g' hg' => h i g' (by
      rw [List.getElem?_append_left (List.getElem?_eq_some_iff.mp hg').1]
      exact hg')
    have hlt := hg.lt
    have hsize := hg.size
    rw [List.map_append, List.sum_append, hrest, List.length_append, List.length_singleton,
      List.map_singleton, List.sum_singleton, hsize]
    simp only [segmentSize] at *
    omega

theorem tiled_of_shaped (hdvd : payloadSize ∣ offset)
    (h : ∀ i g, segments[i]? = some g → Shaped blockSize offset i g)
    (hlen : segments.length = numSegments (blockSize - offset)) :
    Tiled blockSize offset segments := by
  have hall : ∀ g ∈ segments, ∃ i, Shaped blockSize offset i g := by
    intro g hg
    obtain ⟨i, hi⟩ := List.mem_iff_getElem?.mp hg
    exact ⟨i, h i g hi⟩
  refine ⟨fun i g g' hg hg' => ?_, ?_, fun d => ⟨?_, ?_⟩, ?_, fun g hg => ?_, fun i g hg => ?_,
    fun g hg d hlo hhi => ?_⟩
  · have hi := h i g hg
    have hnext := h _ _ hg'
    have hlast := (hi.numData_size (packetsPerSegment - 1)).mpr
    have hfirst := hi.numData_size packetsPerSegment
    have hlt := hnext.lt
    have hend := hi.end_eq
    have hs := hi.start
    have hs' := hnext.start
    simp only [segmentSize, payloadSize, packetsPerSegment] at *
    omega
  · rw [List.pairwise_iff_getElem]
    intro i j hi hj hij
    have hsi := h i _ (List.getElem?_eq_getElem hi)
    have hsj := h j _ (List.getElem?_eq_getElem hj)
    have hfirst := hsi.numData_size packetsPerSegment
    have hend := hsi.end_eq
    have hs := hsi.start
    have hs' := hsj.start
    simp only [packetsPerSegment] at *
    omega
  · rintro ⟨g, hg, hlo, hhi⟩
    obtain ⟨i, hi⟩ := hall g hg
    have hin := hi.numData_size (d - g.startDataNumber)
    have hend := hi.end_eq
    have hs := hi.start
    rw [lt_numData_iff]
    simp only [segmentSize, payloadSize, packetsPerSegment] at *
    omega
  · rintro ⟨hlo, hhi⟩
    rw [lt_numData_iff] at hhi
    have hi : (d - offset / payloadSize) / packetsPerSegment < segments.length := by
      rw [hlen, lt_numSegments_iff]
      simp only [segmentSize, payloadSize, packetsPerSegment] at *
      omega
    have hsi := h _ _ (List.getElem?_eq_getElem hi)
    refine ⟨_, List.getElem_mem hi, ?_⟩
    generalize segments[(d - offset / payloadSize) / packetsPerSegment] = g at hsi
    have hin := hsi.numData_size (d - g.startDataNumber)
    have hend := hsi.end_eq
    have hs := hsi.start
    simp only [segmentSize, payloadSize, packetsPerSegment] at *
    omega
  · have hle := le_numSegments_mul (blockSize - offset)
    rw [sum_shaped h, hlen, Nat.min_eq_right hle]
  · obtain ⟨i, hi⟩ := hall g hg
    have hlt := hi.lt
    rw [hi.size]
    simp only [segmentSize] at *
    omega
  · have hi := h i g hg
    have hil := (List.getElem?_eq_some_iff.mp hg).1
    have hnext := lt_numSegments_iff (blockSize - offset) (i + 1)
    rw [hi.last, decide_eq_true_iff, hlen]
    rw [hlen] at hil
    simp only [segmentSize] at *
    omega
  · obtain ⟨i, hi⟩ := hall g hg
    have hend := hi.end_eq
    have hs := hi.start
    have hcount : d - g.startDataNumber < numData g.size := by omega
    have hin := (hi.numData_size _).mp hcount
    rw [hi.sizes_length, hi.buffer_length]
    refine ⟨hcount, ?_⟩
    rw [hi.size]
    simp only [segmentSize, payloadSize, packetsPerSegment] at *
    omega

theorem Makes.tilesBlock (hf : Makes f segment) (hb : blockSize < 2 ^ 32) (hoff : offset ≤ blockSize)
    (hdvd : payloadSize ∣ offset)
    (hshape : ∀ {i job}, AtTurn blockNumber blockSize offset i job → job.offset < job.blockSize →
      ∀ sessionID, Shaped blockSize offset i (segment job sessionID))
    (henabled : ∀ r : Requests, r.job.offset < r.job.blockSize → ∀ (m : Manager) (s : Mp2Session),
      (m.recvBuffer r.job.blockNumber).isSome → s.sem ≠ [] → (∀ id ∈ s.sem, id ∈ s.sessionMap) →
      (∀ id ∈ s.ownersWith .hasBlock, id ∈ s.sessionMap) → ∃ r', f r (m, s) = .ok r') :
    TilesBlock f blockNumber blockSize offset where
  noOverflow {ws r} hrun hlt := by
    have hreq := hf.requested hb hoff hshape hrun
    have hle := hreq.length_le
    have hnum := numSegments_lt offset hb
    exact ⟨hreq.atTurn.noOverflow hb hlt, by omega⟩
  turns {ws r} hrun :=
    have hreq := hf.requested hb hoff hshape hrun
    ⟨hreq.length_le, hreq.lt_iff⟩
  enabled {ws r} hrun hlt m s hm := by
    have hreq := hf.requested hb hoff hshape hrun
    rw [← hreq.atTurn.blockNumber_eq] at hm
    exact henabled r hlt m s hm
  tiled {ws r} hrun hdone := by
    have hreq := hf.requested hb hoff hshape hrun
    have hle := hreq.length_le
    rw [hreq.lt_iff] at hdone
    exact tiled_of_shaped hdvd hreq.shaped (by rw [hreq.length_eq]; omega)

end Loop

theorem Requests.turn_enabled (r : Requests) (hlt : r.job.offset < r.job.blockSize) (m : Manager)
    (s : Mp2Session) (hm : (m.recvBuffer r.job.blockNumber).isSome) (hsem : s.sem ≠ [])
    (hids : ∀ id ∈ s.sem, id ∈ s.sessionMap) : ∃ r', r.turn (m, s) = .ok r' := by
  obtain ⟨bb, hbb⟩ := Option.isSome_iff_exists.mp hm
  obtain ⟨id, sem, hcons⟩ := List.exists_cons_of_ne_nil hsem
  have hid : id ∈ s.sessionMap := hids id (by rw [hcons]; exact List.mem_cons_self ..)
  have hadd : m.addRecvBuffer (r.job.segment id) = .ok (m.setRecvBuffer r.job.blockNumber
      { bb with buffer := bb.buffer ++ [r.job.segment id] }) := by
    have hnum : (r.job.segment id).blockNumber = r.job.blockNumber := rfl
    rw [Manager.addRecvBuffer, hnum, hbb]
  cases hturn : s.sendBlockRequest m r.job with
  | ok t => exact ⟨_, by rw [Requests.turn, hturn]⟩
  | error e =>
    unfold Mp2Session.sendBlockRequest at hturn
    rw [if_pos hlt, hcons] at hturn
    simp only [RequestJob.segment, RequestJob.startDataNumber, RequestJob.endDataNumber,
      RequestJob.lastSegment] at hadd
    simp only [hadd, Mp2Session.setOwner, hid, if_true, reduceCtorEq] at hturn

theorem Requests.fecTurn_enabled (numPeers : ℕ) (r : Requests)
    (hlt : r.job.offset < r.job.blockSize) (m : Manager) (s : Mp2Session)
    (hm : (m.recvBuffer r.job.blockNumber).isSome) (hsem : s.sem ≠ [])
    (howners : ∀ id ∈ s.ownersWith .hasBlock, id ∈ s.sessionMap) :
    ∃ r', r.fecTurn numPeers (m, s) = .ok r' := by
  obtain ⟨bb, hbb⟩ := Option.isSome_iff_exists.mp hm
  obtain ⟨id, sem, hcons⟩ := List.exists_cons_of_ne_nil hsem
  have hadd : m.addRecvBuffer (r.job.fecSegment id) = .ok (m.setRecvBuffer r.job.blockNumber
      { bb with buffer := bb.buffer ++ [r.job.fecSegment id] }) := by
    have hnum : (r.job.fecSegment id).blockNumber = r.job.blockNumber := rfl
    rw [Manager.addRecvBuffer, hnum, hbb]
  cases hturn : s.sendFecBlockRequest m numPeers r.job with
  | ok t => exact ⟨_, by rw [Requests.fecTurn, hturn]⟩
  | error e =>
    unfold Mp2Session.sendFecBlockRequest at hturn
    rw [if_pos hlt, hcons] at hturn
    simp only [hadd] at hturn
    rw [if_pos howners] at hturn
    cases hturn

/-- The segments of both loops tile the block. -/
theorem requests_tile_block {blockSize offset : ℕ} (hb : blockSize < 2 ^ 32)
    (hoff : offset ≤ blockSize) (hdvd : payloadSize ∣ offset) (blockNumber numPeers : ℕ) :
    TilesBlock Requests.turn blockNumber blockSize offset ∧
      TilesBlock (Requests.fecTurn numPeers) blockNumber blockSize 0 := by
  constructor
  · exact Requests.turn_makes.tilesBlock hb hoff hdvd (fun h hlt => h.shaped hb hlt)
      fun r hlt m s hm hsem hids _ => r.turn_enabled hlt m s hm hsem hids
  · exact (Requests.fecTurn_makes numPeers).tilesBlock hb (Nat.zero_le _) (Nat.dvd_zero _)
      (fun h hlt id => (h.shaped hb hlt id).fecSegment)
      fun r hlt m s hm hsem _ howners => r.fecTurn_enabled numPeers hlt m s hm hsem howners

theorem requests_tile_block_resumed :
    TilesBlock Requests.turn 7 (2 ^ 32 - 1) 2048 ∧
      TilesBlock (Requests.fecTurn 3) 7 (2 ^ 32 - 1) 0 :=
  requests_tile_block (by norm_num) (by norm_num) (by norm_num) 7 3

end Mp2bs.Block
