import Mp2bs.Block.Requests

/-!
# Where the reads of a block end

`Mp2ReadBlock` waits while the block has no segment and the flag `goodbye` is not set, and returns 0
if there is still no segment then (`mp2session_manager.go:433-436`). The flag belongs to the manager:
whichever block's last segment is read to its end sets it (461). `timer` flushes a
segment list (`mp2session.go:855-859`).
-/

namespace Mp2bs.Block.ReadEnd
open Mp2bs.Lib Mp2bs.Lib.Slice Mp2bs.Lib.Machine

inductive Label
  | info (session : Mp2Session) (packet : BlockInfoPacket) (sessionID : ℕ)
  | request (session : Mp2Session) (job : RequestJob)
  | fecRequest (session : Mp2Session) (numPeers : ℕ) (job : RequestJob)
  | data (session : Mp2Session) (packet : BlockDataPacket)
  | flush (blockNumber : ℕ)
  | read (blockNumber bufLen : ℕ)
  deriving DecidableEq

/-- History: the bytes returned for each block, whether its last segment has been read to its end, and
for each read that returned 0 the bytes of its block returned before. -/
structure State where
  manager : Manager
  returned : ℕ → Bytes
  ended : ℕ → Bool
  zeros : List (ℕ × Bytes)

def init : State := ⟨⟨[], fun _ => none, false⟩, fun _ => [], fun _ => false, []⟩

def segments (m : Manager) (b : ℕ) : List Segment :=
  match m.recvBuffer b with
  | none => []
  | some bb => bb.buffer

def finishes (m m' : Manager) (b : ℕ) : Bool :=
  (segments m' b).length < (segments m b).length && (segments m b).head?.any (·.last)

def step (s : State) : Label → Except Stop State
  | .info session packet sessionID =>
    .ok { s with manager := (session.handleBlockInfoPacket s.manager packet sessionID).1 }
  | .request session job => match session.sendBlockRequest s.manager job with
    | .error e => .error e
    | .ok (m, _) => .ok { s with manager := m }
  | .fecRequest session numPeers job =>
    match session.sendFecBlockRequest s.manager numPeers job with
    | .error e => .error e
    | .ok (m, _) => .ok { s with manager := m }
  | .data session packet => match session.handleBlockDataPacket s.manager packet with
    | .error e => .error e
    | .ok (m, _) => .ok { s with manager := m }
  | .flush b => match s.manager.recvBuffer b with
    | none => .error .panic
    | some bb =>
      if bb.lastRecvBytes ≤ bb.readBytes then
        .ok { s with manager := s.manager.setRecvBuffer b { bb with buffer := [] } }
      else .error .blocked
  | .read b bufLen =>
    if bufLen = 0 then .error .blocked
    else match s.manager.mp2ReadBlock bufLen b with
      | .error e => .error e
      | .ok (m, data) => .ok {
          manager := m
          returned := Function.update s.returned b (s.returned b ++ data)
          ended := Function.update s.ended b (s.ended b || finishes s.manager m b)
          zeros := if data = [] then s.zeros ++ [(b, s.returned b)] else s.zeros }

def queued (l : List Segment) : ℕ := (l.map fun g => g.size - g.readDataOffset).sum

/-- A request loop asks for the bytes behind those that have been returned or asked for. -/
def Continues (s : State) (job : RequestJob) : Prop :=
  payloadSize ∣ job.offset ∧ job.offset = (s.returned job.blockNumber).length +
    queued (segments s.manager job.blockNumber)

/-- What reaches the manager: the loops know the size of the block, and the packets have its
bytes. -/
def Honest (blocks : ℕ → Bytes) : Label → Prop
  | .request _ job | .fecRequest _ _ job => job.blockSize = (blocks job.blockNumber).length
  | .data _ packet => packet.redundant = fecSourceData → ∃ sessionID d,
      packet = dataPacket packet.blockNumber sessionID d (blocks packet.blockNumber)
  | .info .. | .flush _ | .read .. => True

/-- A read that finds no segment and the flag set comes after the end of its own block. -/
def OwnEnd (s : State) : Label → Prop
  | .request _ job | .fecRequest _ _ job => Continues s job
  | .read b bufLen => u32 bufLen ≠ 0 ∧
      (segments s.manager b = [] → s.manager.goodbye = true → s.ended b = true)
  | .info .. | .data .. | .flush _ => True

def Guard (blocks : ℕ → Bytes) (s : State) (a : Label) : Prop := Honest blocks a ∧ OwnEnd s a

/-! ### The segments of one block -/

structure Piece (block : Bytes) (b base : ℕ) (g : Segment) : Prop where
  blockNumber_eq : g.blockNumber = b
  dvd : payloadSize ∣ base
  start_eq : g.startDataNumber = base / payloadSize
  fits : base + g.size ≤ block.length
  whole : payloadSize ∣ g.size ∨ base + g.size = block.length
  last_eq : g.last = decide (base + g.size = block.length)
  holds : g.Reassembles (window block base g.size)
  unread : g.readDataOffset < g.size

def Queue (block : Bytes) (b : ℕ) : ℕ → List Segment → Prop
  | _, [] => True
  | base, g :: rest => Piece block b base g ∧ (∀ g' ∈ rest, g'.readDataOffset = 0) ∧
      Queue block b (base + g.size) rest

def headRead : List Segment → ℕ
  | [] => 0
  | g :: _ => g.readDataOffset

structure Follows (block : Bytes) (b : ℕ) (returned : Bytes) (l : List Segment) : Prop where
  exists_base : ∃ base, Queue block b base l ∧ base + headRead l ≤ block.length ∧
    returned = block.take (base + headRead l)

variable {block : Bytes} {b base : ℕ} {g : Segment} {l : List Segment}

theorem packetData_window {n t : ℕ} (hdvd : payloadSize ∣ base)
    (hwhole : payloadSize ∣ n ∨ base + n = block.length) (ht : t < numData n) :
    packetData (window block base n) t = packetData block (base / payloadSize + t) := by
  have hlt := (lt_numData_iff n t).mp ht
  have hpos : base + payloadSize * t = payloadSize * (base / payloadSize + t) := by
    simp only [payloadSize] at *
    omega
  simp only [packetData, chunk]
  rw [window_window, hpos]
  rcases hwhole with hwhole | hend
  · have hmin : min payloadSize (n - payloadSize * t) = payloadSize := by
      simp only [payloadSize] at *
      omega
    rw [hmin]
  · apply List.ext_getElem?
    intro i
    rw [window_getElem?, window_getElem?]
    by_cases hi : i < min payloadSize (n - payloadSize * t)
    · rw [if_pos hi, if_pos (by omega)]
    · rw [if_neg hi]
      split_ifs with hi'
      · refine (List.getElem?_eq_none ?_).symm
        simp only [payloadSize] at *
        omega
      · rfl

theorem Piece.pushData (h : Piece block b base g) {d : ℕ} (hlo : g.startDataNumber ≤ d)
    (hhi : d ≤ g.endDataNumber) :
    ∃ g', g.pushData b d (packetData block d) = .ok (g', true) ∧ Piece block b base g' ∧
      g'.size = g.size ∧ g'.readDataOffset = g.readDataOffset := by
  have hend := h.holds.end_eq
  have hstart := h.start_eq
  have ht : d - g.startDataNumber < numData g.size := by omega
  have hpush := h.holds.pushData_eq _ ht
  have hdata := packetData_window h.dvd h.whole ht
  have hd : g.startDataNumber + (d - g.startDataNumber) = d := by omega
  rw [← hstart, hd] at hdata
  rw [hd, hdata, h.blockNumber_eq] at hpush
  exact ⟨_, hpush, ⟨h.blockNumber_eq, h.dvd, h.start_eq, h.fits, h.whole, h.last_eq,
    h.holds.pushed_reassembles _ ht, h.unread⟩, rfl, rfl⟩

theorem Piece.congr (h : Piece block b base g) {g' : Segment} (hnum : g'.blockNumber = g.blockNumber)
    (hstart : g'.startDataNumber = g.startDataNumber) (hsize : g'.size = g.size)
    (hlast : g'.last = g.last) (hread : g'.readDataOffset = g.readDataOffset)
    (hholds : ∀ content, g.Reassembles content → g'.Reassembles content) :
    Piece block b base g' := by
  refine ⟨hnum.trans h.blockNumber_eq, h.dvd, hstart.trans h.start_eq, ?_, ?_, ?_, ?_, ?_⟩
  · rw [hsize]
    exact h.fits
  · rw [hsize]
    exact h.whole
  · rw [hlast, hsize]
    exact h.last_eq
  · rw [hsize]
    exact hholds _ h.holds
  · rw [hread, hsize]
    exact h.unread

theorem Queue.set (h : Queue block b base l) {i : ℕ} {g' : Segment} (hg : l[i]? = some g)
    (hpiece : ∀ base, Piece block b base g → Piece block b base g') (hsize : g'.size = g.size)
    (hread : g'.readDataOffset = g.readDataOffset) : Queue block b base (l.set i g') := by
  induction l generalizing base i with
  | nil => cases hg
  | cons x rest ih =>
    obtain ⟨hx, hzero, hrest⟩ := h
    cases i with
    | zero =>
      rw [List.getElem?_cons_zero, Option.some.injEq] at hg
      subst hg
      refine ⟨hpiece _ hx, hzero, ?_⟩
      rw [hsize]
      exact hrest
    | succ i =>
      rw [List.getElem?_cons_succ] at hg
      refine ⟨hx, fun y hy => ?_, ih hrest hg⟩
      rcases List.mem_or_eq_of_mem_set hy with hy | rfl
      · exact hzero y hy
      · rw [hread]
        exact hzero g (List.mem_of_getElem? hg)

theorem headRead_set {i : ℕ} {g' : Segment} (hg : l[i]? = some g)
    (hread : g'.readDataOffset = g.readDataOffset) : headRead (l.set i g') = headRead l := by
  cases l with
  | nil => rfl
  | cons x rest =>
    cases i with
    | zero =>
      rw [List.getElem?_cons_zero, Option.some.injEq] at hg
      subst hg
      exact hread
    | succ i => rfl

theorem Queue.piece_of_mem (h : Queue block b base l) (hg : g ∈ l) :
    ∃ base, Piece block b base g := by
  induction l generalizing base with
  | nil => cases hg
  | cons x rest ih =>
    rcases List.mem_cons.mp hg with rfl | hg
    · exact ⟨base, h.1⟩
    · exact ih h.2.2 hg

theorem Queue.end_eq (h : Queue block b base l) :
    base + headRead l + queued l = base + (l.map (·.size)).sum := by
  induction l generalizing base with
  | nil => rfl
  | cons x rest ih =>
    obtain ⟨hx, hzero, hrest⟩ := h
    have hhead : headRead rest = 0 := by
      cases rest with
      | nil => rfl
      | cons y _ => exact hzero y (List.mem_cons_self ..)
    have hq := ih hrest
    have hunread := hx.unread
    rw [hhead] at hq
    have hqueued : queued (x :: rest) = x.size - x.readDataOffset + queued rest := by
      simp only [queued, List.map_cons, List.sum_cons]
    have hread : headRead (x :: rest) = x.readDataOffset := rfl
    rw [hqueued, hread, List.map_cons, List.sum_cons]
    omega

theorem Queue.append (h : Queue block b base l) (hg : Piece block b (base + (l.map (·.size)).sum) g)
    (hread : g.readDataOffset = 0) : Queue block b base (l ++ [g]) := by
  induction l generalizing base with
  | nil => exact ⟨hg, fun _ h => absurd h List.not_mem_nil, trivial⟩
  | cons x rest ih =>
    obtain ⟨hx, hzero, hrest⟩ := h
    rw [List.map_cons, List.sum_cons, ← Nat.add_assoc] at hg
    refine ⟨hx, fun y hy => ?_, ih hrest hg⟩
    rcases List.mem_append.mp hy with hy | hy
    · exact hzero y hy
    · rw [List.mem_singleton.mp hy]
      exact hread

/-! ### The operations of the manager -/

theorem Follows.set {returned : Bytes} (h : Follows block b returned l) {i : ℕ} {g' : Segment}
    (hg : l[i]? = some g) (hpiece : ∀ base, Piece block b base g → Piece block b base g')
    (hsize : g'.size = g.size) (hread : g'.readDataOffset = g.readDataOffset) :
    Follows block b returned (l.set i g') := by
  obtain ⟨base, hq, hle, hret⟩ := h.exists_base
  have hhead := headRead_set hg hread
  refine ⟨base, hq.set hg hpiece hsize hread, ?_, ?_⟩
  · rw [hhead]
    exact hle
  · rw [hhead]
    exact hret

theorem Follows.returned_length {returned : Bytes} (h : Follows block b returned l) :
    ∃ base, Queue block b base l ∧ returned = block.take (base + headRead l) ∧
      base + headRead l ≤ block.length ∧
      returned.length + queued l = base + (l.map (·.size)).sum := by
  obtain ⟨base, hq, hle, hret⟩ := h.exists_base
  refine ⟨base, hq, hret, hle, ?_⟩
  rw [hret, List.length_take, Nat.min_eq_left hle]
  exact hq.end_eq

theorem Follows.append {returned : Bytes} (h : Follows block b returned l)
    (hg : Piece block b (returned.length + queued l) g) (hread : g.readDataOffset = 0) :
    Follows block b returned (l ++ [g]) := by
  obtain ⟨base, hq, hret, hle, hend⟩ := h.returned_length
  have hhead : headRead (l ++ [g]) = headRead l := by
    cases l with
    | nil => exact hread
    | cons x rest => rfl
  rw [hend] at hg
  refine ⟨base, hq.append hg hread, ?_, ?_⟩
  · rw [hhead]
    exact hle
  · rw [hhead]
    exact hret

theorem Follows.flush {returned : Bytes} (h : Follows block b returned l) :
    Follows block b returned [] := by
  obtain ⟨base, hq, hle, hret⟩ := h.exists_base
  exact ⟨base + headRead l, trivial, hle, hret⟩

theorem shaped_piece {offset : ℕ} (hshape : Shaped block.length offset 0 g)
    (hdvd : payloadSize ∣ offset) (hnum : g.blockNumber = b)
    (hread : g.readDataOffset = 0) (hholds : g.Reassembles (window block offset g.size)) :
    Piece block b offset g := by
  have hlt := hshape.lt
  have hsize := hshape.size
  have hstart := hshape.start
  have hlast := hshape.last
  rw [Nat.mul_zero, Nat.add_zero] at hlt hsize hstart
  rw [Nat.zero_add, Nat.mul_one] at hlast
  refine ⟨hnum, hdvd, hstart, by omega, ?_, ?_, hholds, ?_⟩
  · simp only [payloadSize, segmentSize] at *
    omega
  · rw [hlast]
    apply decide_eq_decide.mpr
    omega
  · rw [hread, hsize]
    simp only [segmentSize] at *
    omega

theorem segment_piece {job : RequestJob} (hlt : job.offset < job.blockSize)
    (hsize : job.blockSize = block.length) (hb : block.length < 2 ^ 32)
    (hdvd : payloadSize ∣ job.offset) (sessionID : ℕ) :
    Piece block job.blockNumber job.offset (job.segment sessionID) ∧
      Piece block job.blockNumber job.offset (job.fecSegment sessionID) := by
  have hturn : AtTurn job.blockNumber block.length job.offset 0 job := by
    refine ⟨rfl, hsize, ?_⟩
    rw [Nat.mul_zero, Nat.add_zero]
    omega
  have hshape := hturn.shaped hb hlt sessionID
  have hgsize : (job.segment sessionID).size = job.size := rfl
  have hlen : (window block job.offset job.size).length = job.size := by
    have hnext := hturn.next_lt hb hlt
    rw [window_length]
    omega
  have hpos : 0 < job.size := by
    have hone := (hturn.data_lt hb hlt).1
    have hle := (lt_numData_iff job.size 0).mp hone
    omega
  have hholds : (job.segment sessionID).Reassembles (window block job.offset job.size) := by
    have hend := hturn.endDataNumber hb hlt
    have hdata := (hturn.data_lt hb hlt).2
    have hnext := hturn.next_lt hb hlt
    have hcreate := createSegment_reassembles job.blockNumber sessionID job.idx job.startDataNumber
      job.endDataNumber job.lastSegment (window block job.offset job.size) (by rw [hlen]; exact hpos)
      (by rw [hlen]; omega) (by rw [hlen]; exact hend) (by omega)
    rw [hlen] at hcreate
    exact hcreate
  have hpiece := shaped_piece hshape hdvd rfl rfl hholds
  exact ⟨hpiece, hpiece.congr rfl rfl rfl rfl rfl fun content h =>
    ⟨h.size_eq, h.size_pos, h.size_lt, h.end_eq, h.end_lt, h.buffer_length, h.sizes_length,
      h.arrived, h.expected, h.lastRecv, h.completed, h.read_le⟩⟩

@[simp] theorem segments_setRecvBuffer_self (m : Manager) (b : ℕ) (bb : BlockBuffer) :
    segments (m.setRecvBuffer b bb) b = bb.buffer := by
  simp [segments]

theorem segments_setRecvBuffer_of_ne (m : Manager) {b c : ℕ} (bb : BlockBuffer) (h : c ≠ b) :
    segments (m.setRecvBuffer b bb) c = segments m c := by
  simp only [segments, Manager.setRecvBuffer, Function.update_of_ne h]

theorem segments_of_some {m : Manager} {bb : BlockBuffer} (h : m.recvBuffer b = some bb) :
    segments m b = bb.buffer := by
  simp only [segments, h]

theorem handleBlockDataPacket_filed {m m' : Manager} {s s' : Mp2Session} {packet : BlockDataPacket}
    (h : s.handleBlockDataPacket m packet = .ok (m', s')) :
    m' = m ∨ ∃ bb bb' i g g₁ r finish, m.recvBuffer s.blockNumber = some bb ∧
      bb.buffer[i]? = some g ∧ g.takes packet = true ∧
      (packet.redundant = fecSourceData ∧
          g.pushData packet.blockNumber packet.dataNumber packet.data = .ok (g₁, r) ∨
        packet.redundant ≠ fecSourceData ∧
          g.pushRedData packet.blockNumber packet.dataNumber packet.data = .ok (g₁, r)) ∧
      bb'.buffer = bb.buffer.set i { g₁ with fecFinish := finish } ∧
      m'.recvBuffer = Function.update m.recvBuffer s.blockNumber (some bb') := by
  obtain ⟨bb, hbb, ⟨_, hm, _⟩ | ⟨i, g, g₁, r, g₂, _, hg, htakes, hrelease, hstored⟩⟩ :=
    Mp2Session.handleBlockDataPacket_ok h
  · exact .inl hm
  · obtain ⟨finish, rfl⟩ := Mp2Session.release_segment hrelease
    right
    rcases hstored with ⟨hsrc, hpush, rfl⟩ | ⟨hsrc, hpush, rfl⟩
    · exact ⟨bb, _, i, g, g₁, r, finish, hbb, hg, htakes, .inl ⟨hsrc, hpush⟩, rfl, rfl⟩
    · exact ⟨bb, _, i, g, g₁, r, finish, hbb, hg, htakes, .inr ⟨hsrc, hpush⟩, rfl, rfl⟩

theorem Piece.pushRedData (h : Piece block b base g) {n d : ℕ} {data : Bytes} {g' : Segment}
    {r : Bool} (hpush : g.pushRedData n d data = .ok (g', r)) :
    Piece block b base g' ∧ g'.size = g.size ∧ g'.readDataOffset = g.readDataOffset := by
  unfold Segment.pushRedData at hpush
  dsimp only at hpush
  split_ifs at hpush
  all_goals
    rw [← (Prod.mk.inj (Except.ok.inj hpush)).1]
    refine ⟨h.congr rfl rfl rfl rfl rfl fun content hc => ?_, rfl, rfl⟩
    exact ⟨hc.size_eq, hc.size_pos, hc.size_lt, hc.end_eq, hc.end_lt, hc.buffer_length,
      hc.sizes_length, hc.arrived, hc.expected, hc.lastRecv, hc.completed, hc.read_le⟩

theorem Piece.finish (h : Piece block b base g) (finish : Bool) :
    Piece block b base { g with fecFinish := finish } :=
  h.congr rfl rfl rfl rfl rfl fun _ hc =>
    ⟨hc.size_eq, hc.size_pos, hc.size_lt, hc.end_eq, hc.end_lt, hc.buffer_length,
      hc.sizes_length, hc.arrived, hc.expected, hc.lastRecv, hc.completed, hc.read_le⟩

theorem takes_source {packet : BlockDataPacket} (hsrc : packet.redundant = fecSourceData)
    (h : g.takes packet = true) : packet.blockNumber = g.blockNumber ∧
      g.startDataNumber ≤ packet.dataNumber ∧ packet.dataNumber ≤ g.endDataNumber := by
  simpa only [Segment.takes, hsrc, if_true, decide_eq_true_eq] using h

structure Inv (blocks : ℕ → Bytes) (s : State) : Prop where
  follows : ∀ b, Follows (blocks b) b (s.returned b) (segments s.manager b)
  ended : ∀ b, s.ended b = true → s.returned b = blocks b
  zeros : ∀ z ∈ s.zeros, z.2 = blocks z.1

variable {blocks : ℕ → Bytes} {s s' : State}

theorem Inv.init : Inv blocks ReadEnd.init :=
  ⟨fun _ => ⟨0, trivial, Nat.zero_le _, rfl⟩, fun _ h => Bool.noConfusion h,
    fun _ h => absurd h List.not_mem_nil⟩

theorem Inv.manager (h : Inv blocks s) {m : Manager} {b : ℕ}
    (hother : ∀ c ≠ b, segments m c = segments s.manager c)
    (hb : Follows (blocks b) b (s.returned b) (segments m b)) :
    Inv blocks { s with manager := m } := by
  refine ⟨fun c => ?_, h.ended, h.zeros⟩
  by_cases hc : c = b
  · rw [hc]
    exact hb
  · show Follows (blocks c) c (s.returned c) (segments m c)
    rw [hother c hc]
    exact h.follows c

theorem segments_handleBlockInfoPacket (m : Manager) (session : Mp2Session) (packet : BlockInfoPacket)
    (sessionID c : ℕ) : segments (session.handleBlockInfoPacket m packet sessionID).1 c = segments m c := by
  unfold Mp2Session.handleBlockInfoPacket
  dsimp only
  split_ifs
  · change segments (m.setRecvBuffer packet.blockNumber
      ((m.recvBuffer packet.blockNumber).getD createBlockBuffer)) c = segments m c
    by_cases hc : c = packet.blockNumber
    · rw [hc, segments_setRecvBuffer_self]
      unfold segments
      cases hm : m.recvBuffer packet.blockNumber with
      | none => rfl
      | some bb => rfl
    · exact segments_setRecvBuffer_of_ne _ _ hc
  · rfl

theorem Inv.info (h : Inv blocks s) (session : Mp2Session) (packet : BlockInfoPacket)
    (sessionID : ℕ) :
    Inv blocks { s with manager := (session.handleBlockInfoPacket s.manager packet sessionID).1 } := by
  have hsame := segments_handleBlockInfoPacket s.manager session packet sessionID
  apply h.manager (fun c _ => hsame c)
  rw [hsame packet.blockNumber]
  exact h.follows packet.blockNumber

theorem addRecvBuffer_segments {m m' : Manager} (h : m.addRecvBuffer g = .ok m') :
    segments m' g.blockNumber = segments m g.blockNumber ++ [g] ∧
      ∀ c ≠ g.blockNumber, segments m' c = segments m c := by
  unfold Manager.addRecvBuffer at h
  split at h
  · cases h
  · rename_i bb hm
    rw [← Except.ok.inj h, segments_setRecvBuffer_self, segments_of_some hm]
    exact ⟨rfl, fun c hc => segments_setRecvBuffer_of_ne _ _ hc⟩

theorem Inv.addRecvBuffer (h : Inv blocks s) {m : Manager} {job : RequestJob}
    (hcont : Continues s job) (hnum : g.blockNumber = job.blockNumber)
    (hg : Piece (blocks job.blockNumber) job.blockNumber job.offset g)
    (hread : g.readDataOffset = 0) (hadd : s.manager.addRecvBuffer g = .ok m) :
    Inv blocks { s with manager := m } := by
  obtain ⟨hown, hother⟩ := addRecvBuffer_segments hadd
  rw [hnum] at hown hother
  apply h.manager hother
  rw [hown]
  rw [hcont.2] at hg
  exact (h.follows _).append hg hread

theorem Inv.data (h : Inv blocks s) {session session' : Mp2Session} {packet : BlockDataPacket}
    {m : Manager} (hpacket : packet.redundant = fecSourceData → ∃ sessionID d,
      packet = dataPacket packet.blockNumber sessionID d (blocks packet.blockNumber))
    (hstep : session.handleBlockDataPacket s.manager packet = .ok (m, session')) :
    Inv blocks { s with manager := m } := by
  rcases handleBlockDataPacket_filed hstep with rfl |
    ⟨bb, bb', i, g, g₁, r, finish, hbb, hg, htakes, hpush, hbuf, hm⟩
  · exact h
  have hother : ∀ c ≠ session.blockNumber, segments m c = segments s.manager c := by
    intro c hc
    simp only [segments, hm, Function.update_of_ne hc]
  have hown : segments m session.blockNumber = bb'.buffer := by
    apply segments_of_some
    rw [hm, Function.update_self]
  have hf := h.follows session.blockNumber
  rw [segments_of_some hbb] at hf
  apply h.manager hother
  rw [hown, hbuf]
  rcases hpush with ⟨hsrc, hpush⟩ | ⟨_, hpush⟩
  · obtain ⟨sessionID, d, hd⟩ := hpacket hsrc
    obtain ⟨hnum, hlo, hhi⟩ := takes_source hsrc htakes
    have hdata : packet.data = packetData (blocks packet.blockNumber) packet.dataNumber := by
      rw [hd]
      rfl
    obtain ⟨_, hq, _⟩ := hf.exists_base
    obtain ⟨_, hpiece⟩ := hq.piece_of_mem (List.mem_of_getElem? hg)
    have hb : packet.blockNumber = session.blockNumber := hnum.trans hpiece.blockNumber_eq
    rw [hdata, hb] at hpush
    have hkeep : ∀ base, Piece (blocks session.blockNumber) session.blockNumber base g →
        Piece (blocks session.blockNumber) session.blockNumber base g₁ ∧ g₁.size = g.size ∧
          g₁.readDataOffset = g.readDataOffset := by
      intro base hp
      obtain ⟨g', hg', hp', hsize, hread⟩ := hp.pushData hlo hhi
      rw [hg'] at hpush
      rw [← (Prod.mk.inj (Except.ok.inj hpush)).1]
      exact ⟨hp', hsize, hread⟩
    obtain ⟨_, hsize, hread⟩ := hkeep _ hpiece
    exact hf.set hg (fun base hp => (hkeep base hp).1.finish finish) hsize hread
  · obtain ⟨_, hq, _⟩ := hf.exists_base
    obtain ⟨_, hpiece⟩ := hq.piece_of_mem (List.mem_of_getElem? hg)
    obtain ⟨_, hsize, hread⟩ := hpiece.pushRedData hpush
    exact hf.set hg (fun base hp => (hp.pushRedData hpush).1.finish finish) hsize hread

theorem Piece.popData (h : Piece block b base g) {bufLen : ℕ} (hbuf : u32 bufLen ≠ 0)
    (hdata : g.hasDataToRead = true) :
    ∃ n, 0 < n ∧ g.readDataOffset + n ≤ g.size ∧
      g.popData bufLen = .ok (window block (base + g.readDataOffset) n,
        g.readDataOffset + n == g.size, { g with readDataOffset := g.readDataOffset + n }) ∧
      (g.readDataOffset + n ≠ g.size →
        Piece block b base { g with readDataOffset := g.readDataOffset + n }) := by
  obtain ⟨n, hn, hpop⟩ := h.holds.popData_eq bufLen
  have hlt : g.readDataOffset < g.lastRecvDataOffset := of_decide_eq_true hdata
  have hlast := h.holds.lastRecv_le
  have hle : g.readDataOffset + n ≤ g.lastRecvDataOffset := by omega
  have hmin : min n (g.size - g.readDataOffset) = n := by omega
  rw [window_window, hmin] at hpop
  refine ⟨n, by omega, by omega, hpop, fun hne => ?_⟩
  exact ⟨h.blockNumber_eq, h.dvd, h.start_eq, h.fits, h.whole, h.last_eq,
    h.holds.read_reassembles n hle, show g.readDataOffset + n < g.size by omega⟩

theorem mp2ReadBlock_ok {m m' : Manager} {bufLen : ℕ} {data : Bytes}
    (h : m.mp2ReadBlock bufLen b = .ok (m', data)) :
    (segments m b = [] ∧ m.goodbye = true ∧ m' = m ∧ data = []) ∨
    ∃ g rest done g', segments m b = g :: rest ∧ g.hasDataToRead = true ∧
      g.popData bufLen = .ok (data, done, g') ∧
      segments m' b = (if done then rest else g' :: rest) ∧
      ∀ c ≠ b, segments m' c = segments m c := by
  unfold Manager.mp2ReadBlock at h
  cases hbb : m.recvBuffer b with
  | none =>
    simp only [hbb] at h
    cases h
  | some bb =>
    simp only [hbb] at h
    rw [segments_of_some hbb]
    cases hl : bb.buffer with
    | nil =>
      simp only [hl] at h
      split_ifs at h with hbye
      have hm := Prod.mk.inj (Except.ok.inj h)
      exact .inl ⟨rfl, hbye, hm.1.symm, hm.2.symm⟩
    | cons g rest =>
      simp only [hl] at h
      split_ifs at h with hdata
      cases hpop : g.popData bufLen with
      | error e =>
        rw [hpop] at h
        cases h
      | ok popped =>
        obtain ⟨data', done, g'⟩ := popped
        simp only [hpop, Except.ok.injEq, Prod.mk.injEq] at h
        obtain ⟨rfl, rfl⟩ := h
        exact .inr ⟨g, rest, done, g', rfl, hdata, hpop, segments_setRecvBuffer_self _ _ _,
          fun c hc => segments_setRecvBuffer_of_ne _ _ hc⟩

theorem Inv.returned (h : Inv blocks s) {m : Manager} {returned : Bytes} {ended : Bool}
    (hother : ∀ c ≠ b, segments m c = segments s.manager c)
    (hb : Follows (blocks b) b returned (segments m b)) (hended : ended = true → returned = blocks b) :
    Inv blocks ⟨m, Function.update s.returned b returned, Function.update s.ended b ended,
      s.zeros⟩ := by
  refine ⟨fun c => ?_, fun c hc => ?_, h.zeros⟩
  · show Follows (blocks c) c (Function.update s.returned b returned c) (segments m c)
    by_cases hcb : c = b
    · rw [hcb, Function.update_self]
      exact hb
    · rw [Function.update_of_ne hcb, hother c hcb]
      exact h.follows c
  · replace hc : Function.update s.ended b ended c = true := hc
    show Function.update s.returned b returned c = blocks c
    by_cases hcb : c = b
    · rw [hcb, Function.update_self] at hc ⊢
      exact hended hc
    · rw [Function.update_of_ne hcb] at hc ⊢
      exact h.ended c hc

theorem Queue.headRead_rest {rest : List Segment} (h : Queue block b base (g :: rest)) :
    headRead rest = 0 := by
  cases rest with
  | nil => rfl
  | cons x _ => exact h.2.1 x (List.mem_cons_self ..)

theorem Inv.read (h : Inv blocks s) {bufLen : ℕ} {m : Manager} {data : Bytes}
    (hbuf : u32 bufLen ≠ 0)
    (hend : segments s.manager b = [] → s.manager.goodbye = true → s.ended b = true)
    (hread : s.manager.mp2ReadBlock bufLen b = .ok (m, data)) :
    Inv blocks ⟨m, Function.update s.returned b (s.returned b ++ data),
      Function.update s.ended b (s.ended b || finishes s.manager m b),
      if data = [] then s.zeros ++ [(b, s.returned b)] else s.zeros⟩ := by
  rcases mp2ReadBlock_ok hread with ⟨hseg, hbye, rfl, rfl⟩ |
    ⟨g, rest, done, g', hseg, hdata, hpop, hseg', hother⟩
  · have hended := hend hseg hbye
    have hfin : finishes s.manager s.manager b = false := by
      simp only [finishes, lt_irrefl, decide_false, Bool.false_and]
    rw [List.append_nil, Function.update_eq_self, hfin, Bool.or_false, Function.update_eq_self,
      if_pos rfl]
    refine ⟨h.follows, h.ended, fun z hz => ?_⟩
    rcases List.mem_append.mp hz with hz | hz
    · exact h.zeros z hz
    · rw [List.mem_singleton.mp hz]
      exact h.ended b hended
  · have hf := h.follows b
    rw [hseg] at hf
    obtain ⟨base, hq, hle, hret⟩ := hf.exists_base
    have hg := hq.1
    have hfits := hg.fits
    have hunread := hg.unread
    have hhead : headRead (g :: rest) = g.readDataOffset := rfl
    rw [hhead] at hle hret
    obtain ⟨n, hpos, hn, hpop', hpiece⟩ := hg.popData hbuf hdata
    simp only [hpop, Except.ok.injEq, Prod.mk.injEq] at hpop'
    obtain ⟨hdataEq, hdone, hg'⟩ := hpop'
    have hne : data ≠ [] := by
      rw [hdataEq, ← List.length_pos_iff_ne_nil, window_length]
      omega
    have hret' : s.returned b ++ data = (blocks b).take (base + (g.readDataOffset + n)) := by
      rw [hdataEq, hret, take_append_window, Nat.add_assoc]
    have hopen : s.ended b = false := by
      rw [Bool.eq_false_iff]
      intro he
      have hlen := congrArg List.length ((h.ended b he).symm.trans hret)
      rw [List.length_take] at hlen
      omega
    rw [if_neg hne, hret', hopen, Bool.false_or]
    by_cases hsize : g.readDataOffset + n = g.size
    · rw [beq_iff_eq.mpr hsize] at hdone
      rw [hdone, if_pos rfl] at hseg'
      have hzero := hq.headRead_rest
      apply h.returned hother
      · rw [hseg']
        refine ⟨base + g.size, hq.2.2, ?_, ?_⟩
        · rw [hzero]
          exact hfits
        · rw [hzero, hsize, Nat.add_zero]
      · intro hfin
        have hlast : g.last = true := by
          simp only [finishes, hseg, List.head?_cons, Option.any_some, Bool.and_eq_true] at hfin
          exact hfin.2
        rw [hg.last_eq, decide_eq_true_iff] at hlast
        rw [hsize, hlast, List.take_length]
    · rw [beq_eq_false_iff_ne.mpr hsize] at hdone
      rw [hdone, if_neg Bool.false_ne_true] at hseg'
      apply h.returned hother
      · rw [hseg', hg']
        exact ⟨base, ⟨hpiece hsize, hq.2.1, hq.2.2⟩, by show base + (g.readDataOffset + n) ≤ _; omega,
          rfl⟩
      · intro hfin
        simp only [finishes, hseg, hseg', List.length_cons, lt_irrefl, decide_false, Bool.false_and,
          Bool.false_eq_true] at hfin

/-! ### Whole histories -/

theorem Inv.step (hsize : ∀ b, (blocks b).length < 2 ^ 32) (h : Inv blocks s) {a : Label}
    (hguard : Guard blocks s a) (hstep : ReadEnd.step s a = .ok s') : Inv blocks s' := by
  obtain ⟨hhonest, hown⟩ := hguard
  cases a with
  | info session packet sessionID =>
    rw [← Except.ok.inj hstep]
    exact h.info session packet sessionID
  | request session job =>
    simp only [ReadEnd.step] at hstep
    split at hstep
    · cases hstep
    · rename_i m rest hreq
      obtain ⟨session', job', id, packet⟩ := rest
      obtain ⟨hlt, hadd, _⟩ := Mp2Session.sendBlockRequest_ok hreq
      have hpiece := (segment_piece hlt hhonest (hsize _) hown.1 id).1
      rw [← Except.ok.inj hstep]
      exact h.addRecvBuffer hown rfl hpiece rfl hadd
  | fecRequest session numPeers job =>
    simp only [ReadEnd.step] at hstep
    split at hstep
    · cases hstep
    · rename_i m rest hreq
      obtain ⟨session', job', packets⟩ := rest
      obtain ⟨hlt, ⟨id, hadd⟩, _⟩ := Mp2Session.sendFecBlockRequest_ok hreq
      have hpiece := (segment_piece hlt hhonest (hsize _) hown.1 id).2
      rw [← Except.ok.inj hstep]
      exact h.addRecvBuffer hown rfl hpiece rfl hadd
  | data session packet =>
    simp only [ReadEnd.step] at hstep
    split at hstep
    · cases hstep
    · rename_i m session' hdata
      rw [← Except.ok.inj hstep]
      exact h.data hhonest hdata
  | flush b =>
    simp only [ReadEnd.step] at hstep
    split at hstep
    · cases hstep
    · rename_i bb hbb
      split_ifs at hstep
      rw [← Except.ok.inj hstep]
      apply h.manager (fun c hc => segments_setRecvBuffer_of_ne _ _ hc)
      rw [segments_setRecvBuffer_self]
      exact (h.follows b).flush
  | read b bufLen =>
    simp only [ReadEnd.step] at hstep
    split_ifs at hstep
    split at hstep
    · cases hstep
    · rename_i m data hread
      rw [← Except.ok.inj hstep]
      exact h.read hown.1 hown.2 hread

/-- Reads return 0 only behind the end of their block. -/
theorem zero_at_end (hsize : ∀ b, (blocks b).length < 2 ^ 32) {as : List Label}
    (h : Run ReadEnd.step (Guard blocks) ReadEnd.init as s) : ∀ z ∈ s.zeros, z.2 = blocks z.1 :=
  (h.invariant (Inv blocks) Inv.init fun _ _ _ hinv hg hs => hinv.step hsize hg hs).zeros

instance (s : State) (job : RequestJob) : Decidable (Continues s job) :=
  inferInstanceAs (Decidable (_ ∧ _))

instance (s : State) (a : Label) : Decidable (OwnEnd s a) :=
  match a with
  | .request _ job => inferInstanceAs (Decidable (Continues s job))
  | .fecRequest _ _ job => inferInstanceAs (Decidable (Continues s job))
  | .read _ _ => inferInstanceAs (Decidable (_ ∧ (_ → _ → _)))
  | .info .. => .isTrue trivial
  | .data .. => .isTrue trivial
  | .flush _ => .isTrue trivial

def twoBlocks (b : ℕ) : Bytes := if b = 1 then [5] else if b = 2 then [6] else []

/-- Block 1 is announced by session 3, asked for and received. -/
def firstReceived : List Label :=
  [.info (Mp2Session.create [3]) ⟨1, .hasBlock, 1⟩ 3,
    .request ⟨[3], [(3, .hasBlock)], 1, [3], 1⟩ ⟨1, 1, 0, 0⟩,
    .data ⟨[3], [(3, .downloading)], 1, [], 1⟩ (dataPacket 1 3 0 (twoBlocks 1))]

def firstBlock : List Label := firstReceived ++ [.read 1 10]

/-- A buffer of 4 GiB, whose length is 0 as a `uint32`. -/
def largeBuffer : List Label := firstReceived ++ [.read 1 (2 ^ 32)]

/-- Then block 2 is announced and read before it is asked for. -/
def secondBlock : List Label :=
  firstBlock ++ [.info (Mp2Session.create [3]) ⟨2, .hasBlock, 1⟩ 3, .read 2 10]

theorem honest_append {as bs : List Label} (has : ∀ a ∈ as, Honest blocks a)
    (hbs : ∀ a ∈ bs, Honest blocks a) : ∀ a ∈ as ++ bs, Honest blocks a := fun a ha =>
  (List.mem_append.mp ha).elim (has a) (hbs a)

theorem honest_read (b bufLen : ℕ) : ∀ a ∈ [Label.read b bufLen], Honest blocks a := by
  intro a ha
  rw [List.mem_singleton.mp ha]
  exact trivial

theorem firstReceived_honest : ∀ a ∈ firstReceived, Honest twoBlocks a := by
  simp only [firstReceived, List.forall_mem_cons, List.not_mem_nil, false_implies, implies_true,
    and_true]
  exact ⟨trivial, rfl, fun _ => ⟨3, 0, rfl⟩⟩

theorem firstBlock_honest : ∀ a ∈ firstBlock, Honest twoBlocks a :=
  honest_append firstReceived_honest (honest_read 1 10)

theorem twoBlocks_length (b : ℕ) : (twoBlocks b).length < 2 ^ 32 := by
  unfold twoBlocks
  split_ifs <;> decide

theorem zero_at_end_first : ∃ s, Run ReadEnd.step (Guard twoBlocks) ReadEnd.init
    (firstBlock ++ [.read 1 10]) s ∧ s.zeros = [(1, [5])] ∧ ∀ z ∈ s.zeros, z.2 = twoBlocks z.1 := by
  have hhonest := honest_append firstBlock_honest (honest_read 1 10)
  have hguard : Guarded ReadEnd.step OwnEnd ReadEnd.init (firstBlock ++ [.read 1 10]) := by
    decide +kernel
  obtain ⟨s, hrun, hzeros⟩ := Run.exists_of_exec ReadEnd.step ReadEnd.init
    (firstBlock ++ [.read 1 10]) (fun s => decide (s.zeros = [(1, [5])]))
    (hguard.and_label hhonest) (by decide +kernel)
  exact ⟨s, hrun, of_decide_eq_true hzeros, zero_at_end twoBlocks_length hrun⟩

/-- The end of block 1 ends the reads of block 2 before its first byte, and a buffer of 4 GiB ends
those of block 1. -/
theorem zero_before_end :
    (∃ s, Run ReadEnd.step (fun _ => Honest twoBlocks) ReadEnd.init secondBlock s ∧
      (2, []) ∈ s.zeros ∧ twoBlocks 2 = [6]) ∧
    ∃ s, Run ReadEnd.step (fun _ => Honest twoBlocks) ReadEnd.init largeBuffer s ∧
      (1, []) ∈ s.zeros ∧ twoBlocks 1 = [5] := by
  constructor
  · have hinfo : ∀ a ∈ [Label.info (Mp2Session.create [3]) ⟨2, .hasBlock, 1⟩ 3, .read 2 10],
        Honest twoBlocks a := by
      simp only [List.forall_mem_cons, List.not_mem_nil, false_implies, implies_true, and_true]
      exact ⟨trivial, trivial⟩
    have hhonest := honest_append firstBlock_honest hinfo
    obtain ⟨s, hrun, hzeros⟩ := Run.exists_of_exec ReadEnd.step ReadEnd.init secondBlock
      (fun s => decide ((2, []) ∈ s.zeros))
      ((Guarded.always secondBlock).and_label hhonest) (by decide +kernel)
    exact ⟨s, hrun.mono fun _ _ h => h.1, of_decide_eq_true hzeros, rfl⟩
  · have hhonest := honest_append firstReceived_honest (honest_read 1 (2 ^ 32))
    obtain ⟨s, hrun, hzeros⟩ := Run.exists_of_exec ReadEnd.step ReadEnd.init largeBuffer
      (fun s => decide ((1, []) ∈ s.zeros))
      ((Guarded.always largeBuffer).and_label hhonest) (by decide +kernel)
    exact ⟨s, hrun.mono fun _ _ h => h.1, of_decide_eq_true hzeros, rfl⟩

end Mp2bs.Block.ReadEnd
