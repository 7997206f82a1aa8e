import Mp2bs.Block.Node
import Mp2bs.Block.Sender

/-!
# A block cut into segments

Segment `i` of a block has the bytes from `SEGMENT_SIZE * i` on and the data numbers
from `2048 * i` on. `Slot` says what the receive buffer may hold for it.
-/

namespace Mp2bs.Block
open Mp2bs.Lib.Slice Mp2bs.Lib.FrontRun

abbrev packetsPerSegment : ℕ := 2048

def segmentData (block : Bytes) (i : ℕ) : Bytes := chunk segmentSize block i

def numSegments (size : ℕ) : ℕ := (size + segmentSize - 1) / segmentSize

theorem segmentData_length (block : Bytes) (i : ℕ) :
    (segmentData block i).length = min segmentSize (block.length - segmentSize * i) :=
  chunk_length _ _ _

theorem lt_numSegments_iff (size i : ℕ) : i < numSegments size ↔ segmentSize * i < size := by
  simp only [numSegments, segmentSize]
  omega

theorem le_numSegments_mul (size : ℕ) : size ≤ segmentSize * numSegments size := by
  simp only [numSegments, segmentSize]
  omega

theorem packetData_segmentData (block : Bytes) (i t : ℕ) (ht : t < packetsPerSegment) :
    packetData (segmentData block i) t = packetData block (packetsPerSegment * i + t) := by
  have hp : segmentSize * i + payloadSize * t = payloadSize * (packetsPerSegment * i + t) := by
    simp only [segmentSize, payloadSize, packetsPerSegment]
    omega
  simp only [packetData, segmentData, chunk]
  rw [window_window, hp]
  congr 1
  simp only [segmentSize, payloadSize, packetsPerSegment] at ht ⊢
  omega

theorem lt_numData_segment_iff (block : Bytes) (i t : ℕ) :
    t < numData (segmentData block i).length ↔
      t < packetsPerSegment ∧ packetsPerSegment * i + t < numData block.length := by
  rw [lt_numData_iff, lt_numData_iff, segmentData_length]
  simp only [segmentSize, payloadSize, packetsPerSegment]
  omega

/- What the receive buffer may hold for segment `i`: `handled` are the data numbers
that have been handled, and the segment's packets among them are stored. -/
structure Slot (block : Bytes) (b : ℕ) (owners handled : List ℕ) (i : ℕ) (g : Segment) : Prop where
  blockNumber : g.blockNumber = b
  start : g.startDataNumber = packetsPerSegment * i
  last : g.last = decide (i + 1 = numSegments block.length)
  holds : g.Holds (segmentData block i)
  owner : g.sessionID ∈ owners
  finish : g.fecFinish = g.complete
  unread : g.readDataOffset < g.size
  stored : ∀ t < numData g.size, packetsPerSegment * i + t ∈ handled →
    g.recvDataSize[t]? ≠ some 0

namespace Slot
variable {block : Bytes} {b i : ℕ} {owners handled : List ℕ} {g : Segment}

theorem size_eq (h : Slot block b owners handled i g) :
    g.size = (segmentData block i).length := h.holds.size_eq

theorem takes_iff (h : Slot block b owners handled i g) (sid d : ℕ)
    (hd : d < numData block.length) :
    g.takes (dataPacket b sid d block) = true ↔ d / packetsPerSegment = i := by
  have hend := h.holds.end_eq
  have hmem := lt_numData_segment_iff block i (d - packetsPerSegment * i)
  have hpos := numData_pos h.holds.size_pos
  rw [← h.size_eq] at hmem
  simp only [Segment.takes, dataPacket, if_true, decide_eq_true_eq, h.blockNumber, h.start,
    true_and, packetsPerSegment] at *
  constructor
  · rintro ⟨hlo, hhi⟩
    have := hmem.mp (by omega)
    omega
  · intro he
    have hlt : d - 2048 * i < numData g.size := hmem.mpr ⟨by omega, by omega⟩
    omega

theorem packet_lt (h : Slot block b owners handled i g) (t : ℕ) :
    t < numData g.size ↔ t < packetsPerSegment ∧
      packetsPerSegment * i + t < numData block.length := by
  rw [h.size_eq]
  exact lt_numData_segment_iff block i t

theorem handle_other (h : Slot block b owners handled i g) {d : ℕ}
    (hd : d / packetsPerSegment ≠ i) : Slot block b owners (handled ++ [d]) i g := by
  refine ⟨h.blockNumber, h.start, h.last, h.holds, h.owner, h.finish, h.unread, ?_⟩
  intro t ht hmem
  rcases List.mem_append.mp hmem with hm | hm
  · exact h.stored t ht hm
  · have hlt := ((h.packet_lt t).mp ht).1
    have he := List.mem_singleton.mp hm
    simp only [packetsPerSegment] at *
    omega

def received (block : Bytes) (i t : ℕ) (g : Segment) : Segment :=
  { g.withPacket (segmentData block i) t with
    fecFinish := (g.withPacket (segmentData block i) t).complete }

theorem received_stored (h : Slot block b owners handled i g) {t u : ℕ} (ht : t < numData g.size)
    (hu : u ≠ t → g.recvDataSize[u]? ≠ some 0) :
    (received block i t g).recvDataSize[u]? ≠ some 0 := by
  have hpos := packetData_length_pos (segmentData block i) t (by rw [← h.size_eq]; exact ht)
  show (g.recvDataSize.set t (packetData (segmentData block i) t).length)[u]? ≠ some 0
  by_cases he : u = t
  · rw [he, List.getElem?_set_self (by rw [h.holds.sizes_length]; exact ht)]
    intro h0
    have hz := Option.some.inj h0
    omega
  · rw [List.getElem?_set_ne (fun h' => he h'.symm)]
    exact hu he

theorem handle_own (h : Slot block b owners handled i g) {t : ℕ} (ht : t < numData g.size) :
    Slot block b owners (handled ++ [packetsPerSegment * i + t]) i (received block i t g) := by
  have hh := h.holds.withPacket_holds t ht
  refine ⟨h.blockNumber, h.start, h.last, ?_, h.owner, rfl, h.unread, ?_⟩
  · exact ⟨hh.size_eq, hh.size_pos, hh.size_le, hh.end_eq, hh.end_lt, hh.buffer_length,
      hh.sizes_length, hh.arrived, hh.expected, hh.lastRecv, hh.completed, hh.read_le⟩
  · intro u hu hmem
    refine h.received_stored ht fun hne => ?_
    rcases List.mem_append.mp hmem with hm | hm
    · exact h.stored u hu hm
    · have he := List.mem_singleton.mp hm
      exact absurd (by omega) hne

theorem complete_mono (h : Slot block b owners handled i g) {t : ℕ} (ht : t < numData g.size)
    (hc : g.complete = true) : (received block i t g).complete = true := by
  rw [(h.handle_own ht).holds.complete_iff]
  intro u hu
  exact h.received_stored ht fun _ => h.holds.complete_iff.mp hc u hu

theorem release_eq (h : Slot block b owners handled i g) {t : ℕ} (ht : t < numData g.size)
    (s : Mp2Session) :
    s.release (g.withPacket (segmentData block i) t) =
      if (received block i t g).complete = true ∧ g.complete = false then
        if s.sem.length < s.semCap then
          .ok ({ s with sem := s.sem ++ [g.sessionID] }, received block i t g)
        else .error .blocked
      else .ok (s, received block i t g) := by
  have hmono := h.complete_mono ht
  have hf : (g.withPacket (segmentData block i) t).fecFinish = g.complete := h.finish
  have hid : (g.withPacket (segmentData block i) t).sessionID = g.sessionID := rfl
  unfold received at hmono ⊢
  unfold Mp2Session.release
  generalize g.withPacket (segmentData block i) t = p at hf hid hmono ⊢
  obtain ⟨_, _, _, _, _, _, _, _, _, complete, _, _, _, _, _, _, _, _, _, _, _, _, finish⟩ := p
  dsimp only at hf hid hmono ⊢
  rw [hf, hid]
  cases complete with
  | true => cases g.complete <;> rfl
  | false =>
    cases hg : g.complete with
    | true => exact absurd (hmono hg) Bool.false_ne_true
    | false => rfl

theorem pushData_packet (h : Slot block b owners handled i g) {d : ℕ}
    (hd : d < numData block.length) (hi : d / packetsPerSegment = i) :
    d - packetsPerSegment * i < numData g.size ∧
      g.pushData b d (packetData block d) =
        .ok (g.withPacket (segmentData block i) (d - packetsPerSegment * i), true) := by
  have hle : packetsPerSegment * i ≤ d := by
    simp only [packetsPerSegment] at *
    omega
  have hlt : d - packetsPerSegment * i < packetsPerSegment := by
    simp only [packetsPerSegment] at *
    omega
  have ht : d - packetsPerSegment * i < numData g.size :=
    (h.packet_lt _).mpr ⟨hlt, by omega⟩
  refine ⟨ht, ?_⟩
  have hp := h.holds.pushData_eq _ ht
  rw [h.blockNumber, h.start, packetData_segmentData block i _ hlt,
    Nat.add_sub_cancel' hle] at hp
  exact hp

end Slot

/- The receive buffer holds segments `r` to `q - 1` of the block. -/
structure Slots (block : Bytes) (b : ℕ) (owners handled : List ℕ) (q r : ℕ)
    (l : List Segment) : Prop where
  length : r + l.length = q
  slot : ∀ k g, l[k]? = some g → Slot block b owners handled (r + k) g

def incomplete (l : List Segment) : ℕ := l.countP (fun g => !g.complete)

namespace Slots
variable {block : Bytes} {b q r : ℕ} {owners handled : List ℕ} {l : List Segment}

theorem findIdx_eq (h : Slots block b owners handled q r l) (sid : ℕ) {d : ℕ}
    (hd : d < numData block.length) (hq : d / packetsPerSegment < q) :
    l.findIdx? (·.takes (dataPacket b sid d block)) =
      if d / packetsPerSegment < r then none else some (d / packetsPerSegment - r) := by
  have hlen := h.length
  by_cases hr : d / packetsPerSegment < r
  · rw [if_pos hr, List.findIdx?_eq_none_iff]
    intro g hg
    obtain ⟨k, hk⟩ := List.mem_iff_getElem?.mp hg
    have ht := (h.slot k g hk).takes_iff sid d hd
    rw [Bool.eq_false_iff]
    intro hc
    have := ht.mp hc
    omega
  · rw [if_neg hr, List.findIdx?_eq_some_iff_getElem]
    refine ⟨by omega, ?_, ?_⟩
    · have hs := h.slot (d / packetsPerSegment - r) _ (List.getElem?_eq_getElem (by omega))
      rw [hs.takes_iff sid d hd]
      omega
    · intro j hj hc
      have hs := h.slot j _ (List.getElem?_eq_getElem (by omega))
      have := (hs.takes_iff sid d hd).mp hc
      omega

theorem set_own (h : Slots block b owners handled q r l) {d k : ℕ} {g : Segment}
    (hg : l[k]? = some g) (hi : d / packetsPerSegment = r + k)
    (ht : d - packetsPerSegment * (r + k) < numData g.size) :
    Slots block b owners (handled ++ [d]) q r
      (l.set k (Slot.received block (r + k) (d - packetsPerSegment * (r + k)) g)) := by
  have hle : packetsPerSegment * (r + k) ≤ d := by
    simp only [packetsPerSegment] at *
    omega
  have hk : k < l.length := (List.getElem?_eq_some_iff.mp hg).1
  refine ⟨by rw [List.length_set]; exact h.length, ?_⟩
  intro k' g' hg'
  by_cases he : k = k'
  · subst he
    rw [List.getElem?_set_self hk] at hg'
    rw [← Option.some.inj hg']
    have hown := (h.slot k g hg).handle_own ht
    rw [Nat.add_sub_cancel' hle] at hown
    exact hown
  · rw [List.getElem?_set_ne he] at hg'
    exact (h.slot k' g' hg').handle_other (by omega)

theorem handle_dropped (h : Slots block b owners handled q r l) {d : ℕ}
    (hd : d / packetsPerSegment < r) : Slots block b owners (handled ++ [d]) q r l :=
  ⟨h.length, fun k g hg => (h.slot k g hg).handle_other (by omega)⟩

end Slots

variable {l : List Segment} {k b q r d sid sessionID n : ℕ} {g : Segment} {block : Bytes}
  {owners handled : List ℕ} {m m' : Manager} {s s' : Mp2Session} {bb : BlockBuffer}

theorem map_read_set (hg : l[k]? = some g) (g' : Segment)
    (hr : g'.readDataOffset = g.readDataOffset) :
    (l.set k g').map (·.readDataOffset) = l.map (·.readDataOffset) := by
  obtain ⟨hk, rfl⟩ := List.getElem?_eq_some_iff.mp hg
  have hk' : k < (l.map (·.readDataOffset)).length := by
    rw [List.length_map]
    exact hk
  have hm := List.set_getElem_self hk'
  rw [List.getElem_map] at hm
  rw [List.map_set, hr]
  exact hm

theorem incomplete_set (hg : l[k]? = some g) (g' : Segment) :
    incomplete (l.set k g') + (if g.complete then 0 else 1) =
      incomplete l + (if g'.complete then 0 else 1) := by
  obtain ⟨hk, rfl⟩ := List.getElem?_eq_some_iff.mp hg
  have hpos : l[k].complete = false → 0 < incomplete l := by
    intro hc
    exact List.countP_pos_iff.mpr ⟨l[k], List.getElem_mem hk, by simp [hc]⟩
  rw [incomplete, List.countP_set hk]
  cases hc : l[k].complete with
  | true => cases g'.complete <;> simp [incomplete]
  | false =>
    have := hpos hc
    simp only [incomplete] at *
    cases g'.complete <;> simp <;> omega

/-! ### One call of `handleBlockDataPacket` -/

/- What handling a packet of the block does: the segments stay where they are, and tokens
in `sem` plus incomplete segments stay the same number. -/
structure Handled (block : Bytes) (b : ℕ) (owners handled : List ℕ) (q r d : ℕ)
    (bb : BlockBuffer) (s : Mp2Session) (m' : Manager) (s' : Mp2Session) (bb' : BlockBuffer) :
    Prop where
  recvBuffer : m'.recvBuffer b = some bb'
  slots : Slots block b owners (handled ++ [d]) q r bb'.buffer
  read : bb'.buffer.map (·.readDataOffset) = bb.buffer.map (·.readDataOffset)
  session : s' = { s with sem := s'.sem }
  tokens : s'.sem.length + incomplete bb'.buffer = s.sem.length + incomplete bb.buffer
  sem : ∀ x ∈ s'.sem, x ∈ s.sem ∨ x ∈ owners

theorem handled_of_store (hs : Slots block b owners handled q r bb.buffer) (hb : s.blockNumber = b)
    (hd : d < numData block.length) (hg : bb.buffer[k]? = some g)
    (hi : d / packetsPerSegment = r + k)
    (h : s.storeBlockData m bb k g (dataPacket b sid d block) = .ok (m', s')) :
    ∃ bb', Handled block b owners handled q r d bb s m' s' bb' := by
  have hslot := hs.slot k g hg
  obtain ⟨ht, hpush⟩ := hslot.pushData_packet hd hi
  simp only [Mp2Session.storeBlockData, dataPacket, if_true, hpush, hslot.release_eq ht] at h
  have hset := hs.set_own hg hi ht
  have hread := map_read_set hg
    (Slot.received block (r + k) (d - packetsPerSegment * (r + k)) g) rfl
  have hinc := incomplete_set hg
    (Slot.received block (r + k) (d - packetsPerSegment * (r + k)) g)
  by_cases hnew : (Slot.received block (r + k) (d - packetsPerSegment * (r + k)) g).complete = true ∧
      g.complete = false
  · rw [if_pos hnew] at h
    split_ifs at h
    simp only [Except.ok.injEq, Prod.mk.injEq] at h
    obtain ⟨rfl, rfl⟩ := h
    refine ⟨_, ⟨by rw [hb]; exact Manager.setRecvBuffer_recvBuffer _ _ _, hset, hread, rfl, ?_, ?_⟩⟩
    · simp only [hnew.1, hnew.2, if_true, Bool.false_eq_true, if_false, List.length_append,
        List.length_singleton] at hinc ⊢
      omega
    · intro x hx
      rcases List.mem_append.mp hx with hx | hx
      · exact Or.inl hx
      · rw [List.mem_singleton.mp hx]
        exact Or.inr hslot.owner
  · rw [if_neg hnew] at h
    simp only [Except.ok.injEq, Prod.mk.injEq] at h
    obtain ⟨rfl, rfl⟩ := h
    refine ⟨_, ⟨by rw [hb]; exact Manager.setRecvBuffer_recvBuffer _ _ _, hset, hread, rfl, ?_,
      fun x hx => Or.inl hx⟩⟩
    have hmono := hslot.complete_mono ht
    have heq : (Slot.received block (r + k) (d - packetsPerSegment * (r + k)) g).complete =
        g.complete := by
      cases hgc : g.complete with
      | true => exact hmono hgc
      | false =>
        rw [Bool.eq_false_iff]
        intro hrc
        exact hnew ⟨hrc, hgc⟩
    rw [heq] at hinc
    simp only
    omega

theorem handled_of_handle (hm : m.recvBuffer b = some bb) (hb : s.blockNumber = b)
    (hs : Slots block b owners handled q r bb.buffer) (hd : d < numData block.length)
    (hq : d / packetsPerSegment < q)
    (h : s.handleBlockDataPacket m (dataPacket b sid d block) = .ok (m', s')) :
    ∃ bb', Handled block b owners handled q r d bb s m' s' bb' := by
  have hlen := hs.length
  unfold Mp2Session.handleBlockDataPacket at h
  rw [hb, hm] at h
  simp only [hs.findIdx_eq sid hd hq] at h
  by_cases hr : d / packetsPerSegment < r
  · simp only [hr, if_true, Except.ok.injEq, Prod.mk.injEq] at h
    obtain ⟨rfl, rfl⟩ := h
    exact ⟨bb, hm, hs.handle_dropped hr, rfl, rfl, rfl, fun x hx => Or.inl hx⟩
  · simp only [hr, if_false] at h
    have hk : d / packetsPerSegment - r < bb.buffer.length := by omega
    rw [List.getElem?_eq_getElem hk] at h
    exact handled_of_store hs hb hd (List.getElem?_eq_getElem hk) (by omega) h

/-! ### One turn of the loop of `sendBlockRequest` -/

section Request
variable {block : Bytes} {q : ℕ}

theorem segmentData_length_pos (hq : q < numSegments block.length) :
    0 < (segmentData block q).length := by
  have hlt := (lt_numSegments_iff block.length q).mp hq
  rw [segmentData_length]
  simp only [segmentSize] at *
  omega

theorem numData_segmentData_le (block : Bytes) (q : ℕ) :
    numData (segmentData block q).length ≤ packetsPerSegment := by
  have hlen := segmentData_length block q
  simp only [numData, payloadSize, packetsPerSegment, segmentSize] at *
  omega

theorem endDataNumber_lt (hn : block.length < 2 ^ 32) (hq : q < numSegments block.length) :
    packetsPerSegment * q + numData (segmentData block q).length < 2 ^ 32 := by
  have hlt := (lt_numSegments_iff block.length q).mp hq
  have hle := numData_segmentData_le block q
  simp only [packetsPerSegment, segmentSize] at *
  omega

theorem request_end (hn : block.length < 2 ^ 32) (hq : q < numSegments block.length) :
    u32Sub (u32 (packetsPerSegment * q + numData (segmentData block q).length)) 1 =
      packetsPerSegment * q + numData (segmentData block q).length - 1 := by
  have hb := endDataNumber_lt hn hq
  have hnum := numData_pos (segmentData_length_pos hq)
  rw [u32_of_lt hb, u32Sub_of_le (by omega) hb]

theorem request_size (hn : block.length < 2 ^ 32) (hq : q < numSegments block.length) (b idx : ℕ) :
    RequestJob.size ⟨b, block.length, segmentSize * q, idx⟩ = (segmentData block q).length := by
  have hlt := (lt_numSegments_iff block.length q).mp hq
  have hsub : u32Sub block.length (segmentSize * q) = block.length - segmentSize * q :=
    u32Sub_of_le (by omega) hn
  simp only [RequestJob.size, hsub, segmentData_length]
  split_ifs <;> omega

theorem request_start (q : ℕ) : segmentSize * q / payloadSize = packetsPerSegment * q := by
  simp only [segmentSize, payloadSize, packetsPerSegment]
  omega

theorem request_next (hn : block.length < 2 ^ 32) (hq : q < numSegments block.length) :
    u32 (segmentSize * q + (segmentData block q).length) =
      min (segmentSize * (q + 1)) block.length := by
  have hlt := (lt_numSegments_iff block.length q).mp hq
  have hlen := segmentData_length block q
  rw [u32_of_lt (by omega), hlen]
  simp only [segmentSize] at *
  omega

theorem request_last (hq : q < numSegments block.length) :
    (min (segmentSize * (q + 1)) block.length == block.length) =
      decide (q + 1 = numSegments block.length) := by
  have h1 := lt_numSegments_iff block.length (q + 1)
  rw [Bool.eq_iff_iff, beq_iff_eq, decide_eq_true_iff]
  omega

theorem request_idx (hn : block.length < 2 ^ 32) (hq : q < numSegments block.length) :
    u32 (q + 1) = q + 1 := by
  have hlt := (lt_numSegments_iff block.length q).mp hq
  apply u32_of_lt
  simp only [segmentSize] at *
  omega

end Request

def nextSegment (block : Bytes) (b sessionID q : ℕ) : Segment :=
  createSegment b sessionID q (packetsPerSegment * q)
    (packetsPerSegment * q + numData (segmentData block q).length - 1)
    (segmentData block q).length (decide (q + 1 = numSegments block.length))

def nextRequest (block : Bytes) (b q : ℕ) : BlockRequestPacket :=
  ⟨b, packetsPerSegment * q, packetsPerSegment * q + numData (segmentData block q).length - 1, 0⟩

def requestJob (block : Bytes) (b q : ℕ) : RequestJob :=
  ⟨b, block.length, min (segmentSize * q) block.length, q⟩

theorem nextSegment_slot (hn : block.length < 2 ^ 32) (hq : q < numSegments block.length)
    (ho : sessionID ∈ owners) (hh : ∀ d ∈ handled, d < packetsPerSegment * q) :
    Slot block b owners handled q (nextSegment block b sessionID q) := by
  have hpos := segmentData_length_pos hq
  have hnum := numData_pos hpos
  have hend := endDataNumber_lt hn hq
  have hlen := segmentData_length block q
  refine ⟨rfl, rfl, rfl, ?_, ho, rfl, hpos, ?_⟩
  · exact createSegment_holds _ _ _ _ _ _ _ hpos (by omega) (by omega) (by omega)
  · intro t _ hm
    have := hh _ hm
    omega

theorem sendBlockRequest_eq {sem : List ℕ} (hn : block.length < 2 ^ 32)
    (hq : q < numSegments block.length) (hm : m.recvBuffer b = some bb)
    (hsem : s.sem = sessionID :: sem) (hid : sessionID ∈ s.sessionMap) :
    s.sendBlockRequest m (requestJob block b q) =
      .ok (m.setRecvBuffer b { bb with buffer := bb.buffer ++ [nextSegment block b sessionID q] },
        { s with sem := sem }.setOwner sessionID .downloading, requestJob block b (q + 1),
        sessionID, nextRequest block b q) := by
  have hlt := (lt_numSegments_iff block.length q).mp hq
  have hoff : min (segmentSize * q) block.length = segmentSize * q := Nat.min_eq_left hlt.le
  unfold Mp2Session.sendBlockRequest
  simp only [requestJob, hoff, hlt, if_true, hsem, request_size hn hq, request_start,
    request_end hn hq, request_next hn hq, request_last hq, request_idx hn hq]
  simp only [Manager.addRecvBuffer, createSegment, hm, Mp2Session.setOwner, hid, if_true]
  rfl

theorem Slots.push (h : Slots block b owners handled q r l) (hg : Slot block b owners handled q g) :
    Slots block b owners handled (q + 1) r (l ++ [g]) := by
  have hlen := h.length
  refine ⟨by rw [List.length_append, List.length_singleton]; omega, ?_⟩
  intro k g' hk
  rcases Nat.lt_or_ge k l.length with hlt | hge
  · rw [List.getElem?_append_left hlt] at hk
    exact h.slot k g' hk
  · rw [List.getElem?_append_right hge] at hk
    have hk0 : k - l.length = 0 := by
      have := (List.getElem?_eq_some_iff.mp hk).1
      simp only [List.length_singleton] at this
      omega
    rw [hk0, List.getElem?_cons_zero] at hk
    have he : r + k = q := by omega
    rw [he, ← Option.some.inj hk]
    exact hg

/-! ### One call of `Mp2ReadBlock` -/

def readPos (r : ℕ) (l : List Segment) : ℕ :=
  segmentSize * r + (l.map (·.readDataOffset)).headD 0

def FrontOnly (l : List Segment) : Prop := ∀ x ∈ (l.map (·.readDataOffset)).tail, x = 0

theorem take_readPos_cons (block : Bytes) {p : ℕ} (hp : p + n ≤ (segmentData block r).length) :
    block.take (segmentSize * r + p) ++ window (segmentData block r) p n =
      block.take (segmentSize * r + (p + n)) := by
  have hlen := segmentData_length block r
  rw [segmentData, chunk, window_window, take_append_window]
  congr 1
  omega

theorem readPos_of_frontOnly (r : ℕ) (h : ∀ x ∈ l.map (·.readDataOffset), x = 0) :
    readPos r l = segmentSize * r := by
  cases l with
  | nil => rfl
  | cons g rest =>
    have hz := h g.readDataOffset (by simp)
    simp [readPos, hz]

structure ReadResult (block : Bytes) (b : ℕ) (owners handled : List ℕ) (q r : ℕ)
    (l : List Segment) (data : Bytes) (r' : ℕ) (l' : List Segment) : Prop where
  slots : Slots block b owners handled q r' l'
  front : FrontOnly l'
  data : block.take (readPos r l) ++ data = block.take (readPos r' l')
  incomplete : incomplete l' = incomplete l

theorem Slots.read {rest : List Segment} (h : Slots block b owners handled q r (g :: rest))
    (hf : FrontOnly (g :: rest)) (hn : g.readDataOffset + n ≤ g.lastRecvDataOffset) :
    if g.readDataOffset + n = g.size then
      ReadResult block b owners handled q r (g :: rest)
        (window (segmentData block r) g.readDataOffset n) (r + 1) rest
    else
      ReadResult block b owners handled q r (g :: rest)
        (window (segmentData block r) g.readDataOffset n) r
        ({ g with readDataOffset := g.readDataOffset + n } :: rest) := by
  have hslot : Slot block b owners handled r g := h.slot 0 g rfl
  have hsize := hslot.size_eq
  have hlast := hslot.holds.lastRecv_le
  have hlen := segmentData_length block r
  have hfit : g.readDataOffset + n ≤ (segmentData block r).length := by omega
  have htail := take_readPos_cons block hfit
  have hpos : readPos r (g :: rest) = segmentSize * r + g.readDataOffset := rfl
  split_ifs with he
  · refine ⟨⟨?_, ?_⟩, ?_, ?_, ?_⟩
    · have := h.length
      simp only [List.length_cons] at this
      omega
    · intro k g' hk
      have := h.slot (k + 1) g' hk
      rwa [Nat.add_comm k 1, ← Nat.add_assoc] at this
    · intro x hx
      exact hf x (List.mem_of_mem_tail hx)
    · rw [hpos, htail, readPos_of_frontOnly (r + 1) hf, he, hsize, hlen]
      -- the last segment may be short: both sides are then the whole block
      rcases Nat.le_total (segmentSize * (r + 1)) block.length with hle | hle
      · congr 1
        simp only [segmentSize] at *
        omega
      · rw [List.take_of_length_le hle, List.take_of_length_le]
        simp only [segmentSize] at *
        omega
    · have hc : g.complete = true := hslot.holds.complete_of_lastRecv (by omega)
      simp [incomplete, hc]
  · refine ⟨⟨h.length, ?_⟩, hf, ?_, rfl⟩
    · intro k g' hk
      cases k with
      | zero =>
        rw [List.getElem?_cons_zero] at hk
        rw [← Option.some.inj hk]
        exact ⟨hslot.blockNumber, hslot.start, hslot.last, hslot.holds.read_holds n hn,
          hslot.owner, hslot.finish, show g.readDataOffset + n < g.size by omega, hslot.stored⟩
      | succ k => exact h.slot (k + 1) g' hk
    · rw [hpos, htail]
      rfl

theorem mp2ReadBlock_cases {bufLen : ℕ} {data : Bytes} (hm : m.recvBuffer b = some bb)
    (hs : Slots block b owners handled q r bb.buffer) (hf : FrontOnly bb.buffer)
    (h : m.mp2ReadBlock bufLen b = .ok (m', data)) :
    (bb.buffer = [] ∧ m' = m ∧ data = []) ∨
      ∃ g rest bb', bb.buffer = g :: rest ∧ m'.recvBuffer b = some bb' ∧
        ((bb'.buffer = rest ∧
            ReadResult block b owners handled q r bb.buffer data (r + 1) bb'.buffer) ∨
          (bb'.buffer.length = bb.buffer.length ∧
            ReadResult block b owners handled q r bb.buffer data r bb'.buffer)) := by
  unfold Manager.mp2ReadBlock at h
  simp only [hm] at h
  cases hbuf : bb.buffer with
  | nil =>
    left
    simp only [hbuf] at h
    split_ifs at h
    simp only [Except.ok.injEq, Prod.mk.injEq] at h
    exact ⟨rfl, h.1.symm, h.2.symm⟩
  | cons g rest =>
    right
    rw [hbuf] at hs hf
    simp only [hbuf] at h
    split_ifs at h with hdata
    have hslot : Slot block b owners handled r g := hs.slot 0 g rfl
    obtain ⟨n, hn, hpop⟩ := hslot.holds.popData_eq bufLen
    have hle := hslot.holds.read_le
    have hread := hs.read hf (n := n) (by omega)
    simp only [hpop, Except.ok.injEq, Prod.mk.injEq] at h
    by_cases he : g.readDataOffset + n = g.size
    · rw [if_pos he] at hread
      have hb : (g.readDataOffset + n == g.size) = true := beq_iff_eq.mpr he
      rw [hb] at h
      obtain ⟨rfl, rfl⟩ := h
      exact ⟨g, rest, _, rfl, Manager.setRecvBuffer_recvBuffer _ _ _, Or.inl ⟨rfl, hread⟩⟩
    · rw [if_neg he] at hread
      have hb : (g.readDataOffset + n == g.size) = false := beq_eq_false_iff_ne.mpr he
      rw [hb] at h
      obtain ⟨rfl, rfl⟩ := h
      exact ⟨g, rest, _, rfl, Manager.setRecvBuffer_recvBuffer _ _ _, Or.inr ⟨rfl, hread⟩⟩

end Mp2bs.Block
