import Mp2bs.Go
import Mp2bs.Lib.SeqWindow

/-!
# The receive buffer of a multipath session (`session/recv_buffer.go`)

`reorderBuffer` is a Go map from sequence numbers to packets. The two sequence numbers
of the source that nothing reads, `readSeqNumber` and `recvSeqNumber`, are left out.
-/

namespace Mp2bs.Session
open Mp2bs.Lib
open Mp2bs.Lib.SeqWindow

abbrev dataPacketHeaderLen : ℕ := 12
abbrev dataPacketPayloadSize : ℕ := 1024

structure DataPacket where
  length : ℕ
  sessionID : ℕ
  pathID : ℕ
  seqNumber : ℕ
  payload : Bytes
  deriving Repr, DecidableEq

-- CreateDataPacket, data_packet.go:21-31
def createDataPacket (sessionID pathID seq : ℕ) (payload : Bytes) : DataPacket :=
  ⟨(dataPacketHeaderLen + payload.length) % 2 ^ 16, sessionID, pathID % 2 ^ 8, seq, payload⟩

def DataPacket.numbered (packet : DataPacket) : ℕ × Bytes := (packet.seqNumber, packet.payload)

structure RecvBuffer where
  expectedSeqNumber : ℕ
  readBuffer : Bytes
  reorderBuffer : List (ℕ × DataPacket)
  deriving Repr, DecidableEq

def createRecvBuffer : RecvBuffer := ⟨0, [], []⟩

namespace RecvBuffer

-- the packet is in order: lines 42-43 and 53-55
def append (b : RecvBuffer) (packet : DataPacket) : RecvBuffer :=
  { b with
    readBuffer := b.readBuffer ++ packet.payload
    expectedSeqNumber := u32 (b.expectedSeqNumber + 1) }

-- delete(b.reorderBuffer, seq)
def delete (b : RecvBuffer) (seq : ℕ) : RecvBuffer :=
  { b with reorderBuffer := b.reorderBuffer.filter (·.1 != seq) }

/- The loop of `PushPacket` (46-56). Each turn deletes an entry, so the
size of the map bounds their number. -/
def drain : ℕ → RecvBuffer → RecvBuffer
  | 0, b => b
  | fuel + 1, b => match b.reorderBuffer.lookup b.expectedSeqNumber with
    | none => b
    | some packet => drain fuel ((b.delete b.expectedSeqNumber).append packet)

-- PushPacket, 29-64
def pushPacket (b : RecvBuffer) (packet : DataPacket) : RecvBuffer :=
  if packet.seqNumber = b.expectedSeqNumber then
    drain b.reorderBuffer.length (b.append packet)
  else
    { b with reorderBuffer :=
        (packet.seqNumber, packet) :: b.reorderBuffer.filter (·.1 != packet.seqNumber) }

-- Read, 67-88, on a buffer of bufLen bytes: the bytes copied
def read (b : RecvBuffer) (bufLen : ℕ) : RecvBuffer × Bytes :=
  if 0 < b.readBuffer.length then
    let readLen := if b.readBuffer.length < bufLen then b.readBuffer.length else bufLen
    ({ b with readBuffer := b.readBuffer.drop readLen }, b.readBuffer.take readLen)
  else (b, [])

def waiting (b : RecvBuffer) : List (ℕ × Bytes) := b.reorderBuffer.map fun x => (x.1, x.2.payload)

structure Draining (log : List Bytes) (flight : List (ℕ × Bytes)) (out : Bytes) (e : ℕ)
    (b : RecvBuffer) : Prop where
  expected : b.expectedSeqNumber = e % 2 ^ 32
  le_log : e ≤ log.length
  readable : out ++ b.readBuffer = (log.take e).flatten
  window : (flight ++ b.waiting).Perm (numbered (2 ^ 32) log e)
  bound : log.length - e ≤ 2 ^ 32

structure Aligned (log : List Bytes) (flight : List (ℕ × Bytes)) (out : Bytes) (e : ℕ)
    (b : RecvBuffer) : Prop extends Draining log flight out e b where
  drained : b.reorderBuffer.lookup b.expectedSeqNumber = none

section
variable {log : List Bytes} {flight : List (ℕ × Bytes)} {out : Bytes} {e : ℕ} {b : RecvBuffer}

theorem read_append (b : RecvBuffer) (bufLen : ℕ) :
    (b.read bufLen).2 ++ (b.read bufLen).1.readBuffer = b.readBuffer := by
  unfold read
  split_ifs
  · exact List.take_append_drop _ _
  · exact List.take_append_drop _ _
  · rfl

theorem read_expected (b : RecvBuffer) (bufLen : ℕ) :
    (b.read bufLen).1.expectedSeqNumber = b.expectedSeqNumber ∧
      (b.read bufLen).1.reorderBuffer = b.reorderBuffer := by
  unfold read
  split_ifs <;> exact ⟨rfl, rfl⟩

theorem waiting_keys (b : RecvBuffer) : b.waiting.map (·.1) = b.reorderBuffer.map (·.1) := by
  rw [waiting, List.map_map]
  rfl

theorem Draining.keys_nodup (h : Draining log flight out e b) :
    (flight.map (·.1) ++ b.reorderBuffer.map (·.1)).Nodup := by
  have hn := SeqWindow.keys_nodup h.window h.bound
  rwa [List.map_append, waiting_keys] at hn

theorem flatten_take_succ {x : Bytes} (hx : log[e]? = some x) :
    (log.take (e + 1)).flatten = (log.take e).flatten ++ x := by
  rw [List.take_add_one, hx, List.flatten_append]
  simp

theorem Draining.append {packet : DataPacket}
    (h : Draining log ((b.expectedSeqNumber, packet.payload) :: flight) out e b) :
    Draining log flight out (e + 1) (b.append packet) := by
  have hperm := h.window
  rw [List.cons_append, h.expected] at hperm
  obtain ⟨hnext, hrest⟩ := perm_next hperm h.bound
  have hlt : e < log.length := (List.getElem?_eq_some_iff.mp hnext).1
  refine ⟨?_, hlt, ?_, hrest, ?_⟩
  · simp only [RecvBuffer.append, u32, h.expected]
    omega
  · simp only [RecvBuffer.append]
    rw [flatten_take_succ hnext, ← List.append_assoc, h.readable]
  · have := h.bound
    omega

theorem Draining.delete {packet : DataPacket} {k : ℕ} (h : Draining log flight out e b)
    (hk : b.reorderBuffer.lookup k = some packet) :
    Draining log ((k, packet.payload) :: flight) out e (b.delete k) := by
  refine ⟨h.expected, h.le_log, h.readable, ?_, h.bound⟩
  have hperm := perm_of_lookup (List.nodup_append.mp h.keys_nodup).2.1 hk
  have hwait := hperm.map fun x => (x.1, x.2.payload)
  rw [List.map_cons] at hwait
  calc ((k, packet.payload) :: flight ++ (b.delete k).waiting)
      _ = (k, packet.payload) :: (flight ++ (b.delete k).waiting) := List.cons_append
      _ |>.Perm (flight ++ (k, packet.payload) :: (b.delete k).waiting) :=
        List.perm_middle.symm
      _ |>.Perm (flight ++ b.waiting) := hwait.symm.append_left flight
      _ |>.Perm (numbered (2 ^ 32) log e) := h.window

theorem drain_aligned (fuel : ℕ) (h : Draining log flight out e b)
    (hfuel : b.reorderBuffer.length ≤ fuel) :
    ∃ e', Aligned log flight out e' (drain fuel b) := by
  induction fuel generalizing e b with
  | zero =>
    refine ⟨e, h, ?_⟩
    rw [drain, List.length_eq_zero_iff.mp (Nat.le_zero.mp hfuel)]
    rfl
  | succ fuel ih =>
    rw [drain]
    cases hk : b.reorderBuffer.lookup b.expectedSeqNumber with
    | none => exact ⟨e, h, hk⟩
    | some packet =>
      have hperm := perm_of_lookup (List.nodup_append.mp h.keys_nodup).2.1 hk
      have hlen := hperm.length_eq
      rw [List.length_cons] at hlen
      refine ih (Draining.append (b := b.delete b.expectedSeqNumber) (h.delete hk)) ?_
      simp only [RecvBuffer.append, RecvBuffer.delete]
      omega

theorem Aligned.pushPacket {packet : DataPacket}
    (h : Aligned log ((packet.seqNumber, packet.payload) :: flight) out e b) :
    ∃ e', Aligned log flight out e' (b.pushPacket packet) := by
  by_cases hseq : packet.seqNumber = b.expectedSeqNumber
  · rw [RecvBuffer.pushPacket, if_pos hseq]
    rw [hseq] at h
    exact drain_aligned _ h.toDraining.append le_rfl
  · rw [RecvBuffer.pushPacket, if_neg hseq]
    have hnew : packet.seqNumber ∉ b.reorderBuffer.map (·.1) := by
      have hnodup := h.keys_nodup
      rw [List.map_cons, List.cons_append, List.nodup_cons] at hnodup
      exact fun hmem => hnodup.1 (List.mem_append_right _ hmem)
    rw [filter_of_not_mem hnew]
    refine ⟨e, ⟨h.expected, h.le_log, h.readable, ?_, h.bound⟩, ?_⟩
    · exact List.perm_middle.trans h.window
    · have hne : (b.expectedSeqNumber == packet.seqNumber) = false :=
        beq_eq_false_iff_ne.mpr (Ne.symm hseq)
      show List.lookup _ (_ :: _) = none
      rw [List.lookup_cons, hne]
      exact h.drained

theorem Aligned.read (h : Aligned log flight out e b) (bufLen : ℕ) :
    Aligned log flight (out ++ (b.read bufLen).2) e (b.read bufLen).1 := by
  obtain ⟨hexp, hreorder⟩ := b.read_expected bufLen
  refine ⟨⟨hexp.trans h.expected, h.le_log, ?_, ?_, h.bound⟩, ?_⟩
  · rw [List.append_assoc, b.read_append, h.readable]
  · rw [waiting, hreorder]
    exact h.window
  · rw [hexp, hreorder]
    exact h.drained

theorem Aligned.send (h : Aligned log flight out e b) {seq : ℕ} (payload : Bytes)
    (hseq : seq = log.length % 2 ^ 32) (hbound : log.length + 1 - e ≤ 2 ^ 32) :
    Aligned (log ++ [payload]) ((seq, payload) :: flight) out e b := by
  refine ⟨⟨h.expected, ?_, ?_, ?_, ?_⟩, h.drained⟩
  · rw [List.length_append]
    exact h.le_log.trans (Nat.le_add_right ..)
  · rw [List.take_append_of_le_length h.le_log]
    exact h.readable
  · rw [numbered_append _ h.le_log, hseq]
    exact (h.window.cons _).trans (List.perm_append_singleton ..).symm
  · simpa using hbound

theorem Aligned.perm (h : Aligned log flight out e b) {flight' : List (ℕ × Bytes)}
    (hp : flight'.Perm flight) : Aligned log flight' out e b :=
  ⟨⟨h.expected, h.le_log, h.readable, (hp.append_right _).trans h.window, h.bound⟩, h.drained⟩

theorem Aligned.complete (h : Aligned log [] out e b) :
    out ++ b.readBuffer = log.flatten ∧ b.reorderBuffer = [] := by
  have hwin := h.window
  rw [List.nil_append] at hwin
  have hall : log.length ≤ e := by
    by_contra hlt
    have hmem := next_mem hwin (by omega)
    rw [waiting_keys, ← h.expected] at hmem
    obtain ⟨x, hx, hkey⟩ := List.mem_map.mp hmem
    have hne := List.lookup_eq_none_iff.mp h.drained x hx
    simp [hkey] at hne
  constructor
  · rw [h.readable, List.take_of_length_le hall]
  · rw [numbered_nil _ hall] at hwin
    exact List.map_eq_nil_iff.mp hwin.eq_nil

theorem Aligned.in_flight (h : Aligned log flight out e b) :
    flight.length + b.reorderBuffer.length = log.length - e := by
  have hlen := h.window.length_eq
  rw [numbered_length, List.length_append, waiting, List.length_map] at hlen
  exact hlen

theorem createRecvBuffer_aligned : Aligned [] [] [] 0 createRecvBuffer :=
  ⟨⟨rfl, le_rfl, rfl, List.Perm.nil, Nat.zero_le _⟩, rfl⟩

end

end RecvBuffer

end Mp2bs.Session
