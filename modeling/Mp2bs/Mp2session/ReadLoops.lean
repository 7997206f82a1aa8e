import Mp2bs.Session.Framing
import Mp2bs.Session.RecvBuffer
import Mp2bs.Mp2session.Codec

/-!
# The read loops on any input

`Session.receiver` (`session/session.go:180-268`) reads the stream of a path,
`Mp2Session.sessionHandler` (`mp2session/mp2session.go:105-152`) the receive buffer of a session through
`ReadWithSize` (`session/session.go:437-460`). Both find a length in a header of three bytes and slice a
buffer of `PACKET_SIZE` bytes up to it. Here `.error .panic` is a slice out of range; the `panic`
statements of the functions and of their handlers end the loop.
-/

namespace Mp2bs.Mp2session.ReadLoops
open Mp2bs.Lib.Machine
open Mp2bs.Session.Framing (Conf Receiver mp2bsToml)

/-- `buf[i:packetLength]` for a `buf` of `packetSize` bytes. -/
def SliceInRange (packetSize : UInt16) (i : ℕ) (packetLength : UInt16) : Prop :=
  i ≤ packetLength.toNat ∧ packetLength.toNat ≤ packetSize.toNat

instance (packetSize : UInt16) (i : ℕ) (packetLength : UInt16) : Decidable (SliceInRange packetSize i packetLength) :=
  inferInstanceAs (Decidable (_ ∧ _))

/-- `buf[:3]` after a read that returned `read`: what was not read is zero. -/
def headerBytes (read : Bytes) : Bytes := read ++ List.replicate (3 - read.length) 0

/- The packet type and length (`session.go:204-206`, `mp2session.go:121-123`). -/
def header (read : Bytes) : UInt8 × UInt16 :=
  match readHeader (headerBytes read) with
  | some (h, _) => h
  | none => (0, 0)

theorem headerBytes_length {read : Bytes} (h : read.length ≤ 3) : (headerBytes read).length = 3 := by
  rw [headerBytes, List.length_append, List.length_replicate]
  omega

/-! ### The receiver of a path -/

/- What a call of `stream.Read` returns: a number of bytes, and no error, `io.EOF` or another error. -/
inductive ReadResult
  | data (n : ℕ)
  | eof (n : ℕ)
  | failed (n : ℕ)
  deriving Repr, DecidableEq

namespace ReadResult

def count : ReadResult → ℕ
  | .data n => n
  | .eof n => n
  | .failed n => n

/-- The contract of `receiveStream.Read` for a slice of `room` bytes (`receive_stream.go:92-193`): it waits for a first
byte, and the end comes with or after the last one. -/
def Possible (room : ℕ) (stream : Bytes) : ReadResult → Prop
  | .data n => 0 < n ∧ n ≤ room ∧ n ≤ stream.length
  | .eof n => n ≤ room ∧ n = stream.length
  | .failed n => n ≤ room ∧ n ≤ stream.length

instance (room : ℕ) (stream : Bytes) : (r : ReadResult) → Decidable (r.Possible room stream)
  | .data _ => inferInstanceAs (Decidable (_ ∧ _))
  | .eof _ => inferInstanceAs (Decidable (_ ∧ _))
  | .failed _ => inferInstanceAs (Decidable (_ ∧ _))

end ReadResult

/- `buf[:i]` and the packet length within the loop of `session.go:210-221`. -/
inductive PathPc
  | header
  | body (buf : Bytes) (packetLength : UInt16)
  | ended
  deriving Repr, DecidableEq

/- `stream` is what the peer puts on the path and has not been read. -/
structure PathReader where
  stream : Bytes
  pc : PathPc
  decoded : List Session.Framing.Packet
  deriving Repr, DecidableEq

namespace PathReader

def init (input : Bytes) : PathReader := ⟨input, .header, []⟩

/- The packet handling of `session.go:234-266`, with zeros behind what was read. -/
def handle (conf : Conf) (s : PathReader) (buf : Bytes) : PathReader :=
  match Receiver.dispatch conf ⟨s.stream, none, s.decoded⟩ buf with
  | .error _ => { s with pc := .ended }
  | .ok r => { s with pc := .header, decoded := r.decoded }

/- The head of the loop over the rest of the packet (`session.go:210-211`). -/
def rest (conf : Conf) (s : PathReader) (buf : Bytes) (packetLength : UInt16) : Except Stop PathReader :=
  if buf.length = packetLength.toNat then .ok (s.handle conf buf)
  else if SliceInRange conf.packetSize buf.length packetLength then .ok { s with pc := .body buf packetLength }
  else .error .panic

/-- A call of `Read` with what follows up to the next one. -/
def step (conf : Conf) (s : PathReader) (r : ReadResult) : Except Stop PathReader :=
  let read := s.stream.take r.count
  let s' := { s with stream := s.stream.drop r.count }
  match s.pc with
  | .ended => .error .blocked
  | .header =>
    if r.Possible 3 s.stream then match r with
      | .data _ => s'.rest conf (headerBytes read) (header read).2
      | .eof _ => .ok { s' with pc := .ended }
      | .failed _ => .ok { s' with pc := .ended }
    else .error .blocked
  | .body buf packetLength =>
    if r.Possible (packetLength.toNat - buf.length) s.stream then match r with
      | .data _ => s'.rest conf (buf ++ read) packetLength
      -- the break leaves the inner loop only, and the packet is handled as it is
      | .eof _ => .ok (s'.handle conf (buf ++ read))
      | .failed _ => .ok { s' with pc := .ended }
    else .error .blocked

def InBounds (conf : Conf) (s : PathReader) : Prop :=
  ∀ buf packetLength, s.pc = .body buf packetLength →
    0 < (packetLength.toNat : ℤ) - buf.length ∧ packetLength.toNat ≤ conf.packetSize.toNat

def Advances (s s' : PathReader) : Prop :=
  s'.stream.length < s.stream.length ∨ s'.pc = .ended ∨ (s.pc ≠ .header ∧ s'.pc = .header)

def Safe (conf : Conf) (s : PathReader) (r : ReadResult) : Prop :=
  s.step conf r ≠ .error .panic ∧ ∀ s', s.step conf r = .ok s' → s'.InBounds conf ∧ s.Advances s'

/-- A header that a call can return carries a length from the header on that fits into the buffer. -/
def InRange (conf : Conf) (s : PathReader) (r : ReadResult) : Prop :=
  ∀ n, s.pc = .header → r = .data n → r.Possible 3 s.stream →
    3 ≤ (header (s.stream.take n)).2.toNat ∧ (header (s.stream.take n)).2.toNat ≤ conf.packetSize.toNat

variable {conf : Conf} {s s' : PathReader} {r : ReadResult} {buf : Bytes} {packetLength : UInt16}

theorem handle_pc (conf : Conf) (s : PathReader) (buf : Bytes) :
    (s.handle conf buf).pc = .header ∨ (s.handle conf buf).pc = .ended := by
  unfold handle
  cases Receiver.dispatch conf ⟨s.stream, none, s.decoded⟩ buf with
  | error e => exact .inr rfl
  | ok r => exact .inl rfl

theorem handle_stream (conf : Conf) (s : PathReader) (buf : Bytes) : (s.handle conf buf).stream = s.stream := by
  unfold handle
  cases Receiver.dispatch conf ⟨s.stream, none, s.decoded⟩ buf with
  | error e => rfl
  | ok r => rfl

theorem inBounds_of_pc (h : ∀ buf packetLength, s.pc ≠ .body buf packetLength) : s.InBounds conf :=
  fun buf packetLength hpc => absurd hpc (h buf packetLength)

theorem inBounds_handle (conf : Conf) (s : PathReader) (buf : Bytes) : (s.handle conf buf).InBounds conf := by
  apply inBounds_of_pc
  intro b l hpc
  rcases handle_pc conf s buf with h | h
  · rw [h] at hpc
    cases hpc
  · rw [h] at hpc
    cases hpc

theorem rest_panics_iff (hbuf : buf.length ≤ conf.packetSize.toNat) :
    s.rest conf buf packetLength = .error .panic ↔ ¬SliceInRange conf.packetSize buf.length packetLength := by
  unfold rest
  by_cases heq : buf.length = packetLength.toNat
  · rw [if_pos heq]
    have hin : SliceInRange conf.packetSize buf.length packetLength := ⟨heq.le, heq ▸ hbuf⟩
    exact iff_of_false (fun h => (nomatch h)) fun h => h hin
  · rw [if_neg heq]
    by_cases hin : SliceInRange conf.packetSize buf.length packetLength
    · rw [if_pos hin]
      exact iff_of_false (fun h => (nomatch h)) fun h => h hin
    · rw [if_neg hin]
      exact iff_of_true rfl hin

theorem rest_ok (h : s.rest conf buf packetLength = .ok s') : s'.InBounds conf ∧ s'.stream = s.stream := by
  unfold rest at h
  by_cases heq : buf.length = packetLength.toNat
  · rw [if_pos heq] at h
    cases h
    exact ⟨inBounds_handle conf s buf, handle_stream conf s buf⟩
  · rw [if_neg heq] at h
    by_cases hin : SliceInRange conf.packetSize buf.length packetLength
    · rw [if_pos hin] at h
      cases h
      refine ⟨?_, rfl⟩
      rintro _ _ ⟨⟩
      have hle := hin.1
      exact ⟨by omega, hin.2⟩
    · rw [if_neg hin] at h
      cases h

theorem drop_lt {n room : ℕ} (h : ReadResult.Possible room s.stream (.data n)) :
    (s.stream.drop n).length < s.stream.length := by
  obtain ⟨hpos, -, hle⟩ := h
  rw [List.length_drop]
  omega

theorem step_ok (h : s.step conf r = .ok s') : s'.InBounds conf ∧ s.Advances s' := by
  unfold step at h
  simp only at h
  cases hpc : s.pc with
  | ended =>
    rw [hpc] at h
    cases h
  | header =>
    simp only [hpc] at h
    split at h
    next hpossible =>
      cases r with
      | data n =>
        obtain ⟨hin, hstream⟩ := rest_ok h
        refine ⟨hin, .inl ?_⟩
        rw [hstream]
        exact drop_lt hpossible
      | eof n | failed n =>
        cases h
        exact ⟨inBounds_of_pc (fun _ _ h => (nomatch h)), .inr (.inl rfl)⟩
    next => cases h
  | body buf packetLength =>
    simp only [hpc] at h
    split at h
    next hpossible =>
      cases r with
      | data n =>
        obtain ⟨hin, hstream⟩ := rest_ok h
        refine ⟨hin, .inl ?_⟩
        rw [hstream]
        exact drop_lt hpossible
      | eof n =>
        cases h
        refine ⟨inBounds_handle conf _ _, .inr ?_⟩
        rcases handle_pc conf { s with stream := s.stream.drop n } (buf ++ s.stream.take n) with h | h
        · exact .inr ⟨by rw [hpc]; exact fun h => (nomatch h), h⟩
        · exact .inl h
      | failed n =>
        cases h
        exact ⟨inBounds_of_pc (fun _ _ h => (nomatch h)), .inr (.inl rfl)⟩
    next => cases h

theorem step_body_ne_panic (h : s.InBounds conf) (hpc : s.pc = .body buf packetLength) :
    s.step conf r ≠ .error .panic := by
  obtain ⟨hpos, hfits⟩ := h _ _ hpc
  unfold step
  simp only [hpc]
  split
  next hpossible =>
    cases r with
    | data n =>
      obtain ⟨-, hroom, hle⟩ := hpossible
      have hlen : (buf ++ s.stream.take n).length = buf.length + n := by
        rw [List.length_append, List.length_take]
        omega
      have hin : SliceInRange conf.packetSize (buf ++ s.stream.take n).length packetLength := by
        refine ⟨?_, hfits⟩
        rw [hlen]
        omega
      exact fun hpanic => (rest_panics_iff (hin.1.trans hin.2)).1 hpanic hin
    | eof n | failed n => exact fun h => (nomatch h)
  next => exact fun h => (nomatch h)

theorem step_header_panics_iff (hpc : s.pc = .header) : s.step conf r ≠ .error .panic ↔ s.InRange conf r := by
  unfold step InRange
  simp only [hpc]
  by_cases hpossible : r.Possible 3 s.stream
  · rw [if_pos hpossible]
    cases r with
    | data n =>
      have hlen : (headerBytes (s.stream.take n)).length = 3 := by
        apply headerBytes_length
        rw [List.length_take]
        exact (Nat.min_le_left _ _).trans hpossible.2.1
      have hthree : 3 ≤ conf.packetSize.toNat := le_trans (by decide) conf.fits
      have hpanics : rest conf { s with stream := s.stream.drop n } (headerBytes (s.stream.take n))
          (header (s.stream.take n)).2 = .error .panic ↔
            ¬SliceInRange conf.packetSize (headerBytes (s.stream.take n)).length (header (s.stream.take n)).2 :=
        rest_panics_iff (hlen.trans_le hthree)
      rw [hlen] at hpanics
      refine (not_congr hpanics).trans (not_not.trans ⟨?_, ?_⟩)
      · rintro hin _ - ⟨⟩ -
        exact hin
      · intro h
        exact h n trivial rfl hpossible
    | eof n | failed n => exact iff_of_true (fun h => (nomatch h)) fun _ _ h => (nomatch h)
  · rw [if_neg hpossible]
    exact iff_of_true (fun h => (nomatch h)) fun _ _ _ h => absurd h hpossible

theorem safe_iff (h : s.InBounds conf) : s.Safe conf r ↔ s.InRange conf r := by
  have hpanic : s.step conf r ≠ .error .panic ↔ s.InRange conf r := by
    cases hpc : s.pc with
    | header => exact step_header_panics_iff hpc
    | body buf packetLength =>
      exact iff_of_true (step_body_ne_panic h hpc) fun _ hheader => by rw [hpc] at hheader; cases hheader
    | ended =>
      refine iff_of_true ?_ fun _ hheader => by rw [hpc] at hheader; cases hheader
      unfold step
      simp only [hpc]
      exact fun h => (nomatch h)
  unfold Safe
  rw [hpanic]
  exact and_iff_left fun _ hstep => step_ok hstep

theorem inBounds_of_run {input : Bytes} {rs : List ReadResult}
    (hrun : Run (step conf) always (init input) rs s) : s.InBounds conf := by
  have h0 : (init input).InBounds conf := inBounds_of_pc (fun _ _ h => (nomatch h))
  exact hrun.invariant _ h0 fun _ _ _ _ _ hstep => (step_ok hstep).1

/- Each call takes one unit off: two for each byte left, one for the header read that finds the end and one for the loop
over the rest of a packet. -/
def budget (s : PathReader) : ℕ :=
  2 * s.stream.length + match s.pc with
    | .header => 1
    | .body _ _ => 2
    | .ended => 0

theorem step_ended (h : s.pc = .ended) : s.step conf r = .error .blocked := by
  unfold step
  simp only [h]

theorem step_stream_le (h : s.step conf r = .ok s') : s'.stream.length ≤ s.stream.length := by
  have hdrop : (s.stream.drop r.count).length ≤ s.stream.length := by
    rw [List.length_drop]
    exact Nat.sub_le _ _
  unfold step at h
  simp only at h
  cases hpc : s.pc with
  | ended =>
    simp only [hpc] at h
    cases h
  | header =>
    simp only [hpc] at h
    split at h
    next =>
      cases r with
      | data n => exact (rest_ok h).2 ▸ hdrop
      | eof n | failed n =>
        cases h
        exact hdrop
    next => cases h
  | body buf packetLength =>
    simp only [hpc] at h
    split at h
    next =>
      cases r with
      | data n => exact (rest_ok h).2 ▸ hdrop
      | eof n =>
        cases h
        rw [handle_stream]
        exact hdrop
      | failed n =>
        cases h
        exact hdrop
    next => cases h

theorem budget_step (h : s.step conf r = .ok s') : s'.budget < s.budget := by
  have hle := step_stream_le h
  have hnot : s.pc ≠ .ended := fun hended => by
    rw [step_ended hended] at h
    cases h
  unfold budget
  rcases (step_ok h).2 with hlt | hended | ⟨hbody, hheader⟩
  · cases hpc : s.pc with
    | ended => exact absurd hpc hnot
    | header | body buf packetLength => cases s'.pc <;> simp only <;> omega
  · cases hpc : s.pc with
    | ended => exact absurd hpc hnot
    | header =>
      rw [hended]
      exact Nat.add_lt_add_of_le_of_lt (Nat.mul_le_mul_left 2 hle) (by decide)
    | body buf packetLength =>
      rw [hended]
      exact Nat.add_lt_add_of_le_of_lt (Nat.mul_le_mul_left 2 hle) (show 0 < 2 by decide)
  · cases hpc : s.pc with
    | ended => exact absurd hpc hnot
    | header => exact absurd hpc hbody
    | body buf packetLength =>
      rw [hheader]
      exact Nat.add_lt_add_of_le_of_lt (Nat.mul_le_mul_left 2 hle) (show 1 < 2 by decide)

/-- Whatever the peer sends, the receiver makes at most two calls of `Read` for each byte and one more. -/
theorem reads_le {input : Bytes} {rs : List ReadResult} (hrun : Run (step conf) always (init input) rs s) :
    rs.length ≤ 2 * input.length + 1 := by
  have hbudget : rs.length + s.budget ≤ 2 * input.length + 1 := by
    induction hrun with
    | nil => exact (Nat.zero_add _).le
    | snoc hrun hok hstep ih =>
      have hlt := budget_step hstep
      rw [List.length_append, List.length_singleton]
      omega
  exact le_of_add_le_left hbudget

end PathReader

/-! ### The handler of a session -/

/- `buf[:3]` and its fields between the two reads of `mp2session.go:111-151`. -/
inductive HandlerPc
  | header
  | body (buf : Bytes) (packetType : UInt8) (packetLength : UInt16)
  | ended
  deriving Repr, DecidableEq

structure HandlerLoop where
  recvBuffer : Session.RecvBuffer
  goodbye : Bool
  pc : HandlerPc
  parsed : List Packet
  deriving Repr, DecidableEq

/- The receivers push a data packet or handle a goodbye packet, or the handler's wait ends and it reads. `handled` tells
whether the handler of the packet returns. -/
inductive HandlerEvent
  | push (packet : Session.DataPacket)
  | goodbye
  | read (handled : Bool)
  deriving Repr, DecidableEq

namespace HandlerLoop

def init : HandlerLoop := ⟨Session.createRecvBuffer, false, .header, []⟩

-- ReadWithSize, session.go:437-460, on a buffer of bufLen bytes
def readWithSize (s : HandlerLoop) (bufLen size : ℕ) : Option (Session.RecvBuffer × Bytes) :=
  if size ≤ s.recvBuffer.readBuffer.length ∨ s.goodbye = true then some (s.recvBuffer.read bufLen) else none

def step (packetSize : UInt16) (s : HandlerLoop) (a : HandlerEvent) : Except Stop HandlerLoop :=
  match a with
  | .push packet => .ok { s with recvBuffer := s.recvBuffer.pushPacket packet }
  | .goodbye => .ok { s with goodbye := true }
  | .read handled => match s.pc with
    | .ended => .error .blocked
    | .header => match s.readWithSize 3 3 with
      | none => .error .blocked
      | some (b, read) =>
        let (packetType, packetLength) := header read
        if packetType = 0 ∧ packetLength = 0 then .ok { s with recvBuffer := b, pc := .ended }
        else if SliceInRange packetSize 3 packetLength then
          .ok { s with recvBuffer := b, pc := .body (headerBytes read) packetType packetLength }
        else .error .panic
    | .body buf packetType packetLength =>
      match s.readWithSize (packetLength.toNat - 3) (packetLength - 3).toNat with
      | none => .error .blocked
      | some (b, read) =>
        let packet := buf ++ read
        match parsePacket packetType (packet ++ List.replicate (packetSize.toNat - packet.length) 0) with
        | none => .ok { s with recvBuffer := b, pc := .ended }
        | some p =>
          if handled then .ok { s with recvBuffer := b, pc := .header, parsed := s.parsed ++ [p] }
          else .ok { s with recvBuffer := b, pc := .ended, parsed := s.parsed ++ [p] }

/-- The remaining length `packetLength - 3` has not wrapped, and `buf` holds it. -/
def InBounds (packetSize : UInt16) (s : HandlerLoop) : Prop :=
  ∀ buf packetType packetLength, s.pc = .body buf packetType packetLength →
    (packetLength - 3).toNat + 3 = packetLength.toNat ∧ packetLength.toNat ≤ packetSize.toNat

/-- The read of a header consumes input or ends the loop, and after the other read the turn is over. -/
def Advances (s s' : HandlerLoop) : Prop :=
  s'.recvBuffer.readBuffer.length < s.recvBuffer.readBuffer.length ∨ s'.pc = .ended ∨
    (s.pc ≠ .header ∧ s'.pc = .header)

def Safe (packetSize : UInt16) (s : HandlerLoop) (a : HandlerEvent) : Prop :=
  s.step packetSize a ≠ .error .panic ∧ ∀ s', s.step packetSize a = .ok s' →
    s'.InBounds packetSize ∧ ∀ handled, a = .read handled → s.Advances s'

/-- A header that the handler can read closes the session, or it carries a length from the header on that fits into the
buffer. -/
def InRange (packetSize : UInt16) (s : HandlerLoop) (a : HandlerEvent) : Prop :=
  ∀ handled b read, s.pc = .header → a = .read handled → s.readWithSize 3 3 = some (b, read) →
    header read = (0, 0) ∨ (3 ≤ (header read).2.toNat ∧ (header read).2.toNat ≤ packetSize.toNat)

variable {packetSize : UInt16} {s s' : HandlerLoop} {a : HandlerEvent}

theorem inBounds_of_pc (h : ∀ buf packetType packetLength, s.pc ≠ .body buf packetType packetLength) :
    s.InBounds packetSize :=
  fun buf packetType packetLength hpc => absurd hpc (h buf packetType packetLength)

theorem sub_three {packetLength : UInt16} (h : 3 ≤ packetLength.toNat) :
    (packetLength - 3).toNat + 3 = packetLength.toNat := by
  have hle : (3 : UInt16) ≤ packetLength := UInt16.le_iff_toNat_le.2 h
  rw [UInt16.toNat_sub_of_le _ _ hle]
  exact Nat.sub_add_cancel h

theorem readWithSize_length {bufLen size : ℕ} {b : Session.RecvBuffer} {read : Bytes}
    (h : s.readWithSize bufLen size = some (b, read)) :
    read.length + b.readBuffer.length = s.recvBuffer.readBuffer.length := by
  unfold readWithSize at h
  split at h
  next =>
    have hread := Option.some.inj h
    have happend := Session.RecvBuffer.read_append s.recvBuffer bufLen
    rw [hread] at happend
    rw [← happend, List.length_append]
  next => cases h

theorem header_ok {handled : Bool} (hpc : s.pc = .header) (h : s.step packetSize (.read handled) = .ok s') :
    s'.InBounds packetSize ∧ s.Advances s' := by
  simp only [step, hpc] at h
  cases hread : s.readWithSize 3 3 with
  | none =>
    rw [hread] at h
    cases h
  | some x =>
    obtain ⟨b, read⟩ := x
    simp only [hread] at h
    split_ifs at h with hclose hin
    · cases h
      exact ⟨inBounds_of_pc (fun _ _ _ h => (nomatch h)), .inr (.inl rfl)⟩
    · cases h
      refine ⟨?_, .inl ?_⟩
      · rintro _ _ _ ⟨⟩
        exact ⟨sub_three hin.1, hin.2⟩
      · -- a header of zeros would have closed the session
        have hne : read ≠ [] := by
          rintro rfl
          exact hclose ⟨rfl, rfl⟩
        have hlen := readWithSize_length hread
        have hpos := List.length_pos_of_ne_nil hne
        change b.readBuffer.length < _
        omega

theorem body_ok {handled : Bool} {buf : Bytes} {packetType : UInt8} {packetLength : UInt16}
    (hpc : s.pc = .body buf packetType packetLength) (h : s.step packetSize (.read handled) = .ok s') :
    s'.pc = .header ∨ s'.pc = .ended := by
  simp only [step, hpc] at h
  split at h
  next => cases h
  next =>
    split at h
    next =>
      cases h
      exact .inr rfl
    next =>
      split_ifs at h
      · cases h
        exact .inl rfl
      · cases h
        exact .inr rfl

theorem step_ok (hin : s.InBounds packetSize) (h : s.step packetSize a = .ok s') :
    s'.InBounds packetSize ∧ ∀ handled, a = .read handled → s.Advances s' := by
  cases a with
  | push packet | goodbye =>
    cases h
    exact ⟨hin, fun _ h => (nomatch h)⟩
  | read handled =>
    cases hpc : s.pc with
    | ended =>
      simp only [step, hpc] at h
      cases h
    | header =>
      obtain ⟨hin', hadvances⟩ := header_ok hpc h
      exact ⟨hin', fun _ _ => hadvances⟩
    | body buf packetType packetLength =>
      have hover := body_ok hpc h
      refine ⟨inBounds_of_pc ?_, fun _ _ => .inr ?_⟩
      · intro _ _ _ hbody
        rcases hover with h | h
        · rw [h] at hbody
          cases hbody
        · rw [h] at hbody
          cases hbody
      · rcases hover with h | h
        · exact .inr ⟨by rw [hpc]; exact fun h => (nomatch h), h⟩
        · exact .inl h

theorem step_panics_iff : s.step packetSize a ≠ .error .panic ↔ s.InRange packetSize a := by
  cases a with
  | push packet | goodbye => exact iff_of_true (fun h => (nomatch h)) fun _ _ _ _ h => (nomatch h)
  | read handled =>
    cases hpc : s.pc with
    | ended =>
      refine iff_of_true ?_ fun _ _ _ hheader => by rw [hpc] at hheader; cases hheader
      simp only [step, hpc]
      exact fun h => (nomatch h)
    | body buf packetType packetLength =>
      refine iff_of_true ?_ fun _ _ _ hheader => by rw [hpc] at hheader; cases hheader
      simp only [step, hpc]
      split
      next => exact fun h => (nomatch h)
      next =>
        split
        next => exact fun h => (nomatch h)
        next =>
          split_ifs
          · exact fun h => (nomatch h)
          · exact fun h => (nomatch h)
    | header =>
      simp only [step, hpc, InRange]
      cases hread : s.readWithSize 3 3 with
      | none => exact iff_of_true (fun h => (nomatch h)) fun _ _ _ _ _ h => (nomatch h)
      | some x =>
        obtain ⟨b, read⟩ := x
        simp only
        by_cases hclose : (header read).1 = 0 ∧ (header read).2 = 0
        · rw [if_pos hclose]
          refine iff_of_true (fun h => (nomatch h)) ?_
          rintro _ _ _ - - ⟨⟩
          exact .inl (Prod.ext hclose.1 hclose.2)
        · rw [if_neg hclose]
          by_cases hin : SliceInRange packetSize 3 (header read).2
          · rw [if_pos hin]
            refine iff_of_true (fun h => (nomatch h)) ?_
            rintro _ _ _ - - ⟨⟩
            exact .inr hin
          · rw [if_neg hin]
            refine iff_of_false (fun h => h rfl) ?_
            intro h
            rcases h handled b read trivial rfl rfl with hzero | hrange
            · exact hclose ⟨congrArg Prod.fst hzero, congrArg Prod.snd hzero⟩
            · exact hin hrange

theorem safe_iff (hin : s.InBounds packetSize) : s.Safe packetSize a ↔ s.InRange packetSize a := by
  unfold Safe
  rw [step_panics_iff]
  exact and_iff_left fun _ hstep => step_ok hin hstep

theorem inBounds_of_run {as : List HandlerEvent} (hrun : Run (step packetSize) always init as s) :
    s.InBounds packetSize := by
  have h0 : init.InBounds packetSize := inBounds_of_pc (fun _ _ _ h => (nomatch h))
  exact hrun.invariant _ h0 fun _ _ _ hin _ hstep => (step_ok hin hstep).1

end HandlerLoop

/-! ### Both loops -/

/-- In every state that a loop reaches, on any bytes and with any sizes of the reads, the next call is safe exactly if
the header it reads, if it reads one, carries a length in range. -/
theorem framing_safe_iff (conf : Conf) :
    (∀ (input : Bytes) (rs : List ReadResult) (s : PathReader),
      Run (PathReader.step conf) always (.init input) rs s → ∀ r, s.Safe conf r ↔ s.InRange conf r) ∧
    ∀ (as : List HandlerEvent) (s : HandlerLoop),
      Run (HandlerLoop.step conf.packetSize) always .init as s →
        ∀ a, s.Safe conf.packetSize a ↔ s.InRange conf.packetSize a := by
  constructor
  · intro input rs s hrun r
    exact PathReader.safe_iff (PathReader.inBounds_of_run hrun)
  · intro as s hrun a
    exact HandlerLoop.safe_iff (HandlerLoop.inBounds_of_run hrun)

theorem framing_safe_two_packets :
    (∃ s, Run (PathReader.step mp2bsToml) always (.init [4, 0, 7, 0, 0, 0, 7]) [.data 3] s ∧
        s.Safe mp2bsToml (.data 4)) ∧
      ∃ s, Run (HandlerLoop.step 1500) always .init [.push (Session.createDataPacket 7 0 0 [11, 0, 7, 0, 0, 0, 1])] s ∧
        s.recvBuffer.readBuffer = [11, 0, 7, 0, 0, 0, 1] ∧ s.Safe 1500 (.read true) := by
  obtain ⟨path, hpath, hbody⟩ := Run.exists_of_exec (PathReader.step mp2bsToml) (.init [4, 0, 7, 0, 0, 0, 7]) [.data 3]
    (fun s => s.pc = .body [4, 0, 7] 7) (Guarded.always _) (by decide +kernel)
  obtain ⟨session, hsession, hbuffer⟩ := Run.exists_of_exec (HandlerLoop.step 1500) .init
    [.push (Session.createDataPacket 7 0 0 [11, 0, 7, 0, 0, 0, 1])]
    (fun s => s.recvBuffer.readBuffer = [11, 0, 7, 0, 0, 0, 1]) (Guarded.always _) (by decide +kernel)
  replace hbuffer := of_decide_eq_true hbuffer
  refine ⟨⟨path, hpath, ((framing_safe_iff mp2bsToml).1 _ _ path hpath _).2 ?_⟩,
    ⟨session, hsession, hbuffer, ((framing_safe_iff mp2bsToml).2 _ session hsession _).2 ?_⟩⟩
  · intro n hheader
    rw [of_decide_eq_true hbody] at hheader
    cases hheader
  · rintro handled b read - - hread
    have hbytes : read = [11, 0, 7] := by
      simp only [HandlerLoop.readWithSize, hbuffer, Session.RecvBuffer.read] at hread
      exact (congrArg Prod.snd (Option.some.inj hread)).symm
    rw [hbytes]
    exact .inr (by decide)

/-- A length below the header and one above the buffer, on a path and on the session stream. For the session stream the
remaining length of the first is `2 - 3`. A session that says goodbye after one byte of a header has a length of zero. -/
theorem framing_slices_out_of_range :
    (PathReader.init [3, 0, 2]).step mp2bsToml (.data 3) = .error .panic ∧
      (PathReader.init [3, 5, 221]).step mp2bsToml (.data 3) = .error .panic ∧
      exec (HandlerLoop.step 1500) .init [.push (Session.createDataPacket 7 0 0 [14, 0, 2]), .read true] =
        .error .panic ∧
      (((header [14, 0, 2]).2 - 3).toNat : ℤ) ≠ (header [14, 0, 2]).2.toNat - 3 ∧
      exec (HandlerLoop.step 1500) .init [.push (Session.createDataPacket 7 0 0 [14, 5, 221]), .read true] =
        .error .panic ∧
      exec (HandlerLoop.step 1500) .init [.push (Session.createDataPacket 7 0 0 [14]), .goodbye, .read true] =
        .error .panic := by
  decide +kernel

end Mp2bs.Mp2session.ReadLoops
