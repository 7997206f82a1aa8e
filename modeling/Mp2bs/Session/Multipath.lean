import Mp2bs.Lib.Machine
import Mp2bs.Session.RecvBuffer

/-!
# A multipath session and its peer (`session/session.go`)

One session writes and its peer reads. `Write` runs one turn of its loop at a time, so that the
transmitters of the paths and the receivers of the peer can run in between. A QUIC stream is a queue of
whole packets. The path of each packet is part of the label; what steers that choice is left out.
-/

namespace Mp2bs.Session
open Mp2bs.Lib.Machine Mp2bs.Lib.SeqWindow

structure WriteCall where
  buf : Bytes
  start : ℕ
  deriving Repr, DecidableEq

structure Multipath where
  sessionID : ℕ
  sequenceNumber : ℕ
  sendBuffer : List (List DataPacket)
  writing : Option WriteCall
  streams : List (List DataPacket)
  recvBuffer : RecvBuffer
  -- the bytes given to Write and those returned by Read
  written : Bytes
  out : Bytes
  deriving Repr, DecidableEq

namespace Multipath

-- CreateSession, session.go:41-62, on both sides
def create (sessionID : ℕ) : Multipath :=
  ⟨sessionID, 0, [], none, [], createRecvBuffer, [], []⟩

-- AddStream, session.go:119-135
def addStream (s : Multipath) : Multipath :=
  { s with sendBuffer := s.sendBuffer ++ [[]], streams := s.streams ++ [[]] }

-- sendDataPacket, session.go:300-309; the session has two mutexes
def sendDataPacket (s : Multipath) (payload : Bytes) (pathID : ℕ) : Except Stop Multipath :=
  let packet := createDataPacket s.sessionID pathID s.sequenceNumber payload
  if pathID < 2 ∧ pathID < s.sendBuffer.length then
    .ok { s with sendBuffer := push s.sendBuffer pathID packet }
  else .error .panic

/- A turn of the loop of `Write` (`session.go:467-499`), with the path that `Scheduling`
returns. -/
def writeTurn (s : Multipath) (w : WriteCall) (pathID : ℕ) : Except Stop Multipath :=
  let stop := if w.start + dataPacketPayloadSize < w.buf.length then
    w.start + dataPacketPayloadSize else w.buf.length
  match s.sendDataPacket ((w.buf.take stop).drop w.start) pathID with
  | .error e => .error e
  | .ok s => .ok { s with
      sequenceNumber := u32 (s.sequenceNumber + 1)
      writing := some { w with start := stop } }

inductive Label where
  | addStream
  | write (buf : Bytes)
  | send (pathID : ℕ)
  | ret
  | transmit (pathID : ℕ)
  | deliver (pathID : ℕ)
  | read (bufLen : ℕ)
  deriving Repr, DecidableEq

def step (s : Multipath) : Label → Except Stop Multipath
  | .addStream => .ok s.addStream
  -- calls of Write are serialised
  | .write buf => match s.writing with
    | some _ => .error .blocked
    | none => .ok { s with writing := some ⟨buf, 0⟩, written := s.written ++ buf }
  | .send pathID => match s.writing with
    | none => .error .blocked
    | some w => if w.start < w.buf.length then s.writeTurn w pathID else .error .blocked
  | .ret => match s.writing with
    | none => .error .blocked
    | some w => if w.start < w.buf.length then .error .blocked else .ok { s with writing := none }
  -- a turn of dataPacketTransmitter, session.go:330-365
  | .transmit pathID => match pop s.sendBuffer pathID with
    | none => .error .blocked
    | some (packet, sendBuffer) =>
      if pathID < s.streams.length then
        .ok { s with sendBuffer := sendBuffer, streams := push s.streams pathID packet }
      else .error .panic
  -- the peer's receiver and handleDataPacket, session.go:400-402
  | .deliver pathID => match pop s.streams pathID with
    | none => .error .blocked
    | some (packet, streams) =>
      .ok { s with streams := streams, recvBuffer := s.recvBuffer.pushPacket packet }
  | .read bufLen =>
    let r := s.recvBuffer.read bufLen
    .ok { s with recvBuffer := r.1, out := s.out ++ r.2 }

def onTheWay (s : Multipath) : List DataPacket := s.sendBuffer.flatten ++ s.streams.flatten

def inFlight (s : Multipath) : ℕ := s.onTheWay.length + s.recvBuffer.reorderBuffer.length

def unsent (s : Multipath) : Bytes :=
  match s.writing with
  | none => []
  | some w => w.buf.drop w.start

/- Fewer than `2^32` packets are in flight after each send. -/
def InWindow (s : Multipath) : Label → Prop
  | .send _ => s.inFlight + 1 < 2 ^ 32
  | _ => True

instance (s : Multipath) : (a : Label) → Decidable (InWindow s a)
  | .send _ => inferInstanceAs (Decidable (s.inFlight + 1 < 2 ^ 32))
  | .addStream | .write _ | .ret | .transmit _ | .deliver _ | .read _ => .isTrue trivial

/- The state against the payloads of all packets sent so far, `e` of which have reached
`readBuffer`. -/
structure Follows (s : Multipath) (log : List Bytes) (e : ℕ) : Prop where
  aligned : RecvBuffer.Aligned log (s.onTheWay.map DataPacket.numbered) s.out e s.recvBuffer
  sequence : s.sequenceNumber = log.length % 2 ^ 32
  written : s.written = log.flatten ++ s.unsent

variable {s s' : Multipath} {log : List Bytes} {e : ℕ}

variable {pathID : ℕ} {packet : DataPacket}

theorem send_cases (hs : step s (.send pathID) = .ok s') :
    ∃ w stop, s.writing = some w ∧ w.start ≤ stop ∧ pathID < s.sendBuffer.length ∧
      s' = { s with
        sendBuffer := push s.sendBuffer pathID (createDataPacket s.sessionID pathID
          s.sequenceNumber ((w.buf.take stop).drop w.start))
        sequenceNumber := u32 (s.sequenceNumber + 1)
        writing := some { w with start := stop } } := by
  simp only [step] at hs
  cases hw : s.writing with
  | none => simp [hw] at hs
  | some w =>
    simp only [hw] at hs
    by_cases hlt : w.start < w.buf.length
    · rw [if_pos hlt] at hs
      by_cases hpath : pathID < 2 ∧ pathID < s.sendBuffer.length
      · simp only [writeTurn, sendDataPacket, if_pos hpath, Except.ok.injEq] at hs
        refine ⟨w, _, rfl, ?_, hpath.2, hs.symm⟩
        split_ifs <;> omega
      · simp only [writeTurn, sendDataPacket, if_neg hpath] at hs
        cases hs
    · simp [if_neg hlt] at hs

theorem onTheWay_addStream (s : Multipath) : s.addStream.onTheWay = s.onTheWay := by
  simp [onTheWay, addStream]

theorem onTheWay_push (h : pathID < s.sendBuffer.length) (packet : DataPacket) :
    ((push s.sendBuffer pathID packet).flatten ++ s.streams.flatten).Perm
      (packet :: s.onTheWay) :=
  (flatten_push h packet).append_right _

theorem onTheWay_transmit {sendBuffer : List (List DataPacket)}
    (h : pop s.sendBuffer pathID = some (packet, sendBuffer)) (hp : pathID < s.streams.length) :
    (sendBuffer.flatten ++ (push s.streams pathID packet).flatten).Perm s.onTheWay :=
  calc sendBuffer.flatten ++ (push s.streams pathID packet).flatten
      _ |>.Perm (sendBuffer.flatten ++ packet :: s.streams.flatten) :=
        (flatten_push hp packet).append_left _
      _ |>.Perm (packet :: sendBuffer.flatten ++ s.streams.flatten) := List.perm_middle
      _ |>.Perm (s.sendBuffer.flatten ++ s.streams.flatten) :=
        (flatten_pop h).symm.append_right _

theorem onTheWay_deliver {streams : List (List DataPacket)}
    (h : pop s.streams pathID = some (packet, streams)) :
    (packet :: (s.sendBuffer.flatten ++ streams.flatten)).Perm s.onTheWay :=
  List.perm_middle.symm.trans ((flatten_pop h).symm.append_left _)

namespace Follows

theorem write {buf : Bytes} (h : Follows s log e) (hs : step s (.write buf) = .ok s') :
    Follows s' log e := by
  simp only [step] at hs
  cases hw : s.writing with
  | some w => simp [hw] at hs
  | none =>
    simp only [hw, Except.ok.injEq] at hs
    subst hs
    refine ⟨h.aligned, h.sequence, ?_⟩
    have hwritten := h.written
    simp only [unsent, hw, List.append_nil] at hwritten
    simp only [unsent, hwritten, List.drop_zero]

theorem drop_split {buf : Bytes} {start stop : ℕ} (h : start ≤ stop) :
    (buf.take stop).drop start ++ buf.drop stop = buf.drop start := by
  rw [List.drop_take]
  have hsplit := List.take_append_drop (stop - start) (buf.drop start)
  rwa [List.drop_drop, Nat.add_sub_cancel' h] at hsplit

theorem send {pathID : ℕ} (h : Follows s log e) (hok : InWindow s (.send pathID))
    (hs : step s (.send pathID) = .ok s') : ∃ payload, Follows s' (log ++ [payload]) e := by
  obtain ⟨w, stop, hw, hle, hpath, rfl⟩ := send_cases hs
  refine ⟨(w.buf.take stop).drop w.start, ?_, ?_, ?_⟩
  · have hflight : log.length + 1 - e ≤ 2 ^ 32 := by
      have hcount := h.aligned.in_flight
      rw [List.length_map] at hcount
      simp only [InWindow, inFlight] at hok
      omega
    have hsent := h.aligned.send ((w.buf.take stop).drop w.start) h.sequence hflight
    exact hsent.perm ((onTheWay_push hpath _).map DataPacket.numbered)
  · simp only [h.sequence, u32, List.length_append, List.length_singleton]
    omega
  · have hwritten := h.written
    simp only [unsent, hw] at hwritten
    simp only [unsent, hwritten, List.flatten_append, List.flatten_singleton,
      List.append_assoc, drop_split hle]

theorem ret (h : Follows s log e) (hs : step s .ret = .ok s') : Follows s' log e := by
  simp only [step] at hs
  cases hw : s.writing with
  | none => simp [hw] at hs
  | some w =>
    simp only [hw] at hs
    by_cases hlt : w.start < w.buf.length
    · simp [if_pos hlt] at hs
    · simp only [if_neg hlt, Except.ok.injEq] at hs
      subst hs
      refine ⟨h.aligned, h.sequence, ?_⟩
      have hwritten := h.written
      simp only [unsent, hw] at hwritten
      rwa [List.drop_eq_nil_of_le (by omega)] at hwritten

theorem transmit {pathID : ℕ} (h : Follows s log e) (hs : step s (.transmit pathID) = .ok s') :
    Follows s' log e := by
  simp only [step] at hs
  cases hp : pop s.sendBuffer pathID with
  | none => simp [hp] at hs
  | some r =>
    obtain ⟨packet, sendBuffer⟩ := r
    simp only [hp] at hs
    by_cases hlt : pathID < s.streams.length
    · simp only [if_pos hlt, Except.ok.injEq] at hs
      subst hs
      exact ⟨h.aligned.perm ((onTheWay_transmit hp hlt).map _), h.sequence, h.written⟩
    · simp [if_neg hlt] at hs

theorem deliver {pathID : ℕ} (h : Follows s log e) (hs : step s (.deliver pathID) = .ok s') :
    ∃ e', Follows s' log e' := by
  simp only [step] at hs
  cases hp : pop s.streams pathID with
  | none => simp [hp] at hs
  | some r =>
    obtain ⟨packet, streams⟩ := r
    simp only [hp, Except.ok.injEq] at hs
    subst hs
    have hperm := (onTheWay_deliver hp).map DataPacket.numbered
    obtain ⟨e', he'⟩ := RecvBuffer.Aligned.pushPacket (h.aligned.perm hperm)
    exact ⟨e', he', h.sequence, h.written⟩

theorem step {a : Label} (h : Follows s log e) (hok : InWindow s a)
    (hs : Multipath.step s a = .ok s') : ∃ log' e', Follows s' log' e' := by
  cases a with
  | addStream =>
    cases hs
    refine ⟨log, e, ?_, h.sequence, h.written⟩
    rw [onTheWay_addStream]
    exact h.aligned
  | write buf => exact ⟨log, e, h.write hs⟩
  | send pathID =>
    obtain ⟨payload, hsent⟩ := h.send hok hs
    exact ⟨_, e, hsent⟩
  | ret => exact ⟨log, e, h.ret hs⟩
  | transmit pathID => exact ⟨log, e, h.transmit hs⟩
  | deliver pathID =>
    obtain ⟨e', he'⟩ := h.deliver hs
    exact ⟨log, e', he'⟩
  | read bufLen =>
    cases hs
    exact ⟨log, e, h.aligned.read bufLen, h.sequence, h.written⟩

end Follows

theorem create_follows (sessionID : ℕ) : Follows (create sessionID) [] 0 :=
  ⟨RecvBuffer.createRecvBuffer_aligned, rfl, rfl⟩

theorem follows_of_run {sessionID : ℕ} {as : List Label}
    (h : Run step InWindow (create sessionID) as s) : ∃ log e, Follows s log e := by
  refine h.invariant (fun s => ∃ log e, Follows s log e) ⟨[], 0, create_follows sessionID⟩ ?_
  intro s a s' hf hok hs
  obtain ⟨log, e, hf⟩ := hf
  exact hf.step hok hs

/-- Along every run the bytes read are the first bytes written. When no packet is on its
way, all that `Write` has sent has been read or can be read. -/
theorem reads_follow_writes {sessionID : ℕ} {as : List Label}
    (h : Run step InWindow (create sessionID) as s) :
    s.out <+: s.written ∧
      (s.onTheWay = [] → s.out ++ s.recvBuffer.readBuffer ++ s.unsent = s.written ∧
        s.recvBuffer.reorderBuffer = []) := by
  obtain ⟨log, e, hf⟩ := follows_of_run h
  constructor
  · have hread : s.out ++ s.recvBuffer.readBuffer <+: log.flatten := by
      rw [hf.aligned.readable]
      refine ⟨(log.drop e).flatten, ?_⟩
      rw [← List.flatten_append, List.take_append_drop]
    rw [hf.written]
    exact ((List.prefix_append ..).trans hread).trans (List.prefix_append ..)
  · intro hnone
    have haligned := hf.aligned
    rw [hnone] at haligned
    obtain ⟨hall, hempty⟩ := haligned.complete
    exact ⟨by rw [hall, hf.written], hempty⟩

def crossed : List Label :=
  [.addStream, .addStream, .write [1], .send 0, .ret, .write [2], .send 1, .ret,
    .transmit 1, .deliver 1, .transmit 0, .deliver 0, .read 5]

theorem reads_follow_writes_crossed :
    ∃ s, Run step InWindow (create 7) crossed s ∧ s.out = [1, 2] ∧ s.onTheWay = [] ∧
      s.out <+: s.written ∧ s.out ++ s.recvBuffer.readBuffer ++ s.unsent = s.written := by
  have hrun : Run step InWindow (create 7) crossed _ := Run.of_exec crossed (by decide) rfl
  have h := reads_follow_writes hrun
  exact ⟨_, hrun, by decide, by decide, h.1, (h.2 (by decide)).1⟩

end Multipath

end Mp2bs.Session
