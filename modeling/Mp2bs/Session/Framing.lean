import Mp2bs.Go
import Mp2bs.Lib.Machine
import Mp2bs.Lib.Wire

/-!
# The receiver of a path (`session/session.go:180-268`)

`stream.Read` may return fewer bytes than its buffer holds. The receiver reads the three bytes of a
header with one call, and the rest of the packet in a loop. A step of the machine is a call of
`Read`, its label the number of bytes that the call returns.
-/

namespace Mp2bs.Session.Framing
open Mp2bs.Lib.Machine Mp2bs.Lib.Wire

/- The configuration values that the receiver uses. The packet types differ, and a full data packet
fits into the buffer. -/
structure Conf where
  packetSize : UInt16
  helloPacket : UInt8
  helloAckPacket : UInt8
  dataPacket : UInt8
  goodbyePacket : UInt8
  nodup : [helloPacket, helloAckPacket, dataPacket, goodbyePacket].Nodup
  fits : 12 + 1024 ≤ packetSize.toNat

-- config/mp2bs.toml:4-9
def mp2bsToml : Conf where
  packetSize := 1500
  helloPacket := 1
  helloAckPacket := 2
  dataPacket := 3
  goodbyePacket := 4
  nodup := by decide
  fits := by decide

-- data_packet.go:12-19
structure DataPacket where
  type : UInt8
  length : UInt16
  sessionID : UInt32
  pathID : UInt8
  seqNumber : UInt32
  payload : Bytes
  deriving Repr, DecidableEq

-- goodbye_packet.go:11-15
structure GoodbyePacket where
  type : UInt8
  length : UInt16
  sessionID : UInt32
  deriving Repr, DecidableEq

inductive Packet
  | data (p : DataPacket)
  | goodbye (p : GoodbyePacket)
  deriving Repr, DecidableEq

-- CreateDataPacket, data_packet.go:21-31
def createDataPacket (conf : Conf) (sessionID : UInt32) (pathID : ℕ) (seq : UInt32)
    (payload : Bytes) : DataPacket :=
  ⟨conf.dataPacket, UInt16.ofNat (12 + payload.length), sessionID, UInt8.ofNat pathID, seq, payload⟩

-- CreateGoodbyePacket, goodbye_packet.go:17-23
def createGoodbyePacket (conf : Conf) (sessionID : UInt32) : GoodbyePacket :=
  ⟨conf.goodbyePacket, 7, sessionID⟩

-- DataPacket.Write, data_packet.go:73-82
def DataPacket.write (p : DataPacket) : Bytes :=
  p.type :: (writeUint16 p.length ++ (writeUint32 p.sessionID ++
    p.pathID :: (writeUint32 p.seqNumber ++ p.payload)))

-- GoodbyePacket.Write, goodbye_packet.go:51-56
def GoodbyePacket.write (p : GoodbyePacket) : Bytes :=
  p.type :: (writeUint16 p.length ++ writeUint32 p.sessionID)

def Packet.write : Packet → Bytes
  | .data p => p.write
  | .goodbye p => p.write

-- ParseDataPacket, data_packet.go:33-70
def parseDataPacket (r : Bytes) : Option DataPacket := do
  let (type, r) ← readByte r
  let (length, r) ← readUint16 r
  let (sessionID, r) ← readUint32 r
  let (pathID, r) ← readByte r
  let (seqNumber, r) ← readUint32 r
  some ⟨type, length, sessionID, pathID, seqNumber, readData (length - 12).toNat r⟩

-- ParseGoodbyePacket, goodbye_packet.go:25-48
def parseGoodbyePacket (r : Bytes) : Option GoodbyePacket := do
  let (type, r) ← readByte r
  let (length, r) ← readUint16 r
  let (sessionID, _) ← readUint32 r
  some ⟨type, length, sessionID⟩

/- What is written on a path: `Write` cuts its data into payloads of at most
`DATA_PACKET_PAYLOAD_SIZE` bytes (`session.go:474-488`). -/
inductive Sent
  | data (sessionID : UInt32) (pathID : ℕ) (seq : UInt32)
      (payload : { payload : Bytes // payload.length ≤ 1024 })
  | goodbye (sessionID : UInt32)

def Sent.packet (conf : Conf) : Sent → Packet
  | .data sessionID pathID seq payload =>
    .data (createDataPacket conf sessionID pathID seq payload.1)
  | .goodbye sessionID => .goodbye (createGoodbyePacket conf sessionID)

/- `buf` has the bytes of the packet that have been read, `none` before a header. -/
structure Receiver where
  stream : Bytes
  body : Option (Bytes × ℕ)
  decoded : List Packet
  deriving Repr, DecidableEq

namespace Receiver

/- The handling of a packet (`session.go:234-266`); the buffer is `packetSize` bytes long, and a
hello packet is passed over without a word. -/
def dispatch (conf : Conf) (s : Receiver) (buf : Bytes) : Except Stop Receiver :=
  let packet := buf ++ List.replicate (conf.packetSize.toNat - buf.length) 0
  let packetType := packet.headD 0
  if packetType = conf.helloPacket then .ok { s with body := none }
  else if packetType = conf.helloAckPacket then .error .panic
  else if packetType = conf.dataPacket then match parseDataPacket packet with
    | none => .error .panic
    | some p => .ok { s with body := none, decoded := s.decoded ++ [.data p] }
  else if packetType = conf.goodbyePacket then match parseGoodbyePacket packet with
    | none => .error .panic
    | some p => .ok { s with body := none, decoded := s.decoded ++ [.goodbye p] }
  else .error .panic

/- A call of `Read` that returns `n` bytes, with what follows up to the next call. -/
def step (conf : Conf) (s : Receiver) (n : ℕ) : Except Stop Receiver :=
  match s.body with
  | none =>
    if n = 0 ∨ 3 < n ∨ s.stream.length < n then .error .blocked
    else
      -- the bytes that were not read are still zero
      let buf := s.stream.take n ++ List.replicate (3 - n) 0
      let s' := { s with stream := s.stream.drop n }
      match readUint16 (buf.drop 1) with
      | none => .error .panic
      | some (packetLength, _) =>
        if packetLength.toNat = 3 then s'.dispatch conf buf
        -- buf[i:packetLength]
        else if packetLength.toNat < 3 ∨ conf.packetSize < packetLength then .error .panic
        else .ok { s' with body := some (buf, packetLength.toNat) }
  | some (buf, packetLength) =>
    if n = 0 ∨ packetLength - buf.length < n ∨ s.stream.length < n then .error .blocked
    else
      let buf := buf ++ s.stream.take n
      let s' := { s with stream := s.stream.drop n }
      if buf.length = packetLength then s'.dispatch conf buf
      else .ok { s' with body := some (buf, packetLength) }

end Receiver

/-! ### One packet -/

structure Framed (conf : Conf) (p : Packet) (type : UInt8) (length : UInt16) (rest : Bytes) :
    Prop where
  write : p.write = type :: (writeUint16 length ++ rest)
  length : length.toNat = p.write.length
  long : 3 < p.write.length
  fits : p.write.length ≤ conf.packetSize.toNat
  dispatch : ∀ s : Receiver, s.dispatch conf p.write =
    .ok { s with body := none, decoded := s.decoded ++ [p] }

theorem Conf.data_ne (conf : Conf) :
    conf.dataPacket ≠ conf.helloPacket ∧ conf.dataPacket ≠ conf.helloAckPacket := by
  have h := conf.nodup
  simp only [List.nodup_cons, List.mem_cons, not_or] at h
  exact ⟨Ne.symm h.1.2.1, Ne.symm h.2.1.1⟩

theorem Conf.goodbye_ne (conf : Conf) : conf.goodbyePacket ≠ conf.helloPacket ∧
    conf.goodbyePacket ≠ conf.helloAckPacket ∧ conf.goodbyePacket ≠ conf.dataPacket := by
  have h := conf.nodup
  simp only [List.nodup_cons, List.mem_cons, not_or] at h
  exact ⟨Ne.symm h.1.2.2.1, Ne.symm h.2.1.2.1, Ne.symm h.2.2.1.1⟩

theorem parseDataPacket_write (conf : Conf) (sessionID : UInt32) (pathID : ℕ) (seq : UInt32)
    {payload : Bytes} (h : payload.length ≤ 1024) (pad : Bytes) :
    parseDataPacket ((createDataPacket conf sessionID pathID seq payload).write ++ pad) =
      some (createDataPacket conf sessionID pathID seq payload) := by
  have hsub : (UInt16.ofNat (12 + payload.length) - UInt16.ofNat 12).toNat = payload.length :=
    sub_ofNat (by omega)
  simp only [createDataPacket, DataPacket.write, parseDataPacket, List.cons_append,
    List.append_assoc, readByte_cons, readUint16_write, readUint32_write, Option.bind_eq_bind,
    Option.bind_some]
  rw [show (12 : UInt16) = UInt16.ofNat 12 from rfl, hsub, readData_append]

theorem parseGoodbyePacket_write (conf : Conf) (sessionID : UInt32) (pad : Bytes) :
    parseGoodbyePacket ((createGoodbyePacket conf sessionID).write ++ pad) =
      some (createGoodbyePacket conf sessionID) := by
  simp only [createGoodbyePacket, GoodbyePacket.write, parseGoodbyePacket, List.cons_append,
    List.append_assoc, readByte_cons, readUint16_write, readUint32_write, Option.bind_eq_bind,
    Option.bind_some]

theorem Sent.framed (conf : Conf) (sent : Sent) :
    ∃ type length rest, Framed conf (sent.packet conf) type length rest := by
  have hfits := conf.fits
  cases sent with
  | data sessionID pathID seq payload =>
    have hle := payload.2
    have hlen : (createDataPacket conf sessionID pathID seq payload.1).write.length =
        12 + payload.1.length := by
      simp only [createDataPacket, DataPacket.write, List.length_cons, List.length_append,
        length_writeUint16, length_writeUint32]
      omega
    refine ⟨_, _, _, rfl, ?_, ?_, ?_, ?_⟩
    · simp only [Sent.packet, Packet.write, hlen]
      exact toNat_ofNat (by omega)
    · simp only [Sent.packet, Packet.write, hlen]
      omega
    · simp only [Sent.packet, Packet.write, hlen]
      omega
    · intro s
      have htype : ((createDataPacket conf sessionID pathID seq payload.1).write ++
          List.replicate (conf.packetSize.toNat -
            (createDataPacket conf sessionID pathID seq payload.1).write.length) 0).headD 0 =
          conf.dataPacket := rfl
      simp only [Sent.packet, Packet.write, Receiver.dispatch, htype]
      rw [if_neg conf.data_ne.1, if_neg conf.data_ne.2, if_pos trivial,
        parseDataPacket_write conf sessionID pathID seq hle]
  | goodbye sessionID =>
    have hlen : (createGoodbyePacket conf sessionID).write.length = 7 := rfl
    refine ⟨_, _, _, rfl, rfl, ?_, ?_, ?_⟩
    · simp only [Sent.packet, Packet.write, hlen]
      omega
    · simp only [Sent.packet, Packet.write, hlen]
      omega
    · intro s
      have htype : ((createGoodbyePacket conf sessionID).write ++
          List.replicate (conf.packetSize.toNat -
            (createGoodbyePacket conf sessionID).write.length) 0).headD 0 =
          conf.goodbyePacket := rfl
      simp only [Sent.packet, Packet.write, Receiver.dispatch, htype]
      rw [if_neg conf.goodbye_ne.1, if_neg conf.goodbye_ne.2.1, if_neg conf.goodbye_ne.2.2,
        if_pos trivial, parseGoodbyePacket_write]

/-! ### Every split of the stream -/

namespace Receiver

def packets (conf : Conf) (sent : List Sent) : List Packet := sent.map (Sent.packet conf)

def init (conf : Conf) (sent : List Sent) : Receiver :=
  ⟨(packets conf sent).flatMap Packet.write, none, []⟩

def HeaderWhole (s : Receiver) (n : ℕ) : Prop := s.body = none → n = 3

instance (s : Receiver) (n : ℕ) : Decidable (s.HeaderWhole n) :=
  inferInstanceAs (Decidable (_ → _))

inductive Reading (conf : Conf) (decoded : List Packet) : Receiver → List Packet → Prop
  | header (pending : List Packet) :
      Reading conf decoded ⟨pending.flatMap Packet.write, none, decoded⟩ pending
  | body {p : Packet} {buf stream : Bytes} (qs : List Packet)
      (split : buf ++ stream = p.write ++ qs.flatMap Packet.write)
      (short : buf.length < p.write.length) :
      Reading conf decoded ⟨stream, some (buf, p.write.length), decoded⟩ (p :: qs)

structure Inv (conf : Conf) (ps : List Packet) (s : Receiver) : Prop where
  reading : ∃ pending, s.decoded ++ pending = ps ∧ Reading conf s.decoded s pending

variable {conf : Conf} {ps : List Packet} {s s' : Receiver} {n : ℕ}

variable {decoded : List Packet} {p : Packet} {type : UInt8} {length : UInt16} {rest tail : Bytes}

theorem Reading.mem {pending : List Packet} (hsplit : decoded ++ pending = ps) (hp : p ∈ pending) :
    p ∈ ps := by
  rw [← hsplit]
  exact List.mem_append_right decoded hp

theorem step_header (hp : Framed conf p type length rest) :
    step conf ⟨p.write ++ tail, none, decoded⟩ 3 =
      .ok ⟨rest ++ tail, some (type :: writeUint16 length, p.write.length), decoded⟩ := by
  have hlong := hp.long
  have hlen := hp.length
  have hfits := hp.fits
  have hbytes : p.write ++ tail = (type :: writeUint16 length) ++ (rest ++ tail) := by
    rw [hp.write, List.cons_append, List.cons_append, List.append_assoc]
  have hthree : (type :: writeUint16 length).length = 3 := rfl
  have htake : (p.write ++ tail).take 3 = type :: writeUint16 length := by
    rw [hbytes, ← hthree, List.take_left]
  have hdrop : (p.write ++ tail).drop 3 = rest ++ tail := by
    rw [hbytes, ← hthree, List.drop_left]
  have hread : readUint16 ((type :: writeUint16 length).drop 1) = some (length, []) := by
    have := readUint16_write length []
    rwa [List.append_nil] at this
  have hguard : ¬((3 : ℕ) = 0 ∨ 3 < 3 ∨ (p.write ++ tail).length < 3) := by
    rw [List.length_append]
    omega
  have hslice : ¬(length.toNat < 3 ∨ conf.packetSize < length) := by
    rw [UInt16.lt_iff_toNat_lt]
    omega
  simp only [step, htake, hdrop, Nat.sub_self, List.replicate_zero, List.append_nil, hread]
  rw [if_neg hguard, if_neg (by omega), if_neg hslice, hlen]

theorem step_body {buf stream : Bytes} (decoded : List Packet) (hp : Framed conf p type length rest)
    (hsplit : buf ++ stream = p.write ++ tail)
    (hn : ¬(n = 0 ∨ p.write.length - buf.length < n ∨ stream.length < n)) :
    step conf ⟨stream, some (buf, p.write.length), decoded⟩ n =
      if buf.length + n = p.write.length then .ok ⟨tail, none, decoded ++ [p]⟩
      else .ok ⟨stream.drop n, some (buf ++ stream.take n, p.write.length), decoded⟩ := by
  have hlen : (buf ++ stream.take n).length = buf.length + n := by
    rw [List.length_append, List.length_take]
    omega
  simp only [step]
  rw [if_neg hn, hlen]
  by_cases hall : buf.length + n = p.write.length
  · -- the bytes read so far are the packet, and what is left comes after it
    have hbytes : (buf ++ stream.take n) ++ stream.drop n = p.write ++ tail := by
      rw [List.append_assoc, List.take_append_drop, hsplit]
    obtain ⟨hbuf, htail⟩ := List.append_inj hbytes (by rw [hlen, hall])
    rw [if_pos hall, if_pos hall, hbuf, hp.dispatch, htail]
  · rw [if_neg hall, if_neg hall]

theorem Inv.step (h : Inv conf ps s)
    (hps : ∀ p ∈ ps, ∃ type length rest, Framed conf p type length rest)
    (hwhole : s.HeaderWhole n) :
    s.step conf n = .error .blocked ∨ ∃ s', s.step conf n = .ok s' ∧ Inv conf ps s' := by
  obtain ⟨pending, hsplit, hreading⟩ := h.reading
  obtain ⟨stream, body, decoded⟩ := s
  simp only at hsplit hreading
  cases hreading with
  | header =>
    obtain rfl := hwhole rfl
    cases pending with
    | nil => exact .inl rfl
    | cons p qs =>
      obtain ⟨type, length, rest, hp⟩ := hps p (Reading.mem hsplit (List.mem_cons_self ..))
      right
      rw [List.flatMap_cons]
      refine ⟨_, step_header hp, ⟨p :: qs, hsplit, .body qs ?_ ?_⟩⟩
      · rw [hp.write, List.cons_append, List.cons_append, List.append_assoc]
      · exact hp.long
  | body qs split short =>
    rename_i p buf
    obtain ⟨type, length, rest, hp⟩ := hps p (Reading.mem hsplit (List.mem_cons_self ..))
    by_cases hn : n = 0 ∨ p.write.length - buf.length < n ∨ stream.length < n
    · left
      simp only [Receiver.step]
      rw [if_pos hn]
    · right
      have hstep := step_body decoded hp split hn
      by_cases hall : buf.length + n = p.write.length
      · rw [if_pos hall] at hstep
        refine ⟨_, hstep, ⟨qs, ?_, .header qs⟩⟩
        rw [List.append_assoc]
        exact hsplit
      · rw [if_neg hall] at hstep
        refine ⟨_, hstep, ⟨p :: qs, hsplit, .body qs ?_ ?_⟩⟩
        · rw [List.append_assoc, List.take_append_drop]
          exact split
        · rw [List.length_append, List.length_take]
          omega

theorem packets_framed (conf : Conf) (sent : List Sent) :
    ∀ p ∈ packets conf sent, ∃ type length rest, Framed conf p type length rest := by
  intro p hp
  obtain ⟨x, -, rfl⟩ := List.mem_map.mp hp
  exact x.framed conf

theorem inv_of_run {sent : List Sent} {ns : List ℕ}
    (hrun : Run (step conf) HeaderWhole (init conf sent) ns s) :
    Inv conf (packets conf sent) s := by
  have h0 : Inv conf (packets conf sent) (init conf sent) := ⟨_, rfl, .header _⟩
  refine hrun.invariant _ h0 fun a n b ha hwhole hstep => ?_
  rcases ha.step (packets_framed conf sent) hwhole with herr | ⟨b', hok, hb⟩
  · rw [herr] at hstep
    cases hstep
  · rw [hok] at hstep
    cases hstep
    exact hb

theorem Inv.complete (h : Inv conf ps s)
    (hps : ∀ p ∈ ps, ∃ type length rest, Framed conf p type length rest) (hs : s.stream = []) :
    s.decoded = ps := by
  obtain ⟨pending, hsplit, hreading⟩ := h.reading
  obtain ⟨stream, body, decoded⟩ := s
  simp only at hs hsplit hreading ⊢
  cases hreading with
  | header =>
    cases pending with
    | nil => rwa [List.append_nil] at hsplit
    | cons p qs =>
      obtain ⟨_, _, _, hp⟩ := hps p (Reading.mem hsplit (List.mem_cons_self ..))
      have hlong := hp.long
      have hzero := congrArg List.length hs
      rw [List.flatMap_cons, List.length_append, List.length_nil] at hzero
      omega
  | body qs split short =>
    have hlen := congrArg List.length split
    rw [hs, List.append_nil, List.length_append] at hlen
    omega

/-- However the stream is split, as long as each header is read whole: what is decoded starts the
sequence of packets, it is all of them once the stream has been read, and no read panics. -/
theorem decodes_of_whole_headers (conf : Conf) (sent : List Sent) {ns : List ℕ} {s : Receiver}
    (hrun : Run (step conf) HeaderWhole (init conf sent) ns s) :
    s.decoded <+: packets conf sent ∧
      (s.stream = [] → s.decoded = packets conf sent) ∧
      ∀ n, s.HeaderWhole n → s.step conf n ≠ .error .panic := by
  have hinv := inv_of_run hrun
  refine ⟨?_, hinv.complete (packets_framed conf sent), ?_⟩
  · obtain ⟨pending, hsplit, -⟩ := hinv.reading
    exact ⟨pending, hsplit⟩
  · intro n hwhole herr
    rcases hinv.step (packets_framed conf sent) hwhole with h | ⟨s', h, -⟩
    · rw [h] at herr
      cases herr
    · rw [h] at herr
      cases herr

def twoPackets : List Sent := [.data 7 0 0 ⟨[1, 2, 3], by decide⟩, .goodbye 7]

theorem decodes_of_whole_headers_two : ∃ s,
    Run (step mp2bsToml) HeaderWhole (init mp2bsToml twoPackets) [3, 5, 7, 3, 1, 3] s ∧
      s.decoded = packets mp2bsToml twoPackets := by
  obtain ⟨s, hrun, hs⟩ := Run.exists_of_exec (step mp2bsToml) (init mp2bsToml twoPackets)
    [3, 5, 7, 3, 1, 3] (fun s => s.stream = [])
    (show Guarded (step mp2bsToml) HeaderWhole (init mp2bsToml twoPackets) [3, 5, 7, 3, 1, 3] by
      decide +kernel)
    (by decide +kernel)
  exact ⟨s, hrun, (decodes_of_whole_headers mp2bsToml twoPackets hrun).2.1 (of_decide_eq_true hs)⟩

/-- A first read that returns one byte of the seven of a goodbye packet: the length in the buffer
is still zero, and the slice up to it panics. -/
theorem short_header_panics :
    (init mp2bsToml [.goodbye 7]).stream.length = 7 ∧
      (init mp2bsToml [.goodbye 7]).step mp2bsToml 1 = .error .panic := by
  decide +kernel

end Receiver

end Mp2bs.Session.Framing
