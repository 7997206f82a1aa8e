import Mp2bs.Quic.Framer

/-!
# Streams and the framer of one connection

Calls of `Write`, `Close`, `queueRetransmission` and `updateSendWindow` run beside `AppendStreamFrames`. A
stream's mutex is free between two turns of the framer's loop, the framer's mutex is held over all turns,
so `AddActiveStream` waits for the loop (`framer.go:87-152`). A stream's methods notify the framer without
the stream's mutex (`send_stream.go:163-166, 449-451, 466-470, 504-513`).
-/

namespace Mp2bs.Quic
open Mp2bs.Fec Mp2bs.Lib.Machine

structure Appending where
  maxLen : ℕ
  turns : ℕ
  frames : List Frame
  length : ℕ

structure WindowUpdate where
  id : ℕ
  limit : ℕ
  hasStreamData : Bool
  deriving DecidableEq

/- `notifying` has the calls of `onHasStreamData` that are under way, those of `Write` apart. -/
structure Connection where
  framer : Framer
  appending : Option Appending
  notifying : List ℕ
  updating : List WindowUpdate

namespace SendStream

/- One turn of the loop of `Write` (`send_stream.go:119-182`). -/
def writeTurn (s : SendStream) (notifiedSender : Bool) : SendStream :=
  if s.canBufferStreamFrame ∧ s.dataForWriting ≠ [] then
    { s.buffer with writer := if notifiedSender then .idle else .notifying true }
  else if s.dataForWriting = [] ∨ s.canceledWrite ∨ s.closedForShutdown then
    { s with writer := .idle }
  else { s with writer := if notifiedSender then .waiting else .notifying false }

-- Write, send_stream.go:92-112
def write (s : SendStream) (p : Bytes) : SendStream :=
  if s.finishedWriting ∨ s.canceledWrite ∨ s.closeForShutdownErr ∨ p = [] then s
  else { s with dataForWriting := p }.writeTurn false

-- cancelWriteImpl, send_stream.go:479-493
def cancelWriteImpl (s : SendStream) : SendStream :=
  if s.canceledWrite then s
  else { s with
    canceledWrite := true
    numOutstandingFrames := 0
    retransmissionQueue := [] }.signalWrite

-- closeForShutdown, send_stream.go:537-544
def closeForShutdown (s : SendStream) (err : Bool) : SendStream :=
  { s with closedForShutdown := true, closeForShutdownErr := err }.signalWrite

end SendStream

namespace Connection

inductive Label
  | write (id : ℕ) (p : Bytes)
  | writeNotifies (id : ℕ)
  | writeWakes (id : ℕ)
  | close (id : ℕ)
  | queueRetransmission (id : ℕ) (f : PooledFrame)
  | cancelWrite (id : ℕ)
  | closeForShutdown (id : ℕ) (err : Bool)
  | readStreamData (id limit : ℕ)
  | updateSendWindow (u : WindowUpdate)
  | handleMaxData (limit : ℕ)
  | onHasStreamData (id : ℕ)
  | appendBegin (maxLen : ℕ)
  | appendNext
  | appendEnd

def init : Connection where
  framer := ⟨fun id => some (.new id), ⟨0, 0, 0⟩, ∅, []⟩
  appending := none
  notifying := []
  updating := []

def setStream (c : Connection) (id : ℕ) (s : SendStream) : Connection :=
  { c with framer := { c.framer with streams := Function.update c.framer.streams id (some s) } }

-- AddActiveStream, framer.go:87-94
def addActiveStream (c : Connection) (id : ℕ) : Connection :=
  if id ∈ c.framer.activeStreams then c
  else { c with framer := { c.framer with
    streamQueue := c.framer.streamQueue ++ [id]
    activeStreams := insert id c.framer.activeStreams } }

def onStream (c : Connection) (id : ℕ) (k : SendStream → Except Stop Connection) :
    Except Stop Connection :=
  match c.framer.streams id with
  | none => .error .blocked
  | some s => k s

def step (c : Connection) : Label → Except Stop Connection
  | .write id p => c.onStream id fun s =>
    if s.writer = .idle then .ok (c.setStream id (s.write p)) else .error .blocked
  | .writeNotifies id => c.onStream id fun s =>
    match s.writer, c.appending with
    | .notifying copied, none => .ok ((c.setStream id
        { s with writer := if copied then .idle else .waiting }).addActiveStream id)
    | _, _ => .error .blocked
  | .writeWakes id => c.onStream id fun s =>
    if s.writer = .waiting ∧ s.writeChan then
      .ok (c.setStream id ({ s with writeChan := false }.writeTurn true))
    else .error .blocked
  -- send_stream.go:454-472
  | .close id => c.onStream id fun s =>
    if s.closedForShutdown ∨ s.canceledWrite then .ok c
    else .ok { c.setStream id { s with finishedWriting := true } with
      notifying := c.notifying ++ [id] }
  -- send_stream.go:436-452
  | .queueRetransmission id f => c.onStream id fun s =>
    if s.canceledWrite then .ok c
    else if s.numOutstandingFrames = 0 then .error .panic
    else .ok { c.setStream id { s with
        retransmissionQueue := s.retransmissionQueue ++ [f]
        numOutstandingFrames := s.numOutstandingFrames - 1 } with
      notifying := c.notifying ++ [id] }
  | .cancelWrite id => c.onStream id fun s => .ok (c.setStream id s.cancelWriteImpl)
  | .closeForShutdown id err => c.onStream id fun s => .ok (c.setStream id (s.closeForShutdown err))
  -- send_stream.go:504-513, in two steps
  | .readStreamData id limit => c.onStream id fun s =>
    .ok { c with updating :=
      c.updating ++ [⟨id, limit, !s.dataForWriting.isEmpty || s.nextFrame.isSome⟩] }
  | .updateSendWindow u => c.onStream u.id fun s =>
    if u ∈ c.updating then
      .ok { c.setStream u.id { s with flowController := s.flowController.updateSendWindow u.limit } with
        updating := c.updating.erase u
        notifying := if u.hasStreamData then c.notifying ++ [u.id] else c.notifying }
    else .error .blocked
  -- handleMaxDataFrame, session.go:1388-1390
  | .handleMaxData limit =>
    .ok { c with framer := { c.framer with conn := c.framer.conn.updateSendWindow limit } }
  | .onHasStreamData id =>
    if id ∈ c.notifying ∧ c.appending.isNone then
      .ok ({ c with notifying := c.notifying.erase id }.addActiveStream id)
    else .error .blocked
  | .appendBegin maxLen =>
    if c.appending.isNone then
      .ok { c with appending := some ⟨maxLen, c.framer.streamQueue.length, [], 0⟩ }
    else .error .blocked
  | .appendNext => match c.appending with
    | some ⟨maxLen, turns + 1, frames, length⟩ =>
      if maxLen < minStreamFrameSize + length then .error .blocked
      else match c.framer.turn maxLen length with
        | .error stop => .error stop
        | .ok (framer, f) => .ok { c with
            framer := framer
            appending := some ⟨maxLen, turns, frames ++ f.toList,
              length + f.elim 0 Frame.length⟩ }
    | _ => .error .blocked
  | .appendEnd => match c.appending with
    | some ⟨maxLen, turns, _, length⟩ =>
      if turns = 0 ∨ maxLen < minStreamFrameSize + length then .ok { c with appending := none }
      else .error .blocked
    | none => .error .blocked

/-! ### Streams with FEC frames stay scheduled -/

end Connection

/- A pop that takes all of the stream's new data ends a block with them. -/
def SendStream.EndsBlock (s : SendStream) (conn : FlowController) (maxBytes : ℕ) : Prop :=
  (¬s.stopped ∧ s.retransmissionQueue = [] ∧ s.fec.transmissionQueue = []) ∧
    s.TakesAll conn maxBytes ∧ srcBlockSize ≤ s.fec.encQueue.length + s.pending

instance (s : SendStream) (conn : FlowController) (maxBytes : ℕ) :
    Decidable (s.EndsBlock conn maxBytes) :=
  inferInstanceAs (Decidable ((_ ∧ _ ∧ _) ∧ _ ∧ _))

structure SendStream.Scheduled (s : SendStream) (active : Prop) : Prop where
  encQueue : s.fec.encQueue.length < srcBlockSize
  shutdown : s.closeForShutdownErr = true → s.closedForShutdown = true
  active : s.canceledWrite = false → s.closedForShutdown = false →
    s.fec.transmissionQueue ≠ [] → active

namespace Connection

/- The turn that comes next does not end a block with the last data of its stream. -/
def Keeps (c : Connection) : Label → Prop
  | .appendNext => ∀ a ∈ c.appending, ∀ id ∈ c.framer.streamQueue.head?,
      ∀ s ∈ c.framer.streams id,
        ¬s.EndsBlock c.framer.conn (Framer.offered a.maxLen a.length)
  | _ => True

structure Inv (c : Connection) : Prop where
  streams : ∀ id s, c.framer.streams id = some s → s.Scheduled (id ∈ c.framer.activeStreams)
  queued : ∀ id ∈ c.framer.streamQueue, id ∈ c.framer.activeStreams
  nodup : c.framer.streamQueue.Nodup

theorem init_inv : init.Inv := by
  refine ⟨?_, by simp [init], by simp [init]⟩
  intro id s hs
  simp only [init, Option.some.injEq] at hs
  subst hs
  exact ⟨(by decide : 0 < srcBlockSize), by simp [SendStream.new],
    by simp [SendStream.new, FecEncoder.new]⟩

variable {c c' : Connection} {id : ℕ} {s s' : SendStream}

theorem Inv.setStream (h : c.Inv) (hs : c.framer.streams id = some s) (hfec : s'.fec = s.fec)
    (hshut : s'.closeForShutdownErr = true → s'.closedForShutdown = true)
    (hcancel : s'.canceledWrite = false → s.canceledWrite = false)
    (hclosed : s'.closedForShutdown = false → s.closedForShutdown = false) :
    (c.setStream id s').Inv := by
  refine ⟨?_, h.queued, h.nodup⟩
  intro i r hr
  by_cases hi : i = id
  · subst hi
    simp only [Connection.setStream, Function.update_self, Option.some.injEq] at hr
    subst hr
    have hold := h.streams i s hs
    refine ⟨by rw [hfec]; exact hold.encQueue, hshut, ?_⟩
    intro h1 h2 h3
    rw [hfec] at h3
    exact hold.active (hcancel h1) (hclosed h2) h3
  · simp only [Connection.setStream, Function.update_of_ne hi] at hr
    exact h.streams i r hr

theorem Inv.setSame (h : c.Inv) (hs : c.framer.streams id = some s) (hfec : s'.fec = s.fec)
    (hflags : s.SameFlags s') : (c.setStream id s').Inv := by
  apply h.setStream hs hfec
  · intro herr
    rw [hflags.closeForShutdownErr] at herr
    rw [hflags.closedForShutdown]
    exact (h.streams id s hs).shutdown herr
  · rw [hflags.canceledWrite]
    exact fun h1 => h1
  · rw [hflags.closedForShutdown]
    exact fun h1 => h1

theorem Inv.addActiveStream (h : c.Inv) (id : ℕ) : (c.addActiveStream id).Inv := by
  unfold Connection.addActiveStream
  split
  · exact h
  rename_i hnew
  refine ⟨?_, ?_, ?_⟩
  · intro i r hr
    have hold := h.streams i r hr
    exact ⟨hold.encQueue, hold.shutdown,
      fun h1 h2 h3 => Finset.mem_insert_of_mem (hold.active h1 h2 h3)⟩
  · intro i hi
    rcases List.mem_append.mp hi with hi | hi
    · exact Finset.mem_insert_of_mem (h.queued i hi)
    · rw [List.mem_singleton.mp hi]
      exact Finset.mem_insert_self _ _
  · apply List.Nodup.append h.nodup (List.nodup_singleton id)
    intro i hi hid
    rw [List.mem_singleton.mp hid] at hi
    exact hnew (h.queued id hi)

theorem onStream_ok {k : SendStream → Except Stop Connection} (h : c.onStream id k = .ok c') :
    ∃ s, c.framer.streams id = some s ∧ k s = .ok c' := by
  unfold onStream at h
  split at h
  · cases h
  · exact ⟨_, ‹_›, h⟩

end Connection

namespace SendStream
variable (s : SendStream)

theorem buffer_same : s.buffer.fec = s.fec ∧ s.SameFlags s.buffer := by
  unfold buffer
  split <;> split <;> exact ⟨rfl, rfl, rfl, rfl, rfl⟩

theorem writeTurn_same (b : Bool) : (s.writeTurn b).fec = s.fec ∧ s.SameFlags (s.writeTurn b) := by
  obtain ⟨hfec, hflags⟩ := s.buffer_same
  unfold writeTurn
  split
  · exact ⟨hfec, hflags.streamID, hflags.canceledWrite, hflags.closedForShutdown,
      hflags.closeForShutdownErr⟩
  · split <;> exact ⟨rfl, rfl, rfl, rfl, rfl⟩

theorem write_same (p : Bytes) : (s.write p).fec = s.fec ∧ s.SameFlags (s.write p) := by
  unfold write
  split
  · exact ⟨rfl, .refl s⟩
  · obtain ⟨hfec, hflags⟩ := { s with dataForWriting := p }.writeTurn_same false
    exact ⟨hfec, hflags.streamID, hflags.canceledWrite, hflags.closedForShutdown,
      hflags.closeForShutdownErr⟩

end SendStream

namespace SendStream
variable {s s' : SendStream} {conn : FlowController} {maxBytes : ℕ} {f : Option Frame} {more : Bool}

theorem Scheduled.pop (h : s.Scheduled True) (hpops : s.Pops conn maxBytes s' f more)
    (hkeep : ¬s.EndsBlock conn maxBytes) : s'.Scheduled (more = true) := by
  have hstop : s.stopped → s.canceledWrite = false → s.closedForShutdown = false → False := by
    intro hs h1 h2
    rcases hs with hs | hs
    · rw [hs] at h1
      cases h1
    · rw [h.shutdown hs] at h2
      cases h2
  cases hpops with
  | nothing flags fec next last =>
    refine ⟨by rw [fec]; exact h.encQueue, ?_, ?_⟩
    · rw [flags.closeForShutdownErr, flags.closedForShutdown]
      exact h.shutdown
    · rw [flags.canceledWrite, flags.closedForShutdown, fec]
      intro h1 h2 h3
      by_contra hmore
      exact h3 (last (by simpa using hmore) (fun hs => hstop hs h1 h2))
  | retransmitted flags fec next length =>
    refine ⟨by rw [fec]; exact h.encQueue, ?_, fun _ _ _ => rfl⟩
    rw [flags.closeForShutdownErr, flags.closedForShutdown]
    exact h.shutdown
  | fec flags next enc last =>
    refine ⟨by rw [enc]; exact h.encQueue, ?_, ?_⟩
    · rw [flags.closeForShutdownErr, flags.closedForShutdown]
      exact h.shutdown
    · rw [flags.canceledWrite, flags.closedForShutdown]
      intro h1 h2 _
      by_contra hmore
      exact hstop (last (by simpa using hmore)) h1 h2
  | new flags next live retr empty push length last =>
    rename_i frame b
    have henc := h.encQueue
    have hbuf := frame.le
    by_cases hblock : s.fec.encQueue.length + frame.frame.data.length < srcBlockSize
    · -- the block is not complete, so no FEC frame is queued
      rw [pushToEncode_short hblock] at push
      simp only [Except.ok.injEq, Prod.mk.injEq] at push
      refine ⟨?_, ?_, ?_⟩
      · rw [← push.1]
        simpa using hblock
      · rw [flags.closeForShutdownErr, flags.closedForShutdown]
        exact h.shutdown
      · intro _ _ h3
        rw [← push.1] at h3
        exact absurd empty h3
    · obtain ⟨fec, b, hpush, -, hdrop⟩ := pushToEncode_full (Nat.le_of_not_lt hblock)
      rw [push] at hpush
      simp only [Except.ok.injEq, Prod.mk.injEq] at hpush
      refine ⟨?_, ?_, ?_⟩
      · rw [hpush.1, hdrop, List.length_drop, List.length_append]
        have hsize : srcBlockSize = 16384 := by decide
        unfold maxPacketBufferSize at hbuf
        omega
      · rw [flags.closeForShutdownErr, flags.closedForShutdown]
        exact h.shutdown
      · intro _ _ _
        by_contra hmore
        rcases last (by simpa using hmore) with hnil | ⟨hall, hpend⟩
        · rw [hnil] at hblock
          exact hblock henc
        · exact hkeep ⟨⟨live, retr, empty⟩, hall, by omega⟩

end SendStream

namespace Connection
variable {c c' : Connection} {a : Label}

theorem Inv.turn (h : c.Inv) {maxLen length : ℕ} {framer : Framer} {f : Option Frame}
    (hroom : minStreamFrameSize + length ≤ maxLen)
    (hkeep : ∀ id ∈ c.framer.streamQueue.head?, ∀ s ∈ c.framer.streams id,
      ¬s.EndsBlock c.framer.conn (Framer.offered maxLen length))
    (ht : c.framer.turn maxLen length = .ok (framer, f)) (appending : Option Appending) :
    { c with framer := framer, appending := appending }.Inv := by
  unfold Framer.turn at ht
  split at ht
  · cases ht
  rename_i id rest hq
  have hnodup := h.nodup
  rw [hq, List.nodup_cons] at hnodup
  have hid : id ∈ c.framer.activeStreams := h.queued id (by simp [hq])
  have hrest : ∀ i ∈ rest, i ∈ c.framer.activeStreams.erase id := by
    intro i hi
    refine Finset.mem_erase.mpr ⟨?_, h.queued i (by simp [hq, hi])⟩
    intro heq
    exact hnodup.1 (heq ▸ hi)
  split at ht
  · rename_i hnone
    cases ht
    refine ⟨?_, hrest, hnodup.2⟩
    intro i r hr
    have hold := h.streams i r hr
    refine ⟨hold.encQueue, hold.shutdown, fun h1 h2 h3 => ?_⟩
    refine Finset.mem_erase.mpr ⟨?_, hold.active h1 h2 h3⟩
    intro heq
    subst heq
    simp only at hr
    rw [hnone] at hr
    cases hr
  rename_i s hs
  have hmin := Framer.minStreamFrameSize_le_offered hroom
  rcases s.popStreamFrame_pops c.framer.conn hmin with
    ⟨_, herr, -⟩ | ⟨s', conn, f', more, hpop, hpops⟩
  · rw [herr] at ht
    cases ht
  rw [hpop] at ht
  cases ht
  have hold := h.streams id s hs
  have hpopped := SendStream.Scheduled.pop ⟨hold.encQueue, hold.shutdown, fun _ _ _ => trivial⟩
    hpops (hkeep id (by simp [hq]) s hs)
  refine ⟨?_, ?_, ?_⟩
  · intro i r hr
    by_cases hi : i = id
    · subst hi
      simp only [Function.update_self, Option.some.injEq] at hr
      subst hr
      refine ⟨hpopped.encQueue, hpopped.shutdown, fun h1 h2 h3 => ?_⟩
      simp only [hpopped.active h1 h2 h3, if_true]
      exact hid
    · simp only [Function.update_of_ne hi] at hr
      have hother := h.streams i r hr
      refine ⟨hother.encQueue, hother.shutdown, fun h1 h2 h3 => ?_⟩
      have hact := hother.active h1 h2 h3
      cases more with
      | true => exact hact
      | false => exact Finset.mem_erase.mpr ⟨hi, hact⟩
  · cases more with
    | true =>
      intro i hi
      rcases List.mem_append.mp hi with hi | hi
      · exact h.queued i (by simp [hq, hi])
      · rw [List.mem_singleton.mp hi]
        exact hid
    | false => exact hrest
  · cases more with
    | true =>
      apply List.Nodup.append hnodup.2 (List.nodup_singleton id)
      intro i hi hi'
      rw [List.mem_singleton.mp hi'] at hi
      exact hnodup.1 hi
    | false => exact hnodup.2

theorem Inv.step (h : c.Inv) (hkeep : c.Keeps a) (hstep : c.step a = .ok c') : c'.Inv := by
  cases a with
  | write id p =>
    obtain ⟨s, hs, hk⟩ := onStream_ok hstep
    split at hk
    · cases hk
      exact h.setSame hs (s.write_same p).1 (s.write_same p).2
    · cases hk
  | writeNotifies id =>
    obtain ⟨s, hs, hk⟩ := onStream_ok hstep
    split at hk
    · cases hk
      apply Inv.addActiveStream
      exact h.setSame hs rfl ⟨rfl, rfl, rfl, rfl⟩
    · cases hk
  | writeWakes id =>
    obtain ⟨s, hs, hk⟩ := onStream_ok hstep
    split at hk
    · cases hk
      obtain ⟨hfec, hflags⟩ := { s with writeChan := false }.writeTurn_same true
      exact h.setSame hs hfec ⟨hflags.streamID, hflags.canceledWrite, hflags.closedForShutdown,
        hflags.closeForShutdownErr⟩
    · cases hk
  | close id =>
    obtain ⟨s, hs, hk⟩ := onStream_ok hstep
    split at hk
    · cases hk
      exact h
    · cases hk
      have hset : (c.setStream id { s with finishedWriting := true }).Inv :=
        h.setSame hs rfl ⟨rfl, rfl, rfl, rfl⟩
      exact ⟨hset.streams, hset.queued, hset.nodup⟩
  | queueRetransmission id f =>
    obtain ⟨s, hs, hk⟩ := onStream_ok hstep
    split at hk
    · cases hk
      exact h
    split at hk
    · cases hk
    · cases hk
      have hset : (c.setStream id { s with
          retransmissionQueue := s.retransmissionQueue ++ [f]
          numOutstandingFrames := s.numOutstandingFrames - 1 }).Inv :=
        h.setSame hs rfl ⟨rfl, rfl, rfl, rfl⟩
      exact ⟨hset.streams, hset.queued, hset.nodup⟩
  | cancelWrite id =>
    obtain ⟨s, hs, hk⟩ := onStream_ok hstep
    cases hk
    unfold SendStream.cancelWriteImpl
    split
    · exact h.setSame hs rfl (.refl s)
    · apply h.setStream hs
      · rfl
      · exact (h.streams id s hs).shutdown
      · intro hfalse
        cases hfalse
      · exact fun h1 => h1
  | closeForShutdown id err =>
    obtain ⟨s, hs, hk⟩ := onStream_ok hstep
    cases hk
    apply h.setStream hs
    · rfl
    · exact fun _ => rfl
    · exact fun h1 => h1
    · intro hfalse
      cases hfalse
  | readStreamData id limit =>
    obtain ⟨s, hs, hk⟩ := onStream_ok hstep
    cases hk
    exact ⟨h.streams, h.queued, h.nodup⟩
  | updateSendWindow u =>
    obtain ⟨s, hs, hk⟩ := onStream_ok hstep
    split at hk
    · cases hk
      have hset : (c.setStream u.id { s with
          flowController := s.flowController.updateSendWindow u.limit }).Inv :=
        h.setSame hs rfl ⟨rfl, rfl, rfl, rfl⟩
      exact ⟨hset.streams, hset.queued, hset.nodup⟩
    · cases hk
  | handleMaxData limit =>
    cases hstep
    exact ⟨h.streams, h.queued, h.nodup⟩
  | onHasStreamData id =>
    simp only [Connection.step] at hstep
    split at hstep
    · cases hstep
      apply Inv.addActiveStream
      exact ⟨h.streams, h.queued, h.nodup⟩
    · cases hstep
  | appendBegin maxLen =>
    simp only [Connection.step] at hstep
    split at hstep
    · cases hstep
      exact ⟨h.streams, h.queued, h.nodup⟩
    · cases hstep
  | appendNext =>
    simp only [Connection.step] at hstep
    split at hstep
    · rename_i maxLen turns frames length happ
      split at hstep
      · cases hstep
      rename_i hroom
      split at hstep
      · cases hstep
      · rename_i framer f ht
        cases hstep
        exact h.turn (Nat.le_of_not_lt hroom) (hkeep _ happ) ht _
    · cases hstep
  | appendEnd =>
    simp only [Connection.step] at hstep
    split at hstep
    · split at hstep
      · cases hstep
        exact ⟨h.streams, h.queued, h.nodup⟩
      · cases hstep
    · cases hstep

/- In every run without a turn that ends a block with the last data of its stream, a live stream
outside `activeStreams` has no FEC frame left. -/
theorem no_fec_frame_stranded {as : List Label} {c : Connection} (hrun : Run step Keeps init as c)
    {id : ℕ} {s : SendStream} (hs : c.framer.streams id = some s)
    (hcancel : s.canceledWrite = false) (hclosed : s.closedForShutdown = false)
    (hid : id ∉ c.framer.activeStreams) : s.fec.transmissionQueue = [] := by
  have hinv : c.Inv := hrun.invariant Inv init_inv fun _ _ _ h hkeep hstep => h.step hkeep hstep
  by_contra hne
  exact hid ((hinv.streams id s hs).active hcancel hclosed hne)

def shortWrite : List Label :=
  [.readStreamData 0 1000, .updateSendWindow ⟨0, 1000, false⟩, .handleMaxData 1000,
    .write 0 [1, 2, 3], .writeNotifies 0, .appendBegin 1200, .appendNext, .appendEnd]

instance (c : Connection) (a : Label) : Decidable (c.Keeps a) :=
  match a with
  | .appendNext => inferInstanceAs (Decidable (∀ a ∈ c.appending,
      ∀ id ∈ c.framer.streamQueue.head?, ∀ s ∈ c.framer.streams id,
        ¬s.EndsBlock c.framer.conn (Framer.offered a.maxLen a.length)))
  | .write _ _ | .writeNotifies _ | .writeWakes _ | .close _ | .queueRetransmission _ _
  | .cancelWrite _ | .closeForShutdown _ _ | .readStreamData _ _ | .updateSendWindow _
  | .handleMaxData _ | .onHasStreamData _ | .appendBegin _ | .appendEnd => .isTrue trivial

def sentShort (c : Connection) : Bool :=
  match c.framer.streams 0 with
  | none => false
  | some s => s.writeOffset = 3 ∧ s.canceledWrite = false ∧ s.closedForShutdown = false ∧
      0 ∉ c.framer.activeStreams

theorem no_fec_frame_stranded_short : ∃ c s, Run step Keeps init shortWrite c ∧
    c.framer.streams 0 = some s ∧ s.writeOffset = 3 ∧ s.fec.transmissionQueue = [] := by
  obtain ⟨c, hrun, hsent⟩ := Run.exists_of_exec step init shortWrite sentShort
    (show Guarded step Keeps init shortWrite by decide +kernel) (by decide +kernel)
  unfold sentShort at hsent
  split at hsent
  · cases hsent
  rename_i s hs
  obtain ⟨hoff, hcancel, hclosed, hid⟩ := of_decide_eq_true hsent
  exact ⟨c, s, hrun, hs, hoff, no_fec_frame_stranded hrun hs hcancel hclosed hid⟩

end Connection

/-! ### A block that ends with the last data -/

theorem SendStream.popStreamFrame_last {s : SendStream} {conn : FlowController} {maxBytes : ℕ}
    {f : PooledFrame} {fec : FecEncoder} {b : Option Bytes} (hs : ¬s.stopped)
    (hretr : s.retransmissionQueue = []) (hq : s.fec.transmissionQueue = [])
    (hdata : s.dataForWriting = []) (hnext : s.nextFrame = some f)
    (hfin : s.finishedWriting = false) (hff : f.frame.fin = false)
    (hpos : 0 < s.sendWindowSize conn) (hwindow : f.frame.data.length ≤ s.sendWindowSize conn)
    (hfit : f.frame.data.length ≤ maxDataLen f.frame.streamID f.frame.offset maxBytes)
    (hpush : s.fec.pushToEncode f.frame = .ok (fec, b)) :
    s.popStreamFrame conn maxBytes = .ok ({ s with
        numOutstandingFrames := s.numOutstandingFrames + 1
        nextFrame := none
        writeChan := true
        writeOffset := s.writeOffset + f.frame.data.length
        flowController := s.flowController.addBytesSent f.frame.data.length
        fec := fec },
      conn.addBytesSent f.frame.data.length, some (.stream f true), false) := by
  have hpop : s.popNextFrame f maxBytes (s.sendWindowSize conn) =
      ({ s with nextFrame := none, writeChan := true }, f, false) := by
    simp only [popNextFrame]
    rw [if_neg (by omega), hdata]
    rfl
  have hset : f.setFin false = f := by
    cases f with
    | mk frame le =>
      cases frame with
      | mk id offset data fin =>
        simp only at hff
        subst hff
        rfl
  have hr : s.popNewOrRetransmittedStreamFrame conn maxBytes = .ok
      ⟨{ s with
          nextFrame := none
          writeChan := true
          writeOffset := s.writeOffset + f.frame.data.length
          flowController := s.flowController.addBytesSent f.frame.data.length },
        conn.addBytesSent f.frame.data.length, some f, false, false⟩ := by
    rw [popNewOrRetransmittedStreamFrame, if_neg hs, if_neg (by simpa using hretr),
      if_neg (by simpa using hq), if_neg (by simp [hnext]), if_neg (by omega)]
    simp [popNew, popNewStreamFrame, hnext, hpop, hfin, hset]
  simp only [popStreamFrame, hr, hpush, Bool.false_eq_true, if_false]

namespace Connection

def kilobyte : Bytes := List.replicate 1024 0

theorem kilobyte_length : kilobyte.length = 1024 := List.length_replicate

def sentStream (k : ℕ) (writeChan : Bool) : SendStream :=
  { SendStream.new 0 with
    numOutstandingFrames := k
    writeOffset := 1024 * k
    writeChan := writeChan
    flowController := ⟨1024 * k, 16384, 0⟩
    fec := ⟨List.replicate (1024 * k) 0, 0, 0, []⟩ }

structure Sent (k : ℕ) (c : Connection) : Prop where
  stream : ∃ b, c.framer.streams 0 = some (sentStream k b)
  conn : c.framer.conn = ⟨1024 * k, 16384, 0⟩
  inactive : c.framer.activeStreams = ∅
  queue : c.framer.streamQueue = []
  appending : c.appending = none

def round : List Label :=
  [.write 0 kilobyte, .writeNotifies 0, .appendBegin 1200, .appendNext, .appendEnd]

def kilobyteFrame (k : ℕ) : PooledFrame :=
  ⟨⟨0, 1024 * k, kilobyte, false⟩, by
    rw [kilobyte_length]
    decide⟩

theorem write_kilobyte (k : ℕ) (b : Bool) : (sentStream k b).write kilobyte =
    { sentStream k b with nextFrame := some (kilobyteFrame k), writer := .notifying true } := by
  have hne : kilobyte ≠ [] := by
    apply List.length_pos_iff.mp
    rw [kilobyte_length]
    decide
  have hle : kilobyte.length ≤ maxPacketBufferSize := by
    rw [kilobyte_length]
    decide
  simp [SendStream.write, SendStream.writeTurn, SendStream.canBufferStreamFrame,
    SendStream.buffer, sentStream, SendStream.new, hne, hle, kilobyteFrame]

def buffered (k : ℕ) (b : Bool) : SendStream :=
  { sentStream k b with nextFrame := some (kilobyteFrame k) }

variable {k : ℕ} {fec : FecEncoder} {block : Option Bytes} {c : Connection}

theorem pop_buffered (hk : k < 16) (b : Bool)
    (hpush : (sentStream k b).fec.pushToEncode (kilobyteFrame k).frame = .ok (fec, block)) :
    (buffered k b).popStreamFrame ⟨1024 * k, 16384, 0⟩ (Framer.offered 1200 0) =
      .ok ({ sentStream (k + 1) true with fec := fec }, ⟨1024 * (k + 1), 16384, 0⟩,
        some (.stream (kilobyteFrame k) true), false) := by
  have hwin : (buffered k b).sendWindowSize ⟨1024 * k, 16384, 0⟩ = 16384 - 1024 * k := by
    simp [SendStream.sendWindowSize, FlowController.sendWindowSize, buffered, sentStream]
  have hlen : (kilobyteFrame k).frame.data.length = 1024 := kilobyte_length
  have hfit : (kilobyteFrame k).frame.data.length ≤ maxDataLen (kilobyteFrame k).frame.streamID
      (kilobyteFrame k).frame.offset (Framer.offered 1200 0) := by
    have hhdr := headerLen_le (kilobyteFrame k).frame.streamID (kilobyteFrame k).frame.offset
    have hoff : Framer.offered 1200 0 = 1202 := by decide
    rw [hlen, hoff]
    simp only [maxDataLen]
    split_ifs <;> omega
  have hlast := SendStream.popStreamFrame_last (s := buffered k b)
    (by simp [SendStream.stopped, buffered, sentStream, SendStream.new]) rfl rfl rfl rfl rfl rfl
    (by rw [hwin]; omega) (by rw [hwin, hlen]; omega) hfit hpush
  rw [hlast, hlen]
  simp [buffered, sentStream, SendStream.new, FlowController.addBytesSent, Nat.mul_succ]

theorem Sent.round (h : Sent k c) (hk : k < 16)
    (hpush : (sentStream k true).fec.pushToEncode (kilobyteFrame k).frame = .ok (fec, block)) :
    ∃ c', Run step always c Connection.round c' ∧
      c'.framer.streams 0 = some { sentStream (k + 1) true with fec := fec } ∧
      c'.framer.conn = ⟨1024 * (k + 1), 16384, 0⟩ ∧ c'.framer.activeStreams = ∅ ∧
      c'.framer.streamQueue = [] ∧ c'.appending = none := by
  obtain ⟨b, hs⟩ := h.stream
  have hpop := pop_buffered hk b hpush
  have hexec : ∃ c', exec step c Connection.round = .ok c' ∧
      c'.framer.streams 0 = some { sentStream (k + 1) true with fec := fec } ∧
      c'.framer.conn = ⟨1024 * (k + 1), 16384, 0⟩ ∧ c'.framer.activeStreams = ∅ ∧
      c'.framer.streamQueue = [] ∧ c'.appending = none := by
    have hidle : (sentStream k b).writer = .idle := rfl
    have hbuf : { sentStream k b with
        nextFrame := some (kilobyteFrame k), writer := Writer.idle } = buffered k b := rfl
    simp [exec, Connection.round, step, onStream, hs, hidle, write_kilobyte, Connection.setStream,
      Connection.addActiveStream, h.inactive, h.queue, h.appending, h.conn, Framer.turn,
      hbuf, hpop, minStreamFrameSize]
  obtain ⟨c', hok, hrest⟩ := hexec
  exact ⟨c', Run.of_exec _ (Guarded.always _) hok, hrest⟩

theorem Sent.next (h : Sent k c) (hk : k < 15) :
    ∃ c', Run step always c Connection.round c' ∧ Sent (k + 1) c' := by
  have hshort : (sentStream k true).fec.encQueue.length + (kilobyteFrame k).frame.data.length <
      srcBlockSize := by
    have hsize : srcBlockSize = 16384 := by decide
    have hlen : (kilobyteFrame k).frame.data.length = 1024 := kilobyte_length
    rw [hlen, hsize]
    simp only [sentStream, List.length_replicate]
    omega
  obtain ⟨c', hrun, hs, hconn, hact, hqueue, happ⟩ := h.round (by omega) (pushToEncode_short hshort)
  refine ⟨c', hrun, ⟨true, ?_⟩, hconn, hact, hqueue, happ⟩
  have henc : (sentStream k true).fec.encQueue ++ (kilobyteFrame k).frame.data =
      (sentStream (k + 1) true).fec.encQueue := List.replicate_append_replicate
  -- the block starts at the first frame, and `endOffset` is still 0
  have hstart : (if (sentStream k true).fec.encQueue.length = 0 then (kilobyteFrame k).frame.offset
      else (sentStream k true).fec.endOffset) = 0 := by
    split
    · rename_i hzero
      simp only [sentStream, List.length_replicate] at hzero
      exact hzero
    · rfl
  rw [hs, henc, hstart]
  rfl

theorem sent_of_lt (k : ℕ) (hk : k ≤ 15) : ∃ as c, Run step always init as c ∧ Sent k c := by
  induction k with
  | zero =>
    have hexec : ∃ c, exec step init [.readStreamData 0 16384, .updateSendWindow ⟨0, 16384, false⟩,
        .handleMaxData 16384] = .ok c ∧ Sent 0 c := by
      refine ⟨_, rfl, ⟨false, rfl⟩, rfl, rfl, rfl, rfl⟩
    obtain ⟨c, hok, hsent⟩ := hexec
    exact ⟨_, c, Run.of_exec _ (Guarded.always _) hok, hsent⟩
  | succ k ih =>
    obtain ⟨as, c, hrun, hsent⟩ := ih (by omega)
    obtain ⟨c', hround, hsent'⟩ := hsent.next (by omega)
    exact ⟨_, c', hrun.append hround, hsent'⟩

/- The sixteenth kilobyte completes the block after the stream has said that it has no more. -/
theorem fec_frames_stranded : ∃ as c s, Run step always init as c ∧
    c.framer.streams 0 = some s ∧ s.canceledWrite = false ∧ s.closedForShutdown = false ∧
    0 ∉ c.framer.activeStreams ∧ s.fec.transmissionQueue ≠ [] := by
  obtain ⟨as, c, hrun, hsent⟩ := sent_of_lt 15 (le_refl _)
  have hfull : srcBlockSize ≤
      (sentStream 15 true).fec.encQueue.length + (kilobyteFrame 15).frame.data.length := by
    have hsize : srcBlockSize = 16384 := by decide
    have hlen : (kilobyteFrame 15).frame.data.length = 1024 := kilobyte_length
    rw [hlen, hsize]
    simp only [sentStream, List.length_replicate]
    omega
  obtain ⟨fec, block, hpush, hne, -⟩ := pushToEncode_full hfull
  obtain ⟨c', hround, hs, -, hact, -, -⟩ := hsent.round (by omega) hpush
  refine ⟨_, c', _, hrun.append hround, hs, rfl, rfl, ?_, hne⟩
  rw [hact]
  exact Finset.notMem_empty 0

end Connection

end Mp2bs.Quic
