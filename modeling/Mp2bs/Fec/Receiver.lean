import Mp2bs.Fec.Decode
import Mp2bs.Fec.Handler

/-!
# The goroutines of the FEC receive path

`enhanced-quic/receive_stream.go:278-419`, `fec/fec_handler.go:171-322` and
`fec/fec_buffer.go:63-79, 306-332` for one stream: the frame handler, which holds
`receiveStream.mutex` from `arrive` to `release`; `decode`, which holds `FecHandler.mutex` from
`work` to `destroy`; a timer goroutine for each buffer; and `pushFecDecodedFrame`. A step is
what a goroutine does between two operations that can wait, so the critical sections of
`pushFecDecodedFrame` and of the frame handler under `FecHandler.mutex` are one step each.
-/

namespace Mp2bs.Fec
open Mp2bs.Lib.Machine

-- streamFinChan, enoughRecvChan, timeoutChan and finalChan, fec_handler.go:61-64
inductive Chan
  | streamFin
  | enough
  | timeout
  | final
  deriving Repr, DecidableEq

def Chan.cap : Chan → ℕ
  | .final => 1
  | _ => 50

-- FecChan and FecChanFinal, fec_handler.go:65-66
def fecChanCap : ℕ := 50
def fecChanFinalCap : ℕ := 1

-- the goroutine of Init, fec_buffer.go:66-77
inductive Timer
  | waiting
  | fired
  | sent
  | ended
  | stopped
  deriving Repr, DecidableEq

namespace Push

def streamID : Push → ℕ
  | .stream frame _ => frame.streamID
  | .fec frame => frame.streamID

def offset : Push → ℕ
  | .stream frame _ => frame.offset
  | .fec frame => frame.streamOffset

def fin : Push → Bool
  | .stream frame _ => frame.fin
  | .fec _ => false

def isFec : Push → Bool
  | .stream _ _ => false
  | .fec _ => true

end Push

inductive FrameHandler
  | idle
  | locked (frame : Push)
  | check (id : ℕ) (frame : Push)
  | send (id : ℕ) (c : Chan) (frame : Push)
  | mark (id : ℕ) (frame : Push)
  | release (frame : Push)
  deriving Repr, DecidableEq

inductive Decode
  | idle
  | final (id : ℕ)
  | lock (id : ℕ) (c : Chan)
  | put (id : ℕ) (c : Chan) (frames : List (StreamFrame × ℕ))
  | destroy (id : ℕ) (c : Chan)
  | ended
  deriving Repr, DecidableEq

inductive Consumer
  | notStarted
  | waiting
  | got (frame : StreamFrame)
  | ended
  deriving Repr, DecidableEq

/- `received` and `delivered` are histories: what `decode` took from the four channels, and the
frames that it put on `FecChan`. -/
structure Receiver where
  handler : FecHandler
  timers : List Timer
  chan : Chan → List ℕ
  fecChan : List StreamFrame
  fecChanFinal : ℕ
  frameHandler : FrameHandler
  decode : Decode
  consumer : Consumer
  received : List (ℕ × Chan)
  delivered : List StreamFrame

-- CheckDecodingPossible, fec_buffer.go:306-321
def FecBuffer.checkDecodingPossible (b : FecBuffer) (fin : Bool) : Option Chan :=
  if b.decodeStarted then none
  else if srcBlockSize ≤ b.streamFrameDataLength then some .streamFin
  else if recvSizeForDecode ≤ b.streamFrameDataLength + b.fecFrameDataLength then some .enough
  else if fin then some .final
  else none

/- `streamRecvComplete` of `decode`. -/
def Chan.complete : Chan → Bool
  | .streamFin | .final => true
  | .enough | .timeout => false

def Decode.holdsMutex : Decode → Bool
  | .put .. | .destroy .. => true
  | _ => false

-- the body of decode under the mutex up to the frames, fec_handler.go:242-304
def FecHandler.work (f : FecHandler) (id : ℕ) (c : Chan) :
    Except Stop (FecHandler × List (StreamFrame × ℕ)) :=
  match f.buffers[id]? with
  | none => .error .panic
  | some b => match f.updateWindow b with
    | .error stop => .error stop
    | .ok f =>
      if c.complete then .ok (f, [])
      else match b.decodeBlock with
        | .error stop => .error stop
        | .ok (b, frames) => .ok (f.setBuffer id b, frames)

namespace Receiver

inductive Label
  -- the frame handler
  | arrive (frame : Push)
  | push
  | check
  | send
  | mark
  | release
  -- decode
  | take (c : Chan)
  | final
  | work
  | put
  | delete
  | destroy
  -- the timer goroutines
  | fire (id : ℕ)
  | timeout (id : ℕ)
  | expired (id : ℕ)
  -- pushFecDecodedFrame
  | recv
  | recvFinal
  | store
  | storeErr
  deriving Repr, DecidableEq

def init : Receiver where
  handler := .new
  timers := []
  chan := fun _ => []
  fecChan := []
  fecChanFinal := 0
  frameHandler := .idle
  decode := .idle
  consumer := .notStarted
  received := []
  delivered := []

def enqueue (s : Receiver) (c : Chan) (id : ℕ) : Receiver :=
  { s with chan := Function.update s.chan c (s.chan c ++ [id]) }

def setStarted (s : Receiver) (id : ℕ) (b : FecBuffer) : Receiver :=
  { s with handler := s.handler.setBuffer id { b with decodeStarted := true } }

def setTimer (s : Receiver) (id : ℕ) (t : Timer) : Receiver :=
  { s with timers := s.timers.set id t }

/- Each buffer that was made has a timer (`fec_buffer.go:65-77`). -/
def withHandler (s : Receiver) (f : FecHandler) : Receiver :=
  { s with
    handler := f
    timers := s.timers ++ List.replicate (f.buffers.length - s.handler.buffers.length) .waiting }

-- PushStreamFrameToDecode and PushFecFrameToDecode under the mutex, fec_handler.go:171-182 and
-- 192-203
def pushFrame (streamID : ℕ) (s : Receiver) (frame : Push) : Except Stop Receiver :=
  match s.handler.getOrCreateFecBuffer streamID frame.offset with
  | (_, none) => .ok { s with frameHandler := .release frame }
  | (f, some id) => match f.buffers[id]? with
    | none => .error .panic
    | some b => match b.push frame with
      | .error stop => .error stop
      | .ok b => .ok { s.withHandler (f.setBuffer id b) with frameHandler := .check id frame }

def step (streamID : ℕ) (s : Receiver) : Label → Except Stop Receiver
  | .arrive frame =>
    if s.frameHandler = .idle ∧ frame.streamID = streamID then
      .ok { s with frameHandler := .locked frame }
    else .error .blocked
  | .push => match s.frameHandler with
    | .locked frame =>
      if s.decode.holdsMutex then .error .blocked else s.pushFrame streamID frame
    | _ => .error .blocked
  | .check => match s.frameHandler with
    | .check id frame => match s.handler.buffers[id]? with
      | none => .error .panic
      | some b => match b.checkDecodingPossible frame.fin with
        | none => .ok { s with frameHandler := .release frame }
        | some c => .ok { s with frameHandler := .send id c frame }
    | _ => .error .blocked
  | .send => match s.frameHandler with
    | .send id c frame =>
      if (s.chan c).length < c.cap then .ok { s.enqueue c id with frameHandler := .mark id frame }
      else .error .blocked
    | _ => .error .blocked
  | .mark => match s.frameHandler with
    | .mark id frame => match s.handler.buffers[id]? with
      | none => .error .panic
      | some b => .ok { s.setStarted id b with frameHandler := .release frame }
    | _ => .error .blocked
  | .release => match s.frameHandler with
    | .release frame => .ok { s with
        frameHandler := .idle
        -- handleFecFrame starts pushFecDecodedFrame once, receive_stream.go:347-350
        consumer := if frame.isFec ∧ s.consumer = .notStarted then .waiting else s.consumer }
    | _ => .error .blocked
  | .take c => match s.decode, s.chan c with
    | .idle, id :: rest => .ok { s with
        chan := Function.update s.chan c rest
        decode := if c = .final then .final id else .lock id c
        received := s.received ++ [(id, c)] }
    | _, _ => .error .blocked
  | .final => match s.decode with
    | .final id =>
      if s.fecChanFinal < fecChanFinalCap then .ok { s with
        fecChanFinal := s.fecChanFinal + 1
        decode := .lock id .final }
      else .error .blocked
    | _ => .error .blocked
  | .work => match s.decode with
    | .lock id c => match s.handler.work id c with
      | .error stop => .error stop
      | .ok (f, frames) => .ok { s with handler := f, decode := .put id c frames }
    | _ => .error .blocked
  | .put => match s.decode with
    | .put id c (frame :: frames) =>
      if s.fecChan.length < fecChanCap then .ok { s with
        fecChan := s.fecChan ++ [frame.1]
        delivered := s.delivered ++ [frame.1]
        decode := .put id c frames }
      else .error .blocked
    | _ => .error .blocked
  | .delete => match s.decode with
    | .put id c [] => match s.handler.buffers[id]? with
      | none => .error .panic
      | some b => .ok { s with handler := s.handler.deleteBuffer b, decode := .destroy id c }
    | _ => .error .blocked
  | .destroy => match s.decode with
    | .destroy id c =>
      -- the send on timerStop needs the timer goroutine in its select, fec_buffer.go:330
      if s.timers[id]? = some .waiting then .ok { s.setTimer id .stopped with
        decode := if c = .final then .ended else .idle }
      else .error .blocked
    | _ => .error .blocked
  | .fire id =>
    if s.timers[id]? = some .waiting then .ok (s.setTimer id .fired) else .error .blocked
  | .timeout id =>
    if s.timers[id]? = some .fired ∧ (s.chan .timeout).length < Chan.timeout.cap then
      .ok ((s.enqueue .timeout id).setTimer id .sent)
    else .error .blocked
  | .expired id => match s.timers[id]?, s.handler.buffers[id]? with
    | some .sent, some b => .ok ((s.setStarted id b).setTimer id .ended)
    | _, _ => .error .blocked
  | .recv => match s.consumer, s.fecChan with
    | .waiting, frame :: frames => .ok { s with fecChan := frames, consumer := .got frame }
    | _, _ => .error .blocked
  | .recvFinal =>
    if s.consumer = .waiting ∧ 0 < s.fecChanFinal then
      .ok { s with fecChanFinal := s.fecChanFinal - 1, consumer := .ended }
    else .error .blocked
  | .store => match s.consumer with
    | .got _ =>
      if s.frameHandler = .idle then .ok { s with consumer := .waiting } else .error .blocked
    | _ => .error .blocked
  -- an error of frameQueue.Push ends the goroutine, receive_stream.go:407-410
  | .storeErr => match s.consumer with
    | .got _ =>
      if s.frameHandler = .idle then .ok { s with consumer := .ended } else .error .blocked
    | _ => .error .blocked

/- The steps that can be taken, with the state after them. -/
inductive Step (streamID : ℕ) : Receiver → Label → Receiver → Prop
  | arrive {s : Receiver} {frame : Push} (hidle : s.frameHandler = .idle)
      (hid : frame.streamID = streamID) :
      Step streamID s (.arrive frame) { s with frameHandler := .locked frame }
  | pushNone {s : Receiver} {frame : Push} {f : FecHandler} (hpc : s.frameHandler = .locked frame)
      (hfree : s.decode.holdsMutex = false)
      (hget : s.handler.getOrCreateFecBuffer streamID frame.offset = (f, none)) :
      Step streamID s .push { s with frameHandler := .release frame }
  | push {s : Receiver} {frame : Push} {f : FecHandler} {id : ℕ} {b b' : FecBuffer}
      (hpc : s.frameHandler = .locked frame) (hfree : s.decode.holdsMutex = false)
      (hget : s.handler.getOrCreateFecBuffer streamID frame.offset = (f, some id))
      (hb : f.buffers[id]? = some b) (hpush : b.push frame = .ok b') :
      Step streamID s .push
        { s.withHandler (f.setBuffer id b') with frameHandler := .check id frame }
  | checkNone {s : Receiver} {id : ℕ} {frame : Push} {b : FecBuffer}
      (hpc : s.frameHandler = .check id frame) (hb : s.handler.buffers[id]? = some b)
      (hcheck : b.checkDecodingPossible frame.fin = none) :
      Step streamID s .check { s with frameHandler := .release frame }
  | check {s : Receiver} {id : ℕ} {frame : Push} {b : FecBuffer} {c : Chan}
      (hpc : s.frameHandler = .check id frame) (hb : s.handler.buffers[id]? = some b)
      (hcheck : b.checkDecodingPossible frame.fin = some c) :
      Step streamID s .check { s with frameHandler := .send id c frame }
  | send {s : Receiver} {id : ℕ} {frame : Push} {c : Chan}
      (hpc : s.frameHandler = .send id c frame) (hroom : (s.chan c).length < c.cap) :
      Step streamID s .send { s.enqueue c id with frameHandler := .mark id frame }
  | mark {s : Receiver} {id : ℕ} {frame : Push} {b : FecBuffer}
      (hpc : s.frameHandler = .mark id frame) (hb : s.handler.buffers[id]? = some b) :
      Step streamID s .mark { s.setStarted id b with frameHandler := .release frame }
  | release {s : Receiver} {frame : Push} (hpc : s.frameHandler = .release frame) :
      Step streamID s .release { s with
        frameHandler := .idle
        consumer := if frame.isFec ∧ s.consumer = .notStarted then .waiting else s.consumer }
  | take {s : Receiver} {c : Chan} {id : ℕ} {rest : List ℕ} (hpc : s.decode = .idle)
      (hc : s.chan c = id :: rest) :
      Step streamID s (.take c) { s with
        chan := Function.update s.chan c rest
        decode := if c = .final then .final id else .lock id c
        received := s.received ++ [(id, c)] }
  | final {s : Receiver} {id : ℕ} (hpc : s.decode = .final id)
      (hroom : s.fecChanFinal < fecChanFinalCap) :
      Step streamID s .final { s with
        fecChanFinal := s.fecChanFinal + 1
        decode := .lock id .final }
  | work {s : Receiver} {id : ℕ} {c : Chan} {f : FecHandler} {frames : List (StreamFrame × ℕ)}
      (hpc : s.decode = .lock id c) (hwork : s.handler.work id c = .ok (f, frames)) :
      Step streamID s .work { s with handler := f, decode := .put id c frames }
  | put {s : Receiver} {id : ℕ} {c : Chan} {frame : StreamFrame × ℕ}
      {frames : List (StreamFrame × ℕ)} (hpc : s.decode = .put id c (frame :: frames))
      (hroom : s.fecChan.length < fecChanCap) :
      Step streamID s .put { s with
        fecChan := s.fecChan ++ [frame.1]
        delivered := s.delivered ++ [frame.1]
        decode := .put id c frames }
  | delete {s : Receiver} {id : ℕ} {c : Chan} {b : FecBuffer} (hpc : s.decode = .put id c [])
      (hb : s.handler.buffers[id]? = some b) :
      Step streamID s .delete
        { s with handler := s.handler.deleteBuffer b, decode := .destroy id c }
  | destroy {s : Receiver} {id : ℕ} {c : Chan} (hpc : s.decode = .destroy id c)
      (htimer : s.timers[id]? = some .waiting) :
      Step streamID s .destroy { s.setTimer id .stopped with
        decode := if c = .final then .ended else .idle }
  | fire {s : Receiver} {id : ℕ} (htimer : s.timers[id]? = some .waiting) :
      Step streamID s (.fire id) (s.setTimer id .fired)
  | timeout {s : Receiver} {id : ℕ} (htimer : s.timers[id]? = some .fired)
      (hroom : (s.chan .timeout).length < Chan.timeout.cap) :
      Step streamID s (.timeout id) ((s.enqueue .timeout id).setTimer id .sent)
  | expired {s : Receiver} {id : ℕ} {b : FecBuffer} (htimer : s.timers[id]? = some .sent)
      (hb : s.handler.buffers[id]? = some b) :
      Step streamID s (.expired id) ((s.setStarted id b).setTimer id .ended)
  | recv {s : Receiver} {frame : StreamFrame} {frames : List StreamFrame}
      (hpc : s.consumer = .waiting) (hc : s.fecChan = frame :: frames) :
      Step streamID s .recv { s with fecChan := frames, consumer := .got frame }
  | recvFinal {s : Receiver} (hpc : s.consumer = .waiting) (hc : 0 < s.fecChanFinal) :
      Step streamID s .recvFinal
        { s with fecChanFinal := s.fecChanFinal - 1, consumer := .ended }
  | store {s : Receiver} {frame : StreamFrame} (hpc : s.consumer = .got frame)
      (hidle : s.frameHandler = .idle) :
      Step streamID s .store { s with consumer := .waiting }
  | storeErr {s : Receiver} {frame : StreamFrame} (hpc : s.consumer = .got frame)
      (hidle : s.frameHandler = .idle) :
      Step streamID s .storeErr { s with consumer := .ended }

theorem pushFrame_step {streamID : ℕ} {s s' : Receiver} {frame : Push}
    (hpc : s.frameHandler = .locked frame) (hfree : s.decode.holdsMutex = false)
    (h : s.pushFrame streamID frame = .ok s') : Step streamID s .push s' := by
  unfold pushFrame at h
  rcases hget : s.handler.getOrCreateFecBuffer streamID frame.offset with ⟨f, r⟩
  rw [hget] at h
  cases r with
  | none =>
    cases h
    exact .pushNone hpc hfree hget
  | some id =>
    dsimp only at h
    cases hb : f.buffers[id]? with
    | none => simp [hb] at h
    | some b =>
      rw [hb] at h
      dsimp only at h
      cases hpush : b.push frame with
      | error stop => simp [hpush] at h
      | ok b' =>
        rw [hpush] at h
        cases h
        exact .push hpc hfree hget hb hpush

theorem Step.of_step {streamID : ℕ} {s s' : Receiver} {a : Label}
    (h : s.step streamID a = .ok s') : Step streamID s a s' := by
  cases a with
  | arrive frame =>
    simp only [step] at h
    split at h
    next hok =>
      cases h
      exact .arrive hok.1 hok.2
    next => cases h
  | push =>
    simp only [step] at h
    split at h
    next frame hpc =>
      split at h
      next => cases h
      next hfree => exact pushFrame_step hpc (Bool.not_eq_true _ ▸ hfree) h
    next => cases h
  | check =>
    simp only [step] at h
    split at h
    next id frame hpc =>
      split at h
      next => cases h
      next b hb =>
        split at h
        next hcheck =>
          cases h
          exact .checkNone hpc hb hcheck
        next c hcheck =>
          cases h
          exact .check hpc hb hcheck
    next => cases h
  | send =>
    simp only [step] at h
    split at h
    next id c frame hpc =>
      split at h
      next hroom =>
        cases h
        exact .send hpc hroom
      next => cases h
    next => cases h
  | mark =>
    simp only [step] at h
    split at h
    next id frame hpc =>
      split at h
      next => cases h
      next b hb =>
        cases h
        exact .mark hpc hb
    next => cases h
  | release =>
    simp only [step] at h
    split at h
    next frame hpc =>
      cases h
      exact .release hpc
    next => cases h
  | take c =>
    simp only [step] at h
    split at h
    next id rest hpc hc =>
      cases h
      exact .take hpc hc
    next => cases h
  | final =>
    simp only [step] at h
    split at h
    next id hpc =>
      split at h
      next hroom =>
        cases h
        exact .final hpc hroom
      next => cases h
    next => cases h
  | work =>
    simp only [step] at h
    split at h
    next id c hpc =>
      split at h
      next => cases h
      next f frames hwork =>
        cases h
        exact .work hpc hwork
    next => cases h
  | put =>
    simp only [step] at h
    split at h
    next id c frame frames hpc =>
      split at h
      next hroom =>
        cases h
        exact .put hpc hroom
      next => cases h
    next => cases h
  | delete =>
    simp only [step] at h
    split at h
    next id c hpc =>
      split at h
      next => cases h
      next b hb =>
        cases h
        exact .delete hpc hb
    next => cases h
  | destroy =>
    simp only [step] at h
    split at h
    next id c hpc =>
      split at h
      next htimer =>
        cases h
        exact .destroy hpc htimer
      next => cases h
    next => cases h
  | fire id =>
    simp only [step] at h
    split at h
    next htimer =>
      cases h
      exact .fire htimer
    next => cases h
  | timeout id =>
    simp only [step] at h
    split at h
    next hok =>
      cases h
      exact .timeout hok.1 hok.2
    next => cases h
  | expired id =>
    simp only [step] at h
    split at h
    next b htimer hb =>
      cases h
      exact .expired htimer hb
    next => cases h
  | recv =>
    simp only [step] at h
    split at h
    next frame frames hpc hc =>
      cases h
      exact .recv hpc hc
    next => cases h
  | recvFinal =>
    simp only [step] at h
    split at h
    next hok =>
      cases h
      exact .recvFinal hok.1 hok.2
    next => cases h
  | store =>
    simp only [step] at h
    split at h
    next frame hpc =>
      split at h
      next hidle =>
        cases h
        exact .store hpc hidle
      next => cases h
    next => cases h
  | storeErr =>
    simp only [step] at h
    split at h
    next frame hpc =>
      split at h
      next hidle =>
        cases h
        exact .storeErr hpc hidle
      next => cases h
    next => cases h

end Receiver

end Mp2bs.Fec
