import Mp2bs.Fec.Handover

/-!
# Where `decode` can wait for ever

`decode` waits for room in `FecChan` and for the timer goroutine in `Destroy`, both while it
holds `FecHandler.mutex`. Room in `FecChan` is made by `pushFecDecodedFrame`, which needs
`receiveStream.mutex`, which the frame handler may hold.
-/

namespace Mp2bs.Fec
open Mp2bs.Lib.Machine

/-! ### No operation under the mutex but a send waits -/

variable {block : Bytes} {stop : Stop} {i : ℕ} {bufferMap : List ℕ}

theorem copyAt_error {data : Bytes} {startPos : ℕ} (h : copyAt block startPos data = .error stop) :
    stop = .panic := by
  unfold copyAt at h
  split at h
  next => cases h
  next =>
    cases h
    rfl

theorem fillMap_error {turns remainingLength : ℕ}
    (h : fillMap turns i remainingLength bufferMap = .error stop) : stop = .panic := by
  induction turns generalizing i remainingLength bufferMap with
  | zero => cases h
  | succ turns ih =>
    rw [fillMap] at h
    split at h
    next =>
      cases h
      rfl
    next =>
      dsimp only at h
      split at h
      next => exact ih h
      next => cases h

theorem takeIn_error {α : Type} {offset : α → ℕ} {data : α → Bytes} {start : ℕ} {queue : List α}
    {blocks : Bytes × List ℕ} (h : takeIn offset data start queue blocks = .error stop) :
    stop = .panic := by
  induction queue generalizing blocks with
  | nil => cases h
  | cons frame queue ih =>
    rw [takeIn] at h
    split at h
    next hcopy =>
      cases h
      exact copyAt_error hcopy
    next =>
      split at h
      next hmap =>
        cases h
        exact fillMap_error hmap
      next => exact ih h

theorem compact_error {idx : ℕ} {out : EncodeBlock}
    (h : compact block bufferMap i idx out = .error stop) : stop = .panic := by
  induction bufferMap generalizing i idx out with
  | nil => cases h
  | cons received rest ih =>
    rw [compact] at h
    split at h
    next =>
      split at h
      next hcopy =>
        cases h
        exact copyAt_error hcopy
      next => exact ih h
    next => exact ih h

theorem FecBuffer.decodeBlock_error {b : FecBuffer} (h : b.decodeBlock = .error stop) :
    stop = .panic := by
  cases hget : b.getEncodeBlock with
  | ok r =>
    rw [decodeBlock_of_get hget] at h
    cases h
  | error stop' =>
    rw [decodeBlock_of_error hget] at h
    cases h
    unfold getEncodeBlock at hget
    split at hget
    next htake =>
      cases hget
      exact takeIn_error htake
    next =>
      split at hget
      next htake =>
        cases hget
        exact takeIn_error htake
      next =>
        split at hget
        next hcomp =>
          cases hget
          exact compact_error hcomp
        next => cases hget

theorem FecHandler.work_error {f : FecHandler} {id : ℕ} {c : Chan} (h : f.work id c = .error stop) :
    stop = .panic := by
  unfold work at h
  split at h
  next =>
    cases h
    rfl
  next =>
    split at h
    next hup =>
      cases h
      unfold updateWindow at hup
      split at hup
      next => cases hup
      next =>
        split at hup
        next => cases hup
        next =>
          cases hup
          rfl
    next =>
      split at h
      next => cases h
      next =>
        split at h
        next hdec =>
          cases h
          exact FecBuffer.decodeBlock_error hdec
        next => cases h

/-! ### Who waits for whom -/

namespace Decode

def finishing : Decode → Option ℕ
  | .final id | .lock id .final | .put id .final _ | .destroy id .final => some id
  | _ => none

def closing : Decode → Bool
  | .lock _ .final | .put _ .final _ | .destroy _ .final | .ended => true
  | _ => false

end Decode

namespace FrameHandler

def pushed : FrameHandler → Option Push
  | .check _ frame | .send _ _ frame | .mark _ frame | .release frame => some frame
  | .idle | .locked _ => none

end FrameHandler

namespace Receiver

def full (s : Receiver) (c : Chan) : Bool := c.cap ≤ (s.chan c).length

/- The frame handler does not release `receiveStream.mutex` before `decode` goes on. -/
def waits (s : Receiver) : Bool :=
  match s.frameHandler with
  | .locked _ => true
  | .check id frame =>
    ((s.handler.buffers[id]?).bind (·.checkDecodingPossible frame.fin)).any s.full
  | .send _ c _ => s.full c
  | _ => false

/- `pushFecDecodedFrame` runs, or the frame handler is about to start it. -/
def serves (s : Receiver) : Bool :=
  match s.consumer with
  | .waiting | .got _ => true
  | .notStarted => s.frameHandler.pushed.any (·.isFec)
  | .ended => false

/- How many frames can be sent while `receiveStream.mutex` is held. -/
def room (s : Receiver) : ℕ :=
  fecChanCap - s.fecChan.length + if s.consumer = .waiting then 1 else 0

def Flows (s : Receiver) (frames : List (StreamFrame × ℕ)) : Prop :=
  s.serves = true ∧ s.waits = false ∨ frames.length ≤ s.room

instance (s : Receiver) (frames : List (StreamFrame × ℕ)) : Decidable (s.Flows frames) :=
  inferInstanceAs (Decidable (_ ∨ _))

def recovers (s : Receiver) : List (StreamFrame × ℕ) :=
  match s.decode with
  | .lock id c => match s.handler.work id c with
    | .ok (_, frames) => frames
    | .error _ => []
  | _ => []

/- No timer expires while `decode` may still take its buffer; and `receiveStream.mutex` is not taken,
kept or left without a reader of `FecChan` while `decode` has more frames to send than fit. -/
def InTime (s : Receiver) : Label → Prop
  | .fire id => s.decode = .ended ∨ s.decode.finishing.any (· ≠ id) = true
  | .arrive _ => s.decode.frames.length ≤ s.room
  | .work => s.Flows s.recovers
  | .storeErr => s.decode.frames.length ≤ fecChanCap - s.fecChan.length
  | _ => True

instance (s : Receiver) : ∀ a, Decidable (s.InTime a)
  | .fire _ => inferInstanceAs (Decidable (_ ∨ _))
  | .arrive _ => inferInstanceAs (Decidable (_ ≤ _))
  | .storeErr => inferInstanceAs (Decidable (_ ≤ _))
  | .work => inferInstanceAs (Decidable (s.Flows s.recovers))
  | .push | .check | .send | .mark | .release | .take _ | .final | .put | .delete | .destroy
  | .timeout _ | .expired _ | .recv | .recvFinal | .store => .isTrue trivial

structure Flowing (s : Receiver) : Prop where
  flows : s.Flows s.decode.frames
  cap : s.fecChan.length ≤ fecChanCap
  complete : ∀ id c frames, s.decode = .put id c frames → c.complete = true → frames = []
  final : s.fecChanFinal = 0 ∨ s.decode.closing = true
  timers : ∀ (id : ℕ) (t : Timer), s.timers[id]? = some t → t = .fired ∨ t = .sent ∨ t = .ended →
    s.decode = .ended ∨ s.decode.finishing.any (· ≠ id) = true
  stopped : ∀ id : ℕ, s.timers[id]? = some .stopped → id ∈ s.ids ∧ s.decode.current ≠ some id

theorem Flows.nil (s : Receiver) : s.Flows [] := Or.inr (Nat.zero_le _)

theorem init_flowing : init.Flowing := by
  refine ⟨.nil _, by decide, ?_, Or.inl rfl, ?_, ?_⟩
  · intro id c frames hpc
    cases hpc
  · intro id t ht
    simp [init] at ht
  · intro id ht
    simp [init] at ht

section
variable {streamID : ℕ} {s s' : Receiver}

theorem Flowing.frames_nil (h : s.Flowing)
    (hlast : s.decode = .ended ∨ s.decode.finishing ≠ none) : s.decode.frames = [] := by
  cases hd : s.decode with
  | put id c frames =>
    rw [hd] at hlast
    rcases hlast with hlast | hlast
    · cases hlast
    · have hc : c = .final := by
        by_contra hne
        cases c <;> simp [Decode.finishing] at hlast hne
      exact h.complete id c frames hd (by rw [hc]; rfl)
  | _ => rfl

variable {id : ℕ} {f : FecHandler} {chan : Chan → List ℕ} {d : Decode} {frame : Push} {c : Chan}
  {frames : List (StreamFrame × ℕ)} {a : Label} {s₁ : Receiver}

theorem Flowing.frames_nil_of_timer (h : s.Flowing)
    (hlast : s.decode = .ended ∨ s.decode.finishing.any (· ≠ id) = true) : s.decode.frames = [] := by
  refine h.frames_nil ?_
  rcases hlast with he | hany
  · exact Or.inl he
  · right
    intro hnone
    rw [hnone] at hany
    cases hany

theorem Flowing.pc (h : s.Flowing) {pc : FrameHandler}
    (hserves : s.serves = true → ({ s with frameHandler := pc, handler := f, chan := chan } : Receiver).serves = true)
    (hwaits : s.waits = false → ({ s with frameHandler := pc, handler := f, chan := chan } : Receiver).waits = false)
    : ({ s with frameHandler := pc, handler := f, chan := chan } : Receiver).Flowing := by
  refine ⟨?_, h.cap, h.complete, h.final, h.timers, h.stopped⟩
  rcases h.flows with ⟨hs, hw⟩ | hroom
  · exact Or.inl ⟨hserves hs, hwaits hw⟩
  · exact Or.inr hroom

theorem serves_of_pushed {pc : FrameHandler} (hpc : pc.pushed = s.frameHandler.pushed)
    (hs : s.serves = true) :
    ({ s with frameHandler := pc, handler := f, chan := chan } : Receiver).serves = true := by
  unfold serves at hs ⊢
  cases hc : s.consumer with
  | notStarted =>
    rw [hc] at hs
    simp only [hpc]
    exact hs
  | ended =>
    rw [hc] at hs
    cases hs
  | waiting => rfl
  | got frame => rfl

theorem Flowing.other (h : s.Flowing) (hframes : d.frames = [])
    (hcomplete : ∀ id c frames, d = .put id c frames → frames = []) {timers : List Timer}
    {fecChanFinal : ℕ} {received : List (ℕ × Chan)} (hfinal : fecChanFinal = 0 ∨ d.closing = true)
    (htimers : ∀ (id : ℕ) (t : Timer), timers[id]? = some t → t = .fired ∨ t = .sent ∨ t = .ended → d = .ended ∨ d.finishing.any (· ≠ id) = true)
    (hstopped : ∀ id : ℕ, timers[id]? = some .stopped → id ∈ received.map (·.1) ∧ d.current ≠ some id) :
    ({ s with
      decode := d
      handler := f
      timers := timers
      chan := chan
      fecChanFinal := fecChanFinal
      received := received } : Receiver).Flowing := by
  refine ⟨?_, h.cap, ?_, hfinal, htimers, hstopped⟩
  · show Flows _ d.frames
    rw [hframes]
    exact .nil _
  · intro id c frames hpc _
    exact hcomplete id c frames hpc

theorem Flowing.keep (h : s.Flowing) (hended : s.decode ≠ .ended)
    (hfin : d.finishing = s.decode.finishing) :
    ∀ (id : ℕ) (t : Timer), s.timers[id]? = some t → t = .fired ∨ t = .sent ∨ t = .ended →
      d = .ended ∨ d.finishing.any (· ≠ id) = true := by
  intro id t ht hcase
  rcases h.timers id t ht hcase with he | hany
  · exact absurd he hended
  · rw [hfin]
    exact Or.inr hany

theorem finishing_lock (id : ℕ) (c : Chan) (frames : List (StreamFrame × ℕ)) :
    (Decode.put id c frames).finishing = (Decode.lock id c).finishing ∧
      (Decode.destroy id c).finishing = (Decode.lock id c).finishing ∧
      (Decode.put id c frames).closing = (Decode.lock id c).closing ∧
      (Decode.destroy id c).closing = (Decode.lock id c).closing := by
  cases c <;> exact ⟨rfl, rfl, rfl, rfl⟩

theorem Flowing.check (h : s.Flowing) {b : FecBuffer} (hpc : s.frameHandler = .check id frame)
    (hb : s.handler.buffers[id]? = some b) (hcheck : b.checkDecodingPossible frame.fin = some c) :
    ({ s with frameHandler := .send id c frame } : Receiver).Flowing := by
  refine h.pc (f := s.handler) (serves_of_pushed (by rw [hpc]; rfl)) ?_
  intro hw
  rw [waits, hpc] at hw
  simp only [hb, Option.bind_some, hcheck, Option.any_some] at hw
  exact hw

theorem Flowing.release (h : s.Flowing) (hpc : s.frameHandler = .release frame) :
    ({ s with
      frameHandler := .idle
      consumer := if frame.isFec ∧ s.consumer = .notStarted then .waiting else s.consumer } :
      Receiver).Flowing := by
  refine ⟨?_, h.cap, h.complete, h.final, h.timers, h.stopped⟩
  rcases h.flows with ⟨hs, _⟩ | hroom
  · left
    refine ⟨?_, rfl⟩
    unfold serves at hs ⊢
    cases hc : s.consumer with
    | notStarted =>
      rw [hc, hpc] at hs
      have hfec : frame.isFec = true := hs
      simp [hfec]
    | ended =>
      rw [hc] at hs
      cases hs
    | waiting => simp
    | got frame => simp
  · right
    refine le_trans hroom ?_
    unfold room
    dsimp only
    by_cases hstart : frame.isFec = true ∧ s.consumer = .notStarted
    · rw [if_pos hstart, if_pos rfl]
      split <;> omega
    · rw [if_neg hstart]

theorem Flowing.recv (h : s.Flowing) {frame : StreamFrame} {frames : List StreamFrame}
    (hpc : s.consumer = .waiting) (hc : s.fecChan = frame :: frames) :
    ({ s with fecChan := frames, consumer := .got frame } : Receiver).Flowing := by
  have hcap := h.cap
  rw [hc, List.length_cons] at hcap
  refine ⟨?_, ?_, h.complete, h.final, h.timers, h.stopped⟩
  · rcases h.flows with ⟨_, hw⟩ | hroom
    · exact Or.inl ⟨rfl, hw⟩
    · right
      rw [room, hc, hpc, if_pos rfl, List.length_cons] at hroom
      show s.decode.frames.length ≤ fecChanCap - frames.length + 0
      omega
  · show frames.length ≤ fecChanCap
    omega

theorem Flowing.put (h : s.Flowing) {frame : StreamFrame × ℕ}
    (hpc : s.decode = .put id c (frame :: frames)) (hroom : s.fecChan.length < fecChanCap) :
    ({ s with
      fecChan := s.fecChan ++ [frame.1]
      delivered := s.delivered ++ [frame.1]
      decode := .put id c frames } : Receiver).Flowing := by
  have hflows := h.flows
  have hfinal := h.final
  have hstopped := h.stopped
  have hkeep := h.keep (d := .put id c frames) (by rw [hpc]; intro he; cases he)
    (by rw [hpc]; cases c <;> rfl)
  rw [hpc] at hflows hfinal hstopped
  refine ⟨?_, ?_, ?_, ?_, hkeep, hstopped⟩
  · rcases hflows with hgo | hfit
    · exact Or.inl hgo
    · right
      have hfit' : (frame :: frames).length ≤ s.room := hfit
      rw [room, List.length_cons] at hfit'
      show frames.length ≤ fecChanCap - (s.fecChan ++ [frame.1]).length + _
      rw [List.length_append, List.length_singleton]
      dsimp only
      omega
  · show (s.fecChan ++ [frame.1]).length ≤ fecChanCap
    rw [List.length_append, List.length_singleton]
    omega
  · intro id' c' frames' hpc' hc
    cases hpc'
    have := h.complete id c (frame :: frames) hpc hc
    cases this
  · rcases hfinal with hz | hcl
    · exact Or.inl hz
    · right
      rw [← hcl]
      cases c <;> rfl

theorem waits_work (hwork : s.handler.work id c = .ok (f, frames)) (d : Decode) :
    ({ s with handler := f, decode := d } : Receiver).waits = s.waits := by
  obtain ⟨b, f₁, b', hb, hup, hcase⟩ := FecHandler.work_ok hwork
  have hbuf : f₁.buffers = s.handler.buffers := by
    unfold FecHandler.updateWindow at hup
    split at hup
    next =>
      cases hup
      rfl
    next =>
      split at hup
      next =>
        cases hup
        rfl
      next => cases hup
  have hcheck : ∀ (j : ℕ) (fin : Bool), (f.buffers[j]?).bind (·.checkDecodingPossible fin) =
      (s.handler.buffers[j]?).bind (·.checkDecodingPossible fin) := by
    intro j fin
    rcases hcase with ⟨_, _, rfl, _⟩ | ⟨_, hdec, rfl⟩
    · rw [hbuf]
    · obtain ⟨_, _, rfl⟩ := FecBuffer.decodeBlock_eq hdec
      rw [FecHandler.getElem?_setBuffer (by rw [hbuf, hb]), hbuf]
      by_cases hj : id = j
      · subst hj
        rw [if_pos rfl, hb]
        rfl
      · rw [if_neg hj]
  unfold waits
  cases hpc : s.frameHandler with
  | check j frame =>
    simp only [hcheck]
    rfl
  | _ => rfl

theorem Flowing.work (h : s.Flowing) (hok : s.InTime .work) (hpc : s.decode = .lock id c)
    (hwork : s.handler.work id c = .ok (f, frames)) :
    ({ s with handler := f, decode := .put id c frames } : Receiver).Flowing := by
  have hflows : s.Flows frames := by
    have hrec : s.recovers = frames := by simp only [recovers, hpc, hwork]
    rw [← hrec]
    exact hok
  have hfinal := h.final
  have hstopped := h.stopped
  have hkeep := h.keep (d := .put id c frames) (by rw [hpc]; intro he; cases he)
    (by rw [hpc]; exact (finishing_lock id c frames).1)
  rw [hpc] at hfinal hstopped
  refine ⟨?_, h.cap, ?_, ?_, hkeep, hstopped⟩
  · rcases hflows with ⟨hs, hw⟩ | hfit
    · exact Or.inl ⟨hs, (waits_work hwork _).trans hw⟩
    · exact Or.inr hfit
  · intro id' c' frames' hpc' hc
    cases hpc'
    obtain ⟨_, _, _, _, _, hcase⟩ := FecHandler.work_ok hwork
    rcases hcase with ⟨_, _, _, rfl⟩ | ⟨hc', _⟩
    · rfl
    · rw [hc] at hc'
      cases hc'
  · rw [(finishing_lock id c frames).2.2.1]
    exact hfinal

theorem frames_of_free (hfree : s.decode.holdsMutex = false) : s.decode.frames = [] := by
  cases hd : s.decode with
  | put id c frames =>
    rw [hd] at hfree
    cases hfree
  | _ => rfl

theorem Flowing.push (h : s.Flowing) (hfree : s.decode.holdsMutex = false) (f : FecHandler)
    (pc : FrameHandler) :
    ({ s.withHandler f with frameHandler := pc } : Receiver).Flowing := by
  have hold : ∀ (id : ℕ) (t : Timer),
      (s.timers ++ List.replicate (f.buffers.length - s.handler.buffers.length) .waiting)[id]? =
        some t → t ≠ .waiting → s.timers[id]? = some t := by
    intro id t ht hne
    rw [List.getElem?_append] at ht
    by_cases hlt : id < s.timers.length
    · rwa [if_pos hlt] at ht
    · rw [if_neg hlt] at ht
      exact absurd (List.eq_of_mem_replicate (List.mem_of_getElem? ht)) hne
  refine ⟨?_, h.cap, h.complete, h.final, ?_, ?_⟩
  · show Flows _ s.decode.frames
    rw [frames_of_free hfree]
    exact .nil _
  · intro id t ht hcase
    refine h.timers id t (hold id t ht ?_) hcase
    rintro rfl
    rcases hcase with hc | hc | hc <;> cases hc
  · intro id ht
    exact h.stopped id (hold id _ ht (by decide))

theorem Flowing.take (h : s.Flowing) (hh : s.Handover streamID) {rest : List ℕ} (hpc : s.decode = .idle)
    (hc : s.chan c = id :: rest) (hframes : d.frames = []) (hcur : d.current = some id)
    (hput : ∀ id' c' frames, d ≠ .put id' c' frames) :
    ({ s with
      chan := Function.update s.chan c rest
      decode := d
      received := s.received ++ [(id, c)] } : Receiver).Flowing := by
  have hidle : ∀ j, ¬(s.decode = .ended ∨ s.decode.finishing.any (· ≠ j) = true) := by
    intro j hor
    rw [hpc] at hor
    rcases hor with he | he <;> cases he
  refine h.other hframes (fun id' c' frames he => absurd he (hput id' c' frames)) ?_ ?_ ?_
  · rcases h.final with hz | hcl
    · exact Or.inl hz
    · rw [hpc] at hcl
      cases hcl
  · intro j t ht hcase
    exact absurd (h.timers j t ht hcase) (hidle j)
  · intro j ht
    have hj := (h.stopped j ht).1
    refine ⟨?_, ?_⟩
    · rw [List.map_append]
      exact List.mem_append_left _ hj
    · rw [hcur]
      intro he
      cases he
      exact hh.new hpc hc hj

theorem Flowing.destroy (h : s.Flowing) (hh : s.Handover streamID) (hpc : s.decode = .destroy id c)
    (htimer : s.timers[id]? = some .waiting) (hframes : d.frames = []) (hcur : d.current = none)
    (hput : ∀ id' c' frames, d ≠ .put id' c' frames) (hend : c = .final → d = .ended)
    (hclose : (Decode.destroy id c).closing = true → d.closing = true) :
    ({ s.setTimer id .stopped with decode := d } : Receiver).Flowing := by
  have hids : id ∈ s.ids := by
    obtain ⟨old, hold, _⟩ := hh.window
    rw [hpc] at hold
    rw [hold]
    simp [Decode.current]
  have hfinal := h.final
  rw [hpc] at hfinal
  refine h.other hframes (fun id' c' frames he => absurd he (hput id' c' frames))
    (hfinal.imp_right hclose) ?_ ?_
  · intro j t ht hcase
    by_cases hj : id = j
    · subst hj
      rw [getElem?_setTimer htimer, if_pos rfl, Option.some.injEq] at ht
      subst ht
      rcases hcase with hc | hc | hc <;> cases hc
    · rw [getElem?_setTimer htimer, if_neg hj] at ht
      rcases h.timers j t ht hcase with he | hany
      · rw [hpc] at he
        cases he
      · left
        refine hend ?_
        rw [hpc] at hany
        by_contra hne
        cases c <;> simp [Decode.finishing] at hany hne
  · intro j ht
    refine ⟨?_, by rw [hcur]; intro he; cases he⟩
    by_cases hj : id = j
    · exact hj ▸ hids
    · rw [getElem?_setTimer htimer, if_neg hj] at ht
      exact (h.stopped j ht).1

theorem Flowing.expire (h : s.Flowing)
    (hlast : s.decode = .ended ∨ s.decode.finishing.any (· ≠ id) = true) {t : Timer}
    (ht : t ≠ .stopped) :
    ({ s with handler := f, chan := chan, timers := s.timers.set id t } : Receiver).Flowing := by
  have hold : ∀ (j : ℕ) (t' : Timer), (s.timers.set id t)[j]? = some t' → j ≠ id →
      s.timers[j]? = some t' := by
    intro j t' ht' hj
    rwa [List.getElem?_set_ne (Ne.symm hj)] at ht'
  refine ⟨?_, h.cap, h.complete, h.final, ?_, ?_⟩
  · show Flows _ s.decode.frames
    rw [h.frames_nil_of_timer hlast]
    exact .nil _
  · intro j t' ht' hcase
    by_cases hj : j = id
    · subst hj
      exact hlast
    · exact h.timers j t' (hold j t' ht' hj) hcase
  · intro j ht'
    by_cases hj : j = id
    · subst hj
      by_cases hlt : j < s.timers.length
      · have hset : (s.timers.set j t)[j]? = some .stopped := ht'
        rw [List.getElem?_set_self hlt, Option.some.injEq] at hset
        exact absurd hset ht
      · have hset : (s.timers.set j t)[j]? = some .stopped := ht'
        rw [List.getElem?_eq_none (by rw [List.length_set]; omega)] at hset
        cases hset
    · exact h.stopped j (hold j _ ht' hj)

theorem Flowing.step (h : s.Flowing) (hh : s.Handover streamID) (hok : s.InTime a)
    (hs : Step streamID s a s') : s'.Flowing := by
  cases hs with
  | arrive _ _ => exact { h with flows := Or.inr hok }
  | pushNone _ hfree _ =>
    refine { h with flows := ?_ }
    show Flows _ s.decode.frames
    rw [frames_of_free hfree]
    exact .nil _
  | push _ hfree _ _ _ => exact h.push hfree _ _
  | checkNone hpc _ _ =>
    exact h.pc (f := s.handler) (serves_of_pushed (by rw [hpc]; rfl)) (fun _ => rfl)
  | check hpc hb hcheck => exact h.check hpc hb hcheck
  | send hpc _ => exact h.pc (f := s.handler) (serves_of_pushed (by rw [hpc]; rfl)) (fun _ => rfl)
  | mark hpc _ => exact h.pc (serves_of_pushed (by rw [hpc]; rfl)) (fun _ => rfl)
  | release hpc => exact h.release hpc
  | @take c id _ hpc hc =>
    by_cases hfin : c = .final
    · rw [if_pos hfin]
      exact h.take hh hpc hc rfl rfl (fun id' c' frames he => by cases he)
    · rw [if_neg hfin]
      exact h.take hh hpc hc rfl rfl (fun id' c' frames he => by cases he)
  | @final id hpc _ =>
    have hkeep := h.keep (d := .lock id .final) (by rw [hpc]; intro he; cases he)
      (by rw [hpc]; rfl)
    have hstopped := h.stopped
    rw [hpc] at hstopped
    exact h.other rfl (fun id' c' frames he => by cases he) (Or.inr rfl) hkeep hstopped
  | work hpc hwork => exact h.work hok hpc hwork
  | put hpc hroom => exact h.put hpc hroom
  | @delete id c _ hpc _ =>
    have hfin := (finishing_lock id c [])
    have hkeep := h.keep (d := .destroy id c) (by rw [hpc]; intro he; cases he)
      (by rw [hpc, hfin.1, hfin.2.1])
    have hstopped := h.stopped
    have hfinal := h.final
    rw [hpc] at hstopped hfinal
    rw [hfin.2.2.1, ← hfin.2.2.2] at hfinal
    exact h.other rfl (fun id' c' frames he => by cases he) hfinal hkeep hstopped
  | @destroy id c hpc htimer =>
    by_cases hfin : c = .final
    · rw [if_pos hfin]
      exact h.destroy hh hpc htimer rfl rfl (fun id' c' frames he => by cases he) (fun _ => rfl)
        (fun _ => rfl)
    · rw [if_neg hfin]
      refine h.destroy hh hpc htimer rfl rfl (fun id' c' frames he => by cases he)
        (fun he => absurd he hfin) ?_
      intro hcl
      cases c <;> simp [Decode.closing] at hcl hfin
  | fire _ => exact h.expire hok (by decide)
  | timeout htimer _ => exact h.expire (h.timers _ _ htimer (Or.inl rfl)) (by decide)
  | expired htimer _ => exact h.expire (h.timers _ _ htimer (Or.inr (Or.inl rfl))) (by decide)
  | recv hpc hc => exact h.recv hpc hc
  | recvFinal _ hc =>
    have hcl : s.decode.closing = true := by
      rcases h.final with hz | hcl
      · omega
      · exact hcl
    refine { h with flows := ?_, final := Or.inr hcl }
    have hnil : s.decode.frames = [] := by
      refine h.frames_nil ?_
      cases hd : s.decode with
      | ended => exact Or.inl rfl
      | idle | final id =>
        rw [hd] at hcl
        cases hcl
      | _ id c =>
        rw [hd] at hcl
        right
        cases c <;> simp [Decode.closing, Decode.finishing] at hcl ⊢
    show Flows _ s.decode.frames
    rw [hnil]
    exact .nil _
  | store _ hidle =>
    refine { h with flows := Or.inl ⟨rfl, ?_⟩ }
    simp only [waits, hidle]
  | storeErr _ _ => exact { h with flows := Or.inr (le_trans hok (Nat.le_add_right _ _)) }

theorem flowing_of_run {as : List Label} (h : Run (step streamID) InTime init as s) :
    s.Handover streamID ∧ s.Flowing :=
  Run.invariant (fun s => s.Handover streamID ∧ s.Flowing)
    ⟨init_handover streamID, init_flowing⟩
    (fun _ _ _ hi hok hs => ⟨hi.1.step (Step.of_step hs), hi.2.step hi.1 hok (Step.of_step hs)⟩) h

/-! ### The other goroutines let `decode` go on -/

/- Steps of the frame handler and of `pushFecDecodedFrame`, without a new frame. -/
def Label.helps : Label → Bool
  | .check | .send | .mark | .release | .recv | .store => true
  | _ => false

def Label.ofDecode : Label → Bool
  | .take _ | .final | .work | .put | .delete | .destroy => true
  | _ => false

def Reaches (streamID : ℕ) (s s' : Receiver) : Prop :=
  ∃ bs, (∀ a ∈ bs, Label.helps a = true) ∧ Run (step streamID) InTime s bs s'

theorem Reaches.refl (streamID : ℕ) (s : Receiver) : Reaches streamID s s :=
  ⟨[], fun _ ha => (List.not_mem_nil ha).elim, .nil⟩

theorem InTime.of_helps (ha : a.helps = true) : s.InTime a := by
  cases a <;> first | exact trivial | cases ha

theorem Reaches.cons (hs : s.step streamID a = .ok s₁) (ha : a.helps = true)
    (h : Reaches streamID s₁ s') : Reaches streamID s s' := by
  obtain ⟨bs, hbs, hrun⟩ := h
  refine ⟨a :: bs, ?_, .cons (.of_helps ha) hs hrun⟩
  intro b hb
  rcases List.mem_cons.mp hb with rfl | hb
  · exact ha
  · exact hbs b hb

structure Released (streamID : ℕ) (s s' : Receiver) : Prop where
  reaches : Reaches streamID s s'
  idle : s'.frameHandler = .idle
  decode : s'.decode = s.decode
  fecChan : s'.fecChan = s.fecChan
  running : s'.consumer = .waiting ∨ ∃ frame, s'.consumer = .got frame

theorem Released.cons (h : Released streamID s₁ s') (hs : s.step streamID a = .ok s₁)
    (ha : a.helps = true) (hdec : s₁.decode = s.decode) (hchan : s₁.fecChan = s.fecChan) :
    Released streamID s s' :=
  ⟨.cons hs ha h.reaches, h.idle, h.decode.trans hdec, h.fecChan.trans hchan, h.running⟩

theorem released_of_release (streamID : ℕ) (hpc : s.frameHandler = .release frame)
    (hs : s.serves = true) : ∃ s', Released streamID s s' := by
  have hstep : s.step streamID .release = .ok { s with
      frameHandler := .idle
      consumer := if frame.isFec ∧ s.consumer = .notStarted then .waiting else s.consumer } := by
    simp only [step, hpc]
  refine ⟨_, .cons hstep rfl (.refl _ _), rfl, rfl, rfl, ?_⟩
  unfold serves at hs
  cases hc : s.consumer with
  | notStarted =>
    rw [hc, hpc] at hs
    have hfec : frame.isFec = true := hs
    left
    simp [hfec]
  | waiting =>
    left
    simp
  | got fr =>
    right
    exact ⟨fr, by simp⟩
  | ended =>
    rw [hc] at hs
    cases hs

theorem released_of_mark (streamID : ℕ) (hpc : s.frameHandler = .mark id frame)
    (hid : id < s.handler.buffers.length) (hs : s.serves = true) : ∃ s', Released streamID s s' := by
  have hb := List.getElem?_eq_getElem hid
  have hstep : s.step streamID .mark = .ok { s.setStarted id s.handler.buffers[id] with
      frameHandler := .release frame } := by
    simp only [step, hpc, hb]
  obtain ⟨s', hs'⟩ := released_of_release streamID
    (s := { s.setStarted id s.handler.buffers[id] with frameHandler := .release frame }) rfl
    (serves_of_pushed (by show _ = s.frameHandler.pushed; rw [hpc]; rfl) hs)
  exact ⟨s', hs'.cons hstep rfl rfl rfl⟩

theorem released_of_send (streamID : ℕ) (hpc : s.frameHandler = .send id c frame)
    (hid : id < s.handler.buffers.length) (hs : s.serves = true) (hfull : s.full c = false) :
    ∃ s', Released streamID s s' := by
  have hroom : (s.chan c).length < c.cap := by
    have := of_decide_eq_false hfull
    omega
  have hstep : s.step streamID .send = .ok { s.enqueue c id with
      frameHandler := .mark id frame } := by
    simp only [step, hpc, if_pos hroom]
  obtain ⟨s', hs'⟩ := released_of_mark streamID
    (s := { s.enqueue c id with frameHandler := .mark id frame }) rfl hid
    (serves_of_pushed (by show _ = s.frameHandler.pushed; rw [hpc]; rfl) hs)
  exact ⟨s', hs'.cons hstep rfl rfl rfl⟩

theorem released_of_check (streamID : ℕ) (hpc : s.frameHandler = .check id frame)
    (hid : id < s.handler.buffers.length) (hs : s.serves = true) (hw : s.waits = false) :
    ∃ s', Released streamID s s' := by
  have hb := List.getElem?_eq_getElem hid
  rw [waits, hpc] at hw
  simp only [hb, Option.bind_some] at hw
  cases hc : s.handler.buffers[id].checkDecodingPossible frame.fin with
  | none =>
    have hstep : s.step streamID .check = .ok { s with frameHandler := .release frame } := by
      simp only [step, hpc, hb, hc]
    obtain ⟨s', hs'⟩ := released_of_release streamID
      (s := { s with frameHandler := .release frame }) rfl
      (serves_of_pushed (f := s.handler) (by rw [hpc]; rfl) hs)
    exact ⟨s', hs'.cons hstep rfl rfl rfl⟩
  | some c =>
    rw [hc, Option.any_some] at hw
    have hstep : s.step streamID .check = .ok { s with frameHandler := .send id c frame } := by
      simp only [step, hpc, hb, hc]
    obtain ⟨s', hs'⟩ := released_of_send streamID
      (s := { s with frameHandler := .send id c frame }) rfl hid
      (serves_of_pushed (f := s.handler) (by rw [hpc]; rfl) hs) hw
    exact ⟨s', hs'.cons hstep rfl rfl rfl⟩

theorem Handover.released (h : s.Handover streamID) (hs : s.serves = true)
    (hw : s.waits = false) : ∃ s', Released streamID s s' := by
  have hid := h.buffer
  cases hpc : s.frameHandler with
  | idle =>
    refine ⟨s, .refl _ _, hpc, rfl, rfl, ?_⟩
    unfold serves at hs
    cases hc : s.consumer with
    | notStarted =>
      rw [hc, hpc] at hs
      cases hs
    | waiting => exact Or.inl rfl
    | got frame => exact Or.inr ⟨frame, rfl⟩
    | ended =>
      rw [hc] at hs
      cases hs
  | locked frame =>
    rw [waits, hpc] at hw
    cases hw
  | check id frame =>
    rw [hpc] at hid
    exact released_of_check streamID hpc (hid id rfl) hs hw
  | send id c frame =>
    rw [hpc] at hid
    rw [waits, hpc] at hw
    exact released_of_send streamID hpc (hid id rfl) hs hw
  | mark id frame =>
    rw [hpc] at hid
    exact released_of_mark streamID hpc (hid id rfl) hs
  | release frame => exact released_of_release streamID hpc hs

theorem room_of_waiting (streamID : ℕ) (hc : s.consumer = .waiting) (hne : s.fecChan ≠ []) :
    ∃ s', Reaches streamID s s' ∧ s'.decode = s.decode ∧
      s'.fecChan.length + 1 = s.fecChan.length := by
  cases hf : s.fecChan with
  | nil => exact absurd hf hne
  | cons frame frames =>
    have hstep : s.step streamID .recv =
        .ok { s with fecChan := frames, consumer := .got frame } := by
      simp only [step, hc, hf]
    exact ⟨_, .cons hstep rfl (.refl _ _), rfl, rfl⟩

theorem room_of_released (h : Released streamID s s₁) (hne : s.fecChan ≠ []) :
    ∃ s', Reaches streamID s s' ∧ s'.decode = s.decode ∧
      s'.fecChan.length + 1 = s.fecChan.length := by
  obtain ⟨⟨bs, hbs, hrun⟩, hidle, hdec, hchan, hrunning⟩ := h
  have happ : ∀ {s₂ : Receiver}, Reaches streamID s₁ s₂ → Reaches streamID s s₂ := by
    rintro s₂ ⟨cs, hcs, hrun'⟩
    refine ⟨bs ++ cs, ?_, hrun.append hrun'⟩
    intro a ha
    rcases List.mem_append.mp ha with ha | ha
    · exact hbs a ha
    · exact hcs a ha
  rw [← hchan] at hne ⊢
  rw [← hdec]
  rcases hrunning with hc | ⟨frame, hc⟩
  · obtain ⟨s', hr, hd, hl⟩ := room_of_waiting streamID hc hne
    exact ⟨s', happ hr, hd, hl⟩
  · have hstep : s₁.step streamID .store = .ok { s₁ with consumer := .waiting } := by
      simp only [step, hc, if_pos hidle]
    obtain ⟨s', hr, hd, hl⟩ := room_of_waiting streamID
      (s := { s₁ with consumer := .waiting }) rfl hne
    exact ⟨s', happ (.cons hstep rfl hr), hd, hl⟩

theorem Flowing.put_goes_on (h : s.Flowing) (hh : s.Handover streamID) {frame : StreamFrame × ℕ}
    (hpc : s.decode = .put id c (frame :: frames)) :
    ∃ s', Reaches streamID s s' ∧ s'.decode = s.decode ∧ s'.fecChan.length < fecChanCap := by
  have hcap := h.cap
  by_cases hroom : s.fecChan.length < fecChanCap
  · exact ⟨s, .refl _ _, rfl, hroom⟩
  · have hne : s.fecChan ≠ [] := by
      intro he
      rw [he] at hroom
      exact hroom (by decide)
    have hgo : ∃ s', Reaches streamID s s' ∧ s'.decode = s.decode ∧
        s'.fecChan.length + 1 = s.fecChan.length := by
      rcases h.flows with ⟨hs, hw⟩ | hfit
      · obtain ⟨s₁, hs₁⟩ := hh.released hs hw
        exact room_of_released hs₁ hne
      · -- the mutex is not needed: the reader waits in its select
        rw [hpc] at hfit
        have hpos : 0 < s.room := lt_of_lt_of_le (Nat.succ_pos frames.length) hfit
        have hc : s.consumer = .waiting := by
          by_contra hc
          rw [room, if_neg hc] at hpos
          omega
        exact room_of_waiting streamID hc hne
    obtain ⟨s', hr, hd, hl⟩ := hgo
    exact ⟨s', hr, hd, by omega⟩

theorem Flowing.timer_waits (h : s.Flowing) (hh : s.Handover streamID) (hpc : s.decode = .destroy id c) :
    s.timers[id]? = some .waiting := by
  have hids : id ∈ s.ids := by
    obtain ⟨old, hold, _⟩ := hh.window
    rw [hpc] at hold
    rw [hold]
    simp [Decode.current]
  obtain ⟨⟨j, c'⟩, hr, rfl⟩ := List.mem_map.mp hids
  have hlt : j < s.timers.length := by
    rw [hh.timers]
    refine hh.made c' j (List.mem_append_left _ ?_)
    exact List.mem_map.mpr ⟨(j, c'), List.mem_filter.mpr ⟨hr, by simp⟩, rfl⟩
  have hget := List.getElem?_eq_getElem hlt
  have hlast : ¬(s.decode = .ended ∨ s.decode.finishing.any (· ≠ j) = true) := by
    rw [hpc]
    rintro (he | he)
    · cases he
    · cases c <;> simp [Decode.finishing] at he
  cases ht : s.timers[j] with
  | waiting => rw [hget, ht]
  | stopped =>
    rw [ht] at hget
    exact absurd (by rw [hpc]; rfl) (h.stopped j hget).2
  | fired =>
    rw [ht] at hget
    exact absurd (h.timers j _ hget (Or.inl rfl)) hlast
  | sent =>
    rw [ht] at hget
    exact absurd (h.timers j _ hget (Or.inr (Or.inl rfl))) hlast
  | ended =>
    rw [ht] at hget
    exact absurd (h.timers j _ hget (Or.inr (Or.inr rfl))) hlast

end

/- Without an early timer and with room for the frames while `receiveStream.mutex` is held: the timer
goroutine waits when `decode` is in `Destroy`, the four goroutines do not wait in a cycle, and steps of
the frame handler and of `pushFecDecodedFrame` alone let `decode` go on. -/
theorem decode_goes_on (streamID : ℕ) {as : List Label} {s : Receiver}
    (h : Run (step streamID) InTime init as s) :
    (∀ id c, s.decode = .destroy id c → s.timers[id]? = some .waiting) ∧
    (∀ id c frames frame frame', s.decode = .put id c frames → frames ≠ [] →
      s.fecChan.length = fecChanCap → s.consumer = .got frame →
      s.frameHandler ≠ .locked frame') ∧
    (s.decode ≠ .idle → s.decode ≠ .ended →
      ∃ bs s' a, (∀ b ∈ bs, Label.helps b = true) ∧ Run (step streamID) InTime s bs s' ∧
        s'.decode = s.decode ∧ Label.ofDecode a = true ∧
        s'.step streamID a ≠ .error .blocked) := by
  obtain ⟨hh, hf⟩ := flowing_of_run h
  refine ⟨fun id c hpc => hf.timer_waits hh hpc, ?_, ?_⟩
  · intro id c frames frame frame' hpc hne hfull hc hlock
    rcases hf.flows with ⟨_, hw⟩ | hfit
    · rw [waits, hlock] at hw
      cases hw
    · rw [hpc, room, hfull, hc] at hfit
      have : frames.length = 0 := Nat.le_zero.mp hfit
      exact hne (List.length_eq_zero_iff.mp this)
  · intro hidle hended
    cases hpc : s.decode with
    | idle => exact absurd hpc hidle
    | ended => exact absurd hpc hended
    | final id =>
      have hz : s.fecChanFinal = 0 := by
        rcases hf.final with hz | hcl
        · exact hz
        · rw [hpc] at hcl
          cases hcl
      refine ⟨[], s, .final, fun b hb => (List.not_mem_nil hb).elim, .nil, hpc, rfl, ?_⟩
      simp [step, hpc, hz, fecChanFinalCap]
    | lock id c =>
      refine ⟨[], s, .work, fun b hb => (List.not_mem_nil hb).elim, .nil, hpc, rfl, ?_⟩
      simp only [step, hpc]
      split
      next stop hstop =>
        rw [FecHandler.work_error hstop]
        simp
      next => simp
    | put id c frames =>
      cases frames with
      | nil =>
        refine ⟨[], s, .delete, fun b hb => (List.not_mem_nil hb).elim, .nil, hpc, rfl, ?_⟩
        simp only [step, hpc]
        split <;> simp
      | cons frame frames =>
        obtain ⟨s', ⟨bs, hbs, hrun⟩, hd, hroom⟩ := hf.put_goes_on hh hpc
        refine ⟨bs, s', .put, hbs, hrun, hd.trans hpc, rfl, ?_⟩
        simp [step, hd, hpc, hroom]
    | destroy id c =>
      refine ⟨[], s, .destroy, fun b hb => (List.not_mem_nil hb).elim, .nil, hpc, rfl, ?_⟩
      simp [step, hpc, hf.timer_waits hh hpc]

def lastBlock : List Label :=
  [.arrive finFrame, .push, .check, .send, .mark, .release, .take .final, .final, .work, .delete]

theorem decode_goes_on_last : ∃ s, Run (step 4) InTime init lastBlock s ∧
    s.decode = .destroy 0 .final ∧ s.timers[0]? = some .waiting := by
  obtain ⟨s, hrun, hs⟩ := Run.exists_of_exec (step 4) init lastBlock
    (fun s => decide (s.decode = .destroy 0 .final)) (by decide +kernel : Guarded _ InTime _ _)
    (by decide +kernel)
  have hpc := of_decide_eq_true hs
  exact ⟨s, hrun, hpc, (decode_goes_on 4 hrun).1 0 .final hpc⟩

/-! ### What the two conditions keep out -/

section
variable {streamID : ℕ} {s s' : Receiver} {ok : Receiver → Label → Prop}

theorem destroy_stuck {id : ℕ} {c : Chan} {t : Timer} (hpc : s.decode = .destroy id c)
    (ht : s.timers[id]? = some t) (hne : t ≠ .waiting) {as : List Label}
    (h : Run (step streamID) ok s as s') : s'.decode = .destroy id c := by
  refine (Run.invariant (fun s => s.decode = .destroy id c ∧
    ∃ t, s.timers[id]? = some t ∧ t ≠ .waiting) ⟨hpc, t, ht, hne⟩ ?_ h).1
  rintro s a s' ⟨hpc, t, ht, hne⟩ _ hs
  have hset : ∀ (j : ℕ) (old new : Timer), s.timers[j]? = some old → new ≠ .waiting →
      ∃ t, (s.setTimer j new).timers[id]? = some t ∧ t ≠ .waiting := by
    intro j old new hold hnew
    rw [getElem?_setTimer hold]
    by_cases hj : j = id
    · exact ⟨new, if_pos hj, hnew⟩
    · exact ⟨t, by rw [if_neg hj, ht], hne⟩
  cases Step.of_step hs with
  | push hpc' hfree _ _ _ =>
    rw [hpc] at hfree
    cases hfree
  | take hpc' _ | final hpc' _ | work hpc' _ | put hpc' _ | delete hpc' _ =>
    rw [hpc] at hpc'
    cases hpc'
  | destroy hpc' hwait =>
    rw [hpc] at hpc'
    cases hpc'
    rw [ht, Option.some.injEq] at hwait
    exact absurd hwait hne
  | fire hwait => exact ⟨hpc, hset _ _ _ hwait (by decide)⟩
  | timeout hfired _ => exact ⟨hpc, hset _ _ _ hfired (by decide)⟩
  | expired hsent _ => exact ⟨hpc, hset _ _ _ hsent (by decide)⟩
  | _ => exact ⟨hpc, t, ht, hne⟩

theorem cycle_stuck {id : ℕ} {c : Chan} {frame : StreamFrame × ℕ}
    {frames : List (StreamFrame × ℕ)} {got : StreamFrame} {next : Push}
    (hpc : s.decode = .put id c (frame :: frames)) (hfull : s.fecChan.length = fecChanCap)
    (hgot : s.consumer = .got got) (hlock : s.frameHandler = .locked next) {as : List Label}
    (h : Run (step streamID) ok s as s') : s'.decode = .put id c (frame :: frames) := by
  refine (Run.invariant (fun s => s.decode = .put id c (frame :: frames) ∧
    s.fecChan.length = fecChanCap ∧ s.consumer = .got got ∧ s.frameHandler = .locked next)
    ⟨hpc, hfull, hgot, hlock⟩ ?_ h).1
  rintro s a s' ⟨hpc, hfull, hgot, hlock⟩ _ hs
  cases Step.of_step hs with
  | pushNone _ hfree _ | push _ hfree _ _ _ =>
    rw [hpc] at hfree
    cases hfree
  | put _ hroom => omega
  | fire _ | timeout _ _ | expired _ _ => exact ⟨hpc, hfull, hgot, hlock⟩
  | recvFinal hpc' _ | recv hpc' _ =>
    rw [hgot] at hpc'
    cases hpc'
  | store _ hidle | storeErr _ hidle =>
    rw [hlock] at hidle
    cases hidle
  | arrive hpc' _ | checkNone hpc' _ _ | check hpc' _ _ | send hpc' _ | mark hpc' _ | release hpc' =>
    rw [hlock] at hpc'
    cases hpc'
  | take hpc' _ | final hpc' _ | work hpc' _ | delete hpc' _ | destroy hpc' _ =>
    rw [hpc] at hpc'
    cases hpc'

end

/- The first frame of a stream, whose block is not complete when its timer expires. -/
def firstFrame : Push := .stream ⟨4, 0, [1, 2, 3], false⟩ 7

def lateBlock : List Label :=
  [.arrive firstFrame, .push, .check, .release, .fire 0, .timeout 0, .take .timeout, .work,
    .delete]

/- The timer expires: `decode` takes the buffer from `timeoutChan` and stays in `Destroy`. -/
theorem decode_stuck_after_timeout : ∃ s, Run (step 4) always init lateBlock s ∧
    s.decode = .destroy 0 .timeout ∧ s.timers[0]? ≠ some .waiting ∧
    ∀ bs s', Run (step 4) always s bs s' → s'.decode = .destroy 0 .timeout := by
  obtain ⟨s, hrun, hs⟩ := Run.exists_of_exec (step 4) init lateBlock
    (fun s => decide (s.decode = .destroy 0 .timeout ∧ s.timers[0]? = some Timer.sent))
    (Guarded.always _) (by decide +kernel)
  obtain ⟨hpc, ht⟩ := of_decide_eq_true hs
  refine ⟨s, hrun, hpc, by rw [ht]; decide, ?_⟩
  intro bs s' h
  exact destroy_stuck hpc ht (by decide) h

end Receiver

end Mp2bs.Fec
