import Mp2bs.Fec.Receiver

/-!
# Each block is handed to `decode` once

A buffer can be sent on a channel of `CheckDecodingPossible` and on `timeoutChan` as well, since the
timer goroutine does not look at `decodeStarted`.
-/

namespace Mp2bs.Fec
open Mp2bs.Lib.Machine

/-! ### What the writes to a buffer keep -/

namespace FecBuffer

variable {b b' : FecBuffer} {frames : List (StreamFrame × ℕ)}

theorem push_keeps {frame : Push} (h : b.push frame = .ok b') :
    b'.block = b.block ∧ b'.decodeStarted = b.decodeStarted := by
  cases frame with
  | stream frame packetNumber =>
    simp only [FecBuffer.push, pushStreamFrame] at h
    split at h
    next => cases h
    next =>
      cases h
      exact ⟨rfl, rfl⟩
    next =>
      cases h
      exact ⟨rfl, rfl⟩
  | fec frame =>
    simp only [FecBuffer.push, pushFecFrame] at h
    split at h
    next => cases h
    next =>
      cases h
      exact ⟨rfl, rfl⟩
    next =>
      cases h
      exact ⟨rfl, rfl⟩

theorem decodeBlock_eq (h : b.decodeBlock = .ok (b', frames)) :
    ∃ encBlock bufferMap, b' = { b with encBlock := encBlock, bufferMap := bufferMap } := by
  have hget : ∀ {b₁ : FecBuffer} {out : EncodeBlock}, b.getEncodeBlock = .ok (b₁, out) →
      ∃ encBlock bufferMap, b₁ = { b with encBlock := encBlock, bufferMap := bufferMap } := by
    intro b₁ out hget
    unfold getEncodeBlock at hget
    split at hget
    next => cases hget
    next =>
      split at hget
      next => cases hget
      next =>
        split at hget
        next => cases hget
        next =>
          cases hget
          exact ⟨_, _, rfl⟩
  cases hout : b.getEncodeBlock with
  | error stop =>
    rw [decodeBlock_of_error hout] at h
    cases h
  | ok r =>
    rw [decodeBlock_of_get hout, Except.ok.injEq, Prod.mk.injEq] at h
    exact h.1 ▸ hget hout

theorem decodeBlock_keeps (h : b.decodeBlock = .ok (b', frames)) :
    b'.block = b.block ∧ b'.decodeStarted = b.decodeStarted := by
  obtain ⟨_, _, rfl⟩ := decodeBlock_eq h
  exact ⟨rfl, rfl⟩

end FecBuffer

namespace FecHandler

theorem work_ok {f f' : FecHandler} {id : ℕ} {c : Chan} {frames : List (StreamFrame × ℕ)}
    (h : f.work id c = .ok (f', frames)) :
    ∃ b f₁ b', f.buffers[id]? = some b ∧ f.updateWindow b = .ok f₁ ∧
      (c.complete = true ∧ b' = b ∧ f' = f₁ ∧ frames = [] ∨
        c.complete = false ∧ b.decodeBlock = .ok (b', frames) ∧ f' = f₁.setBuffer id b') := by
  unfold work at h
  split at h
  next => cases h
  next b hb =>
    split at h
    next => cases h
    next f₁ hup =>
      split at h
      next hc =>
        cases h
        exact ⟨b, f', b, hb, hup, Or.inl ⟨hc, rfl, rfl, rfl⟩⟩
      next hc =>
        split at h
        next => cases h
        next b' frames' hdec =>
          cases h
          exact ⟨b, f₁, b', hb, hup, Or.inr ⟨Bool.not_eq_true _ ▸ hc, hdec, rfl⟩⟩

theorem getElem?_setBuffer {f : FecHandler} {id j : ℕ} {b b' : FecBuffer}
    (hb : f.buffers[id]? = some b) :
    (f.setBuffer id b').buffers[j]? = if id = j then some b' else f.buffers[j]? := by
  rw [setBuffer, List.getElem?_set, if_pos (List.getElem?_eq_some_iff.mp hb).1]

end FecHandler

/-! ### Where a buffer can be -/

/- The buffer that `decode` is busy with; whether it has updated the window for it, and
deleted it from `decQueue`. -/
namespace Decode

def current : Decode → Option ℕ
  | .idle | .ended => none
  | .final id | .lock id _ | .put id _ _ | .destroy id _ => some id

def updated : Decode → Option ℕ
  | .put id _ _ | .destroy id _ => some id
  | _ => none

def deleted : Decode → Option ℕ
  | .destroy id _ => some id
  | _ => none

def frames : Decode → List (StreamFrame × ℕ)
  | .put _ _ frames => frames
  | _ => []

end Decode

def FrameHandler.marking : FrameHandler → Option ℕ
  | .mark id _ => some id
  | _ => none

def FrameHandler.buffer : FrameHandler → Option ℕ
  | .check id _ | .send id _ _ | .mark id _ => some id
  | _ => none

namespace Receiver

def ids (s : Receiver) : List ℕ := s.received.map (·.1)

def sentOn (s : Receiver) (c : Chan) : List ℕ :=
  (s.received.filter (·.2 = c)).map (·.1) ++ s.chan c

def Started (s : Receiver) (id : ℕ) : Prop :=
  ∃ b, s.handler.buffers[id]? = some b ∧ b.decodeStarted = true

def Windowed (streamID : ℕ) (s : Receiver) : Prop :=
  ∃ old, s.ids = old ++ s.decode.current.toList ∧
    s.handler.Inv streamID (old ++ s.decode.updated.toList) (old ++ s.decode.deleted.toList)

structure Handover (streamID : ℕ) (s : Receiver) : Prop where
  window : s.Windowed streamID
  timers : s.timers.length = s.handler.buffers.length
  buffer : ∀ id, s.frameHandler.buffer = some id → id < s.handler.buffers.length
  made : ∀ c, ∀ id ∈ s.sentOn c, id < s.handler.buffers.length
  nodup : ∀ c, (s.sentOn c).Nodup
  disjoint : ∀ c c', c ≠ .timeout → c' ≠ .timeout → c ≠ c' → ∀ id ∈ s.sentOn c, id ∉ s.sentOn c'
  started : ∀ c, c ≠ .timeout → ∀ id ∈ s.sentOn c,
    s.Started id ∨ s.frameHandler.marking = some id
  sending : ∀ id c frame, s.frameHandler = .send id c frame →
    c ≠ .timeout ∧ ∀ c', c' ≠ .timeout → id ∉ s.sentOn c'
  expired : ∀ id ∈ s.sentOn .timeout,
    s.timers[id]? = some .sent ∨ s.timers[id]? = some .ended
  destroyed : ∀ id ∈ s.ids, s.decode.current = some id ∨ s.timers[id]? = some .stopped
  once : s.ids.Nodup

theorem init_handover (streamID : ℕ) : init.Handover streamID := by
  refine ⟨⟨[], rfl, FecHandler.new_inv streamID⟩, rfl, ?_, ?_, ?_, ?_, ?_, ?_, ?_, ?_, .nil⟩
  · intro id h
    cases h
  · intro c id h
    cases h
  · intro c
    exact .nil
  · intro c c' _ _ _ id h
    cases h
  · intro c _ id h
    cases h
  · intro id c frame h
    cases h
  · intro id h
    cases h
  · intro id h
    cases h

theorem sentOn_enqueue (s : Receiver) (c c' : Chan) (id : ℕ) :
    (s.enqueue c id).sentOn c' = if c' = c then s.sentOn c' ++ [id] else s.sentOn c' := by
  by_cases h : c' = c
  · subst h
    simp [sentOn, enqueue]
  · simp [sentOn, enqueue, h]

theorem sentOn_take {s : Receiver} {c : Chan} {id : ℕ} {rest : List ℕ} (hc : s.chan c = id :: rest)
    (d : Decode) (c' : Chan) :
    ({ s with
      chan := Function.update s.chan c rest
      decode := d
      received := s.received ++ [(id, c)] } : Receiver).sentOn c' = s.sentOn c' := by
  by_cases h : c' = c
  · subst h
    simp [sentOn, hc]
  · simp [sentOn, h, Ne.symm h]

section
variable {streamID : ℕ} {s s' : Receiver}

theorem Handover.pc (h : s.Handover streamID) (hm : s.frameHandler.marking = none)
    (pc : FrameHandler) (hbuf : ∀ id, pc.buffer = some id → id < s.handler.buffers.length)
    (hsend : ∀ id c frame, pc = .send id c frame →
      c ≠ .timeout ∧ ∀ c', c' ≠ .timeout → id ∉ s.sentOn c') :
    ({ s with frameHandler := pc } : Receiver).Handover streamID := by
  have hstarted : ∀ c, c ≠ .timeout → ∀ id ∈ s.sentOn c, s.Started id ∨ pc.marking = some id := by
    intro c hc id hid
    rcases h.started c hc id hid with hst | hmark
    · exact Or.inl hst
    · rw [hm] at hmark
      cases hmark
  exact { h with buffer := hbuf, started := hstarted, sending := hsend }

variable {f : FecHandler} {id j : ℕ} {b b' : FecBuffer} {old t : Timer} {frame : Push} {c : Chan}
  {rest : List ℕ} {d : Decode}

theorem Handover.writes (h : s.Handover streamID) (timers : List Timer)
    (hlen : s.handler.buffers.length ≤ f.buffers.length)
    (htimers : timers.length = f.buffers.length)
    (hsame : ∀ (id : ℕ) (t : Timer), s.timers[id]? = some t → timers[id]? = some t)
    (hkeep : ∀ id, s.Started id → ∃ b, f.buffers[id]? = some b ∧ b.decodeStarted = true)
    (hw : ({ s with handler := f, timers := timers } : Receiver).Windowed streamID) :
    ({ s with handler := f, timers := timers } : Receiver).Handover streamID := by
  refine ⟨hw, htimers, ?_, ?_, h.nodup, h.disjoint, ?_, h.sending, ?_, ?_, h.once⟩
  · intro id hid
    exact lt_of_lt_of_le (h.buffer id hid) hlen
  · intro c id hid
    exact lt_of_lt_of_le (h.made c id hid) hlen
  · intro c hc id hid
    rcases h.started c hc id hid with hst | hmark
    · exact Or.inl (hkeep id hst)
    · exact Or.inr hmark
  · intro id hid
    rcases h.expired id hid with ht | ht
    · exact Or.inl (hsame id _ ht)
    · exact Or.inr (hsame id _ ht)
  · intro id hid
    rcases h.destroyed id hid with hcur | ht
    · exact Or.inl hcur
    · exact Or.inr (hsame id _ ht)

theorem started_setBuffer (hb : f.buffers[id]? = some b)
    (hkeep : b.decodeStarted = true → b'.decodeStarted = true)
    (hst : ∃ x, f.buffers[j]? = some x ∧ x.decodeStarted = true) :
    ∃ x, (f.setBuffer id b').buffers[j]? = some x ∧ x.decodeStarted = true := by
  obtain ⟨x, hx, hs⟩ := hst
  rw [FecHandler.getElem?_setBuffer hb]
  by_cases hj : id = j
  · subst hj
    rw [hb, Option.some.injEq] at hx
    exact ⟨b', if_pos rfl, hkeep (hx ▸ hs)⟩
  · exact ⟨x, by rw [if_neg hj, hx], hs⟩

theorem length_setBuffer (f : FecHandler) (id : ℕ) (b : FecBuffer) :
    (f.setBuffer id b).buffers.length = f.buffers.length := List.length_set

theorem Handover.setStarted (h : s.Handover streamID) (hb : s.handler.buffers[id]? = some b) :
    (s.setStarted id b).Handover streamID := by
  obtain ⟨old, hids, hinv⟩ := h.window
  refine h.writes s.timers (length_setBuffer ..).ge ?_ (fun _ _ ht => ht) ?_ ?_
  · rw [length_setBuffer]
    exact h.timers
  · intro j hst
    exact started_setBuffer hb (fun _ => rfl) hst
  · exact ⟨old, hids, hinv.setBuffer hb rfl⟩

theorem started_of_setStarted (hb : s.handler.buffers[id]? = some b) :
    (s.setStarted id b).Started id :=
  ⟨{ b with decodeStarted := true }, by
    rw [Receiver.setStarted, FecHandler.getElem?_setBuffer hb, if_pos rfl], rfl⟩

theorem getElem?_setTimer (hold : s.timers[id]? = some old) :
    (s.setTimer id t).timers[j]? = if id = j then some t else s.timers[j]? := by
  rw [Receiver.setTimer, List.getElem?_set, if_pos (List.getElem?_eq_some_iff.mp hold).1]

theorem Handover.setTimer (h : s.Handover streamID) (hold : s.timers[id]? = some old)
    (hexp : id ∈ s.sentOn .timeout → t = .sent ∨ t = .ended)
    (hdest : id ∈ s.ids → s.decode.current = some id ∨ t = .stopped) :
    (s.setTimer id t).Handover streamID := by
  refine { h with window := h.window, timers := ?_, expired := ?_, destroyed := ?_ }
  · show (s.timers.set id t).length = s.handler.buffers.length
    rw [List.length_set, h.timers]
  · intro j hj
    rw [getElem?_setTimer hold]
    by_cases hij : id = j
    · subst hij
      rw [if_pos rfl, Option.some.injEq, Option.some.injEq]
      exact hexp hj
    · rw [if_neg hij]
      exact h.expired j hj
  · intro j hj
    rw [getElem?_setTimer hold]
    by_cases hij : id = j
    · subst hij
      rw [if_pos rfl, Option.some.injEq]
      exact hdest hj
    · rw [if_neg hij]
      exact h.destroyed j hj

theorem Handover.not_expired (h : s.Handover streamID) (ht : s.timers[id]? = some t)
    (hsent : t ≠ .sent) (hended : t ≠ .ended) : id ∉ s.sentOn .timeout := by
  intro hid
  rcases h.expired id hid with he | he
  · rw [ht, Option.some.injEq] at he
    exact hsent he
  · rw [ht, Option.some.injEq] at he
    exact hended he

theorem Handover.current (h : s.Handover streamID) (ht : s.timers[id]? = some t)
    (hne : t ≠ .stopped) (hid : id ∈ s.ids) : s.decode.current = some id := by
  rcases h.destroyed id hid with hcur | he
  · exact hcur
  · rw [ht, Option.some.injEq] at he
    exact absurd he hne

/-! ### The steps -/

theorem Handover.push (h : s.Handover streamID) (hpc : s.frameHandler = .locked frame)
    (hfree : s.decode.holdsMutex = false)
    (hget : s.handler.getOrCreateFecBuffer streamID frame.offset = (f, some id))
    (hb : f.buffers[id]? = some b) (hpush : b.push frame = .ok b') :
    ({ s.withHandler (f.setBuffer id b') with frameHandler := .check id frame } :
      Receiver).Handover streamID := by
  obtain ⟨hblock, hkeep⟩ := FecBuffer.push_keeps hpush
  obtain ⟨old, hids, hinv⟩ := h.window
  have hup : s.decode.updated = none ∧ s.decode.deleted = none := by
    cases hd : s.decode <;> simp [hd, Decode.holdsMutex, Decode.updated, Decode.deleted] at hfree ⊢
  rw [hup.1, hup.2] at hinv
  obtain ⟨_, _, hbuffers⟩ := hinv.getOrCreate_some hget
  have hf := hinv.getOrCreate frame.offset
  rw [hget] at hf
  have hlen : s.handler.buffers.length ≤ f.buffers.length := by
    rcases hbuffers with hsame | ⟨_, hnew⟩
    · rw [hsame]
    · rw [hnew, List.length_append]
      omega
  have hgrow : ∀ (j : ℕ) (x : FecBuffer), s.handler.buffers[j]? = some x →
      f.buffers[j]? = some x := by
    intro j x hx
    rcases hbuffers with hsame | ⟨_, hnew⟩
    · rw [hsame, hx]
    · rw [hnew]
      exact FecHandler.getElem?_concat.mpr (Or.inl hx)
  have hwrites : (s.withHandler (f.setBuffer id b')).Handover streamID := by
    refine h.writes _ (by rw [length_setBuffer]; exact hlen) ?_ ?_ ?_ ?_
    · rw [length_setBuffer, List.length_append, List.length_replicate, h.timers]
      omega
    · intro j t ht
      rw [List.getElem?_append_left (List.getElem?_eq_some_iff.mp ht).1, ht]
    · rintro j ⟨x, hx, hs⟩
      exact started_setBuffer hb (fun hst => by rw [hkeep, hst]) ⟨x, hgrow j x hx, hs⟩
    · refine ⟨old, hids, ?_⟩
      show (f.setBuffer id b').Inv streamID (old ++ s.decode.updated.toList)
        (old ++ s.decode.deleted.toList)
      rw [hup.1, hup.2]
      exact hf.setBuffer hb hblock
  refine hwrites.pc (by rw [show (s.withHandler (f.setBuffer id b')).frameHandler =
    .locked frame from hpc]; rfl) _ ?_ ?_
  · intro j hj
    cases hj
    show id < (f.setBuffer id b').buffers.length
    rw [length_setBuffer]
    exact (List.getElem?_eq_some_iff.mp hb).1
  · intro j c frame' hpc'
    cases hpc'

theorem checkDecodingPossible_some {fin : Bool} (h : b.checkDecodingPossible fin = some c) :
    b.decodeStarted = false ∧ c ≠ .timeout := by
  unfold FecBuffer.checkDecodingPossible at h
  split at h
  next => cases h
  next hst =>
    refine ⟨Bool.not_eq_true _ ▸ hst, ?_⟩
    rintro rfl
    split at h
    next => cases h
    next =>
      split at h
      next => cases h
      next =>
        split at h
        next => cases h
        next => cases h

theorem Handover.check (h : s.Handover streamID) (hpc : s.frameHandler = .check id frame)
    (hb : s.handler.buffers[id]? = some b) (hcheck : b.checkDecodingPossible frame.fin = some c) :
    ({ s with frameHandler := .send id c frame } : Receiver).Handover streamID := by
  obtain ⟨hst, hc⟩ := checkDecodingPossible_some hcheck
  have hm : s.frameHandler.marking = none := by
    rw [hpc]
    rfl
  refine h.pc hm _ ?_ ?_
  · intro j hj
    cases hj
    exact h.buffer id (by rw [hpc]; rfl)
  · intro j c' frame' hpc'
    cases hpc'
    refine ⟨hc, ?_⟩
    intro c' hc' hid
    rcases h.started c' hc' id hid with ⟨b', hb', hst'⟩ | hmark
    · rw [hb, Option.some.injEq] at hb'
      rw [← hb', hst] at hst'
      cases hst'
    · rw [hm] at hmark
      cases hmark

theorem Handover.send (h : s.Handover streamID) (hpc : s.frameHandler = .send id c frame) :
    ({ s.enqueue c id with frameHandler := .mark id frame } : Receiver).Handover streamID := by
  obtain ⟨hc, hnew⟩ := h.sending id c frame hpc
  have hidlt := h.buffer id (by rw [hpc]; rfl)
  have hm : s.frameHandler.marking = none := by
    rw [hpc]
    rfl
  have hsent : ∀ c', ({ s.enqueue c id with frameHandler := .mark id frame } : Receiver).sentOn c' =
      if c' = c then s.sentOn c' ++ [id] else s.sentOn c' :=
    fun c' => sentOn_enqueue s c c' id
  have hmem : ∀ c' j, j ∈ ({ s.enqueue c id with frameHandler := .mark id frame } :
      Receiver).sentOn c' ↔ j ∈ s.sentOn c' ∨ c' = c ∧ j = id := by
    intro c' j
    rw [hsent]
    by_cases hcc : c' = c
    · simp [hcc]
    · simp [hcc]
  refine ⟨h.window, h.timers, ?_, ?_, ?_, ?_, ?_, ?_, ?_, h.destroyed, h.once⟩
  · intro j hj
    cases hj
    exact hidlt
  · intro c' j hj
    rcases (hmem c' j).mp hj with hj | ⟨_, rfl⟩
    · exact h.made c' j hj
    · exact hidlt
  · intro c'
    rw [hsent]
    by_cases hcc : c' = c
    · subst hcc
      rw [if_pos rfl]
      refine List.Nodup.append (h.nodup c') (List.nodup_singleton id) ?_
      intro j hj hj'
      rw [List.mem_singleton.mp hj'] at hj
      exact hnew c' hc hj
    · rw [if_neg hcc]
      exact h.nodup c'
  · intro c₁ c₂ h₁ h₂ hne j hj hj'
    rcases (hmem c₁ j).mp hj with hold | ⟨hc₁, hjid⟩
    · rcases (hmem c₂ j).mp hj' with hold' | ⟨_, hjid⟩
      · exact h.disjoint c₁ c₂ h₁ h₂ hne j hold hold'
      · exact hnew c₁ h₁ (hjid ▸ hold)
    · rcases (hmem c₂ j).mp hj' with hold' | ⟨hc₂, _⟩
      · exact hnew c₂ h₂ (hjid ▸ hold')
      · exact hne (hc₁.trans hc₂.symm)
  · intro c' hc' j hj
    rcases (hmem c' j).mp hj with hj | ⟨_, rfl⟩
    · rcases h.started c' hc' j hj with hst | hmark
      · exact Or.inl hst
      · rw [hm] at hmark
        cases hmark
    · exact Or.inr rfl
  · intro j c' frame' hpc'
    cases hpc'
  · intro j hj
    rcases (hmem .timeout j).mp hj with hj | ⟨hcc, _⟩
    · exact h.expired j hj
    · exact absurd hcc.symm hc

theorem Handover.mark (h : s.Handover streamID) (hpc : s.frameHandler = .mark id frame)
    (hb : s.handler.buffers[id]? = some b) :
    ({ s.setStarted id b with frameHandler := .release frame } : Receiver).Handover streamID := by
  have hset := h.setStarted hb
  refine { hset with window := hset.window, buffer := ?_, started := ?_, sending := ?_ }
  · intro j hj
    cases hj
  · intro c hc j hj
    rcases hset.started c hc j hj with hst | hmark
    · exact Or.inl hst
    · rw [show (s.setStarted id b).frameHandler = .mark id frame from hpc] at hmark
      cases hmark
      exact Or.inl (started_of_setStarted hb)
  · intro j c frame' hpc'
    cases hpc'

theorem Handover.new (h : s.Handover streamID) (hpc : s.decode = .idle)
    (hc : s.chan c = id :: rest) : id ∉ s.ids := by
  intro hid
  have hstop : s.timers[id]? = some .stopped := by
    rcases h.destroyed id hid with hcur | ht
    · rw [hpc] at hcur
      cases hcur
    · exact ht
  have hexp := h.not_expired hstop (by decide) (by decide)
  have hin : id ∈ s.sentOn c := by
    rw [sentOn, hc]
    exact List.mem_append_right _ (List.mem_cons_self ..)
  obtain ⟨⟨j, c'⟩, hr, rfl⟩ := List.mem_map.mp hid
  have hin' : j ∈ (s.received.filter (·.2 = c')).map (·.1) :=
    List.mem_map.mpr ⟨(j, c'), List.mem_filter.mpr ⟨hr, by simp⟩, rfl⟩
  have hc₁ : c ≠ .timeout := fun he => hexp (he ▸ hin)
  have hc₂ : c' ≠ .timeout := fun he => hexp (he ▸ List.mem_append_left _ hin')
  by_cases hcc : c = c'
  · subst hcc
    have hnd := h.nodup c
    rw [sentOn, hc] at hnd
    exact (List.nodup_append.mp hnd).2.2 j hin' j (List.mem_cons_self ..) rfl
  · exact h.disjoint c c' hc₁ hc₂ hcc j hin (List.mem_append_left _ hin')

theorem Handover.take (h : s.Handover streamID) (hpc : s.decode = .idle)
    (hc : s.chan c = id :: rest) (hd : d.current = some id ∧ d.updated = none ∧ d.deleted = none) :
    ({ s with
      chan := Function.update s.chan c rest
      decode := d
      received := s.received ++ [(id, c)] } : Receiver).Handover streamID := by
  have hsent := sentOn_take hc d
  have hids : ({ s with
      chan := Function.update s.chan c rest
      decode := d
      received := s.received ++ [(id, c)] } : Receiver).ids = s.ids ++ [id] := by
    simp [ids]
  obtain ⟨old, hold, hinv⟩ := h.window
  rw [hpc] at hold hinv
  refine ⟨⟨old, ?_, ?_⟩, h.timers, h.buffer, ?_, ?_, ?_, ?_, ?_, ?_, ?_, ?_⟩
  · rw [hids, hold, hd.1]
    simp [Decode.current]
  · show s.handler.Inv streamID (old ++ d.updated.toList) (old ++ d.deleted.toList)
    rw [hd.2.1, hd.2.2]
    exact hinv
  · intro c'
    rw [hsent]
    exact h.made c'
  · intro c'
    rw [hsent]
    exact h.nodup c'
  · intro c₁ c₂
    rw [hsent, hsent]
    exact h.disjoint c₁ c₂
  · intro c'
    rw [hsent]
    exact h.started c'
  · intro j c₁ frame hsend
    refine ⟨(h.sending j c₁ frame hsend).1, ?_⟩
    intro c'
    rw [hsent]
    exact (h.sending j c₁ frame hsend).2 c'
  · rw [hsent]
    exact h.expired
  · intro j hj
    rw [hids] at hj
    rcases List.mem_append.mp hj with hj | hj
    · rcases h.destroyed j hj with hcur | ht
      · rw [hpc] at hcur
        cases hcur
      · exact Or.inr ht
    · rw [List.mem_singleton.mp hj]
      exact Or.inl hd.1
  · rw [hids]
    refine List.Nodup.append h.once (List.nodup_singleton id) ?_
    intro j hj hj'
    rw [List.mem_singleton.mp hj'] at hj
    exact h.new hpc hc hj

theorem Handover.unfinished (h : s.Handover streamID) (hpc : s.decode = .lock id c) :
    ∃ old, s.ids = old ++ [id] ∧ id ∉ old ∧ s.handler.Inv streamID old old := by
  obtain ⟨old, hold, hinv⟩ := h.window
  rw [hpc] at hold hinv
  have hids : s.ids = old ++ [id] := hold
  refine ⟨old, hids, ?_, by simpa [Decode.updated, Decode.deleted] using hinv⟩
  have hnd := h.once
  rw [hids] at hnd
  intro hin
  exact (List.nodup_append.mp hnd).2.2 id hin id (List.mem_singleton_self id) rfl

theorem Handover.work (h : s.Handover streamID) {frames : List (StreamFrame × ℕ)}
    (hpc : s.decode = .lock id c) (hwork : s.handler.work id c = .ok (f, frames)) :
    ({ s with handler := f, decode := .put id c frames } : Receiver).Handover streamID := by
  obtain ⟨old, hids, hnew, hinv⟩ := h.unfinished hpc
  obtain ⟨b, f₁, b', hb, hup, hcase⟩ := FecHandler.work_ok hwork
  obtain ⟨f₂, hup₂, _, hbuf, hinv₂⟩ := hinv.update hb hnew
  rw [hup, Except.ok.injEq] at hup₂
  subst hup₂
  have hb₁ : f₁.buffers[id]? = some b := by rw [hbuf, hb]
  have hf : f.buffers.length = s.handler.buffers.length ∧
      f.Inv streamID (old ++ [id]) old ∧
      ∀ j, s.Started j → ∃ x, f.buffers[j]? = some x ∧ x.decodeStarted = true := by
    rcases hcase with ⟨_, _, rfl, _⟩ | ⟨_, hdec, rfl⟩
    · refine ⟨by rw [hbuf], hinv₂, ?_⟩
      rintro j ⟨x, hx, hs⟩
      exact ⟨x, by rw [hbuf, hx], hs⟩
    · obtain ⟨hblock, hkeep⟩ := FecBuffer.decodeBlock_keeps hdec
      refine ⟨by rw [length_setBuffer, hbuf], hinv₂.setBuffer hb₁ hblock, ?_⟩
      rintro j ⟨x, hx, hs⟩
      exact started_setBuffer hb₁ (fun hst => by rw [hkeep, hst]) ⟨x, by rw [hbuf, hx], hs⟩
  obtain ⟨hlen, hinv', hkeep⟩ := hf
  refine ⟨⟨old, hids, ?_⟩, ?_, ?_, ?_, h.nodup, h.disjoint, ?_, h.sending, h.expired, ?_, h.once⟩
  · simpa [Decode.updated, Decode.deleted] using hinv'
  · exact h.timers.trans hlen.symm
  · intro j hj
    exact hlen ▸ h.buffer j hj
  · intro c' j hj
    exact hlen ▸ h.made c' j hj
  · intro c' hc' j hj
    rcases h.started c' hc' j hj with hst | hmark
    · exact Or.inl (hkeep j hst)
    · exact Or.inr hmark
  · intro j hj
    rcases h.destroyed j hj with hcur | ht
    · rw [hpc] at hcur
      exact Or.inl hcur
    · exact Or.inr ht

theorem Handover.delete (h : s.Handover streamID) (hpc : s.decode = .put id c [])
    (hb : s.handler.buffers[id]? = some b) :
    ({ s with handler := s.handler.deleteBuffer b, decode := .destroy id c } :
      Receiver).Handover streamID := by
  obtain ⟨old, hold, hinv⟩ := h.window
  have hdest := h.destroyed
  rw [hpc] at hold hinv hdest
  have hinv' : s.handler.Inv streamID (old ++ [id]) old := by
    simpa [Decode.updated, Decode.deleted] using hinv
  exact { h with
    window := ⟨old, hold, hinv'.delete hb (by simp)⟩
    destroyed := hdest }

theorem Handover.same (h : s.Handover streamID) (hcur : d.current = s.decode.current)
    (hup : d.updated = s.decode.updated) (hdel : d.deleted = s.decode.deleted)
    {fecChan delivered : List StreamFrame} {fecChanFinal : ℕ} :
    ({ s with
      decode := d
      fecChan := fecChan
      delivered := delivered
      fecChanFinal := fecChanFinal } : Receiver).Handover streamID := by
  obtain ⟨old, hold, hinv⟩ := h.window
  have hdest := h.destroyed
  rw [← hup, ← hdel] at hinv
  rw [← hcur] at hold hdest
  exact { h with window := ⟨old, hold, hinv⟩, destroyed := hdest }

theorem Handover.destroy (h : s.Handover streamID) (hpc : s.decode = .destroy id c)
    (htimer : s.timers[id]? = some .waiting)
    (hd : d.current = none ∧ d.updated = none ∧ d.deleted = none) :
    ({ s.setTimer id .stopped with decode := d } : Receiver).Handover streamID := by
  have hset := h.setTimer (t := .stopped) htimer
    (fun hexp => absurd hexp (h.not_expired htimer (by decide) (by decide))) (fun _ => Or.inr rfl)
  obtain ⟨old, hold, hinv⟩ := h.window
  rw [hpc] at hold hinv
  refine { hset with window := ⟨old ++ [id], ?_, ?_⟩, destroyed := ?_ }
  · show s.ids = old ++ [id] ++ d.current.toList
    rw [hd.1, hold]
    simp [Decode.current]
  · show s.handler.Inv streamID (old ++ [id] ++ d.updated.toList) (old ++ [id] ++ d.deleted.toList)
    rw [hd.2.1, hd.2.2]
    simpa [Decode.updated, Decode.deleted] using hinv
  · intro j hj
    right
    rcases hset.destroyed j hj with hcur | ht
    · rw [show (s.setTimer id .stopped).decode = .destroy id c from hpc] at hcur
      cases hcur
      show (s.setTimer id .stopped).timers[id]? = _
      rw [getElem?_setTimer htimer, if_pos rfl]
    · exact ht

theorem Handover.timeout (h : s.Handover streamID) (htimer : s.timers[id]? = some .fired) :
    ((s.enqueue .timeout id).setTimer id .sent).Handover streamID := by
  have hlt := (List.getElem?_eq_some_iff.mp htimer).1
  have hnew := h.not_expired htimer (by decide) (by decide)
  have hset := h.setTimer (t := .sent) htimer (fun _ => Or.inl rfl)
    (fun hid => Or.inl (h.current htimer (by decide) hid))
  have hsent : ∀ c', ((s.enqueue .timeout id).setTimer id .sent).sentOn c' =
      if c' = .timeout then s.sentOn c' ++ [id] else s.sentOn c' :=
    fun c' => sentOn_enqueue s .timeout c' id
  have hother : ∀ c', c' ≠ .timeout →
      ((s.enqueue .timeout id).setTimer id .sent).sentOn c' = s.sentOn c' := by
    intro c' hc'
    rw [hsent, if_neg hc']
  refine ⟨h.window, hset.timers, h.buffer, ?_, ?_, ?_, ?_, ?_, ?_, hset.destroyed, h.once⟩
  · intro c' j hj
    rw [hsent] at hj
    by_cases hc' : c' = .timeout
    · rw [if_pos hc'] at hj
      rcases List.mem_append.mp hj with hj | hj
      · exact h.made c' j hj
      · rw [List.mem_singleton.mp hj]
        exact h.timers ▸ hlt
    · rw [if_neg hc'] at hj
      exact h.made c' j hj
  · intro c'
    rw [hsent]
    by_cases hc' : c' = .timeout
    · subst hc'
      rw [if_pos rfl]
      refine List.Nodup.append (h.nodup _) (List.nodup_singleton id) ?_
      intro j hj hj'
      rw [List.mem_singleton.mp hj'] at hj
      exact hnew hj
    · rw [if_neg hc']
      exact h.nodup c'
  · intro c₁ c₂ h₁ h₂
    rw [hother c₁ h₁, hother c₂ h₂]
    exact h.disjoint c₁ c₂ h₁ h₂
  · intro c' hc'
    rw [hother c' hc']
    exact h.started c' hc'
  · intro j c' frame hpc
    refine ⟨(h.sending j c' frame hpc).1, ?_⟩
    intro c₁ h₁
    rw [hother c₁ h₁]
    exact (h.sending j c' frame hpc).2 c₁ h₁
  · intro j hj
    rw [hsent, if_pos rfl] at hj
    rcases List.mem_append.mp hj with hj | hj
    · exact hset.expired j hj
    · rw [List.mem_singleton.mp hj]
      left
      show (s.setTimer id .sent).timers[id]? = _
      rw [getElem?_setTimer htimer, if_pos rfl]

theorem Handover.step (h : s.Handover streamID) {a : Label} (hs : Step streamID s a s') :
    s'.Handover streamID := by
  cases hs with
  | arrive hidle _ =>
    refine h.pc (by rw [hidle]; rfl) _ ?_ ?_
    · intro id hid
      cases hid
    · intro id c frame hpc
      cases hpc
  | pushNone hpc _ _ =>
    refine h.pc (by rw [hpc]; rfl) _ ?_ ?_
    · intro id hid
      cases hid
    · intro id c frame hpc
      cases hpc
  | push hpc hfree hget hb hpush => exact h.push hpc hfree hget hb hpush
  | checkNone hpc _ _ =>
    refine h.pc (by rw [hpc]; rfl) _ ?_ ?_
    · intro id hid
      cases hid
    · intro id c frame hpc
      cases hpc
  | check hpc hb hcheck => exact h.check hpc hb hcheck
  | send hpc _ => exact h.send hpc
  | mark hpc hb => exact h.mark hpc hb
  | release hpc =>
    have hrel := h.pc (by rw [hpc]; rfl) .idle (fun id hid => by cases hid)
      (fun id c frame hpc => by cases hpc)
    exact { hrel with window := hrel.window }
  | @take c id _ hpc hc =>
    refine h.take hpc hc ?_
    by_cases hfin : c = .final
    · rw [if_pos hfin]
      exact ⟨rfl, rfl, rfl⟩
    · rw [if_neg hfin]
      exact ⟨rfl, rfl, rfl⟩
  | final hpc _ => exact h.same (by rw [hpc]; rfl) (by rw [hpc]; rfl) (by rw [hpc]; rfl)
  | work hpc hwork => exact h.work hpc hwork
  | put hpc _ => exact h.same (by rw [hpc]; rfl) (by rw [hpc]; rfl) (by rw [hpc]; rfl)
  | delete hpc hb => exact h.delete hpc hb
  | @destroy id c hpc htimer =>
    refine h.destroy hpc htimer ?_
    by_cases hfin : c = .final
    · rw [if_pos hfin]
      exact ⟨rfl, rfl, rfl⟩
    · rw [if_neg hfin]
      exact ⟨rfl, rfl, rfl⟩
  | fire htimer =>
    exact h.setTimer htimer
      (fun hexp => absurd hexp (h.not_expired htimer (by decide) (by decide)))
      (fun hid => Or.inl (h.current htimer (by decide) hid))
  | timeout htimer _ => exact h.timeout htimer
  | expired htimer hb =>
    exact (h.setStarted hb).setTimer htimer (fun _ => Or.inr rfl)
      (fun hid => Or.inl (h.current htimer (by decide) hid))
  | recv _ _ | recvFinal _ _ | store _ _ | storeErr _ _ => exact { h with window := h.window }

theorem handover_of_run {ok : Receiver → Label → Prop} {as : List Label}
    (h : Run (step streamID) ok init as s) : s.Handover streamID :=
  Run.invariant (fun s => s.Handover streamID) (init_handover streamID)
    (fun _ _ _ hi _ hs => hi.step (Step.of_step hs)) h

end

/- In any interleaving `decode` takes each buffer once at most, from all four channels together,
and what it takes is not behind the window: the panic of `decode` is not reached. -/
theorem block_decoded_once (streamID : ℕ) {as : List Label} {s : Receiver}
    (h : Run (step streamID) always init as s) :
    (s.received.map (·.1)).Nodup ∧
    ∀ id c b, s.decode = .lock id c → s.handler.buffers[id]? = some b →
      ¬b.startStreamOffset < s.handler.nextBlockOffset ∧
        s.handler.updateWindow b ≠ .error .panic := by
  have hi := handover_of_run h
  refine ⟨hi.once, ?_⟩
  intro id c b hpc hb
  obtain ⟨old, _, hnew, hinv⟩ := hi.unfinished hpc
  refine ⟨not_lt.mpr (hinv.next_le hb hnew), ?_⟩
  obtain ⟨f, hf, _⟩ := hinv.update hb hnew
  rw [hf]
  intro hpanic
  cases hpanic

def finFrame : Push := .stream ⟨4, 0, [1, 2, 3], true⟩ 7

theorem block_decoded_once_of_two : ∃ s b,
    Run (step 4) always init
      [.arrive finFrame, .push, .check, .fire 0, .timeout 0, .send, .take .timeout] s ∧
    s.chan .final = [0] ∧ s.decode = .lock 0 .timeout ∧ s.handler.buffers[0]? = some b ∧
    ¬b.startStreamOffset < s.handler.nextBlockOffset := by
  obtain ⟨s, hrun, hs⟩ := Run.exists_of_exec (step 4) init
    [.arrive finFrame, .push, .check, .fire 0, .timeout 0, .send, .take .timeout]
    (fun s => decide (s.chan .final = [0] ∧ s.decode = .lock 0 .timeout ∧
      s.handler.buffers[0]?.isSome = true)) (Guarded.always _) (by decide +kernel)
  obtain ⟨hfinal, hpc, hsome⟩ := of_decide_eq_true hs
  obtain ⟨b, hb⟩ := Option.isSome_iff_exists.mp hsome
  exact ⟨s, b, hrun, hfinal, hpc, hb, ((block_decoded_once 4 hrun).2 0 .timeout b hpc hb).1⟩

end Receiver

end Mp2bs.Fec
