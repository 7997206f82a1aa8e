import Mp2bs.Fec.Recovery
import Mp2bs.Fec.Handover

/-!
# What `decode` puts on `FecChan`

The frames come from one sender: STREAM frames with one symbol each, and the FEC frames of
`PushToEncode`.
-/

namespace Mp2bs.Fec
open Mp2bs.Lib Mp2bs.Lib.Slice Mp2bs.Lib.Machine Mp2bs.Lib.Gf2 Mp2bs.Raptor

/-! ### The frames of the sender -/

def Push.FromSender (sent : List StreamFrame) : Push → Prop
  | .stream frame _ => ∃ j, frame.offset = symbolSize * j ∧
      symbolSize * (j + 1) ≤ (sent.flatMap (·.data)).length ∧
      frame.data = chunk symbolSize (sent.flatMap (·.data)) j
  | .fec frame => ∃ enc, exec Encoding.push .init sent = .ok enc ∧
      frame ∈ enc.encoder.transmissionQueue

theorem block_add_symbol (j : ℕ) :
    srcBlockSize * (j / numSrcSymbols) + symbolSize * (j % numSrcSymbols) = symbolSize * j := by
  simp only [srcBlockSize, symbolSize, numSrcSymbols]
  omega

theorem encoded_symbol {stream : Bytes} {j : ℕ} (hj : symbolSize * (j + 1) ≤ stream.length) :
    encoded (chunk srcBlockSize stream (j / numSrcSymbols)) (j % numSrcSymbols) =
      chunk symbolSize stream j := by
  have hlt : j % numSrcSymbols < numSrcSymbols := Nat.mod_lt _ (by decide)
  have hpos := block_add_symbol j
  have hblock : (chunk srcBlockSize stream (j / numSrcSymbols)).length =
      min srcBlockSize (stream.length - srcBlockSize * (j / numSrcSymbols)) := chunk_length _ _ _
  rw [encoded_source hlt, chunk, chunk, chunk, window_window, hpos]
  · congr 1
    simp only [srcBlockSize, symbolSize, numSrcSymbols] at *
    omega
  · rw [hblock]
    simp only [srcBlockSize, symbolSize, numSrcSymbols] at *
    omega

theorem Push.FromSender.carries {streamID : ℕ} {sent : List StreamFrame} {p : Push}
    (hsent : Encoding.Contiguous streamID 0 sent) (h : p.FromSender sent) :
    ∃ i, p.Carries (srcBlockSize * (p.offset / srcBlockSize))
        (encoded (chunk srcBlockSize (sent.flatMap (·.data)) (p.offset / srcBlockSize))) i ∧
      Sent (sent.flatMap (·.data)) (p.offset / srcBlockSize) i := by
  cases p with
  | stream frame packetNumber =>
    obtain ⟨j, hoff, hlen, hdata⟩ := h
    have hk : frame.offset / srcBlockSize = j / numSrcSymbols := by
      rw [hoff]
      simp only [srcBlockSize, symbolSize, numSrcSymbols]
      omega
    have hlt : j % numSrcSymbols < numSrcSymbols := Nat.mod_lt _ (by decide)
    refine ⟨j % numSrcSymbols, ⟨hlt, ?_, ?_⟩, ?_⟩
    · show frame.offset = srcBlockSize * (frame.offset / srcBlockSize) + _
      rw [hk, hoff, block_add_symbol]
    · show frame.data = encoded (chunk srcBlockSize _ (frame.offset / srcBlockSize)) _
      rw [hk, hdata, encoded_symbol hlen]
    · show Sent _ (frame.offset / srcBlockSize) _
      rw [hk, Sent, if_pos hlt, Nat.mul_succ, ← Nat.add_assoc, block_add_symbol, ← Nat.mul_succ]
      exact hlen
  | fec frame =>
    obtain ⟨enc, hexec, hin⟩ := h
    obtain ⟨enc', starts, hexec', hinv⟩ := (Encoding.init_inv streamID).push_frames hsent
    rw [hexec, Except.ok.injEq] at hexec'
    subst hexec'
    rw [List.nil_append] at hinv
    rw [hinv.queued] at hin
    obtain ⟨e, he, hframe⟩ := List.mem_flatMap.mp hin
    obtain ⟨r, hr, rfl⟩ := List.mem_map.mp hframe
    have hr' : r < numRedSymbols := List.mem_range.mp hr
    obtain ⟨k, hk⟩ := List.mem_iff_getElem?.mp he
    rw [List.getElem?_zip_eq_some] at hk
    have hdiv := hinv.starts_div k e.1 hk.1
    have hklt : k < enc.calls.length := (List.getElem?_eq_some_iff.mp hk.2).1
    have hcall : e.2 = chunk srcBlockSize (sent.flatMap (·.data)) k := by
      have hget := hk.2
      rw [hinv.calls, List.getElem?_map, List.getElem?_range hklt] at hget
      exact (Option.some.inj hget).symm
    have hfull : srcBlockSize * (k + 1) ≤ (sent.flatMap (·.data)).length :=
      le_trans (Nat.mul_le_mul_left _ hklt) hinv.le
    refine ⟨numSrcSymbols + r, ⟨Nat.le_add_right _ _, ?_, ?_, ?_⟩, ?_⟩
    · simp only [numSrcSymbols, numEncSymbols, numRedSymbols] at *
      omega
    · rw [Nat.add_sub_cancel_left]
      rfl
    · show chunk symbolSize (raptorEncode e.2) r = encoded (chunk srcBlockSize _ (e.1 / srcBlockSize)) _
      rw [hdiv, chunk_raptorEncode _ hr', hcall]
    · show Sent _ (e.1 / srcBlockSize) _
      rw [hdiv, Sent, if_neg (by omega)]
      exact hfull

/-! ### The receiver -/

namespace Receiver

def worked (s : Receiver) : List ℕ :=
  match s.decode with
  | .final _ | .lock _ _ => s.ids.dropLast
  | _ => s.ids

def bufferFor (streamID : ℕ) (s : Receiver) (frame : Push) : Option FecBuffer :=
  match s.handler.getOrCreateFecBuffer streamID frame.offset with
  | (f, some id) => f.buffers[id]?
  | (_, none) => none

/- The pushed frame is not queued in its buffer and does not close the gap to the head of the queue; a
block whose timer has expired has symbol 0, or at most 14 or at least 17 symbols. -/
def Accounted (streamID : ℕ) (s : Receiver) : Label → Prop
  | .push => match s.frameHandler with
    | .locked frame => ∀ b ∈ s.bufferFor streamID frame, b.Fits frame
    | _ => True
  | .work => match s.decode with
    | .lock id .timeout => ∀ b ∈ s.handler.buffers[id]?, b.Decodable
    | _ => True
  | _ => True

instance (streamID : ℕ) (s : Receiver) : ∀ a, Decidable (s.Accounted streamID a)
  | .push => by
    unfold Accounted
    dsimp only
    split <;> infer_instance
  | .work => by
    unfold Accounted
    dsimp only
    split <;> infer_instance
  | .arrive _ | .check | .send | .mark | .release | .take _ | .final | .put | .delete | .destroy
  | .fire _ | .timeout _ | .expired _ | .recv | .recvFinal | .store | .storeErr => .isTrue trivial

def Received (sent : List StreamFrame) : Label → Prop
  | .arrive frame => frame.FromSender sent
  | _ => True

structure Faithful (sent : List StreamFrame) (s : Receiver) : Prop where
  locked : ∀ frame, s.frameHandler = .locked frame → frame.FromSender sent
  buffers : ∀ (id : ℕ) (b : FecBuffer), s.handler.buffers[id]? = some b → id ∉ s.worked →
    ∃ k, b.Receives (sent.flatMap (·.data)) k
  enough : ∀ (id : ℕ) (b : FecBuffer), s.handler.buffers[id]? = some b →
    (id ∈ s.sentOn .enough ∨ ∃ frame, s.frameHandler = .send id .enough frame) →
    recvSizeForDecode ≤ b.streamFrameDataLength + b.fecFrameDataLength
  taken : ∀ id, s.decode = .lock id .enough → id ∈ s.sentOn .enough
  frames : ∀ frame ∈ s.decode.frames, frame.1.Right (sent.flatMap (·.data))
  delivered : ∀ frame ∈ s.delivered, frame.Right (sent.flatMap (·.data))

theorem init_faithful (sent : List StreamFrame) : init.Faithful sent := by
  refine ⟨?_, ?_, ?_, ?_, ?_, ?_⟩
  · intro frame hpc
    cases hpc
  · intro id b hb
    simp [init, FecHandler.new] at hb
  · intro id b hb
    simp [init, FecHandler.new] at hb
  · intro id hpc
    cases hpc
  · intro frame hf
    cases hf
  · intro frame hf
    cases hf

section
variable {streamID : ℕ} {sent : List StreamFrame} {s s' : Receiver}

theorem Handover.worked_of_free (h : s.Handover streamID) (hfree : s.decode.holdsMutex = false) :
    s.handler.Inv streamID s.worked s.worked := by
  obtain ⟨old, hids, hinv⟩ := h.window
  unfold worked
  cases hd : s.decode with
  | idle | ended | final id | lock id c =>
    rw [hd] at hids hinv
    simpa [Decode.current, Decode.updated, Decode.deleted, hids] using hinv
  | put id c frames | destroy id c =>
    rw [hd] at hfree
    cases hfree

variable {b : FecBuffer} {id : ℕ} {frame : Push} {f : FecHandler} {c : Chan}

theorem receives_started {stream : Bytes} {k : ℕ} (h : b.Receives stream k) :
    ({ b with decodeStarted := true } : FecBuffer).Receives stream k := by
  obtain ⟨hstart, n, sids, fids, hh, hsent, hlen⟩ := h
  exact ⟨hstart, n, sids, fids, { hh with le := hh.le }, hsent, hlen⟩

theorem Faithful.pc (h : s.Faithful sent) (pc : FrameHandler)
    (hlocked : ∀ frame, pc = .locked frame → frame.FromSender sent)
    (hsend : ∀ id frame, pc = .send id .enough frame → ∀ b, s.handler.buffers[id]? = some b →
      recvSizeForDecode ≤ b.streamFrameDataLength + b.fecFrameDataLength) :
    ({ s with frameHandler := pc } : Receiver).Faithful sent := by
  refine { h with locked := hlocked, enough := ?_ }
  intro id b hb hcase
  rcases hcase with hin | ⟨frame, hpc⟩
  · exact h.enough id b hb (Or.inl hin)
  · exact hsend id frame hpc b hb

theorem Faithful.setStarted (h : s.Faithful sent) (hb : s.handler.buffers[id]? = some b) :
    (s.setStarted id b).Faithful sent := by
  refine { h with locked := h.locked, buffers := ?_, enough := ?_ }
  · intro j x hx hj
    rw [Receiver.setStarted, FecHandler.getElem?_setBuffer hb] at hx
    by_cases hij : id = j
    · subst hij
      rw [if_pos rfl, Option.some.injEq] at hx
      obtain ⟨k, hk⟩ := h.buffers id b hb hj
      exact ⟨k, hx ▸ receives_started hk⟩
    · rw [if_neg hij] at hx
      exact h.buffers j x hx hj
  · intro j x hx hcase
    rw [Receiver.setStarted, FecHandler.getElem?_setBuffer hb] at hx
    by_cases hij : id = j
    · subst hij
      rw [if_pos rfl, Option.some.injEq] at hx
      rw [← hx]
      exact h.enough id b hb hcase
    · rw [if_neg hij] at hx
      exact h.enough j x hx hcase

theorem Faithful.push (h : s.Faithful sent) (hh : s.Handover streamID)
    (hsent : Encoding.Contiguous streamID 0 sent) {b' : FecBuffer}
    (hpc : s.frameHandler = .locked frame) (hfree : s.decode.holdsMutex = false)
    (hget : s.handler.getOrCreateFecBuffer streamID frame.offset = (f, some id))
    (hb : f.buffers[id]? = some b) (hpush : b.push frame = .ok b') (hfit : b.Fits frame) :
    ({ s.withHandler (f.setBuffer id b') with frameHandler := .check id frame } :
      Receiver).Faithful sent := by
  have hinv := hh.worked_of_free hfree
  obtain ⟨hid, ⟨b₀, hb₀, hfor⟩, hbuffers⟩ := hinv.getOrCreate_some hget
  rw [hb, Option.some.injEq] at hb₀
  subst hb₀
  -- another buffer than that of the frame is not touched
  have hold : ∀ (j : ℕ) (x : FecBuffer), f.buffers[j]? = some x → j ≠ id →
      s.handler.buffers[j]? = some x := by
    intro j x hx hj
    rcases hbuffers with hsame | ⟨hnew, happ⟩
    · rwa [hsame] at hx
    · rw [happ] at hx
      rcases FecHandler.getElem?_concat.mp hx with hx | ⟨hlast, _⟩
      · exact hx
      · exact absurd (hlast.trans hnew.symm) hj
  have hrec : b.Receives (sent.flatMap (·.data)) (frame.offset / srcBlockSize) := by
    rcases hbuffers with hsame | ⟨hnew, happ⟩
    · rw [hsame] at hb
      obtain ⟨k, hk⟩ := h.buffers id b hb hid
      have hkk : k = frame.offset / srcBlockSize :=
        srcBlockSize_mul_inj (hk.start.symm.trans hfor.start)
      exact hkk ▸ hk
    · rw [happ] at hb
      rcases FecHandler.getElem?_concat.mp hb with hb | ⟨_, rfl⟩
      · have := (List.getElem?_eq_some_iff.mp hb).1
        omega
      · rw [Nat.mul_comm]
        exact FecBuffer.init_receives _ _ _
  obtain ⟨i, hcar, hsym⟩ := (h.locked frame hpc).carries hsent
  rw [← hfor.start] at hcar
  obtain ⟨b₁, hpush₁, hrec₁⟩ := hrec.push hcar hsym hfit
  rw [hpush, Except.ok.injEq] at hpush₁
  subst hpush₁
  refine ⟨?_, ?_, ?_, h.taken, h.frames, h.delivered⟩
  · intro frame' hpc'
    cases hpc'
  · intro j x hx hj
    have hx' : (f.setBuffer id b').buffers[j]? = some x := hx
    rw [FecHandler.getElem?_setBuffer hb] at hx'
    by_cases hij : id = j
    · rw [if_pos hij, Option.some.injEq] at hx'
      exact ⟨_, hx' ▸ hrec₁⟩
    · rw [if_neg hij] at hx'
      exact h.buffers j x (hold j x hx' (Ne.symm hij)) hj
  · intro j x hx hcase
    have hin : j ∈ s.sentOn .enough := by
      rcases hcase with hin | ⟨frame', hpc'⟩
      · exact hin
      · cases hpc'
    have hx' : (f.setBuffer id b').buffers[j]? = some x := hx
    rw [FecHandler.getElem?_setBuffer hb] at hx'
    by_cases hij : id = j
    · subst hij
      rw [if_pos rfl, Option.some.injEq] at hx'
      subst hx'
      have hb' : s.handler.buffers[id]? = some b := by
        rcases hbuffers with hsame | ⟨hnew, _⟩
        · rwa [hsame] at hb
        · have := hh.made .enough id hin
          omega
      have hle := h.enough id b hb' (Or.inl hin)
      rcases FecBuffer.push_length hpush with ⟨_, _, rfl⟩ | ⟨_, hlen⟩
      · exact hle
      · omega
    · rw [if_neg hij] at hx'
      exact h.enough j x (hold j x hx' (Ne.symm hij)) (Or.inl hin)

theorem checkDecodingPossible_enough {fin : Bool} (h : b.checkDecodingPossible fin = some .enough) :
    recvSizeForDecode ≤ b.streamFrameDataLength + b.fecFrameDataLength := by
  unfold FecBuffer.checkDecodingPossible at h
  split at h
  next => cases h
  next =>
    split at h
    next => cases h
    next =>
      split at h
      next hle => exact hle
      next =>
        split at h
        next => cases h
        next => cases h

theorem Faithful.work (h : s.Faithful sent) (hh : s.Handover streamID)
    (hok : s.Accounted streamID .work) {frames : List (StreamFrame × ℕ)} (hpc : s.decode = .lock id c)
    (hwork : s.handler.work id c = .ok (f, frames)) :
    ({ s with handler := f, decode := .put id c frames } : Receiver).Faithful sent := by
  obtain ⟨old, hids, hnew, hinv⟩ := hh.unfinished hpc
  have hworked : s.worked = old := by
    simp only [worked, hpc, hids, List.dropLast_concat]
  obtain ⟨b, f₁, b', hb, hup, hcase⟩ := FecHandler.work_ok hwork
  obtain ⟨f₂, hup₂, _, hbuf, _⟩ := hinv.update hb hnew
  rw [hup, Except.ok.injEq] at hup₂
  subst hup₂
  have hf : ∀ (j : ℕ) (x : FecBuffer), f.buffers[j]? = some x → ∃ y, s.handler.buffers[j]? = some y ∧
      (j ≠ id → x = y) ∧ x.streamFrameDataLength + x.fecFrameDataLength =
        y.streamFrameDataLength + y.fecFrameDataLength := by
    intro j x hx
    rcases hcase with ⟨_, _, rfl, _⟩ | ⟨_, hdec, rfl⟩
    · rw [hbuf] at hx
      exact ⟨x, hx, fun _ => rfl, rfl⟩
    · rw [FecHandler.getElem?_setBuffer (by rw [hbuf, hb]), hbuf] at hx
      by_cases hij : id = j
      · subst hij
        rw [if_pos rfl, Option.some.injEq] at hx
        obtain ⟨_, _, rfl⟩ := FecBuffer.decodeBlock_eq hdec
        exact ⟨b, hb, fun hne => absurd rfl hne, by rw [← hx]⟩
      · rw [if_neg hij] at hx
        exact ⟨x, hx, fun _ => rfl, rfl⟩
  refine ⟨h.locked, ?_, ?_, ?_, ?_, h.delivered⟩
  · intro j x hx hj
    obtain ⟨y, hy, hsame, _⟩ := hf j x hx
    have hj' : j ∉ old ++ [id] := by
      rw [← hids]
      exact hj
    rw [List.mem_append, not_or, List.mem_singleton] at hj'
    rw [hsame hj'.2]
    exact h.buffers j y hy (by rw [hworked]; exact hj'.1)
  · intro j x hx hin
    obtain ⟨y, hy, _, hlen⟩ := hf j x hx
    rw [hlen]
    exact h.enough j y hy hin
  · intro j hpc'
    cases hpc'
  · intro frame hframe
    have hframe' : frame ∈ frames := hframe
    rcases hcase with ⟨_, _, _, rfl⟩ | ⟨hc, hdec, _⟩
    · cases hframe'
    · obtain ⟨k, hk⟩ := h.buffers id b hb (by rw [hworked]; exact hnew)
      have hd : b.Decodable := by
        cases c with
        | streamFin => cases hc
        | final => cases hc
        | timeout =>
          simp only [Accounted, hpc] at hok
          exact hok b (by rw [hb]; rfl)
        | enough =>
          -- CheckDecodingPossible has seen 18 symbols
          have hle := h.enough id b hb (Or.inl (h.taken id hpc))
          right
          right
          simp only [recvSizeForDecode, symbolSize] at hle ⊢
          omega
      obtain ⟨b₁, frames₁, hdec₁, hright⟩ := hk.decodeBlock hd
      rw [hdec, Except.ok.injEq, Prod.mk.injEq] at hdec₁
      rw [hdec₁.2] at hframe'
      exact hright frame hframe'

theorem Faithful.send (h : s.Faithful sent) (hpc : s.frameHandler = .send id c frame) :
    ({ s.enqueue c id with frameHandler := .mark id frame } : Receiver).Faithful sent := by
  have hsent : ∀ c', ({ s.enqueue c id with frameHandler := .mark id frame } : Receiver).sentOn c' =
      if c' = c then s.sentOn c' ++ [id] else s.sentOn c' :=
    fun c' => sentOn_enqueue s c c' id
  refine ⟨?_, h.buffers, ?_, ?_, h.frames, h.delivered⟩
  · intro frame' hpc'
    cases hpc'
  · intro j b hb hcase
    rcases hcase with hin | ⟨frame', hpc'⟩
    · rw [hsent] at hin
      by_cases hc : Chan.enough = c
      · subst hc
        rw [if_pos rfl] at hin
        rcases List.mem_append.mp hin with hin | hin
        · exact h.enough j b hb (Or.inl hin)
        · rw [List.mem_singleton.mp hin] at hb
          exact h.enough id b hb (Or.inr ⟨frame, hpc⟩)
      · rw [if_neg hc] at hin
        exact h.enough j b hb (Or.inl hin)
    · cases hpc'
  · intro j hpc'
    have hin := h.taken j hpc'
    rw [hsent]
    by_cases hc : Chan.enough = c
    · rw [if_pos hc]
      exact List.mem_append_left _ hin
    · rw [if_neg hc]
      exact hin

theorem Faithful.take (h : s.Faithful sent) {rest : List ℕ} (hpc : s.decode = .idle)
    (hc : s.chan c = id :: rest) :
    ({ s with
      chan := Function.update s.chan c rest
      decode := if c = .final then .final id else .lock id c
      received := s.received ++ [(id, c)] } : Receiver).Faithful sent := by
  have hsent := sentOn_take hc (if c = .final then .final id else .lock id c) .enough
  have hworked : ({ s with
      chan := Function.update s.chan c rest
      decode := if c = .final then .final id else .lock id c
      received := s.received ++ [(id, c)] } : Receiver).worked = s.worked := by
    by_cases hfin : c = .final
    · simp [worked, ids, hpc, hfin]
    · simp [worked, ids, hpc, hfin]
  refine ⟨h.locked, ?_, ?_, ?_, ?_, h.delivered⟩
  · intro j b hb hj
    exact h.buffers j b hb (by rw [← hworked]; exact hj)
  · intro j b hb hcase
    rw [hsent] at hcase
    exact h.enough j b hb hcase
  · intro j hpc'
    rw [hsent]
    by_cases hfin : c = .final
    · simp [hfin] at hpc'
    · simp only [hfin, if_false, Decode.lock.injEq] at hpc'
      rw [sentOn, ← hpc'.2, hc, hpc'.1]
      exact List.mem_append_right _ (List.mem_cons_self ..)
  · intro frame hframe
    by_cases hfin : c = .final
    · simp [hfin, Decode.frames] at hframe
    · simp [hfin, Decode.frames] at hframe

theorem Faithful.step (h : s.Faithful sent) (hh : s.Handover streamID)
    (hsent : Encoding.Contiguous streamID 0 sent) {a : Label}
    (hok : Received sent a ∧ s.Accounted streamID a) (hs : Step streamID s a s') :
    s'.Faithful sent := by
  cases hs with
  | arrive _ _ =>
    refine h.pc _ ?_ ?_
    · intro frame hpc
      cases hpc
      exact hok.1
    · intro id frame hpc
      cases hpc
  | pushNone _ _ _ => exact h.pc _ (fun _ hpc => by cases hpc) (fun _ _ hpc => by cases hpc)
  | @push frame f id b b' hpc hfree hget hb hpush =>
    refine h.push hh hsent hpc hfree hget hb hpush ?_
    have hacc := hok.2
    simp only [Accounted, hpc, bufferFor, hget] at hacc
    exact hacc b (by rw [hb]; rfl)
  | checkNone _ _ _ => exact h.pc _ (fun _ hpc => by cases hpc) (fun _ _ hpc => by cases hpc)
  | check _ hb hcheck =>
    refine h.pc _ (fun _ hpc => by cases hpc) ?_
    intro id frame hpc b' hb'
    cases hpc
    rw [hb, Option.some.injEq] at hb'
    exact hb' ▸ checkDecodingPossible_enough hcheck
  | send hpc _ => exact h.send hpc
  | mark _ hb =>
    exact (h.setStarted hb).pc _ (fun _ hpc => by cases hpc) (fun _ _ hpc => by cases hpc)
  | release _ =>
    have hrel := h.pc .idle (fun _ hpc => by cases hpc) (fun _ _ hpc => by cases hpc)
    exact { hrel with buffers := hrel.buffers }
  | take hpc hc => exact h.take hpc hc
  | final hpc _ =>
    refine { h with buffers := ?_, taken := ?_, frames := ?_ }
    · intro id b hb hid
      refine h.buffers id b hb ?_
      rw [worked, hpc]
      exact hid
    · intro id hpc'
      cases hpc'
    · intro frame hframe
      cases hframe
  | work hpc hwork => exact h.work hh hok.2 hpc hwork
  | @put id c frame frames hpc _ =>
    have hframes := h.frames
    have hbuf := h.buffers
    rw [worked, hpc] at hbuf
    rw [hpc] at hframes
    refine { h with buffers := hbuf, taken := ?_, frames := ?_, delivered := ?_ }
    · intro id' hpc'
      cases hpc'
    · intro frame' hframe'
      exact hframes frame' (List.mem_cons_of_mem _ hframe')
    · intro frame' hframe'
      rcases List.mem_append.mp hframe' with hold | hnew
      · exact h.delivered frame' hold
      · rw [List.mem_singleton.mp hnew]
        exact hframes frame (List.mem_cons_self ..)
  | delete hpc _ =>
    have hbuf := h.buffers
    rw [worked, hpc] at hbuf
    refine { h with buffers := hbuf, taken := ?_, frames := ?_ }
    · intro id' hpc'
      cases hpc'
    · intro frame hframe
      cases hframe
  | @destroy id c hpc _ =>
    have hbuf := h.buffers
    rw [worked, hpc] at hbuf
    by_cases hfin : c = .final
    · rw [if_pos hfin]
      refine { h with buffers := hbuf, taken := ?_, frames := ?_ }
      · intro id' hpc'
        cases hpc'
      · intro frame hframe
        cases hframe
    · rw [if_neg hfin]
      refine { h with buffers := hbuf, taken := ?_, frames := ?_ }
      · intro id' hpc'
        cases hpc'
      · intro frame hframe
        cases hframe
  | fire _ => exact { h with buffers := h.buffers }
  | @timeout id _ _ =>
    have hsame : ((s.enqueue .timeout id).setTimer id .sent).sentOn .enough = s.sentOn .enough :=
      sentOn_enqueue s .timeout .enough id
    refine { h with buffers := h.buffers, enough := ?_, taken := ?_ }
    · intro j b hb hcase
      rw [hsame] at hcase
      exact h.enough j b hb hcase
    · intro j hpc
      rw [hsame]
      exact h.taken j hpc
  | expired _ hb =>
    have hset := h.setStarted hb
    exact { hset with buffers := hset.buffers }
  | recv _ _ | recvFinal _ _ | store _ _ | storeErr _ _ => exact { h with buffers := h.buffers }

end

theorem faithful_of_run {streamID : ℕ} {sent : List StreamFrame}
    (hsent : Encoding.Contiguous streamID 0 sent) {as : List Label} {s : Receiver}
    (h : Run (step streamID) (fun s a => Received sent a ∧ s.Accounted streamID a) init as s) :
    s.Handover streamID ∧ s.Faithful sent :=
  Run.invariant (fun s => s.Handover streamID ∧ s.Faithful sent)
    ⟨init_handover streamID, init_faithful sent⟩
    (fun _ _ _ hi hok hs =>
      ⟨hi.1.step (Step.of_step hs), hi.2.step hi.1 hsent hok (Step.of_step hs)⟩) h

/- The frames that `decode` puts on `FecChan`, in any interleaving in which each frame fits into
its buffer and each block that a timer hands over can be decoded. -/
theorem delivered_right {streamID : ℕ} {sent : List StreamFrame}
    (hsent : Encoding.Contiguous streamID 0 sent) {as : List Label} {s : Receiver}
    (h : Run (step streamID) (fun s a => Received sent a ∧ s.Accounted streamID a) init as s) :
    ∀ frame ∈ s.delivered, frame.Right (sent.flatMap (·.data)) :=
  (faithful_of_run hsent h).2.delivered

end Receiver

/-! ### A block without its first symbol -/

theorem chunk_zeros {n i : ℕ} (hi : symbolSize * (i + 1) ≤ n) :
    chunk symbolSize (List.replicate n (0 : UInt8)) i = List.replicate symbolSize 0 := by
  rw [chunk, window, List.drop_replicate, List.take_replicate]
  congr 1
  rw [Nat.mul_succ] at hi
  omega

theorem encoded_zeros {i : ℕ} (hi : i < numEncSymbols) :
    encoded (List.replicate srcBlockSize 0) i = List.replicate symbolSize 0 := by
  have hsource : ∀ j < raptor.K, value (blockSymbols (List.replicate srcBlockSize 0)) j = 0 := by
    intro j hj
    rw [raptor_valid.2.1] at hj
    rw [value, blockSymbols, List.getD_eq_getElem?_getD, List.getElem?_map, List.getElem?_range hj]
    show toSymbol (chunk symbolSize (List.replicate srcBlockSize 0) j) = 0
    rw [chunk_zeros (show symbolSize * (j + 1) ≤ srcBlockSize from Nat.mul_le_mul_left _ hj)]
    exact toSymbol_entries 0
  have hzero : toSymbol (encoded (List.replicate srcBlockSize 0) i) = 0 := by
    rw [toSymbol_encoded _ hi]
    refine dot_of_unknowns_zero ?_
    intro j hj _
    rw [RaptorParams.value_intermediate _ hj]
    exact dot_of_unknowns_zero fun j hj _ => hsource j hj
  rw [← entries_toSymbol (encoded_length _ i), hzero]
  rfl

theorem raptorEncode_zeros :
    raptorEncode (List.replicate srcBlockSize 0) = List.replicate (symbolSize * numRedSymbols) 0 := by
  refine List.eq_replicate_iff.mpr ⟨raptorEncode_length _, ?_⟩
  intro x hx
  obtain ⟨r, hr, hx⟩ := List.mem_flatMap.mp hx
  have hx' : x ∈ encoded (List.replicate srcBlockSize 0) (numSrcSymbols + r) := hx
  rw [encoded_zeros (by
    have := List.mem_range.mp hr
    simp only [numSrcSymbols, numRedSymbols, numEncSymbols] at *
    omega)] at hx'
  exact List.eq_of_mem_replicate hx'

theorem raptorDecode_zeros {symbolMap : List ℕ}
    (hmap : ∀ i < 17, symbolMap.getD i 0 < numEncSymbols)
    (hsome : (raptorDecode (List.replicate (symbolSize * numEncSymbols) 0) symbolMap).isSome = true) :
    raptorDecode (List.replicate (symbolSize * numEncSymbols) 0) symbolMap =
      some (List.replicate srcBlockSize 0) := by
  obtain ⟨hv, hK, hN, _⟩ := raptor_valid
  have hrows : ∀ i < raptor.N, ((List.range raptor.N).map
      (symbolAt (List.replicate (symbolSize * numEncSymbols) 0))).getD i 0 =
      dot raptor.K (raptor.coefficients (raptor.tripleOf (symbolMap.getD i 0))).get
        (value (raptor.intermediate (blockSymbols (List.replicate srcBlockSize 0)))) := by
    intro i hi
    have hi' : i < 17 := hN ▸ hi
    rw [getD_rows _ hi, ← toSymbol_encoded _ (hmap i hi'), encoded_zeros (hmap i hi')]
    show toSymbol (chunk symbolSize _ i) = _
    rw [chunk_zeros (Nat.mul_le_mul_left _ (by simp only [numEncSymbols]; omega))]
  have hdec := RaptorParams.raptorDecoder_of_encoded hv (by rw [hK, hN]; decide)
    (length_blockSymbols _) hrows
  unfold raptorDecode at hsome ⊢
  dsimp only at hsome ⊢
  rcases hdec with hnone | hdec
  · rw [hnone] at hsome
    cases hsome
  · rw [hdec, Option.map_some, flatMap_blockSymbols List.length_replicate]

theorem FecBuffer.decodeBlock_zeros {b : FecBuffer} {sym : ℕ → Bytes} {streamIds fecIds : List ℕ}
    (hh : b.Holds sym 0 streamIds fecIds) (hs : ∀ i, (sym i).length = symbolSize)
    (hzero : ∀ i ∈ streamIds ++ fecIds, sym i = List.replicate symbolSize 0)
    (hsome : (raptorDecode (List.replicate (symbolSize * numEncSymbols) 0)
      (compacted sym (streamIds ++ fecIds) numEncSymbols).symbolMap).isSome = true) :
    ∃ b', b.decodeBlock = .ok (b', b.recoveredFrames (List.replicate srcBlockSize 0)
      (compacted sym (streamIds ++ fecIds) numEncSymbols).symbolMap) := by
  obtain ⟨encBlock, _, hget⟩ := hh.getEncodeBlock_eq hs
  rw [List.range_zero, List.nil_append] at hget
  have hblock : (compacted sym (streamIds ++ fecIds) numEncSymbols).encBlock =
      List.replicate (symbolSize * numEncSymbols) 0 := by
    have hcount := present_length_le (streamIds ++ fecIds) numEncSymbols
    refine List.eq_replicate_iff.mpr ⟨?_, ?_⟩
    · rw [compacted, List.length_append, flatMap_length hs, List.length_replicate, ← Nat.mul_add,
        Nat.add_sub_cancel' hcount]
    · intro x hx
      rcases List.mem_append.mp hx with hx | hx
      · obtain ⟨i, hi, hx⟩ := List.mem_flatMap.mp hx
        rw [hzero i (mem_present.mp hi).2] at hx
        exact List.eq_of_mem_replicate hx
      · exact List.eq_of_mem_replicate hx
  have hmap : ∀ i < 17, (compacted sym (streamIds ++ fecIds) numEncSymbols).symbolMap.getD i 0 <
      numEncSymbols := by
    intro i _
    rw [compacted_symbolMap, List.getD_eq_getElem?_getD]
    cases hi : (present (streamIds ++ fecIds) numEncSymbols)[i]? with
    | none => decide
    | some a => exact (mem_present.mp (List.mem_of_getElem? hi)).1
  rw [decodeBlock_of_get hget, hblock, raptorDecode_zeros hmap hsome]
  exact ⟨_, rfl⟩

def symbolFrames (x : UInt8) : List StreamFrame :=
  (List.range numSrcSymbols).map fun i =>
    ⟨4, symbolSize * i, List.replicate symbolSize (if i = 0 then x else 0), false⟩

theorem symbolFrames_length_take (x : UInt8) (n : ℕ) :
    (((symbolFrames x).take n).flatMap (·.data)).length = symbolSize * min n numSrcSymbols := by
  have hsize : ∀ i, (List.replicate symbolSize (if i = 0 then x else 0)).length = symbolSize :=
    fun i => List.length_replicate
  have h := flatMap_length hsize (List.range (min n numSrcSymbols))
  rw [List.length_range] at h
  rw [symbolFrames, ← List.map_take, List.take_range, List.flatMap_map]
  exact h

theorem symbolFrames_length (x : UInt8) :
    ((symbolFrames x).flatMap (·.data)).length = srcBlockSize :=
  symbolFrames_length_take x numSrcSymbols

theorem symbolFrames_symbol (x : UInt8) {i : ℕ} (hi : i < numSrcSymbols) :
    chunk symbolSize ((symbolFrames x).flatMap (·.data)) i =
      List.replicate symbolSize (if i = 0 then x else 0) := by
  have hsize : ∀ i, (List.replicate symbolSize (if i = 0 then x else 0)).length = symbolSize :=
    fun i => List.length_replicate
  have h := window_flatMap hsize [] (List.getElem?_range hi)
  rw [List.append_nil] at h
  rw [symbolFrames, List.flatMap_map]
  exact h

theorem symbolFrames_zeros :
    (symbolFrames 0).flatMap (·.data) = List.replicate srcBlockSize 0 := by
  refine List.eq_replicate_iff.mpr ⟨symbolFrames_length 0, ?_⟩
  intro y hy
  obtain ⟨frame, hframe, hy⟩ := List.mem_flatMap.mp hy
  obtain ⟨i, _, rfl⟩ := List.mem_map.mp hframe
  rw [ite_self] at hy
  exact List.eq_of_mem_replicate hy

theorem fromSender_symbolFrames (x : UInt8) {i : ℕ} (hpos : 0 < i) (hi : i < numSrcSymbols)
    (packetNumber : ℕ) : Push.FromSender (symbolFrames x)
      (.stream ⟨4, symbolSize * i, List.replicate symbolSize 0, false⟩ packetNumber) := by
  refine ⟨i, rfl, ?_, ?_⟩
  · rw [symbolFrames_length]
    exact Nat.mul_le_mul_left _ hi
  · rw [symbolFrames_symbol x hi, if_neg (Nat.ne_of_gt hpos)]

namespace Receiver

def handle (frame : Push) : List Label := [.arrive frame, .push, .check, .release]

theorem received_handle {sent : List StreamFrame} {frame : Push} (h : frame.FromSender sent) :
    ∀ a ∈ handle frame, Received sent a := by
  intro a ha
  simp only [handle, List.mem_cons, List.not_mem_nil, or_false] at ha
  rcases ha with rfl | rfl | rfl | rfl
  · exact h
  all_goals trivial

def allButFirst : List Label := (List.range' 1 15).flatMap fun i =>
  handle (.stream ⟨4, symbolSize * i, List.replicate symbolSize 0, false⟩ i)

theorem received_allButFirst (x : UInt8) : ∀ a ∈ allButFirst, Received (symbolFrames x) a := by
  intro a ha
  obtain ⟨i, hi, ha⟩ := List.mem_flatMap.mp ha
  obtain ⟨hpos, hlt⟩ := List.mem_range'_1.mp hi
  exact received_handle (fromSender_symbolFrames x hpos hlt i) a ha

def tookFirst (c : Chan) (streamIds fecIds : List ℕ) (s : Receiver) : Bool :=
  decide (s.decode = .lock 0 c ∧ s.ids = [0] ∧ s.fecChan = [] ∧ s.delivered = []) &&
    s.handler.buffers[0]?.any fun b => decide (b.startStreamOffset = 0 ∧ b.nextFrameOffset = 0 ∧
      b.streamID = 4 ∧ b.oobStreamFrameQueue.map (·.offset) = streamIds.map (0 + symbolSize * ·) ∧
      b.oobFecFrameQueue.map b.fecStart = fecIds.map (0 + symbolSize * ·))

theorem ids_of_offsets {α : Type} {offset : α → ℕ} {data : α → Bytes} {sym : ℕ → Bytes}
    {start : ℕ} {ids ids' : List ℕ} {queue : List α} (h : Queued offset data start sym ids queue)
    (hoff : queue.map offset = ids'.map (start + symbolSize * ·)) : ids = ids' := by
  have hmap : queue.map offset = ids.map (start + symbolSize * ·) := by
    clear hoff
    induction h with
    | nil => rfl
    | cons hc _ ih => rw [List.map_cons, List.map_cons, ih, hc.2.1]
  refine List.map_injective_iff.mpr ?_ (hmap.symm.trans hoff)
  intro i j hij
  simp only [symbolSize] at hij
  omega

theorem delivers_first {x : UInt8} {c : Chan} {streamIds fecIds : List ℕ} {s : Receiver}
    (hh : s.Handover 4) (hf : s.Faithful (symbolFrames x))
    (htook : s.tookFirst c streamIds fecIds = true) (hc : c.complete = false)
    (hx : ∀ i ∈ streamIds ++ fecIds, 0 < i ∧ (i < numSrcSymbols ∨ x = 0))
    {symbolMap : List ℕ} (hmap : present (streamIds ++ fecIds) numEncSymbols ++ List.replicate
      (numEncSymbols - (present (streamIds ++ fecIds) numEncSymbols).length) 0 = symbolMap)
    (hsome : (raptorDecode (List.replicate (symbolSize * numEncSymbols) 0) symbolMap).isSome = true)
    (hlost : ∀ packetNumber, lostSymbols packetNumber symbolMap numSrcSymbols 0 0 0 0 = [(0, 0)]) :
    ∃ s₁ s₂, s.step 4 .work = .ok s₁ ∧
      s₁.decode = .put 0 c [(⟨4, 0, List.replicate symbolSize 0, false⟩, 0)] ∧
      s₁.step 4 .put = .ok s₂ ∧
      s₂.delivered = [⟨4, 0, List.replicate symbolSize 0, false⟩] := by
  obtain ⟨htook, hany⟩ := Bool.and_eq_true_iff.mp htook
  obtain ⟨hpc, hids, hfec, hdel⟩ := of_decide_eq_true htook
  cases hb : s.handler.buffers[0]? with
  | none => simp [hb] at hany
  | some b =>
    rw [hb] at hany
    obtain ⟨hstart, hnext, hid, hstream, hfecq⟩ := of_decide_eq_true (Option.any_some ▸ hany)
    obtain ⟨k, hk⟩ := hf.buffers 0 b hb (by simp [worked, hpc, hids])
    obtain ⟨n, sids, fids, hhold, hsent, _⟩ := hk.holds
    obtain rfl : k = 0 := by
      have := hk.start
      simp only [srcBlockSize, symbolSize, numSrcSymbols] at this
      omega
    obtain rfl : n = 0 := by
      have := hhold.next
      simp only [symbolSize] at this
      omega
    obtain rfl : sids = streamIds := ids_of_offsets hhold.stream (by rw [hstart]; exact hstream)
    obtain rfl : fids = fecIds := ids_of_offsets hhold.fec (by rw [hstart]; exact hfecq)
    have hblock : chunk srcBlockSize ((symbolFrames x).flatMap (·.data)) 0 =
        (symbolFrames x).flatMap (·.data) :=
      List.take_of_length_le (symbolFrames_length x).le
    rw [hblock] at hhold
    have hzero : ∀ i ∈ sids ++ fids,
        encoded ((symbolFrames x).flatMap (·.data)) i = List.replicate symbolSize 0 := by
      intro i hi
      obtain ⟨hpos, hi' | rfl⟩ := hx i hi
      · rw [encoded_source hi' (by
          rw [symbolFrames_length]
          exact Nat.mul_le_mul_left _ hi'), symbolFrames_symbol x hi', if_neg (Nat.ne_of_gt hpos)]
      · rw [symbolFrames_zeros]
        exact encoded_zeros (hsent i hi).1
    have hmap' : (compacted (encoded ((symbolFrames x).flatMap (·.data))) (sids ++ fids)
        numEncSymbols).symbolMap = symbolMap := hmap
    obtain ⟨b', hdec⟩ := FecBuffer.decodeBlock_zeros hhold (encoded_length _) hzero
      (by rw [hmap']; exact hsome)
    rw [hmap'] at hdec
    obtain ⟨old, hold, hnew, hinv⟩ := hh.unfinished hpc
    obtain ⟨f, hup, _, hbuf, _⟩ := hinv.update hb hnew
    have hframes : b.recoveredFrames (List.replicate srcBlockSize 0) symbolMap =
        [(⟨4, 0, List.replicate symbolSize 0, false⟩, 0)] := by
      have hdata : window (List.replicate srcBlockSize (0 : UInt8)) (0 * symbolSize) symbolSize =
          List.replicate symbolSize 0 := by
        rw [Nat.zero_mul]
        exact chunk_zeros (i := 0) (by decide)
      rw [FecBuffer.recoveredFrames, hlost, List.map_singleton, hid, hstart]
      dsimp only
      rw [hdata, Nat.zero_mul]
    rw [hframes] at hdec
    have hwork : s.handler.work 0 c =
        .ok (f.setBuffer 0 b', [(⟨4, 0, List.replicate symbolSize 0, false⟩, 0)]) := by
      simp only [FecHandler.work, hb, hup, hc, hdec, Bool.false_eq_true, if_false]
    refine ⟨{ s with
        handler := f.setBuffer 0 b'
        decode := .put 0 c [(⟨4, 0, List.replicate symbolSize 0, false⟩, 0)] },
      { s with
        handler := f.setBuffer 0 b'
        fecChan := s.fecChan ++ [⟨4, 0, List.replicate symbolSize 0, false⟩]
        delivered := s.delivered ++ [⟨4, 0, List.replicate symbolSize 0, false⟩]
        decode := .put 0 c [] }, ?_, rfl, ?_, ?_⟩
    · simp only [step, hpc, hwork]
    · simp only [step]
      rw [if_pos (by rw [hfec]; decide)]
    · rw [hdel, List.nil_append]

theorem raptorDecode_isSome :
    (raptorDecode (List.replicate (symbolSize * numEncSymbols) 0)
      (List.range' 1 15 ++ List.replicate 5 0)).isSome = true ∧
    (raptorDecode (List.replicate (symbolSize * numEncSymbols) 0)
      (List.range' 1 18 ++ List.replicate 2 0)).isSome = true := by
  decide +kernel

/- The timer of a block expires when symbol 0 has not come and the other 15 have. -/
def firstLost : List Label := allButFirst ++ [.fire 0, .timeout 0, .take .timeout]

theorem firstLost_run : ∃ s₁ s₂,
    Run (step 4) (fun _ a => Received (symbolFrames 1) a) init (firstLost ++ [.work]) s₁ ∧
      s₁.decode = .put 0 .timeout [(⟨4, 0, List.replicate symbolSize 0, false⟩, 0)] ∧
      s₁.step 4 .put = .ok s₂ ∧
      s₂.delivered = [⟨4, 0, List.replicate symbolSize 0, false⟩] := by
  have hsent : Encoding.Contiguous 4 0 (symbolFrames 1) := by decide +kernel
  have hrec : ∀ a ∈ firstLost, Received (symbolFrames 1) a := by
    intro a ha
    rcases List.mem_append.mp ha with ha | ha
    · exact received_allButFirst 1 a ha
    · simp only [List.mem_cons, List.not_mem_nil, or_false] at ha
      rcases ha with rfl | rfl | rfl
      all_goals trivial
  obtain ⟨s, hrun, htook⟩ := Run.exists_of_exec (step 4) init firstLost
    (tookFirst .timeout (List.range' 1 15) [])
    ((show Guarded (step 4) (Accounted 4) init _ by decide +kernel).and_label hrec)
    (by decide +kernel)
  obtain ⟨hh, hf⟩ := faithful_of_run hsent hrun
  obtain ⟨s₁, s₂, hwork, hpc, hput, hdel⟩ := delivers_first hh hf htook rfl (by decide) (by decide)
    raptorDecode_isSome.1 (fun _ => rfl)
  exact ⟨s₁, s₂, (hrun.mono fun _ _ hok => hok.1).snoc trivial hwork, hpc, hput, hdel⟩

/- Two rows of padding stand for symbol 0, and it is delivered with zeros. -/
theorem delivered_padding : Encoding.Contiguous 4 0 (symbolFrames 1) ∧
    ∃ as s, Run (step 4) (fun _ a => Received (symbolFrames 1) a) init as s ∧
      ∃ frame ∈ s.delivered, ¬frame.Right ((symbolFrames 1).flatMap (·.data)) := by
  obtain ⟨s₁, s₂, hrun, _, hput, hdel⟩ := firstLost_run
  have hrun' : Run (step 4) (fun _ a => Received (symbolFrames 1) a) init
      (firstLost ++ [.work] ++ [.put]) s₂ := hrun.snoc trivial hput
  refine ⟨by decide +kernel, _, s₂, hrun', ⟨4, 0, List.replicate symbolSize 0, false⟩,
    by rw [hdel]; exact List.mem_singleton_self _, ?_⟩
  rintro ⟨_, hdata⟩
  have hsym := symbolFrames_symbol 1 (show 0 < numSrcSymbols by decide)
  have hbytes : List.replicate symbolSize (0 : UInt8) = List.replicate symbolSize 1 :=
    hdata.trans hsym
  exact absurd hbytes (by decide +kernel)

def zeroFecFrame (r : ℕ) : FecFrame :=
  fecFrameAt 4 0 (List.replicate (symbolSize * numRedSymbols) 0) r

theorem exec_short (frames : List StreamFrame) (e : FecEncoder) (calls : List Bytes)
    (hshort : (e.encQueue ++ frames.flatMap (·.data)).length < srcBlockSize) :
    ∃ startOffset, exec Encoding.push ⟨e, calls⟩ frames = .ok ⟨{ e with
      encQueue := e.encQueue ++ frames.flatMap (·.data)
      startOffset := startOffset }, calls⟩ := by
  induction frames generalizing e with
  | nil => exact ⟨e.startOffset, by simp [exec]⟩
  | cons frame frames ih =>
    rw [List.flatMap_cons, ← List.append_assoc] at hshort
    have hno : ¬srcBlockSize ≤ (e.encQueue ++ frame.data).length := by
      rw [List.length_append] at hshort
      omega
    obtain ⟨startOffset, hexec⟩ := ih { e with
      encQueue := e.encQueue ++ frame.data
      startOffset := if e.encQueue.length = 0 then frame.offset else e.endOffset } hshort
    refine ⟨startOffset, ?_⟩
    simp only [exec, Encoding.push, FecEncoder.pushToEncode, if_neg hno, Option.toList_none,
      List.append_nil, hexec, List.flatMap_cons, List.append_assoc]

theorem exec_block (frames : List StreamFrame) (last : StreamFrame)
    (hpos : 0 < (frames.flatMap (·.data)).length)
    (hshort : (frames.flatMap (·.data)).length < srcBlockSize)
    (hfull : (frames.flatMap (·.data) ++ last.data).length = srcBlockSize) :
    ∃ enc, exec Encoding.push .init (frames ++ [last]) = .ok enc ∧
      enc.encoder.transmissionQueue =
        fecFrames last.streamID 0 (raptorEncode (frames.flatMap (·.data) ++ last.data)) := by
  obtain ⟨startOffset, hexec⟩ := exec_short frames .new [] hshort
  have hqueue : FecEncoder.new.encQueue ++ frames.flatMap (·.data) = frames.flatMap (·.data) := rfl
  rw [hqueue] at hexec
  have hle : srcBlockSize ≤ (frames.flatMap (·.data) ++ last.data).length := hfull.ge
  refine ⟨⟨⟨(frames.flatMap (·.data) ++ last.data).drop srcBlockSize, 0,
      last.offset + last.data.length,
      fecFrames last.streamID 0 (raptorEncode (frames.flatMap (·.data) ++ last.data))⟩,
    [frames.flatMap (·.data) ++ last.data]⟩, (exec_append _ hexec [last]).trans ?_, rfl⟩
  simp only [exec, Encoding.push, FecEncoder.pushToEncode, if_pos hle, FecEncoder.new,
    pushToTransmissionQueue_eq, List.take_of_length_le hfull.le, if_neg (Nat.ne_of_gt hpos),
    List.nil_append, Option.toList_some]

theorem fromSender_zeroFecFrame {r : ℕ} (hr : r < numRedSymbols) :
    Push.FromSender (symbolFrames 0) (.fec (zeroFecFrame r)) := by
  have hsplit : symbolFrames 0 = (symbolFrames 0).take 15 ++
      [⟨4, symbolSize * 15, List.replicate symbolSize 0, false⟩] := by
    simp [symbolFrames, numSrcSymbols, List.range_succ]
  have hall := symbolFrames_zeros
  rw [hsplit, List.flatMap_append, List.flatMap_singleton] at hall
  have hlen : (((symbolFrames 0).take 15).flatMap (·.data)).length = symbolSize * 15 :=
    symbolFrames_length_take 0 15
  obtain ⟨enc, hexec, hqueue⟩ := exec_block ((symbolFrames 0).take 15)
    ⟨4, symbolSize * 15, List.replicate symbolSize 0, false⟩
    (by rw [hlen]; decide) (by rw [hlen]; decide) (by rw [hall, List.length_replicate])
  rw [hall, raptorEncode_zeros] at hqueue
  rw [← hsplit] at hexec
  exact ⟨enc, hexec, hqueue ▸ List.mem_map_of_mem (List.mem_range.mpr hr)⟩

def enoughWithoutFirst : List Label :=
  allButFirst ++ handle (.fec (zeroFecFrame 0)) ++ handle (.fec (zeroFecFrame 1)) ++
    [.arrive (.fec (zeroFecFrame 2)), .push, .check, .send, .mark, .release, .take .enough]

theorem delivered_right_first : ∃ as s,
    Run (step 4) (fun s a => Received (symbolFrames 0) a ∧ s.Accounted 4 a) init as s ∧
    s.delivered = [⟨4, 0, List.replicate symbolSize 0, false⟩] ∧
    ∀ frame ∈ s.delivered, frame.Right ((symbolFrames 0).flatMap (·.data)) := by
  have hsent : Encoding.Contiguous 4 0 (symbolFrames 0) := by decide +kernel
  have hrec : ∀ a ∈ enoughWithoutFirst, Received (symbolFrames 0) a := by
    intro a ha
    rcases List.mem_append.mp ha with ha | ha
    · rcases List.mem_append.mp ha with ha | ha
      · rcases List.mem_append.mp ha with ha | ha
        · exact received_allButFirst 0 a ha
        · exact received_handle (fromSender_zeroFecFrame (by decide)) a ha
      · exact received_handle (fromSender_zeroFecFrame (by decide)) a ha
    · simp only [List.mem_cons, List.not_mem_nil, or_false] at ha
      rcases ha with rfl | rfl | rfl | rfl | rfl | rfl | rfl
      · exact fromSender_zeroFecFrame (by decide)
      all_goals trivial
  obtain ⟨s, hrun, htook⟩ := Run.exists_of_exec (step 4) init enoughWithoutFirst
    (tookFirst .enough (List.range' 1 15) [16, 17, 18])
    ((show Guarded (step 4) (Accounted 4) init _ by decide +kernel).and_label hrec)
    (by decide +kernel)
  obtain ⟨hh, hf⟩ := faithful_of_run hsent hrun
  obtain ⟨s₁, s₂, hwork, _, hput, hdel⟩ := delivers_first hh hf htook rfl (by decide) (by decide)
    raptorDecode_isSome.2 (fun _ => rfl)
  have hpc := (of_decide_eq_true (Bool.and_eq_true_iff.mp htook).1).1
  have hacc : s.Accounted 4 .work := by simp only [Accounted, hpc]
  have hrun₁ : Run (step 4) (fun s a => Received (symbolFrames 0) a ∧ s.Accounted 4 a) init
      (enoughWithoutFirst ++ [.work]) s₁ := hrun.snoc ⟨trivial, hacc⟩ hwork
  have hrun₂ : Run (step 4) (fun s a => Received (symbolFrames 0) a ∧ s.Accounted 4 a) init
      (enoughWithoutFirst ++ [.work] ++ [.put]) s₂ := hrun₁.snoc ⟨trivial, trivial⟩ hput
  exact ⟨_, s₂, hrun₂, hdel, delivered_right hsent hrun₂⟩

end Receiver

end Mp2bs.Fec
