import Mp2bs.Block.Reassembly

/-!
# Serving a block request (`Mp2Session.sendBlockData`)

`mp2session.go:541-588` runs in a goroutine of its own, a `SendJob`, while others append to
`sendBuffer`. `SendJob.step` is its next operation, which evaluates `len(sendBuffer)` or slices
`sendBuffer` once.
-/

namespace Mp2bs.Block
open Mp2bs.Lib.Slice

/-- The shared state that `sendBlockData` reads, and `firstSegment`, which it writes.
`lastRecvBytes` is `none` while the block has no receive buffer. -/
structure SendView where
  fecMode : Bool
  sendBuffer : Bytes
  stopSendCond : ℕ
  lastRecvBytes : Option ℕ
  firstSegment : Bool
  deriving Repr, DecidableEq

inductive SendPc where
  | wait
  | gate
  | check (dataNumber : ℕ)
  | size (dataNumber : ℕ)
  | emit (dataNumber size : ℕ)
  | done
  deriving Repr, DecidableEq

structure SendJob where
  sessionID : ℕ
  request : BlockRequestPacket
  pc : SendPc
  deriving Repr, DecidableEq

-- handleBlockRequestPacket, mp2session.go:283-292
def startSendBlockData (sessionID : ℕ) (packet : BlockRequestPacket) : SendJob :=
  ⟨sessionID, packet, .wait⟩

namespace SendJob

-- the hard coded stop, mp2session.go:551-563
def gate (v : SendView) (j : SendJob) : Except Stop (SendView × SendJob × Option BlockDataPacket) :=
  let v := if v.firstSegment ∧ 0 < v.stopSendCond then { v with firstSegment := false } else v
  let go : SendJob := { j with pc := .check j.request.startDataNumber }
  if v.firstSegment then .ok (v, go, none)
  else match v.lastRecvBytes with
    | none => .error .panic
    | some lastRecvBytes =>
      if v.stopSendCond ≤ lastRecvBytes then .ok (v, { j with pc := .done }, none)
      else .ok (v, go, none)

-- the loop head and the choice of the size, mp2session.go:566-578
def check (v : SendView) (j : SendJob) (dataNumber : ℕ) :
    Except Stop (SendView × SendJob × Option BlockDataPacket) :=
  let numPeers := j.request.fecIndex / 10
  let peerIdx := j.request.fecIndex - numPeers * 10
  let offset := u32 (dataNumber * payloadSize)
  if j.request.endDataNumber < dataNumber then .ok (v, { j with pc := .done }, none)
  else if v.fecMode ∧ numPeers = 0 then .error .panic
  else if v.fecMode ∧ dataNumber % numPeers ≠ peerIdx then
    .ok (v, { j with pc := .check (u32 (dataNumber + 1)) }, none)
  else if u32 (offset + payloadSize) ≤ u32 v.sendBuffer.length then
    .ok (v, { j with pc := .emit dataNumber payloadSize }, none)
  else .ok (v, { j with pc := .size dataNumber }, none)

-- slicing, copying and sending, mp2session.go:582-586
def emit (v : SendView) (j : SendJob) (dataNumber size : ℕ) :
    Except Stop (SendView × SendJob × Option BlockDataPacket) :=
  let offset := u32 (dataNumber * payloadSize)
  let high := u32 (offset + size)
  if offset ≤ high ∧ high ≤ v.sendBuffer.length then
    match createBlockDataPacket j.request.blockNumber dataNumber j.sessionID fecSourceData
        (window v.sendBuffer offset (high - offset)) with
    | .error e => .error e
    | .ok packet => .ok (v, { j with pc := .check (u32 (dataNumber + 1)) }, some packet)
  else .error .panic

/-- The next operation of the goroutine: the view and the job after it, and the
packet it sends if it sends one. -/
def step (v : SendView) (j : SendJob) : Except Stop (SendView × SendJob × Option BlockDataPacket) :=
  match j.pc with
  | .wait =>
    if u32 v.sendBuffer.length < u32 (j.request.endDataNumber * payloadSize) then .error .blocked
    else .ok (v, { j with pc := .gate }, none)
  | .gate => j.gate v
  | .check dataNumber => j.check v dataNumber
  | .size dataNumber =>
    let size := u32Sub (u32 v.sendBuffer.length) (u32 (dataNumber * payloadSize))
    .ok (v, { j with pc := .emit dataNumber size }, none)
  | .emit dataNumber size => j.emit v dataNumber size
  | .done => .error .blocked

end SendJob

def dataPacket (blockNumber sessionID d : ℕ) (content : Bytes) : BlockDataPacket :=
  ⟨16 + (packetData content d).length, blockNumber, d, sessionID, fecSourceData,
    packetData content d⟩

theorem createBlockDataPacket_packetData (blockNumber sessionID d : ℕ) (content : Bytes) :
    createBlockDataPacket blockNumber d sessionID fecSourceData (packetData content d) =
      .ok (dataPacket blockNumber sessionID d content) := by
  apply createBlockDataPacket_of_le
  rw [packetData_length]
  exact Nat.min_le_left _ _

namespace SendJob

/- The request names packets of `content`, a block whose size is a `uint32`. -/
structure Fits (content : Bytes) (j : SendJob) : Prop where
  length_lt : content.length < 2 ^ 32
  end_lt : j.request.endDataNumber < numData content.length

namespace Fits
variable {content : Bytes} {j : SendJob} {d : ℕ}

theorem withPc (h : j.Fits content) (pc : SendPc) : Fits content { j with pc := pc } :=
  ⟨h.length_lt, h.end_lt⟩

theorem offset_lt (h : j.Fits content) (hd : d ≤ j.request.endDataNumber) :
    payloadSize * d < content.length := by
  have he := (lt_numData_iff content.length j.request.endDataNumber).mp h.end_lt
  simp only [payloadSize] at he ⊢
  omega

theorem u32_offset (h : j.Fits content) (hd : d ≤ j.request.endDataNumber) :
    u32 (d * payloadSize) = payloadSize * d := by
  have ho := h.offset_lt hd
  have hl := h.length_lt
  rw [Nat.mul_comm]
  exact u32_of_lt (by omega)

theorem length_packet (h : j.Fits content) (hd : d ≤ j.request.endDataNumber) :
    payloadSize * d + (packetData content d).length =
      min (payloadSize * d + payloadSize) content.length := by
  have ho := h.offset_lt hd
  rw [packetData_length]
  simp only [payloadSize] at ho ⊢
  omega

theorem u32_packet_end (h : j.Fits content) (hd : d ≤ j.request.endDataNumber) :
    u32 (payloadSize * d + (packetData content d).length) =
      payloadSize * d + (packetData content d).length := by
  have hp := h.length_packet hd
  have hl := h.length_lt
  exact u32_of_lt (by omega)

end Fits

variable {content buf : Bytes} {v v' : SendView} {j j' : SendJob} {d : ℕ}
  {out : Option BlockDataPacket} {pc : SendPc} {packet : BlockDataPacket}

theorem emit_eq (hf : j.Fits content) (hd : d ≤ j.request.endDataNumber)
    (hlen : payloadSize * d + (packetData content d).length ≤ v.sendBuffer.length)
    (hbytes : window v.sendBuffer (payloadSize * d) (packetData content d).length = packetData content d)
    :
    j.emit v d (packetData content d).length = .ok (v, { j with pc := .check (u32 (d + 1)) },
      some (dataPacket j.request.blockNumber j.sessionID d content)) := by
  simp only [emit, hf.u32_offset hd, hf.u32_packet_end hd, Nat.add_sub_cancel_left, hbytes]
  rw [if_pos ⟨by omega, hlen⟩, createBlockDataPacket_packetData]

theorem emit_wrap (hf : j.Fits content) (hd : d ≤ j.request.endDataNumber)
    (hw : payloadSize * d + payloadSize = 2 ^ 32) : j.emit v d payloadSize = .error .panic := by
  have hz : u32 (payloadSize * d + payloadSize) = 0 := by rw [hw]; rfl
  simp only [emit, hf.u32_offset hd, hz]
  rw [if_neg]
  simp only [payloadSize] at hw ⊢
  omega

theorem window_of_front (h : content <+: buf) (d : ℕ) :
    window buf (payloadSize * d) (packetData content d).length = packetData content d := by
  obtain ⟨rest, rfl⟩ := h
  apply List.ext_getElem?
  intro t
  rw [window_getElem?, packetData, chunk, window_getElem?, window_length]
  by_cases ht : t < min payloadSize (content.length - payloadSize * d)
  · rw [if_pos ht, if_pos (by omega), List.getElem?_append_left (by omega)]
  · rw [if_neg ht]
    by_cases ht2 : t < payloadSize
    · rw [if_pos ht2, List.getElem?_eq_none (by omega)]
    · rw [if_neg ht2]

theorem window_of_grown (h : buf <+: content)
    (hb : payloadSize * d + (packetData content d).length ≤ buf.length) :
    window buf (payloadSize * d) (packetData content d).length = packetData content d := by
  have hw := window_of_front (List.prefix_refl content) d
  obtain ⟨rest, rfl⟩ := h
  rwa [window_append_of_le hb] at hw

theorem gate_eq (v : SendView) (j : SendJob) :
    j.gate v = .error .panic ∨ ∃ first pc,
      j.gate v = .ok ({ v with firstSegment := first }, { j with pc := pc }, none) ∧
        (pc = .done ∨ pc = .check j.request.startDataNumber) := by
  obtain ⟨fecMode, buf, stopCond, lastRecv, first⟩ := v
  unfold gate
  dsimp only
  by_cases h1 : first = true ∧ 0 < stopCond
  · rw [if_pos h1]
    cases lastRecv with
    | none => exact Or.inl rfl
    | some r =>
      by_cases h2 : stopCond ≤ r
      · exact Or.inr ⟨false, .done, by simp [h2], Or.inl rfl⟩
      · exact Or.inr ⟨false, .check j.request.startDataNumber, by simp [h2], Or.inr rfl⟩
  · rw [if_neg h1]
    cases first with
    | true => exact Or.inr ⟨true, .check j.request.startDataNumber, rfl, Or.inr rfl⟩
    | false =>
      cases lastRecv with
      | none => exact Or.inl rfl
      | some r =>
        by_cases h2 : stopCond ≤ r
        · exact Or.inr ⟨false, .done, by simp [h2], Or.inl rfl⟩
        · exact Or.inr ⟨false, .check j.request.startDataNumber, by simp [h2], Or.inr rfl⟩

theorem check_cases (h : j.check v d = .ok (v', j', out)) :
    v' = v ∧ out = none ∧
      (j' = { j with pc := .done } ∨ j' = { j with pc := .check (u32 (d + 1)) } ∨
        (d ≤ j.request.endDataNumber ∧
          u32 (u32 (d * payloadSize) + payloadSize) ≤ u32 v.sendBuffer.length ∧
          j' = { j with pc := .emit d payloadSize }) ∨
        (d ≤ j.request.endDataNumber ∧
          u32 v.sendBuffer.length < u32 (u32 (d * payloadSize) + payloadSize) ∧
          j' = { j with pc := .size d })) := by
  unfold check at h
  dsimp only at h
  split_ifs at h with hend hzero hskip hfull
  all_goals
    simp only [Except.ok.injEq, Prod.mk.injEq] at h
    obtain ⟨rfl, rfl, rfl⟩ := h
    refine ⟨rfl, rfl, ?_⟩
  · exact Or.inl rfl
  · exact Or.inr (Or.inl rfl)
  · exact Or.inr (Or.inr (Or.inl ⟨by omega, hfull, rfl⟩))
  · exact Or.inr (Or.inr (Or.inr ⟨by omega, by omega, rfl⟩))

theorem emit_cases {size : ℕ} (h : j.emit v d size = .ok (v', j', out)) :
    v' = v ∧ j' = { j with pc := .check (u32 (d + 1)) } ∧ ∃ packet, out = some packet := by
  unfold emit at h
  dsimp only at h
  split_ifs at h
  cases hc : createBlockDataPacket j.request.blockNumber d j.sessionID fecSourceData
      (window v.sendBuffer (u32 (d * payloadSize))
        (u32 (u32 (d * payloadSize) + size) - u32 (d * payloadSize))) with
  | error e => simp [hc] at h
  | ok packet =>
    simp only [hc, Except.ok.injEq, Prod.mk.injEq] at h
    obtain ⟨rfl, rfl, rfl⟩ := h
    exact ⟨rfl, rfl, packet, rfl⟩

inductive Move (v : SendView) (j : SendJob) : SendPc → Option BlockDataPacket → Prop
  | idle {pc : SendPc} (h : pc = .gate ∨ pc = .done ∨ ∃ d, pc = .check d) : Move v j pc none
  | full {d : ℕ} (hpc : j.pc = .check d) (hd : d ≤ j.request.endDataNumber)
      (hlen : u32 (u32 (d * payloadSize) + payloadSize) ≤ u32 v.sendBuffer.length) :
      Move v j (.emit d payloadSize) none
  | short {d : ℕ} (hpc : j.pc = .check d) (hd : d ≤ j.request.endDataNumber)
      (hlen : u32 v.sendBuffer.length < u32 (u32 (d * payloadSize) + payloadSize)) :
      Move v j (.size d) none
  | tail {d : ℕ} (hpc : j.pc = .size d) :
      Move v j (.emit d (u32Sub (u32 v.sendBuffer.length) (u32 (d * payloadSize)))) none
  | sent {d size : ℕ} {packet : BlockDataPacket} (hpc : j.pc = .emit d size)
      (hemit : j.emit v d size = .ok (v, { j with pc := .check (u32 (d + 1)) }, some packet)) :
      Move v j (.check (u32 (d + 1))) (some packet)

theorem step_move (h : j.step v = .ok (v', j', out)) :
    ∃ first pc, v' = { v with firstSegment := first } ∧ j' = { j with pc := pc } ∧
      j.Move v pc out := by
  unfold step at h
  cases hpc : j.pc with
  | wait =>
    simp only [hpc] at h
    split_ifs at h
    simp only [Except.ok.injEq, Prod.mk.injEq] at h
    obtain ⟨rfl, rfl, rfl⟩ := h
    exact ⟨v.firstSegment, .gate, rfl, rfl, .idle (Or.inl rfl)⟩
  | gate =>
    simp only [hpc] at h
    rcases gate_eq v j with hp | ⟨first, pc, hok, hto⟩
    · simp [hp] at h
    · simp only [hok, Except.ok.injEq, Prod.mk.injEq] at h
      obtain ⟨rfl, rfl, rfl⟩ := h
      refine ⟨first, pc, rfl, rfl, .idle (Or.inr ?_)⟩
      exact hto.imp id fun hc => ⟨_, hc⟩
  | check d =>
    simp only [hpc] at h
    obtain ⟨rfl, rfl, rfl | rfl | ⟨hd, hlen, rfl⟩ | ⟨hd, hlen, rfl⟩⟩ := check_cases h
    · exact ⟨v'.firstSegment, _, rfl, rfl, .idle (Or.inr (Or.inl rfl))⟩
    · exact ⟨v'.firstSegment, _, rfl, rfl, .idle (Or.inr (Or.inr ⟨_, rfl⟩))⟩
    · exact ⟨v'.firstSegment, _, rfl, rfl, .full hpc hd hlen⟩
    · exact ⟨v'.firstSegment, _, rfl, rfl, .short hpc hd hlen⟩
  | size d =>
    simp only [hpc, Except.ok.injEq, Prod.mk.injEq] at h
    obtain ⟨rfl, rfl, rfl⟩ := h
    exact ⟨v.firstSegment, _, rfl, rfl, .tail hpc⟩
  | emit d size =>
    simp only [hpc] at h
    obtain ⟨rfl, rfl, packet, rfl⟩ := emit_cases h
    exact ⟨v'.firstSegment, _, rfl, rfl, .sent hpc h⟩
  | done => simp [hpc] at h

/-! ### The block stands at the front of `sendBuffer` -/

/- When the job decides on packet `d`, the block stands at the front of `buf` and
nothing that follows it reaches into the packet. -/
def Clear (content buf : Bytes) (j : SendJob) : Prop :=
  match j.pc with
  | .check d => d ≤ j.request.endDataNumber → content <+: buf ∧ (buf.length = content.length ∨
      (payloadSize * d + payloadSize ≤ content.length ∧ buf.length < 2 ^ 32))
  | .size _ => buf.length = content.length
  | _ => True

instance (content buf : Bytes) (j : SendJob) : Decidable (j.Clear content buf) :=
  match hpc : j.pc with
  | .check d => decidable_of_iff (d ≤ j.request.endDataNumber → content <+: buf ∧
      (buf.length = content.length ∨
        (payloadSize * d + payloadSize ≤ content.length ∧ buf.length < 2 ^ 32)))
      (by simp only [Clear, hpc])
  | .size _ => decidable_of_iff (buf.length = content.length) (by simp only [Clear, hpc])
  | .wait | .gate | .emit _ _ | .done => .isTrue (by simp only [Clear, hpc])

/- The packet of `content` that the job is about to send is the right one, or its
end lies at `2^32` and the job will panic. -/
def Ready (content buf : Bytes) (j : SendJob) : Prop :=
  match j.pc with
  | .size d => d ≤ j.request.endDataNumber ∧ content <+: buf ∧
      content.length < payloadSize * d + payloadSize
  | .emit d size => d ≤ j.request.endDataNumber ∧ content <+: buf ∧
      (size = (packetData content d).length ∨
        (payloadSize * d + payloadSize = 2 ^ 32 ∧ size = payloadSize))
  | _ => True

theorem Ready.grow (h : j.Ready content buf) (data : Bytes) : j.Ready content (buf ++ data) := by
  unfold Ready at h ⊢
  cases hpc : j.pc with
  | emit d size | size d =>
    simp only [hpc] at h
    exact ⟨h.1, h.2.1.trans (List.prefix_append _ _), h.2.2⟩
  | wait | gate | check d | done => trivial

theorem u32_full_end (hf : j.Fits content) (hd : d ≤ j.request.endDataNumber) :
    (payloadSize * d + payloadSize = 2 ^ 32 ∧ u32 (u32 (d * payloadSize) + payloadSize) = 0) ∨
      (payloadSize * d + payloadSize < 2 ^ 32 ∧
        u32 (u32 (d * payloadSize) + payloadSize) = payloadSize * d + payloadSize) := by
  have ho := hf.offset_lt hd
  have hl := hf.length_lt
  rw [hf.u32_offset hd]
  rcases Nat.lt_or_ge (payloadSize * d + payloadSize) (2 ^ 32) with hlt | hge
  · exact Or.inr ⟨hlt, u32_of_lt hlt⟩
  · have hw : payloadSize * d + payloadSize = 2 ^ 32 := by
      simp only [payloadSize] at ho hge ⊢
      omega
    exact Or.inl ⟨hw, by rw [hw]; rfl⟩

theorem packetData_length_of_full (h : payloadSize * d + payloadSize ≤ content.length) :
    (packetData content d).length = payloadSize := by
  rw [packetData_length]
  omega

theorem ready_of_move (hf : j.Fits content) (hr : j.Ready content v.sendBuffer)
    (hc : j.Clear content v.sendBuffer) (h : j.Move v pc out) :
    Ready content v.sendBuffer { j with pc := pc } := by
  have hl := hf.length_lt
  cases h with
  | idle h => rcases h with rfl | rfl | ⟨d, rfl⟩ <;> trivial
  | @full d hpc hd hlen =>
    simp only [Clear, hpc] at hc
    obtain ⟨hpre, hb⟩ := hc hd
    refine ⟨hd, hpre, ?_⟩
    rcases u32_full_end hf hd with ⟨hw, hz⟩ | ⟨hlt, heq⟩
    · exact Or.inr ⟨hw, rfl⟩
    · left
      rw [heq] at hlen
      rcases hb with hb | ⟨hb, _⟩
      · rw [u32_of_lt (by omega)] at hlen
        exact (packetData_length_of_full (by omega)).symm
      · exact (packetData_length_of_full hb).symm
  | @short d hpc hd hlen =>
    simp only [Clear, hpc] at hc
    obtain ⟨hpre, hb⟩ := hc hd
    have hle := hpre.length_le
    refine ⟨hd, hpre, ?_⟩
    rcases u32_full_end hf hd with ⟨hw, hz⟩ | ⟨hlt, heq⟩
    · omega
    · rw [heq] at hlen
      rcases hb with hb | ⟨hb, hb32⟩
      · rw [u32_of_lt (by omega)] at hlen
        omega
      · rw [u32_of_lt hb32] at hlen
        omega
  | @tail d hpc =>
    simp only [Clear, hpc] at hc
    simp only [Ready, hpc] at hr
    obtain ⟨hd, hpre, hshort⟩ := hr
    have ho := hf.offset_lt hd
    refine ⟨hd, hpre, Or.inl ?_⟩
    rw [hf.u32_offset hd, hc, u32_of_lt hl, u32Sub_of_le (by omega) (by omega), packetData_length]
    omega
  | sent _ _ => trivial

theorem packet_of_ready (hf : j.Fits content) (hr : j.Ready content v.sendBuffer)
    (h : j.Move v pc (some packet)) :
    ∃ d ≤ j.request.endDataNumber,
      packet = dataPacket j.request.blockNumber j.sessionID d content := by
  cases h with
  | @sent d size packet hpc hemit =>
    simp only [Ready, hpc] at hr
    obtain ⟨hd, hpre, rfl | ⟨hw, rfl⟩⟩ := hr
    · have hp := hf.length_packet hd
      have hle := hpre.length_le
      rw [emit_eq hf hd (by omega) (window_of_front hpre d)] at hemit
      simp only [Except.ok.injEq, Prod.mk.injEq, Option.some.injEq, true_and] at hemit
      exact ⟨d, hd, hemit.symm⟩
    · rw [emit_wrap hf hd hw] at hemit
      cases hemit

/-! ### `sendBuffer` is growing towards the block -/

/- The length from which the last packet is cut is that of the packet's end. -/
def Arrived (content buf : Bytes) (j : SendJob) : Prop :=
  match j.pc with
  | .size d => buf.length = min (payloadSize * d + payloadSize) content.length
  | _ => True

instance (content buf : Bytes) (j : SendJob) : Decidable (j.Arrived content buf) :=
  match hpc : j.pc with
  | .size d => decidable_of_iff
      (buf.length = min (payloadSize * d + payloadSize) content.length)
      (by simp only [Arrived, hpc])
  | .wait | .gate | .check _ | .emit _ _ | .done => .isTrue (by simp only [Arrived, hpc])

def Sized (content buf : Bytes) (j : SendJob) : Prop :=
  match j.pc with
  | .size d => d ≤ j.request.endDataNumber
  | .emit d size => d ≤ j.request.endDataNumber ∧
      ((size = (packetData content d).length ∧ payloadSize * d + size ≤ buf.length) ∨
        (payloadSize * d + payloadSize = 2 ^ 32 ∧ size = payloadSize))
  | _ => True

theorem Sized.grow (h : j.Sized content buf) (data : Bytes) : j.Sized content (buf ++ data) := by
  unfold Sized at h ⊢
  cases hpc : j.pc with
  | emit d size =>
    simp only [hpc] at h
    obtain ⟨hd, ⟨hs, hb⟩ | hw⟩ := h
    · exact ⟨hd, Or.inl ⟨hs, by rw [List.length_append]; omega⟩⟩
    · exact ⟨hd, Or.inr hw⟩
  | size d =>
    simp only [hpc] at h
    exact h
  | wait | gate | check d | done => trivial

theorem sized_of_move (hf : j.Fits content) (hs : j.Sized content v.sendBuffer)
    (hpre : v.sendBuffer <+: content) (ha : j.Arrived content v.sendBuffer) (h : j.Move v pc out) :
    Sized content v.sendBuffer { j with pc := pc } := by
  have hle := hpre.length_le
  have hl := hf.length_lt
  cases h with
  | idle h => rcases h with rfl | rfl | ⟨d, rfl⟩ <;> trivial
  | @full d hpc hd hlen =>
    refine ⟨hd, ?_⟩
    rcases u32_full_end hf hd with ⟨hw, hz⟩ | ⟨hlt, heq⟩
    · exact Or.inr ⟨hw, rfl⟩
    · rw [heq, u32_of_lt (by omega)] at hlen
      exact Or.inl ⟨(packetData_length_of_full (by omega)).symm, hlen⟩
  | @short d hpc hd hlen => exact hd
  | @tail d hpc =>
    simp only [Arrived, hpc] at ha
    simp only [Sized, hpc] at hs
    have ho := hf.offset_lt hs
    have hp := hf.length_packet hs
    have hsize : u32Sub (u32 v.sendBuffer.length) (u32 (d * payloadSize)) =
        (packetData content d).length := by
      rw [hf.u32_offset hs, u32_of_lt (by omega),
        u32Sub_of_le (by simp only [payloadSize] at *; omega) (by omega)]
      omega
    rw [hsize]
    exact ⟨hs, Or.inl ⟨rfl, by omega⟩⟩
  | sent _ _ => trivial

theorem packet_of_sized (hf : j.Fits content) (hs : j.Sized content v.sendBuffer)
    (hpre : v.sendBuffer <+: content) (h : j.Move v pc (some packet)) :
    ∃ d ≤ j.request.endDataNumber,
      packet = dataPacket j.request.blockNumber j.sessionID d content := by
  cases h with
  | @sent d size packet hpc hemit =>
    simp only [Sized, hpc] at hs
    obtain ⟨hd, ⟨rfl, hb⟩ | ⟨hw, rfl⟩⟩ := hs
    · rw [emit_eq hf hd hb (window_of_grown hpre hb)] at hemit
      simp only [Except.ok.injEq, Prod.mk.injEq, Option.some.injEq, true_and] at hemit
      exact ⟨d, hd, hemit.symm⟩
    · rw [emit_wrap hf hd hw] at hemit
      cases hemit

end SendJob

end Mp2bs.Block
