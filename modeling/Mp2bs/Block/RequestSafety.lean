import Mp2bs.Block.Serving
import Mp2bs.Mp2session.Codec

/-!
# Block requests of any shape

A request names its first and last data number and packs the number of peers and the place of this
one into a byte (`block_request_packet.go:31-72`). `sendBlockData` takes them as they come
(`mp2session.go:541-588`). Here a call runs on a fixed send buffer, from the end of its wait on.
-/

namespace Mp2bs.Block
open Mp2bs.Lib.Slice

def requested (p : Mp2session.BlockRequestPacket) : BlockRequestPacket :=
  ⟨p.blockNumber.toNat, p.startDataNumber.toNat, p.endDataNumber.toNat, p.fecIndex.toNat⟩

namespace BlockRequestPacket

/-- Another peer sends data number `d` (`mp2session.go:567-569`). -/
def Skips (v : SendView) (r : BlockRequestPacket) (d : ℕ) : Prop := v.fecMode = true ∧ d % r.numPeers ≠ r.peerIdx

instance (v : SendView) (r : BlockRequestPacket) (d : ℕ) : Decidable (r.Skips v d) :=
  inferInstanceAs (Decidable (_ ∧ _))

end BlockRequestPacket

namespace SendJob

/-- No `uint32` product, sum or difference of the next operation wraps. -/
def NoWrap (v : SendView) (j : SendJob) : Prop :=
  match j.pc with
  | .wait => j.request.numPeers * 10 < 2 ^ 8 ∧ j.request.endDataNumber * payloadSize < 2 ^ 32
  | .gate => True
  | .check d =>
    if j.request.endDataNumber < d then True
    else if j.request.Skips v d then d + 1 < 2 ^ 32
    else d * payloadSize < 2 ^ 32 ∧ d * payloadSize + payloadSize < 2 ^ 32
  | .size d => d * payloadSize < 2 ^ 32 ∧ d * payloadSize ≤ u32 v.sendBuffer.length
  | .emit d size => d * payloadSize < 2 ^ 32 ∧ d * payloadSize + size < 2 ^ 32 ∧ d + 1 < 2 ^ 32
  | .done => True

/-- The call comes to its end: finitely many operations, none of which panics or wraps. -/
inductive Ends : SendView → SendJob → Prop
  | done {v : SendView} {j : SendJob} (hpc : j.pc = .done) : Ends v j
  | step {v v' : SendView} {j j' : SendJob} {out : Option BlockDataPacket} (hwrap : NoWrap v j)
      (hstep : j.step v = .ok (v', j', out)) (hrest : Ends v' j') : Ends v j

def operations : ℕ → SendView → SendJob → Except Stop (SendView × SendJob)
  | 0, v, j => .ok (v, j)
  | n + 1, v, j =>
    match j.step v with
    | .error e => .error e
    | .ok (v', j', _) => operations n v' j'

variable {v v' : SendView} {j j' : SendJob} {out : Option BlockDataPacket} {d : ℕ}

theorem ends_iff_of_step (hpc : j.pc ≠ .done) (hstep : j.step v = .ok (v', j', out)) :
    Ends v j ↔ NoWrap v j ∧ Ends v' j' := by
  constructor
  · intro h
    cases h with
    | done hdone => exact absurd hdone hpc
    | step hwrap hstep' hrest =>
      rw [hstep] at hstep'
      cases hstep'
      exact ⟨hwrap, hrest⟩
  · rintro ⟨hwrap, hrest⟩
    exact .step hwrap hstep hrest

theorem not_ends_of_error {e : Stop} (hpc : j.pc ≠ .done) (hstep : j.step v = .error e) : ¬Ends v j := by
  intro h
  cases h with
  | done hdone => exact hpc hdone
  | step _ hstep' _ =>
    rw [hstep] at hstep'
    cases hstep'

theorem ends_emit_iff {size : ℕ} (hsize : size ≤ payloadSize) (hhigh : d * payloadSize + size ≤ u32 v.sendBuffer.length)
    (hd : d + 1 < 2 ^ 32) :
    Ends v { j with pc := .emit d size } ↔ Ends v { j with pc := .check (d + 1) } := by
  have hlen : u32 v.sendBuffer.length < 2 ^ 32 := u32_lt _
  have hle : u32 v.sendBuffer.length ≤ v.sendBuffer.length := Nat.mod_le _ _
  have hoffset : u32 (d * payloadSize) = d * payloadSize := u32_of_lt (by omega)
  have hsum : u32 (d * payloadSize + size) = d * payloadSize + size := u32_of_lt (by omega)
  have hnext : u32 (d + 1) = d + 1 := u32_of_lt hd
  have hwindow : (window v.sendBuffer (d * payloadSize) size).length ≤ payloadSize := by
    rw [window_length]
    omega
  have hstep : SendJob.step v { j with pc := .emit d size } = .ok (v, { j with pc := .check (d + 1) }, some
      ⟨16 + (window v.sendBuffer (d * payloadSize) size).length, j.request.blockNumber, d, j.sessionID, fecSourceData,
        window v.sendBuffer (d * payloadSize) size⟩) := by
    simp only [SendJob.step, emit, hoffset, hsum, hnext, Nat.add_sub_cancel_left]
    rw [if_pos ⟨Nat.le_add_right _ _, by omega⟩, createBlockDataPacket_of_le _ _ _ _ _ hwindow]
  rw [ends_iff_of_step (by simp) hstep]
  refine and_iff_right ?_
  exact ⟨by omega, by omega, hd⟩

theorem check_of_le (hd : d ≤ j.request.endDataNumber) (hpeers : v.fecMode = true → j.request.numPeers ≠ 0) :
    SendJob.step v { j with pc := .check d } =
      if j.request.Skips v d then .ok (v, { j with pc := .check (u32 (d + 1)) }, none)
      else if u32 (u32 (d * payloadSize) + payloadSize) ≤ u32 v.sendBuffer.length then
        .ok (v, { j with pc := .emit d payloadSize }, none)
      else .ok (v, { j with pc := .size d }, none) := by
  have hzero : ¬(v.fecMode = true ∧ j.request.fecIndex / 10 = 0) := fun h => hpeers h.1 h.2
  simp only [SendJob.step, check]
  rw [if_neg (Nat.not_lt.2 hd), if_neg hzero]
  rfl

theorem ends_check_sent (hd : d ≤ j.request.endDataNumber) (hpeers : v.fecMode = true → j.request.numPeers ≠ 0)
    (hskip : ¬j.request.Skips v d) (hfits : d * payloadSize + payloadSize < 2 ^ 32)
    (havailable : d * payloadSize ≤ u32 v.sendBuffer.length) :
    Ends v { j with pc := .check d } ↔ Ends v { j with pc := .check (d + 1) } := by
  have hlen : u32 v.sendBuffer.length < 2 ^ 32 := u32_lt _
  have hnumber : d + 1 < 2 ^ 32 := by
    simp only [payloadSize] at hfits
    omega
  have hlow : d * payloadSize < 2 ^ 32 := lt_of_le_of_lt (Nat.le_add_right _ _) hfits
  have hoffset : u32 (d * payloadSize) = d * payloadSize := u32_of_lt hlow
  have hsum : u32 (d * payloadSize + payloadSize) = d * payloadSize + payloadSize := u32_of_lt hfits
  have hwrap : NoWrap v { j with pc := .check d } := by
    unfold NoWrap
    simp only
    rw [if_neg (Nat.not_lt.2 hd), if_neg hskip]
    exact ⟨hlow, hfits⟩
  have hstep := check_of_le (v := v) hd hpeers
  rw [if_neg hskip, hoffset, hsum] at hstep
  by_cases hfull : d * payloadSize + payloadSize ≤ u32 v.sendBuffer.length
  · rw [if_pos hfull] at hstep
    rw [ends_iff_of_step (by simp) hstep, and_iff_right hwrap, ends_emit_iff le_rfl hfull hnumber]
  · rw [if_neg hfull] at hstep
    have hrest : u32Sub (u32 v.sendBuffer.length) (d * payloadSize) = u32 v.sendBuffer.length - d * payloadSize :=
      u32Sub_of_le havailable hlen
    have hsize : SendJob.step v { j with pc := .size d } =
        .ok (v, { j with pc := .emit d (u32 v.sendBuffer.length - d * payloadSize) }, none) := by
      simp only [SendJob.step, hoffset, hrest]
    have hshort : u32 v.sendBuffer.length - d * payloadSize ≤ payloadSize := by
      rw [Nat.sub_le_iff_le_add']
      exact (Nat.lt_of_not_le hfull).le
    have hhigh : d * payloadSize + (u32 v.sendBuffer.length - d * payloadSize) ≤ u32 v.sendBuffer.length :=
      le_of_eq (Nat.add_sub_cancel' havailable)
    have hwrap' : NoWrap v { j with pc := .size d } := ⟨hlow, havailable⟩
    rw [ends_iff_of_step (by simp) hstep, and_iff_right hwrap, ends_iff_of_step (by simp) hsize,
      and_iff_right hwrap', ends_emit_iff hshort hhigh hnumber]

/-- What the loop needs from its first number on: a peer count with FEC, and a last number whose payload ends below
`2^32`, unless another peer sends it. -/
def LoopSafe (v : SendView) (r : BlockRequestPacket) : Prop :=
  (v.fecMode = true → r.numPeers ≠ 0) ∧ (r.endDataNumber + 1 < 2 ^ 22 ∨ r.Skips v r.endDataNumber)

theorem ends_check_of_lt (hlt : j.request.endDataNumber < d) : Ends v { j with pc := .check d } := by
  have hstep : SendJob.step v { j with pc := .check d } = .ok (v, { j with pc := .done }, none) := by
    simp only [SendJob.step, check]
    rw [if_pos hlt]
  have hwrap : NoWrap v { j with pc := .check d } := by
    unfold NoWrap
    simp only
    rw [if_pos hlt]
    trivial
  exact .step hwrap hstep (.done rfl)

theorem ends_check_iff (hend : j.request.endDataNumber < 2 ^ 22)
    (havailable : j.request.endDataNumber * payloadSize ≤ u32 v.sendBuffer.length) (n : ℕ)
    (hd : d + n = j.request.endDataNumber + 1) :
    Ends v { j with pc := .check d } ↔ j.request.endDataNumber < d ∨ LoopSafe v j.request := by
  induction n generalizing d with
  | zero =>
    have hlt : j.request.endDataNumber < d := by omega
    exact iff_of_true (ends_check_of_lt hlt) (Or.inl hlt)
  | succ n ih =>
    have hle : d ≤ j.request.endDataNumber := by omega
    rw [or_iff_right (Nat.not_lt.2 hle)]
    have hoffset : d * payloadSize ≤ u32 v.sendBuffer.length :=
      (Nat.mul_le_mul_right payloadSize hle).trans havailable
    by_cases hpeers : v.fecMode = true → j.request.numPeers ≠ 0
    · have hnext := ih (show d + 1 + n = j.request.endDataNumber + 1 by omega)
      by_cases hskip : j.request.Skips v d
      · have hstep := check_of_le (v := v) hle hpeers
        rw [if_pos hskip, u32_of_lt (by omega)] at hstep
        have hwrap : NoWrap v { j with pc := .check d } := by
          unfold NoWrap
          simp only
          rw [if_neg (Nat.not_lt.2 hle), if_pos hskip]
          omega
        rw [ends_iff_of_step (by simp) hstep, and_iff_right hwrap, hnext]
        refine ⟨fun h => h.elim ?_ id, Or.inr⟩
        intro hlast
        have heq : d = j.request.endDataNumber := by omega
        exact ⟨hpeers, Or.inr (heq ▸ hskip)⟩
      · by_cases hfits : d * payloadSize + payloadSize < 2 ^ 32
        · rw [ends_check_sent hle hpeers hskip hfits hoffset, hnext]
          refine ⟨fun h => h.elim ?_ id, Or.inr⟩
          intro hlast
          refine ⟨hpeers, Or.inl ?_⟩
          simp only [payloadSize] at hfits
          omega
        · -- the last number below 2^22
          have heq : d = j.request.endDataNumber := by
            simp only [payloadSize] at hfits
            omega
          have hstep := check_of_le (v := v) hle hpeers
          rw [if_neg hskip] at hstep
          refine iff_of_false ?_ ?_
          · intro h
            cases h with
            | done hdone => cases hdone
            | step hwrap _ _ =>
              unfold NoWrap at hwrap
              simp only at hwrap
              rw [if_neg (Nat.not_lt.2 hle), if_neg hskip] at hwrap
              exact hfits hwrap.2
          · rintro ⟨_, hlast | hlast⟩
            · simp only [payloadSize] at hfits
              omega
            · exact hskip (heq ▸ hlast)
    · obtain ⟨hfec, hzero⟩ := Classical.not_imp.1 hpeers
      have hstep : SendJob.step v { j with pc := .check d } = .error .panic := by
        simp only [SendJob.step, check]
        rw [if_neg (Nat.not_lt.2 hle), if_pos ⟨hfec, not_not.1 hzero⟩]
      exact iff_of_false (not_ends_of_error (by simp) hstep) fun h => hpeers h.1

end SendJob

/-! ### The call -/

/-- The hard coded stop (`mp2session.go:551-563`) looks at the receive buffer of the session's block. -/
def SendView.Gated (v : SendView) : Prop := ¬(v.firstSegment = true ∧ v.stopSendCond = 0)

instance (v : SendView) : Decidable v.Gated := inferInstanceAs (Decidable (¬_))

/-- The offset of the last number does not wrap; the stop finds a receive buffer; and unless the call stops there or
the range is empty, the loop is safe. -/
def SafeRequest (v : SendView) (r : BlockRequestPacket) : Prop :=
  r.endDataNumber < 2 ^ 22 ∧ (v.Gated → v.lastRecvBytes ≠ none) ∧
    ((v.Gated ∧ ∃ n ∈ v.lastRecvBytes, v.stopSendCond ≤ n) ∨ r.endDataNumber < r.startDataNumber ∨
      SendJob.LoopSafe v r)

namespace SendJob
variable {v : SendView} {j : SendJob}

theorem ends_gate_iff (hloop : ∀ first, Ends { v with firstSegment := first }
      { j with pc := .check j.request.startDataNumber } ↔
        j.request.endDataNumber < j.request.startDataNumber ∨ LoopSafe v j.request) :
    Ends v { j with pc := .gate } ↔ (v.Gated → v.lastRecvBytes ≠ none) ∧
      ((v.Gated ∧ ∃ n ∈ v.lastRecvBytes, v.stopSendCond ≤ n) ∨
        j.request.endDataNumber < j.request.startDataNumber ∨ LoopSafe v j.request) := by
  have hwrap : NoWrap v { j with pc := .gate } := trivial
  by_cases hgated : v.Gated
  · -- both ways to the stop leave `firstSegment` unset
    have hfirst : (if v.firstSegment = true ∧ 0 < v.stopSendCond then { v with firstSegment := false } else v) =
        { v with firstSegment := false } := by
      split
      next => rfl
      next hno =>
        have hunset : v.firstSegment = false := by
          cases hset : v.firstSegment with
          | false => rfl
          | true => exact absurd ⟨hset, Nat.eq_zero_of_not_pos fun hpos => hno ⟨hset, hpos⟩⟩ hgated
        rw [← hunset]
    cases hlast : v.lastRecvBytes with
    | none =>
      have hstep : SendJob.step v { j with pc := .gate } = .error .panic := by
        simp only [SendJob.step, gate, hfirst, Bool.false_eq_true, if_false]
        rw [hlast]
      exact iff_of_false (not_ends_of_error (by simp) hstep) fun h => h.1 hgated rfl
    | some n =>
      have hstep : SendJob.step v { j with pc := .gate } =
          if v.stopSendCond ≤ n then .ok ({ v with firstSegment := false }, { j with pc := .done }, none)
          else .ok ({ v with firstSegment := false }, { j with pc := .check j.request.startDataNumber }, none) := by
        simp only [SendJob.step, gate, hfirst, Bool.false_eq_true, if_false]
        rw [hlast]
      by_cases hstop : v.stopSendCond ≤ n
      · rw [if_pos hstop] at hstep
        rw [ends_iff_of_step (by simp) hstep]
        exact iff_of_true ⟨hwrap, .done rfl⟩ ⟨fun _ => Option.some_ne_none n, Or.inl ⟨hgated, n, rfl, hstop⟩⟩
      · rw [if_neg hstop] at hstep
        rw [ends_iff_of_step (by simp) hstep, and_iff_right hwrap, hloop false]
        constructor
        · intro h
          exact ⟨fun _ => Option.some_ne_none n, Or.inr h⟩
        · rintro ⟨_, ⟨_, k, hk, hle⟩ | h⟩
          · cases hk
            exact absurd hle hstop
          · exact h
  · obtain ⟨hset, hzero⟩ := not_not.1 hgated
    have hstep : SendJob.step v { j with pc := .gate } =
        .ok (v, { j with pc := .check j.request.startDataNumber }, none) := by
      simp only [SendJob.step, gate, hset, hzero, lt_irrefl, and_false, if_false, if_true]
    have hkeep : { v with firstSegment := true } = v := by
      rw [← hset]
    have hloop' := hloop true
    rw [hkeep] at hloop'
    rw [ends_iff_of_step (by simp) hstep, and_iff_right hwrap, hloop']
    constructor
    · intro h
      exact ⟨fun hg => absurd hg hgated, Or.inr h⟩
    · rintro ⟨_, ⟨hg, _⟩ | h⟩
      · exact absurd hg hgated
      · exact h

end SendJob

/-- A request whose wait has ended is served to the end, without a panic and without a wrap, exactly if it is safe. -/
theorem block_request_served_iff (v : SendView) (sessionID : ℕ) (p : Mp2session.BlockRequestPacket)
    (hwait : u32 ((requested p).endDataNumber * payloadSize) ≤ u32 v.sendBuffer.length) :
    SendJob.Ends v (startSendBlockData sessionID (requested p)) ↔ SafeRequest v (requested p) := by
  have hpeers : (requested p).numPeers * 10 < 2 ^ 8 := by
    have hbyte : p.fecIndex.toNat < 2 ^ 8 := p.fecIndex.toNat_lt
    have hle : p.fecIndex.toNat / 10 * 10 ≤ p.fecIndex.toNat := Nat.div_mul_le_self _ _
    exact lt_of_le_of_lt hle hbyte
  generalize requested p = r at *
  have hstep : SendJob.step v (startSendBlockData sessionID r) = .ok (v, ⟨sessionID, r, .gate⟩, none) :=
    if_neg (Nat.not_lt.2 hwait)
  rw [SendJob.ends_iff_of_step (by simp [startSendBlockData]) hstep]
  unfold SafeRequest
  by_cases hend : r.endDataNumber < 2 ^ 22
  · have hproduct : r.endDataNumber * payloadSize < 2 ^ 32 := by
      simp only [payloadSize]
      omega
    have hwrap : SendJob.NoWrap v (startSendBlockData sessionID r) := ⟨hpeers, hproduct⟩
    rw [u32_of_lt hproduct] at hwait
    rw [and_iff_right hwrap, and_iff_right hend]
    refine SendJob.ends_gate_iff (j := ⟨sessionID, r, .gate⟩) ?_
    intro first
    by_cases hrange : r.endDataNumber < r.startDataNumber
    · exact iff_of_true (SendJob.ends_check_of_lt (j := ⟨sessionID, r, .gate⟩) hrange) (Or.inl hrange)
    · have hcount : r.startDataNumber + (r.endDataNumber + 1 - r.startDataNumber) = r.endDataNumber + 1 := by omega
      exact SendJob.ends_check_iff (j := ⟨sessionID, r, .gate⟩) hend hwait _ hcount
  · refine iff_of_false ?_ ?_
    · rintro ⟨⟨_, hproduct⟩, _⟩
      change r.endDataNumber * payloadSize < 2 ^ 32 at hproduct
      simp only [payloadSize] at hproduct
      omega
    · exact fun h => hend h.1

theorem block_request_served_short :
    SafeRequest ⟨true, [1, 2, 3], 0, none, true⟩ (requested (Mp2session.createBlockRequestPacket 0 0 0 10)) ∧
      SendJob.Ends ⟨true, [1, 2, 3], 0, none, true⟩
        (startSendBlockData 7 (requested (Mp2session.createBlockRequestPacket 0 0 0 10))) := by
  have hsafe : SafeRequest ⟨true, [1, 2, 3], 0, none, true⟩ (requested (Mp2session.createBlockRequestPacket 0 0 0 10)) :=
    ⟨by decide, fun hgated => absurd ⟨rfl, rfl⟩ hgated, Or.inr (Or.inr ⟨fun _ => by decide, Or.inl (by decide)⟩)⟩
  exact ⟨hsafe, (block_request_served_iff ⟨true, [1, 2, 3], 0, none, true⟩ 7
    (Mp2session.createBlockRequestPacket 0 0 0 10) (by decide)).2 hsafe⟩

/-- A peer count of zero divides by zero once FEC is on. Without FEC the offset of the last number `2^22` wraps to
zero, so that an empty buffer ends the wait, and the size of the packet at offset 1024 is `0 - 1024`. -/
theorem block_request_crashes :
    SendJob.operations 3 ⟨true, [1, 2, 3], 0, none, true⟩
        (startSendBlockData 7 (requested (Mp2session.createBlockRequestPacket 0 0 0 5))) = .error .panic ∧
      SendJob.operations 5 ⟨false, [], 0, none, true⟩
        (startSendBlockData 7 (requested (Mp2session.createBlockRequestPacket 0 1 (2 ^ 22) 10))) = .error .panic := by
  exact ⟨by decide +kernel, by decide +kernel⟩

end Mp2bs.Block
