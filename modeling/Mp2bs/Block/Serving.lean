import Mp2bs.Block.Sender

/-!
# Whole calls of `sendBlockData` in FEC mode

`mp2session.go:541-588` on a `sendBuffer` that holds what the request names: which data numbers a
call sends, when it returns, and when it does not.
-/

namespace Mp2bs.Block

/-- The two parts of `FecIndex` (`mp2session.go:543-544`). -/
def BlockRequestPacket.numPeers (r : BlockRequestPacket) : ℕ := r.fecIndex / 10
def BlockRequestPacket.peerIdx (r : BlockRequestPacket) : ℕ := r.fecIndex - r.fecIndex / 10 * 10

/-- The data numbers from `d` to the end that the loop does not skip. -/
def BlockRequestPacket.shareFrom (r : BlockRequestPacket) (d : ℕ) : List ℕ :=
  (List.range' d (r.endDataNumber + 1 - d)).filter fun d => d % r.numPeers = r.peerIdx

/-- The hard coded stop lets a request through (`mp2session.go:551-563`). -/
def SendView.Open (v : SendView) : Prop :=
  v.firstSegment = true ∧ v.stopSendCond = 0 ∨ ∃ r ∈ v.lastRecvBytes, r < v.stopSendCond

theorem BlockRequestPacket.mem_shareFrom {r : BlockRequestPacket} {a d : ℕ} :
    d ∈ r.shareFrom a ↔ a ≤ d ∧ d ≤ r.endDataNumber ∧ d % r.numPeers = r.peerIdx := by
  simp only [shareFrom, List.mem_filter, List.mem_range'_1, decide_eq_true_eq]
  constructor
  · rintro ⟨⟨h1, h2⟩, h3⟩
    exact ⟨h1, by omega, h3⟩
  · rintro ⟨h1, h2, h3⟩
    exact ⟨⟨h1, by omega⟩, h3⟩

theorem BlockRequestPacket.shareFrom_of_le (r : BlockRequestPacket) {d : ℕ}
    (hd : d ≤ r.endDataNumber) :
    r.shareFrom d =
      if d % r.numPeers = r.peerIdx then d :: r.shareFrom (d + 1) else r.shareFrom (d + 1) := by
  have hlen : r.endDataNumber + 1 - d = r.endDataNumber + 1 - (d + 1) + 1 := by omega
  simp only [shareFrom]
  rw [hlen, List.range'_succ, List.filter_cons]
  simp only [decide_eq_true_eq]

namespace SendJob

inductive Finishes : SendView → SendJob → List BlockDataPacket → Prop
  | done {v : SendView} {j : SendJob} (hpc : j.pc = .done) : Finishes v j []
  | step {v v' : SendView} {j j' : SendJob} {out : Option BlockDataPacket}
      {ps : List BlockDataPacket} (h : j.step v = .ok (v', j', out)) (rest : Finishes v' j' ps) :
      Finishes v j (out.toList ++ ps)

variable {v : SendView} {j : SendJob} {d : ℕ} {ps : List BlockDataPacket}

theorem Finishes.det {qs : List BlockDataPacket} (h : Finishes v j ps) (h' : Finishes v j qs) :
    ps = qs := by
  induction h generalizing qs with
  | done hpc =>
    cases h' with
    | done _ => rfl
    | step hs _ => simp [SendJob.step, hpc] at hs
  | step hs rest ih =>
    cases h' with
    | done hpc => simp [SendJob.step, hpc] at hs
    | step hs' rest' =>
      rw [hs] at hs'
      cases hs'
      rw [ih rest']

theorem step_skip (hfec : v.fecMode = true) (hn : 0 < j.request.numPeers)
    (hd : d ≤ j.request.endDataNumber) (hsel : d % j.request.numPeers ≠ j.request.peerIdx) :
    SendJob.step v { j with pc := .check d } =
      .ok (v, { j with pc := .check (u32 (d + 1)) }, none) := by
  simp only [BlockRequestPacket.numPeers, BlockRequestPacket.peerIdx] at hn hsel
  simp only [SendJob.step, check]
  rw [if_neg (by omega), if_neg (by omega), if_pos ⟨hfec, hsel⟩]

theorem step_take (v : SendView) (hn : 0 < j.request.numPeers) (hd : d ≤ j.request.endDataNumber)
    (hsel : d % j.request.numPeers = j.request.peerIdx) :
    SendJob.step v { j with pc := .check d } = .ok (v, { j with
      pc := if u32 (u32 (d * payloadSize) + payloadSize) ≤ u32 v.sendBuffer.length
        then .emit d payloadSize else .size d }, none) := by
  simp only [BlockRequestPacket.numPeers, BlockRequestPacket.peerIdx] at hn hsel
  simp only [SendJob.step, check]
  rw [if_neg (by omega), if_neg (by omega), if_neg (fun h => h.2 hsel)]
  split <;> rfl

theorem Finishes.check_take (hf : j.Fits v.sendBuffer) (hn : 0 < j.request.numPeers)
    (hd : d ≤ j.request.endDataNumber) (hw : payloadSize * d + payloadSize < 2 ^ 32)
    (hsel : d % j.request.numPeers = j.request.peerIdx)
    (hrest : Finishes v { j with pc := .check (d + 1) } ps) :
    Finishes v { j with pc := .check d }
      (dataPacket j.request.blockNumber j.sessionID d v.sendBuffer :: ps) := by
  have hoff := hf.offset_lt hd
  have hlen := hf.length_lt
  have hpack := hf.length_packet hd
  have hnext : u32 (d + 1) = d + 1 := u32_of_lt (by simp only [payloadSize] at hw; omega)
  have hemit : SendJob.step v { j with pc := .emit d (packetData v.sendBuffer d).length } =
      .ok (v, { j with pc := .check (d + 1) },
        some (dataPacket j.request.blockNumber j.sessionID d v.sendBuffer)) := by
    have heq := emit_eq (v := v) (hf.withPc (.emit d (packetData v.sendBuffer d).length)) hd
      (by rw [hpack]; omega) (window_of_front (List.prefix_refl _) d)
    rw [hnext] at heq
    exact heq
  have hcheck := step_take v hn hd hsel
  simp only [hf.u32_offset hd, u32_of_lt hw, u32_of_lt hlen] at hcheck
  by_cases hfull : payloadSize * d + payloadSize ≤ v.sendBuffer.length
  · have hsize : (packetData v.sendBuffer d).length = payloadSize := by omega
    rw [if_pos hfull] at hcheck
    rw [hsize] at hemit
    exact .step hcheck (.step hemit hrest)
  · have hsize : u32Sub (u32 v.sendBuffer.length) (u32 (d * payloadSize)) =
        (packetData v.sendBuffer d).length := by
      rw [hf.u32_offset hd, u32_of_lt hlen, u32Sub_of_le (by omega) hlen]
      omega
    have htail : SendJob.step v { j with pc := .size d } =
        .ok (v, { j with pc := .emit d (packetData v.sendBuffer d).length }, none) := by
      simp only [SendJob.step, hsize]
    rw [if_neg hfull] at hcheck
    exact .step hcheck (.step htail (.step hemit hrest))

theorem finishes_check (hf : j.Fits v.sendBuffer) (hfec : v.fecMode = true)
    (hn : 0 < j.request.numPeers)
    (hw : payloadSize * j.request.endDataNumber + payloadSize < 2 ^ 32)
    (hd : d ≤ j.request.endDataNumber + 1) :
    Finishes v { j with pc := .check d } ((j.request.shareFrom d).map fun d =>
      dataPacket j.request.blockNumber j.sessionID d v.sendBuffer) := by
  -- on the number of data numbers that are left
  obtain ⟨k, hk⟩ : ∃ k, k = j.request.endDataNumber + 1 - d := ⟨_, rfl⟩
  induction k generalizing d with
  | zero =>
    have hend : j.request.endDataNumber < d := by omega
    have hshare : j.request.shareFrom d = [] := by
      simp [BlockRequestPacket.shareFrom, ← hk]
    have hcheck : SendJob.step v { j with pc := .check d } = .ok (v, { j with pc := .done }, none) := by
      simp only [SendJob.step, check]
      rw [if_pos hend]
    rw [hshare]
    exact .step hcheck (.done rfl)
  | succ k ih =>
    have hle : d ≤ j.request.endDataNumber := by omega
    have hrest := ih (d := d + 1) (by omega) (by omega)
    rw [j.request.shareFrom_of_le hle]
    by_cases hsel : d % j.request.numPeers = j.request.peerIdx
    · rw [if_pos hsel, List.map_cons]
      refine .check_take hf hn hle ?_ hsel hrest
      simp only [payloadSize] at hw ⊢
      omega
    · rw [if_neg hsel]
      have hnext : u32 (d + 1) = d + 1 := u32_of_lt (by simp only [payloadSize] at hw; omega)
      have hcheck := step_skip hfec hn hle hsel
      rw [hnext] at hcheck
      exact .step hcheck hrest

theorem gate_open (h : v.Open) (j : SendJob) : ∃ first, j.gate v =
    .ok ({ v with firstSegment := first }, { j with pc := .check j.request.startDataNumber },
      none) := by
  obtain ⟨fecMode, buf, stopCond, lastRecv, first⟩ := v
  rcases h with ⟨rfl, rfl⟩ | ⟨r, hr, hlt⟩
  · exact ⟨true, rfl⟩
  · simp only [Option.mem_def] at hr hlt
    subst hr
    have hstop : ¬ stopCond ≤ r := by omega
    have hpos : 0 < stopCond := by omega
    refine ⟨false, ?_⟩
    cases first <;> simp [gate, hstop, hpos]

theorem gate_closed (h : ¬ v.Open) (j : SendJob) : j.gate v = .error .panic ∨
    ∃ first, j.gate v = .ok ({ v with firstSegment := first }, { j with pc := .done }, none) := by
  obtain ⟨fecMode, buf, stopCond, lastRecv, first⟩ := v
  simp only [SendView.Open, not_or, not_and, not_exists, Option.mem_def] at h
  have hfirst : first = true → 0 < stopCond := fun hf => Nat.pos_of_ne_zero (h.1 hf)
  cases lastRecv with
  | none =>
    left
    cases first with
    | true => simp [gate, hfirst rfl]
    | false => rfl
  | some r =>
    right
    have hstop : stopCond ≤ r := Nat.le_of_not_lt (h.2 r rfl)
    refine ⟨false, ?_⟩
    cases first with
    | true => simp [gate, hfirst rfl, hstop]
    | false => simp [gate, hstop]

theorem wait_eq (hf : j.Fits v.sendBuffer) :
    SendJob.step v { j with pc := .wait } = .ok (v, { j with pc := .gate }, none) := by
  have hoff := hf.offset_lt (le_refl _)
  simp only [SendJob.step]
  rw [hf.u32_offset (le_refl _), u32_of_lt hf.length_lt, if_neg (by omega)]

section
variable {sessionID : ℕ} {r : BlockRequestPacket}

theorem finishes_of_open (hf : (startSendBlockData sessionID r).Fits v.sendBuffer)
    (hfec : v.fecMode = true) (hopen : v.Open) (hn : 0 < r.numPeers)
    (hw : payloadSize * r.endDataNumber + payloadSize < 2 ^ 32)
    (hle : r.startDataNumber ≤ r.endDataNumber) :
    Finishes v (startSendBlockData sessionID r)
      ((r.shareFrom r.startDataNumber).map fun d =>
        dataPacket r.blockNumber sessionID d v.sendBuffer) := by
  obtain ⟨first, hgate⟩ := gate_open hopen ⟨sessionID, r, .gate⟩
  have hloop : Finishes { v with firstSegment := first } ⟨sessionID, r, .check r.startDataNumber⟩
      ((r.shareFrom r.startDataNumber).map fun d =>
        dataPacket r.blockNumber sessionID d v.sendBuffer) :=
    finishes_check (v := { v with firstSegment := first }) (j := startSendBlockData sessionID r)
      hf hfec hn hw (Nat.le_succ_of_le hle)
  have hstep : SendJob.step v ⟨sessionID, r, .gate⟩ = _ := hgate
  exact .step (wait_eq hf) (.step hstep hloop)

theorem Finishes.of_closed (hf : (startSendBlockData sessionID r).Fits v.sendBuffer)
    (hclosed : ¬ v.Open) (h : Finishes v (startSendBlockData sessionID r) ps) : ps = [] := by
  cases h with
  | done hpc => cases hpc
  | step hs rest =>
    cases (wait_eq hf).symm.trans hs
    cases rest with
    | done hpc => cases hpc
    | step hs rest =>
      rcases gate_closed hclosed ⟨sessionID, r, .gate⟩ with hg | ⟨first, hg⟩
      · cases hg.symm.trans hs
      · cases hg.symm.trans hs
        exact rest.det (.done rfl)

end

def Doomed (j : SendJob) : SendPc → Prop
  | .check d => d ≤ j.request.endDataNumber
  | .size d => d < j.request.endDataNumber
  | .emit d size => d < j.request.endDataNumber ∨ d = j.request.endDataNumber ∧ size = payloadSize
  | .wait | .gate | .done => False

theorem doomed_of_lt (hlt : d < j.request.endDataNumber) (c : Prop) [Decidable c] :
    j.Doomed (if c then .emit d payloadSize else .size d) := by
  split
  · exact .inl hlt
  · exact hlt

theorem not_finishes_of_doomed (hf : j.Fits v.sendBuffer) (hfec : v.fecMode = true)
    (hn : 0 < j.request.numPeers)
    (hsel : j.request.endDataNumber % j.request.numPeers = j.request.peerIdx)
    (hw : payloadSize * j.request.endDataNumber + payloadSize = 2 ^ 32) {pc : SendPc}
    (hpc : j.Doomed pc) : ¬ Finishes v { j with pc := pc } ps := by
  intro h
  generalize hj : { j with pc := pc } = j' at h
  induction h generalizing pc with
  | done hdone =>
    subst hj
    simp only at hdone
    rw [hdone] at hpc
    exact hpc
  | @step v v' j₁ j' out ps hs rest ih =>
    subst hj
    have hnext : ∀ d < j.request.endDataNumber, u32 (d + 1) = d + 1 := by
      intro d hd
      exact u32_of_lt (by simp only [payloadSize] at hw; omega)
    cases pc with
    | wait | gate | done => exact hpc
    | check d =>
      have hd : d ≤ j.request.endDataNumber := hpc
      by_cases hd' : d % j.request.numPeers = j.request.peerIdx
      · rw [step_take v hn hd hd', hf.u32_offset hd] at hs
        cases hs
        rcases Nat.lt_or_eq_of_le hd with hlt | rfl
        · exact ih hf hfec (doomed_of_lt hlt _) rfl
        · have hzero : u32 (payloadSize * j.request.endDataNumber + payloadSize) = 0 := by
            rw [hw]
            rfl
          rw [hzero, if_pos (Nat.zero_le _)] at ih
          exact ih hf hfec (show j.Doomed (.emit j.request.endDataNumber payloadSize) from
            .inr ⟨rfl, rfl⟩) rfl
      · have hlt : d < j.request.endDataNumber := by
          rcases Nat.lt_or_eq_of_le hd with hlt | rfl
          · exact hlt
          · exact absurd hsel hd'
        rw [step_skip hfec hn hd hd', hnext d hlt] at hs
        cases hs
        exact ih hf hfec (show j.Doomed (.check (d + 1)) from hlt) rfl
    | size d =>
      cases hs
      exact ih hf hfec (show j.Doomed (.emit d _) from .inl hpc) rfl
    | emit d size =>
      rcases hpc with hlt | ⟨rfl, rfl⟩
      · obtain ⟨rfl, rfl, -⟩ := emit_cases hs
        rw [hnext d hlt] at ih
        exact ih hf hfec (show j.Doomed (.check (d + 1)) from hlt) rfl
      · have hpanic := emit_wrap (v := v) (hf.withPc (.emit j.request.endDataNumber payloadSize))
          (le_refl _) hw
        cases hpanic.symm.trans hs

theorem not_finishes_of_wrap {sessionID : ℕ} {r : BlockRequestPacket}
    (hf : (startSendBlockData sessionID r).Fits v.sendBuffer) (hfec : v.fecMode = true)
    (hopen : v.Open) (hn : 0 < r.numPeers) (hsel : r.endDataNumber % r.numPeers = r.peerIdx)
    (hw : payloadSize * r.endDataNumber + payloadSize = 2 ^ 32)
    (hle : r.startDataNumber ≤ r.endDataNumber) :
    ¬ Finishes v (startSendBlockData sessionID r) ps := by
  intro h
  cases h with
  | done hpc => cases hpc
  | step hs rest =>
    cases (wait_eq hf).symm.trans hs
    cases rest with
    | done hpc => cases hpc
    | step hs rest =>
      obtain ⟨first, hgate⟩ := gate_open hopen ⟨sessionID, r, .gate⟩
      cases hgate.symm.trans hs
      exact not_finishes_of_doomed (v := { v with firstSegment := first })
        (j := startSendBlockData sessionID r) hf hfec hn hsel hw
        (show Doomed (startSendBlockData sessionID r) (.check r.startDataNumber) from hle) rest

end SendJob

end Mp2bs.Block
