import Mp2bs.Block.Segment

/-!
# What a segment holds

`Reassembles content g` relates a segment to the bytes it was requested for: every packet that has
arrived is stored at its place, `expectedDataNumber` is the first one missing, and only what lies
before it can be read.
-/

namespace Mp2bs.Block
open Mp2bs.Lib.Slice Mp2bs.Lib.FrontRun

def packetData (content : Bytes) (i : ℕ) : Bytes := chunk payloadSize content i

theorem packetData_length (content : Bytes) (i : ℕ) :
    (packetData content i).length = min payloadSize (content.length - payloadSize * i) :=
  chunk_length _ _ _

theorem packetData_length_pos (content : Bytes) (i : ℕ) (h : i < numData content.length) :
    0 < (packetData content i).length := by
  rw [packetData_length]
  have hi := (lt_numData_iff content.length i).mp h
  simp only [payloadSize] at hi ⊢
  omega

structure Segment.Reassembles (content : Bytes) (g : Segment) : Prop where
  size_eq : g.size = content.length
  size_pos : 0 < g.size
  size_lt : g.size < 2 ^ 32
  end_eq : g.endDataNumber + 1 = g.startDataNumber + numData g.size
  end_lt : g.endDataNumber < 2 ^ 32
  buffer_length : g.recvBuffer.length = g.size
  sizes_length : g.recvDataSize.length = numData g.size
  arrived : ∀ i < numData g.size, g.recvDataSize[i]? = some 0 ∨
    (g.recvDataSize[i]? = some (packetData content i).length ∧
      window g.recvBuffer (payloadSize * i) payloadSize = packetData content i)
  expected : g.expectedDataNumber = u32 (g.startDataNumber + frontRun g.recvDataSize)
  lastRecv : g.lastRecvDataOffset = min (payloadSize * frontRun g.recvDataSize) g.size
  completed : g.complete = decide (frontRun g.recvDataSize = numData g.size)
  read_le : g.readDataOffset ≤ g.lastRecvDataOffset

namespace Segment.Reassembles
variable {content : Bytes} {g : Segment}

theorem frontRun_le (h : g.Reassembles content) : frontRun g.recvDataSize ≤ numData g.size := by
  rw [← h.sizes_length]
  exact frontRun_le_length _

theorem lastRecv_le (h : g.Reassembles content) : g.lastRecvDataOffset ≤ g.size := by
  rw [h.lastRecv]
  exact Nat.min_le_right _ _

theorem stored_prefix (h : g.Reassembles content) (k : ℕ) (hk : k ≤ frontRun g.recvDataSize) :
    g.recvBuffer.take (payloadSize * k) = content.take (payloadSize * k) := by
  induction k with
  | zero => simp
  | succ k ih =>
    have hlt : k < numData g.size := lt_of_lt_of_le hk h.frontRun_le
    obtain ⟨n, hn, hpos⟩ := pos_of_lt_frontRun _ k hk
    have hw : window g.recvBuffer (payloadSize * k) payloadSize = packetData content k := by
      rcases h.arrived k hlt with h0 | h1
      · rw [h0] at hn
        have hz : 0 = n := Option.some.inj hn
        omega
      · exact h1.2
    rw [Nat.mul_succ, ← take_append_window, ih (by omega), hw, packetData, chunk,
      take_append_window]

theorem readable (h : g.Reassembles content) :
    g.recvBuffer.take g.lastRecvDataOffset = content.take g.lastRecvDataOffset := by
  have hs := h.stored_prefix _ le_rfl
  have hb : g.recvBuffer.length = content.length := h.buffer_length.trans h.size_eq
  rw [h.lastRecv]
  rcases Nat.le_total (payloadSize * frontRun g.recvDataSize) g.size with hle | hle
  · rw [Nat.min_eq_left hle]
    exact hs
  · rw [Nat.min_eq_right hle]
    rw [List.take_of_length_le (by rw [h.buffer_length]; exact hle),
      List.take_of_length_le (by rw [← h.size_eq]; exact hle)] at hs
    rw [hs]

theorem complete_iff (h : g.Reassembles content) :
    g.complete = true ↔ ∀ i < numData g.size, g.recvDataSize[i]? ≠ some 0 := by
  rw [h.completed, decide_eq_true_iff]
  constructor
  · intro he i hi h0
    obtain ⟨n, hn, hpos⟩ := pos_of_lt_frontRun g.recvDataSize i (by omega)
    rw [h0] at hn
    have hz : 0 = n := Option.some.inj hn
    omega
  · intro hall
    by_contra hne
    have hlt : frontRun g.recvDataSize < numData g.size := lt_of_le_of_ne h.frontRun_le hne
    exact hall _ hlt (getElem?_frontRun _ (by rw [h.sizes_length]; exact hlt))

theorem lastRecv_of_complete (h : g.Reassembles content) (hc : g.complete = true) :
    g.lastRecvDataOffset = g.size := by
  rw [h.completed, decide_eq_true_iff] at hc
  rw [h.lastRecv, hc]
  exact Nat.min_eq_right (le_numData_mul _)

theorem complete_of_lastRecv (h : g.Reassembles content) (hl : g.lastRecvDataOffset = g.size) :
    g.complete = true := by
  rw [h.completed, decide_eq_true_iff]
  by_contra hne
  have hlt : frontRun g.recvDataSize < numData g.size := lt_of_le_of_ne h.frontRun_le hne
  have hpay := (lt_numData_iff _ _).mp hlt
  rw [h.lastRecv] at hl
  omega

end Segment.Reassembles

theorem createSegment_reassembles (blockNumber sessionID idx start end' : ℕ) (last : Bool)
    (content : Bytes) (hpos : 0 < content.length) (hlt : content.length < 2 ^ 32)
    (hend : end' + 1 = start + numData content.length) (hendlt : end' < 2 ^ 32) :
    (createSegment blockNumber sessionID idx start end' content.length last).Reassembles
      content := by
  have hn := numData_pos hpos
  have hle : numData content.length < 2 ^ 32 := by
    simp only [numData, payloadSize]
    omega
  have hsub : u32 (u32Sub end' start + 1) = numData content.length := by
    rw [u32Sub_of_le (by omega) hendlt, u32_of_lt (by omega)]
    omega
  have hrun : frontRun (createSegment blockNumber sessionID idx start end' content.length
      last).recvDataSize = 0 := frontRun_replicate_zero _
  refine ⟨rfl, hpos, hlt, hend, hendlt, by simp [createSegment], ?_, ?_, ?_, ?_, ?_, le_rfl⟩
  · simp only [createSegment, List.length_replicate, hsub]
  · intro i hi
    left
    simp only [createSegment, hsub] at hi ⊢
    rw [List.getElem?_replicate, if_pos hi]
  · rw [hrun, Nat.add_zero]
    exact (u32_of_lt (show start < 2 ^ 32 by omega)).symm
  · rw [hrun]
    simp [createSegment]
  · rw [hrun]
    have hne : ¬ (0 = numData (createSegment blockNumber sessionID idx start end'
        content.length last).size) := by
      simp only [createSegment]
      omega
    simp only [hne, decide_false]
    rfl

/-! ### PushData -/

theorem Segment.fill_eq (g : Segment) (l : List ℕ) (hlt : g.expectedDataNumber < 2 ^ 32)
    (hexp : g.expectedDataNumber + l.length ≤ 2 ^ 32)
    (hlast : g.lastRecvDataOffset + (l.take (frontRun l)).sum < 2 ^ 32) :
    g.fill l = { g with
      complete := g.complete || decide (g.expectedDataNumber ≤ g.endDataNumber ∧
        g.endDataNumber < g.expectedDataNumber + frontRun l)
      lastRecvDataOffset := g.lastRecvDataOffset + (l.take (frontRun l)).sum
      expectedDataNumber := u32 (g.expectedDataNumber + frontRun l) } := by
  induction l generalizing g with
  | nil =>
    have hno : ¬ (g.expectedDataNumber ≤ g.endDataNumber ∧
        g.endDataNumber < g.expectedDataNumber) := by omega
    simp [fill, frontRun, hno, u32_of_lt hlt]
  | cons size rest ih =>
    simp only [List.length_cons] at hexp
    by_cases hpos : 0 < size
    · simp only [frontRun, if_pos hpos, List.take_succ_cons, List.sum_cons] at hlast ⊢
      have hl : u32 (g.lastRecvDataOffset + size) = g.lastRecvDataOffset + size :=
        u32_of_lt (by omega)
      have hrest := frontRun_le_length rest
      have he : u32 (g.expectedDataNumber + 1) = g.expectedDataNumber + 1 ∨
          u32 (g.expectedDataNumber + 1) = 0 ∧ g.expectedDataNumber + 1 = 2 ^ 32 := by
        unfold u32
        omega
      simp only [fill, if_pos hpos, hl]
      rw [ih _ (u32_lt _) (by dsimp only; omega) (by dsimp only; omega)]
      -- the expected number and the rest of the run together are the run
      have hc : (g.complete || g.expectedDataNumber == g.endDataNumber ||
            decide (u32 (g.expectedDataNumber + 1) ≤ g.endDataNumber ∧
              g.endDataNumber < u32 (g.expectedDataNumber + 1) + frontRun rest)) =
          (g.complete || decide (g.expectedDataNumber ≤ g.endDataNumber ∧
              g.endDataNumber < g.expectedDataNumber + (frontRun rest + 1))) := by
        rw [Bool.or_assoc]
        congr 1
        rw [Bool.eq_iff_iff]
        simp only [Bool.or_eq_true, beq_iff_eq, decide_eq_true_iff]
        omega
      have hu : u32 (u32 (g.expectedDataNumber + 1) + frontRun rest) =
          u32 (g.expectedDataNumber + (frontRun rest + 1)) := by
        unfold u32
        omega
      rw [hc, hu, Nat.add_assoc]
    · have hno : ¬ (g.expectedDataNumber ≤ g.endDataNumber ∧
          g.endDataNumber < g.expectedDataNumber) := by omega
      simp [fill, frontRun, hpos, hno, u32_of_lt hlt]

theorem sum_take_sizes (content : Bytes) (sizes : List ℕ) (k : ℕ)
    (h : ∀ j < k, sizes[j]? = some (packetData content j).length) :
    (sizes.take k).sum = min (payloadSize * k) content.length := by
  induction k with
  | zero => simp
  | succ k ih =>
    have hk := h k (Nat.lt_succ_self k)
    rw [List.take_add_one, hk, List.sum_append, ih (fun j hj => h j (Nat.lt_succ_of_lt hj))]
    simp only [Option.toList_some, List.sum_cons, List.sum_nil, packetData_length, payloadSize]
    omega

def Segment.withPacket (g : Segment) (content : Bytes) (i : ℕ) : Segment :=
  let sizes := g.recvDataSize.set i (packetData content i).length
  { g with
    recvBuffer := writeAt g.recvBuffer (payloadSize * i) (packetData content i)
    recvDataSize := sizes
    numDataNumber := u32 (g.numDataNumber + 1)
    complete := decide (frontRun sizes = numData g.size)
    lastRecvDataOffset := min (payloadSize * frontRun sizes) g.size
    expectedDataNumber := g.startDataNumber + frontRun sizes }

def Segment.pushed (g : Segment) (content : Bytes) (i : ℕ) : Segment :=
  { g.withPacket content i with
    expectedDataNumber :=
      u32 (g.startDataNumber + frontRun (g.withPacket content i).recvDataSize) }

namespace Segment.Reassembles
variable {content : Bytes} {g : Segment}

theorem packet_fits (h : g.Reassembles content) (i : ℕ) (hi : i < numData g.size) :
    payloadSize * i + (packetData content i).length ≤ g.recvBuffer.length := by
  have hlt := (lt_numData_iff g.size i).mp hi
  have hs := h.size_eq
  rw [h.buffer_length, packetData_length]
  simp only [payloadSize] at *
  omega

theorem arrived_set (h : g.Reassembles content) (i : ℕ) (hi : i < numData g.size) (j : ℕ)
    (hj : j < numData g.size) :
    (g.withPacket content i).recvDataSize[j]? = some 0 ∨
      ((g.withPacket content i).recvDataSize[j]? = some (packetData content j).length ∧
        window (g.withPacket content i).recvBuffer (payloadSize * j) payloadSize =
          packetData content j) := by
  have hfit := h.packet_fits i hi
  have hsize := h.size_eq
  simp only [withPacket]
  by_cases hij : i = j
  · subst hij
    right
    refine ⟨List.getElem?_set_self (by rw [h.sizes_length]; exact hi), ?_⟩
    apply List.ext_getElem?
    intro t
    rw [window_getElem?, writeAt_getElem? _ _ _ _ hfit]
    rw [packetData_length, h.buffer_length] at *
    by_cases ht : t < (packetData content i).length
    · rw [packetData_length] at ht
      rw [if_pos (by omega), if_pos ⟨by omega, by omega⟩]
      congr 1
      omega
    · rw [packetData_length] at ht
      have hnone : (packetData content i)[t]? = none :=
        List.getElem?_eq_none (by rw [packetData_length]; omega)
      rw [hnone]
      split_ifs with h1 h2
      · omega
      · exact List.getElem?_eq_none (by rw [h.buffer_length]; simp only [payloadSize] at *; omega)
      · rfl
  · rw [List.getElem?_set_ne hij]
    rcases h.arrived j hj with h0 | h1
    · exact Or.inl h0
    · refine Or.inr ⟨h1.1, ?_⟩
      rw [window_writeAt_of_disjoint _ _ _ _ _ hfit, h1.2]
      rw [packetData_length]
      simp only [payloadSize]
      omega

theorem pushed_reassembles (h : g.Reassembles content) (i : ℕ) (hi : i < numData g.size) :
    (g.pushed content i).Reassembles content := by
  have hlen := packetData_length_pos content i (by rw [← h.size_eq]; exact hi)
  have hmono : frontRun g.recvDataSize ≤
      frontRun (g.recvDataSize.set i (packetData content i).length) := by
    by_cases he : i = frontRun g.recvDataSize
    · have hs := le_frontRun_set_self g.recvDataSize (packetData content i).length hlen
        (by rw [h.sizes_length]; omega)
      rw [← he] at hs ⊢
      omega
    · exact le_of_eq (frontRun_set_of_ne _ _ _ hlen he).symm
  refine ⟨h.size_eq, h.size_pos, h.size_lt, h.end_eq, h.end_lt, ?_, ?_, h.arrived_set i hi, rfl,
    rfl, rfl, ?_⟩
  · simp only [pushed, withPacket]
    rw [writeAt_length _ _ _ (h.packet_fits i hi)]
    exact h.buffer_length
  · simp only [pushed, withPacket, List.length_set]
    exact h.sizes_length
  · have hr := h.read_le
    rw [h.lastRecv] at hr
    simp only [pushed, withPacket]
    simp only [payloadSize] at hr ⊢
    omega

theorem sizes_of_run (h : g.Reassembles content) (j : ℕ) (hj : j < frontRun g.recvDataSize) :
    g.recvDataSize[j]? = some (packetData content j).length := by
  obtain ⟨n, hn, hpos⟩ := pos_of_lt_frontRun _ j hj
  rcases h.arrived j (lt_of_lt_of_le hj h.frontRun_le) with h0 | h1
  · rw [h0] at hn
    have hz : 0 = n := Option.some.inj hn
    omega
  · exact h1.1

end Segment.Reassembles

def Segment.stored (g : Segment) (content : Bytes) (i : ℕ) : Segment :=
  { g with
    recvBuffer := writeAt g.recvBuffer (payloadSize * i) (packetData content i)
    recvDataSize := g.recvDataSize.set i (packetData content i).length
    numDataNumber := u32 (g.numDataNumber + 1) }

namespace Segment.Reassembles
variable {content : Bytes} {g : Segment}

theorem fill_stored (h : g.Reassembles content) (i : ℕ) (hi : i < numData g.size)
    (he : i = frontRun g.recvDataSize) :
    (g.stored content i).fill ((g.stored content i).recvDataSize.drop i) =
      g.pushed content i := by
  have h' := h.pushed_reassembles i hi
  have hpos := packetData_length_pos content i (by rw [← h.size_eq]; exact hi)
  have hrun := le_frontRun_set_self g.recvDataSize _ hpos (by rw [h.sizes_length]; omega)
  rw [← he] at hrun
  have hsizes : (g.stored content i).recvDataSize = (g.pushed content i).recvDataSize := rfl
  have hrun' : i + 1 ≤ frontRun (g.pushed content i).recvDataSize := hrun
  have hdrop := frontRun_drop (g.pushed content i).recvDataSize i (by omega)
  have hfront : frontRun (g.pushed content i).recvDataSize ≤ numData g.size := h'.frontRun_le
  have hlen : ((g.pushed content i).recvDataSize.drop i).length = numData g.size - i := by
    rw [List.length_drop, h'.sizes_length]
    rfl
  have hsum := sum_take_sizes content _ _ (fun j hj => h'.sizes_of_run j hj)
  have hsumi := sum_take_sizes content (g.pushed content i).recvDataSize i
    (fun j hj => h'.sizes_of_run j (by omega))
  rw [hdrop, List.take_add, List.sum_append, hsumi] at hsum
  have hend := h.end_eq
  have hendlt := h.end_lt
  have hsz := h.size_lt
  have hexp : g.expectedDataNumber = g.startDataNumber + i := by
    rw [h.expected, ← he]
    exact u32_of_lt (by omega)
  have hlast : g.lastRecvDataOffset = min (1024 * i) content.length := by
    rw [h.lastRecv, ← he, h.size_eq]
  have hseq := h.size_eq
  simp only [payloadSize] at hsum
  rw [hsizes, fill_eq _ _ (by simp only [stored]; omega) (by rw [hlen]; simp only [stored]; omega)
    (by simp only [stored]; omega)]
  have hc : (g.complete || decide (g.expectedDataNumber ≤ g.endDataNumber ∧ g.endDataNumber <
      g.expectedDataNumber + frontRun ((g.pushed content i).recvDataSize.drop i))) =
      decide (frontRun (g.pushed content i).recvDataSize = numData g.size) := by
    rw [h.completed, ← he, decide_eq_false (by omega), Bool.false_or]
    apply decide_eq_decide.mpr
    omega
  have hl : g.lastRecvDataOffset + (((g.pushed content i).recvDataSize.drop i).take
      (frontRun ((g.pushed content i).recvDataSize.drop i))).sum =
      min (1024 * frontRun (g.pushed content i).recvDataSize) g.size := by
    rw [hlast, h.size_eq, hdrop]
    exact hsum
  have hx : u32 (g.expectedDataNumber + frontRun ((g.pushed content i).recvDataSize.drop i)) =
      u32 (g.startDataNumber + frontRun (g.pushed content i).recvDataSize) := by
    congr 1
    omega
  simp only [pushed, withPacket, payloadSize] at hx hl hc
  simp only [stored, pushed, withPacket, payloadSize, Segment.mk.injEq, true_and, and_true]
  exact ⟨hx, hl, hc⟩

theorem pushData_eq (h : g.Reassembles content) (i : ℕ) (hi : i < numData g.size) :
    g.pushData g.blockNumber (g.startDataNumber + i) (packetData content i) =
      .ok (g.pushed content i, true) := by
  have hfit := h.packet_fits i hi
  have hlen : (packetData content i).length ≤ payloadSize := by
    rw [packetData_length]
    exact Nat.min_le_left _ _
  have hend := h.end_eq
  have hbl := h.buffer_length
  have hsl := h.sizes_length
  have hle := h.size_lt
  have hendlt := h.end_lt
  simp only [payloadSize] at hfit hlen
  have hu : u32 (packetData content i).length = (packetData content i).length :=
    u32_of_lt (by omega)
  have hstart : u32 (i * 1024) = 1024 * i := by
    rw [Nat.mul_comm]
    exact u32_of_lt (by omega)
  have hhigh : u32 (1024 * i + (packetData content i).length) =
      1024 * i + (packetData content i).length := u32_of_lt (by omega)
  have hcore : g.pushData g.blockNumber (g.startDataNumber + i) (packetData content i) =
      if g.startDataNumber + i = g.expectedDataNumber then
        .ok ((g.stored content i).fill ((g.stored content i).recvDataSize.drop i), true)
      else .ok (g.stored content i, true) := by
    unfold pushData
    rw [if_pos ⟨rfl, by omega, by omega⟩]
    simp only [Nat.add_sub_cancel_left, payloadSize, hu, hstart, hhigh]
    rw [if_pos ⟨by omega, by omega, by omega⟩, List.take_of_length_le (by omega)]
    rfl
  rw [hcore]
  have hrun := h.frontRun_le
  have hcount : numData g.size < 2 ^ 32 := by
    simp only [numData, payloadSize]
    omega
  by_cases he : i = frontRun g.recvDataSize
  · rw [if_pos (by rw [h.expected, ← he, u32_of_lt (by omega)]), h.fill_stored i hi he]
  · rw [if_neg (by rw [h.expected]; unfold u32; omega)]
    have hpos := packetData_length_pos content i (by rw [← h.size_eq]; exact hi)
    have hsame := frontRun_set_of_ne g.recvDataSize i _ hpos he
    simp only [pushed, withPacket, stored, hsame]
    rw [← h.expected, ← h.lastRecv, ← h.completed]

/-! ### PopData -/

theorem popData_eq (h : g.Reassembles content) (bufLen : ℕ) :
    ∃ n, n = min (u32 bufLen) (g.lastRecvDataOffset - g.readDataOffset) ∧
      g.popData bufLen = .ok (window content g.readDataOffset n,
        g.readDataOffset + n == g.size, { g with readDataOffset := g.readDataOffset + n }) := by
  refine ⟨_, rfl, ?_⟩
  have hr := h.read_le
  have hl := h.lastRecv_le
  have hs := h.size_lt
  have hb := h.buffer_length
  simp only [popData]
  by_cases hlt : g.readDataOffset < g.lastRecvDataOffset
  · have hmin : (if u32 bufLen < g.lastRecvDataOffset - g.readDataOffset then u32 bufLen
        else g.lastRecvDataOffset - g.readDataOffset) =
        min (u32 bufLen) (g.lastRecvDataOffset - g.readDataOffset) := by
      split_ifs <;> omega
    rw [if_pos hlt, u32Sub_of_le hr (by omega), hmin, u32_of_lt (by omega),
      if_pos ⟨by omega, by omega⟩, Nat.add_sub_cancel_left]
    have hw : window g.recvBuffer g.readDataOffset
          (min (u32 bufLen) (g.lastRecvDataOffset - g.readDataOffset)) =
        window content g.readDataOffset
          (min (u32 bufLen) (g.lastRecvDataOffset - g.readDataOffset)) := by
      have hread := h.readable
      apply List.ext_getElem?
      intro t
      rw [window_getElem?, window_getElem?]
      by_cases ht : t < min (u32 bufLen) (g.lastRecvDataOffset - g.readDataOffset)
      · have hget := congrArg (fun l => l[g.readDataOffset + t]?) hread
        simp only [List.getElem?_take] at hget
        rw [if_pos (by omega), if_pos (by omega)] at hget
        rw [if_pos ht, if_pos ht, hget]
      · rw [if_neg ht, if_neg ht]
    rw [hw]
  · rw [if_neg hlt]
    have hz : g.lastRecvDataOffset - g.readDataOffset = 0 := by omega
    rw [hz, Nat.min_zero, window_zero, Nat.add_zero]

theorem read_reassembles (h : g.Reassembles content) (n : ℕ)
    (hn : g.readDataOffset + n ≤ g.lastRecvDataOffset) :
    ({ g with readDataOffset := g.readDataOffset + n } : Segment).Reassembles content :=
  ⟨h.size_eq, h.size_pos, h.size_lt, h.end_eq, h.end_lt, h.buffer_length, h.sizes_length,
    h.arrived, h.expected, h.lastRecv, h.completed, hn⟩

end Segment.Reassembles

/-! ### Segments of a block request -/

structure Segment.Holds (content : Bytes) (g : Segment) : Prop where
  size_eq : g.size = content.length
  size_pos : 0 < g.size
  size_le : g.size ≤ segmentSize
  end_eq : g.endDataNumber + 1 = g.startDataNumber + numData g.size
  end_lt : g.endDataNumber + 1 < 2 ^ 32
  buffer_length : g.recvBuffer.length = g.size
  sizes_length : g.recvDataSize.length = numData g.size
  arrived : ∀ i < numData g.size, g.recvDataSize[i]? = some 0 ∨
    (g.recvDataSize[i]? = some (packetData content i).length ∧
      window g.recvBuffer (payloadSize * i) payloadSize = packetData content i)
  expected : g.expectedDataNumber = g.startDataNumber + frontRun g.recvDataSize
  lastRecv : g.lastRecvDataOffset = min (payloadSize * frontRun g.recvDataSize) g.size
  completed : g.complete = decide (frontRun g.recvDataSize = numData g.size)
  read_le : g.readDataOffset ≤ g.lastRecvDataOffset

theorem Segment.holds_iff (content : Bytes) (g : Segment) : g.Holds content ↔
    g.Reassembles content ∧ g.size ≤ segmentSize ∧ g.endDataNumber + 1 < 2 ^ 32 := by
  have hu (hrun : frontRun g.recvDataSize ≤ numData g.size)
      (hend : g.endDataNumber + 1 = g.startDataNumber + numData g.size)
      (hlt : g.endDataNumber + 1 < 2 ^ 32) :
      u32 (g.startDataNumber + frontRun g.recvDataSize) =
        g.startDataNumber + frontRun g.recvDataSize := u32_of_lt (by omega)
  constructor
  · intro h
    have hle := h.size_le
    have hlt := h.end_lt
    have hrun : frontRun g.recvDataSize ≤ numData g.size := by
      rw [← h.sizes_length]
      exact frontRun_le_length _
    simp only [segmentSize] at hle
    exact ⟨⟨h.size_eq, h.size_pos, by omega, h.end_eq, by omega, h.buffer_length, h.sizes_length,
      h.arrived, h.expected.trans (hu hrun h.end_eq hlt).symm, h.lastRecv, h.completed,
      h.read_le⟩, h.size_le, hlt⟩
  · rintro ⟨h, hle, hlt⟩
    exact ⟨h.size_eq, h.size_pos, hle, h.end_eq, hlt, h.buffer_length, h.sizes_length, h.arrived,
      h.expected.trans (hu h.frontRun_le h.end_eq hlt), h.lastRecv, h.completed, h.read_le⟩

theorem createSegment_holds (blockNumber sessionID idx start end' : ℕ) (last : Bool)
    (content : Bytes) (hpos : 0 < content.length) (hle : content.length ≤ segmentSize)
    (hend : end' + 1 = start + numData content.length) (hlt : end' + 1 < 2 ^ 32) :
    (createSegment blockNumber sessionID idx start end' content.length last).Holds content := by
  have hsize : content.length < 2 ^ 32 := by
    simp only [segmentSize] at hle
    omega
  exact (Segment.holds_iff _ _).mpr ⟨createSegment_reassembles blockNumber sessionID idx start end'
    last content hpos hsize hend (by omega), hle, hlt⟩

namespace Segment.Holds
variable {content : Bytes} {g : Segment}

theorem reassembles (h : g.Holds content) : g.Reassembles content :=
  ((holds_iff content g).mp h).1

theorem lastRecv_le (h : g.Holds content) : g.lastRecvDataOffset ≤ g.size :=
  h.reassembles.lastRecv_le

theorem complete_iff (h : g.Holds content) :
    g.complete = true ↔ ∀ i < numData g.size, g.recvDataSize[i]? ≠ some 0 :=
  h.reassembles.complete_iff

theorem lastRecv_of_complete (h : g.Holds content) (hc : g.complete = true) :
    g.lastRecvDataOffset = g.size := h.reassembles.lastRecv_of_complete hc

theorem complete_of_lastRecv (h : g.Holds content) (hl : g.lastRecvDataOffset = g.size) :
    g.complete = true := h.reassembles.complete_of_lastRecv hl

theorem pushed_eq (h : g.Holds content) (i : ℕ) (hi : i < numData g.size) :
    g.pushed content i = g.withPacket content i := by
  have hrun : frontRun (g.withPacket content i).recvDataSize ≤ numData g.size :=
    (h.reassembles.pushed_reassembles i hi).frontRun_le
  have hend := h.end_eq
  have hlt := h.end_lt
  rw [pushed, u32_of_lt (by omega)]
  rfl

theorem withPacket_holds (h : g.Holds content) (i : ℕ) (hi : i < numData g.size) :
    (g.withPacket content i).Holds content := by
  have hpushed := h.reassembles.pushed_reassembles i hi
  rw [h.pushed_eq i hi] at hpushed
  exact (holds_iff _ _).mpr ⟨hpushed, h.size_le, h.end_lt⟩

theorem pushData_eq (h : g.Holds content) (i : ℕ) (hi : i < numData g.size) :
    g.pushData g.blockNumber (g.startDataNumber + i) (packetData content i) =
      .ok (g.withPacket content i, true) := by
  rw [h.reassembles.pushData_eq i hi, h.pushed_eq i hi]

theorem popData_eq (h : g.Holds content) (bufLen : ℕ) :
    ∃ n, n = min (u32 bufLen) (g.lastRecvDataOffset - g.readDataOffset) ∧
      g.popData bufLen = .ok (window content g.readDataOffset n,
        g.readDataOffset + n == g.size, { g with readDataOffset := g.readDataOffset + n }) :=
  h.reassembles.popData_eq bufLen

theorem read_holds (h : g.Holds content) (n : ℕ)
    (hn : g.readDataOffset + n ≤ g.lastRecvDataOffset) :
    ({ g with readDataOffset := g.readDataOffset + n } : Segment).Holds content :=
  (holds_iff _ _).mpr ⟨h.reassembles.read_reassembles n hn, h.size_le, h.end_lt⟩

end Segment.Holds

end Mp2bs.Block
