import Mp2bs.Block.Reassembly
import Mp2bs.Lib.Loop
import Mp2bs.Lib.Machine

/-!
# Calls on one segment

Sequences of `PushData` and `PopData` calls on a segment (`segment.go:99-133, 157-183`), each of which
holds its mutex. The packets carry its bytes and come in any order, any number of times.
-/

namespace Mp2bs.Block.Arrival
open Mp2bs.Lib Mp2bs.Lib.Slice Mp2bs.Lib.FrontRun Mp2bs.Lib.Machine

inductive Call
  | push (dataNumber : ℕ)
  | pop (bufLen : ℕ)
  deriving DecidableEq

/-- The segment, the bytes popped so far, and what each `PopData` reported with the bytes that had
been popped then. -/
structure State where
  seg : Segment
  popped : Bytes
  reports : List (Bool × Bytes)

def step (content : Bytes) (s : State) : Call → Except Stop State
  | .push n => do
    let (g, _) ← s.seg.pushData s.seg.blockNumber n
      (packetData content (n - s.seg.startDataNumber))
    return { s with seg := g }
  | .pop bufLen => do
    let (data, done, g) ← s.seg.popData bufLen
    return ⟨g, s.popped ++ data, s.reports ++ [(done, s.popped ++ data)]⟩

def init (g : Segment) : State := ⟨g, [], []⟩

/-- The segment after the calls: `k` packets from `start` on have been received without a gap. -/
structure Reassembled (content : Bytes) (start end' : ℕ) (calls : List Call) (s : State) : Prop where
  run : ∃ k ≤ numData content.length, (∀ i < k, .push (start + i) ∈ calls) ∧
    (k < numData content.length → .push (start + k) ∉ calls) ∧
    s.seg.lastRecvDataOffset = ((List.range k).flatMap (packetData content)).length ∧
    s.seg.expectedDataNumber = u32 (start + k)
  complete : s.seg.complete = true ↔ ∀ n, start ≤ n → n ≤ end' → .push n ∈ calls
  popped : s.popped = content.take s.seg.readDataOffset
  popped_length : s.popped.length = s.seg.readDataOffset
  read_le : s.seg.readDataOffset ≤ s.seg.lastRecvDataOffset
  reports : ∀ r ∈ s.reports, r.1 = true ↔ r.2 = content

structure Inv (content : Bytes) (start end' : ℕ) (calls : List Call) (s : State) : Prop where
  holds : s.seg.Reassembles content
  start_eq : s.seg.startDataNumber = start
  end_eq : s.seg.endDataNumber = end'
  received : ∀ i < numData content.length,
    s.seg.recvDataSize[i]? ≠ some 0 ↔ .push (start + i) ∈ calls
  popped : s.popped = content.take s.seg.readDataOffset
  reports : ∀ r ∈ s.reports, r.1 = true ↔ r.2 = content

variable {content : Bytes} {start end' : ℕ} {calls : List Call} {s : State}

theorem take_eq_self_iff {n : ℕ} (hn : n ≤ content.length) :
    content.take n = content ↔ n = content.length := by
  constructor
  · intro h
    have hlen := congrArg List.length h
    rw [List.length_take] at hlen
    omega
  · intro h
    rw [h, List.take_length]

theorem Inv.push (h : Inv content start end' calls s) {n : ℕ} (hn : start ≤ n ∧ n ≤ end') :
    ∃ s', step content s (.push n) = .ok s' ∧
      Inv content start end' (calls ++ [.push n]) s' := by
  obtain ⟨i, rfl⟩ : ∃ i, n = start + i := ⟨n - start, by omega⟩
  have hsize := h.holds.size_eq
  have hends := h.holds.end_eq
  have hstart := h.start_eq
  have hend := h.end_eq
  have hi : i < numData s.seg.size := by omega
  have hpush := h.holds.pushData_eq i hi
  have hpos := packetData_length_pos content i (by rw [← hsize]; exact hi)
  rw [hstart] at hpush
  refine ⟨{ s with seg := s.seg.pushed content i }, ?_, h.holds.pushed_reassembles i hi, h.start_eq,
    h.end_eq, fun j hj => ?_, h.popped, h.reports⟩
  · have hsub : start + i - s.seg.startDataNumber = i := by omega
    simp only [step, hsub, hpush]
    rfl
  · show (s.seg.recvDataSize.set i (packetData content i).length)[j]? ≠ some 0 ↔ _
    by_cases hij : i = j
    · subst hij
      rw [List.getElem?_set_self (by rw [h.holds.sizes_length]; exact hi)]
      have hne : some (packetData content i).length ≠ some 0 := fun h0 =>
        hpos.ne' (Option.some.inj h0)
      simp only [hne, ne_eq, not_false_eq_true, List.mem_append, List.mem_singleton, or_true]
    · have hne : Call.push (start + j) ≠ .push (start + i) := fun h0 => by
        have h1 := Call.push.inj h0
        omega
      rw [List.getElem?_set_ne hij, h.received j hj]
      simp only [List.mem_append, List.mem_singleton, hne, or_false]

theorem Inv.pop (h : Inv content start end' calls s) (bufLen : ℕ) :
    ∃ s', step content s (.pop bufLen) = .ok s' ∧
      Inv content start end' (calls ++ [.pop bufLen]) s' := by
  obtain ⟨n, hn, hpop⟩ := h.holds.popData_eq bufLen
  have hread := h.holds.read_le
  have hlast := h.holds.lastRecv_le
  have hsize := h.holds.size_eq
  have hle : s.seg.readDataOffset + n ≤ s.seg.lastRecvDataOffset := by omega
  have hpopped : s.popped ++ window content s.seg.readDataOffset n =
      content.take (s.seg.readDataOffset + n) := by
    rw [h.popped, take_append_window]
  refine ⟨_, bind_eq_ok.mpr ⟨_, hpop, rfl⟩, h.holds.read_reassembles n hle, h.start_eq, h.end_eq,
    fun j hj => ?_, hpopped, fun r hr => ?_⟩
  · simp only [List.mem_append, List.mem_singleton, reduceCtorEq, or_false]
    exact h.received j hj
  · rcases List.mem_append.mp hr with hr | hr
    · exact h.reports r hr
    · rw [List.mem_singleton.mp hr, hpopped]
      dsimp only
      rw [beq_iff_eq, take_eq_self_iff (by omega), hsize]

theorem Inv.exec (hpos : 0 < content.length) (hlt : content.length < 2 ^ 32)
    (hend : end' + 1 = start + numData content.length) (hendlt : end' < 2 ^ 32)
    (blockNumber sessionID idx : ℕ) (last : Bool) (calls : List Call)
    (hcalls : ∀ n, .push n ∈ calls → start ≤ n ∧ n ≤ end') :
    ∃ s, Machine.exec (step content) (init (createSegment blockNumber sessionID idx start end'
      content.length last)) calls = .ok s ∧ Inv content start end' calls s := by
  induction calls using List.reverseRecOn with
  | nil =>
    have hfresh := createSegment_reassembles blockNumber sessionID idx start end' last content hpos
      hlt hend hendlt
    refine ⟨_, rfl, hfresh, rfl, rfl, fun i hi => ?_, rfl, fun r hr => absurd hr List.not_mem_nil⟩
    have hlen := hfresh.sizes_length
    have hzero : ∀ m, i < m → (List.replicate m 0)[i]? = some 0 := fun m hm => by
      rw [List.getElem?_replicate, if_pos hm]
    have hi' : i < (createSegment blockNumber sessionID idx start end' content.length
        last).recvDataSize.length := by
      rw [hlen]
      exact hi
    simp only [createSegment, List.length_replicate] at hi'
    simp only [init, createSegment, hzero _ hi', ne_eq, not_true, List.not_mem_nil]
  | append_singleton calls c ih =>
    obtain ⟨s, hs, hinv⟩ := ih fun n hn => hcalls n (List.mem_append_left _ hn)
    have hstep : ∃ s', step content s c = .ok s' ∧ Inv content start end' (calls ++ [c]) s' := by
      cases c with
      | push n => exact hinv.push (hcalls n (List.mem_append_right _ (List.mem_singleton_self _)))
      | pop bufLen => exact hinv.pop bufLen
    obtain ⟨s', hs', hinv'⟩ := hstep
    refine ⟨s', ?_, hinv'⟩
    rw [exec_append _ hs]
    simp only [Machine.exec, hs']

theorem Inv.reassembled (h : Inv content start end' calls s) :
    Reassembled content start end' calls s := by
  have hsize := h.holds.size_eq
  have hends := h.holds.end_eq
  have hstart := h.start_eq
  have hend := h.end_eq
  have hrun := h.holds.frontRun_le
  have hread := h.holds.read_le
  have hlast := h.holds.lastRecv_le
  rw [hsize] at hrun hends
  refine ⟨⟨frontRun s.seg.recvDataSize, hrun, fun i hi => ?_, fun hlt => ?_, ?_, ?_⟩, ?_, h.popped,
    ?_, hread, h.reports⟩
  · obtain ⟨n, hn, hpos⟩ := pos_of_lt_frontRun _ i hi
    refine (h.received i (by omega)).mp fun h0 => ?_
    have hz : n = 0 := Option.some.inj (hn.symm.trans h0)
    omega
  · have hmissing := getElem?_frontRun s.seg.recvDataSize
      (by rw [h.holds.sizes_length, hsize]; exact hlt)
    exact fun hmem => (h.received _ hlt).mpr hmem hmissing
  · have hchunks : (List.range (frontRun s.seg.recvDataSize)).flatMap (packetData content) =
        content.take (payloadSize * frontRun s.seg.recvDataSize) :=
      (take_eq_flatMap_chunk _ _ _).symm
    rw [hchunks, List.length_take, h.holds.lastRecv, hsize]
  · rw [h.holds.expected, hstart]
  · rw [h.holds.complete_iff, hsize]
    constructor
    · intro hall n hlo hhi
      obtain ⟨i, rfl⟩ : ∃ i, n = start + i := ⟨n - start, by omega⟩
      have hi : i < numData content.length := by omega
      exact (h.received i hi).mp (hall i hi)
    · intro hall i hi
      exact (h.received i hi).mpr (hall _ (by omega) (by omega))
  · rw [h.popped, List.length_take]
    omega

/-- No call stops, and after any calls the segment is as its received packets say. -/
theorem segment_reassembly (hpos : 0 < content.length) (hlt : content.length < 2 ^ 32)
    (hend : end' + 1 = start + numData content.length) (hendlt : end' < 2 ^ 32)
    (blockNumber sessionID idx : ℕ) (last : Bool) (calls : List Call)
    (hcalls : ∀ n, .push n ∈ calls → start ≤ n ∧ n ≤ end') :
    ∃ s, Machine.exec (step content) (init (createSegment blockNumber sessionID idx start end'
      content.length last)) calls = .ok s ∧ Reassembled content start end' calls s := by
  obtain ⟨s, hs, hinv⟩ := Inv.exec hpos hlt hend hendlt blockNumber sessionID idx last calls hcalls
  exact ⟨s, hs, hinv.reassembled⟩

/-- Two packets in the wrong order, the first of them twice, and reads in between. -/
def swapped : List Call := [.push 8, .pop 10, .push 7, .push 7, .pop 1000, .pop 1000]

theorem segment_reassembly_swapped :
    ∃ s, Machine.exec (step (List.replicate 1500 1)) (init (createSegment 3 1 0 7 8
      (List.replicate 1500 (1 : UInt8)).length true)) swapped = .ok s ∧
      Reassembled (List.replicate 1500 1) 7 8 swapped s := by
  have hcalls : ∀ n, .push n ∈ swapped → 7 ≤ n ∧ n ≤ 8 := by
    intro n hn
    simp only [swapped, List.mem_cons, Call.push.injEq, reduceCtorEq, List.not_mem_nil, or_false,
      false_or] at hn
    omega
  refine segment_reassembly ?_ ?_ ?_ (by norm_num) 3 1 0 true swapped hcalls
  all_goals rw [List.length_replicate]
  · norm_num
  · norm_num
  · decide

end Mp2bs.Block.Arrival
