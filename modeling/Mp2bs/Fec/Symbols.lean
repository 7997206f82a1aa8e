import Mp2bs.Fec.Buffer

/-!
# A FEC buffer that receives whole symbols

`sym i` is the content of symbol `i` of a block: the source symbols are 0 to 15, the redundant ones 16
to 19. The received symbols are the first `n`, which are in `encBlock`, and those of the frames that
wait in the two queues, as long as no frame is pushed that a queue already holds, and no frame closes
the gap to the head of its queue.
-/

namespace Mp2bs.Fec
open Mp2bs.Lib.Slice Mp2bs.Lib.Machine

/-! ### `bufferMap` -/

def marks (l : List ℕ) : List ℕ :=
  (List.range numEncSymbols).map fun i => if i ∈ l then symbolSize else 0

theorem marks_length (l : List ℕ) : (marks l).length = numEncSymbols := by
  rw [marks, List.length_map, List.length_range]

variable {i n : ℕ} {l bufferMap : List ℕ} {sym : ℕ → Bytes} {encBlock : Bytes}

theorem marks_getElem? (l : List ℕ) (hi : i < numEncSymbols) :
    (marks l)[i]? = some (if i ∈ l then symbolSize else 0) := by
  rw [marks, List.getElem?_map, List.getElem?_range hi, Option.map_some]

theorem marks_set (l : List ℕ) (hi : i < numEncSymbols) :
    (marks l).set i symbolSize = marks (l ++ [i]) := by
  apply List.ext_getElem?
  intro j
  by_cases hj : j < numEncSymbols
  · by_cases hij : i = j
    · subst hij
      rw [List.getElem?_set_self (by rw [marks_length]; exact hi), marks_getElem? _ hj]
      simp
    · rw [List.getElem?_set_ne hij, marks_getElem? _ hj, marks_getElem? _ hj]
      have : j ∈ l ++ [i] ↔ j ∈ l := by simp [Ne.symm hij]
      simp only [this]
  · rw [List.getElem?_eq_none (by rw [List.length_set, marks_length]; omega),
      List.getElem?_eq_none (by rw [marks_length]; omega)]

theorem set_same {v : ℕ} (h : l[i]? = some v) : l.set i v = l := by
  obtain ⟨hi, rfl⟩ := List.getElem?_eq_some_iff.mp h
  exact List.set_getElem_self hi

theorem fillMap_zero (turns i : ℕ) (h : i + turns ≤ bufferMap.length) :
    fillMap turns i 0 bufferMap = .ok bufferMap := by
  induction turns generalizing i with
  | zero => rfl
  | succ turns ih =>
    have hget : bufferMap[i]? = some bufferMap[i] := List.getElem?_eq_getElem (by omega)
    simp only [fillMap, hget]
    split_ifs with hd
    · have hz : symbolSize - bufferMap[i] = 0 := Nat.le_zero.mp hd
      simp only [hz, Nat.add_zero, Nat.sub_zero, set_same hget]
      exact ih (i + 1) (by omega)
    · simp only [Nat.add_zero, set_same hget]

theorem symIndex (start : ℕ) (hn : n ≤ numEncSymbols) :
    u32 (start + symbolSize * n - start) / symbolSize = n := by
  have hlt : symbolSize * n < 2 ^ 32 := by
    simp only [symbolSize, numEncSymbols] at *
    omega
  rw [Nat.add_sub_cancel_left, u32_of_lt hlt]
  exact Nat.mul_div_cancel_left n (by decide)

theorem setBufferMap_nothing (start : ℕ) (hn : n ≤ numEncSymbols)
    (hl : bufferMap.length = numEncSymbols) :
    setBufferMap start (start + symbolSize * n) (start + symbolSize * n) bufferMap =
      .ok bufferMap := by
  simp only [setBufferMap, symIndex start hn, hl, Nat.sub_self]
  apply fillMap_zero
  rw [hl]
  by_cases hend : n = numEncSymbols
  · rw [if_pos hend]
    simp only [numEncSymbols] at *
    omega
  · rw [if_neg hend]
    omega

theorem setBufferMap_symbol (start : ℕ) (hi : i < numEncSymbols) (hl : bufferMap.length = numEncSymbols)
    (h0 : bufferMap[i]? = some 0) :
    setBufferMap start (start + symbolSize * i) (start + symbolSize * (i + 1)) bufferMap =
      .ok (bufferMap.set i symbolSize) := by
  have hrem : start + symbolSize * (i + 1) - (start + symbolSize * i) = symbolSize := by
    rw [Nat.mul_succ]
    omega
  simp only [setBufferMap, symIndex start hi.le, symIndex start (Nat.succ_le_of_lt hi), hl, hrem]
  obtain ⟨turns, hturns, hle⟩ : ∃ turns,
      (if i + 1 = numEncSymbols then i + 1 - 1 else i + 1) + 1 - i = turns + 1 ∧
        i + 1 + turns ≤ numEncSymbols := by
    split_ifs with hend
    · exact ⟨0, by omega, by omega⟩
    · exact ⟨1, by omega, by omega⟩
  rw [hturns, fillMap]
  simp only [h0, Nat.sub_zero, le_refl, if_true, Nat.sub_self, Nat.zero_add]
  exact fillMap_zero turns (i + 1) (by rw [List.length_set, hl]; exact hle)

/-! ### Frames that carry one symbol -/

structure Stores (sym : ℕ → Bytes) (l : List ℕ) (encBlock : Bytes) : Prop where
  length : encBlock.length = symbolSize * numEncSymbols
  symbols : ∀ i ∈ l, window encBlock (symbolSize * i) symbolSize = sym i

theorem Stores.copyAt (h : Stores sym l encBlock) (hi : i < numEncSymbols)
    (hs : (sym i).length = symbolSize) :
    ∃ encBlock', copyAt encBlock (symbolSize * i) (sym i) = .ok encBlock' ∧
      Stores sym (l ++ [i]) encBlock' := by
  have hfit : symbolSize * i + (sym i).length ≤ encBlock.length := by
    rw [hs, h.length]
    simp only [symbolSize, numEncSymbols] at *
    omega
  refine ⟨writeAt encBlock (symbolSize * i) (sym i), if_pos hfit, ?_, ?_⟩
  · rw [writeAt_length _ _ _ hfit, h.length]
  · intro j hj
    by_cases hij : j = i
    · rw [hij, ← hs]
      conv_lhs => rw [hs]
      have := window_writeAt_self encBlock (sym i) (symbolSize * i) hfit
      rwa [hs] at this
    · have hjl : j ∈ l := by
        rcases List.mem_append.mp hj with hj | hj
        · exact hj
        · exact absurd (List.mem_singleton.mp hj) hij
      rw [window_writeAt_of_disjoint _ _ _ _ _ hfit, h.symbols j hjl]
      rw [hs]
      simp only [symbolSize]
      omega

section
variable {α : Type} {offset : α → ℕ} {data : α → Bytes} {start : ℕ} {sym : ℕ → Bytes}

def Carries (offset : α → ℕ) (data : α → Bytes) (start : ℕ) (sym : ℕ → Bytes) (i : ℕ) (frame : α) :
    Prop :=
  i < numEncSymbols ∧ offset frame = start + symbolSize * i ∧ data frame = sym i

variable {i : ℕ} {frame : α} {ids : List ℕ} {queue : List α}

theorem Carries.fits (h : Carries offset data start sym i frame) (hs : (sym i).length = symbolSize) :
    offset frame - start = symbolSize * i ∧
      offset frame + (data frame).length = start + symbolSize * (i + 1) := by
  refine ⟨by rw [h.2.1, Nat.add_sub_cancel_left], ?_⟩
  rw [h.2.1, h.2.2, hs, Nat.mul_succ]
  omega

def Queued (offset : α → ℕ) (data : α → Bytes) (start : ℕ) (sym : ℕ → Bytes) (ids : List ℕ)
    (queue : List α) : Prop :=
  List.Forall₂ (Carries offset data start sym) ids queue

theorem takeIn_eq (hs : ∀ i, (sym i).length = symbolSize) (hq : Queued offset data start sym ids queue)
    {l : List ℕ} {encBlock : Bytes} (hst : Stores sym l encBlock) (hnd : (l ++ ids).Nodup) :
    ∃ encBlock', takeIn offset data start queue (encBlock, marks l) =
        .ok (encBlock', marks (l ++ ids)) ∧
      Stores sym (l ++ ids) encBlock' := by
  induction hq generalizing l encBlock with
  | nil => exact ⟨encBlock, by rw [takeIn, List.append_nil], by rw [List.append_nil]; exact hst⟩
  | @cons i frame ids queue hc hq ih =>
    obtain ⟨hpos, hend⟩ := hc.fits (hs i)
    obtain ⟨encBlock₁, hcopy, hst₁⟩ := hst.copyAt hc.1 (hs i)
    have hnew : i ∉ l := by
      intro hin
      have := List.disjoint_of_nodup_append hnd hin
      simp at this
    have hmark : setBufferMap start (offset frame) (offset frame + (data frame).length) (marks l) =
        .ok (marks (l ++ [i])) := by
      rw [hend, hc.2.1, setBufferMap_symbol start hc.1 (marks_length l), marks_set l hc.1]
      rw [marks_getElem? l hc.1, if_neg hnew]
    obtain ⟨encBlock₂, htake, hst₂⟩ := ih hst₁ (by simpa using hnd)
    refine ⟨encBlock₂, ?_, by simpa using hst₂⟩
    rw [takeIn]
    simp only [hpos, hc.2.2, hcopy]
    rw [← hc.2.2, hmark]
    simpa using htake

theorem Queued.perm {queue' : List α} (h : Queued offset data start sym ids queue)
    (hp : queue'.Perm queue) : ∃ ids', ids'.Perm ids ∧ Queued offset data start sym ids' queue' := by
  obtain ⟨ids', hq, hids⟩ := List.perm_comp_forall₂ hp h.flip
  exact ⟨ids', hids, hq.flip⟩

theorem Queued.mem (h : Queued offset data start sym ids queue) (hi : i ∈ ids) :
    ∃ frame ∈ queue, Carries offset data start sym i frame := by
  induction h with
  | nil => simp at hi
  | @cons j frame ids queue hc _ ih =>
    rcases List.mem_cons.mp hi with rfl | hi
    · exact ⟨frame, List.mem_cons_self .., hc⟩
    · obtain ⟨f, hf, hcf⟩ := ih hi
      exact ⟨f, List.mem_cons_of_mem _ hf, hcf⟩

theorem Queued.mem_queue (h : Queued offset data start sym ids queue) (hf : frame ∈ queue) :
    ∃ i ∈ ids, Carries offset data start sym i frame := by
  induction h with
  | nil => simp at hf
  | @cons j f ids queue hc _ ih =>
    rcases List.mem_cons.mp hf with rfl | hf
    · exact ⟨j, List.mem_cons_self .., hc⟩
    · obtain ⟨i, hi, hci⟩ := ih hf
      exact ⟨i, List.mem_cons_of_mem _ hi, hci⟩

theorem Carries.inj {j : ℕ} {frame' : α} (h : Carries offset data start sym i frame)
    (h' : Carries offset data start sym j frame') (he : offset frame = offset frame') : i = j := by
  rw [h.2.1, h'.2.1] at he
  simp only [symbolSize] at he
  omega

theorem drain_of_head {next : ℕ} (h : ∀ frame ∈ queue.head?, offset frame ≠ next) :
    drain offset data queue queue next = (next, queue) := by
  cases queue with
  | nil => rfl
  | cons frame rest => rw [drain, if_neg (h frame rfl)]

end

/-! ### The compaction -/

theorem writeAt_replicate (a src : Bytes) (m : ℕ) :
    writeAt (a ++ List.replicate (src.length + m) 0) a.length src =
      a ++ src ++ List.replicate m 0 := by
  simp only [writeAt, List.take_left', List.drop_append]
  simp

theorem set_replicate (a : List ℕ) (i m : ℕ) :
    (a ++ List.replicate (m + 1) 0).set a.length i = a ++ [i] ++ List.replicate m 0 := by
  rw [List.set_append_right _ _ (le_refl _), Nat.sub_self, List.replicate_succ]
  simp

def present (l : List ℕ) (i : ℕ) : List ℕ := (List.range i).filter fun j => decide (j ∈ l)

theorem present_succ (l : List ℕ) (i : ℕ) :
    present l (i + 1) = if i ∈ l then present l i ++ [i] else present l i := by
  rw [present, List.range_succ, List.filter_append]
  split_ifs with h
  · simp [present, h]
  · simp [present, h]

theorem present_length_le (l : List ℕ) (i : ℕ) : (present l i).length ≤ i := by
  have := List.length_filter_le (fun j => decide (j ∈ l)) (List.range i)
  rwa [List.length_range] at this

theorem mem_present {j : ℕ} : j ∈ present l i ↔ j < i ∧ j ∈ l := by
  simp [present]

theorem present_increasing (l : List ℕ) (i : ℕ) : (present l i).Pairwise (· < ·) :=
  List.pairwise_lt_range.filter _

theorem present_nodup (l : List ℕ) (i : ℕ) : (present l i).Nodup := List.nodup_range.filter _

def compacted (sym : ℕ → Bytes) (l : List ℕ) (i : ℕ) : EncodeBlock where
  encBlock := (present l i).flatMap sym ++
    List.replicate (symbolSize * (numEncSymbols - (present l i).length)) 0
  symbolMap := present l i ++ List.replicate (numEncSymbols - (present l i).length) 0
  lost := i - (present l i).length

theorem flatMap_length (hs : ∀ i, (sym i).length = symbolSize) (l : List ℕ) :
    (l.flatMap sym).length = symbolSize * l.length := by
  induction l with
  | nil => rfl
  | cons i l ih =>
    rw [List.flatMap_cons, List.length_append, ih, hs, List.length_cons, Nat.mul_succ]
    omega

theorem window_flatMap (hs : ∀ i, (sym i).length = symbolSize) (rest : Bytes) {k : ℕ}
    (hk : l[k]? = some i) : window (l.flatMap sym ++ rest) (symbolSize * k) symbolSize = sym i := by
  induction l generalizing k with
  | nil => simp at hk
  | cons a l ih =>
    rw [List.flatMap_cons, List.append_assoc]
    cases k with
    | zero =>
      obtain rfl : a = i := by simpa using hk
      rw [Nat.mul_zero, window, List.drop_zero, ← hs a]
      exact List.take_left
    | succ k =>
      rw [← ih (by simpa using hk), window, window, Nat.mul_succ, Nat.add_comm, ← List.drop_drop,
        List.drop_left' (hs a)]

theorem compact_eq (hs : ∀ i, (sym i).length = symbolSize) (hst : Stores sym l encBlock) (k : ℕ)
    (hk : i + k = numEncSymbols) :
    compact encBlock ((List.range' i k).map fun j => if j ∈ l then symbolSize else 0) i
        (present l i).length (compacted sym l i) =
      .ok (compacted sym l numEncSymbols) := by
  induction k generalizing i with
  | zero =>
    have : i = numEncSymbols := by omega
    rw [this]
    rfl
  | succ k ih =>
    have hle := present_length_le l i
    obtain ⟨m, hm⟩ : ∃ m, numEncSymbols - (present l i).length = m + 1 :=
      ⟨numEncSymbols - (present l i).length - 1, by omega⟩
    rw [List.range'_succ, List.map_cons, compact]
    have hnext := ih (i := i + 1) (by omega)
    by_cases hin : i ∈ l
    · have hsucc : present l (i + 1) = present l i ++ [i] := by rw [present_succ, if_pos hin]
      have hm' : numEncSymbols - (present l i ++ [i]).length = m := by
        rw [List.length_append, List.length_singleton]
        omega
      have hwin : window encBlock (i * symbolSize) symbolSize = sym i := by
        rw [Nat.mul_comm]
        exact hst.symbols i hin
      have hcopy : copyAt (compacted sym l i).encBlock ((present l i).length * symbolSize) (sym i) =
          .ok (compacted sym l (i + 1)).encBlock := by
        have hlen := flatMap_length hs (present l i)
        have hw := writeAt_replicate ((present l i).flatMap sym) (sym i) (symbolSize * m)
        rw [hs, hlen] at hw
        have hmul : symbolSize * (m + 1) = symbolSize + symbolSize * m := by
          rw [Nat.mul_succ, Nat.add_comm]
        rw [copyAt, if_pos]
        · simp only [compacted, hm, hm', hsucc, hmul, Nat.mul_comm _ symbolSize, hw,
            List.flatMap_append, List.flatMap_singleton]
        · simp only [compacted, hm, List.length_append, List.length_replicate, hlen, hs, hmul]
          rw [Nat.mul_comm]
          omega
      have hset : (compacted sym l i).symbolMap.set (present l i).length i =
          (compacted sym l (i + 1)).symbolMap := by
        simp only [compacted, hm, hm', hsucc]
        exact set_replicate (present l i) i m
      have hlost : (compacted sym l i).lost = (compacted sym l (i + 1)).lost := by
        simp only [compacted, hsucc, List.length_append, List.length_singleton]
        omega
      rw [if_pos hin, if_pos rfl, hwin, hcopy]
      dsimp only
      rw [hset, hlost]
      rw [hsucc, List.length_append, List.length_singleton] at hnext
      exact hnext
    · have hsucc : present l (i + 1) = present l i := by rw [present_succ, if_neg hin]
      have hz : ¬(0 = symbolSize) := by decide
      rw [if_neg hin, if_neg hz]
      rw [hsucc] at hnext
      have hout : { compacted sym l i with lost := (compacted sym l i).lost + 1 } =
          compacted sym l (i + 1) := by
        simp only [compacted, hsucc, EncodeBlock.mk.injEq, true_and]
        omega
      rw [hout]
      exact hnext

/-! ### The buffer -/

namespace FecBuffer

structure Holds (sym : ℕ → Bytes) (n : ℕ) (streamIds fecIds : List ℕ) (b : FecBuffer) : Prop where
  le : n ≤ numEncSymbols
  next : b.nextFrameOffset = b.startStreamOffset + symbolSize * n
  last : b.endStreamOffset + 1 = b.startStreamOffset + srcBlockSize
  stores : Stores sym (List.range n) b.encBlock
  marked : b.bufferMap = marks (List.range n)
  stream : Queued (·.offset) (·.data) b.startStreamOffset sym streamIds b.oobStreamFrameQueue
  fec : Queued b.fecStart (·.fecData) b.startStreamOffset sym fecIds b.oobFecFrameQueue
  streamIds_lt : ∀ i ∈ streamIds, n ≤ i ∧ i < numSrcSymbols
  fecIds_ge : ∀ i ∈ fecIds, n ≤ i ∧ numSrcSymbols ≤ i
  streamIds_nodup : streamIds.Nodup
  fecIds_nodup : fecIds.Nodup

theorem init_holds (sym : ℕ → Bytes) (streamID start : ℕ) : (init streamID start).Holds sym 0 [] [] := by
  refine ⟨Nat.zero_le _, rfl, ?_, ⟨List.length_replicate, ?_⟩, ?_, .nil, .nil, ?_, ?_, .nil, .nil⟩
  · show start + srcBlockSize - 1 + 1 = start + srcBlockSize
    simp only [srcBlockSize, symbolSize, numSrcSymbols]
    omega
  · simp
  · rfl
  · simp
  · simp

section
variable {sym : ℕ → Bytes} {n : ℕ} {streamIds fecIds : List ℕ} {b : FecBuffer}

theorem Holds.nodup_stream (h : b.Holds sym n streamIds fecIds) :
    (List.range n ++ streamIds).Nodup := by
  refine List.Nodup.append List.nodup_range h.streamIds_nodup ?_
  intro i hi hi'
  have := (h.streamIds_lt i hi').1
  have := List.mem_range.mp hi
  omega

theorem Holds.nodup (h : b.Holds sym n streamIds fecIds) :
    (List.range n ++ streamIds ++ fecIds).Nodup := by
  refine List.Nodup.append h.nodup_stream h.fecIds_nodup ?_
  intro i hi hi'
  have hge := h.fecIds_ge i hi'
  rcases List.mem_append.mp hi with hi | hi
  · have := List.mem_range.mp hi
    omega
  · have := (h.streamIds_lt i hi).2
    omega

theorem Holds.getEncodeBlock_eq (h : b.Holds sym n streamIds fecIds)
    (hs : ∀ i, (sym i).length = symbolSize) :
    ∃ encBlock, Stores sym (List.range n ++ streamIds ++ fecIds) encBlock ∧
      b.getEncodeBlock = .ok ({ b with
          encBlock := encBlock
          bufferMap := marks (List.range n ++ streamIds ++ fecIds) },
        compacted sym (List.range n ++ streamIds ++ fecIds) numEncSymbols) := by
  obtain ⟨enc₁, htake₁, hst₁⟩ := takeIn_eq hs h.stream h.stores h.nodup_stream
  obtain ⟨enc₂, htake₂, hst₂⟩ := takeIn_eq hs h.fec hst₁ h.nodup
  refine ⟨enc₂, hst₂, ?_⟩
  have hcomp : compact enc₂ (marks (List.range n ++ streamIds ++ fecIds)) 0 0
      ⟨List.replicate (symbolSize * numEncSymbols) 0, List.replicate numEncSymbols 0, 0⟩ =
        .ok (compacted sym (List.range n ++ streamIds ++ fecIds) numEncSymbols) := by
    have := compact_eq hs hst₂ numEncSymbols (Nat.zero_add _)
    rw [← List.range_eq_range'] at this
    exact this
  unfold getEncodeBlock
  rw [h.marked, htake₁]
  dsimp only
  rw [htake₂]
  dsimp only
  rw [hcomp]

end

/-! ### Pushing a frame -/

section
variable {α : Type} (offset : α → ℕ) (data : α → Bytes)

/- The frame is not in its queue yet, and if it is the next one then the queue does not
begin where it ends. -/
def Apart (b : FecBuffer) (queue : List α) (frame : α) : Prop :=
  (∀ f ∈ queue, offset f ≠ offset frame) ∧
    (offset frame = b.nextFrameOffset →
      ∀ f ∈ queue.head?, offset f ≠ offset frame + (data frame).length)

instance (b : FecBuffer) (queue : List α) (frame : α) :
    Decidable (b.Apart offset data queue frame) :=
  inferInstanceAs (Decidable (_ ∧ _))

end

section
variable {α : Type} {offset : α → ℕ} {data : α → Bytes} {sym : ℕ → Bytes} {b : FecBuffer} {n : ℕ}

theorem place_eq (hs : ∀ i, (sym i).length = symbolSize) (hn : n ≤ numEncSymbols)
    (hnext : b.nextFrameOffset = b.startStreamOffset + symbolSize * n)
    (hst : Stores sym (List.range n) b.encBlock) (hm : b.bufferMap = marks (List.range n))
    {ids : List ℕ} {queue : List α} (hq : Queued offset data b.startStreamOffset sym ids queue)
    {i : ℕ} {frame : α} (hc : Carries offset data b.startStreamOffset sym i frame)
    (hap : b.Apart offset data queue frame) :
    (i < n ∧ b.place offset data queue frame = .ok none) ∨
    (i = n ∧ ∃ encBlock, Stores sym (List.range (n + 1)) encBlock ∧
      b.place offset data queue frame = .ok (some ⟨encBlock,
        b.startStreamOffset + symbolSize * (n + 1), queue, marks (List.range (n + 1))⟩)) ∨
    (n < i ∧ ∃ ids' queue', ids'.Perm (ids ++ [i]) ∧
      Queued offset data b.startStreamOffset sym ids' queue' ∧
      b.place offset data queue frame = .ok (some ⟨b.encBlock, b.nextFrameOffset, queue',
        b.bufferMap⟩)) := by
  obtain ⟨hpos, hend⟩ := hc.fits (hs i)
  have hoff := hc.2.1
  have hmap : setBufferMap b.startStreamOffset b.nextFrameOffset b.nextFrameOffset b.bufferMap =
      .ok b.bufferMap := by
    rw [hnext]
    exact setBufferMap_nothing _ hn (by rw [hm, marks_length])
  rcases Nat.lt_trichotomy i n with hlt | rfl | hgt
  · left
    have hcond : offset frame < b.nextFrameOffset ∧
        offset frame + (data frame).length ≤ b.nextFrameOffset := by
      rw [hend, hnext, hoff]
      simp only [symbolSize]
      omega
    refine ⟨hlt, ?_⟩
    rw [place]
    exact if_pos hcond
  · right; left
    have heq : offset frame = b.nextFrameOffset := by rw [hnext, hoff]
    have hcond : ¬(offset frame < b.nextFrameOffset ∧
        offset frame + (data frame).length ≤ b.nextFrameOffset) := by omega
    obtain ⟨encBlock, hcopy, hst'⟩ := hst.copyAt hc.1 (hs i)
    have hmark : setBufferMap b.startStreamOffset b.nextFrameOffset
        (b.startStreamOffset + symbolSize * (i + 1)) b.bufferMap =
          .ok (marks (List.range (i + 1))) := by
      rw [hnext, hm, setBufferMap_symbol _ hc.1 (marks_length _), marks_set _ hc.1, List.range_succ]
      rw [marks_getElem? _ hc.1, if_neg (by simp)]
    refine ⟨rfl, encBlock, by rw [List.range_succ]; exact hst', ?_⟩
    unfold place
    dsimp only
    rw [if_neg hcond, if_pos heq, hpos, hc.2.2, hcopy, ← hc.2.2, drain_of_head (hap.2 heq), hend]
    dsimp only
    rw [hmark]
  · right; right
    have hlt : b.nextFrameOffset < offset frame := by
      rw [hnext, hoff]
      simp only [symbolSize]
      omega
    have hcond : ¬(offset frame < b.nextFrameOffset ∧
        offset frame + (data frame).length ≤ b.nextFrameOffset) := by omega
    have hperm := List.perm_insertionSort (fun x y => offset x ≤ offset y) (queue ++ [frame])
    have hq₁ : Queued offset data b.startStreamOffset sym (ids ++ [i]) (queue ++ [frame]) :=
      List.rel_append hq (List.Forall₂.cons hc .nil)
    obtain ⟨ids', hids, hq'⟩ := hq₁.perm hperm
    refine ⟨hgt, ids', _, hids, hq', ?_⟩
    unfold place
    dsimp only
    rw [if_neg hcond, if_neg hlt.ne', if_pos hlt, hmap]

end

section
variable {sym : ℕ → Bytes} {n i : ℕ} {streamIds fecIds : List ℕ} {b : FecBuffer}

def Adds (i : ℕ) (before after : List ℕ) : Prop := ∀ j, j ∈ after ↔ j = i ∨ j ∈ before

theorem Adds.of_mem {i : ℕ} {l : List ℕ} (h : i ∈ l) : Adds i l l := by
  intro j
  constructor
  · exact Or.inr
  · rintro (rfl | hj)
    · exact h
    · exact hj

theorem Holds.pushStreamFrame (h : b.Holds sym n streamIds fecIds)
    (hs : ∀ i, (sym i).length = symbolSize) {frame : StreamFrame} (packetNumber : ℕ)
    (hc : Carries (·.offset) (·.data) b.startStreamOffset sym i frame) (hi : i < numSrcSymbols)
    (hap : b.Apart (·.offset) (·.data) b.oobStreamFrameQueue frame) :
    ∃ b' n' streamIds', b.pushStreamFrame frame packetNumber = .ok b' ∧
      b'.startStreamOffset = b.startStreamOffset ∧ b'.Holds sym n' streamIds' fecIds ∧
      Adds i (List.range n ++ streamIds ++ fecIds) (List.range n' ++ streamIds' ++ fecIds) := by
  have hnew : i ∉ streamIds := by
    intro hin
    obtain ⟨f, hf, hcf⟩ := h.stream.mem hin
    exact hap.1 f hf (hcf.2.1.trans hc.2.1.symm)
  rcases place_eq hs h.le h.next h.stores h.marked h.stream hc hap with
    ⟨hlt, heq⟩ | ⟨rfl, encBlock, hst, heq⟩ | ⟨hlt, ids', queue', hperm, hq, heq⟩
  · refine ⟨b, n, streamIds, by rw [FecBuffer.pushStreamFrame, heq], rfl, h, Adds.of_mem ?_⟩
    exact List.mem_append_left _ (List.mem_append_left _ (List.mem_range.mpr hlt))
  · refine ⟨b.putStream frame packetNumber _, i + 1, streamIds,
      by rw [FecBuffer.pushStreamFrame, heq], rfl, ?_, ?_⟩
    · refine ⟨hc.1, rfl, h.last, hst, rfl, h.stream, h.fec, ?_, ?_, h.streamIds_nodup,
        h.fecIds_nodup⟩
      · intro j hj
        have := h.streamIds_lt j hj
        have : j ≠ i := fun he => hnew (he ▸ hj)
        omega
      · intro j hj
        have := h.fecIds_ge j hj
        omega
    · intro j
      simp only [List.mem_append, List.mem_range, Nat.lt_succ_iff_lt_or_eq]
      tauto
  · refine ⟨b.putStream frame packetNumber _, n, ids', by rw [FecBuffer.pushStreamFrame, heq], rfl,
      ?_, ?_⟩
    · refine ⟨h.le, h.next, h.last, h.stores, h.marked, hq, h.fec, ?_, h.fecIds_ge, ?_,
        h.fecIds_nodup⟩
      · intro j hj
        rcases List.mem_append.mp (hperm.subset hj) with hj | hj
        · exact h.streamIds_lt j hj
        · rw [List.mem_singleton.mp hj]
          omega
      · rw [hperm.nodup_iff]
        exact List.Nodup.append h.streamIds_nodup (List.nodup_singleton i) (by simpa using hnew)
    · intro j
      simp only [List.mem_append, List.mem_range, hperm.mem_iff, List.mem_singleton]
      tauto

theorem Holds.pushFecFrame (h : b.Holds sym n streamIds fecIds)
    (hs : ∀ i, (sym i).length = symbolSize) {frame : FecFrame}
    (hc : Carries b.fecStart (·.fecData) b.startStreamOffset sym i frame) (hi : numSrcSymbols ≤ i)
    (hap : b.Apart b.fecStart (·.fecData) b.oobFecFrameQueue frame) :
    ∃ b' n' fecIds', b.pushFecFrame frame = .ok b' ∧
      b'.startStreamOffset = b.startStreamOffset ∧ b'.Holds sym n' streamIds fecIds' ∧
      Adds i (List.range n ++ streamIds ++ fecIds) (List.range n' ++ streamIds ++ fecIds') := by
  have hnew : i ∉ fecIds := by
    intro hin
    obtain ⟨f, hf, hcf⟩ := h.fec.mem hin
    exact hap.1 f hf (hcf.2.1.trans hc.2.1.symm)
  rcases place_eq hs h.le h.next h.stores h.marked h.fec hc hap with
    ⟨hlt, heq⟩ | ⟨rfl, encBlock, hst, heq⟩ | ⟨hlt, ids', queue', hperm, hq, heq⟩
  · refine ⟨b, n, fecIds, by rw [FecBuffer.pushFecFrame, heq], rfl, h, Adds.of_mem ?_⟩
    exact List.mem_append_left _ (List.mem_append_left _ (List.mem_range.mpr hlt))
  · refine ⟨b.putFec frame _, i + 1, fecIds, by rw [FecBuffer.pushFecFrame, heq], rfl, ?_, ?_⟩
    · refine ⟨hc.1, rfl, h.last, hst, rfl, h.stream, h.fec, ?_, ?_, h.streamIds_nodup,
        h.fecIds_nodup⟩
      · intro j hj
        have := h.streamIds_lt j hj
        omega
      · intro j hj
        have := h.fecIds_ge j hj
        have : j ≠ i := fun he => hnew (he ▸ hj)
        omega
    · intro j
      simp only [List.mem_append, List.mem_range, Nat.lt_succ_iff_lt_or_eq]
      tauto
  · refine ⟨b.putFec frame _, n, ids', by rw [FecBuffer.pushFecFrame, heq], rfl, ?_, ?_⟩
    · refine ⟨h.le, h.next, h.last, h.stores, h.marked, h.stream, hq, h.streamIds_lt, ?_,
        h.streamIds_nodup, ?_⟩
      · intro j hj
        rcases List.mem_append.mp (hperm.subset hj) with hj | hj
        · exact h.fecIds_ge j hj
        · rw [List.mem_singleton.mp hj]
          omega
      · rw [hperm.nodup_iff]
        exact List.Nodup.append h.fecIds_nodup (List.nodup_singleton i) (by simpa using hnew)
    · intro j
      simp only [List.mem_append, List.mem_range, hperm.mem_iff, List.mem_singleton]
      tauto

end

end FecBuffer

/-! ### The frames of one block in any order -/

inductive Push where
  | stream (frame : StreamFrame) (packetNumber : ℕ)
  | fec (frame : FecFrame)
  deriving Repr, DecidableEq

def Push.Carries (start : ℕ) (sym : ℕ → Bytes) (i : ℕ) : Push → Prop
  | .stream frame _ =>
    i < numSrcSymbols ∧ frame.offset = start + symbolSize * i ∧ frame.data = sym i
  | .fec frame => numSrcSymbols ≤ i ∧ i < numEncSymbols ∧
    frame.fecDataOffset = symbolSize * (i - numSrcSymbols) ∧ frame.fecData = sym i

namespace FecBuffer

def push (b : FecBuffer) : Push → Except Stop FecBuffer
  | .stream frame packetNumber => b.pushStreamFrame frame packetNumber
  | .fec frame => b.pushFecFrame frame

def LeavesGap (b : FecBuffer) : Push → Prop
  | .stream frame _ => frame.offset = b.nextFrameOffset →
      ∀ f ∈ b.oobStreamFrameQueue.head?, f.offset ≠ frame.offset + frame.data.length
  | .fec frame => b.fecStart frame = b.nextFrameOffset →
      ∀ f ∈ b.oobFecFrameQueue.head?, b.fecStart f ≠ b.fecStart frame + frame.fecData.length

instance (b : FecBuffer) : ∀ p, Decidable (b.LeavesGap p)
  | .stream frame _ => inferInstanceAs (Decidable (frame.offset = b.nextFrameOffset →
      ∀ f ∈ b.oobStreamFrameQueue.head?, f.offset ≠ frame.offset + frame.data.length))
  | .fec frame => inferInstanceAs (Decidable (b.fecStart frame = b.nextFrameOffset →
      ∀ f ∈ b.oobFecFrameQueue.head?, b.fecStart f ≠ b.fecStart frame + frame.fecData.length))

section
variable {sym : ℕ → Bytes} {n i : ℕ} {streamIds fecIds : List ℕ} {b : FecBuffer}

theorem Holds.carries_fec (h : b.Holds sym n streamIds fecIds) {frame : FecFrame}
    (hc : Push.Carries b.startStreamOffset sym i (.fec frame)) :
    Fec.Carries b.fecStart (·.fecData) b.startStreamOffset sym i frame := by
  obtain ⟨hge, hlt, hoff, hdata⟩ := hc
  refine ⟨hlt, ?_, hdata⟩
  rw [fecStart, h.last, hoff]
  simp only [srcBlockSize, symbolSize, numSrcSymbols] at *
  omega

theorem Holds.carries_stream {frame : StreamFrame} {packetNumber : ℕ}
    (hc : Push.Carries b.startStreamOffset sym i (.stream frame packetNumber)) :
    Fec.Carries (·.offset) (·.data) b.startStreamOffset sym i frame := by
  refine ⟨?_, hc.2⟩
  have := hc.1
  simp only [numSrcSymbols, numEncSymbols] at *
  omega

def Fits (b : FecBuffer) : Push → Prop
  | .stream frame _ => b.Apart (·.offset) (·.data) b.oobStreamFrameQueue frame
  | .fec frame => b.Apart b.fecStart (·.fecData) b.oobFecFrameQueue frame

instance (b : FecBuffer) : ∀ p, Decidable (b.Fits p)
  | .stream frame _ =>
    inferInstanceAs (Decidable (b.Apart (·.offset) (·.data) b.oobStreamFrameQueue frame))
  | .fec frame =>
    inferInstanceAs (Decidable (b.Apart b.fecStart (·.fecData) b.oobFecFrameQueue frame))

theorem Holds.fits_of_new (h : b.Holds sym n streamIds fecIds) {p : Push}
    (hc : p.Carries b.startStreamOffset sym i) (hg : b.LeavesGap p)
    (hnew : i ∉ List.range n ++ streamIds ++ fecIds) : b.Fits p := by
  cases p with
  | stream frame packetNumber =>
    refine ⟨?_, hg⟩
    intro f hf he
    obtain ⟨j, hj, hcj⟩ := h.stream.mem_queue hf
    obtain rfl : j = i := hcj.inj (Holds.carries_stream hc) he
    exact hnew (List.mem_append_left _ (List.mem_append_right _ hj))
  | fec frame =>
    refine ⟨?_, hg⟩
    intro f hf he
    obtain ⟨j, hj, hcj⟩ := h.fec.mem_queue hf
    obtain rfl : j = i := hcj.inj (h.carries_fec hc) he
    exact hnew (List.mem_append_right _ hj)


theorem Holds.push (h : b.Holds sym n streamIds fecIds) (hs : ∀ i, (sym i).length = symbolSize)
    {p : Push} (hc : p.Carries b.startStreamOffset sym i) (hfit : b.Fits p) :
    ∃ b' n' streamIds' fecIds', b.push p = .ok b' ∧
      b'.startStreamOffset = b.startStreamOffset ∧ b'.Holds sym n' streamIds' fecIds' ∧
      Adds i (List.range n ++ streamIds ++ fecIds) (List.range n' ++ streamIds' ++ fecIds') := by
  cases p with
  | stream frame packetNumber =>
    obtain ⟨b', n', ids', hpush, hstart, hh, hadd⟩ :=
      h.pushStreamFrame hs packetNumber (Holds.carries_stream hc) hc.1 hfit
    exact ⟨b', n', ids', fecIds, hpush, hstart, hh, hadd⟩
  | fec frame =>
    obtain ⟨b', n', ids', hpush, hstart, hh, hadd⟩ := h.pushFecFrame hs (h.carries_fec hc) hc.1 hfit
    exact ⟨b', n', streamIds, ids', hpush, hstart, hh, hadd⟩

theorem Holds.exec_push (hs : ∀ i, (sym i).length = symbolSize) {order : List ℕ}
    {pushes : List Push} {start : ℕ} (hp : List.Forall₂ (Push.Carries start sym) order pushes)
    (hnd : order.Nodup) {n : ℕ} {streamIds fecIds : List ℕ} {b : FecBuffer}
    (h : b.Holds sym n streamIds fecIds) (hstart : b.startStreamOffset = start)
    (hnew : ∀ i ∈ order, i ∉ List.range n ++ streamIds ++ fecIds)
    (hg : Guarded FecBuffer.push LeavesGap b pushes) :
    ∃ b' n' streamIds' fecIds', exec FecBuffer.push b pushes = .ok b' ∧
      b'.Holds sym n' streamIds' fecIds' ∧
      ∀ j, j ∈ List.range n' ++ streamIds' ++ fecIds' ↔
        j ∈ order ∨ j ∈ List.range n ++ streamIds ++ fecIds := by
  induction hp generalizing n streamIds fecIds b with
  | nil => exact ⟨b, n, streamIds, fecIds, rfl, h, by simp⟩
  | @cons i p order pushes hc hp ih =>
    subst hstart
    obtain ⟨hgap, hrest⟩ := hg
    have hfit := h.fits_of_new hc hgap (hnew i (List.mem_cons_self ..))
    obtain ⟨b₁, n₁, ids₁, fids₁, hpush, hstart₁, hh₁, hadd⟩ := h.push hs hc hfit
    rw [hpush] at hrest
    have hnd' := List.nodup_cons.mp hnd
    obtain ⟨b', n', ids', fids', hexec, hh, hmem⟩ := ih hnd'.2 hh₁ hstart₁ (by
      intro j hj hin
      rcases (hadd j).mp hin with rfl | hin
      · exact hnd'.1 hj
      · exact hnew j (List.mem_cons_of_mem _ hj) hin) hrest
    refine ⟨b', n', ids', fids', ?_, hh, ?_⟩
    · rw [exec, hpush]
      exact hexec
    · intro j
      rw [hmem, hadd, List.mem_cons]
      tauto

end

/-- The symbols of a block, each at most once and in any order: as long as no frame closes the gap to
the head of its queue, `GetEncodeBlock` returns them in increasing order, with their data. -/
theorem symbols_in_any_order (streamID start : ℕ) (sym : ℕ → Bytes)
    (hs : ∀ i, (sym i).length = symbolSize) (order : List ℕ) (hnd : order.Nodup)
    (pushes : List Push) (hp : List.Forall₂ (Push.Carries start sym) order pushes)
    (hg : Guarded push LeavesGap (init streamID start) pushes) :
    ∃ b b' out received, exec push (init streamID start) pushes = .ok b ∧
      b.getEncodeBlock = .ok (b', out) ∧
      (received.Pairwise (· < ·) ∧ received.Perm order) ∧
      out.symbolMap.take received.length = received ∧
      out.lost = numEncSymbols - received.length ∧
      (∀ k i, received[k]? = some i →
        window out.encBlock (symbolSize * k) symbolSize = sym i) ∧
      (∀ i < numEncSymbols, b'.bufferMap[i]? = some (if i ∈ order then symbolSize else 0)) ∧
      ∀ i ∈ order, window b'.encBlock (symbolSize * i) symbolSize = sym i := by
  obtain ⟨b, n, ids, fids, hexec, hh, hmem⟩ := Holds.exec_push hs hp hnd
    (init_holds sym streamID start) rfl (by simp) hg
  have hmem' : ∀ j, j ∈ List.range n ++ ids ++ fids ↔ j ∈ order := by
    intro j
    rw [hmem]
    simp
  obtain ⟨encBlock, hst, hget⟩ := hh.getEncodeBlock_eq hs
  have hlt : ∀ i ∈ order, i < numEncSymbols := by
    intro i hi
    rcases List.mem_append.mp ((hmem' i).mpr hi) with hi | hi
    · rcases List.mem_append.mp hi with hi | hi
      · exact lt_of_lt_of_le (List.mem_range.mp hi) hh.le
      · obtain ⟨_, _, hc⟩ := hh.stream.mem hi
        exact hc.1
    · obtain ⟨_, _, hc⟩ := hh.fec.mem hi
      exact hc.1
  refine ⟨b, _, _, present (List.range n ++ ids ++ fids) numEncSymbols, hexec, hget,
    ⟨present_increasing _ _, ?_⟩, ?_, rfl, ?_, ?_, ?_⟩
  · refine (List.perm_ext_iff_of_nodup (present_nodup _ _) hnd).mpr ?_
    intro i
    rw [mem_present, hmem']
    exact ⟨fun h => h.2, fun h => ⟨hlt i h, h⟩⟩
  · exact List.take_left
  · intro k i hk
    exact window_flatMap hs _ hk
  · intro i hi
    rw [marks_getElem? _ hi]
    simp only [hmem' i]
  · intro i hi
    exact hst.symbols i ((hmem' i).mpr hi)

def plain (i : ℕ) : Bytes := List.replicate symbolSize (UInt8.ofNat i)

def plainPush (i : ℕ) : Push :=
  if i < numSrcSymbols then .stream ⟨4, symbolSize * i, plain i, false⟩ i
  else .fec ⟨4, 0, symbolSize, numSrcSymbols, symbolSize * (i - numSrcSymbols), symbolSize,
    4 * symbolSize, plain i, false⟩

theorem symbols_in_any_order_gap : ∃ b b' out,
    exec push (init 4 0) [plainPush 2, plainPush 0] = .ok b ∧
      b.getEncodeBlock = .ok (b', out) ∧ out.lost = 18 ∧
      window b'.encBlock (symbolSize * 2) symbolSize = plain 2 := by
  have hp : List.Forall₂ (Push.Carries 0 plain) [2, 0] [plainPush 2, plainPush 0] :=
    .cons ⟨by decide, rfl, rfl⟩ (.cons ⟨by decide, rfl, rfl⟩ .nil)
  obtain ⟨b, b', out, received, hexec, hget, ⟨_, hperm⟩, _, hlost, _, _, hwin⟩ :=
    symbols_in_any_order 4 0 plain (fun i => List.length_replicate) [2, 0] (by decide) _ hp
      (by decide +kernel)
  rw [hperm.length_eq] at hlost
  exact ⟨b, b', out, hexec, hget, hlost, hwin 2 (by decide)⟩

/- Symbol 0 closes the gap to symbol 1: the queue is passed over to its end and kept, and
`GetEncodeBlock` counts symbol 1 once more, as symbol 2. -/
theorem symbol_never_received : ∃ b b' out,
    exec push (init 4 0) [plainPush 1, plainPush 0] = .ok b ∧
      b.getEncodeBlock = .ok (b', out) ∧ out.symbolMap.take 3 = [0, 1, 2] ∧ out.lost = 17 := by
  have hrun : (match exec push (init 4 0) [plainPush 1, plainPush 0] with
    | .error _ => false
    | .ok b => match b.getEncodeBlock with
      | .error _ => false
      | .ok (_, out) => decide (out.symbolMap.take 3 = [0, 1, 2] ∧ out.lost = 17)) = true := by
    decide +kernel
  cases hb : exec push (init 4 0) [plainPush 1, plainPush 0] with
  | error e =>
    rw [hb] at hrun
    cases hrun
  | ok b =>
    rw [hb] at hrun
    dsimp only at hrun
    cases hget : b.getEncodeBlock with
    | error e =>
      rw [hget] at hrun
      cases hrun
    | ok result =>
      rw [hget] at hrun
      exact ⟨b, result.1, result.2, rfl, hget, of_decide_eq_true hrun⟩

end FecBuffer

end Mp2bs.Fec
