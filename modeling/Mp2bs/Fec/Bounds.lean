import Mp2bs.Fec.Receiver

/-!
# Bounds of the FEC buffer

Which frames keep the functions of `enhanced-quic/fec/fec_buffer.go:81-300` inside `encBlock` and
`bufferMap`. The offset of a FEC frame comes from the peer, and no function checks it.
-/

namespace Mp2bs.Fec
open Mp2bs.Lib.Machine Mp2bs.Lib.Slice

abbrev capacity : ℕ := symbolSize * numEncSymbols

/-! ### The buffer map -/

structure MapOk (bufferMap : List ℕ) : Prop where
  length : bufferMap.length = numEncSymbols
  le : ∀ received ∈ bufferMap, received ≤ symbolSize

variable {bufferMap : List ℕ} {i start offset id : ℕ} {block data : Bytes} {f f' : FecHandler}
  {b : FecBuffer} {frames : List (StreamFrame × ℕ)}

theorem MapOk.set (h : MapOk bufferMap) (i : ℕ) {received : ℕ} (hle : received ≤ symbolSize) :
    MapOk (bufferMap.set i received) := by
  refine ⟨List.length_set.trans h.length, fun m hm => ?_⟩
  rcases List.mem_or_eq_of_mem_set hm with hm | rfl
  · exact h.le m hm
  · exact hle

theorem fillMap_ok {turns : ℕ} (remainingLength : ℕ) (h : MapOk bufferMap)
    (hturns : i + turns ≤ numEncSymbols) :
    ∃ bufferMap', fillMap turns i remainingLength bufferMap = .ok bufferMap' ∧
      MapOk bufferMap' := by
  induction turns generalizing i remainingLength bufferMap with
  | zero => exact ⟨bufferMap, rfl, h⟩
  | succ turns ih =>
    have hlt : i < bufferMap.length := by
      rw [h.length]
      omega
    have hle := h.le _ (List.getElem_mem hlt)
    rw [fillMap, List.getElem?_eq_getElem hlt]
    dsimp only
    split
    · exact ih _ (h.set i (by omega)) (by omega)
    · exact ⟨_, rfl, h.set i (by omega)⟩

theorem setBufferMap_ok {startOffset endOffset : ℕ} (hstart : start ≤ startOffset)
    (hle : startOffset ≤ endOffset) (hend : endOffset ≤ start + capacity) (h : MapOk bufferMap) :
    ∃ bufferMap', setBufferMap start startOffset endOffset bufferMap = .ok bufferMap' ∧
      MapOk bufferMap' := by
  have hfirst : u32 (startOffset - start) = startOffset - start := by
    refine u32_of_lt ?_
    simp only [capacity, symbolSize, numEncSymbols] at *
    omega
  have hlast : u32 (endOffset - start) = endOffset - start := by
    refine u32_of_lt ?_
    simp only [capacity, symbolSize, numEncSymbols] at *
    omega
  unfold setBufferMap
  dsimp only
  rw [hfirst, hlast, h.length]
  refine fillMap_ok _ h ?_
  split
  · simp only [capacity, symbolSize, numEncSymbols] at *
    omega
  · simp only [capacity, symbolSize, numEncSymbols] at *
    omega

/-! ### The frames in a buffer -/

def InBlock (start offset length : ℕ) : Prop := start ≤ offset ∧ offset + length ≤ start + capacity

/-- `encBlock` and `bufferMap` have their sizes, and so has what waits in the queues. -/
structure FecBuffer.Within (b : FecBuffer) : Prop where
  encBlock : b.encBlock.length = capacity
  bufferMap : MapOk b.bufferMap
  last : b.endStreamOffset + 1 = b.startStreamOffset + srcBlockSize
  next : InBlock b.startStreamOffset b.nextFrameOffset 0
  stream : ∀ frame ∈ b.oobStreamFrameQueue, InBlock b.startStreamOffset frame.offset frame.data.length
  fec : ∀ frame ∈ b.oobFecFrameQueue,
    InBlock b.startStreamOffset (b.fecStart frame) frame.fecData.length

theorem copyAt_ok (hblock : block.length = capacity) (h : InBlock start offset data.length) :
    ∃ block', copyAt block (offset - start) data = .ok block' ∧ block'.length = capacity := by
  obtain ⟨hstart, hend⟩ := h
  have hfits : offset - start + data.length ≤ block.length := by omega
  exact ⟨_, if_pos hfits, (writeAt_length _ _ _ hfits).trans hblock⟩

theorem copyAt_panic (hblock : block.length = capacity) (h : start + capacity < offset + data.length) :
    copyAt block (offset - start) data = .error .panic := by
  exact if_neg (by omega)

section

variable {α : Type} (offset : α → ℕ) (data : α → Bytes)

theorem drain_spec {start : ℕ} {queue : List α}
    (hqueue : ∀ frame ∈ queue, InBlock start (offset frame) (data frame).length) {l : List α}
    (hl : ∀ frame ∈ l, frame ∈ queue) (next : ℕ) (hnext : InBlock start next 0) :
    next ≤ (drain offset data queue l next).1 ∧
      InBlock start (drain offset data queue l next).1 0 ∧
      ∀ frame ∈ (drain offset data queue l next).2, frame ∈ queue := by
  induction l generalizing next with
  | nil => exact ⟨Nat.le_refl _, hnext, fun _ h => h⟩
  | cons frame rest ih =>
    unfold drain
    by_cases hhead : offset frame = next
    · rw [if_pos hhead]
      have hin := hqueue frame (hl frame (List.mem_cons_self ..))
      obtain ⟨hle, hblock, hmem⟩ := ih (fun f hf => hl f (List.mem_cons_of_mem _ hf))
        (offset frame + (data frame).length) ⟨hin.1.trans (Nat.le_add_right _ _), hin.2⟩
      exact ⟨le_trans (by omega) hle, hblock, hmem⟩
    · rw [if_neg hhead]
      exact ⟨Nat.le_refl _, hnext, hl⟩

structure PlacedOk (b : FecBuffer) (placed : Placed α) : Prop where
  encBlock : placed.encBlock.length = capacity
  bufferMap : MapOk placed.bufferMap
  next_le : b.nextFrameOffset ≤ placed.nextFrameOffset
  next : InBlock b.startStreamOffset placed.nextFrameOffset 0

variable {b : FecBuffer} (queue : List α) {frame : α}

theorem place_ok (hb : b.Within)
    (hqueue : ∀ f ∈ queue, InBlock b.startStreamOffset (offset f) (data f).length)
    (hframe : InBlock b.startStreamOffset (offset frame) (data frame).length ∨
      offset frame < b.nextFrameOffset) :
    b.place offset data queue frame = .ok none ∨ ∃ placed,
      b.place offset data queue frame = .ok (some placed) ∧ PlacedOk b placed ∧
        ∀ f ∈ placed.queue, InBlock b.startStreamOffset (offset f) (data f).length := by
  obtain ⟨hstart, hend⟩ := hb.next
  obtain ⟨same, hsame, hmap⟩ := setBufferMap_ok hstart (Nat.le_refl _) hend hb.bufferMap
  unfold FecBuffer.place
  dsimp only
  by_cases hdup : offset frame < b.nextFrameOffset ∧
      offset frame + (data frame).length ≤ b.nextFrameOffset
  · exact .inl (if_pos hdup)
  · rw [if_neg hdup]
    by_cases hhead : offset frame = b.nextFrameOffset
    · rw [if_pos hhead]
      have hin : InBlock b.startStreamOffset (offset frame) (data frame).length := by
        rcases hframe with h | h
        · exact h
        · omega
      obtain ⟨block, hcopy, hlen⟩ := copyAt_ok hb.encBlock hin
      obtain ⟨hle, hblock, hmem⟩ := drain_spec offset data hqueue (fun _ h => h)
        (offset frame + (data frame).length) ⟨hin.1.trans (Nat.le_add_right _ _), hin.2⟩
      have hnext : b.nextFrameOffset ≤
          (drain offset data queue queue (offset frame + (data frame).length)).1 := by
        omega
      obtain ⟨bufferMap, hset, hmap'⟩ := setBufferMap_ok hstart hnext hblock.2 hb.bufferMap
      rw [hcopy]
      dsimp only
      rw [hset]
      exact .inr ⟨_, rfl, ⟨hlen, hmap', hnext, hblock⟩, fun f hf => hqueue f (hmem f hf)⟩
    · rw [if_neg hhead]
      by_cases hgap : b.nextFrameOffset < offset frame
      · rw [if_pos hgap, hsame]
        refine .inr ⟨_, rfl, ⟨hb.encBlock, hmap, Nat.le_refl _, hb.next⟩, fun f hf => ?_⟩
        rcases List.mem_append.mp ((List.perm_insertionSort _ _).mem_iff.mp hf) with hf | hf
        · exact hqueue f hf
        · rw [List.mem_singleton.mp hf]
          rcases hframe with h | h
          · exact h
          · omega
      · rw [if_neg hgap, hsame]
        exact .inr ⟨_, rfl, ⟨hb.encBlock, hmap, Nat.le_refl _, hb.next⟩, hqueue⟩

theorem place_outside (hb : b.Within)
    (hframe : b.startStreamOffset + capacity < offset frame + (data frame).length)
    (hnext : b.nextFrameOffset ≤ offset frame) :
    b.place offset data queue frame = .error .panic ∨ ∃ placed,
      b.place offset data queue frame = .ok (some placed) ∧ PlacedOk b placed ∧
        frame ∈ placed.queue := by
  obtain ⟨hstart, hend⟩ := hb.next
  obtain ⟨same, hsame, hmap⟩ := setBufferMap_ok hstart (Nat.le_refl _) hend hb.bufferMap
  unfold FecBuffer.place
  dsimp only
  rw [if_neg (by omega)]
  by_cases hhead : offset frame = b.nextFrameOffset
  · rw [if_pos hhead, copyAt_panic hb.encBlock hframe]
    exact .inl rfl
  · rw [if_neg hhead, if_pos (by omega), hsame]
    refine .inr ⟨_, rfl, ⟨hb.encBlock, hmap, Nat.le_refl _, hb.next⟩,
      (List.perm_insertionSort _ _).mem_iff.mpr ?_⟩
    exact List.mem_append_right _ (List.mem_singleton_self _)

theorem takeIn_ok_iff {start : ℕ} {queue : List α} (hstart : ∀ f ∈ queue, start ≤ offset f)
    {block : Bytes} {bufferMap : List ℕ} (hblock : block.length = capacity)
    (hmap : MapOk bufferMap) :
    ((∀ f ∈ queue, InBlock start (offset f) (data f).length) ∧
      ∃ block' bufferMap', takeIn offset data start queue (block, bufferMap) =
        .ok (block', bufferMap') ∧ block'.length = capacity ∧ MapOk bufferMap') ∨
    ((∃ f ∈ queue, start + capacity < offset f + (data f).length) ∧
      takeIn offset data start queue (block, bufferMap) = .error .panic) := by
  induction queue generalizing block bufferMap with
  | nil =>
    exact .inl ⟨fun _ h => absurd h List.not_mem_nil, block, bufferMap, rfl, hblock, hmap⟩
  | cons f rest ih =>
    have hf := hstart f (List.mem_cons_self ..)
    rcases Nat.lt_or_ge (start + capacity) (offset f + (data f).length) with hout | hin
    · refine .inr ⟨⟨f, List.mem_cons_self .., hout⟩, ?_⟩
      rw [takeIn, copyAt_panic hblock hout]
    · obtain ⟨block₁, hcopy, hblock₁⟩ := copyAt_ok hblock ⟨hf, hin⟩
      obtain ⟨bufferMap₁, hset, hmap₁⟩ := setBufferMap_ok hf (Nat.le_add_right _ _) hin hmap
      rw [takeIn, hcopy]
      dsimp only
      rw [hset]
      rcases ih (fun g hg => hstart g (List.mem_cons_of_mem _ hg)) hblock₁ hmap₁ with
        ⟨hall, hok⟩ | ⟨⟨g, hg, hout⟩, herr⟩
      · refine .inl ⟨fun g hg => ?_, hok⟩
        rcases List.mem_cons.mp hg with rfl | hg
        · exact ⟨hf, hin⟩
        · exact hall g hg
      · exact .inr ⟨⟨g, List.mem_cons_of_mem _ hg, hout⟩, herr⟩

end

theorem compact_ok {map : List ℕ} {idx : ℕ} (hidx : idx ≤ i) (hmap : i + map.length ≤ numEncSymbols)
    {out : EncodeBlock} (hout : out.encBlock.length = capacity) :
    ∃ out', compact block map i idx out = .ok out' := by
  induction map generalizing i idx out with
  | nil => exact ⟨out, rfl⟩
  | cons received rest ih =>
    rw [List.length_cons] at hmap
    unfold compact
    split
    · have hfits : idx * symbolSize + (window block (i * symbolSize) symbolSize).length ≤
          out.encBlock.length := by
        have hwin : (window block (i * symbolSize) symbolSize).length ≤ symbolSize := by
          rw [window_length]
          exact Nat.min_le_left _ _
        rw [hout]
        simp only [capacity, symbolSize, numEncSymbols] at *
        omega
      rw [copyAt, if_pos hfits]
      exact ih (Nat.succ_le_succ hidx) (by omega) ((writeAt_length _ _ _ hfits).trans hout)
    · exact ih (Nat.le_succ_of_le hidx) (by omega) hout

namespace FecBuffer

variable {b : FecBuffer}

/-! ### One buffer -/

theorem start_le_fecStart (hlast : b.endStreamOffset + 1 = b.startStreamOffset + srcBlockSize)
    (frame : FecFrame) : b.startStreamOffset ≤ b.fecStart frame := by
  unfold fecStart
  omega

theorem getEncodeBlock_cases (henc : b.encBlock.length = capacity) (hmap : MapOk b.bufferMap)
    (hlast : b.endStreamOffset + 1 = b.startStreamOffset + srcBlockSize)
    (hstream : ∀ frame ∈ b.oobStreamFrameQueue,
      InBlock b.startStreamOffset frame.offset frame.data.length) :
    ((∀ frame ∈ b.oobFecFrameQueue,
        InBlock b.startStreamOffset (b.fecStart frame) frame.fecData.length) ∧
      ∃ block map out, b.getEncodeBlock = .ok ({ b with encBlock := block, bufferMap := map }, out) ∧
        block.length = capacity ∧ MapOk map) ∨
    ((∃ frame ∈ b.oobFecFrameQueue,
        b.startStreamOffset + capacity < b.fecStart frame + frame.fecData.length) ∧
      b.getEncodeBlock = .error .panic) := by
  unfold getEncodeBlock
  rcases takeIn_ok_iff (·.offset) (·.data) (fun f hf => (hstream f hf).1) henc hmap with
    ⟨_, block₁, map₁, hrun₁, hblock₁, hmap₁⟩ | ⟨⟨f, hf, hout⟩, _⟩
  · rw [hrun₁]
    dsimp only
    rcases takeIn_ok_iff b.fecStart (·.fecData) (fun f _ => start_le_fecStart hlast f) hblock₁ hmap₁
      with ⟨hall, block₂, map₂, hrun₂, hblock₂, hmap₂⟩ | ⟨hout, hrun₂⟩
    · rw [hrun₂]
      dsimp only
      obtain ⟨out, hcompact⟩ : ∃ out, compact block₂ map₂ 0 0
          ⟨List.replicate (symbolSize * numEncSymbols) 0, List.replicate numEncSymbols 0, 0⟩ =
          .ok out :=
        compact_ok (Nat.le_refl 0) (by rw [hmap₂.length]; omega) List.length_replicate
      rw [hcompact]
      exact .inl ⟨hall, block₂, map₂, out, rfl, hblock₂, hmap₂⟩
    · rw [hrun₂]
      exact .inr ⟨hout, rfl⟩
  · have hin := (hstream f hf).2
    omega

/-- `GetEncodeBlock` returns, its slices are in `encBlock`, and no offset that it subtracts is
larger than the one it subtracts from. -/
structure ReadSafe (b : FecBuffer) : Prop where
  returns : ∃ r, b.getEncodeBlock = .ok r
  symbols : b.bufferMap.length * symbolSize ≤ b.encBlock.length
  received : ∀ received ∈ b.bufferMap, received ≤ symbolSize
  stream : ∀ frame ∈ b.oobStreamFrameQueue, b.startStreamOffset ≤ frame.offset
  fec : ∀ frame ∈ b.oobFecFrameQueue, b.startStreamOffset ≤ b.fecStart frame

theorem Within.readSafe (h : b.Within) : b.ReadSafe := by
  have hget := getEncodeBlock_cases h.encBlock h.bufferMap h.last h.stream
  rcases hget with ⟨_, block, map, out, hget, _⟩ | ⟨⟨frame, hframe, hout⟩, _⟩
  · refine ⟨⟨_, hget⟩, ?_, h.bufferMap.le, fun f hf => (h.stream f hf).1,
      fun f hf => (h.fec f hf).1⟩
    rw [h.bufferMap.length, h.encBlock, Nat.mul_comm]
  · have hin := (h.fec frame hframe).2
    omega

theorem Within.getEncodeBlock {b' : FecBuffer} {out : EncodeBlock} (h : b.Within)
    (hget : b.getEncodeBlock = .ok (b', out)) : b'.Within := by
  rcases getEncodeBlock_cases h.encBlock h.bufferMap h.last h.stream with
    ⟨_, block, map, out', hget', hblock, hmap⟩ | ⟨_, herr⟩
  · rw [hget'] at hget
    cases hget
    exact ⟨hblock, hmap, h.last, h.next, h.stream, h.fec⟩
  · rw [herr] at hget
    cases hget

theorem init_within (streamID startOffset : ℕ) : (init streamID startOffset).Within := by
  refine ⟨List.length_replicate, ⟨List.length_replicate, fun m hm => ?_⟩, ?_,
    ⟨Nat.le_refl _, Nat.le_add_right _ _⟩, fun _ h => absurd h List.not_mem_nil,
    fun _ h => absurd h List.not_mem_nil⟩
  · rw [List.eq_of_mem_replicate hm]
    exact Nat.zero_le _
  · show startOffset + srcBlockSize - 1 + 1 = startOffset + srcBlockSize
    simp only [srcBlockSize, symbolSize, numSrcSymbols]
    omega

end FecBuffer

def Push.position (b : FecBuffer) : Push → ℕ
  | .stream frame _ => frame.offset
  | .fec frame => b.fecStart frame

def Push.length : Push → ℕ
  | .stream frame _ => frame.data.length
  | .fec frame => frame.fecData.length

namespace FecBuffer

variable {b : FecBuffer}

/-- A frame of the stream always has room. A FEC frame has it when it ends in the buffer, or begins
before `nextFrameOffset` and is dropped. -/
def HasRoom (b : FecBuffer) : Push → Prop
  | .stream _ _ => True
  | .fec frame => b.fecStart frame + frame.fecData.length ≤ b.startStreamOffset + capacity ∨
      b.fecStart frame < b.nextFrameOffset

/-- The push returns a buffer that can be read, and none of its subtractions wraps. -/
structure PushSafe (b : FecBuffer) (p : Push) : Prop where
  returns : ∃ b', b.push p = .ok b' ∧ b.nextFrameOffset ≤ b'.nextFrameOffset ∧
    b'.nextFrameOffset - b.startStreamOffset < 2 ^ 32 ∧ b'.ReadSafe
  position : b.startStreamOffset ≤ p.position b
  next : b.startStreamOffset ≤ b.nextFrameOffset
  received : ∀ received ∈ b.bufferMap, received ≤ symbolSize

variable {p : Push}

theorem Within.push (h : b.Within)
    (hin : InBlock b.startStreamOffset (p.position b) p.length ∨ p.position b < b.nextFrameOffset) :
    ∃ b', b.push p = .ok b' ∧ b'.Within ∧ b'.startStreamOffset = b.startStreamOffset ∧
      b.nextFrameOffset ≤ b'.nextFrameOffset := by
  cases p with
  | stream frame packetNumber =>
    unfold FecBuffer.push pushStreamFrame
    rcases place_ok StreamFrame.offset StreamFrame.data _ h h.stream hin with hnone | ⟨placed, hsome, hp, hq⟩
    · dsimp only
      rw [hnone]
      exact ⟨b, rfl, h, rfl, Nat.le_refl _⟩
    · dsimp only
      rw [hsome]
      exact ⟨_, rfl, ⟨hp.encBlock, hp.bufferMap, h.last, hp.next, hq, h.fec⟩, rfl, hp.next_le⟩
  | fec frame =>
    unfold FecBuffer.push pushFecFrame
    rcases place_ok b.fecStart FecFrame.fecData _ h h.fec hin with hnone | ⟨placed, hsome, hp, hq⟩
    · dsimp only
      rw [hnone]
      exact ⟨b, rfl, h, rfl, Nat.le_refl _⟩
    · dsimp only
      rw [hsome]
      exact ⟨_, rfl, ⟨hp.encBlock, hp.bufferMap, h.last, hp.next, h.stream, hq⟩, rfl, hp.next_le⟩

theorem Within.push_outside (h : b.Within) (hroom : ¬ b.HasRoom p) {b' : FecBuffer}
    (hpush : b.push p = .ok b') : b'.getEncodeBlock = .error .panic := by
  cases p with
  | stream frame packetNumber => exact absurd trivial hroom
  | fec frame =>
    obtain ⟨hout, hnext⟩ := not_or.mp hroom
    unfold FecBuffer.push pushFecFrame at hpush
    dsimp only at hpush
    rcases place_outside b.fecStart FecFrame.fecData b.oobFecFrameQueue h
      (Nat.lt_of_not_le hout) (Nat.le_of_not_lt hnext) with herr | ⟨placed, hsome, hp, hmem⟩
    · rw [herr] at hpush
      cases hpush
    · rw [hsome] at hpush
      cases hpush
      rcases getEncodeBlock_cases (b := b.putFec frame placed) hp.encBlock hp.bufferMap h.last
        h.stream with ⟨hall, _⟩ | ⟨_, herr⟩
      · exact absurd (hall frame hmem).2 hout
      · exact herr

theorem HasRoom.position (hroom : b.HasRoom p) (hpos : b.startStreamOffset ≤ p.position b)
    (hstream : ∀ frame packetNumber, p = .stream frame packetNumber → frame.offset + frame.data.length ≤ b.startStreamOffset + capacity)
    : InBlock b.startStreamOffset (p.position b) p.length ∨ p.position b < b.nextFrameOffset := by
  cases p with
  | stream frame packetNumber => exact .inl ⟨hpos, hstream frame packetNumber rfl⟩
  | fec frame =>
    rcases hroom with hroom | hroom
    · exact .inl ⟨hpos, hroom⟩
    · exact .inr hroom

theorem Within.pushSafe_iff (h : b.Within) (hpos : b.startStreamOffset ≤ p.position b)
    (hstream : ∀ frame packetNumber, p = .stream frame packetNumber → frame.offset + frame.data.length ≤ b.startStreamOffset + capacity)
    : b.PushSafe p ↔ b.HasRoom p := by
  constructor
  · intro hsafe
    by_contra hroom
    obtain ⟨b', hpush, _, _, hread⟩ := hsafe.returns
    obtain ⟨r, hr⟩ := hread.returns
    rw [h.push_outside hroom hpush] at hr
    cases hr
  · intro hroom
    obtain ⟨b', hpush, hb', hstart, hle⟩ := h.push (hroom.position hpos hstream)
    refine ⟨⟨b', hpush, hle, ?_, hb'.readSafe⟩, hpos, h.next.1, h.bufferMap.le⟩
    have hend := hb'.next.2
    rw [hstart] at hend
    simp only [capacity, symbolSize, numEncSymbols] at hend
    omega

end FecBuffer

/-! ### All buffers of a receiver -/

theorem FecHandler.getOrCreate_within {streamID : ℕ} (hf : ∀ b ∈ f.buffers, b.Within)
    (hget : f.getOrCreateFecBuffer streamID offset = (f', some id)) (hb : f'.buffers[id]? = some b) :
    (∀ b ∈ f'.buffers, b.Within) ∧ b.startStreamOffset ≤ offset ∧ offset ≤ b.endStreamOffset := by
  unfold getOrCreateFecBuffer at hget
  split at hget
  · split at hget
    · rename_i e hfind
      cases hget
      have hhas := List.find?_some hfind
      rw [hb] at hhas
      exact ⟨hf, (of_decide_eq_true hhas).2⟩
    · split at hget
      · cases hget
      · cases hget
        have hlen : f.buffers.length ≤ f.buffers.length := Nat.le_refl _
        have hnew : b = .init streamID (offset / srcBlockSize * srcBlockSize) := by
          rw [List.getElem?_append_right hlen, Nat.sub_self] at hb
          exact (Option.some.inj hb).symm
        refine ⟨fun b' hb' => ?_, ?_⟩
        · rcases List.mem_append.mp hb' with hb' | hb'
          · exact hf b' hb'
          · rw [List.mem_singleton.mp hb']
            exact FecBuffer.init_within _ _
        · rw [hnew]
          have hdiv := Nat.div_add_mod offset srcBlockSize
          have hmod := Nat.mod_lt offset (show 0 < srcBlockSize by decide)
          rw [Nat.mul_comm] at hdiv
          show offset / srcBlockSize * srcBlockSize ≤ offset ∧
            offset ≤ offset / srcBlockSize * srcBlockSize + srcBlockSize - 1
          omega
  · cases hget

theorem FecHandler.updateWindow_buffers (h : f.updateWindow b = .ok f') : f'.buffers = f.buffers := by
  unfold updateWindow at h
  split at h
  · cases h
    rfl
  · split at h
    · cases h
      rfl
    · cases h

theorem FecBuffer.Within.decodeBlock {b' : FecBuffer} (h : b.Within)
    (hdec : b.decodeBlock = .ok (b', frames)) : b'.Within := by
  cases hget : b.getEncodeBlock with
  | error stop =>
    rw [decodeBlock_of_error hget] at hdec
    cases hdec
  | ok r =>
    obtain ⟨b₁, out⟩ := r
    rw [decodeBlock_of_get hget] at hdec
    have heq : b₁ = b' := congrArg Prod.fst (Except.ok.inj hdec)
    rw [← heq]
    exact h.getEncodeBlock hget

theorem FecHandler.set_within (hf : ∀ b ∈ f.buffers, b.Within) (id : ℕ) (hb : b.Within) :
    ∀ b' ∈ (f.setBuffer id b).buffers, b'.Within := by
  intro b' hb'
  rcases List.mem_or_eq_of_mem_set hb' with hb' | rfl
  · exact hf b' hb'
  · exact hb

theorem FecHandler.work_within {c : Chan} (hf : ∀ b ∈ f.buffers, b.Within)
    (h : f.work id c = .ok (f', frames)) : ∀ b ∈ f'.buffers, b.Within := by
  unfold work at h
  split at h
  · cases h
  · rename_i b hb
    split at h
    · cases h
    · rename_i f₁ hwindow
      have hbuffers := updateWindow_buffers hwindow
      have hf₁ : ∀ b ∈ f₁.buffers, b.Within := by
        rw [hbuffers]
        exact hf
      split at h
      · cases h
        exact hf₁
      · split at h
        · cases h
        · rename_i b' frames' hdec
          cases h
          exact set_within hf₁ id ((hf b (List.mem_of_getElem? hb)).decodeBlock hdec)

namespace Receiver

def target (streamID : ℕ) (s : Receiver) (frame : Push) : Option FecBuffer :=
  match s.handler.getOrCreateFecBuffer streamID frame.offset with
  | (f, some id) => f.buffers[id]?
  | (_, none) => none

def Short : Push → Prop
  | .stream frame _ => frame.data.length ≤ 1452
  | .fec _ => True

def ShortFrames (_ : Receiver) : Label → Prop
  | .arrive frame => Short frame
  | _ => True

def HasRoom (streamID : ℕ) (s : Receiver) : Label → Prop
  | .push => ∀ frame b, s.frameHandler = .locked frame → s.target streamID frame = some b →
      b.HasRoom frame
  | _ => True

structure Bounded (s : Receiver) : Prop where
  buffers : ∀ b ∈ s.handler.buffers, b.Within
  short : ∀ frame, s.frameHandler = .locked frame → Short frame

variable {streamID id : ℕ} {s : Receiver} {frame : Push} {b : FecBuffer} {f : FecHandler}

theorem Bounded.target (h : s.Bounded) (hlocked : s.frameHandler = .locked frame)
    (hb : s.target streamID frame = some b) :
    b.Within ∧ b.startStreamOffset ≤ frame.position b ∧
      ∀ f packetNumber, frame = .stream f packetNumber →
        f.offset + f.data.length ≤ b.startStreamOffset + capacity := by
  unfold Receiver.target at hb
  split at hb
  · rename_i f id hget
    obtain ⟨hall, hlo, hhi⟩ := FecHandler.getOrCreate_within h.buffers hget hb
    have hin := hall b (List.mem_of_getElem? hb)
    have hlast := hin.last
    have hshort := h.short frame hlocked
    refine ⟨hin, ?_, ?_⟩
    · cases frame with
      | stream f packetNumber => exact hlo
      | fec f => exact FecBuffer.start_le_fecStart hlast f
    · rintro f packetNumber rfl
      have hlen : f.data.length ≤ 1452 := hshort
      have hoff : f.offset ≤ b.endStreamOffset := hhi
      simp only [capacity, srcBlockSize, symbolSize, numSrcSymbols, numEncSymbols] at *
      omega
  · cases hb

theorem Bounded.push {b' : FecBuffer} (h : s.Bounded) (hroom : HasRoom streamID s .push)
    (hpc : s.frameHandler = .locked frame)
    (hget : s.handler.getOrCreateFecBuffer streamID frame.offset = (f, some id))
    (hb : f.buffers[id]? = some b) (hpush : b.push frame = .ok b') :
    ∀ b ∈ (f.setBuffer id b').buffers, b.Within := by
  have htarget : s.target streamID frame = some b := by
    rw [Receiver.target, hget]
    exact hb
  obtain ⟨hin, hpos, hstream⟩ := h.target hpc htarget
  obtain ⟨hall, _⟩ := FecHandler.getOrCreate_within h.buffers hget hb
  have hframe := (hroom frame b hpc htarget).position hpos hstream
  obtain ⟨b'', hpush', hb'', _⟩ := hin.push hframe
  rw [hpush] at hpush'
  cases hpush'
  exact FecHandler.set_within hall id hb''

theorem Bounded.step {s' : Receiver} {a : Label} (h : s.Bounded) (hshort : ShortFrames s a)
    (hroom : HasRoom streamID s a) (hstep : s.step streamID a = .ok s') : s'.Bounded := by
  have hstarted : ∀ {id : ℕ} {b : FecBuffer}, s.handler.buffers[id]? = some b →
      ∀ b' ∈ (s.handler.setBuffer id { b with decodeStarted := true }).buffers, b'.Within := by
    intro id b hb
    have hin := h.buffers b (List.mem_of_getElem? hb)
    exact FecHandler.set_within h.buffers id
      ⟨hin.encBlock, hin.bufferMap, hin.last, hin.next, hin.stream, hin.fec⟩
  cases Step.of_step hstep with
  | arrive _ _ =>
    refine ⟨h.buffers, fun frame hlocked => ?_⟩
    cases hlocked
    exact hshort
  | pushNone _ _ _ => exact ⟨h.buffers, fun _ hlocked => nomatch hlocked⟩
  | push hpc _ hget hb hpush =>
    exact ⟨h.push hroom hpc hget hb hpush, fun _ hlocked => nomatch hlocked⟩
  | checkNone _ _ _ | check _ _ _ | send _ _ => exact ⟨h.buffers, fun _ hlocked => nomatch hlocked⟩
  | mark _ hb => exact ⟨hstarted hb, fun _ hlocked => nomatch hlocked⟩
  | release _ => exact ⟨h.buffers, fun _ hlocked => nomatch hlocked⟩
  | take _ _ | final _ _ => exact ⟨h.buffers, h.short⟩
  | work _ hwork => exact ⟨FecHandler.work_within h.buffers hwork, h.short⟩
  | put _ _ | delete _ _ | destroy _ _ | fire _ | timeout _ _ => exact ⟨h.buffers, h.short⟩
  | expired _ hb => exact ⟨hstarted hb, h.short⟩
  | recv _ _ | recvFinal _ _ | store _ _ | storeErr _ _ => exact ⟨h.buffers, h.short⟩

theorem init_bounded : init.Bounded :=
  ⟨fun _ h => absurd h List.not_mem_nil, fun _ h => nomatch h⟩

/-- **Bounds of the FEC buffers.** As long as every frame that is pushed has room, every buffer can
be read in range. The next push is safe just if its frame has room too. -/
theorem fec_bounds (streamID : ℕ) {as : List Label} {s : Receiver}
    (h : Run (step streamID) (fun s a => ShortFrames s a ∧ HasRoom streamID s a) init as s) :
    (∀ b ∈ s.handler.buffers, b.ReadSafe) ∧
      ∀ frame b, s.frameHandler = .locked frame → s.target streamID frame = some b →
        (b.PushSafe frame ↔ b.HasRoom frame) := by
  have hinv : s.Bounded := h.invariant Bounded init_bounded
    fun _ _ _ hs hok hstep => hs.step hok.1 hok.2 hstep
  refine ⟨fun b hb => (hinv.buffers b hb).readSafe, fun frame b hlocked hb => ?_⟩
  obtain ⟨hin, hpos, hstream⟩ := hinv.target hlocked hb
  exact hin.pushSafe_iff hpos hstream

def fecAt (fecDataOffset : ℕ) : Push := .fec ⟨4, 0, 1024, 16, fecDataOffset, 1, 4096, [7], false⟩

theorem fec_bounds_last_byte : ∃ s b,
    Run (step 4) (fun s a => ShortFrames s a ∧ HasRoom 4 s a) init [.arrive (fecAt 4095)] s ∧
      s.target 4 (fecAt 4095) = some b ∧ b.PushSafe (fecAt 4095) := by
  have hrun : Run (step 4) (fun s a => ShortFrames s a ∧ HasRoom 4 s a) init
      [.arrive (fecAt 4095)] { init with frameHandler := .locked (fecAt 4095) } :=
    .snoc .nil ⟨trivial, trivial⟩ rfl
  refine ⟨_, .init 4 0, hrun, rfl, ?_⟩
  exact ((fec_bounds 4 hrun).2 (fecAt 4095) (.init 4 0) rfl rfl).mpr (.inl (by decide))

theorem work_panic {f' : FecHandler} {c : Chan} (hb : f.buffers[id]? = some b)
    (hwindow : f.updateWindow b = .ok f') (hc : c.complete = false)
    (hget : b.getEncodeBlock = .error .panic) : f.work id c = .error .panic := by
  unfold FecHandler.work
  rw [hb]
  dsimp only
  rw [hwindow]
  dsimp only
  rw [hc, FecBuffer.decodeBlock_of_error hget]
  rfl

def behind : FecBuffer :=
  { FecBuffer.init 4 0 with
    oobFecFrameQueue := [⟨4, 0, 1024, 16, 4096, 1, 4096, [7], false⟩]
    fecFrameDataLength := 1 }

theorem push_behind : (FecBuffer.init 4 0).push (fecAt 4096) = .ok behind := by
  have hmap : setBufferMap (FecBuffer.init 4 0).startStreamOffset
      (FecBuffer.init 4 0).nextFrameOffset (FecBuffer.init 4 0).nextFrameOffset
      (FecBuffer.init 4 0).bufferMap = .ok (FecBuffer.init 4 0).bufferMap :=
    setBufferMap_nothing 0 (Nat.zero_le _) List.length_replicate
  unfold FecBuffer.push fecAt FecBuffer.pushFecFrame FecBuffer.place
  dsimp only
  rw [if_neg (by decide), if_neg (by decide), if_pos (by decide), hmap]
  rfl

theorem behind_panics : behind.getEncodeBlock = .error .panic := by
  have hroom : ¬ (FecBuffer.init 4 0).HasRoom (fecAt 4096) := by
    rintro (h | h)
    · exact absurd h (by decide)
    · exact absurd h (by decide)
  exact (FecBuffer.init_within 4 0).push_outside hroom push_behind

def withBehind (timers : List Timer) (frameHandler : FrameHandler) : Receiver :=
  { init with
    handler := ⟨[behind], [(0, 0)], [], 0⟩
    timers := timers
    frameHandler := frameHandler }

theorem step_push_behind :
    step 4 { init with frameHandler := .locked (fecAt 4096) } .push =
      .ok (withBehind [.waiting] (.check 0 (fecAt 4096))) := by
  have hget : FecHandler.new.getOrCreateFecBuffer 4 (fecAt 4096).offset =
      (⟨[.init 4 0], [(0, 0)], [], 0⟩, some 0) := rfl
  have hbuffer : (⟨[.init 4 0], [(0, 0)], [], 0⟩ : FecHandler).buffers[0]? =
      some (.init 4 0) := rfl
  have hstep : step 4 { init with frameHandler := .locked (fecAt 4096) } .push =
      pushFrame 4 { init with frameHandler := .locked (fecAt 4096) } (fecAt 4096) := rfl
  have hhandler : ({ init with frameHandler := .locked (fecAt 4096) } : Receiver).handler =
      FecHandler.new := rfl
  rw [hstep, pushFrame, hhandler, hget]
  dsimp only
  rw [hbuffer]
  dsimp only
  rw [push_behind]
  rfl

def expiredBehind : Receiver :=
  { withBehind [.sent] .idle with
    chan := Function.update (Function.update init.chan .timeout [0]) .timeout []
    decode := .lock 0 .timeout
    consumer := .waiting
    received := [(0, .timeout)] }

/-- One byte further, alone in its block: the push returns, and `decode` panics when the timer of the
block has expired. -/
theorem fec_frame_behind_buffer : ∃ s,
    exec (step 4) init [.arrive (fecAt 4096), .push, .check, .release, .fire 0, .timeout 0,
        .take .timeout] = .ok s ∧
      s.step 4 .work = .error .panic := by
  have harrive : step 4 init (.arrive (fecAt 4096)) =
      .ok { init with frameHandler := .locked (fecAt 4096) } := rfl
  have hrest : exec (step 4) (withBehind [.waiting] (.check 0 (fecAt 4096)))
      [.check, .release, .fire 0, .timeout 0, .take .timeout] = .ok expiredBehind := rfl
  have hbuffer : expiredBehind.handler.buffers[0]? = some behind := rfl
  have hwindow : expiredBehind.handler.updateWindow behind = .ok ⟨[behind], [(0, 0)], [], 16384⟩ :=
    rfl
  have hwork := work_panic (c := .timeout) hbuffer hwindow rfl behind_panics
  have hlock : expiredBehind.decode = .lock 0 .timeout := rfl
  refine ⟨expiredBehind, ?_, ?_⟩
  · simp only [exec, harrive, step_push_behind]
    exact hrest
  · simp only [step, hlock, hwork]

end Receiver

end Mp2bs.Fec
