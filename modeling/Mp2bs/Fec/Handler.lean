import Mp2bs.Fec.Buffer

/-!
# The window of FEC blocks (`enhanced-quic/fec/fec_handler.go`)

`getOrCreateFecBuffer` finds or makes the buffer of a frame, `decode` moves `nextBlockOffset` over the
finished blocks. A pointer to a `FecBuffer` is its position in the list of all buffers that were made;
Go maps are lists of key and value in the order in which `range` runs over them.
-/

namespace Mp2bs.Fec
open Mp2bs.Lib.Machine

/- The entries of `alreadyDecQueue` have no other fields set (262-264). -/
structure DecodedBlock where
  streamID : ℕ
  startStreamOffset : ℕ
  endStreamOffset : ℕ
  deriving Repr, DecidableEq

structure FecHandler where
  buffers : List FecBuffer
  decQueue : List (ℕ × ℕ)
  alreadyDecQueue : List (ℕ × DecodedBlock)
  nextBlockOffset : ℕ
  deriving Repr, DecidableEq

def DecodedBlock.has (d : DecodedBlock) (streamID offset : ℕ) : Bool :=
  d.streamID = streamID ∧ d.startStreamOffset ≤ offset ∧ offset ≤ d.endStreamOffset

def FecBuffer.has (b : FecBuffer) (streamID offset : ℕ) : Bool :=
  b.streamID = streamID ∧ b.startStreamOffset ≤ offset ∧ offset ≤ b.endStreamOffset

namespace FecHandler

-- NewFecHandler, 44-58
def new : FecHandler := ⟨[], [], [], 0⟩

-- getOrCreateFecBuffer, 360-394
def getOrCreateFecBuffer (f : FecHandler) (streamID offset : ℕ) : FecHandler × Option ℕ :=
  if f.nextBlockOffset ≤ offset then
    match f.decQueue.find? (fun e => (f.buffers[e.2]?).any (·.has streamID offset)) with
    | some e => (f, some e.2)
    | none =>
      if f.alreadyDecQueue.any (·.2.has streamID offset) then (f, none)
      else
        let startOffset := offset / srcBlockSize * srcBlockSize
        ({ f with
          buffers := f.buffers ++ [FecBuffer.init streamID startOffset]
          decQueue := f.decQueue.filter (·.1 != startOffset) ++ [(startOffset, f.buffers.length)] },
          some f.buffers.length)
  else (f, none)

-- the loop over alreadyDecQueue, 248-256, with at most as many turns as entries
def passOver : ℕ → ℕ → List (ℕ × DecodedBlock) → ℕ × List (ℕ × DecodedBlock)
  | 0, nextBlockOffset, queue => (nextBlockOffset, queue)
  | turns + 1, nextBlockOffset, queue =>
    match queue.lookup nextBlockOffset with
    | some d => passOver turns (d.endStreamOffset + 1) (queue.filter (·.1 != nextBlockOffset))
    | none => (nextBlockOffset, queue)

-- the window update of decode, 243-270
def updateWindow (f : FecHandler) (b : FecBuffer) : Except Stop FecHandler :=
  if b.startStreamOffset = f.nextBlockOffset then
    let (next, queue) := passOver f.alreadyDecQueue.length (b.endStreamOffset + 1) f.alreadyDecQueue
    .ok { f with nextBlockOffset := next, alreadyDecQueue := queue }
  else if f.nextBlockOffset < b.startStreamOffset then
    .ok { f with alreadyDecQueue := f.alreadyDecQueue.filter (·.1 != b.startStreamOffset) ++
      [(b.startStreamOffset, ⟨b.streamID, b.startStreamOffset, b.endStreamOffset⟩)] }
  else .error .panic

def setBuffer (f : FecHandler) (id : ℕ) (b : FecBuffer) : FecHandler :=
  { f with buffers := f.buffers.set id b }

-- delete(f.decQueue, fecBuffer.startStreamOffset), line 307
def deleteBuffer (f : FecHandler) (b : FecBuffer) : FecHandler :=
  { f with decQueue := f.decQueue.filter (·.1 != b.startStreamOffset) }

end FecHandler

/-! ### The blocks of a stream -/

def blockAt (streamID i : ℕ) : DecodedBlock :=
  ⟨streamID, srcBlockSize * i, srcBlockSize * i + srcBlockSize - 1⟩

theorem blockAt_has (streamID i offset : ℕ) :
    (blockAt streamID i).has streamID offset = true ↔ offset / srcBlockSize = i := by
  simp only [DecodedBlock.has, blockAt, decide_eq_true_eq, true_and, srcBlockSize, symbolSize,
    numSrcSymbols]
  omega

def FecBuffer.block (b : FecBuffer) : DecodedBlock :=
  ⟨b.streamID, b.startStreamOffset, b.endStreamOffset⟩

def FecBuffer.IsFor (b : FecBuffer) (streamID i : ℕ) : Prop :=
  (⟨b.streamID, b.startStreamOffset, b.endStreamOffset⟩ : DecodedBlock) = blockAt streamID i

variable {b : FecBuffer} {streamID i : ℕ}

theorem FecBuffer.IsFor.start (h : b.IsFor streamID i) : b.startStreamOffset = srcBlockSize * i :=
  congrArg DecodedBlock.startStreamOffset h

theorem FecBuffer.IsFor.next (h : b.IsFor streamID i) : b.endStreamOffset + 1 = srcBlockSize * (i + 1) := by
  have he : b.endStreamOffset = srcBlockSize * i + srcBlockSize - 1 :=
    congrArg DecodedBlock.endStreamOffset h
  rw [he]
  simp only [srcBlockSize, symbolSize, numSrcSymbols]
  omega

theorem FecBuffer.IsFor.has_iff (h : b.IsFor streamID i) (offset : ℕ) :
    b.has streamID offset = true ↔ offset / srcBlockSize = i := by
  rw [← blockAt_has streamID i offset, ← h]
  rfl

theorem FecBuffer.init_isFor (streamID offset : ℕ) :
    (FecBuffer.init streamID (offset / srcBlockSize * srcBlockSize)).IsFor streamID
      (offset / srcBlockSize) := by
  simp only [IsFor, init, blockAt, Nat.mul_comm]

theorem srcBlockSize_mul_inj {j : ℕ} (h : srcBlockSize * i = srcBlockSize * j) : i = j :=
  Nat.eq_of_mul_eq_mul_left (by decide) h

/-! ### The window -/

/- `nextBlockOffset` is the end of the first finished blocks without a gap, and
`alreadyDecQueue` has the finished blocks beyond it; `finished` are block numbers. -/
structure FecHandler.Window (streamID : ℕ) (finished : List ℕ) (f : FecHandler) (m : ℕ) :
    Prop where
  next : f.nextBlockOffset = srcBlockSize * m
  below : ∀ i < m, i ∈ finished
  gap : m ∉ finished
  ahead : ∀ k d, (k, d) ∈ f.alreadyDecQueue ↔
    ∃ i, m ≤ i ∧ i ∈ finished ∧ k = srcBlockSize * i ∧ d = blockAt streamID i

namespace FecHandler
variable {streamID : ℕ} {finished : List ℕ}

theorem passOver_spec (streamID : ℕ) (finished : List ℕ) (turns : ℕ) {m : ℕ} {queue : List (ℕ × DecodedBlock)}
    (hturns : queue.length ≤ turns) (hbelow : ∀ i < m, i ∈ finished)
    (hahead : ∀ k d, (k, d) ∈ queue ↔
      ∃ i, m ≤ i ∧ i ∈ finished ∧ k = srcBlockSize * i ∧ d = blockAt streamID i) :
    ∃ m' queue', passOver turns (srcBlockSize * m) queue = (srcBlockSize * m', queue') ∧
      (∀ i < m', i ∈ finished) ∧ m' ∉ finished ∧
      ∀ k d, (k, d) ∈ queue' ↔
        ∃ i, m' ≤ i ∧ i ∈ finished ∧ k = srcBlockSize * i ∧ d = blockAt streamID i := by
  induction turns generalizing m queue with
  | zero =>
    obtain rfl : queue = [] := List.length_eq_zero_iff.mp (Nat.le_zero.mp hturns)
    refine ⟨m, [], rfl, hbelow, ?_, hahead⟩
    intro hm
    have := (hahead (srcBlockSize * m) (blockAt streamID m)).mpr ⟨m, le_rfl, hm, rfl, rfl⟩
    cases this
  | succ turns ih =>
    rw [passOver]
    cases hl : queue.lookup (srcBlockSize * m) with
    | none =>
      refine ⟨m, queue, rfl, hbelow, ?_, hahead⟩
      intro hm
      have hin := (hahead (srcBlockSize * m) (blockAt streamID m)).mpr ⟨m, le_rfl, hm, rfl, rfl⟩
      have := List.lookup_eq_none_iff.mp hl _ hin
      simp at this
    | some d =>
      obtain ⟨l₁, l₂, hsplit, _⟩ := List.lookup_eq_some_iff.mp hl
      have hin : (srcBlockSize * m, d) ∈ queue := by rw [hsplit]; simp
      obtain ⟨i, _, hfin, hki, rfl⟩ := (hahead _ _).mp hin
      obtain rfl := srcBlockSize_mul_inj hki
      have hnext : (blockAt streamID m).endStreamOffset + 1 = srcBlockSize * (m + 1) := by
        simp only [blockAt, srcBlockSize, symbolSize, numSrcSymbols]
        omega
      have hshort : (queue.filter (·.1 != srcBlockSize * m)).length ≤ turns := by
        have hlt : (queue.filter (·.1 != srcBlockSize * m)).length < queue.length :=
          List.length_filter_lt_length_iff_exists.mpr ⟨_, hin, by simp⟩
        omega
      dsimp only
      rw [hnext]
      refine ih hshort ?_ ?_
      · intro i hi
        rcases Nat.lt_succ_iff_lt_or_eq.mp hi with hi | rfl
        · exact hbelow i hi
        · exact hfin
      · intro k d
        rw [List.mem_filter, hahead]
        simp only [bne_iff_ne, ne_eq]
        constructor
        · rintro ⟨⟨i, hi, hf, rfl, rfl⟩, hne⟩
          refine ⟨i, ?_, hf, rfl, rfl⟩
          have : i ≠ m := fun he => hne (by rw [he])
          omega
        · rintro ⟨i, hi, hf, rfl, rfl⟩
          refine ⟨⟨i, by omega, hf, rfl, rfl⟩, ?_⟩
          intro he
          have := srcBlockSize_mul_inj he
          omega

theorem Window.update {f : FecHandler} {m : ℕ} (h : f.Window streamID finished m) {b : FecBuffer}
    {i : ℕ} (hb : b.IsFor streamID i) (hnew : i ∉ finished) :
    ∃ f' m', f.updateWindow b = .ok f' ∧ f'.Window streamID (finished ++ [i]) m' ∧
      f'.decQueue = f.decQueue ∧ f'.buffers = f.buffers := by
  have hge : m ≤ i := by
    by_contra hlt
    exact hnew (h.below i (by omega))
  unfold updateWindow
  rw [hb.start, h.next]
  by_cases him : i = m
  · subst him
    -- the block is the next one: the loop starts behind it
    obtain ⟨m', queue', hpass, hbelow, hgap, hahead⟩ := passOver_spec streamID
      (finished ++ [i]) f.alreadyDecQueue.length (m := i + 1) le_rfl
      (by
        intro j hj
        rcases Nat.lt_succ_iff_lt_or_eq.mp hj with hj | rfl
        · exact List.mem_append_left _ (h.below j hj)
        · simp)
      (by
        intro k d
        rw [h.ahead]
        constructor
        · rintro ⟨j, hj, hf, rfl, rfl⟩
          refine ⟨j, ?_, List.mem_append_left _ hf, rfl, rfl⟩
          have : j ≠ i := fun he => hnew (he ▸ hf)
          omega
        · rintro ⟨j, hj, hf, rfl, rfl⟩
          refine ⟨j, by omega, ?_, rfl, rfl⟩
          rcases List.mem_append.mp hf with hf | hf
          · exact hf
          · have := List.mem_singleton.mp hf
            omega)
    rw [if_pos rfl, hb.next, hpass]
    exact ⟨_, m', rfl, ⟨rfl, hbelow, hgap, hahead⟩, rfl, rfl⟩
  · have hlt : srcBlockSize * m < srcBlockSize * i := Nat.mul_lt_mul_of_pos_left (by omega) (by decide)
    rw [if_neg (fun he => him (srcBlockSize_mul_inj he)), if_pos hlt]
    refine ⟨_, m, rfl, ⟨rfl, ?_, ?_, ?_⟩, rfl, rfl⟩
    · intro j hj
      exact List.mem_append_left _ (h.below j hj)
    · intro hin
      rcases List.mem_append.mp hin with hin | hin
      · exact h.gap hin
      · exact him (List.mem_singleton.mp hin).symm
    · intro k d
      have hentry : (⟨b.streamID, srcBlockSize * i, b.endStreamOffset⟩ : DecodedBlock) =
          blockAt streamID i := by
        rw [← hb.start]
        exact hb
      rw [hentry, List.mem_append, List.mem_filter, h.ahead, List.mem_singleton]
      simp only [bne_iff_ne, ne_eq, Prod.mk.injEq]
      constructor
      · rintro (⟨⟨j, hj, hf, rfl, rfl⟩, _⟩ | ⟨rfl, rfl⟩)
        · exact ⟨j, hj, List.mem_append_left _ hf, rfl, rfl⟩
        · exact ⟨i, hge, by simp, rfl, rfl⟩
      · rintro ⟨j, hj, hf, rfl, rfl⟩
        rcases List.mem_append.mp hf with hf | hf
        · left
          refine ⟨⟨j, hj, hf, rfl, rfl⟩, ?_⟩
          intro he
          exact hnew (srcBlockSize_mul_inj he ▸ hf)
        · right
          rw [List.mem_singleton.mp hf]
          exact ⟨rfl, rfl⟩

theorem getElem?_concat {α : Type} {l : List α} {a x : α} {i : ℕ} :
    (l ++ [a])[i]? = some x ↔ l[i]? = some x ∨ i = l.length ∧ x = a := by
  rw [List.getElem?_append]
  by_cases hi : i < l.length
  · rw [if_pos hi]
    constructor
    · exact Or.inl
    · rintro (h | ⟨rfl, _⟩)
      · exact h
      · omega
  · rw [if_neg hi, List.getElem?_singleton, List.getElem?_eq_none (l := l) (by omega)]
    by_cases hz : i - l.length = 0
    · rw [if_pos hz, Option.some.injEq]
      constructor
      · exact fun h => Or.inr ⟨by omega, h.symm⟩
      · rintro (h | h)
        · cases h
        · exact h.2.symm
    · rw [if_neg hz]
      constructor
      · intro h
        cases h
      · rintro (h | ⟨rfl, _⟩)
        · cases h
        · omega

def blocksOf (f : FecHandler) (ids : List ℕ) : List ℕ :=
  ids.filterMap fun id => (f.buffers[id]?).map (·.startStreamOffset / srcBlockSize)

/- There is one buffer for a block at most; `finished` are the buffers that the window has
passed or keeps as finished, `removed` those that are no longer in `decQueue`. -/
structure Inv (streamID : ℕ) (finished removed : List ℕ) (f : FecHandler) : Prop where
  made : ∀ (id : ℕ) (b : FecBuffer), f.buffers[id]? = some b → ∃ i, b.IsFor streamID i
  unique : ∀ (id id' : ℕ) (b b' : FecBuffer), f.buffers[id]? = some b → f.buffers[id']? = some b' →
    b.startStreamOffset = b'.startStreamOffset → id = id'
  known : ∀ id ∈ finished, id < f.buffers.length
  sub : ∀ id ∈ removed, id ∈ finished
  waiting : ∀ k id, (k, id) ∈ f.decQueue ↔
    id ∉ removed ∧ ∃ b, f.buffers[id]? = some b ∧ k = b.startStreamOffset
  nodup : (f.decQueue.map (·.1)).Nodup
  window : ∃ m, f.Window streamID (f.blocksOf finished) m

theorem new_inv (streamID : ℕ) : Inv streamID [] [] new := by
  refine ⟨?_, ?_, ?_, ?_, ?_, .nil, 0, rfl, ?_, ?_, ?_⟩
  · intro id b hb
    simp [new] at hb
  · intro id id' b b' hb
    simp [new] at hb
  · intro id hid
    cases hid
  · intro id hid
    cases hid
  · intro k id
    simp [new]
  · intro i hi
    omega
  · simp [blocksOf]
  · intro k d
    simp [blocksOf, new]

namespace Inv
variable {streamID : ℕ} {finished removed : List ℕ} {f : FecHandler}

variable {i id offset : ℕ} {b : FecBuffer}

theorem mem_blocksOf (h : Inv streamID finished removed f) {ids : List ℕ} :
    i ∈ f.blocksOf ids ↔
      ∃ id ∈ ids, ∃ b, f.buffers[id]? = some b ∧ FecBuffer.IsFor b streamID i := by
  simp only [blocksOf, List.mem_filterMap, Option.map_eq_some_iff]
  constructor
  · rintro ⟨id, hid, b, hb, rfl⟩
    obtain ⟨i, hi⟩ := h.made id b hb
    refine ⟨id, hid, b, hb, ?_⟩
    rw [hi.start, Nat.mul_div_cancel_left _ (by decide)]
    exact hi
  · rintro ⟨id, hid, b, hb, hi⟩
    exact ⟨id, hid, b, hb, by rw [hi.start, Nat.mul_div_cancel_left _ (by decide)]⟩

theorem not_mem_blocksOf (h : Inv streamID finished removed f) (hb : f.buffers[id]? = some b)
    (hi : b.IsFor streamID i) (hid : id ∉ finished) : i ∉ f.blocksOf finished := by
  rw [h.mem_blocksOf]
  rintro ⟨id', hid', b', hb', hi'⟩
  have := h.unique id id' b b' hb hb' (by rw [hi.start, hi'.start])
  exact hid (this ▸ hid')

theorem find_decQueue (h : Inv streamID finished removed f) {e : ℕ × ℕ}
    (hf : f.decQueue.find? (fun e => (f.buffers[e.2]?).any (·.has streamID offset)) = some e) :
    e.2 ∉ removed ∧ ∃ b, f.buffers[e.2]? = some b ∧ b.IsFor streamID (offset / srcBlockSize) := by
  obtain ⟨hrem, b, hb, _⟩ := (h.waiting e.1 e.2).mp (List.mem_of_find?_eq_some hf)
  have hany := List.find?_some hf
  rw [hb] at hany
  obtain ⟨i, hi⟩ := h.made e.2 b hb
  have := (hi.has_iff offset).mp hany
  exact ⟨hrem, b, hb, by rw [this]; exact hi⟩

theorem no_buffer (h : Inv streamID finished removed f) (hnext : f.nextBlockOffset ≤ offset)
    (hdec : f.decQueue.find? (fun e => (f.buffers[e.2]?).any (·.has streamID offset)) = none)
    (halready : ¬f.alreadyDecQueue.any (·.2.has streamID offset) = true) (hb : f.buffers[id]? = some b) :
    ¬b.IsFor streamID (offset / srcBlockSize) := by
  intro hi
  have hhas : b.has streamID offset = true := (hi.has_iff offset).mpr rfl
  by_cases hrem : id ∈ removed
  · obtain ⟨m, hw⟩ := h.window
    have hfin : offset / srcBlockSize ∈ f.blocksOf finished :=
      h.mem_blocksOf.mpr ⟨id, h.sub id hrem, b, hb, hi⟩
    have hge : m ≤ offset / srcBlockSize := by
      rw [Nat.le_div_iff_mul_le (by decide), Nat.mul_comm, ← hw.next]
      exact hnext
    apply halready
    rw [List.any_eq_true]
    refine ⟨_, (hw.ahead _ _).mpr ⟨_, hge, hfin, rfl, rfl⟩, ?_⟩
    exact (blockAt_has streamID _ offset).mpr rfl
  · have hin := (h.waiting b.startStreamOffset id).mpr ⟨hrem, b, hb, rfl⟩
    have := List.find?_eq_none.mp hdec _ hin
    simp [hb, hhas] at this

theorem blocksOf_append (h : Inv streamID finished removed f) (b : FecBuffer) :
    ({ f with buffers := f.buffers ++ [b] } : FecHandler).blocksOf finished =
      f.blocksOf finished := by
  apply List.filterMap_congr
  intro id hid
  rw [List.getElem?_append_left (h.known id hid)]

theorem create (h : Inv streamID finished removed f)
    (hnone : ∀ (id : ℕ) (b : FecBuffer), f.buffers[id]? = some b → ¬b.IsFor streamID i)
    (hb : b.IsFor streamID i) :
    Inv streamID finished removed { f with
      buffers := f.buffers ++ [b]
      decQueue := f.decQueue ++ [(b.startStreamOffset, f.buffers.length)] } := by
  have hother : ∀ (id : ℕ) (b' : FecBuffer), f.buffers[id]? = some b' →
      b'.startStreamOffset ≠ b.startStreamOffset := by
    intro id b' hb' he
    obtain ⟨j, hj⟩ := h.made id b' hb'
    have : j = i := srcBlockSize_mul_inj (by rw [← hj.start, he, hb.start])
    exact hnone id b' hb' (this ▸ hj)
  obtain ⟨m, hw⟩ := h.window
  refine ⟨?_, ?_, ?_, h.sub, ?_, ?_, m, ?_⟩
  · intro id b' hb'
    rcases getElem?_concat.mp hb' with hb' | ⟨_, rfl⟩
    · exact h.made id b' hb'
    · exact ⟨i, hb⟩
  · intro id id' b₁ b₂ h₁ h₂ he
    rcases getElem?_concat.mp h₁ with h₁' | ⟨hid, hb₁⟩
    · rcases getElem?_concat.mp h₂ with h₂' | ⟨_, hb₂⟩
      · exact h.unique id id' b₁ b₂ h₁' h₂' he
      · exact absurd (hb₂ ▸ he) (hother id b₁ h₁')
    · rcases getElem?_concat.mp h₂ with h₂' | ⟨hid', _⟩
      · exact absurd (hb₁ ▸ he.symm) (hother id' b₂ h₂')
      · rw [hid, hid']
  · intro id hid
    have := h.known id hid
    simp only [List.length_append, List.length_singleton]
    omega
  · intro k id
    rw [List.mem_append, h.waiting, List.mem_singleton, Prod.mk.injEq]
    constructor
    · rintro (⟨hr, b', hb', hk⟩ | ⟨rfl, rfl⟩)
      · exact ⟨hr, b', getElem?_concat.mpr (Or.inl hb'), hk⟩
      · refine ⟨?_, b, getElem?_concat.mpr (Or.inr ⟨rfl, rfl⟩), rfl⟩
        intro hr
        have := h.known _ (h.sub _ hr)
        omega
    · rintro ⟨hr, b', hb', rfl⟩
      rcases getElem?_concat.mp hb' with hb' | ⟨rfl, rfl⟩
      · exact Or.inl ⟨hr, b', hb', rfl⟩
      · exact Or.inr ⟨rfl, rfl⟩
  · rw [List.map_append, List.nodup_append]
    refine ⟨h.nodup, by simp, ?_⟩
    intro k hk k' hk'
    obtain ⟨e, he, rfl⟩ := List.mem_map.mp hk
    obtain ⟨_, b', hb', hkb⟩ := (h.waiting e.1 e.2).mp he
    rw [List.mem_singleton.mp hk', hkb]
    exact hother e.2 b' hb'
  · have hblocks := h.blocksOf_append b
    refine ⟨hw.next, ?_, ?_, ?_⟩
    · rw [← hblocks] at hw
      exact hw.below
    · rw [← hblocks] at hw
      exact hw.gap
    · rw [← hblocks] at hw
      exact hw.ahead

theorem getOrCreate (h : Inv streamID finished removed f) (offset : ℕ) :
    Inv streamID finished removed (f.getOrCreateFecBuffer streamID offset).1 := by
  unfold getOrCreateFecBuffer
  by_cases hnext : f.nextBlockOffset ≤ offset
  · rw [if_pos hnext]
    cases hdec : f.decQueue.find? (fun e => (f.buffers[e.2]?).any (·.has streamID offset)) with
    | some e => exact h
    | none =>
      dsimp only
      by_cases halready : f.alreadyDecQueue.any (·.2.has streamID offset) = true
      · rw [if_pos halready]
        exact h
      · rw [if_neg halready]
        have hcreate := h.create (fun id b hb => h.no_buffer hnext hdec halready hb)
          (FecBuffer.init_isFor streamID offset)
        have hfilter : f.decQueue.filter (·.1 != offset / srcBlockSize * srcBlockSize) =
            f.decQueue := by
          rw [List.filter_eq_self]
          intro e he
          have := (List.nodup_append.mp (List.map_append ▸ hcreate.nodup)).2.2 e.1
            (List.mem_map_of_mem he) _ (List.mem_singleton_self _)
          exact bne_iff_ne.mpr this
        rw [hfilter]
        exact hcreate
  · rw [if_neg hnext]
    exact h

theorem update (h : Inv streamID finished removed f) (hb : f.buffers[id]? = some b) (hid : id ∉ finished) :
    ∃ f', f.updateWindow b = .ok f' ∧ f'.decQueue = f.decQueue ∧ f'.buffers = f.buffers ∧
      Inv streamID (finished ++ [id]) removed f' := by
  obtain ⟨i, hi⟩ := h.made id b hb
  obtain ⟨m, hw⟩ := h.window
  obtain ⟨f', m', hup, hw', hdec, hbuf⟩ := hw.update hi (h.not_mem_blocksOf hb hi hid)
  refine ⟨f', hup, hdec, hbuf, ?_, ?_, ?_, ?_, ?_, ?_, m', ?_⟩
  · rw [hbuf]
    exact h.made
  · rw [hbuf]
    exact h.unique
  · intro id' hid'
    rw [hbuf]
    rcases List.mem_append.mp hid' with hid' | hid'
    · exact h.known id' hid'
    · rw [List.mem_singleton.mp hid']
      exact (List.getElem?_eq_some_iff.mp hb).1
  · intro id' hid'
    exact List.mem_append_left _ (h.sub id' hid')
  · rw [hdec, hbuf]
    exact h.waiting
  · rw [hdec]
    exact h.nodup
  · have hblocks : f'.blocksOf (finished ++ [id]) = f.blocksOf finished ++ [i] := by
      simp only [blocksOf, hbuf, List.filterMap_append]
      congr 1
      simp [hb, hi.start, Nat.mul_div_cancel_left i (show 0 < srcBlockSize by decide)]
    rw [hblocks]
    exact hw'

theorem next_le (h : Inv streamID finished removed f) (hb : f.buffers[id]? = some b) (hid : id ∉ finished) :
    f.nextBlockOffset ≤ b.startStreamOffset := by
  obtain ⟨i, hi⟩ := h.made id b hb
  obtain ⟨m, hw⟩ := h.window
  have hnew := h.not_mem_blocksOf hb hi hid
  rw [hw.next, hi.start]
  refine Nat.mul_le_mul_left _ ?_
  by_contra hlt
  exact hnew (hw.below i (by omega))

theorem delete (h : Inv streamID finished removed f) (hb : f.buffers[id]? = some b) (hid : id ∈ finished) :
    Inv streamID finished (removed ++ [id]) (f.deleteBuffer b) := by
  obtain ⟨m, hw⟩ := h.window
  refine ⟨h.made, h.unique, h.known, ?_, ?_, ?_, m, hw.next, hw.below, hw.gap, hw.ahead⟩
  · intro id' hid'
    rcases List.mem_append.mp hid' with hid' | hid'
    · exact h.sub id' hid'
    · rw [List.mem_singleton.mp hid']
      exact hid
  · intro k id'
    simp only [deleteBuffer, List.mem_filter, h.waiting, bne_iff_ne, ne_eq, List.mem_append,
      List.mem_singleton, not_or]
    constructor
    · rintro ⟨⟨hr, b', hb', rfl⟩, hne⟩
      refine ⟨⟨hr, ?_⟩, b', hb', rfl⟩
      rintro rfl
      rw [hb] at hb'
      exact hne (by rw [Option.some.inj hb'])
    · rintro ⟨⟨hr, hne⟩, b', hb', rfl⟩
      refine ⟨⟨hr, b', hb', rfl⟩, ?_⟩
      intro he
      exact hne (h.unique id' id b' b hb' hb he)
  · exact h.nodup.sublist (List.Sublist.map _ List.filter_sublist)

theorem setBuffer (h : Inv streamID finished removed f) {b' : FecBuffer} (hb : f.buffers[id]? = some b)
    (hblock : b'.block = b.block) : Inv streamID finished removed (f.setBuffer id b') := by
  have hstart : b'.startStreamOffset = b.startStreamOffset :=
    congrArg DecodedBlock.startStreamOffset hblock
  have hback : ∀ (j : ℕ) (x : FecBuffer), (f.buffers.set id b')[j]? = some x →
      ∃ y, f.buffers[j]? = some y ∧ x.block = y.block := by
    intro j x hx
    rw [List.getElem?_set] at hx
    by_cases hj : id = j
    · subst hj
      rw [if_pos rfl, if_pos (List.getElem?_eq_some_iff.mp hb).1, Option.some.injEq] at hx
      exact ⟨b, hb, hx ▸ hblock⟩
    · rw [if_neg hj] at hx
      exact ⟨x, hx, rfl⟩
  have hstarts : ∀ j : ℕ, ((f.buffers.set id b')[j]?).map FecBuffer.startStreamOffset =
      (f.buffers[j]?).map FecBuffer.startStreamOffset := by
    intro j
    rw [List.getElem?_set]
    by_cases hj : id = j
    · subst hj
      rw [if_pos rfl, if_pos (List.getElem?_eq_some_iff.mp hb).1, hb, Option.map_some,
        Option.map_some, hstart]
    · rw [if_neg hj]
  have hblocks : (f.setBuffer id b').blocksOf finished = f.blocksOf finished := by
    apply List.filterMap_congr
    intro j _
    have := congrArg (Option.map (· / srcBlockSize)) (hstarts j)
    rw [Option.map_map, Option.map_map] at this
    exact this
  obtain ⟨m, hw⟩ := h.window
  refine ⟨?_, ?_, ?_, h.sub, ?_, h.nodup, m, ?_⟩
  · intro j x hx
    obtain ⟨y, hy, hxy⟩ := hback j x hx
    obtain ⟨i, hi⟩ := h.made j y hy
    exact ⟨i, hxy.trans hi⟩
  · intro j j' x x' hx hx' he
    obtain ⟨y, hy, hxy⟩ := hback j x hx
    obtain ⟨y', hy', hxy'⟩ := hback j' x' hx'
    refine h.unique j j' y y' hy hy' ?_
    rw [show y.startStreamOffset = x.startStreamOffset from
        (congrArg DecodedBlock.startStreamOffset hxy).symm, he]
    exact congrArg DecodedBlock.startStreamOffset hxy'
  · intro j hj
    rw [show (f.setBuffer id b').buffers.length = f.buffers.length from List.length_set]
    exact h.known j hj
  · intro k j
    have hiff : ∀ l : List FecBuffer, (∃ b, l[j]? = some b ∧ k = b.startStreamOffset) ↔
        (l[j]?).map FecBuffer.startStreamOffset = some k := by
      intro l
      rw [Option.map_eq_some_iff]
      exact exists_congr fun x => and_congr_right fun _ => eq_comm
    show (k, j) ∈ f.decQueue ↔ j ∉ removed ∧
      ∃ b, (f.buffers.set id b')[j]? = some b ∧ k = b.startStreamOffset
    rw [hiff, hstarts, ← hiff, h.waiting]
  · rw [hblocks]
    exact ⟨hw.next, hw.below, hw.gap, hw.ahead⟩

theorem getOrCreate_some (h : Inv streamID finished removed f) {f' : FecHandler}
    (hget : f.getOrCreateFecBuffer streamID offset = (f', some id)) :
    id ∉ removed ∧
      (∃ b, f'.buffers[id]? = some b ∧ b.IsFor streamID (offset / srcBlockSize)) ∧
      (f'.buffers = f.buffers ∨ id = f.buffers.length ∧ f'.buffers = f.buffers ++
        [FecBuffer.init streamID (offset / srcBlockSize * srcBlockSize)]) := by
  unfold getOrCreateFecBuffer at hget
  by_cases hnext : f.nextBlockOffset ≤ offset
  · rw [if_pos hnext] at hget
    cases hdec : f.decQueue.find? (fun e => (f.buffers[e.2]?).any (·.has streamID offset)) with
    | some e =>
      simp only [hdec, Prod.mk.injEq, Option.some.injEq] at hget
      obtain ⟨rfl, rfl⟩ := hget
      obtain ⟨hrem, hb⟩ := h.find_decQueue hdec
      exact ⟨hrem, hb, Or.inl rfl⟩
    | none =>
      simp only [hdec] at hget
      by_cases halready : f.alreadyDecQueue.any (·.2.has streamID offset) = true
      · rw [if_pos halready] at hget
        cases hget
      · rw [if_neg halready, Prod.mk.injEq, Option.some.injEq] at hget
        obtain ⟨rfl, rfl⟩ := hget
        refine ⟨?_, ⟨_, getElem?_concat.mpr (Or.inr ⟨rfl, rfl⟩), ?_⟩, Or.inr ⟨rfl, rfl⟩⟩
        · intro hrem
          have := h.known _ (h.sub _ hrem)
          omega
        · exact FecBuffer.init_isFor streamID offset
  · rw [if_neg hnext] at hget
    cases hget

theorem getOrCreate_removed (h : Inv streamID finished removed f)
    (hgone : offset / srcBlockSize ∈ f.blocksOf removed) :
    f.getOrCreateFecBuffer streamID offset = (f, none) := by
  obtain ⟨id, hid, b, hb, hi⟩ := h.mem_blocksOf.mp hgone
  unfold getOrCreateFecBuffer
  by_cases hnext : f.nextBlockOffset ≤ offset
  · rw [if_pos hnext]
    cases hdec : f.decQueue.find? (fun e => (f.buffers[e.2]?).any (·.has streamID offset)) with
    | some e =>
      obtain ⟨hrem, b', hb', hi'⟩ := h.find_decQueue hdec
      have := h.unique id e.2 b b' hb hb' (by rw [hi.start, hi'.start])
      exact absurd (this ▸ hid) hrem
    | none =>
      have halready : f.alreadyDecQueue.any (·.2.has streamID offset) = true := by
        by_contra hno
        exact h.no_buffer hnext hdec hno hb hi
      dsimp only
      rw [if_pos halready]
  · rw [if_neg hnext]

theorem decQueue_disjoint (h : Inv streamID finished removed f) :
    f.decQueue.Pairwise (fun e e' => e.1 + srcBlockSize ≤ e'.1 ∨ e'.1 + srcBlockSize ≤ e.1) := by
  have hstart : ∀ e ∈ f.decQueue, ∃ i, e.1 = srcBlockSize * i := by
    intro e he
    obtain ⟨_, b, hb, hk⟩ := (h.waiting e.1 e.2).mp he
    obtain ⟨i, hi⟩ := h.made e.2 b hb
    exact ⟨i, by rw [hk, hi.start]⟩
  refine List.Pairwise.imp_of_mem ?_ (List.pairwise_map.mp h.nodup)
  intro e e' he he' hne
  obtain ⟨i, hi⟩ := hstart e he
  obtain ⟨j, hj⟩ := hstart e' he'
  simp only [srcBlockSize, symbolSize, numSrcSymbols] at hi hj ⊢
  omega

end Inv

end FecHandler

/-! ### Runs: blocks are made and finished in any order -/

structure Blocks where
  handler : FecHandler
  finished : List ℕ
  deriving Repr, DecidableEq

namespace Blocks

inductive Label
  | frame (offset : ℕ)
  | finish (id : ℕ)
  deriving Repr, DecidableEq

def init : Blocks := ⟨.new, []⟩

-- lines 174-175 and 242-309: both are under f.mutex
def step (streamID : ℕ) (s : Blocks) : Label → Except Stop Blocks
  | .frame offset => .ok { s with handler := (s.handler.getOrCreateFecBuffer streamID offset).1 }
  | .finish id =>
    match s.handler.buffers[id]? with
    | none => .error .blocked
    | some b => match s.handler.updateWindow b with
      | .error e => .error e
      | .ok f => .ok ⟨f.deleteBuffer b, s.finished ++ [id]⟩

def Once (s : Blocks) : Label → Prop
  | .frame _ => True
  | .finish id => id ∉ s.finished

instance (s : Blocks) (a : Label) : Decidable (Once s a) := by
  cases a <;> unfold Once <;> infer_instance

def finishedBlocks (s : Blocks) : List ℕ := s.handler.blocksOf s.finished

theorem inv_of_run {streamID : ℕ} {as : List Label} {s : Blocks}
    (h : Run (step streamID) Once init as s) :
    s.handler.Inv streamID s.finished s.finished := by
  refine Run.invariant (fun s => s.handler.Inv streamID s.finished s.finished)
    (FecHandler.new_inv streamID) ?_ h
  intro s a s' hinv hok hs
  cases a with
  | frame offset =>
    simp only [step, Except.ok.injEq] at hs
    subst hs
    exact hinv.getOrCreate offset
  | finish id =>
    simp only [step] at hs
    cases hb : s.handler.buffers[id]? with
    | none => simp [hb] at hs
    | some b =>
      obtain ⟨f, hf, _, hbuf, hfin⟩ := hinv.update hb hok
      simp only [hb, hf, Except.ok.injEq] at hs
      subst hs
      exact hfin.delete (by rw [hbuf, hb]) (by simp)

/- `nextBlockOffset` is the end of the finished blocks without a gap, `alreadyDecQueue` has those beyond
it, `decQueue` the blocks that are not finished; a frame of a finished block gets no buffer, and no
other buffer makes `decode` panic. -/
theorem window_of_blocks (streamID : ℕ) {as : List Label} {s : Blocks}
    (h : Run (step streamID) Once init as s) :
    (∃ m, s.handler.nextBlockOffset = srcBlockSize * m ∧
      (∀ i < m, i ∈ s.finishedBlocks) ∧ m ∉ s.finishedBlocks ∧
      ∀ k d, (k, d) ∈ s.handler.alreadyDecQueue ↔
        ∃ i, m < i ∧ i ∈ s.finishedBlocks ∧ k = srcBlockSize * i ∧ d = blockAt streamID i) ∧
    (∀ k id, (k, id) ∈ s.handler.decQueue → id ∉ s.finished ∧
      ∃ b i, s.handler.buffers[id]? = some b ∧ b.IsFor streamID i ∧ k = srcBlockSize * i ∧
        i ∉ s.finishedBlocks) ∧
    s.handler.decQueue.Pairwise
      (fun e e' => e.1 + srcBlockSize ≤ e'.1 ∨ e'.1 + srcBlockSize ≤ e.1) ∧
    (∀ offset, offset / srcBlockSize ∈ s.finishedBlocks →
      s.handler.getOrCreateFecBuffer streamID offset = (s.handler, none)) ∧
    ∀ id b, s.handler.buffers[id]? = some b → id ∉ s.finished →
      s.handler.updateWindow b ≠ .error .panic := by
  have hinv := inv_of_run h
  refine ⟨?_, ?_, hinv.decQueue_disjoint, ?_, ?_⟩
  · obtain ⟨m, hw⟩ := hinv.window
    refine ⟨m, hw.next, hw.below, hw.gap, ?_⟩
    intro k d
    rw [hw.ahead]
    constructor
    · rintro ⟨i, hi, hf, hk, hd⟩
      have : i ≠ m := fun he => hw.gap (he ▸ hf)
      exact ⟨i, by omega, hf, hk, hd⟩
    · rintro ⟨i, hi, hf, hk, hd⟩
      exact ⟨i, hi.le, hf, hk, hd⟩
  · intro k id he
    obtain ⟨hrem, b, hb, hk⟩ := (hinv.waiting k id).mp he
    obtain ⟨i, hi⟩ := hinv.made id b hb
    exact ⟨hrem, b, i, hb, hi, by rw [hk, hi.start], hinv.not_mem_blocksOf hb hi hrem⟩
  · intro offset hfin
    exact hinv.getOrCreate_removed hfin
  · intro id b hb hid hpanic
    obtain ⟨f, hf, _⟩ := hinv.update hb hid
    rw [hf] at hpanic
    cases hpanic

theorem window_of_blocks_out_of_order : ∃ s : Blocks,
    Run (step 4) Once init
      [.frame 0, .frame 17000, .finish 1, .frame 40000, .finish 0, .frame 16384] s ∧
    s.handler.nextBlockOffset = 2 * srcBlockSize ∧
    s.handler.getOrCreateFecBuffer 4 17000 = (s.handler, none) := by
  have hrun : Run (step 4) Once init
      [.frame 0, .frame 17000, .finish 1, .frame 40000, .finish 0, .frame 16384] _ :=
    Run.of_exec _ (by decide +kernel) rfl
  refine ⟨_, hrun, by decide +kernel, ?_⟩
  exact (window_of_blocks 4 hrun).2.2.2.1 17000 (by decide +kernel)

end Blocks

end Mp2bs.Fec
