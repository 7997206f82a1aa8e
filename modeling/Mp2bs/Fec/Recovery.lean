import Mp2bs.Fec.Decode

/-!
# What the decoder makes of the received symbols

`raptor_decoding2` reads 17 rows whatever was received; the rows behind the received symbols are
padding: symbol 0 with zeros for data.
-/

namespace Mp2bs.Fec
open Mp2bs.Lib Mp2bs.Lib.Slice Mp2bs.Lib.Gf2 Mp2bs.Raptor

theorem raptor_valid : raptor.Valid ∧ raptor.K = numSrcSymbols ∧ raptor.N = 17 ∧ raptor.M = 29 :=
  raptorInitialization_valid raptor_eq

/-! ### The symbols of a block -/

def blockSymbols (block : Bytes) : List (Symbol symbolSize) :=
  (List.range numSrcSymbols).map (symbolAt block)

def encoded (block : Bytes) (i : ℕ) : Bytes :=
  ((raptor.raptorEncoder2 (blockSymbols block) numEncSymbols).getD i 0).entries

theorem encoded_length (block : Bytes) (i : ℕ) : (encoded block i).length = symbolSize :=
  XorArray.length_eq _

theorem length_blockSymbols (block : Bytes) : (blockSymbols block).length = raptor.K := by
  rw [raptor_valid.2.1, blockSymbols, List.length_map, List.length_range]

theorem toSymbol_entries (a : Symbol symbolSize) : toSymbol a.entries = a :=
  XorArray.ext_get fun _ hi => XorArray.get_ofFn _ hi

theorem entries_toSymbol {data : Bytes} (h : data.length = symbolSize) :
    (toSymbol data).entries = data :=
  congrArg XorArray.entries (toSymbol_entries ⟨data, h⟩)

variable {i k : ℕ} {block stream : Bytes}

theorem toSymbol_encoded (block : Bytes) (hi : i < numEncSymbols) :
    toSymbol (encoded block i) = dot raptor.K (raptor.coefficients (raptor.tripleOf i)).get
      (value (raptor.intermediate (blockSymbols block))) := by
  rw [encoded, toSymbol_entries, List.getD_eq_getElem?_getD,
    RaptorParams.raptorEncoder2_getElem? raptor_valid.1 _ hi, Option.getD_some]

theorem encoded_source (hi : i < numSrcSymbols) (hlen : symbolSize * (i + 1) ≤ block.length) :
    encoded block i = chunk symbolSize block i := by
  have hnum : i < numEncSymbols := by
    simp only [numSrcSymbols, numEncSymbols] at *
    omega
  have hchunk : (chunk symbolSize block i).length = symbolSize := by
    rw [chunk_length]
    rw [Nat.mul_succ] at hlen
    omega
  rw [encoded, List.getD_eq_getElem?_getD, RaptorParams.raptorEncoder2_source raptor_valid.1 _ hnum
    (by rw [raptor_valid.2.1]; exact hi), Option.getD_some, value, blockSymbols,
    List.getD_eq_getElem?_getD, List.getElem?_map, List.getElem?_range hi]
  exact entries_toSymbol hchunk

theorem chunk_raptorEncode (block : Bytes) {r : ℕ} (hr : r < numRedSymbols) :
    chunk symbolSize (raptorEncode block) r = encoded block (numSrcSymbols + r) := by
  have h := window_flatMap (fun i => encoded_length block (numSrcSymbols + i)) []
    (List.getElem?_range hr)
  rw [List.append_nil] at h
  exact h

theorem flatMap_blockSymbols (hlen : block.length = srcBlockSize) :
    (List.range numSrcSymbols).flatMap (fun i => ((blockSymbols block).getD i 0).entries) =
      block := by
  have hall := take_eq_flatMap_chunk symbolSize block numSrcSymbols
  rw [List.take_of_length_le (show block.length ≤ symbolSize * numSrcSymbols from hlen.le)] at hall
  conv_rhs => rw [hall]
  refine List.flatMap_congr ?_
  intro i hi
  have hi' := List.mem_range.mp hi
  have hchunk : (chunk symbolSize block i).length = symbolSize := by
    rw [chunk_length, hlen]
    simp only [srcBlockSize, symbolSize, numSrcSymbols] at *
    omega
  rw [blockSymbols, List.getD_eq_getElem?_getD, List.getElem?_map, List.getElem?_range hi']
  exact entries_toSymbol hchunk

/-! ### The rows of the decoder -/

section
variable (block : Bytes) (l : List ℕ)

theorem compacted_symbolMap (sym : ℕ → Bytes) (i : ℕ) :
    (compacted sym l numEncSymbols).symbolMap.getD i 0 =
      (present l numEncSymbols).getD i 0 := by
  simp only [compacted, List.getD_eq_getElem?_getD, List.getElem?_append]
  by_cases hi : i < (present l numEncSymbols).length
  · rw [if_pos hi]
  · rw [if_neg hi, List.getElem?_eq_none (not_lt.mp hi), List.getElem?_replicate]
    split <;> rfl

theorem compacted_row {i : ℕ} (hi : i < (present l numEncSymbols).length) :
    symbolAt (compacted (encoded block) l numEncSymbols).encBlock i =
      dot raptor.K (raptor.coefficients (raptor.tripleOf
        ((compacted (encoded block) l numEncSymbols).symbolMap.getD i 0))).get
        (value (raptor.intermediate (blockSymbols block))) := by
  have hk := List.getElem?_eq_getElem hi
  have hlt := (mem_present.mp (List.getElem_mem hi)).1
  rw [compacted_symbolMap, List.getD_eq_getElem?_getD, hk, Option.getD_some,
    ← toSymbol_encoded block hlt]
  exact congrArg toSymbol (window_flatMap (encoded_length block) _ hk)

theorem getD_rows (data : Bytes) {i : ℕ} (hi : i < raptor.N) :
    ((List.range raptor.N).map (symbolAt data)).getD i 0 = symbolAt data i := by
  rw [List.getD_eq_getElem?_getD, List.getElem?_map, List.getElem?_range hi]
  rfl

theorem present_head (h : 0 ∈ l) : (present l numEncSymbols).getD 0 0 = 0 := by
  have hin : 0 ∈ present l numEncSymbols := mem_present.mpr ⟨by decide, h⟩
  have hinc := present_increasing l numEncSymbols
  cases hp : present l numEncSymbols with
  | nil => rfl
  | cons a rest =>
    rw [hp] at hin hinc
    rcases List.mem_cons.mp hin with rfl | hin
    · rfl
    · have := List.rel_of_pairwise_cons hinc hin
      omega

theorem raptorDecode_of_received
    (h : 0 ∈ l ∨ (present l numEncSymbols).length ≤ 14 ∨ 17 ≤ (present l numEncSymbols).length) :
    let out := compacted (encoded block) l numEncSymbols
    raptorDecode out.encBlock out.symbolMap = none ∨
      16 ≤ (present l numEncSymbols).length ∧ raptorDecode out.encBlock out.symbolMap =
        some ((List.range numSrcSymbols).flatMap
          fun i => ((blockSymbols block).getD i 0).entries) := by
  intro out
  obtain ⟨hv, hK, hN, _⟩ := raptor_valid
  have hK' : raptor.K = 16 := hK
  have hsource := length_blockSymbols block
  have hmap := compacted_symbolMap l (encoded block)
  unfold raptorDecode
  dsimp only
  by_cases h17 : 17 ≤ (present l numEncSymbols).length
  · have hrows : ∀ i < raptor.N, ((List.range raptor.N).map (symbolAt out.encBlock)).getD i 0 =
        dot raptor.K (raptor.coefficients (raptor.tripleOf (out.symbolMap.getD i 0))).get
          (value (raptor.intermediate (blockSymbols block))) := by
      intro i hi
      rw [getD_rows _ hi]
      exact compacted_row block l (by omega)
    rcases RaptorParams.raptorDecoder_of_encoded hv (by omega) hsource hrows with hnone | hsome
    · exact Or.inl (by rw [hnone, Option.map_none])
    · exact Or.inr ⟨by omega, by rw [hsome, Option.map_some]⟩
  · by_cases h16 : (present l numEncSymbols).length = 16
    · -- the one row of padding repeats the number of symbol 0
      have hzero : 0 ∈ l := by
        rcases h with h | h | h
        · exact h
        · omega
        · omega
      have hrows : ∀ i < 16, ((List.range raptor.N).map (symbolAt out.encBlock)).getD i 0 =
          dot raptor.K (raptor.coefficients (raptor.tripleOf (out.symbolMap.getD i 0))).get
            (value (raptor.intermediate (blockSymbols block))) := by
        intro i hi
        rw [getD_rows _ (by omega)]
        exact compacted_row block l (by omega)
      have hrep : out.symbolMap.getD 16 0 = out.symbolMap.getD 0 0 := by
        rw [hmap, hmap, present_head l hzero, List.getD_eq_getElem?_getD,
          List.getElem?_eq_none (by omega)]
        rfl
      rcases RaptorParams.raptorDecoder_of_repeated hv hN (by omega) hsource hrows
        (show 0 < 16 by omega) hrep with hnone | hsome
      · exact Or.inl (by rw [hnone, Option.map_none])
      · exact Or.inr ⟨by omega, by rw [hsome, Option.map_some]⟩
    · left
      have hcard : (insert 0 (present l numEncSymbols).toFinset).card < raptor.K := by
        have hle := List.toFinset_card_le (present l numEncSymbols)
        by_cases hzero : 0 ∈ l
        · rw [Finset.insert_eq_of_mem (List.mem_toFinset.mpr (mem_present.mpr ⟨by decide, hzero⟩))]
          omega
        · have := Finset.card_insert_le 0 (present l numEncSymbols).toFinset
          rcases h with h | h | h
          · exact absurd h hzero
          · omega
          · omega
      rw [RaptorParams.raptorDecoder_eq_none_of_few hv (by omega) _ ?_ hcard, Option.map_none]
      intro i _
      rw [hmap, List.getD_eq_getElem?_getD]
      cases hi : (present l numEncSymbols)[i]? with
      | none => exact Finset.mem_insert_self 0 _
      | some a =>
        exact Finset.mem_insert_of_mem (List.mem_toFinset.mpr (List.mem_of_getElem? hi))

end

/-! ### The frames of the lost symbols -/

theorem lostSymbols_lt (packetNumber : ℕ → ℕ) (symbolMap : List ℕ) (turns : ℕ)
    {nextIdx prevPacketNumber prevIdx : ℕ} {e : ℕ × ℕ}
    (he : e ∈ lostSymbols packetNumber symbolMap turns i nextIdx prevPacketNumber prevIdx) :
    e.1 < numSrcSymbols := by
  induction turns generalizing i nextIdx prevPacketNumber prevIdx with
  | zero => cases he
  | succ turns ih =>
    rw [lostSymbols] at he
    split at he
    next =>
      rcases List.mem_append.mp he with he | he
      · obtain ⟨j, hj, rfl⟩ := List.mem_map.mp he
        obtain ⟨hij, hlt⟩ := List.mem_range'_1.mp hj
        dsimp only
        omega
      · exact ih he
    next => exact ih he

def StreamFrame.Right (stream : Bytes) (frame : StreamFrame) : Prop :=
  frame.offset + symbolSize ≤ stream.length ∧ frame.data = window stream frame.offset symbolSize

instance (stream : Bytes) (frame : StreamFrame) : Decidable (frame.Right stream) :=
  inferInstanceAs (Decidable (_ ∧ _))

def Sent (stream : Bytes) (k i : ℕ) : Prop :=
  if i < numSrcSymbols then srcBlockSize * k + symbolSize * (i + 1) ≤ stream.length
  else srcBlockSize * (k + 1) ≤ stream.length

theorem full_of_sent (hi : 15 ≤ i) (h : Sent stream k i) :
    srcBlockSize * (k + 1) ≤ stream.length := by
  unfold Sent at h
  split at h
  next hlt =>
    have : i = 15 := by
      simp only [numSrcSymbols] at hlt
      omega
    subst this
    simp only [srcBlockSize, symbolSize, numSrcSymbols] at *
    omega
  next => exact h

theorem recoveredFrames_right {b : FecBuffer} (hfor : b.startStreamOffset = srcBlockSize * k)
    (hfull : srcBlockSize * (k + 1) ≤ stream.length) (symbolMap : List ℕ) :
    ∀ frame ∈ b.recoveredFrames (chunk srcBlockSize stream k) symbolMap,
      frame.1.Right stream := by
  intro frame hframe
  obtain ⟨⟨j, packetNumber⟩, he, rfl⟩ := List.mem_map.mp hframe
  have hj : j < numSrcSymbols := lostSymbols_lt _ _ _ he
  have hend : symbolSize * j + symbolSize ≤ srcBlockSize := by
    simp only [srcBlockSize, symbolSize, numSrcSymbols] at *
    omega
  have hmul : j * symbolSize = symbolSize * j := Nat.mul_comm _ _
  constructor
  · show b.startStreamOffset + j * symbolSize + symbolSize ≤ stream.length
    rw [hfor, hmul]
    rw [Nat.mul_succ] at hfull
    omega
  · show window (chunk srcBlockSize stream k) (j * symbolSize) symbolSize =
      window stream (b.startStreamOffset + j * symbolSize) symbolSize
    rw [hfor, hmul, chunk, window_window]
    congr 1
    omega

namespace FecBuffer

structure Receives (stream : Bytes) (k : ℕ) (b : FecBuffer) : Prop where
  start : b.startStreamOffset = srcBlockSize * k
  holds : ∃ n streamIds fecIds,
    b.Holds (encoded (chunk srcBlockSize stream k)) n streamIds fecIds ∧
    (∀ i ∈ List.range n ++ streamIds ++ fecIds, i < numEncSymbols ∧ Sent stream k i) ∧
    b.streamFrameDataLength + b.fecFrameDataLength =
      symbolSize * (List.range n ++ streamIds ++ fecIds).length

/- Symbol 0 was received, or the number of symbols is not 15 or 16. -/
def Decodable (b : FecBuffer) : Prop :=
  b.startStreamOffset < b.nextFrameOffset ∨
    b.streamFrameDataLength + b.fecFrameDataLength ≤ symbolSize * 14 ∨
    symbolSize * 17 ≤ b.streamFrameDataLength + b.fecFrameDataLength

instance (b : FecBuffer) : Decidable b.Decodable := inferInstanceAs (Decidable (_ ∨ _))

theorem present_length_of_nodup {l : List ℕ} (hnd : l.Nodup) (hlt : ∀ i ∈ l, i < numEncSymbols) :
    (present l numEncSymbols).length = l.length := by
  have hperm : (present l numEncSymbols).Perm l := by
    refine (List.perm_ext_iff_of_nodup (present_nodup _ _) hnd).mpr ?_
    intro i
    rw [mem_present]
    exact ⟨fun h => h.2, fun h => ⟨hlt i h, h⟩⟩
  exact hperm.length_eq

variable {stream : Bytes} {k : ℕ} {b : FecBuffer} {p : Push}

theorem Receives.decodeBlock (h : b.Receives stream k) (hd : b.Decodable) :
    ∃ b' frames, b.decodeBlock = .ok (b', frames) ∧ ∀ frame ∈ frames, frame.1.Right stream := by
  obtain ⟨n, sids, fids, hh, hsent, hlen⟩ := h.holds
  have hcount := present_length_of_nodup hh.nodup (fun i hi => (hsent i hi).1)
  obtain ⟨encBlock, _, hget⟩ := hh.getEncodeBlock_eq (encoded_length _)
  have hcond : 0 ∈ List.range n ++ sids ++ fids ∨
      (present (List.range n ++ sids ++ fids) numEncSymbols).length ≤ 14 ∨
      17 ≤ (present (List.range n ++ sids ++ fids) numEncSymbols).length := by
    rw [hcount]
    rcases hd with hfirst | hfew | hmany
    · left
      rw [hh.next] at hfirst
      refine List.mem_append_left _ (List.mem_append_left _ (List.mem_range.mpr ?_))
      by_contra hz
      obtain rfl : n = 0 := by omega
      omega
    · rw [hlen] at hfew
      exact Or.inr (Or.inl (Nat.le_of_mul_le_mul_left hfew (by decide)))
    · rw [hlen] at hmany
      exact Or.inr (Or.inr (Nat.le_of_mul_le_mul_left hmany (by decide)))
  rw [decodeBlock_of_get hget]
  rcases raptorDecode_of_received (chunk srcBlockSize stream k) _ hcond with hnone | ⟨h16, hsome⟩
  · rw [hnone]
    exact ⟨_, _, rfl, fun frame hf => (List.not_mem_nil hf).elim⟩
  · -- 16 different symbols: one of them is the last one of the block or a redundant one
    have hlast : ∃ i ∈ List.range n ++ sids ++ fids, 15 ≤ i := by
      by_contra hno
      push Not at hno
      have hsub : (List.range n ++ sids ++ fids) ⊆ List.range 15 := by
        intro i hi
        exact List.mem_range.mpr (hno i hi)
      have := (List.subperm_of_subset hh.nodup hsub).length_le
      rw [List.length_range] at this
      omega
    obtain ⟨i, hi, h15⟩ := hlast
    have hfull := full_of_sent h15 (hsent i hi).2
    have hblock : (chunk srcBlockSize stream k).length = srcBlockSize := by
      rw [chunk_length]
      rw [Nat.mul_succ] at hfull
      omega
    rw [hsome, flatMap_blockSymbols hblock]
    exact ⟨_, _, rfl, recoveredFrames_right h.start hfull _⟩

/-! ### What a push adds -/

section
variable {α : Type} {offset : α → ℕ} {data : α → Bytes} {b : FecBuffer} {queue : List α} {frame : α}

theorem place_none_iff : b.place offset data queue frame = .ok none ↔
    offset frame < b.nextFrameOffset ∧ offset frame + (data frame).length ≤ b.nextFrameOffset := by
  constructor
  · intro h
    by_contra hno
    unfold FecBuffer.place at h
    dsimp only at h
    rw [if_neg hno] at h
    split at h
    next =>
      split at h
      next => cases h
      next =>
        split at h
        next => cases h
        next => cases h
    next =>
      split at h
      next =>
        split at h
        next => cases h
        next => cases h
      next =>
        split at h
        next => cases h
        next => cases h
  · intro h
    unfold FecBuffer.place
    dsimp only
    rw [if_pos h]

end

def begins (b : FecBuffer) : Push → ℕ
  | .stream frame _ => frame.offset
  | .fec frame => b.fecStart frame

def payload : Push → Bytes
  | .stream frame _ => frame.data
  | .fec frame => frame.fecData

theorem push_length {b' : FecBuffer} (h : b.push p = .ok b') :
    b.begins p < b.nextFrameOffset ∧ b.begins p + (payload p).length ≤ b.nextFrameOffset ∧ b' = b ∨
    ¬(b.begins p < b.nextFrameOffset ∧ b.begins p + (payload p).length ≤ b.nextFrameOffset) ∧
      b'.streamFrameDataLength + b'.fecFrameDataLength =
        b.streamFrameDataLength + b.fecFrameDataLength + (payload p).length := by
  cases p with
  | stream frame packetNumber =>
    simp only [FecBuffer.push, pushStreamFrame] at h
    split at h
    next => cases h
    next hplace =>
      cases h
      obtain ⟨h₁, h₂⟩ := place_none_iff.mp hplace
      exact Or.inl ⟨h₁, h₂, rfl⟩
    next placed hplace =>
      cases h
      refine Or.inr ⟨?_, ?_⟩
      · intro hcond
        have hnone : b.place (·.offset) (·.data) b.oobStreamFrameQueue frame = .ok none :=
          place_none_iff.mpr hcond
        rw [hnone] at hplace
        cases hplace
      · show b.streamFrameDataLength + frame.data.length + b.fecFrameDataLength = _
        simp only [payload]
        omega
  | fec frame =>
    simp only [FecBuffer.push, pushFecFrame] at h
    split at h
    next => cases h
    next hplace =>
      cases h
      obtain ⟨h₁, h₂⟩ := place_none_iff.mp hplace
      exact Or.inl ⟨h₁, h₂, rfl⟩
    next placed hplace =>
      cases h
      refine Or.inr ⟨?_, ?_⟩
      · intro hcond
        have hnone : b.place b.fecStart (·.fecData) b.oobFecFrameQueue frame = .ok none :=
          place_none_iff.mpr hcond
        rw [hnone] at hplace
        cases hplace
      · show b.streamFrameDataLength + (b.fecFrameDataLength + frame.fecData.length) = _
        simp only [payload]
        omega

section
variable {sym : ℕ → Bytes} {n i : ℕ} {streamIds fecIds : List ℕ} {b : FecBuffer} {p : Push}

theorem Holds.begins_eq (h : b.Holds sym n streamIds fecIds)
    (hc : p.Carries b.startStreamOffset sym i) :
    i < numEncSymbols ∧ b.begins p = b.startStreamOffset + symbolSize * i ∧ payload p = sym i := by
  cases p with
  | stream frame packetNumber => exact Holds.carries_stream hc
  | fec frame => exact h.carries_fec hc

theorem Holds.lt_of_fits (h : b.Holds sym n streamIds fecIds)
    (hc : p.Carries b.startStreamOffset sym i) (hfit : b.Fits p)
    (hin : i ∈ List.range n ++ streamIds ++ fecIds) : i < n := by
  rcases List.mem_append.mp hin with hin | hin
  · rcases List.mem_append.mp hin with hin | hin
    · exact List.mem_range.mp hin
    · cases p with
      | stream frame packetNumber =>
        obtain ⟨f, hf, hcf⟩ := h.stream.mem hin
        exact absurd (hcf.2.1.trans hc.2.1.symm) (hfit.1 f hf)
      | fec frame =>
        have := (h.streamIds_lt i hin).2
        have := hc.1
        omega
  · cases p with
    | stream frame packetNumber =>
      have := (h.fecIds_ge i hin).2
      have := hc.1
      omega
    | fec frame =>
      obtain ⟨f, hf, hcf⟩ := h.fec.mem hin
      exact absurd (hcf.2.1.trans (h.carries_fec hc).2.1.symm) (hfit.1 f hf)

end

theorem Receives.push {i : ℕ} (h : b.Receives stream k)
    (hc : p.Carries b.startStreamOffset (encoded (chunk srcBlockSize stream k)) i)
    (hsent : Sent stream k i) (hfit : b.Fits p) :
    ∃ b', b.push p = .ok b' ∧ b'.Receives stream k := by
  obtain ⟨n, sids, fids, hh, hall, hlen⟩ := h.holds
  obtain ⟨b', n', sids', fids', hpush, hstart, hh', hadd⟩ := hh.push (encoded_length _) hc hfit
  obtain ⟨hi, hbegins, hpay⟩ := hh.begins_eq hc
  refine ⟨b', hpush, hstart.trans h.start, n', sids', fids', hh', ?_, ?_⟩
  · intro j hj
    rcases (hadd j).mp hj with rfl | hj
    · exact ⟨hi, hsent⟩
    · exact hall j hj
  · have hsize : (payload p).length = symbolSize := by rw [hpay, encoded_length]
    have hcond : (b.begins p < b.nextFrameOffset ∧
        b.begins p + (payload p).length ≤ b.nextFrameOffset) ↔ i < n := by
      rw [hbegins, hsize, hh.next]
      simp only [symbolSize]
      omega
    rcases push_length hpush with ⟨h₁, h₂, rfl⟩ | ⟨hno, hcount⟩
    · have hin : i ∈ List.range n ++ sids ++ fids :=
        List.mem_append_left _ (List.mem_append_left _
          (List.mem_range.mpr (hcond.mp ⟨h₁, h₂⟩)))
      have hperm : (List.range n' ++ sids' ++ fids').Perm (List.range n ++ sids ++ fids) := by
        refine (List.perm_ext_iff_of_nodup hh'.nodup hh.nodup).mpr ?_
        intro j
        rw [hadd]
        exact ⟨fun hj => hj.elim (fun he => he ▸ hin) fun hj => hj, Or.inr⟩
      rw [hlen, hperm.length_eq]
    · have hnew : i ∉ List.range n ++ sids ++ fids :=
        fun hin => hno (hcond.mpr (hh.lt_of_fits hc hfit hin))
      have hperm : (List.range n' ++ sids' ++ fids').Perm
          (i :: (List.range n ++ sids ++ fids)) := by
        refine (List.perm_ext_iff_of_nodup hh'.nodup (List.nodup_cons.mpr ⟨hnew, hh.nodup⟩)).mpr ?_
        intro j
        rw [hadd, List.mem_cons]
      rw [hcount, hlen, hsize, hperm.length_eq, List.length_cons, Nat.mul_succ]

theorem init_receives (streamID : ℕ) (stream : Bytes) (k : ℕ) :
    (init streamID (srcBlockSize * k)).Receives stream k :=
  ⟨rfl, 0, [], [], init_holds _ _ _, fun _ hi => (List.not_mem_nil hi).elim, rfl⟩

end FecBuffer

end Mp2bs.Fec
