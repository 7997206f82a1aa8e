import Mp2bs.Block.Serving
import Mp2bs.Mp2session.Owners

/-!
# How the owners of a block share a segment in FEC mode

`sendFecBlockRequest` sends every owner the same range of data numbers with a byte `FecIndex`, ten times
the number of owners plus the owner's place in the loop (`mp2session.go:526-535`). `sendBlockData` takes
the two apart by division and sends the data numbers with the residue of its place (543-569).
-/

namespace Mp2bs.Mp2session.FecSplit
open Mp2bs.Lib.Machine Mp2bs.Lib.Wire
open Mp2bs.Mp2session.Owners
open Mp2bs.Block (SendView SendJob numData payloadSize segmentSize lt_numData_iff numData_pos
  dataPacket startSendBlockData)

/-- The request for the owner that the loop over `n` owners comes to after `i` others. -/
def request (job : Job) (n i : ℕ) : BlockRequestPacket :=
  let job := { job with numPeers := n }
  job.fecRequest (job.firstFecIdx + UInt32.ofNat i)

/-- The arguments of `sendBlockData` for a packet (`mp2session.go:287`). -/
def received (p : BlockRequestPacket) : Block.BlockRequestPacket :=
  ⟨p.blockNumber.toNat, p.startDataNumber.toNat, p.endDataNumber.toNat, p.fecIndex.toNat⟩

structure Owner where
  sessionID : ℕ
  stopSendCond : ℕ
  lastRecvBytes : Option ℕ
  firstSegment : Bool
  deriving Repr, DecidableEq

def Owner.view (o : Owner) (sendBuffer : Bytes) : SendView :=
  ⟨true, sendBuffer, o.stopSendCond, o.lastRecvBytes, o.firstSegment⟩

def Owner.Open (o : Owner) : Prop := (o.view []).Open

/-- The owner reads the bytes of its request, and `sendBlockData` returns after these packets. -/
def Owner.Answers (o : Owner) (job : Job) (n i : ℕ) (sendBuffer : Bytes)
    (ps : List Block.BlockDataPacket) : Prop :=
  ∃ p, parseBlockRequestPacket (request job n i).write = some p ∧
    SendJob.Finishes (o.view sendBuffer) (startSendBlockData o.sessionID (received p)) ps

def Sends (owners : List Owner) (job : Job) (buffers : ℕ → Bytes) (i d : ℕ) : Prop :=
  ∃ (o : Owner) (ps : List Block.BlockDataPacket), owners[i]? = some o ∧
    o.Answers job owners.length i (buffers i) ps ∧ d ∈ ps.map (·.dataNumber)

/-- Every owner's call returns, and every data number of the range is sent by one owner. -/
structure Shared (owners : List Owner) (job : Job) (buffers : ℕ → Bytes) : Prop where
  returns : ∀ i (o : Owner), owners[i]? = some o → ∃ ps, o.Answers job owners.length i (buffers i) ps
  once : ∀ d, job.startDataNumber.toNat ≤ d → d ≤ job.endDataNumber.toNat →
    ∃! i, Sends owners job buffers i d

structure IsSegment (owners : List Owner) (job : Job) (buffers : ℕ → Bytes) : Prop where
  offset_lt : job.offset < job.blockSize
  holds : ∀ i < owners.length, job.blockSize.toNat ≤ (buffers i).length
  buffer_lt : ∀ i < owners.length, (buffers i).length < 2 ^ 32

/-- The last packet of the range ends below `2^32` bytes. -/
def NoWrap (job : Job) : Prop := payloadSize * job.endDataNumber.toNat + payloadSize < 2 ^ 32

def Splits (owners : List Owner) : Prop :=
  ∀ job buffers, IsSegment owners job buffers → NoWrap job → Shared owners job buffers

variable {o : Owner} {job : Job} {k i n : ℕ} {owners : List Owner}

theorem Owner.Open.view (h : o.Open) (sendBuffer : Bytes) : (o.view sendBuffer).Open := h

/-! ### The requests -/

theorem parse_write (p : BlockRequestPacket) : parseBlockRequestPacket p.write = some p := by
  simp [parseBlockRequestPacket, BlockRequestPacket.write]

/-- What a run of the loop over the owners sends: the requests above. -/
theorem exec_ask (job : Job) (j : ℕ) (ids : List UInt32) (hnd : ids.Nodup) {n : Node}
    {fecIdx : UInt32} {left : List UInt32}
    (hj : n.jobs[j]? = some { job with pc := .asking fecIdx left }) (hsub : ids ⊆ left)
    (hhas : ∀ id ∈ ids, n.blockOwners.lookup id = some .hasBlock) :
    ∃ n', exec (Node.step true) n (ids.map (.ask j)) = .ok n' ∧
      n'.requests = n.requests ++
        ids.mapIdx fun i id => (id, job.fecRequest (fecIdx + UInt32.ofNat i)) := by
  induction ids generalizing n fecIdx left with
  | nil => exact ⟨n, rfl, by simp⟩
  | cons id ids ih =>
    have hid : id ∈ left := hsub (List.mem_cons_self ..)
    obtain ⟨hnot, hnd⟩ := List.nodup_cons.mp hnd
    have hstep : Node.step true n (.ask j id) = .ok { n.setJob j { job with
        pc := .asking (fecIdx + 1) (left.erase id) } with
        requests := n.requests ++ [(id, job.fecRequest fecIdx)] } := by
      simp only [Node.step, Node.onJob, hj]
      rw [if_pos hid, if_pos (hhas id (List.mem_cons_self ..))]
      rfl
    have hlt : j < n.jobs.length := (List.getElem?_eq_some_iff.mp hj).1
    have hsub' : ids ⊆ left.erase id := by
      intro k hk
      have hne : k ≠ id := by
        rintro rfl
        exact hnot hk
      exact (List.mem_erase_of_ne hne).mpr (hsub (List.mem_cons_of_mem _ hk))
    have hj' : { n.setJob j { job with pc := .asking (fecIdx + 1) (left.erase id) } with
        requests := n.requests ++ [(id, job.fecRequest fecIdx)] }.jobs[j]? =
        some { job with pc := .asking (fecIdx + 1) (left.erase id) } := by
      simp [Node.setJob, hlt]
    obtain ⟨n', hexec, hreq⟩ := ih hnd hj' hsub' fun k hk => hhas k (List.mem_cons_of_mem _ hk)
    refine ⟨n', ?_, ?_⟩
    · simp only [List.map_cons, exec, hstep]
      exact hexec
    · rw [hreq, List.mapIdx_cons, List.append_assoc]
      have hidx : ∀ i : ℕ, fecIdx + UInt32.ofNat (i + 1) = fecIdx + 1 + UInt32.ofNat i := by
        intro i
        rw [UInt32.ofNat_add, UInt32.add_assoc, UInt32.add_comm 1]
        rfl
      simp only [hidx]
      simp

theorem fecIndex_request (job : Job) (n i : ℕ) :
    (received (request job n i)).fecIndex = (n * 10 + i) % 256 := by
  simp [received, request, Job.fecRequest, Job.firstFecIdx, createBlockRequestPacket]

theorem range_eq (h : job.offset < job.blockSize) :
    job.startDataNumber.toNat ≤ job.endDataNumber.toNat ∧
      payloadSize * job.endDataNumber.toNat < job.blockSize.toNat := by
  have hlt : job.offset.toNat < job.blockSize.toNat := UInt32.lt_iff_toNat_lt.mp h
  have hbs := job.blockSize.toNat_lt
  have hsub : (job.blockSize - job.offset).toNat = job.blockSize.toNat - job.offset.toNat :=
    UInt32.toNat_sub_of_le _ _ (UInt32.le_iff_toNat_le.mpr hlt.le)
  have hsize : 0 < job.size.toNat ∧ job.size.toNat ≤ segmentSize ∧
      job.size.toNat ≤ job.blockSize.toNat - job.offset.toNat := by
    simp only [Job.size]
    split
    case isTrue hle =>
      rw [UInt32.le_iff_toNat_le, hsub] at hle
      have hseg : (UInt32.ofNat segmentSize).toNat = segmentSize := rfl
      rw [hseg] at hle ⊢
      exact ⟨by decide, le_refl _, hle⟩
    case isFalse hnle =>
      rw [UInt32.le_iff_toNat_le, hsub] at hnle
      have hseg : (UInt32.ofNat segmentSize).toNat = segmentSize := rfl
      rw [hseg] at hnle
      rw [hsub]
      omega
  have hstart : job.startDataNumber.toNat = job.offset.toNat / payloadSize := by
    simp only [Job.startDataNumber, UInt32.toNat_div]
    rfl
  have hnum : 0 < numData job.size.toNat := numData_pos hsize.1
  have hend : job.endDataNumber.toNat =
      job.offset.toNat / payloadSize + numData job.size.toNat - 1 := by
    have hof : (UInt32.ofNat (numData job.size.toNat)).toNat = numData job.size.toNat :=
      UInt32.toNat_ofNat_of_lt (by simp only [numData, payloadSize, segmentSize, UInt32.size] at hsize ⊢; omega)
    have hadd : (job.startDataNumber + UInt32.ofNat (numData job.size.toNat)).toNat =
        job.offset.toNat / payloadSize + numData job.size.toNat := by
      rw [UInt32.toNat_add, hstart, hof]
      apply Nat.mod_eq_of_lt
      simp only [numData, payloadSize, segmentSize] at hsize ⊢
      omega
    have hone : (1 : UInt32) ≤ job.startDataNumber + UInt32.ofNat (numData job.size.toNat) := by
      rw [UInt32.le_iff_toNat_le, hadd]
      have h1 : (1 : UInt32).toNat = 1 := rfl
      omega
    rw [Job.endDataNumber, UInt32.toNat_sub_of_le _ _ hone, hadd]
    rfl
  rw [hstart, hend]
  simp only [numData, payloadSize] at hnum ⊢
  omega

section
variable {owners : List Owner} {job : Job} {buffers : ℕ → Bytes} {i d : ℕ} {o : Owner}

theorem IsSegment.fits (h : IsSegment owners job buffers) (hi : owners[i]? = some o) (n : ℕ) :
    SendJob.Fits (buffers i) (startSendBlockData o.sessionID (received (request job n i))) := by
  have hlt : i < owners.length := (List.getElem?_eq_some_iff.mp hi).1
  have hrange := (range_eq h.offset_lt).2
  have hholds := h.holds i hlt
  refine ⟨h.buffer_lt i hlt, (lt_numData_iff _ _).mpr ?_⟩
  show payloadSize * job.endDataNumber.toNat < _
  omega

theorem answers_iff {n : ℕ} {b : Bytes} {ps : List Block.BlockDataPacket} :
    o.Answers job n i b ps ↔
      SendJob.Finishes (o.view b) (startSendBlockData o.sessionID (received (request job n i)))
        ps := by
  simp [Owner.Answers, parse_write]

theorem answers_of_open (h : IsSegment owners job buffers) (hi : owners[i]? = some o)
    (hopen : o.Open) (hw : NoWrap job) {n : ℕ} (hn : 0 < (received (request job n i)).numPeers) :
    o.Answers job n i (buffers i)
      (((received (request job n i)).shareFrom job.startDataNumber.toNat).map fun d =>
        dataPacket job.blockNumber.toNat o.sessionID d (buffers i)) :=
  answers_iff.mpr (SendJob.finishes_of_open (h.fits hi n) rfl (hopen.view _) hn hw (range_eq h.offset_lt).1)

theorem sends_iff (h : IsSegment owners job buffers) (hi : owners[i]? = some o) (hopen : o.Open)
    (hw : NoWrap job) (hn : 0 < (received (request job owners.length i)).numPeers)
    (hd : job.startDataNumber.toNat ≤ d) (hd' : d ≤ job.endDataNumber.toNat) :
    Sends owners job buffers i d ↔ d % (received (request job owners.length i)).numPeers =
      (received (request job owners.length i)).peerIdx := by
  have hans := answers_of_open h hi hopen hw hn
  have hmem : d ∈ (received (request job owners.length i)).shareFrom job.startDataNumber.toNat ↔
      d % (received (request job owners.length i)).numPeers =
        (received (request job owners.length i)).peerIdx := by
    rw [Block.BlockRequestPacket.mem_shareFrom]
    exact ⟨fun hm => hm.2.2, fun hm => ⟨hd, hd', hm⟩⟩
  rw [← hmem]
  constructor
  · rintro ⟨o', ps, hi', hps, hdp⟩
    rw [hi] at hi'
    cases hi'
    rw [(answers_iff.mp hps).det (answers_iff.mp hans)] at hdp
    simpa [dataPacket] using hdp
  · intro hm
    exact ⟨o, _, hi, hans, by simpa [dataPacket] using hm⟩

/-! ### Up to ten owners -/

theorem parts_of_le (job : Job) {n : ℕ} (hn : n ≤ 10) (hi : i < n) :
    (received (request job n i)).numPeers = n ∧ (received (request job n i)).peerIdx = i := by
  have hlt : n * 10 + i < 256 := by omega
  simp only [Block.BlockRequestPacket.numPeers, Block.BlockRequestPacket.peerIdx, fecIndex_request,
    Nat.mod_eq_of_lt hlt]
  omega

theorem shared_of_noWrap (h : IsSegment owners job buffers) (hpos : 0 < owners.length)
    (hle : owners.length ≤ 10) (hopen : ∀ o ∈ owners, o.Open) (hw : NoWrap job) :
    Shared owners job buffers where
  returns := by
    intro i o hi
    have hlt : i < owners.length := (List.getElem?_eq_some_iff.mp hi).1
    have hn : 0 < (received (request job owners.length i)).numPeers := by
      rw [(parts_of_le job hle hlt).1]
      exact hpos
    exact ⟨_, answers_of_open h hi (hopen o (List.mem_of_getElem? hi)) hw hn⟩
  once := by
    intro d hd hd'
    have hsends : ∀ i < owners.length, (Sends owners job buffers i d ↔ d % owners.length = i) := by
      intro i hlt
      obtain ⟨hnum, hidx⟩ := parts_of_le job hle hlt
      have hi : owners[i]? = some owners[i] := List.getElem?_eq_getElem hlt
      have hiff := sends_iff h hi (hopen _ (List.getElem_mem hlt)) hw (by rw [hnum]; exact hpos)
        hd hd'
      rw [hnum, hidx] at hiff
      exact hiff
    have hmod : d % owners.length < owners.length := Nat.mod_lt d hpos
    refine ⟨d % owners.length, (hsends _ hmod).mpr rfl, ?_⟩
    intro i hi
    obtain ⟨o, ps, hio, -⟩ := id hi
    exact ((hsends i (List.getElem?_eq_some_iff.mp hio).1).mp hi).symm

theorem not_shared_of_wrap (h : IsSegment owners job buffers) (hpos : 0 < owners.length)
    (hle : owners.length ≤ 10) (hopen : ∀ o ∈ owners, o.Open) (hw : ¬ NoWrap job) :
    ¬ Shared owners job buffers := by
  intro hs
  have hrange := range_eq h.offset_lt
  have hbs := job.blockSize.toNat_lt
  have heq : payloadSize * job.endDataNumber.toNat + payloadSize = 2 ^ 32 := by
    simp only [NoWrap, payloadSize] at hw hrange ⊢
    omega
  have hlt : job.endDataNumber.toNat % owners.length < owners.length := Nat.mod_lt _ hpos
  obtain ⟨hnum, hidx⟩ := parts_of_le job hle hlt
  have hi := List.getElem?_eq_getElem hlt
  obtain ⟨ps, hps⟩ := hs.returns _ _ hi
  have hn : 0 < (received (request job owners.length
      (job.endDataNumber.toNat % owners.length))).numPeers := by
    rw [hnum]
    exact hpos
  have hsel : job.endDataNumber.toNat % (received (request job owners.length
      (job.endDataNumber.toNat % owners.length))).numPeers = (received (request job owners.length
      (job.endDataNumber.toNat % owners.length))).peerIdx := by
    rw [hnum, hidx]
  exact SendJob.not_finishes_of_wrap (h.fits hi _) rfl ((hopen _ (List.getElem_mem hlt)).view _) hn hsel
    heq hrange.1 (answers_iff.mp hps)

end

/-! ### The first segment of a small block -/

def smallJob (k : ℕ) : Job := ⟨0, UInt32.ofNat (payloadSize * k), 0, 0, .start⟩

def smallBuffer (k : ℕ) : Bytes := List.replicate (payloadSize * k) 0

theorem smallJob_range (hpos : 0 < k) (hk : k ≤ 10) :
    (smallJob k).startDataNumber.toNat = 0 ∧ (smallJob k).endDataNumber.toNat = k - 1 ∧
      (smallJob k).offset < (smallJob k).blockSize ∧ NoWrap (smallJob k) ∧
      (smallJob k).blockSize.toNat = payloadSize * k := by
  have hall : ∀ k ≤ 10, 0 < k → (smallJob k).startDataNumber.toNat = 0 ∧
      (smallJob k).endDataNumber.toNat = k - 1 ∧ (smallJob k).offset < (smallJob k).blockSize ∧
      payloadSize * (smallJob k).endDataNumber.toNat + payloadSize < 2 ^ 32 ∧
      (smallJob k).blockSize.toNat = payloadSize * k := by
    decide +kernel
  exact hall k hk hpos

theorem smallJob_isSegment (owners : List Owner) (hpos : 0 < k) (hk : k ≤ 10) :
    IsSegment owners (smallJob k) fun _ => smallBuffer k := by
  obtain ⟨-, -, hlt, -, hsize⟩ := smallJob_range hpos hk
  refine ⟨hlt, ?_, ?_⟩
  · intro i _
    rw [hsize, smallBuffer, List.length_replicate]
  · intro i _
    simp only [smallBuffer, List.length_replicate, payloadSize]
    omega

theorem of_sends {buffers : ℕ → Bytes} {d : ℕ} (h : IsSegment owners job buffers) (hw : NoWrap job)
    (hle : owners.length ≤ 10) (hd : job.startDataNumber.toNat ≤ d) (hd' : d ≤ job.endDataNumber.toNat)
    (hs : Sends owners job buffers i d) : ∃ o, owners[i]? = some o ∧ o.Open ∧ d % owners.length = i := by
  obtain ⟨o, ps, hi, hps, hdp⟩ := id hs
  have hlt : i < owners.length := (List.getElem?_eq_some_iff.mp hi).1
  obtain ⟨hnum, hidx⟩ := parts_of_le job hle hlt
  have hopen : o.Open := by
    by_contra hclosed
    have hnil := SendJob.Finishes.of_closed (h.fits hi _)
      (show ¬ (o.view (buffers i)).Open from hclosed) (answers_iff.mp hps)
    simp [hnil] at hdp
  have hmod := (sends_iff h hi hopen hw (by rw [hnum]; omega) hd hd').mp hs
  rw [hnum, hidx] at hmod
  exact ⟨o, hi, hopen, hmod⟩

theorem not_splits_of_closed (hle : owners.length ≤ 10) (ho : o ∈ owners) (hclosed : ¬ o.Open) :
    ¬ Splits owners := by
  intro hs
  obtain ⟨i, hi⟩ := List.mem_iff_getElem?.mp ho
  have hlt : i < owners.length := (List.getElem?_eq_some_iff.mp hi).1
  have hpos : 0 < owners.length := by omega
  obtain ⟨hstart, hend, -, hw, -⟩ := smallJob_range hpos hle
  have hseg := smallJob_isSegment owners hpos hle
  obtain ⟨k, hk, -⟩ := (hs _ _ hseg hw).once i (by omega) (by omega)
  obtain ⟨o', ho', hopen, hmod⟩ := of_sends hseg hw hle (by omega) (by omega) hk
  rw [Nat.mod_eq_of_lt hlt] at hmod
  subst hmod
  rw [hi] at ho'
  cases ho'
  exact hclosed hopen

/-! ### More than ten owners -/

def First (n i : ℕ) : Prop := 10 ≤ (n * 10 + i) % 256 ∧ (n * 10 + i) % 256 % 10 = 0

instance (n i : ℕ) : Decidable (First n i) :=
  inferInstanceAs (Decidable (10 ≤ (n * 10 + i) % 256 ∧ (n * 10 + i) % 256 % 10 = 0))

theorem two_first_from {r : ℕ} (hr : r < 256) : ∃ i < 27, ∃ k < 27, i ≠ k ∧
    (10 ≤ (r + i) % 256 ∧ (r + i) % 256 % 10 = 0) ∧
      10 ≤ (r + k) % 256 ∧ (r + k) % 256 % 10 = 0 := by
  by_cases h10 : r ≤ 10
  · exact ⟨10 - r, by omega, 20 - r, by omega, by omega, by omega, by omega⟩
  by_cases h240 : r ≤ 240
  · have hlt : r + (10 - r % 10) % 10 + 10 < 256 := by omega
    refine ⟨(10 - r % 10) % 10, by omega, (10 - r % 10) % 10 + 10, by omega, by omega, ?_, ?_⟩
    · rw [Nat.mod_eq_of_lt (by omega)]
      omega
    · rw [← Nat.add_assoc, Nat.mod_eq_of_lt hlt]
      omega
  by_cases h250 : r ≤ 250
  · exact ⟨250 - r, by omega, 266 - r, by omega, by omega, by omega, by omega⟩
  · exact ⟨266 - r, by omega, 276 - r, by omega, by omega, by omega, by omega⟩

theorem two_first (hn : 10 < n) : ∃ i < n, ∃ k < n, i ≠ k ∧ First n i ∧ First n k := by
  by_cases hle : n ≤ 26
  · have hall : ∀ n ≤ 26, 10 < n → ∃ i < n, ∃ k < n, i ≠ k ∧ First n i ∧ First n k := by
      decide +kernel
    exact hall n hle hn
  · obtain ⟨i, hi, k, hk, hne, hfi, hfk⟩ := two_first_from (Nat.mod_lt (n * 10) (by norm_num))
    rw [Nat.mod_add_mod] at hfi hfk
    exact ⟨i, by omega, k, by omega, hne, hfi, hfk⟩

theorem parts_of_first (job : Job) (h : First n i) :
    0 < (received (request job n i)).numPeers ∧ (received (request job n i)).peerIdx = 0 := by
  obtain ⟨hge, hmod⟩ := h
  simp only [Block.BlockRequestPacket.numPeers, Block.BlockRequestPacket.peerIdx, fecIndex_request]
  omega

theorem sends_zero (hopen : ∀ o ∈ owners, o.Open) (hi : i < owners.length) (hfirst : First owners.length i) :
    Sends owners (smallJob 1) (fun _ => smallBuffer 1) i 0 := by
  obtain ⟨hn, hidx⟩ := parts_of_first (smallJob 1) hfirst
  obtain ⟨hstart, hend, -, hw, -⟩ := smallJob_range Nat.one_pos (by norm_num : 1 ≤ 10)
  have hseg := smallJob_isSegment owners Nat.one_pos (by norm_num : 1 ≤ 10)
  refine (sends_iff hseg (List.getElem?_eq_getElem hi) (hopen _ (List.getElem_mem hi)) hw hn
    (by omega) (by omega)).mpr ?_
  rw [hidx, Nat.zero_mod]

theorem not_splits_of_many (hopen : ∀ o ∈ owners, o.Open) (hmany : 10 < owners.length) : ¬ Splits owners := by
  intro hs
  obtain ⟨i, hi, k, hk, hne, hfi, hfk⟩ := two_first hmany
  obtain ⟨hstart, hend, -, hw, -⟩ := smallJob_range Nat.one_pos (by norm_num : 1 ≤ 10)
  have hseg := smallJob_isSegment owners Nat.one_pos (by norm_num : 1 ≤ 10)
  have honce := (hs _ _ hseg hw).once 0 (by omega) (by omega)
  exact hne (honce.unique (sends_zero hopen hi hfi) (sends_zero hopen hk hfk))

/-- With at least one owner, each of the conditions is exact when the others hold: there are ten
owners at most, no owner is stopped, and the range does not end at `2^32` bytes. -/
theorem fec_split_iff (owners : List Owner) (hpos : 0 < owners.length) :
    ((∀ o ∈ owners, o.Open) → (Splits owners ↔ owners.length ≤ 10)) ∧
      (owners.length ≤ 10 → (Splits owners ↔ ∀ o ∈ owners, o.Open)) ∧
      ((∀ o ∈ owners, o.Open) → owners.length ≤ 10 → ∀ job buffers,
        IsSegment owners job buffers → (Shared owners job buffers ↔ NoWrap job)) := by
  have hsplits : (∀ o ∈ owners, o.Open) → owners.length ≤ 10 → Splits owners :=
    fun hopen hle job buffers hseg hw => shared_of_noWrap hseg hpos hle hopen hw
  refine ⟨?_, ?_, ?_⟩
  · intro hopen
    refine ⟨?_, hsplits hopen⟩
    intro hs
    by_contra hmany
    exact not_splits_of_many hopen (by omega) hs
  · intro hle
    refine ⟨?_, fun hopen => hsplits hopen hle⟩
    intro hs o ho
    by_contra hclosed
    exact not_splits_of_closed hle ho hclosed hs
  · intro hopen hle job buffers hseg
    refine ⟨?_, shared_of_noWrap hseg hpos hle hopen⟩
    intro hshared
    by_contra hw
    exact not_shared_of_wrap hseg hpos hle hopen hw hshared

def freshOwner : Owner := ⟨0, 0, none, true⟩

theorem freshOwner_open (n : ℕ) : ∀ o ∈ List.replicate n freshOwner, o.Open := by
  intro o ho
  rw [List.eq_of_mem_replicate ho]
  exact .inl ⟨rfl, rfl⟩

theorem fec_split_iff_three :
    0 < (List.replicate 3 freshOwner).length ∧ Splits (List.replicate 3 freshOwner) :=
  ⟨by decide, ((fec_split_iff _ (by decide)).1 (freshOwner_open 3)).mpr (by decide)⟩

/-- Eleven owners: the first gets the byte 110 and the last 120, which says that it is the first of
twelve. Both send data number 0. -/
theorem fec_split_eleven :
    Sends (List.replicate 11 freshOwner) (smallJob 1) (fun _ => smallBuffer 1) 0 0 ∧
      Sends (List.replicate 11 freshOwner) (smallJob 1) (fun _ => smallBuffer 1) 10 0 :=
  ⟨sends_zero (freshOwner_open 11) (by decide) (by decide),
    sends_zero (freshOwner_open 11) (by decide) (by decide)⟩

end Mp2bs.Mp2session.FecSplit
