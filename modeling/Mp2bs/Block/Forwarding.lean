import Mp2bs.Block.Transfer

/-!
# What a node may forward

`handleBlockDataPacket` appends every packet that a segment takes to `sendBuffer` and adds its length
to `lastRecvBytes` (`mp2session.go:333-338`), in the order of arrival and once more for every
repetition.
-/

namespace Mp2bs.Block
open Mp2bs.Lib.Slice Mp2bs.Lib.Machine

def firstMissing (l : List ℕ) : ℕ := ((List.range (l.length + 1)).find? (· ∉ l)).getD 0

theorem firstMissing_range (m : ℕ) : firstMissing (List.range m) = m := by
  have hf : (List.range (m + 1)).find? (fun d => decide (d ∉ List.range m)) = some m := by
    rw [List.find?_range_eq_some]
    refine ⟨by simp, by simp, ?_⟩
    intro j hj
    simpa using hj
  rw [firstMissing, List.length_range, hf]
  rfl

/- The number of bytes of the block before the first packet that is missing. -/
def contiguousBytes (block : Bytes) (stored : List ℕ) : ℕ :=
  min (payloadSize * firstMissing stored) block.length

/-! ### What the functions do to `sendBuffer` and `lastRecvBytes` -/

namespace Manager

def received (m : Manager) (b : ℕ) : Option ℕ := (m.recvBuffer b).map (·.lastRecvBytes)

theorem received_setRecvBuffer_self (m : Manager) (b : ℕ) (bb : BlockBuffer) :
    (m.setRecvBuffer b bb).received b = some bb.lastRecvBytes := by
  simp [received]

theorem received_setRecvBuffer_of_ne (m : Manager) {b b' : ℕ} (h : b' ≠ b) (bb : BlockBuffer) :
    (m.setRecvBuffer b bb).received b' = m.received b' := by
  simp only [received, setRecvBuffer, Function.update_of_ne h]

theorem received_setRecvBuffer_same {m : Manager} {b : ℕ} {bb bb' : BlockBuffer}
    (hm : m.recvBuffer b = some bb) (hc : bb'.lastRecvBytes = bb.lastRecvBytes) :
    (m.setRecvBuffer b bb').received = m.received := by
  funext b'
  by_cases h : b' = b
  · rw [h, received_setRecvBuffer_self, hc, received, hm]
    rfl
  · exact received_setRecvBuffer_of_ne m h bb'

def Same (m m' : Manager) : Prop := m'.sendBuffer = m.sendBuffer ∧ m'.received = m.received

theorem mp2ReadBlock_same {m m' : Manager} {bufLen b : ℕ} {data : Bytes}
    (h : m.mp2ReadBlock bufLen b = .ok (m', data)) : m.Same m' := by
  unfold mp2ReadBlock at h
  cases hm : m.recvBuffer b with
  | none => simp [hm] at h
  | some bb =>
    simp only [hm] at h
    cases hb : bb.buffer with
    | nil =>
      simp only [hb] at h
      split_ifs at h
      simp only [Except.ok.injEq, Prod.mk.injEq] at h
      rw [← h.1]
      exact ⟨rfl, rfl⟩
    | cons g rest =>
      simp only [hb] at h
      split_ifs at h
      cases hp : g.popData bufLen with
      | error e => simp [hp] at h
      | ok result =>
        simp only [hp, Except.ok.injEq, Prod.mk.injEq] at h
        rw [← h.1]
        exact ⟨rfl, received_setRecvBuffer_same hm rfl⟩

theorem addRecvBuffer_same {m m' : Manager} {g : Segment} (h : m.addRecvBuffer g = .ok m') :
    m.Same m' := by
  unfold addRecvBuffer at h
  cases hm : m.recvBuffer g.blockNumber with
  | none => simp [hm] at h
  | some bb =>
    simp only [hm, Except.ok.injEq] at h
    rw [← h]
    exact ⟨rfl, received_setRecvBuffer_same hm rfl⟩

end Manager

namespace Mp2Session

theorem handleBlockDataPacket_source {m m' : Manager} {s s' : Mp2Session} {bb : BlockBuffer}
    {packet : BlockDataPacket} (hsrc : packet.redundant = fecSourceData)
    (hm : m.recvBuffer s.blockNumber = some bb)
    (h : s.handleBlockDataPacket m packet = .ok (m', s')) :
    s'.blockNumber = s.blockNumber ∧
      if bb.buffer.any (·.takes packet) then
        m'.sendBuffer = m.sendBuffer ++ packet.data ∧
          m'.received s.blockNumber = some (u32 (bb.lastRecvBytes + u32 packet.data.length)) ∧
          ∀ b' ≠ s.blockNumber, m'.received b' = m.received b'
      else m' = m := by
  obtain ⟨bb', hbb, hcase⟩ := handleBlockDataPacket_ok h
  obtain rfl : bb' = bb := Option.some.inj (hbb.symm.trans hm)
  rcases hcase with ⟨hi, rfl, rfl⟩ | ⟨i, g, g₁, r, g₂, _, hg, htakes, hrelease, hstored⟩
  · have hany : bb'.buffer.any (·.takes packet) = false := by
      rw [List.any_eq_false]
      intro g hg
      simpa using (List.findIdx?_eq_none_iff.mp hi) g hg
    rw [hany]
    exact ⟨rfl, rfl⟩
  · have hany : bb'.buffer.any (·.takes packet) = true :=
      List.any_eq_true.mpr ⟨g, List.mem_of_getElem? hg, htakes⟩
    rcases hstored with ⟨_, _, rfl⟩ | ⟨hred, _⟩
    · rw [hany, if_pos rfl]
      refine ⟨release_blockNumber hrelease, rfl, Manager.received_setRecvBuffer_self _ _ _, ?_⟩
      intro b' hb'
      exact Manager.received_setRecvBuffer_of_ne _ hb' _
    · exact absurd hsrc hred

end Mp2Session

/- A request loop over a block of `n` bytes that stands at the start of a packet. -/
structure RequestJob.Aligned (b n : ℕ) (job : RequestJob) : Prop where
  blockNumber : job.blockNumber = b
  blockSize : job.blockSize = n
  offset : job.offset < n → payloadSize ∣ job.offset

theorem RequestJob.Aligned.next {b n : ℕ} {job : RequestJob} (h : job.Aligned b n)
    (hn : n < 2 ^ 32) (hlt : job.offset < n) :
    Aligned b n { job with
      offset := u32 (job.offset + job.size), idx := u32 (job.idx + 1) } ∧
    u32Sub (u32 (job.offset / payloadSize + numData (job.size))) 1 < numData n := by
  have hsub : u32Sub job.blockSize job.offset = n - job.offset := by
    rw [h.blockSize]
    exact u32Sub_of_le hlt.le hn
  obtain ⟨c, hc⟩ := h.offset hlt
  have hsize : job.size = min segmentSize (n - job.offset) := by
    rw [RequestJob.size, hsub]
    split_ifs <;> omega
  have hdiv : job.offset / payloadSize = c := by
    rw [hc]
    exact Nat.mul_div_cancel_left _ (by decide)
  have hpos : 0 < numData (min segmentSize (n - job.offset)) :=
    numData_pos (by simp only [segmentSize]; omega)
  -- the last packet asked for starts inside the block
  have hin : c + numData (min segmentSize (n - job.offset)) - 1 < numData n := by
    have hlast := (lt_numData_iff (min segmentSize (n - job.offset))
      (numData (min segmentSize (n - job.offset)) - 1)).mp (by omega)
    rw [lt_numData_iff]
    simp only [payloadSize] at *
    omega
  have hbound : numData n < 2 ^ 32 := by
    simp only [numData, payloadSize]
    omega
  rw [hsize]
  refine ⟨⟨h.blockNumber, h.blockSize, ?_⟩, ?_⟩
  · intro hoff
    rw [u32_of_lt (by omega)] at hoff ⊢
    simp only [payloadSize, segmentSize] at *
    omega
  · rw [hdiv, u32_of_lt (by omega), u32Sub_of_le (by omega) (by omega)]
    exact hin

/-! ### Runs in which each packet taken is the first one missing -/

namespace Transfer

/- A packet that a segment takes is the first one of the block that is missing. -/
def NextOnly (s : Transfer) : Label → Prop
  | .deliver k p => ∀ link ∈ s.links[k]?, ∀ packet ∈ (s.peers p).channel.head?,
      (s.buffer link.session.blockNumber).any (·.takes packet) = true →
        packet.dataNumber = firstMissing s.stored
  | _ => True

instance (s : Transfer) : ∀ a, Decidable (NextOnly s a)
  | .deliver k p => inferInstanceAs (Decidable (∀ link ∈ s.links[k]?,
      ∀ packet ∈ (s.peers p).channel.head?,
        (s.buffer link.session.blockNumber).any (·.takes packet) = true →
          packet.dataNumber = firstMissing s.stored))
  | .info _ _ | .request _ | .accept _ | .send _ _ | .env _ _ _ _ | .read _ | .timeout _ _ =>
    .isTrue trivial

structure LinkGood (block : Bytes) (b : ℕ) (l : Link) : Prop where
  infos : ∀ x ∈ l.infos, x.2 = ⟨b, .hasBlock, block.length⟩
  job : ∀ job ∈ l.job, job.Aligned b block.length

structure Follows (block : Bytes) (b m : ℕ) (s : Transfer) : Prop where
  sendBuffer : s.manager.sendBuffer = block.take (payloadSize * m)
  stored : s.stored = List.range m
  received : s.manager.received b = some (min (payloadSize * m) block.length) ∨
    (s.manager.received b = none ∧ m = 0)
  others : ∀ b' ≠ b, s.manager.received b' = none
  links : ∀ link ∈ s.links, LinkGood block b link
  peers : ∀ p, (s.peers p).Good block b (numData block.length)

namespace Follows
variable {block : Bytes} {b m : ℕ} {s s' : Transfer}

theorem of_same (h : Follows block b m s) (hm : s.manager.Same s'.manager)
    (hst : s'.stored = s.stored)
    (hl : ∀ link ∈ s'.links, LinkGood block b link)
    (hp : ∀ p, (s'.peers p).Good block b (numData block.length)) : Follows block b m s' := by
  refine ⟨hm.1.trans h.sendBuffer, hst.trans h.stored, ?_, ?_, hl, hp⟩
  · rw [hm.2]
    exact h.received
  · rw [hm.2]
    exact h.others

theorem set_link (h : Follows block b m s) {k : ℕ} {l : Link} (hl : LinkGood block b l) :
    ∀ l' ∈ s.links.set k l, LinkGood block b l' := by
  intro l' hl'
  rcases List.mem_or_eq_of_mem_set hl' with hm | rfl
  · exact h.links l' hm
  · exact hl

theorem resume_offset (h : Follows block b m s) :
    ((s.manager.recvBuffer b).getD createBlockBuffer).lastRecvBytes =
      min (payloadSize * m) block.length := by
  have hrec := h.received
  simp only [Manager.received] at hrec
  cases hbuf : s.manager.recvBuffer b with
  | none =>
    rw [hbuf] at hrec
    have hm : m = 0 := by simpa using hrec
    simp [createBlockBuffer, hm]
  | some bb =>
    rw [hbuf] at hrec
    simpa using hrec

theorem aligned_resume (b m idx : ℕ) (block : Bytes) :
    RequestJob.Aligned b block.length ⟨b, block.length, min (payloadSize * m) block.length, idx⟩ := by
  refine ⟨rfl, rfl, ?_⟩
  intro hlt
  have hmin : min (payloadSize * m) block.length = payloadSize * m := by
    simp only at hlt
    omega
  simp only [hmin]
  exact Nat.dvd_mul_right _ _

theorem info (h : Follows block b m s) {k id : ℕ} (hs : s.stepInfo k id = .ok s') :
    Follows block b m s' := by
  obtain ⟨l, packet, mgr, session, job, hl, hin, hr, rfl⟩ := stepInfo_cases hs
  have hmem := List.mem_of_getElem? hl
  have hpacket := (h.links l hmem).infos (id, packet) hin
  simp only at hpacket
  subst hpacket
  simp only [Mp2Session.handleBlockInfoPacket] at hr
  have hinfos : ∀ x ∈ l.infos.filter (·.1 != id), x.2 = ⟨b, .hasBlock, block.length⟩ :=
    fun x hx => (h.links l hmem).infos x (List.mem_of_mem_filter hx)
  have hbn : ({ l.session with blockNumber := b }.setOwner id .hasBlock).blockNumber = b := rfl
  split_ifs at hr
  · simp only [Mp2Session.startBlockRequest, hbn, h.resume_offset, Prod.mk.injEq] at hr
    obtain ⟨rfl, rfl, rfl⟩ := hr
    refine ⟨h.sendBuffer, h.stored, Or.inl ?_, ?_, h.set_link ⟨hinfos, ?_⟩, h.peers⟩
    · rw [Manager.received_setRecvBuffer_self, h.resume_offset]
    · intro b' hb'
      rw [Manager.received_setRecvBuffer_of_ne _ hb']
      exact h.others b' hb'
    · intro job hjob
      simp only [Option.some_or, Option.mem_some_iff] at hjob
      rw [← hjob]
      exact aligned_resume b m 0 block
  · cases hr
    refine h.of_same ⟨rfl, rfl⟩ rfl (h.set_link ⟨hinfos, ?_⟩) h.peers
    simpa using (h.links l hmem).job

theorem request (h : Follows block b m s) (hn : block.length < 2 ^ 32) {k : ℕ}
    (hs : s.stepRequest k = .ok s') : Follows block b m s' := by
  obtain ⟨l, job, mgr, session, job', id, packet, hl, hj, hr, rfl⟩ := stepRequest_cases hs
  have hmem := List.mem_of_getElem? hl
  obtain ⟨_, hlt, _, _, hadd, _, rfl, rfl⟩ := Mp2Session.sendBlockRequest_eq_ok hr
  have hal := (h.links l hmem).job job hj
  have hnext := hal.next hn (by rw [← hal.blockSize]; exact hlt)
  refine h.of_same (Manager.addRecvBuffer_same hadd) rfl
    (h.set_link ⟨(h.links l hmem).infos, ?_⟩) ?_
  · intro j hj'
    rw [← Option.mem_some_iff.mp hj']
    exact hnext.1
  · exact good_update h.peers ((h.peers id).request hal.blockNumber hnext.2)

theorem deliver (h : Follows block b m s) (hn : block.length < 2 ^ 32) {k p : ℕ}
    (hok : NextOnly s (.deliver k p)) (hs : s.stepDeliver k p = .ok s') :
    ∃ m', Follows block b m' s' := by
  obtain ⟨l, packet, rest, mgr, session, hl, hc, hr, rfl⟩ := stepDeliver_cases hs
  obtain ⟨⟨sid, d, hd, rfl⟩, hgood⟩ := (h.peers p).deliver hc
  have hmem := List.mem_of_getElem? hl
  have hnext := hok l hl (dataPacket b sid d block) (by rw [hc]; rfl)
  cases hbuf : s.manager.recvBuffer l.session.blockNumber with
  | none => simp [Mp2Session.handleBlockDataPacket, hbuf] at hr
  | some bb =>
    -- the session is one for this block, since no other block has a buffer
    have hb : l.session.blockNumber = b := by
      by_contra hne
      have := h.others _ hne
      simp [Manager.received, hbuf] at this
    obtain ⟨_, hcase⟩ := Mp2Session.handleBlockDataPacket_source rfl hbuf hr
    have hbb : s.buffer l.session.blockNumber = bb.buffer := by simp only [Transfer.buffer, hbuf]
    rw [hbb] at hnext
    have hlinks : ∀ l' ∈ s.links.set k { l with session := session }, LinkGood block b l' :=
      h.set_link ⟨(h.links l hmem).infos, (h.links l hmem).job⟩
    by_cases hany : bb.buffer.any (·.takes (dataPacket b sid d block)) = true
    · rw [if_pos hany] at hcase
      obtain ⟨hsend, hrec, hothers⟩ := hcase
      have hdm : d = m := by
        have := hnext hany
        rw [h.stored, firstMissing_range] at this
        exact this
      subst hdm
      have hlt := (lt_numData_iff block.length d).mp hd
      have hlen : (dataPacket b sid d block).data.length =
          min payloadSize (block.length - payloadSize * d) := packetData_length block d
      have hcount : bb.lastRecvBytes = min (payloadSize * d) block.length := by
        have := h.received
        rw [← hb] at this
        simpa [Manager.received, hbuf] using this
      refine ⟨d + 1, ?_, ?_, Or.inl ?_, ?_, hlinks, good_update h.peers hgood⟩
      · show mgr.sendBuffer = _
        rw [hsend, h.sendBuffer, Nat.mul_succ, ← take_append_window]
        rfl
      · show (if (s.buffer l.session.blockNumber).any (·.takes (dataPacket b sid d block)) = true
          then s.stored ++ [d] else s.stored) = _
        rw [hbb, if_pos hany, h.stored, List.range_succ]
      · show mgr.received b = _
        rw [← hb, hrec, hcount, hlen, Nat.mul_succ]
        have hsmall : min payloadSize (block.length - payloadSize * d) < 2 ^ 32 := by omega
        rw [u32_of_lt hsmall, u32_of_lt (by omega)]
        congr 1
        omega
      · intro b' hb'
        show mgr.received b' = none
        rw [hothers b' (by rw [hb]; exact hb')]
        exact h.others b' hb'
    · rw [if_neg hany] at hcase
      subst hcase
      refine ⟨m, h.of_same ⟨rfl, rfl⟩ ?_ hlinks (good_update h.peers hgood)⟩
      show (if (s.buffer l.session.blockNumber).any (·.takes (dataPacket b sid d block)) = true
        then s.stored ++ [d] else s.stored) = s.stored
      rw [hbb, if_neg hany]

theorem read (h : Follows block b m s) {bufLen : ℕ} (hs : s.stepRead b bufLen = .ok s') :
    Follows block b m s' := by
  obtain ⟨mgr, data, hr, hs'⟩ := stepRead_cases hs
  rw [hs']
  exact h.of_same (Manager.mp2ReadBlock_same hr) rfl h.links h.peers

theorem timeout (h : Follows block b m s) {k : ℕ} {ids : List ℕ}
    (hs : s.stepTimeout k ids = .ok s') : Follows block b m s' := by
  obtain ⟨l, job, bb, hl, hj, hbuf, rfl⟩ := stepTimeout_cases hs
  have hmem := List.mem_of_getElem? hl
  have hal := (h.links l hmem).job job hj
  refine h.of_same ⟨rfl, Manager.received_setRecvBuffer_same hbuf rfl⟩ rfl ?_ h.peers
  intro l' hl'
  rcases List.mem_append.mp hl' with hl' | hl'
  · have hold : LinkGood block b { l with firstTimeout := false } :=
      ⟨(h.links l hmem).infos, (h.links l hmem).job⟩
    exact h.set_link hold l' hl'
  · rw [List.mem_singleton.mp hl']
    refine ⟨?_, fun j hj' => by cases hj'⟩
    intro x hx
    obtain ⟨id, _, rfl⟩ := List.mem_map.mp hx
    rw [hal.blockNumber, hal.blockSize]

theorem step (h : Follows block b m s) (hn : block.length < 2 ^ 32) {a : Label}
    (hok : NextOnly s a) (hs : s.step b a = .ok s') : ∃ m', Follows block b m' s' := by
  have hpeer : ((∃ p, a = .accept p) ∨ (∃ p i, a = .send p i) ∨ ∃ p c r f, a = .env p c r f) →
      ∃ m', Follows block b m' s' := by
    intro hcase
    obtain ⟨p, peer, rfl, hp⟩ := step_peer hn le_rfl h.peers hcase hs
    exact ⟨m, h.of_same ⟨rfl, rfl⟩ rfl h.links (good_update h.peers hp)⟩
  cases a with
  | info k id => exact ⟨m, h.info hs⟩
  | request k => exact ⟨m, h.request hn hs⟩
  | accept p => exact hpeer (Or.inl ⟨p, rfl⟩)
  | send p i => exact hpeer (Or.inr (Or.inl ⟨p, i, rfl⟩))
  | env p c r f => exact hpeer (Or.inr (Or.inr ⟨p, c, r, f, rfl⟩))
  | deliver k p => exact h.deliver hn hok hs
  | read n => exact ⟨m, h.read hs⟩
  | timeout k ids => exact ⟨m, h.timeout hs⟩

end Follows

theorem init_follows (block : Bytes) (b : ℕ) (owners : List ℕ) :
    Follows block b 0 (init b block owners) := by
  refine ⟨by simp [init], rfl, Or.inr ⟨rfl, rfl⟩, fun _ _ => rfl, ?_, ?_⟩
  · intro l hl
    rw [List.mem_singleton.mp hl]
    refine ⟨?_, fun job hj => by cases hj⟩
    intro x hx
    obtain ⟨id, _, rfl⟩ := List.mem_map.mp hx
    rfl
  · intro p
    exact ⟨rfl, by simp [init], by simp [init], by simp [init]⟩

theorem follows_of_run {block : Bytes} {b : ℕ} {owners : List ℕ} (hn : block.length < 2 ^ 32)
    {as : List Label} {s : Transfer} (h : Run (step b) NextOnly (init b block owners) as s) :
    ∃ m, Follows block b m s := by
  refine h.invariant (fun s => ∃ m, Follows block b m s) ⟨0, init_follows block b owners⟩ ?_
  rintro s a s' ⟨m, hm⟩ hok hs
  exact hm.step hn hok hs

theorem sendBuffer_follows_block (block : Bytes) (b : ℕ) (owners : List ℕ)
    (hn : block.length < 2 ^ 32) {as : List Label} {s : Transfer}
    (h : Run (step b) NextOnly (init b block owners) as s) :
    s.manager.sendBuffer = block.take s.manager.sendBuffer.length := by
  obtain ⟨m, hm⟩ := follows_of_run hn h
  rw [← List.prefix_iff_eq_take, hm.sendBuffer]
  exact List.take_prefix _ _

theorem lastRecvBytes_contiguous (block : Bytes) (b : ℕ) (owners : List ℕ)
    (hn : block.length < 2 ^ 32) {as : List Label} {s : Transfer}
    (h : Run (step b) NextOnly (init b block owners) as s) {bb : BlockBuffer}
    (hb : s.manager.recvBuffer b = some bb) :
    bb.lastRecvBytes = contiguousBytes block s.stored := by
  obtain ⟨m, hm⟩ := follows_of_run hn h
  have hrec := hm.received
  rw [contiguousBytes, hm.stored, firstMissing_range]
  simpa [Manager.received, hb] using hrec

/- The only packet of a one-byte block arrives from the parent. -/
def parentOnly : List Label :=
  [.info 0 3, .request 0, .accept 3, .send 3 0, .send 3 0, .send 3 0, .send 3 0, .send 3 0,
    .deliver 0 3]

theorem sendBuffer_follows_one_byte : ∃ s : Transfer, s.manager.sendBuffer.length = 1 ∧
    s.manager.sendBuffer = [5].take s.manager.sendBuffer.length :=
  ⟨_, rfl, sendBuffer_follows_block [5] 1 [3] (by decide)
    (Run.of_exec parentOnly (by decide) rfl)⟩

theorem lastRecvBytes_contiguous_one_byte : ∃ (s : Transfer) (bb : BlockBuffer),
    s.manager.recvBuffer 1 = some bb ∧ bb.lastRecvBytes = contiguousBytes [5] s.stored :=
  ⟨_, _, rfl, lastRecvBytes_contiguous [5] 1 [3] (by decide)
    (Run.of_exec parentOnly (by decide) rfl) rfl⟩

/- The parent's packet is late: the timeout has dropped its segment and the pull peer has
been asked for the same packet. Both arrive. -/
def lateParent : List Label :=
  [.info 0 3, .request 0, .accept 3, .send 3 0, .send 3 0, .send 3 0, .send 3 0, .send 3 0,
    .timeout 0 [4], .info 1 4, .request 1, .accept 4, .send 4 0, .send 4 0, .send 4 0, .send 4 0,
    .send 4 0, .deliver 0 3, .deliver 1 4]

theorem sendBuffer_repeats_packet : ∃ s : Transfer,
    Run (step 1) always (init 1 [5] [3]) lateParent s ∧
      s.manager.sendBuffer ≠ [5].take s.manager.sendBuffer.length :=
  ⟨_, Run.of_exec _ (Guarded.always _) rfl, by decide⟩

theorem lastRecvBytes_counts_twice : ∃ (s : Transfer) (bb : BlockBuffer),
    Run (step 1) always (init 1 [5] [3]) lateParent s ∧ s.manager.recvBuffer 1 = some bb ∧
      bb.lastRecvBytes ≠ contiguousBytes [5] s.stored :=
  ⟨_, _, Run.of_exec _ (Guarded.always _) rfl, rfl, by decide⟩

end Transfer

end Mp2bs.Block
