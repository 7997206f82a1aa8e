import Mp2bs.Block.Transfer

/-!
# The block is delivered in order and whole

Without a timeout the node has one session for the block. Its runs are `Waiting` until all owners
have answered, then `Active q r`: `q` segments have been requested, `r` of them read and removed.
-/

namespace Mp2bs.Block
open Mp2bs.Lib.Slice Mp2bs.Lib.Machine

namespace Transfer

def NoTimeout (_ : Transfer) : Label → Prop
  | .timeout _ _ => False
  | _ => True

instance (s : Transfer) : ∀ a, Decidable (NoTimeout s a)
  | .timeout _ _ => .isFalse id
  | .info _ _ | .request _ | .accept _ | .send _ _ | .env _ _ _ _ | .deliver _ _ | .read _ =>
    .isTrue trivial

/- Data numbers below it belong to the first `q` segments. -/
def packetBound (block : Bytes) (q : ℕ) : ℕ :=
  min (packetsPerSegment * q) (numData block.length)

theorem packetBound_le (block : Bytes) (q : ℕ) : packetBound block q ≤ numData block.length :=
  Nat.min_le_right _ _

theorem packetBound_mono (block : Bytes) (q : ℕ) :
    packetBound block q ≤ packetBound block (q + 1) := by
  simp only [packetBound, packetsPerSegment]
  omega

variable {block : Bytes} {q id b : ℕ} {link : Link} {session : Mp2Session} {owners ids : List ℕ}
  {s s' : Transfer} {a : Label} {as : List Label}

theorem div_lt_of_lt_packetBound {d : ℕ} (h : d < packetBound block q) :
    d / packetsPerSegment < q := by
  simp only [packetBound, packetsPerSegment] at *
  omega

theorem nextRequest_end_lt (b : ℕ) (hq : q < numSegments block.length) :
    (nextRequest block b q).endDataNumber < packetBound block (q + 1) := by
  have hnum := numData_pos (segmentData_length_pos hq)
  have hlt := (lt_numData_segment_iff block q (numData (segmentData block q).length - 1)).mp
    (by omega)
  simp only [nextRequest, packetBound, packetsPerSegment] at *
  omega

structure Active (block : Bytes) (b : ℕ) (owners : List ℕ) (q r : ℕ) (link : Link)
    (bb : BlockBuffer) (s : Transfer) : Prop where
  links : s.links = [link]
  infos : link.infos = []
  job : link.job = some (requestJob block b q)
  blockNumber : link.session.blockNumber = b
  sessionMap : link.session.sessionMap = owners
  semCap : link.session.semCap = owners.length
  recvBuffer : s.manager.recvBuffer b = some bb
  q_le : q ≤ numSegments block.length
  slots : Slots block b owners s.handled q r bb.buffer
  front : FrontOnly bb.buffer
  tokens : link.session.sem.length + incomplete bb.buffer = owners.length
  sem : ∀ x ∈ link.session.sem, x ∈ owners
  handled : ∀ d ∈ s.handled, d < packetBound block q
  out : s.out = block.take (readPos r bb.buffer)
  removed_length : s.removed.length = r
  removed_last : ∀ i g, s.removed[i]? = some g → g.last = decide (i + 1 = numSegments block.length)
  requests : ∀ i < q, nextRequest block b i ∈ s.requests
  peers : ∀ p, (s.peers p).Good block b (packetBound block q)

theorem link_of_singleton {links : List Link} {l : Link} {k : ℕ} (h : links = [link])
    (hl : links[k]? = some l) : k = 0 ∧ l = link := by
  rw [h] at hl
  cases k with
  | zero => exact ⟨rfl, (Option.some.inj hl).symm⟩
  | succ k => simp at hl

namespace Active
variable {block : Bytes} {b q r : ℕ} {owners : List ℕ} {link : Link} {bb : BlockBuffer}
  {s s' : Transfer}

theorem link_eq (h : Active block b owners q r link bb s) {k : ℕ} {l : Link}
    (hl : s.links[k]? = some l) : k = 0 ∧ l = link := link_of_singleton h.links hl

theorem buffer_eq (h : Active block b owners q r link bb s) : s.buffer b = bb.buffer := by
  simp only [Transfer.buffer, h.recvBuffer]

theorem setPeer (h : Active block b owners q r link bb s) (p : ℕ) {peer : Peer}
    (hp : peer.Good block b (packetBound block q)) :
    Active block b owners q r link bb (s.setPeer p peer) :=
  ⟨h.links, h.infos, h.job, h.blockNumber, h.sessionMap, h.semCap, h.recvBuffer, h.q_le, h.slots,
    h.front, h.tokens, h.sem, h.handled, h.out, h.removed_length, h.removed_last, h.requests,
    good_update h.peers hp⟩

theorem incomplete_append_nextSegment (l : List Segment) (block : Bytes) (b id q : ℕ) :
    incomplete (l ++ [nextSegment block b id q]) = incomplete l + 1 := by
  simp [incomplete, nextSegment, createSegment]

theorem frontOnly_append {l : List Segment} (h : FrontOnly l) (block : Bytes) (b id q : ℕ) :
    FrontOnly (l ++ [nextSegment block b id q]) := by
  cases l with
  | nil => intro x hx; simp at hx
  | cons g rest =>
    intro x hx
    simp only [List.cons_append, List.map_cons, List.tail_cons, List.map_append, List.map_nil,
      List.mem_append, List.mem_singleton] at hx
    rcases hx with hx | hx
    · exact h x hx
    · exact hx

theorem readPos_append (l : List Segment) (block : Bytes) (b id q r : ℕ) :
    readPos r (l ++ [nextSegment block b id q]) = readPos r l := by
  cases l with
  | nil => simp [readPos, nextSegment, createSegment]
  | cons g rest => rfl

theorem request (h : Active block b owners q r link bb s) (hn : block.length < 2 ^ 32) {k : ℕ}
    (hs : s.stepRequest k = .ok s') :
    ∃ link' bb', Active block b owners (q + 1) r link' bb' s' := by
  obtain ⟨l, job, m, session, job', id, packet, hl, hj, hr, rfl⟩ := stepRequest_cases hs
  obtain ⟨rfl, rfl⟩ := h.link_eq hl
  obtain rfl : job = requestJob block b q := Option.some.inj (hj.symm.trans h.job)
  obtain ⟨rest, hlt, hsem, hmem, -⟩ := Mp2Session.sendBlockRequest_eq_ok hr
  have hq : q < numSegments block.length := by
    rw [lt_numSegments_iff]
    simpa [requestJob] using hlt
  have hid : id ∈ owners := h.sem id (by rw [hsem]; exact List.mem_cons_self ..)
  rw [sendBlockRequest_eq hn hq h.recvBuffer hsem hmem] at hr
  simp only [Except.ok.injEq, Prod.mk.injEq] at hr
  obtain ⟨rfl, rfl, rfl, -, rfl⟩ := hr
  have htok := h.tokens
  rw [hsem, List.length_cons] at htok
  refine ⟨⟨{ l.session with sem := rest }.setOwner id .downloading, l.infos,
    some (requestJob block b (q + 1)), l.firstTimeout⟩,
    { bb with buffer := bb.buffer ++ [nextSegment block b id q] }, ?_⟩
  refine ⟨by rw [h.links]; rfl, h.infos, rfl, h.blockNumber, h.sessionMap, h.semCap,
    Manager.setRecvBuffer_recvBuffer _ _ _, hq, ?_, frontOnly_append h.front block b id q, ?_,
    ?_, ?_, ?_, h.removed_length, h.removed_last, ?_, ?_⟩
  · refine h.slots.push (nextSegment_slot hn hq hid ?_)
    intro d hd
    exact lt_of_lt_of_le (h.handled d hd) (Nat.min_le_left _ _)
  · rw [incomplete_append_nextSegment]
    simp only [Mp2Session.setOwner]
    omega
  · intro x hx
    exact h.sem x (by rw [hsem]; exact List.mem_cons_of_mem _ hx)
  · intro d hd
    exact lt_of_lt_of_le (h.handled d hd) (packetBound_mono block q)
  · rw [readPos_append]
    exact h.out
  · intro i hi
    rcases Nat.lt_succ_iff_lt_or_eq.mp hi with hlt | rfl
    · exact List.mem_append_left _ (h.requests i hlt)
    · exact List.mem_append_right _ (List.mem_singleton.mpr rfl)
  · have hmono : ∀ p, (s.peers p).Good block b (packetBound block (q + 1)) :=
      fun p => (h.peers p).mono (packetBound_mono block q)
    exact good_update hmono ((hmono id).request rfl (nextRequest_end_lt b hq))

theorem deliver (h : Active block b owners q r link bb s) {k p : ℕ}
    (hs : s.stepDeliver k p = .ok s') :
    ∃ link' bb', Active block b owners q r link' bb' s' := by
  obtain ⟨l, packet, rest, m, session, hl, hc, hr, rfl⟩ := stepDeliver_cases hs
  obtain ⟨rfl, rfl⟩ := h.link_eq hl
  obtain ⟨⟨sid, d, hd, rfl⟩, hgood⟩ := (h.peers p).deliver hc
  obtain ⟨bb', hh⟩ := handled_of_handle h.recvBuffer h.blockNumber h.slots
    (lt_of_lt_of_le hd (packetBound_le block q)) (div_lt_of_lt_packetBound hd) hr
  have htok := hh.tokens
  rw [h.tokens] at htok
  refine ⟨{ l with session := session }, bb', ?_⟩
  refine ⟨?_, h.infos, h.job, ?_, ?_, ?_, hh.recvBuffer, h.q_le, hh.slots, ?_, htok, ?_, ?_, ?_,
    h.removed_length, h.removed_last, h.requests, good_update h.peers hgood⟩
  · show s.links.set 0 { l with session := session } = _
    rw [h.links]
    rfl
  · show session.blockNumber = b
    rw [hh.session]
    exact h.blockNumber
  · show session.sessionMap = owners
    rw [hh.session]
    exact h.sessionMap
  · show session.semCap = owners.length
    rw [hh.session]
    exact h.semCap
  · unfold FrontOnly
    rw [hh.read]
    exact h.front
  · intro x hx
    exact (hh.sem x hx).elim (h.sem x) id
  · intro d' hd'
    rcases List.mem_append.mp hd' with hm | hm
    · exact h.handled d' hm
    · rw [List.mem_singleton.mp hm]
      exact hd
  · unfold readPos
    rw [hh.read]
    exact h.out

theorem read (h : Active block b owners q r link bb s) {bufLen : ℕ}
    (hs : s.stepRead b bufLen = .ok s') :
    ∃ r' bb', Active block b owners q r' link bb' s' := by
  obtain ⟨m, data, hr, heq⟩ := stepRead_cases hs
  rw [h.buffer_eq] at heq
  rcases mp2ReadBlock_cases h.recvBuffer h.slots h.front hr with
    ⟨hnil, rfl, rfl⟩ | ⟨g, rest, bb', hbuf, hm, hcase⟩
  · have hsame : s' = s := by
      rw [heq]
      simp [Transfer.buffer, h.recvBuffer, hnil]
    rw [hsame]
    exact ⟨r, bb, h⟩
  · have hb' : ∀ t : Transfer, t.manager = m → t.buffer b = bb'.buffer := by
      intro t ht
      simp only [Transfer.buffer, ht, hm]
    rw [hb' _ rfl] at heq
    subst heq
    rcases hcase with ⟨hrest, hres⟩ | ⟨hlen, hres⟩
    · have hslot := h.slots.slot 0 g (by rw [hbuf]; rfl)
      refine ⟨r + 1, bb', h.links, h.infos, h.job, h.blockNumber, h.sessionMap, h.semCap, hm, h.q_le,
        hres.slots, hres.front, ?_, h.sem, h.handled, ?_, ?_, ?_, h.requests, h.peers⟩
      · rw [hres.incomplete]
        exact h.tokens
      · rw [← hres.data, h.out]
      all_goals
        simp only [hrest, hbuf, List.length_cons, Nat.lt_succ_self, if_true, List.head?_cons,
          Option.toList_some]
      · rw [List.length_append, h.removed_length, List.length_singleton]
      · intro i g' hg'
        rcases Nat.lt_or_ge i s.removed.length with hlt | hge
        · rw [List.getElem?_append_left hlt] at hg'
          exact h.removed_last i g' hg'
        · rw [List.getElem?_append_right hge] at hg'
          have hi : i - s.removed.length = 0 := by
            have := (List.getElem?_eq_some_iff.mp hg').1
            simp only [List.length_singleton] at this
            omega
          rw [hi, List.getElem?_cons_zero] at hg'
          rw [← Option.some.inj hg', hslot.last]
          have hri := h.removed_length
          have he : r + 0 + 1 = i + 1 := by omega
          rw [he]
    · refine ⟨r, bb', h.links, h.infos, h.job, h.blockNumber, h.sessionMap, h.semCap, hm, h.q_le,
        hres.slots, hres.front, ?_, h.sem, h.handled, ?_, ?_, ?_, h.requests, h.peers⟩
      · rw [hres.incomplete]
        exact h.tokens
      · rw [← hres.data, h.out]
      all_goals
        simp only [hlen, Nat.lt_irrefl, if_false]
      · exact h.removed_length
      · exact h.removed_last

end Active

/-! ### Before all owners have answered -/

/- `blockOwners` when the answers of the peers `ids` are missing. -/
def answered (owners ids : List ℕ) : List (ℕ × PeerStatus) :=
  owners.map fun p => (p, if p ∈ ids then .notKnown else .hasBlock)

theorem ownersWith_hasBlock (h : session.blockOwners = answered owners ids) :
    session.ownersWith .hasBlock = owners.filter (· ∉ ids) := by
  rw [Mp2Session.ownersWith, h]
  clear h
  induction owners with
  | nil => rfl
  | cons p owners ih =>
    by_cases hp : p ∈ ids
    · simpa [answered, hp] using ih
    · simpa [answered, hp] using ih

theorem ownersWith_hasNoBlock (h : session.blockOwners = answered owners ids) :
    session.ownersWith .hasNoBlock = [] := by
  rw [Mp2Session.ownersWith, h]
  clear h
  induction owners with
  | nil => rfl
  | cons p owners ih =>
    by_cases hp : p ∈ ids
    · simpa [answered, hp] using ih
    · simpa [answered, hp] using ih

theorem setOwner_answered (h : session.blockOwners = answered owners ids) (hid : id ∈ owners) :
    (session.setOwner id .hasBlock).blockOwners = answered owners (ids.filter (· != id)) := by
  have hany : (answered owners ids).any (·.1 == id) = true := by
    rw [List.any_eq_true]
    exact ⟨_, List.mem_map_of_mem hid, by simp⟩
  simp only [Mp2Session.setOwner, h, hany, if_true]
  simp only [answered, List.map_map]
  apply List.map_congr_left
  intro p _
  by_cases hp : p = id
  · simp [hp]
  · simp [hp]

theorem handleBlockInfoPacket_eq {m : Manager} (status : PeerStatus) (blockSize : ℕ)
    (h : session.blockOwners = answered owners ids) (hid : id ∈ owners) :
    ∃ session', session'.sessionMap = session.sessionMap ∧ session'.blockNumber = b ∧
      session'.blockOwners = answered owners (ids.filter (· != id)) ∧
      session'.sem = session.sem ∧
      session.handleBlockInfoPacket m ⟨b, status, blockSize⟩ id =
        if ∀ p ∈ owners, p ∉ ids.filter (· != id) then
          (m.setRecvBuffer b ((m.recvBuffer b).getD createBlockBuffer),
            { session' with sem := owners, semCap := owners.length },
            some ⟨b, blockSize, ((m.recvBuffer b).getD createBlockBuffer).lastRecvBytes, 0⟩)
        else (m, session', none) := by
  have hown : ({ session with blockNumber := b }.setOwner id .hasBlock).blockOwners =
      answered owners (ids.filter (· != id)) := setOwner_answered h hid
  refine ⟨{ session with blockNumber := b }.setOwner id .hasBlock, rfl, rfl, hown, rfl, ?_⟩
  have hlen : (answered owners (ids.filter (· != id))).length = owners.length := List.length_map _
  have hiff := List.length_filter_eq_length_iff (p := fun p => decide (p ∉ ids.filter (· != id)))
    (l := owners)
  simp only [decide_eq_true_eq] at hiff
  unfold Mp2Session.handleBlockInfoPacket
  dsimp only
  rw [ownersWith_hasBlock hown, ownersWith_hasNoBlock hown, List.length_nil, Nat.add_zero,
    hown, hlen]
  simp only [hiff]
  by_cases hall : ∀ p ∈ owners, p ∉ ids.filter (· != id)
  · have hfilter : owners.filter (fun p => decide (p ∉ ids.filter (· != id))) = owners := by
      rw [List.filter_eq_self]
      intro p hp
      exact decide_eq_true (hall p hp)
    simp only [if_pos hall, Mp2Session.startBlockRequest, ownersWith_hasBlock hown, hfilter]
    have hbn : ({ session with blockNumber := b }.setOwner id .hasBlock).blockNumber = b := rfl
    rw [hbn, hown]
  · simp only [if_neg hall]

structure Waiting (block : Bytes) (b : ℕ) (owners : List ℕ) (link : Link) (s : Transfer) :
    Prop where
  links : s.links = [link]
  pending : link.infos ≠ []
  infos : ∀ x ∈ link.infos, x.1 ∈ owners ∧ x.2 = ⟨b, .hasBlock, block.length⟩
  job : link.job = none
  sessionMap : link.session.sessionMap = owners
  blockOwners : link.session.blockOwners = answered owners (link.infos.map (·.1))
  recvBuffer : s.manager.recvBuffer b = none
  out : s.out = []
  removed : s.removed = []
  handled : s.handled = []
  peers : ∀ p, (s.peers p).Good block b 0

namespace Waiting
variable {block : Bytes} {b : ℕ} {owners : List ℕ} {link : Link} {s s' : Transfer}

theorem link_eq (h : Waiting block b owners link s) {k : ℕ} {l : Link}
    (hl : s.links[k]? = some l) : k = 0 ∧ l = link := link_of_singleton h.links hl

theorem init_waiting (block : Bytes) (b : ℕ) {owners : List ℕ} (ho : owners ≠ []) :
    ∃ link, Waiting block b owners link (init b block owners) := by
  refine ⟨_, rfl, ?_, ?_, rfl, rfl, ?_, rfl, rfl, rfl, rfl, ?_⟩
  · simpa [openLink, Mp2Session.create] using ho
  · intro x hx
    obtain ⟨p, hp, rfl⟩ := List.mem_map.mp hx
    exact ⟨hp, rfl⟩
  · simp only [openLink, Mp2Session.create, answered, List.map_map, Function.comp_def, List.map_id']
    apply List.map_congr_left
    intro p hp
    rw [if_pos hp]
  · intro p
    exact ⟨rfl, by simp [init], by simp [init], by simp [init]⟩

theorem setPeer (h : Waiting block b owners link s) (p : ℕ) {peer : Peer}
    (hp : peer.Good block b 0) : Waiting block b owners link (s.setPeer p peer) :=
  ⟨h.links, h.pending, h.infos, h.job, h.sessionMap, h.blockOwners, h.recvBuffer, h.out, h.removed,
    h.handled, good_update h.peers hp⟩

theorem info (h : Waiting block b owners link s) {k id : ℕ} (hs : s.stepInfo k id = .ok s') :
    (∃ link', Waiting block b owners link' s') ∨
      ∃ link' bb, Active block b owners 0 0 link' bb s' := by
  obtain ⟨l, packet, m, session, job, hl, hin, hr, rfl⟩ := stepInfo_cases hs
  obtain ⟨rfl, rfl⟩ := h.link_eq hl
  obtain ⟨hid, hpacket⟩ := h.infos (id, packet) hin
  simp only at hid hpacket
  subst hpacket
  obtain ⟨session', hmap, hbn, hown, _, heq⟩ := handleBlockInfoPacket_eq (m := s.manager)
    .hasBlock block.length h.blockOwners hid
  rw [h.recvBuffer] at heq
  rw [heq] at hr
  have hids : (l.infos.map (·.1)).filter (· != id) =
      (l.infos.filter (·.1 != id)).map (·.1) := by
    rw [List.filter_map]
    rfl
  have hinfos : ∀ x ∈ l.infos.filter (·.1 != id), x.1 ∈ owners ∧
      x.2 = ⟨b, .hasBlock, block.length⟩ := fun x hx => h.infos x (List.mem_of_mem_filter hx)
  by_cases hall : ∀ p ∈ owners, p ∉ (l.infos.map (·.1)).filter (· != id)
  · right
    rw [if_pos hall] at hr
    cases hr
    have hnil : l.infos.filter (·.1 != id) = [] := by
      rw [List.eq_nil_iff_forall_not_mem]
      intro x hx
      refine hall x.1 (hinfos x hx).1 ?_
      rw [hids]
      exact List.mem_map_of_mem hx
    refine ⟨⟨{ session' with sem := owners, semCap := owners.length }, [],
      some (requestJob block b 0), l.firstTimeout⟩, createBlockBuffer, ?_⟩
    refine ⟨?_, rfl, rfl, hbn, by rw [← h.sessionMap]; exact hmap, rfl,
      Manager.setRecvBuffer_recvBuffer _ _ _, Nat.zero_le _, ?_, ?_, ?_, fun x hx => hx, ?_, ?_,
      ?_, ?_, ?_, ?_⟩
    · rw [h.links, hnil]
      simp [requestJob, createBlockBuffer, Option.or]
    · exact ⟨rfl, by simp [createBlockBuffer]⟩
    · simp [FrontOnly, createBlockBuffer]
    · simp [incomplete, createBlockBuffer]
    · simp [h.handled]
    · simp [h.out, readPos, createBlockBuffer]
    · simp [h.removed]
    · simp [h.removed]
    · intro i hi0
      omega
    · intro p
      exact (h.peers p).mono (Nat.zero_le _)
  · left
    rw [if_neg hall] at hr
    cases hr
    refine ⟨⟨session, l.infos.filter (·.1 != id), none, l.firstTimeout⟩, ?_⟩
    refine ⟨?_, ?_, hinfos, rfl, by rw [← h.sessionMap]; exact hmap, ?_, h.recvBuffer, h.out,
      h.removed, h.handled, h.peers⟩
    · rw [h.links, h.job]
      rfl
    · intro hnil
      dsimp only at hnil
      refine hall fun p _ hp => ?_
      rw [hids, hnil] at hp
      simp at hp
    · rw [← hids]
      exact hown

end Waiting

/-! ### All runs -/

def Inv (block : Bytes) (b : ℕ) (owners : List ℕ) (s : Transfer) : Prop :=
  (∃ link, Waiting block b owners link s) ∨
    ∃ q r link bb, Active block b owners q r link bb s

theorem Waiting.step (h : Waiting block b owners link s) (hn : block.length < 2 ^ 32)
    (ha : NoTimeout s a) (hs : s.step b a = .ok s') : Inv block b owners s' := by
  have hpeer : ((∃ p, a = .accept p) ∨ (∃ p i, a = .send p i) ∨ ∃ p c r f, a = .env p c r f) →
      Inv block b owners s' := by
    intro hcase
    obtain ⟨p, peer, rfl, hp⟩ := step_peer hn (Nat.zero_le _) h.peers hcase hs
    exact Or.inl ⟨link, h.setPeer p hp⟩
  cases a with
  | info k id =>
    rcases h.info hs with hw | ⟨link', bb, hact⟩
    · exact Or.inl hw
    · exact Or.inr ⟨0, 0, link', bb, hact⟩
  | request k =>
    obtain ⟨l, job, _, _, _, _, _, hl, hj, _⟩ := stepRequest_cases hs
    obtain ⟨rfl, rfl⟩ := h.link_eq hl
    rw [h.job] at hj
    cases hj
  | accept p => exact hpeer (Or.inl ⟨p, rfl⟩)
  | send p i => exact hpeer (Or.inr (Or.inl ⟨p, i, rfl⟩))
  | env p c r f => exact hpeer (Or.inr (Or.inr ⟨p, c, r, f, rfl⟩))
  | deliver k p =>
    obtain ⟨l, packet, rest, m, session, hl, hc, hr, rfl⟩ := stepDeliver_cases hs
    obtain ⟨⟨sid, d, hd, _⟩, _⟩ := (h.peers p).deliver hc
    omega
  | read n =>
    simp only [Transfer.step, stepRead, Manager.mp2ReadBlock, h.recvBuffer] at hs
    split_ifs at hs
  | timeout k ids => exact ha.elim

theorem Active.step {r : ℕ} {bb : BlockBuffer} (h : Active block b owners q r link bb s)
    (hn : block.length < 2 ^ 32) (ha : NoTimeout s a) (hs : s.step b a = .ok s') :
    Inv block b owners s' := by
  have hpeer : ((∃ p, a = .accept p) ∨ (∃ p i, a = .send p i) ∨ ∃ p c r f, a = .env p c r f) →
      Inv block b owners s' := by
    intro hcase
    obtain ⟨p, peer, rfl, hp⟩ := step_peer hn (packetBound_le block q) h.peers hcase hs
    exact Or.inr ⟨q, r, link, bb, h.setPeer p hp⟩
  cases a with
  | info k id =>
    obtain ⟨l, packet, _, _, _, hl, hin, _⟩ := stepInfo_cases hs
    obtain ⟨rfl, rfl⟩ := h.link_eq hl
    rw [h.infos] at hin
    cases hin
  | request k =>
    obtain ⟨link', bb', hact⟩ := h.request hn hs
    exact Or.inr ⟨q + 1, r, link', bb', hact⟩
  | accept p => exact hpeer (Or.inl ⟨p, rfl⟩)
  | send p i => exact hpeer (Or.inr (Or.inl ⟨p, i, rfl⟩))
  | env p c r f => exact hpeer (Or.inr (Or.inr ⟨p, c, r, f, rfl⟩))
  | deliver k p =>
    obtain ⟨link', bb', hact⟩ := h.deliver hs
    exact Or.inr ⟨q, r, link', bb', hact⟩
  | read n =>
    obtain ⟨r', bb', hact⟩ := h.read hs
    exact Or.inr ⟨q, r', link, bb', hact⟩
  | timeout k ids => exact ha.elim

theorem inv_of_run (hn : block.length < 2 ^ 32) (ho : owners ≠ [])
    (h : Run (step b) NoTimeout (init b block owners) as s) : Inv block b owners s := by
  refine h.invariant (Inv block b owners) (Or.inl (Waiting.init_waiting block b ho)) ?_
  rintro s a s' (⟨link, hw⟩ | ⟨q, r, link, bb, hact⟩) ha hs
  · exact hw.step hn ha hs
  · exact hact.step hn ha hs

/- Every packet asked for so far has been handled. -/
def AllHandled (s : Transfer) : Prop :=
  ∀ r ∈ s.requests, ∀ d, r.startDataNumber ≤ d → d ≤ r.endDataNumber → d ∈ s.handled

def NothingToRead (b : ℕ) (s : Transfer) : Prop :=
  ∀ g ∈ (s.buffer b).head?, g.hasDataToRead = false

def AllRequested (s : Transfer) : Prop :=
  ∃ link ∈ s.links, ∃ job ∈ link.job, job.blockSize ≤ job.offset

namespace Active
variable {block : Bytes} {b q r : ℕ} {owners : List ℕ} {link : Link} {bb : BlockBuffer}
  {s : Transfer}

theorem allRequested_iff (h : Active block b owners q r link bb s) :
    s.AllRequested ↔ q = numSegments block.length := by
  have hle := le_numSegments_mul block.length
  constructor
  · rintro ⟨l, hl, job, hj, hsize⟩
    rw [h.links, List.mem_singleton] at hl
    rw [hl, h.job, Option.mem_some_iff] at hj
    rw [← hj] at hsize
    have hmul : block.length ≤ segmentSize * q := (le_min_iff.mp hsize).1
    refine le_antisymm h.q_le (Nat.not_lt.mp fun hlt => ?_)
    exact absurd ((lt_numSegments_iff _ _).mp hlt) (Nat.not_lt.mpr hmul)
  · intro he
    rw [← he] at hle
    refine ⟨link, by rw [h.links]; exact List.mem_singleton.mpr rfl, _, h.job, ?_⟩
    exact le_min hle le_rfl

theorem complete_of_allHandled (h : Active block b owners q r link bb s) (ha : s.AllHandled)
    {k : ℕ} {g : Segment} (hg : bb.buffer[k]? = some g) : g.complete = true := by
  have hslot := h.slots.slot k g hg
  have hk := (List.getElem?_eq_some_iff.mp hg).1
  have hlen := h.slots.length
  rw [hslot.holds.complete_iff]
  intro t ht
  have hnum := ht
  rw [hslot.size_eq] at hnum
  refine hslot.stored t ht (ha _ (h.requests (r + k) (by omega)) _ ?_ ?_)
  · simp only [nextRequest]
    omega
  · simp only [nextRequest]
    omega

theorem buffer_nil_of_allHandled (h : Active block b owners q r link bb s) (ha : s.AllHandled)
    (hr : s.NothingToRead b) : bb.buffer = [] := by
  cases hbuf : bb.buffer with
  | nil => rfl
  | cons g rest =>
    have hg : bb.buffer[0]? = some g := by rw [hbuf]; rfl
    have hslot := h.slots.slot 0 g hg
    have hc := h.complete_of_allHandled ha hg
    have hno := hr g (by rw [h.buffer_eq, hbuf]; rfl)
    have hunread := hslot.unread
    rw [Segment.hasDataToRead, decide_eq_false_iff_not, hslot.holds.lastRecv_of_complete hc] at hno
    omega

theorem request_enabled (h : Active block b owners q r link bb s) (hn : block.length < 2 ^ 32)
    (ho : owners ≠ []) (ha : s.AllHandled) (hr : s.NothingToRead b) (hq : ¬s.AllRequested) :
    ∃ s', s.step b (.request 0) = .ok s' := by
  have htok := h.tokens
  have hlen := List.length_pos_iff.mpr ho
  rw [h.buffer_nil_of_allHandled ha hr] at htok
  rw [h.allRequested_iff] at hq
  have hlt : q < numSegments block.length := lt_of_le_of_ne h.q_le hq
  cases hsem : link.session.sem with
  | nil =>
    rw [hsem] at htok
    simp [incomplete] at htok
    omega
  | cons id rest =>
    have hid : id ∈ owners := h.sem id (by rw [hsem]; exact List.mem_cons_self ..)
    have heq := sendBlockRequest_eq hn hlt h.recvBuffer hsem (by rw [h.sessionMap]; exact hid)
    simp only [Transfer.step, stepRequest, h.links, List.getElem?_cons_zero, h.job, heq]
    exact ⟨_, rfl⟩

end Active

end Transfer

end Mp2bs.Block
