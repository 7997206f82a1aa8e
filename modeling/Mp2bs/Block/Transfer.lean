import Mp2bs.Lib.Machine
import Mp2bs.Block.Tiling

/-!
# A node that receives one block

The node has a list of `Mp2Session`s for the block: the one its parent opened, and after a timeout one
more for the pull peers (`mp2session.go:819-872`, `mp2session_manager.go:144-199`). Each peer is reached
over a session of its own, which carries requests one way and data packets the other way in order.
-/

namespace Mp2bs.Block
open Mp2bs.Lib.Machine

structure Peer where
  view : SendView
  requests : List BlockRequestPacket
  jobs : List SendJob
  channel : List BlockDataPacket
  deriving Repr, DecidableEq

/- An `Mp2Session` of the node with its goroutines: `infos` are the Block Info Packets
under way to it, `job` is its `sendBlockRequest`, and `firstTimeout` belongs to `timer`. -/
structure Link where
  session : Mp2Session
  infos : List (ℕ × BlockInfoPacket)
  job : Option RequestJob
  firstTimeout : Bool
  deriving Repr, DecidableEq

/- The last five fields are history: the bytes returned and the segments removed by reads, the requests
sent, the data numbers handled, and those of them stored in a segment. -/
structure Transfer where
  manager : Manager
  links : List Link
  peers : ℕ → Peer
  out : Bytes
  removed : List Segment
  requests : List BlockRequestPacket
  handled : List ℕ
  stored : List ℕ

namespace Transfer

inductive Label where
  | info (k id : ℕ)
  | request (k : ℕ)
  | accept (p : ℕ)
  | send (p i : ℕ)
  | env (p stopSendCond : ℕ) (lastRecvBytes : Option ℕ) (firstSegment : Bool)
  | deliver (k p : ℕ)
  | read (bufLen : ℕ)
  | timeout (k : ℕ) (pullSessions : List ℕ)
  deriving Repr, DecidableEq

def openLink (session : Mp2Session) (blockNumber blockSize : ℕ) : Link :=
  ⟨session, session.sessionMap.map fun id => (id, ⟨blockNumber, .hasBlock, blockSize⟩), none, true⟩

def init (blockNumber : ℕ) (block : Bytes) (sessions : List ℕ) : Transfer where
  manager := ⟨[], fun _ => none, false⟩
  links := [openLink (Mp2Session.create sessions) blockNumber block.length]
  peers := fun _ => ⟨⟨false, block, 0, none, true⟩, [], [], []⟩
  out := []
  removed := []
  requests := []
  handled := []
  stored := []

def buffer (s : Transfer) (b : ℕ) : List Segment :=
  match s.manager.recvBuffer b with
  | none => []
  | some bb => bb.buffer

def setPeer (s : Transfer) (p : ℕ) (peer : Peer) : Transfer :=
  { s with peers := Function.update s.peers p peer }

-- the Block Info Packet of peer id reaches session k
def stepInfo (s : Transfer) (k id : ℕ) : Except Stop Transfer :=
  match s.links[k]? with
  | none => .error .blocked
  | some link => match link.infos.lookup id with
    | none => .error .blocked
    | some packet =>
      let (m, session, job) := link.session.handleBlockInfoPacket s.manager packet id
      .ok { s with
        manager := m
        links := s.links.set k ⟨session, link.infos.filter (·.1 != id), job.or link.job,
          link.firstTimeout⟩ }

def stepRequest (s : Transfer) (k : ℕ) : Except Stop Transfer :=
  match s.links[k]? with
  | none => .error .blocked
  | some link => match link.job with
    | none => .error .blocked
    | some job => match link.session.sendBlockRequest s.manager job with
      | .error e => .error e
      | .ok (m, session, job, id, packet) =>
        .ok { s with
          manager := m
          links := s.links.set k { link with session := session, job := some job }
          peers := Function.update s.peers id
            { s.peers id with requests := (s.peers id).requests ++ [packet] }
          requests := s.requests ++ [packet] }

def stepAccept (s : Transfer) (p : ℕ) : Except Stop Transfer :=
  match (s.peers p).requests with
  | [] => .error .blocked
  | packet :: rest =>
    .ok (s.setPeer p { s.peers p with
      requests := rest
      jobs := (s.peers p).jobs ++ [startSendBlockData p packet] })

def stepSend (s : Transfer) (p i : ℕ) : Except Stop Transfer :=
  match (s.peers p).jobs[i]? with
  | none => .error .blocked
  | some j => match j.step (s.peers p).view with
    | .error e => .error e
    | .ok (view, j', out) =>
      .ok (s.setPeer p { s.peers p with
        view := view
        jobs := (s.peers p).jobs.set i j'
        channel := (s.peers p).channel ++ out.toList })

def delivered (s : Transfer) (k p : ℕ) (link : Link) (packet : BlockDataPacket)
    (rest : List BlockDataPacket) (m : Manager) (session : Mp2Session) : Transfer :=
  { s with
    manager := m
    links := s.links.set k { link with session := session }
    peers := Function.update s.peers p { s.peers p with channel := rest }
    handled := s.handled ++ [packet.dataNumber]
    stored := if (s.buffer link.session.blockNumber).any (·.takes packet)
      then s.stored ++ [packet.dataNumber] else s.stored }

def stepDeliver (s : Transfer) (k p : ℕ) : Except Stop Transfer :=
  match s.links[k]? with
  | none => .error .blocked
  | some link => match (s.peers p).channel with
    | [] => .error .blocked
    | packet :: rest =>
      if p ∈ link.session.sessionMap then
        match link.session.handleBlockDataPacket s.manager packet with
        | .error e => .error e
        | .ok (m, session) => .ok (s.delivered k p link packet rest m session)
      else .error .blocked

def stepRead (b : ℕ) (s : Transfer) (bufLen : ℕ) : Except Stop Transfer :=
  if bufLen = 0 then .error .blocked
  else match s.manager.mp2ReadBlock bufLen b with
    | .error e => .error e
    | .ok (m, data) =>
      let s' := { s with manager := m, out := s.out ++ data }
      .ok { s' with
        removed := if (s'.buffer b).length < (s.buffer b).length
          then s.removed ++ (s.buffer b).head?.toList else s.removed }

/- The timeout of session `k`'s timer: the reader has caught up, the segments are dropped
and a session for the pull peers is opened. -/
def stepTimeout (s : Transfer) (k : ℕ) (pullSessions : List ℕ) : Except Stop Transfer :=
  match s.links[k]? with
  | none => .error .blocked
  | some link => match link.job, s.manager.recvBuffer link.session.blockNumber with
    | some job, some bb =>
      if link.firstTimeout ∧ bb.lastRecvBytes ≠ job.blockSize ∧ bb.lastRecvBytes ≤ bb.readBytes then
        .ok { s with
          manager := s.manager.setRecvBuffer link.session.blockNumber { bb with buffer := [] }
          links := s.links.set k { link with firstTimeout := false } ++
            [openLink ((Mp2Session.create pullSessions).findBlock job.blockNumber)
              job.blockNumber job.blockSize] }
      else .error .blocked
    | _, _ => .error .blocked

def step (b : ℕ) (s : Transfer) : Label → Except Stop Transfer
  | .info k id => s.stepInfo k id
  | .request k => s.stepRequest k
  | .accept p => s.stepAccept p
  | .send p i => s.stepSend p i
  | .env p stopSendCond lastRecvBytes firstSegment =>
    .ok (s.setPeer p { s.peers p with
      view := ⟨(s.peers p).view.fecMode, (s.peers p).view.sendBuffer, stopSendCond,
        lastRecvBytes, firstSegment⟩ })
  | .deliver k p => s.stepDeliver k p
  | .read bufLen => s.stepRead b bufLen
  | .timeout k pullSessions => s.stepTimeout k pullSessions

end Transfer

/-! ### Peers that hold the block -/

structure Peer.Good (block : Bytes) (b bound : ℕ) (p : Peer) : Prop where
  buffer : p.view.sendBuffer = block
  requests : ∀ r ∈ p.requests, r.blockNumber = b ∧ r.endDataNumber < bound
  jobs : ∀ j ∈ p.jobs, (j.request.blockNumber = b ∧ j.request.endDataNumber < bound) ∧
    j.Ready block block
  channel : ∀ packet ∈ p.channel, ∃ sid d, d < bound ∧ packet = dataPacket b sid d block

namespace Peer.Good
variable {block : Bytes} {b bound : ℕ} {p : Peer}

theorem mono (h : p.Good block b bound) {bound' : ℕ} (hle : bound ≤ bound') :
    p.Good block b bound' := by
  refine ⟨h.buffer, ?_, ?_, ?_⟩
  · intro r hr
    have := h.requests r hr
    exact ⟨this.1, by omega⟩
  · intro j hj
    have := h.jobs j hj
    exact ⟨⟨this.1.1, by omega⟩, this.2⟩
  · intro packet hp
    obtain ⟨sid, d, hd, he⟩ := h.channel packet hp
    exact ⟨sid, d, by omega, he⟩

theorem request (h : p.Good block b bound) {r : BlockRequestPacket} (hb : r.blockNumber = b)
    (hr : r.endDataNumber < bound) :
    Good block b bound { p with requests := p.requests ++ [r] } := by
  refine ⟨h.buffer, ?_, h.jobs, h.channel⟩
  intro r' hr'
  rcases List.mem_append.mp hr' with hm | hm
  · exact h.requests r' hm
  · rw [List.mem_singleton.mp hm]
    exact ⟨hb, hr⟩

theorem accept (h : p.Good block b bound) {r : BlockRequestPacket} {rest : List BlockRequestPacket}
    (hr : p.requests = r :: rest) (sid : ℕ) :
    Good block b bound { p with
      requests := rest
      jobs := p.jobs ++ [startSendBlockData sid r] } := by
  have hmem := h.requests
  rw [hr] at hmem
  refine ⟨h.buffer, fun r' hr' => hmem r' (List.mem_cons_of_mem _ hr'), ?_, h.channel⟩
  intro j hj
  rcases List.mem_append.mp hj with hm | hm
  · exact h.jobs j hm
  · rw [List.mem_singleton.mp hm]
    exact ⟨hmem r (List.mem_cons_self ..), trivial⟩

theorem clear_self (block : Bytes) (j : SendJob) : j.Clear block block := by
  unfold SendJob.Clear
  cases j.pc with
  | check d => exact fun _ => ⟨List.prefix_refl _, Or.inl rfl⟩
  | size d => exact rfl
  | wait | gate | emit d n | done => trivial

theorem send (h : p.Good block b bound) (hn : block.length < 2 ^ 32)
    (hb : bound ≤ numData block.length) {i : ℕ} {j : SendJob} (hj : p.jobs[i]? = some j)
    {first : Bool} {pc : SendPc} {out : Option BlockDataPacket} (hm : j.Move p.view pc out) :
    Good block b bound { p with
      view := { p.view with firstSegment := first }
      jobs := p.jobs.set i { j with pc := pc }
      channel := p.channel ++ out.toList } := by
  obtain ⟨hreq, hself⟩ := h.jobs j (List.mem_of_getElem? hj)
  have hfit : j.Fits block := ⟨hn, by omega⟩
  have hready : j.Ready block p.view.sendBuffer := by
    rw [h.buffer]
    exact hself
  have hclear : j.Clear block p.view.sendBuffer := by
    rw [h.buffer]
    exact clear_self block j
  refine ⟨h.buffer, h.requests, ?_, ?_⟩
  · intro j' hj'
    rcases List.mem_or_eq_of_mem_set hj' with hm' | rfl
    · exact h.jobs j' hm'
    · have hr := SendJob.ready_of_move hfit hready hclear hm
      rw [h.buffer] at hr
      exact ⟨hreq, hr⟩
  · intro packet hp
    rcases List.mem_append.mp hp with hp | hp
    · exact h.channel packet hp
    · have ho := Option.mem_toList.mp hp
      rw [Option.mem_def.mp ho] at hm
      obtain ⟨d, hd, he⟩ := SendJob.packet_of_ready hfit hready hm
      exact ⟨j.sessionID, d, by omega, by rw [he, hreq.1]⟩

theorem deliver (h : p.Good block b bound) {packet : BlockDataPacket} {rest : List BlockDataPacket}
    (hc : p.channel = packet :: rest) :
    (∃ sid d, d < bound ∧ packet = dataPacket b sid d block) ∧
      Good block b bound { p with channel := rest } := by
  have hmem := h.channel
  rw [hc] at hmem
  exact ⟨hmem packet (List.mem_cons_self ..), h.buffer, h.requests, h.jobs,
    fun x hx => hmem x (List.mem_cons_of_mem _ hx)⟩

end Peer.Good

namespace Transfer
variable {block : Bytes} {b bound : ℕ} {s s' : Transfer}

theorem stepDeliver_cases {k p : ℕ} (h : s.stepDeliver k p = .ok s') :
    ∃ link packet rest m session, s.links[k]? = some link ∧
      (s.peers p).channel = packet :: rest ∧
      link.session.handleBlockDataPacket s.manager packet = .ok (m, session) ∧
      s' = s.delivered k p link packet rest m session := by
  unfold stepDeliver at h
  cases hl : s.links[k]? with
  | none => simp [hl] at h
  | some link =>
    simp only [hl] at h
    cases hc : (s.peers p).channel with
    | nil => simp [hc] at h
    | cons packet rest =>
      simp only [hc] at h
      by_cases hp : p ∈ link.session.sessionMap
      · rw [if_pos hp] at h
        cases hr : link.session.handleBlockDataPacket s.manager packet with
        | error e => simp [hr] at h
        | ok result =>
          obtain ⟨m, session⟩ := result
          simp only [hr, Except.ok.injEq] at h
          exact ⟨link, packet, rest, m, session, rfl, rfl, hr, h.symm⟩
      · simp [if_neg hp] at h

theorem stepInfo_cases {k id : ℕ} (h : s.stepInfo k id = .ok s') :
    ∃ link packet m session job, s.links[k]? = some link ∧ (id, packet) ∈ link.infos ∧
      link.session.handleBlockInfoPacket s.manager packet id = (m, session, job) ∧
      s' = { s with
        manager := m
        links := s.links.set k ⟨session, link.infos.filter (·.1 != id), job.or link.job,
          link.firstTimeout⟩ } := by
  unfold stepInfo at h
  cases hl : s.links[k]? with
  | none => simp [hl] at h
  | some link =>
    simp only [hl] at h
    cases hi : link.infos.lookup id with
    | none => simp [hi] at h
    | some packet =>
      obtain ⟨l₁, l₂, hsplit, _⟩ := List.lookup_eq_some_iff.mp hi
      simp only [hi, Except.ok.injEq] at h
      exact ⟨link, packet, _, _, _, rfl, by rw [hsplit]; simp, rfl, h.symm⟩

theorem stepRequest_cases {k : ℕ} (h : s.stepRequest k = .ok s') :
    ∃ link job m session job' id packet, s.links[k]? = some link ∧ link.job = some job ∧
      link.session.sendBlockRequest s.manager job = .ok (m, session, job', id, packet) ∧
      s' = { s with
        manager := m
        links := s.links.set k { link with session := session, job := some job' }
        peers := Function.update s.peers id
          { s.peers id with requests := (s.peers id).requests ++ [packet] }
        requests := s.requests ++ [packet] } := by
  unfold stepRequest at h
  cases hl : s.links[k]? with
  | none => simp [hl] at h
  | some link =>
    simp only [hl] at h
    cases hj : link.job with
    | none => simp [hj] at h
    | some job =>
      simp only [hj] at h
      cases hr : link.session.sendBlockRequest s.manager job with
      | error e => simp [hr] at h
      | ok result =>
        obtain ⟨m, session, job', id, packet⟩ := result
        simp only [hr, Except.ok.injEq] at h
        exact ⟨link, job, m, session, job', id, packet, rfl, hj, hr, h.symm⟩

theorem stepRead_cases {bufLen : ℕ} (h : s.stepRead b bufLen = .ok s') :
    ∃ m data, s.manager.mp2ReadBlock bufLen b = .ok (m, data) ∧
      s' = { s with
        manager := m
        out := s.out ++ data
        removed := if ({ s with manager := m }.buffer b).length < (s.buffer b).length
          then s.removed ++ (s.buffer b).head?.toList else s.removed } := by
  unfold stepRead at h
  split_ifs at h
  cases hr : s.manager.mp2ReadBlock bufLen b with
  | error e => simp [hr] at h
  | ok result =>
    obtain ⟨m, data⟩ := result
    simp only [hr, Except.ok.injEq] at h
    exact ⟨m, data, rfl, h.symm⟩

theorem stepTimeout_cases {k : ℕ} {ids : List ℕ} (h : s.stepTimeout k ids = .ok s') :
    ∃ link job bb, s.links[k]? = some link ∧ link.job = some job ∧
      s.manager.recvBuffer link.session.blockNumber = some bb ∧
      s' = { s with
        manager := s.manager.setRecvBuffer link.session.blockNumber { bb with buffer := [] }
        links := s.links.set k { link with firstTimeout := false } ++
          [openLink ((Mp2Session.create ids).findBlock job.blockNumber) job.blockNumber
            job.blockSize] } := by
  unfold stepTimeout at h
  cases hl : s.links[k]? with
  | none => simp [hl] at h
  | some link =>
    simp only [hl] at h
    cases hj : link.job with
    | none => simp [hj] at h
    | some job =>
      cases hbuf : s.manager.recvBuffer link.session.blockNumber with
      | none => simp [hj, hbuf] at h
      | some bb =>
        simp only [hj, hbuf] at h
        split_ifs at h
        exact ⟨link, job, bb, rfl, hj, hbuf, by rw [hj, ← Except.ok.inj h]⟩

theorem stepAccept_good (hg : ∀ p, (s.peers p).Good block b bound) {p : ℕ}
    (h : s.stepAccept p = .ok s') : ∃ peer, s' = s.setPeer p peer ∧ peer.Good block b bound := by
  unfold stepAccept at h
  cases hr : (s.peers p).requests with
  | nil => simp [hr] at h
  | cons r rest =>
    simp only [hr, Except.ok.injEq] at h
    exact ⟨_, h.symm, (hg p).accept hr p⟩

theorem stepSend_good (hn : block.length < 2 ^ 32) (hb : bound ≤ numData block.length)
    (hg : ∀ p, (s.peers p).Good block b bound) {p i : ℕ} (h : s.stepSend p i = .ok s') :
    ∃ peer, s' = s.setPeer p peer ∧ peer.Good block b bound := by
  unfold stepSend at h
  cases hj : (s.peers p).jobs[i]? with
  | none => simp [hj] at h
  | some j =>
    simp only [hj] at h
    cases hs : j.step (s.peers p).view with
    | error e => simp [hs] at h
    | ok result =>
      obtain ⟨view, j', out⟩ := result
      simp only [hs, Except.ok.injEq] at h
      obtain ⟨first, pc, rfl, rfl, hm⟩ := SendJob.step_move hs
      exact ⟨_, h.symm, (hg p).send hn hb hj hm⟩

theorem stepEnv_good (hg : ∀ p, (s.peers p).Good block b bound) {p c : ℕ} {r : Option ℕ} {f : Bool}
    (h : s.step b (.env p c r f) = .ok s') :
    ∃ peer, s' = s.setPeer p peer ∧ peer.Good block b bound := by
  simp only [step, Except.ok.injEq] at h
  exact ⟨_, h.symm, (hg p).buffer, (hg p).requests, (hg p).jobs, (hg p).channel⟩

theorem step_peer (hn : block.length < 2 ^ 32) (hb : bound ≤ numData block.length)
    (hg : ∀ p, (s.peers p).Good block b bound) {a : Label}
    (ha : (∃ p, a = .accept p) ∨ (∃ p i, a = .send p i) ∨ ∃ p c r f, a = .env p c r f)
    (h : s.step b a = .ok s') :
    ∃ p peer, s' = s.setPeer p peer ∧ peer.Good block b bound := by
  rcases ha with ⟨p, rfl⟩ | ⟨p, i, rfl⟩ | ⟨p, c, r, f, rfl⟩
  · exact ⟨p, stepAccept_good hg h⟩
  · exact ⟨p, stepSend_good hn hb hg h⟩
  · exact ⟨p, stepEnv_good hg h⟩

theorem good_update (hg : ∀ p, (s.peers p).Good block b bound) {p : ℕ} {peer : Peer}
    (hp : peer.Good block b bound) (p' : ℕ) :
    (Function.update s.peers p peer p').Good block b bound := by
  by_cases he : p' = p
  · rw [he, Function.update_self]
    exact hp
  · rw [Function.update_of_ne he]
    exact hg p'

end Transfer

end Mp2bs.Block
