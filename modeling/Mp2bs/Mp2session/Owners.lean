import Mp2bs.Block.Node
import Mp2bs.Lib.Machine
import Mp2bs.Mp2session.Codec

/-!
# Finding the owners of a block and asking them

A peer announces a block with `Mp2SendBlockInfo` (`mp2session_manager.go:374-386`); the node records the
announcement of each session in `blockOwners` (`mp2session.go:237-280`) and, once every session has
answered, starts a goroutine that asks the owners for the segments, `sendBlockRequest` or, in FEC mode,
`sendFecBlockRequest` (416-539; so below).

`Node` is the asking node with its goroutines, `Exchange` has the peers as well. A session stands for the
peer at its other end. All sessions are added before the exchange begins
(`mp2session_manager.go:151-198, 243-265`).
-/

namespace Mp2bs.Mp2session.Owners
open Mp2bs.Lib.Machine Mp2bs.Lib.Wire
open Mp2bs.Block (PeerStatus numData payloadSize segmentSize)

/-- The number of a status (`config/config.go:41-44`). -/
def code : PeerStatus → UInt32
  | .notKnown => 0
  | .hasBlock => 1
  | .hasNoBlock => 2
  | .downloading => 3

abbrev BlockList := AList fun _ : UInt32 => UInt32

def BlockList.sizes (blockList : BlockList) : List UInt32 := blockList.entries.map (·.2)

/-- `Mp2SendBlockInfo`, with `CreateBlockInfoPacket`. The loop `for _, s := range p.blockList`
compares the block number with the values of the map. -/
def mp2SendBlockInfo (blockList : BlockList) (blockNumber blockSize : UInt32) : BlockInfoPacket :=
  let status : PeerStatus := if blockNumber ∈ blockList.sizes then .hasBlock else .hasNoBlock
  createBlockInfoPacket blockNumber (code status) blockSize

/-! ### The asking node -/

/-- Where a request loop is. `left` are the sessions that a `range` over `blockOwners` has not come
to; only `sendFecBlockRequest` has the last one. -/
inductive Pc
  | start
  | pushing (left : List UInt32)
  | looping
  | asking (fecIdx : UInt32) (left : List UInt32)
  deriving Repr, DecidableEq

def Pc.left : Pc → List UInt32
  | .pushing left | .asking _ left => left
  | .start | .looping => []

/-- The local variables of `sendBlockRequest` and `sendFecBlockRequest`. -/
structure Job where
  blockNumber : UInt32
  blockSize : UInt32
  offset : UInt32
  numPeers : ℕ
  pc : Pc
  deriving Repr, DecidableEq

namespace Job

/-- The size of the next segment (443-447, 507-511). -/
def size (job : Job) : UInt32 :=
  if UInt32.ofNat segmentSize ≤ job.blockSize - job.offset then UInt32.ofNat segmentSize
  else job.blockSize - job.offset

def startDataNumber (job : Job) : UInt32 := job.offset / UInt32.ofNat payloadSize

def endDataNumber (job : Job) : UInt32 :=
  job.startDataNumber + UInt32.ofNat (numData job.size.toNat) - 1

/-- The request of `sendBlockRequest` (469). -/
def request (job : Job) : BlockRequestPacket :=
  createBlockRequestPacket job.blockNumber job.startDataNumber job.endDataNumber 0

/-- The request of `sendFecBlockRequest` (532). -/
def fecRequest (job : Job) (fecIdx : UInt32) : BlockRequestPacket :=
  createBlockRequestPacket job.blockNumber job.startDataNumber job.endDataNumber fecIdx.toUInt8

/-- `fecIdx` before the loop over the peers (527). -/
def firstFecIdx (job : Job) : UInt32 := UInt32.ofNat (job.numPeers * 10)

end Job

/-- `lastRecvBytes` is that of the block buffer of each block. `segments` has the session of each
segment and its `FecFinish`; `sem` is the channel of that name with its capacity, and `requests`
what has been sent. -/
structure Node where
  sessionMap : List UInt32
  blockOwners : AList fun _ : UInt32 => PeerStatus
  blockNumber : UInt32
  lastRecvBytes : UInt32 → UInt32
  sem : List UInt32
  semCap : ℕ
  segments : List (UInt32 × Bool)
  jobs : List Job
  requests : List (UInt32 × BlockRequestPacket)

inductive NodeLabel
  | findBlock (id blockNumber : UInt32)
  | receiveData (len : UInt32)
  | completeSegment (i : ℕ)
  | start (j : ℕ)
  | push (j : ℕ) (id : UInt32)
  | endPush (j : ℕ)
  | take (j : ℕ)
  | ask (j : ℕ) (id : UInt32)
  | endAsk (j : ℕ)
  deriving Repr, DecidableEq

namespace Node

/-- `AddSession` for each session (53-58). -/
def create (sessions : List UInt32) : Node where
  sessionMap := sessions
  blockOwners := sessions.foldl (fun m id => m.insert id .notKnown) ∅
  blockNumber := 0
  lastRecvBytes := fun _ => 0
  sem := []
  semCap := 0
  segments := []
  jobs := []
  requests := []

/-- Every session has a status other than not known and downloading (246-255). -/
def allAnswered (n : Node) : Bool :=
  n.blockOwners.entries.countP (fun e => e.2 == .hasBlock || e.2 == .hasNoBlock) ==
    n.blockOwners.entries.length

def numPeers (n : Node) : ℕ := n.blockOwners.entries.countP (·.2 == .hasBlock)

/-- The status of the session, which `handleBlockInfoPacket` sets first (240-243). -/
def record (n : Node) (packet : BlockInfoPacket) (id : UInt32) : Node :=
  { n with blockNumber := packet.blockNumber, blockOwners := n.blockOwners.insert id .hasBlock }

/-- `handleBlockInfoPacket`: in FEC mode the request loop starts at offset 0
(271-275, 479). -/
def handleBlockInfoPacket (fecMode : Bool) (n : Node) (packet : BlockInfoPacket) (id : UInt32) :
    Node :=
  let n := n.record packet id
  if n.allAnswered then
    let offset := if fecMode then 0 else n.lastRecvBytes packet.blockNumber
    { n with jobs := n.jobs ++ [⟨packet.blockNumber, packet.blockSize, offset, 0, .start⟩] }
  else n

def onJob (n : Node) (j : ℕ) (k : Job → Except Stop Node) : Except Stop Node :=
  match n.jobs[j]? with
  | none => .error .blocked
  | some job => k job

def setJob (n : Node) (j : ℕ) (job : Job) : Node := { n with jobs := n.jobs.set j job }

/-- The operations of the node other than the handling of Block Info Packets. The request loops
range over `blockOwners` twice, in any order, and read the statuses as they are then; `receiveData`
and `completeSegment` are what `handleBlockDataPacket` does for them (335, 348-350). -/
def step (fecMode : Bool) (n : Node) : NodeLabel → Except Stop Node
  | .findBlock id blockNumber =>
    if id ∈ n.sessionMap then
      .ok { n with blockNumber := blockNumber, blockOwners := n.blockOwners.insert id .notKnown }
    else .error .blocked
  | .receiveData len =>
    .ok { n with
      lastRecvBytes := Function.update n.lastRecvBytes n.blockNumber
        (n.lastRecvBytes n.blockNumber + len) }
  | .completeSegment i => match n.segments[i]? with
    | some (id, false) =>
      if n.sem.length < n.semCap then
        .ok { n with sem := n.sem ++ [id], segments := n.segments.set i (id, true) }
      else .error .blocked
    | _ => .error .blocked
  | .start j => n.onJob j fun job =>
    if job.pc = .start then
      .ok { n.setJob j { job with numPeers := n.numPeers, pc := .pushing n.blockOwners.keys } with
        sem := []
        semCap := if fecMode then 1 else n.numPeers }
    else .error .blocked
  | .push j id => n.onJob j fun job => match job.pc with
    | .pushing left =>
      if id ∈ left then
        if n.blockOwners.lookup id = some .hasBlock then
          if n.sem.length < n.semCap then
            .ok { n.setJob j { job with
                pc := if fecMode then .looping else .pushing (left.erase id) } with
              sem := n.sem ++ [id] }
          else .error .blocked
        else .ok (n.setJob j { job with pc := .pushing (left.erase id) })
      else .error .blocked
    | _ => .error .blocked
  | .endPush j => n.onJob j fun job =>
    if job.pc = .pushing [] then .ok (n.setJob j { job with pc := .looping })
    else .error .blocked
  | .take j => n.onJob j fun job => match n.sem with
    | [] => .error .blocked
    | id :: sem =>
      if job.pc = .looping ∧ job.offset < job.blockSize then
        if fecMode then
          .ok { n.setJob j { job with pc := .asking job.firstFecIdx n.blockOwners.keys } with
            sem := sem
            segments := n.segments ++ [(id, false)] }
        else
          .ok { n.setJob j { job with offset := job.offset + job.size } with
            sem := sem
            segments := n.segments ++ [(id, false)]
            blockOwners := n.blockOwners.insert id .downloading
            requests := n.requests ++ [(id, job.request)] }
      else .error .blocked
  | .ask j id => n.onJob j fun job => match job.pc with
    | .asking fecIdx left =>
      if id ∈ left then
        if n.blockOwners.lookup id = some .hasBlock then
          .ok { n.setJob j { job with pc := .asking (fecIdx + 1) (left.erase id) } with
            requests := n.requests ++ [(id, job.fecRequest fecIdx)] }
        else .ok (n.setJob j { job with pc := .asking fecIdx (left.erase id) })
      else .error .blocked
    | _ => .error .blocked
  | .endAsk j => n.onJob j fun job => match job.pc with
    | .asking _ [] =>
      .ok (n.setJob j { job with offset := job.offset + job.size, pc := .looping })
    | _ => .error .blocked

end Node

/-! ### Whom a node asks -/

section
variable (owns : UInt32 → UInt32 → Prop)

structure Job.Inv (sessions : List UInt32) (job : Job) : Prop where
  owned : ∀ id ∈ sessions, owns id job.blockNumber
  left : ∀ id ∈ job.pc.left, id ∈ sessions

structure Node.Inv (n : Node) : Prop where
  owners : ∀ id ∈ n.blockOwners, id ∈ n.sessionMap
  sem : ∀ id ∈ n.sem, id ∈ n.sessionMap
  segments : ∀ g ∈ n.segments, g.1 ∈ n.sessionMap
  jobs : ∀ job ∈ n.jobs, job.Inv owns n.sessionMap
  requests : ∀ r ∈ n.requests, owns r.1 r.2.blockNumber

end

namespace Node

variable {owns owns' : UInt32 → UInt32 → Prop} {n n' : Node}

variable {id : UInt32} {j : ℕ} {fecMode : Bool}

theorem mem_foldl_insert (sessions : List UInt32) (m : AList fun _ : UInt32 => PeerStatus)
    (h : id ∈ sessions.foldl (fun m id => m.insert id .notKnown) m) : id ∈ sessions ∨ id ∈ m := by
  induction sessions generalizing m with
  | nil => exact .inr h
  | cons k rest ih =>
    rcases ih (m.insert k .notKnown) h with h | h
    · exact .inl (List.mem_cons_of_mem _ h)
    · rcases (AList.mem_insert m).mp h with rfl | h
      · exact .inl (List.mem_cons_self ..)
      · exact .inr h

theorem create_inv (sessions : List UInt32) : (create sessions).Inv owns where
  owners := by
    intro id hid
    rcases mem_foldl_insert sessions ∅ hid with h | h
    · exact h
    · exact absurd h (AList.notMem_empty id)
  sem := by simp [create]
  segments := by simp [create]
  jobs := by simp [create]
  requests := by simp [create]

theorem Inv.mono (himp : ∀ id b, owns id b → owns' id b) (h : n.Inv owns) : n.Inv owns' where
  owners := h.owners
  sem := h.sem
  segments := h.segments
  jobs := by
    intro job hjob
    exact ⟨fun id hid => himp _ _ ((h.jobs job hjob).owned id hid), (h.jobs job hjob).left⟩
  requests := fun r hr => himp _ _ (h.requests r hr)

theorem mem_insert_owners (h : n.Inv owns) (hid : id ∈ n.sessionMap) (status : PeerStatus) :
    ∀ k ∈ n.blockOwners.insert id status, k ∈ n.sessionMap := by
  intro k hk
  rcases (AList.mem_insert n.blockOwners).mp hk with rfl | hk
  · exact hid
  · exact h.owners k hk

theorem onJob_ok {k : Job → Except Stop Node} (h : n.onJob j k = .ok n') :
    ∃ job, n.jobs[j]? = some job ∧ k job = .ok n' := by
  unfold onJob at h
  split at h
  · cases h
  · exact ⟨_, ‹_›, h⟩

theorem Inv.setJob (h : n.Inv owns) {job : Job} (hj : n.jobs[j]? = some job) (job' : Job)
    (hb : job'.blockNumber = job.blockNumber) (hleft : ∀ id ∈ job'.pc.left, id ∈ n.sessionMap) :
    (n.setJob j job').Inv owns where
  owners := h.owners
  sem := h.sem
  segments := h.segments
  jobs := by
    intro x hx
    rcases List.mem_or_eq_of_mem_set hx with hx | rfl
    · exact h.jobs x hx
    · refine ⟨?_, hleft⟩
      rw [hb]
      exact (h.jobs job (List.mem_of_getElem? hj)).owned
  requests := h.requests

theorem Inv.push (h : n.Inv owns) (hs : n.step fecMode (.push j id) = .ok n') :
    n'.Inv owns ∧ n'.sessionMap = n.sessionMap := by
  simp only [step] at hs
  obtain ⟨job, hj, hs⟩ := onJob_ok hs
  split at hs
  case h_2 => cases hs
  case h_1 left hpc =>
  have hleft : ∀ k ∈ left, k ∈ n.sessionMap := by
    intro k hk
    refine (h.jobs job (List.mem_of_getElem? hj)).left k ?_
    rw [hpc]
    exact hk
  split at hs
  case isFalse => cases hs
  case isTrue hid =>
  split at hs
  · split at hs <;> cases hs
    have hpc' : ∀ k ∈ (if fecMode then Pc.looping else .pushing (left.erase id)).left,
        k ∈ n.sessionMap := by
      intro k hk
      cases fecMode with
      | false => exact hleft k (List.mem_of_mem_erase hk)
      | true => cases hk
    have hset := h.setJob hj { job with
      pc := if fecMode then .looping else .pushing (left.erase id) } rfl hpc'
    refine ⟨⟨hset.owners, ?_, hset.segments, hset.jobs, hset.requests⟩, rfl⟩
    intro k hk
    rcases List.mem_append.mp hk with hk | hk
    · exact h.sem k hk
    · rw [List.mem_singleton.mp hk]
      exact hleft id hid
  · cases hs
    exact ⟨h.setJob hj _ rfl fun k hk => hleft k (List.mem_of_mem_erase hk), rfl⟩

theorem Inv.take (h : n.Inv owns) (hs : n.step fecMode (.take j) = .ok n') :
    n'.Inv owns ∧ n'.sessionMap = n.sessionMap := by
  simp only [step] at hs
  obtain ⟨job, hj, hs⟩ := onJob_ok hs
  split at hs
  case h_1 => cases hs
  case h_2 id sem hsem =>
  have hid : id ∈ n.sessionMap := h.sem id (by simp [hsem])
  have hsem' : ∀ k ∈ sem, k ∈ n.sessionMap := fun k hk => h.sem k (by simp [hsem, hk])
  have hseg : ∀ g ∈ n.segments ++ [(id, false)], g.1 ∈ n.sessionMap := by
    intro g hg
    rcases List.mem_append.mp hg with hg | hg
    · exact h.segments g hg
    · rw [List.mem_singleton.mp hg]
      exact hid
  split at hs
  case isFalse => cases hs
  case isTrue hen =>
  split at hs
  · cases hs
    have hset := h.setJob hj { job with pc := .asking job.firstFecIdx n.blockOwners.keys }
      rfl fun k hk => h.owners k (AList.mem_keys.mpr hk)
    exact ⟨⟨hset.owners, hsem', hseg, hset.jobs, hset.requests⟩, rfl⟩
  · cases hs
    have hset := h.setJob hj { job with offset := job.offset + job.size } rfl
      (by simp [hen.1, Pc.left])
    refine ⟨⟨mem_insert_owners h hid _, hsem', hseg, hset.jobs, ?_⟩, rfl⟩
    intro r hr
    rcases List.mem_append.mp hr with hr | hr
    · exact h.requests r hr
    · rw [List.mem_singleton.mp hr]
      exact (h.jobs job (List.mem_of_getElem? hj)).owned id hid

theorem Inv.ask (h : n.Inv owns) (hs : n.step fecMode (.ask j id) = .ok n') :
    n'.Inv owns ∧ n'.sessionMap = n.sessionMap := by
  simp only [step] at hs
  obtain ⟨job, hj, hs⟩ := onJob_ok hs
  have hjob := h.jobs job (List.mem_of_getElem? hj)
  split at hs
  case h_2 => cases hs
  case h_1 fecIdx left hpc =>
  have hleft : ∀ k ∈ left, k ∈ n.sessionMap := by
    intro k hk
    refine hjob.left k ?_
    rw [hpc]
    exact hk
  split at hs
  case isFalse => cases hs
  case isTrue hid =>
  split at hs <;> cases hs
  · have hset := h.setJob hj { job with pc := .asking (fecIdx + 1) (left.erase id) } rfl
      fun k hk => hleft k (List.mem_of_mem_erase hk)
    refine ⟨⟨hset.owners, hset.sem, hset.segments, hset.jobs, ?_⟩, rfl⟩
    intro r hr
    rcases List.mem_append.mp hr with hr | hr
    · exact h.requests r hr
    · rw [List.mem_singleton.mp hr]
      exact hjob.owned id (hleft id hid)
  · exact ⟨h.setJob hj _ rfl fun k hk => hleft k (List.mem_of_mem_erase hk), rfl⟩

theorem Inv.step (h : n.Inv owns) {a : NodeLabel} (hs : n.step fecMode a = .ok n') :
    n'.Inv owns ∧ n'.sessionMap = n.sessionMap := by
  cases a with
  | findBlock id blockNumber =>
    simp only [Node.step] at hs
    split at hs <;> cases hs
    exact ⟨⟨mem_insert_owners h ‹_› _, h.sem, h.segments, h.jobs, h.requests⟩, rfl⟩
  | receiveData len =>
    cases hs
    exact ⟨⟨h.owners, h.sem, h.segments, h.jobs, h.requests⟩, rfl⟩
  | completeSegment i =>
    simp only [Node.step] at hs
    split at hs
    case h_2 => cases hs
    case h_1 id hseg =>
    split at hs <;> cases hs
    have hid : id ∈ n.sessionMap := h.segments (id, false) (List.mem_of_getElem? hseg)
    refine ⟨⟨h.owners, ?_, ?_, h.jobs, h.requests⟩, rfl⟩
    · intro k hk
      rcases List.mem_append.mp hk with hk | hk
      · exact h.sem k hk
      · rw [List.mem_singleton.mp hk]
        exact hid
    · intro g hg
      rcases List.mem_or_eq_of_mem_set hg with hg | rfl
      · exact h.segments g hg
      · exact hid
  | start j =>
    simp only [Node.step] at hs
    obtain ⟨job, hj, hs⟩ := onJob_ok hs
    split at hs <;> cases hs
    have hset := h.setJob hj { job with
      numPeers := n.numPeers
      pc := .pushing n.blockOwners.keys } rfl fun k hk => h.owners k (AList.mem_keys.mpr hk)
    exact ⟨⟨hset.owners, by simp, hset.segments, hset.jobs, hset.requests⟩, rfl⟩
  | push j id => exact h.push hs
  | endPush j =>
    simp only [Node.step] at hs
    obtain ⟨job, hj, hs⟩ := onJob_ok hs
    split at hs <;> cases hs
    exact ⟨h.setJob hj _ rfl (by simp [Pc.left]), rfl⟩
  | take j => exact h.take hs
  | ask j id => exact h.ask hs
  | endAsk j =>
    simp only [Node.step] at hs
    obtain ⟨job, hj, hs⟩ := onJob_ok hs
    split at hs <;> cases hs
    exact ⟨h.setJob hj _ rfl (by simp [Pc.left]), rfl⟩

theorem Inv.handle (h : n.Inv owns) (fecMode : Bool) {packet : BlockInfoPacket}
    (hid : id ∈ n.sessionMap)
    (hall : (n.record packet id).allAnswered = true → ∀ k ∈ n.sessionMap, owns k packet.blockNumber)
    :
    (n.handleBlockInfoPacket fecMode packet id).Inv owns ∧
      (n.handleBlockInfoPacket fecMode packet id).sessionMap = n.sessionMap ∧
      (n.handleBlockInfoPacket fecMode packet id).blockOwners.lookup id = some .hasBlock := by
  have hrec : (n.record packet id).Inv owns :=
    ⟨mem_insert_owners h hid _, h.sem, h.segments, h.jobs, h.requests⟩
  simp only [handleBlockInfoPacket]
  split
  case isTrue hans =>
    refine ⟨⟨hrec.owners, hrec.sem, hrec.segments, ?_, hrec.requests⟩, rfl,
      AList.lookup_insert _⟩
    intro job hjob
    rcases List.mem_append.mp hjob with hjob | hjob
    · exact hrec.jobs job hjob
    · rw [List.mem_singleton.mp hjob]
      exact ⟨hall hans, by simp [Pc.left]⟩
  case isFalse => exact ⟨hrec, rfl, AList.lookup_insert _⟩

end Node

/-! ### The exchange -/

/-- `wire` has the bytes under way from each peer; `told` is the block of the last announcement
that was recorded for a session. `announced` has each announcement with the block list it was made
from, `recorded` each handled packet with the status in `blockOwners` after it. -/
structure Exchange where
  blockList : UInt32 → BlockList
  wire : UInt32 → List Bytes
  node : Node
  told : UInt32 → Option UInt32
  announced : List (BlockList × BlockInfoPacket)
  recorded : List (BlockInfoPacket × Option PeerStatus)

/-- A peer stores a block in its list (`mp2session_manager.go:303, 335`), announces a block, or the
node handles the next announcement of a session, or does something else. -/
inductive Label
  | store (id blockNumber blockSize : UInt32)
  | announce (id blockNumber blockSize : UInt32)
  | handle (id : UInt32)
  | node (a : NodeLabel)
  deriving Repr, DecidableEq

namespace Exchange

def init (sessions : List UInt32) : Exchange where
  blockList := fun _ => ∅
  wire := fun _ => []
  node := .create sessions
  told := fun _ => none
  announced := []
  recorded := []

def nextInfo (s : Exchange) (id : UInt32) : Option BlockInfoPacket :=
  (s.wire id).head?.bind parseBlockInfoPacket

def step (fecMode : Bool) (s : Exchange) : Label → Except Stop Exchange
  | .store id blockNumber blockSize =>
    .ok { s with
      blockList := Function.update s.blockList id ((s.blockList id).insert blockNumber blockSize) }
  | .announce id blockNumber blockSize =>
    let packet := mp2SendBlockInfo (s.blockList id) blockNumber blockSize
    .ok { s with
      wire := Function.update s.wire id (s.wire id ++ [packet.write])
      announced := s.announced ++ [(s.blockList id, packet)] }
  | .handle id =>
    if id ∈ s.node.sessionMap then match s.nextInfo id with
      | none => .error .blocked
      | some packet =>
        let node := s.node.handleBlockInfoPacket fecMode packet id
        .ok { s with
          wire := Function.update s.wire id (s.wire id).tail
          node := node
          told := Function.update s.told id (some packet.blockNumber)
          recorded := s.recorded ++ [(packet, node.blockOwners.lookup id)] }
    else .error .blocked
  | .node a => match s.node.step fecMode a with
    | .error e => .error e
    | .ok node => .ok { s with node := node }

def SameBlock (s : Exchange) (id blockNumber : UInt32) : Prop :=
  ∀ k ∈ s.node.sessionMap, k ≠ id → s.told k = some blockNumber

-- not by the finite type UInt32
instance (s : Exchange) (id blockNumber : UInt32) : Decidable (s.SameBlock id blockNumber) :=
  List.decidableBAll (fun k => k ≠ id → s.told k = some blockNumber) s.node.sessionMap

/-- An announced block is one of the sizes in the peer's list just if it is one of the keys; an
announcement that is handled says that the peer has the block; and when it is the last answer, each
other session was recorded for this very block. -/
def Truthful (s : Exchange) : Label → Prop
  | .announce id blockNumber _ =>
    blockNumber ∈ (s.blockList id).sizes ↔ blockNumber ∈ s.blockList id
  | .handle id => ∀ packet ∈ s.nextInfo id, packet.status = code .hasBlock ∧
    ((s.node.record packet id).allAnswered = true → s.SameBlock id packet.blockNumber)
  | _ => True

instance (s : Exchange) : DecidablePred s.Truthful := fun a =>
  match a with
  | .announce id blockNumber _ => inferInstanceAs (Decidable
      (blockNumber ∈ (s.blockList id).sizes ↔ blockNumber ∈ s.blockList id))
  | .handle id => inferInstanceAs (Decidable (∀ packet ∈ s.nextInfo id,
      packet.status = code .hasBlock ∧ ((s.node.record packet id).allAnswered = true →
        s.SameBlock id packet.blockNumber)))
  | .store .. | .node _ => .isTrue trivial

def Owns (s : Exchange) (id blockNumber : UInt32) : Prop := blockNumber ∈ s.blockList id

structure Inv (s : Exchange) : Prop where
  wire : ∀ id, ∀ b ∈ s.wire id, ∃ p : BlockInfoPacket, b = p.write ∧
    (p.status = code .hasBlock → s.Owns id p.blockNumber)
  told : ∀ id b, s.told id = some b → s.Owns id b
  node : s.node.Inv s.Owns
  announced : ∀ x ∈ s.announced, x.2.status = code .hasBlock ↔ x.2.blockNumber ∈ x.1
  recorded : ∀ x ∈ s.recorded, x.2.map code = some x.1.status

variable {s s' : Exchange}

theorem init_inv (sessions : List UInt32) : (init sessions).Inv where
  wire := by simp [init]
  told := by simp [init]
  node := Node.create_inv sessions
  announced := by simp [init]
  recorded := by simp [init]

theorem parse_write (p : BlockInfoPacket) : parseBlockInfoPacket p.write = some p := by
  have hlast := readUint32_write p.blockSize []
  rw [List.append_nil] at hlast
  simp [parseBlockInfoPacket, BlockInfoPacket.write, hlast]

theorem status_mp2SendBlockInfo (blockList : BlockList) (blockNumber blockSize : UInt32) :
    (mp2SendBlockInfo blockList blockNumber blockSize).status = code .hasBlock ↔
      blockNumber ∈ blockList.sizes := by
  by_cases h : blockNumber ∈ blockList.sizes <;>
    simp [mp2SendBlockInfo, createBlockInfoPacket, h, code]

variable {fecMode : Bool} {id blockNumber blockSize : UInt32}

theorem Inv.store (h : s.Inv) (hs : s.step fecMode (.store id blockNumber blockSize) = .ok s') :
    s'.Inv := by
  cases hs
  -- no key leaves a block list
  have hmono : ∀ k b, s.Owns k b → b ∈ Function.update s.blockList id
      ((s.blockList id).insert blockNumber blockSize) k := by
    intro k b hb
    by_cases hk : k = id
    · subst hk
      rw [Function.update_self, AList.mem_insert]
      exact .inr hb
    · rw [Function.update_of_ne hk]
      exact hb
  refine ⟨?_, fun k b hk => hmono k b (h.told k b hk), h.node.mono hmono, h.announced, h.recorded⟩
  intro k b hb
  obtain ⟨p, hp, hown⟩ := h.wire k b hb
  exact ⟨p, hp, fun hst => hmono k _ (hown hst)⟩

theorem Inv.announce (h : s.Inv) (hok : s.Truthful (.announce id blockNumber blockSize))
    (hs : s.step fecMode (.announce id blockNumber blockSize) = .ok s') : s'.Inv := by
  cases hs
  have hstatus := (status_mp2SendBlockInfo (s.blockList id) blockNumber blockSize).trans hok
  refine ⟨?_, h.told, h.node, ?_, h.recorded⟩
  · intro k b hb
    by_cases hk : k = id
    · subst hk
      simp only [Function.update_self] at hb
      rcases List.mem_append.mp hb with hb | hb
      · exact h.wire k b hb
      · exact ⟨_, List.mem_singleton.mp hb, hstatus.mp⟩
    · simp only [Function.update_of_ne hk] at hb
      exact h.wire k b hb
  · intro x hx
    rcases List.mem_append.mp hx with hx | hx
    · exact h.announced x hx
    · rw [List.mem_singleton.mp hx]
      exact hstatus

theorem Inv.handle (h : s.Inv) (hok : s.Truthful (.handle id))
    (hs : s.step fecMode (.handle id) = .ok s') : s'.Inv := by
  simp only [step] at hs
  split at hs
  case isFalse => cases hs
  case isTrue hid =>
  split at hs
  case h_1 => cases hs
  case h_2 packet hnext =>
  cases hs
  obtain ⟨hstatus, hlast⟩ := hok packet hnext
  have hown : s.Owns id packet.blockNumber := by
    obtain ⟨b, hb, hparse⟩ := Option.bind_eq_some_iff.mp hnext
    obtain ⟨p, rfl, hp⟩ := h.wire id b (List.mem_of_mem_head? hb)
    rw [parse_write, Option.some.injEq] at hparse
    subst hparse
    exact hp hstatus
  have hall : (s.node.record packet id).allAnswered = true →
      ∀ k ∈ s.node.sessionMap, s.Owns k packet.blockNumber := by
    intro hans k hk
    by_cases hki : k = id
    · subst hki
      exact hown
    · exact h.told k _ (hlast hans k hk hki)
  obtain ⟨hnode, _, hlookup⟩ := h.node.handle fecMode hid hall
  refine ⟨?_, ?_, hnode, h.announced, ?_⟩
  · intro k b hb
    by_cases hk : k = id
    · subst hk
      simp only [Function.update_self] at hb
      exact h.wire k b (List.mem_of_mem_tail hb)
    · simp only [Function.update_of_ne hk] at hb
      exact h.wire k b hb
  · intro k b hb
    by_cases hk : k = id
    · subst hk
      simp only [Function.update_self, Option.some.injEq] at hb
      subst hb
      exact hown
    · simp only [Function.update_of_ne hk] at hb
      exact h.told k b hb
  · intro x hx
    rcases List.mem_append.mp hx with hx | hx
    · exact h.recorded x hx
    · rw [List.mem_singleton.mp hx]
      simp only [hlookup, Option.map_some, hstatus]

theorem Inv.step {a : Label} (h : s.Inv) (hok : s.Truthful a) (hs : s.step fecMode a = .ok s') :
    s'.Inv := by
  cases a with
  | store id blockNumber blockSize => exact h.store hs
  | announce id blockNumber blockSize => exact h.announce hok hs
  | handle id => exact h.handle hok hs
  | node a =>
    simp only [Exchange.step] at hs
    split at hs
    · cases hs
    · cases hs
      exact ⟨h.wire, h.told, (h.node.step ‹_›).1, h.announced, h.recorded⟩

/-- In every interleaving whose steps are truthful: each announcement says that the peer has the block just
if the block is a key of its list, each one is recorded as it was made, and every request has gone to a
peer whose list contains the block. -/
theorem only_owners_asked (fecMode : Bool) (sessions : List UInt32) {as : List Label}
    (h : Run (step fecMode) Truthful (init sessions) as s) :
    (∀ x ∈ s.announced, x.2.status = code .hasBlock ↔ x.2.blockNumber ∈ x.1) ∧
      (∀ x ∈ s.recorded, x.2.map code = some x.1.status) ∧
      ∀ r ∈ s.node.requests, r.2.blockNumber ∈ s.blockList r.1 := by
  have hinv : s.Inv := h.invariant Inv (init_inv sessions) fun s a s' hi hok hs => hi.step hok hs
  exact ⟨hinv.announced, hinv.recorded, hinv.node.requests⟩

def twoOwners : List Label :=
  [.store 1 5 9, .store 1 9 2048, .store 2 9 9, .announce 2 9 2048, .announce 1 9 2048, .handle 1,
    .handle 2, .node (.start 0), .node (.push 0 2), .node (.take 0), .node (.ask 0 1),
    .node (.ask 0 2), .node (.endAsk 0)]

theorem only_owners_asked_two : ∃ s, Run (step true) Truthful (init [1, 2]) twoOwners s ∧
    s.node.requests.map Prod.fst = [1, 2] ∧
    ∀ r ∈ s.node.requests, r.2.blockNumber ∈ s.blockList r.1 := by
  obtain ⟨s, hrun, hP⟩ := Run.exists_of_exec (step true) (init [1, 2]) twoOwners
    (fun s => decide (s.node.requests.map Prod.fst = [1, 2]))
    (show Guarded (step true) Truthful (init [1, 2]) twoOwners by decide +kernel)
    (by decide +kernel)
  exact ⟨s, hrun, of_decide_eq_true hP, (only_owners_asked true [1, 2] hrun).2.2⟩

def hasAnnounced : List Label := [.store 1 5 2048, .announce 1 5 2048]

def emptyAsked : List Label :=
  [.announce 1 5 2048, .handle 1, .node (.start 0), .node (.push 0 1), .node (.endPush 0),
    .node (.take 0)]

/-- The first peer announces that it does not have the block that it has. The second one announces
that it does not have the block, is recorded as an owner, and is asked. -/
theorem non_owner_asked :
    (∃ s, Run (step false) always (init [1]) hasAnnounced s ∧
      ∃ x ∈ s.announced, x.2.status = code .hasNoBlock ∧ x.2.blockNumber ∈ x.1) ∧
    ∃ s, Run (step false) always (init [1]) emptyAsked s ∧
      (∃ x ∈ s.recorded, x.1.status = code .hasNoBlock ∧ x.2 = some .hasBlock) ∧
      ∃ r ∈ s.node.requests, r.2.blockNumber ∉ s.blockList r.1 := by
  constructor
  · obtain ⟨s, hrun, hP⟩ := Run.exists_of_exec (step false) (init [1]) hasAnnounced
      (fun s => decide (∃ x ∈ s.announced, x.2.status = code .hasNoBlock ∧ x.2.blockNumber ∈ x.1))
      (Guarded.always _) (by decide +kernel)
    exact ⟨s, hrun, of_decide_eq_true hP⟩
  · obtain ⟨s, hrun, hP⟩ := Run.exists_of_exec (step false) (init [1]) emptyAsked
      (fun s => decide ((∃ x ∈ s.recorded, x.1.status = code .hasNoBlock ∧ x.2 = some .hasBlock) ∧
        ∃ r ∈ s.node.requests, r.2.blockNumber ∉ s.blockList r.1))
      (Guarded.always _) (by decide +kernel)
    exact ⟨s, hrun, of_decide_eq_true hP⟩

end Exchange

end Mp2bs.Mp2session.Owners
