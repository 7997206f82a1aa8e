import Mp2bs.Lib.Machine
import Mp2bs.Block.Sender

/-!
# A node that serves block requests

`AddSendBuffer` appends to one buffer whatever the block (`mp2session_manager.go:652-655`); each
request is served by a goroutine of its own. `log` and `sent` are history: what was appended for
which block, and the packets sent.
-/

namespace Mp2bs.Block
open Mp2bs.Lib.Slice Mp2bs.Lib.Machine

structure Server where
  view : SendView
  jobs : List SendJob
  log : List (ℕ × Bytes)
  sent : List BlockDataPacket
  deriving Repr, DecidableEq

namespace Server

inductive Label where
  | add (blockNumber : ℕ) (data : Bytes)
  -- what other goroutines set of the inputs of the hard coded stop
  | env (stopSendCond : ℕ) (lastRecvBytes : Option ℕ) (firstSegment : Bool)
  | request (sessionID : ℕ) (packet : BlockRequestPacket)
  | run (i : ℕ)
  deriving Repr, DecidableEq

def init (fecMode : Bool) : Server := ⟨⟨fecMode, [], 0, none, true⟩, [], [], []⟩

-- AddSendBuffer, mp2session_manager.go:652-655
def addSendBuffer (s : Server) (blockNumber : ℕ) (data : Bytes) : Server :=
  { s with
    view := { s.view with sendBuffer := s.view.sendBuffer ++ data }
    log := s.log ++ [(blockNumber, data)] }

def step (s : Server) : Label → Except Stop Server
  | .add blockNumber data => .ok (s.addSendBuffer blockNumber data)
  | .env stopSendCond lastRecvBytes firstSegment =>
    .ok { s with view := ⟨s.view.fecMode, s.view.sendBuffer, stopSendCond, lastRecvBytes,
      firstSegment⟩ }
  | .request sessionID packet =>
    .ok { s with jobs := s.jobs ++ [startSendBlockData sessionID packet] }
  | .run i =>
    match s.jobs[i]? with
    | none => .error .blocked
    | some j => match j.step s.view with
      | .error e => .error e
      | .ok (view, j', out) =>
        .ok { s with view := view, jobs := s.jobs.set i j', sent := s.sent ++ out.toList }

-- the read loop of Mp2SendBlock, mp2session_manager.go:347-364, on the bytes of the file
def mp2SendBlock (blockNumber : ℕ) (content : Bytes) : List Label :=
  (List.range (numData content.length)).map fun i => .add blockNumber (packetData content i)

def bytesOf (s : Server) (blockNumber : ℕ) : Bytes :=
  (s.log.filter (·.1 == blockNumber)).flatMap (·.2)

theorem step_run {s s' : Server} {i : ℕ} (h : s.step (.run i) = .ok s') :
    ∃ j first pc out, s.jobs[i]? = some j ∧ j.Move s.view pc out ∧
      s' = { s with
        view := { s.view with firstSegment := first }
        jobs := s.jobs.set i { j with pc := pc }
        sent := s.sent ++ out.toList } := by
  simp only [step] at h
  cases hj : s.jobs[i]? with
  | none => simp [hj] at h
  | some j =>
    simp only [hj] at h
    cases hs : j.step s.view with
    | error e => simp [hs] at h
    | ok r =>
      obtain ⟨view, j', out⟩ := r
      simp only [hs, Except.ok.injEq] at h
      obtain ⟨first, pc, rfl, rfl, hm⟩ := SendJob.step_move hs
      exact ⟨j, first, pc, out, rfl, hm, h.symm⟩

/-! ### One invariant scheme for the properties of the packets sent -/

/- `B` holds of the buffer, `P` of the buffer and each job, `Q` of each packet sent. -/
structure Inv (B : Bytes → Prop) (P : Bytes → SendJob → Prop) (Q : BlockDataPacket → Prop)
    (s : Server) : Prop where
  buffer : B s.view.sendBuffer
  jobs : ∀ j ∈ s.jobs, P s.view.sendBuffer j
  sent : ∀ p ∈ s.sent, Q p

structure Keeps (ok : Server → Label → Prop) (B : Bytes → Prop) (P : Bytes → SendJob → Prop)
    (Q : BlockDataPacket → Prop) : Prop where
  add_buffer : ∀ {s b data}, ok s (.add b data) → B s.view.sendBuffer →
    B (s.view.sendBuffer ++ data)
  add_job : ∀ {buf j}, P buf j → ∀ data, P (buf ++ data) j
  request : ∀ {s sid packet}, ok s (.request sid packet) → B s.view.sendBuffer →
    P s.view.sendBuffer (startSendBlockData sid packet)
  run : ∀ {s i j pc out}, ok s (.run i) → s.jobs[i]? = some j → B s.view.sendBuffer →
    P s.view.sendBuffer j → j.Move s.view pc out →
    P s.view.sendBuffer { j with pc := pc } ∧ ∀ packet, out = some packet → Q packet

section Scheme
variable {ok : Server → Label → Prop} {B : Bytes → Prop} {P : Bytes → SendJob → Prop}
  {Q : BlockDataPacket → Prop}

theorem inv_step (hk : Keeps ok B P Q) (s : Server) (a : Label) (s' : Server)
    (hi : Inv B P Q s) (hok : ok s a) (h : s.step a = .ok s') : Inv B P Q s' := by
  cases a with
  | add b data =>
    simp only [step, Except.ok.injEq] at h
    subst h
    exact ⟨hk.add_buffer hok hi.buffer, fun j hj => hk.add_job (hi.jobs j hj) data, hi.sent⟩
  | env c r f =>
    simp only [step, Except.ok.injEq] at h
    subst h
    exact ⟨hi.buffer, hi.jobs, hi.sent⟩
  | request sid packet =>
    simp only [step, Except.ok.injEq] at h
    subst h
    have hstart := hk.request hok hi.buffer
    refine ⟨hi.buffer, ?_, hi.sent⟩
    intro j hj
    rcases List.mem_append.mp hj with hj | hj
    · exact hi.jobs j hj
    · rw [List.mem_singleton.mp hj]
      exact hstart
  | run i =>
    obtain ⟨j, first, pc, out, hj, hm, rfl⟩ := step_run h
    have hP := hi.jobs j (List.mem_of_getElem? hj)
    obtain ⟨hP', hQ⟩ := hk.run hok hj hi.buffer hP hm
    refine ⟨hi.buffer, ?_, ?_⟩
    · intro k hk'
      rcases List.mem_or_eq_of_mem_set hk' with hk' | rfl
      · exact hi.jobs k hk'
      · exact hP'
    · intro p hp
      rcases List.mem_append.mp hp with hp | hp
      · exact hi.sent p hp
      · exact hQ p (Option.mem_toList.mp hp)

theorem sent_of_run (hk : Keeps ok B P Q) (fecMode : Bool) (h0 : B [])
    {as : List Label} {s : Server} (h : Run step ok (init fecMode) as s) : ∀ p ∈ s.sent, Q p := by
  have hinit : Inv B P Q (init fecMode) := ⟨h0, by simp [init], by simp [init]⟩
  exact (h.invariant (Inv B P Q) hinit (inv_step hk)).sent

end Scheme

/-! ### Several blocks in one buffer -/

/- The bytes appended for block `b` are those of `blocks b`, in order; a request is
for packets of a block that has been appended in full. -/
def Served (blocks : ℕ → Bytes) (s : Server) : Label → Prop
  | .add b data => s.bytesOf b ++ data <+: blocks b
  | .request _ packet => s.bytesOf packet.blockNumber = blocks packet.blockNumber ∧
      (blocks packet.blockNumber).length < 2 ^ 32 ∧
      packet.startDataNumber ≤ packet.endDataNumber ∧
      packet.endDataNumber < numData (blocks packet.blockNumber).length
  | _ => True

instance (blocks : ℕ → Bytes) (s : Server) : ∀ a, Decidable (Served blocks s a)
  | .add b data => inferInstanceAs (Decidable (s.bytesOf b ++ data <+: blocks b))
  | .request _ _ => inferInstanceAs (Decidable (_ ∧ _ ∧ _ ∧ _))
  | .env _ _ _ | .run _ => .isTrue trivial

/- Each operation of a job finds the requested block at the front of `sendBuffer`, and no bytes of
another block reach into the packet. -/
def AtFront (blocks : ℕ → Bytes) (s : Server) : Label → Prop
  | .run i => ∀ j ∈ s.jobs[i]?, j.Clear (blocks j.request.blockNumber) s.view.sendBuffer
  | _ => True

instance (blocks : ℕ → Bytes) (s : Server) : ∀ a, Decidable (AtFront blocks s a)
  | .run i => inferInstanceAs (Decidable (∀ j ∈ s.jobs[i]?, j.Clear _ s.view.sendBuffer))
  | .add _ _ | .env _ _ _ | .request _ _ => .isTrue trivial

def Right (blocks : ℕ → Bytes) (p : BlockDataPacket) : Prop :=
  p.data = packetData (blocks p.blockNumber) p.dataNumber

theorem keeps_atFront (blocks : ℕ → Bytes) :
    Keeps (fun s a => Served blocks s a ∧ AtFront blocks s a) (fun _ => True)
      (fun buf j => j.Fits (blocks j.request.blockNumber) ∧
        j.Ready (blocks j.request.blockNumber) buf) (Right blocks) where
  add_buffer := fun _ _ => trivial
  add_job := fun h data => ⟨h.1, h.2.grow data⟩
  request := fun hok _ => ⟨⟨hok.1.2.1, hok.1.2.2.2⟩, trivial⟩
  run := by
    intro s i j pc out hok hj _ hP hm
    refine ⟨⟨hP.1.withPc pc, SendJob.ready_of_move hP.1 hP.2 (hok.2 j hj) hm⟩, ?_⟩
    rintro packet rfl
    obtain ⟨d, _, rfl⟩ := SendJob.packet_of_ready hP.1 hP.2 hm
    rfl

theorem requests_answered_with_block (blocks : ℕ → Bytes) (fecMode : Bool) {as : List Label}
    {s : Server} (h : Run step (fun s a => Served blocks s a ∧ AtFront blocks s a)
      (init fecMode) as s) :
    ∀ p ∈ s.sent, p.data = packetData (blocks p.blockNumber) p.dataNumber :=
  sent_of_run (keeps_atFront blocks) fecMode trivial h

theorem requests_answered_with_block_two_bytes : ∃ s : Server, s.sent.length = 1 ∧
    ∀ p ∈ s.sent, p.data = packetData [5, 6] p.dataNumber :=
  ⟨_, rfl, requests_answered_with_block (fun _ => [5, 6]) false
    (Run.of_exec (mp2SendBlock 1 [5, 6] ++ .request 7 ⟨1, 0, 0, 0⟩ ::
      List.replicate 5 (.run 0)) (by decide) rfl)⟩

/- Blocks 1 and 2 are both appended in full; the request for block 2 is answered with
the bytes of both. -/
theorem request_answered_with_other_block :
    ∃ (blocks : ℕ → Bytes) (as : List Label) (s : Server),
      Run step (Served blocks) (init false) as s ∧
        ∃ p ∈ s.sent, p.data ≠ packetData (blocks p.blockNumber) p.dataNumber := by
  refine ⟨fun b => if b = 1 then [1] else [2], mp2SendBlock 1 [1] ++ mp2SendBlock 2 [2] ++
    .request 7 ⟨2, 0, 0, 0⟩ :: List.replicate 5 (.run 0), _, Run.of_exec _ (by decide) rfl, ?_⟩
  decide

/-! ### One block that is still arriving -/

/- `sendBuffer` grows as a front part of the block, and requests are for packets of it. -/
def Growing (block : Bytes) (s : Server) : Label → Prop
  | .add _ data => s.view.sendBuffer ++ data <+: block
  | .request _ packet => block.length < 2 ^ 32 ∧
      packet.startDataNumber ≤ packet.endDataNumber ∧
      packet.endDataNumber < numData block.length
  | _ => True

instance (block : Bytes) (s : Server) : ∀ a, Decidable (Growing block s a)
  | .add _ data => inferInstanceAs (Decidable (s.view.sendBuffer ++ data <+: block))
  | .request _ _ => inferInstanceAs (Decidable (_ ∧ _ ∧ _))
  | .env _ _ _ | .run _ => .isTrue trivial

/- A job that takes the size of a packet from `len(sendBuffer)` finds the buffer filled
just up to the end of that packet. -/
def TailArrived (block : Bytes) (s : Server) : Label → Prop
  | .run i => ∀ j ∈ s.jobs[i]?, j.Arrived block s.view.sendBuffer
  | _ => True

instance (block : Bytes) (s : Server) : ∀ a, Decidable (TailArrived block s a)
  | .run i => inferInstanceAs (Decidable (∀ j ∈ s.jobs[i]?, j.Arrived _ s.view.sendBuffer))
  | .add _ _ | .env _ _ _ | .request _ _ => .isTrue trivial

theorem keeps_tailArrived (block : Bytes) :
    Keeps (fun s a => Growing block s a ∧ TailArrived block s a) (· <+: block)
      (fun buf j => j.Fits block ∧ j.Sized block buf)
      (fun p => p.data.length = min payloadSize (block.length - payloadSize * p.dataNumber)) where
  add_buffer := fun hok _ => hok.1
  add_job := fun h data => ⟨h.1, h.2.grow data⟩
  request := fun hok _ => ⟨⟨hok.1.1, hok.1.2.2⟩, trivial⟩
  run := by
    intro s i j pc out hok hj hpre hP hm
    refine ⟨⟨hP.1.withPc pc, SendJob.sized_of_move hP.1 hP.2 hpre (hok.2 j hj) hm⟩, ?_⟩
    rintro packet rfl
    obtain ⟨d, _, rfl⟩ := SendJob.packet_of_sized hP.1 hP.2 hpre hm
    exact packetData_length block d

end Server

end Mp2bs.Block
