import Mp2bs.Fec.Soundness
import Mp2bs.Quic.History

/-!
# What a process acknowledges

The connections of one process share `fec.FecRecoveredPacketList` (`fec/fec_log.go:25`).
`pushReceiveStreamFrameQueue` (`fec/fec_handler.go:339-346`) appends the number that it has
worked out for each frame that it puts on `FecChan`; the next call of `GetAckRanges`, of
whatever connection and packet number space, takes the whole list into its own history.
-/

namespace Mp2bs.Quic
open Mp2bs.Lib.Intervals Mp2bs.Lib.Machine Mp2bs.Fec

-- the three trackers of receivedPacketHandler, received_packet_handler.go:14-16
inductive Space
  | initial
  | handshake
  | appData
  deriving Repr, DecidableEq

/- An entry of `FecRecoveredPacketList`. The list of the source has the numbers only; the
connection and the frame are for the statements. -/
structure Recovered where
  conn : ℕ
  frame : StreamFrame
  packetNumber : ℕ
  deriving Repr, DecidableEq

/- The connections have numbers, and each has its streams under their ids. `received` is a
history variable. -/
structure Process where
  history : ℕ → Space → History
  stream : ℕ → ℕ → Receiver
  fecRecoveredPacketList : List Recovered
  received : ℕ → Space → List ℤ

namespace Process

inductive Label
  | receivedPacket (conn : ℕ) (space : Space) (p : ℤ)
  | deleteBelow (conn : ℕ) (space : Space) (p : ℤ)
  | getAckRanges (conn : ℕ) (space : Space)
  | stream (conn streamID : ℕ) (a : Receiver.Label)

def init : Process where
  history := fun _ _ => .new
  stream := fun _ _ => .init
  fecRecoveredPacketList := []
  received := fun _ _ => []

def setHistory (s : Process) (conn : ℕ) (space : Space) (h : History) : Process :=
  { s with history := Function.update s.history conn (Function.update (s.history conn) space h) }

def recoveredBy (conn : ℕ) (r : Receiver) : Receiver.Label → List Recovered
  | .put => (r.decode.frames.head?.map fun frame => ⟨conn, frame.1, frame.2⟩).toList
  | _ => []

def step (s : Process) : Label → Except Stop Process
  | .receivedPacket conn space p =>
    let s' := s.setHistory conn space ((s.history conn space).receivedPacket p).1
    .ok { s' with
      received := Function.update s.received conn
        (Function.update (s.received conn) space (s.received conn space ++ [p])) }
  | .deleteBelow conn space p =>
    .ok (s.setHistory conn space ((s.history conn space).deleteBelow p))
  | .getAckRanges conn space =>
    let s' := s.setHistory conn space ((s.history conn space).getAckRanges
      (s.fecRecoveredPacketList.map fun e => (e.packetNumber : ℤ))).1
    .ok { s' with fecRecoveredPacketList := [] }
  | .stream conn streamID a => match (s.stream conn streamID).step streamID a with
    | .error stop => .error stop
    | .ok r => .ok { s with
        stream := Function.update s.stream conn (Function.update (s.stream conn) streamID r)
        fecRecoveredPacketList := s.fecRecoveredPacketList ++
          recoveredBy conn (s.stream conn streamID) a }

variable (carries : ℕ → ℤ → StreamFrame → Prop)

/- `carries conn p frame`: packet `p` of the connection carries that STREAM frame. The number
that is worked out for a recovered frame is one of its packets, and only the history for
application data of the same connection takes it. -/
def Own (s : Process) : Label → Prop
  | .stream conn streamID .put => ∀ e ∈ (s.stream conn streamID).decode.frames.head?,
      carries conn e.2 e.1
  | .getAckRanges conn space =>
      ∀ e ∈ s.fecRecoveredPacketList, space = .appData ∧ e.conn = conn
  | _ => True

/- The packet was received in that space of the connection, or a STREAM frame that it carries
was recovered on that connection. -/
def Earned (s : Process) (conn : ℕ) (space : Space) (p : ℤ) : Prop :=
  p ∈ s.received conn space ∨
    space = .appData ∧ ∃ streamID, ∃ frame ∈ (s.stream conn streamID).delivered,
      carries conn p frame

structure Honest (s : Process) : Prop where
  apart : ∀ conn space, Apart (s.history conn space).ranges
  earned : ∀ conn space, ∀ p ∈ covered (s.history conn space).ranges, s.Earned carries conn space p
  listed : ∀ e ∈ s.fecRecoveredPacketList, carries e.conn e.packetNumber e.frame ∧
    ∃ streamID, e.frame ∈ (s.stream e.conn streamID).delivered

variable {carries}

theorem init_honest : init.Honest carries := by
  refine ⟨fun _ _ => apart_nil, ?_, ?_⟩
  · intro conn space p hp
    exact absurd hp (Finset.notMem_empty p)
  · intro e he
    exact absurd he List.not_mem_nil

theorem history_setHistory (s : Process) (conn conn' : ℕ) (space space' : Space) (h : History) :
    (s.setHistory conn space h).history conn' space' =
      if conn' = conn ∧ space' = space then h else s.history conn' space' := by
  by_cases hc : conn' = conn
  · subst hc
    by_cases hs : space' = space
    · subst hs
      simp [setHistory]
    · simp [setHistory, hs]
  · simp [setHistory, hc]

variable {s s' : Process} {conn streamID : ℕ} {space : Space} {r : Receiver} {a : Receiver.Label}

theorem Honest.setHistory (hs : s.Honest carries) (conn : ℕ) (space : Space) {h : History}
    (ha : Apart h.ranges) (he : ∀ p ∈ covered h.ranges, s.Earned carries conn space p) :
    (s.setHistory conn space h).Honest carries := by
  refine ⟨?_, ?_, hs.listed⟩
  · intro conn' space'
    rw [history_setHistory]
    split
    next => exact ha
    next => exact hs.apart conn' space'
  · intro conn' space' p hp
    rw [history_setHistory] at hp
    by_cases hsame : conn' = conn ∧ space' = space
    · rw [if_pos hsame] at hp
      obtain ⟨rfl, rfl⟩ := hsame
      exact he p hp
    · rw [if_neg hsame] at hp
      exact hs.earned conn' space' p hp

theorem Earned.mono {p : ℤ} (h : s.Earned carries conn space p)
    (hrec : ∀ p ∈ s.received conn space, p ∈ s'.received conn space)
    (hdel : ∀ streamID, ∀ frame ∈ (s.stream conn streamID).delivered, frame ∈ (s'.stream conn streamID).delivered) :
    s'.Earned carries conn space p := by
  rcases h with hp | ⟨hspace, streamID, frame, hframe, hc⟩
  · exact Or.inl (hrec p hp)
  · exact Or.inr ⟨hspace, streamID, frame, hdel streamID frame hframe, hc⟩

theorem delivered_step {r' : Receiver} (h : Receiver.Step streamID r a r') (conn : ℕ) :
    (∀ frame ∈ r.delivered, frame ∈ r'.delivered) ∧
      ∀ e ∈ recoveredBy conn r a, e.conn = conn ∧ e.frame ∈ r'.delivered := by
  cases h with
  | put hpc _ =>
    refine ⟨fun frame hframe => List.mem_append_left _ hframe, ?_⟩
    intro e he
    simp only [recoveredBy, hpc, Decode.frames, List.head?_cons, Option.map_some,
      Option.toList_some, List.mem_singleton] at he
    subst he
    exact ⟨rfl, List.mem_append_right _ (List.mem_singleton_self _)⟩
  | _ => exact ⟨fun _ hframe => hframe, fun e he => absurd he List.not_mem_nil⟩

theorem Honest.receivedPacket (h : s.Honest carries) (conn : ℕ) (space : Space) (p : ℤ) :
    ({ s.setHistory conn space ((s.history conn space).receivedPacket p).1 with
      received := Function.update s.received conn
        (Function.update (s.received conn) space (s.received conn space ++ [p])) } :
      Process).Honest carries := by
  have hgrow : ∀ conn' space', ∀ q ∈ s.received conn' space', q ∈ Function.update s.received conn
      (Function.update (s.received conn) space (s.received conn space ++ [p])) conn' space' := by
    intro conn' space' q hq
    by_cases hc : conn' = conn
    · subst hc
      by_cases hsp : space' = space
      · subst hsp
        simp [hq]
      · simp [hsp, hq]
    · simp [hc, hq]
  obtain ⟨hapart, hsub⟩ := History.receivedPacket_subset (h.apart conn space) p
  -- first the packet is received, then it is registered
  have hrec : ({ s with
      received := Function.update s.received conn
        (Function.update (s.received conn) space (s.received conn space ++ [p])) } :
      Process).Honest carries := by
    refine ⟨h.apart, ?_, h.listed⟩
    intro conn' space' q hq
    exact (h.earned conn' space' q hq).mono (hgrow conn' space') fun _ _ hframe => hframe
  refine hrec.setHistory conn space hapart ?_
  intro q hq
  rcases hsub q hq with rfl | hq
  · left
    simp
  · exact hrec.earned conn space q hq

theorem Honest.getAckRanges (h : s.Honest carries)
    (hown : ∀ e ∈ s.fecRecoveredPacketList, space = .appData ∧ e.conn = conn) :
    ({ s.setHistory conn space ((s.history conn space).getAckRanges
        (s.fecRecoveredPacketList.map fun e => (e.packetNumber : ℤ))).1 with
      fecRecoveredPacketList := [] } : Process).Honest carries := by
  obtain ⟨hapart, hcov⟩ := History.covered_getAckRanges (h.apart conn space)
    (s.fecRecoveredPacketList.map fun e => (e.packetNumber : ℤ))
  have hset := h.setHistory conn space hapart ?_
  · exact ⟨hset.apart, hset.earned, fun e he => absurd he List.not_mem_nil⟩
  · intro p hp
    rw [hcov, Finset.mem_union, List.mem_toFinset] at hp
    rcases hp with hp | hp
    · exact h.earned conn space p hp
    · obtain ⟨e, he, rfl⟩ := List.mem_map.mp hp
      obtain ⟨hspace, rfl⟩ := hown e he
      obtain ⟨hcarries, streamID, hdel⟩ := h.listed e he
      exact Or.inr ⟨hspace, streamID, e.frame, hdel, hcarries⟩

theorem Honest.stream (h : s.Honest carries)
    (hok : ∀ e ∈ recoveredBy conn (s.stream conn streamID) a, carries conn e.packetNumber e.frame)
    (hr : Receiver.Step streamID (s.stream conn streamID) a r) :
    ({ s with
      stream := Function.update s.stream conn (Function.update (s.stream conn) streamID r)
      fecRecoveredPacketList := s.fecRecoveredPacketList ++
        recoveredBy conn (s.stream conn streamID) a } : Process).Honest carries := by
  obtain ⟨hgrow, hnew⟩ := delivered_step hr conn
  have hdel : ∀ conn' streamID', ∀ frame ∈ (s.stream conn' streamID').delivered,
      frame ∈ (Function.update s.stream conn (Function.update (s.stream conn) streamID r) conn'
        streamID').delivered := by
    intro conn' streamID' frame hframe
    by_cases hc : conn' = conn
    · subst hc
      by_cases hid : streamID' = streamID
      · subst hid
        simpa using hgrow frame hframe
      · simpa [hid] using hframe
    · simpa [hc] using hframe
  refine ⟨h.apart, ?_, ?_⟩
  · intro conn' space p hp
    exact (h.earned conn' space p hp).mono (fun _ hq => hq) (hdel conn')
  · intro e he
    rcases List.mem_append.mp he with he | he
    · obtain ⟨hcarries, streamID', hframe⟩ := h.listed e he
      exact ⟨hcarries, streamID', hdel e.conn streamID' e.frame hframe⟩
    · obtain ⟨hconn, hframe⟩ := hnew e he
      have hcarries := hok e he
      rw [← hconn] at hcarries
      refine ⟨hcarries, streamID, ?_⟩
      rw [hconn]
      simpa using hframe

theorem Honest.step (h : s.Honest carries) {a : Label} (hok : s.Own carries a)
    (hs : s.step a = .ok s') : s'.Honest carries := by
  cases a with
  | receivedPacket conn space p =>
    cases hs
    exact h.receivedPacket conn space p
  | deleteBelow conn space p =>
    cases hs
    obtain ⟨hapart, hsub⟩ := History.deleteBelow_subset (h.apart conn space) p
    exact h.setHistory conn space hapart fun q hq => h.earned conn space q (hsub q hq)
  | getAckRanges conn space =>
    cases hs
    exact h.getAckRanges hok
  | stream conn streamID a =>
    simp only [Process.step] at hs
    cases hr : (s.stream conn streamID).step streamID a with
    | error stop =>
      rw [hr] at hs
      cases hs
    | ok r =>
      rw [hr] at hs
      cases hs
      refine h.stream ?_ (Receiver.Step.of_step hr)
      intro e he
      cases a with
      | put =>
        simp only [recoveredBy, Option.mem_toList, Option.map_eq_some_iff] at he
        obtain ⟨frame, hframe, rfl⟩ := he
        exact hok frame hframe
      | _ => exact absurd he List.not_mem_nil

/- In any interleaving of any connections, as long as the numbers worked out for recovered frames
are right and are taken by the connection that they belong to. -/
theorem acks_earned {as : List Label} {s : Process} (h : Run step (Own carries) init as s)
    (conn : ℕ) (space : Space) :
    ∀ p ∈ covered (s.history conn space).ranges, s.Earned carries conn space p :=
  (Run.invariant (Honest carries) init_honest (fun _ _ _ hi hok hs => hi.step hok hs) h).earned
    conn space

/-! ### Two connections -/

theorem run_of_stream (carries : ℕ → ℤ → StreamFrame → Prop) (conn : ℕ)
    {ok : Receiver → Receiver.Label → Prop} {as : List Receiver.Label}
    (h : Run (Receiver.step streamID) ok .init as r) (hput : .put ∉ as) :
    ∃ s, Run step (Own carries) init (as.map (.stream conn streamID)) s ∧
      s.stream conn streamID = r ∧ s.history = init.history ∧ s.received = init.received ∧
      s.fecRecoveredPacketList = [] ∧ ∀ conn', conn' ≠ conn → s.stream conn' = init.stream conn' := by
  induction h with
  | nil => exact ⟨init, .nil, rfl, rfl, rfl, rfl, fun _ _ => rfl⟩
  | @snoc as r r' a _ _ hs ih =>
    rw [List.mem_append, not_or, List.mem_singleton] at hput
    obtain ⟨s, hrun, hr, hhist, hrec, hlist, hother⟩ := ih hput.1
    have hnone : recoveredBy conn (s.stream conn streamID) a = [] := by
      cases a with
      | put => exact absurd rfl hput.2
      | _ => rfl
    have hok : s.Own carries (.stream conn streamID a) := by
      cases a with
      | put => exact absurd rfl hput.2
      | _ => trivial
    refine ⟨{ s with
      stream := Function.update s.stream conn (Function.update (s.stream conn) streamID r') },
      ?_, ?_, hhist, hrec, hlist, ?_⟩
    · rw [List.map_append]
      refine hrun.snoc hok ?_
      rw [← hr] at hs
      simp only [step, hs, hnone, List.append_nil]
    · simp
    · intro conn' hne
      simp [hne, hother conn' hne]

theorem run_of_firstLost (carries : ℕ → ℤ → StreamFrame → Prop)
    (hc : carries 0 0 ⟨4, 0, List.replicate symbolSize 0, false⟩) : ∃ as s,
    Run step (Own carries) init as s ∧ s.history = init.history ∧ s.received = init.received ∧
      s.fecRecoveredPacketList = [⟨0, ⟨4, 0, List.replicate symbolSize 0, false⟩, 0⟩] ∧
      ∀ conn', conn' ≠ 0 → s.stream conn' = init.stream conn' := by
  obtain ⟨r₁, r₂, hrun, hpc, hput, _⟩ := Receiver.firstLost_run
  obtain ⟨s, hrun', hr, hhist, hrec, hlist, hother⟩ := run_of_stream carries 0 hrun
    (by decide +kernel)
  have hhead : r₁.decode.frames.head? = some (⟨4, 0, List.replicate symbolSize 0, false⟩, 0) := by
    rw [hpc]
    rfl
  have hok : s.Own carries (.stream 0 4 .put) := by
    intro e he
    rw [hr, hhead] at he
    cases he
    exact hc
  refine ⟨_, { s with
    stream := Function.update s.stream 0 (Function.update (s.stream 0) 4 r₂)
    fecRecoveredPacketList := [⟨0, ⟨4, 0, List.replicate symbolSize 0, false⟩, 0⟩] },
    hrun'.snoc hok ?_, hhist, hrec, rfl, ?_⟩
  · simp only [step, hr, hput, recoveredBy, hhead, hlist, Option.map_some, Option.toList_some,
      List.nil_append]
  · intro conn' hne
    simp [hne, hother conn' hne]

theorem acks_earned_first : ∃ as s,
    Run step (Own fun conn p frame => conn = 0 ∧ frame.offset = symbolSize * p.toNat) init as s ∧
      0 ∈ covered (s.history 0 .appData).ranges ∧
      s.Earned (fun conn p frame => conn = 0 ∧ frame.offset = symbolSize * p.toNat) 0 .appData 0 := by
  obtain ⟨as, s, hrun, hhist, _, hlist, _⟩ := run_of_firstLost
    (fun conn p frame => conn = 0 ∧ frame.offset = symbolSize * p.toNat) ⟨rfl, rfl⟩
  have hok : s.Own (fun conn p frame => conn = 0 ∧ frame.offset = symbolSize * p.toNat)
      (.getAckRanges 0 .appData) := by
    intro e he
    rw [hlist, List.mem_singleton] at he
    subst he
    exact ⟨rfl, rfl⟩
  have hrun' := hrun.snoc hok rfl
  have hin : (0 : ℤ) ∈ covered (History.getAckRanges .new [0]).1.ranges := by decide +kernel
  refine ⟨_, _, hrun', ?_, acks_earned hrun' 0 .appData 0 ?_⟩
  · simpa [setHistory, hhist, hlist, init] using hin
  · simpa [setHistory, hhist, hlist, init] using hin

/- Connection 1 has received nothing and acknowledges packet 0, which connection 0 recovered. -/
theorem acks_other_connection : ∃ as s, Run step always init as s ∧
    (∀ space, s.received 1 space = []) ∧
    ∃ p ∈ covered (s.history 1 .appData).ranges, ∀ carries, ¬s.Earned carries 1 .appData p := by
  obtain ⟨as, s, hrun, hhist, hrec, hlist, hother⟩ := run_of_firstLost (fun _ _ _ => True) trivial
  have hrun' : Run step always init (as ++ [.getAckRanges 1 .appData]) _ :=
    (hrun.mono fun _ _ _ => trivial).snoc trivial rfl
  have hin : (0 : ℤ) ∈ covered (History.getAckRanges .new [0]).1.ranges := by decide +kernel
  refine ⟨_, _, hrun', ?_, 0, ?_, ?_⟩
  · intro space
    simp [setHistory, hrec, init]
  · simpa [setHistory, hhist, hlist, init] using hin
  · rintro carries (hp | ⟨_, streamID, frame, hframe, _⟩)
    · simp [setHistory, hrec, init] at hp
    · have hinit := congrFun (hother 1 (by decide)) streamID
      simp [setHistory, hinit, init, Receiver.init] at hframe

end Process

end Mp2bs.Quic
