import Mp2bs.Quic.SendStream

/-!
# The framer (`enhanced-quic/framer.go`)

`AppendStreamFrames` gives each stream of the queue one turn, while the packet has room for a
STREAM frame of `MinStreamFrameSize`. A stream is offered the length field of the last frame on
top of the room that is left, which a STREAM frame gives back at the end and a FEC frame does not.
-/

namespace Mp2bs.Quic
open Mp2bs.Fec

/- The framer of a connection with the send streams that `GetOrOpenSendStream` finds. -/
structure Framer where
  streams : ℕ → Option SendStream
  conn : FlowController
  activeStreams : Finset ℕ
  streamQueue : List ℕ

namespace Framer

/- What a turn offers to the stream (117-121). -/
def offered (maxLen length : ℕ) : ℕ := maxLen - length + varintLen (maxLen - length)

/- One turn of the loop (107-134), with its frame. -/
def turn (c : Framer) (maxLen length : ℕ) : Except Stop (Framer × Option Frame) :=
  match c.streamQueue with
  | [] => .error .panic
  | id :: rest => match c.streams id with
    | none =>
      .ok ({ c with streamQueue := rest, activeStreams := c.activeStreams.erase id }, none)
    | some s => match s.popStreamFrame c.conn (offered maxLen length) with
      | .error stop => .error stop
      | .ok (s', conn, frame, hasMoreData) =>
        .ok ({ streams := Function.update c.streams id (some s')
               conn := conn
               activeStreams := if hasMoreData then c.activeStreams else c.activeStreams.erase id
               streamQueue := if hasMoreData then rest ++ [id] else rest }, frame)

/- The loop (103-139); the first argument counts the turns that are left. -/
def appendLoop (maxLen : ℕ) : ℕ → Framer → List Frame → ℕ → Except Stop (Framer × List Frame × ℕ)
  | 0, c, frames, length => .ok (c, frames, length)
  | turns + 1, c, frames, length =>
    if maxLen < minStreamFrameSize + length then .ok (c, frames, length)
    else match c.turn maxLen length with
      | .error stop => .error stop
      | .ok (c', none) => appendLoop maxLen turns c' frames length
      | .ok (c', some f) => appendLoop maxLen turns c' (frames ++ [f]) (length + f.length)

/- The last STREAM frame goes without its length field (141-150). -/
def trimLast (frames : List Frame) (length : ℕ) : List Frame × ℕ :=
  match frames.getLast? with
  | some (.stream f b) =>
    (frames.dropLast ++ [.stream f false], length + f.length false - f.length b)
  | _ => (frames, length)

-- AppendStreamFrames, 96-152, with the frames that it appends
def appendStreamFrames (c : Framer) (maxLen : ℕ) : Except Stop (Framer × List Frame × ℕ) :=
  match appendLoop maxLen c.streamQueue.length c [] 0 with
  | .error stop => .error stop
  | .ok (c', frames, length) => .ok (c', trimLast frames length)

/-! ### Lengths of a packet -/

def total (frames : List Frame) : ℕ := (frames.map Frame.length).sum

theorem total_append (frames : List Frame) (f : Frame) :
    total (frames ++ [f]) = total frames + f.length := by
  simp [total]

/- At its turn, the stream at the head of the queue takes no more unbuffered data than a buffer
holds, and the FEC frame that it would send fits into what is left of the packet. -/
def TurnFits (c : Framer) (maxLen length : ℕ) : Prop :=
  ∀ id ∈ c.streamQueue.head?, ∀ s ∈ c.streams id,
    ¬s.Overflows c.conn (offered maxLen length) ∧
      ∀ e ∈ s.fecNext (offered maxLen length), length + fecLength e ≤ maxLen

def TurnsFit (maxLen : ℕ) : ℕ → Framer → ℕ → Prop
  | 0, _, _ => True
  | turns + 1, c, length =>
    minStreamFrameSize + length ≤ maxLen → c.TurnFits maxLen length ∧
      ∀ c' f, c.turn maxLen length = .ok (c', f) →
        TurnsFit maxLen turns c' (length + f.elim 0 Frame.length)

section
variable {c : Framer} {maxLen length : ℕ}

theorem minStreamFrameSize_le_offered (h : minStreamFrameSize + length ≤ maxLen) :
    minStreamFrameSize ≤ offered maxLen length := by
  unfold offered
  omega

theorem trimLast_nil (length : ℕ) : trimLast [] length = ([], length) := rfl

theorem trimLast_fec (frames : List Frame) (e : FecFrame) (length : ℕ) :
    trimLast (frames ++ [.fec e]) length = (frames ++ [.fec e], length) := by
  simp [trimLast]

theorem trimLast_stream (frames : List Frame) (f : PooledFrame) (b : Bool) (length : ℕ) :
    trimLast (frames ++ [.stream f b]) length =
      (frames ++ [.stream f false], length + f.length false - f.length b) := by
  simp [trimLast]

theorem total_trimLast (frames : List Frame) :
    total (trimLast frames (total frames)).1 = (trimLast frames (total frames)).2 := by
  rcases List.eq_nil_or_concat frames with rfl | ⟨front, f, rfl⟩
  · rfl
  rw [List.concat_eq_append]
  cases f with
  | fec e => rw [trimLast_fec]
  | stream f b =>
    rw [trimLast_stream, total_append, total_append]
    simp only [Frame.length]
    omega

variable {frames frames' : List Frame} {c' c : Framer} {l : ℕ}

theorem trimLast_le_of_pops {s s' : SendStream} {conn : FlowController} {f : Frame} {more : Bool}
    (hroom : minStreamFrameSize + length ≤ maxLen)
    (hpops : s.Pops conn (offered maxLen length) s' (some f) more)
    (hfec : ∀ e ∈ s.fecNext (offered maxLen length), length + fecLength e ≤ maxLen) :
    (trimLast (frames ++ [f]) (length + f.length)).2 ≤ maxLen := by
  have hstream : ∀ g : PooledFrame, g.length true ≤ offered maxLen length →
      (trimLast (frames ++ [.stream g true]) (length + g.length true)).2 ≤ maxLen := by
    intro g hg
    have hfit : g.length false ≤ maxLen - length :=
      PooledFrame.length_false_le (by omega) hg
    rw [trimLast_stream]
    simp only
    omega
  cases hpops with
  | retransmitted _ _ _ hlen => exact hstream _ hlen
  | new _ _ _ _ _ _ hlen _ => exact hstream _ hlen
  | fec _ hnext _ _ =>
    rw [trimLast_fec]
    exact hfec _ hnext

theorem turn_queue {f : Option Frame} (h : c.turn maxLen length = .ok (c', f)) :
    c.streamQueue.length ≤ c'.streamQueue.length + 1 := by
  unfold turn at h
  split at h
  · cases h
  rename_i id rest hq
  rw [hq]
  split at h
  · cases h
    exact le_refl _
  split at h
  · cases h
  cases h
  simp only
  split <;> simp

theorem turn_of_fits (hroom : minStreamFrameSize + length ≤ maxLen)
    (hq : c.streamQueue ≠ []) (hfits : c.TurnFits maxLen length) (frames : List Frame) :
    ∃ c' f, c.turn maxLen length = .ok (c', f) ∧
      ∀ g ∈ f, (trimLast (frames ++ [g]) (length + g.length)).2 ≤ maxLen := by
  obtain ⟨id, rest, hcons⟩ := List.exists_cons_of_ne_nil hq
  cases hs : c.streams id with
  | none =>
    simp only [turn, hcons, hs]
    exact ⟨_, _, rfl, by simp⟩
  | some s =>
    obtain ⟨hover, hfec⟩ := hfits id (by simp [hcons]) s hs
    rcases s.popStreamFrame_pops c.conn (minStreamFrameSize_le_offered hroom) with
      ⟨_, -, h⟩ | ⟨s', conn, f, more, hpop, hpops⟩
    · exact absurd h hover
    simp only [turn, hcons, hs, hpop]
    refine ⟨_, _, rfl, ?_⟩
    intro g hg
    obtain rfl := Option.mem_def.mp hg
    exact trimLast_le_of_pops hroom hpops hfec

theorem appendLoop_of_fits (turns : ℕ) (hturns : turns ≤ c.streamQueue.length)
    (hlen : length = total frames) (htrim : (trimLast frames length).2 ≤ maxLen)
    (hfits : TurnsFit maxLen turns c length) :
    ∃ c' frames', appendLoop maxLen turns c frames length = .ok (c', frames', total frames') ∧
      (trimLast frames' (total frames')).2 ≤ maxLen := by
  -- the packet so far keeps within the limit once it is trimmed
  induction turns generalizing c frames length with
  | zero =>
    subst hlen
    exact ⟨c, frames, rfl, htrim⟩
  | succ turns ih =>
    by_cases hroom : minStreamFrameSize + length ≤ maxLen
    swap
    · rw [appendLoop, if_pos (by omega)]
      subst hlen
      exact ⟨c, frames, rfl, htrim⟩
    obtain ⟨hturn, hrest⟩ := hfits hroom
    have hq : c.streamQueue ≠ [] := List.length_pos_iff.mp (by omega)
    obtain ⟨c', f, hok, hf⟩ := turn_of_fits hroom hq hturn frames
    have hqueue := turn_queue hok
    have hfits' := hrest c' f hok
    rw [appendLoop, if_neg (by omega), hok]
    cases f with
    | none => exact ih (by omega) hlen htrim hfits'
    | some g =>
      apply ih (by omega) _ (hf g rfl) hfits'
      rw [total_append, hlen]

theorem turn_fits_of_ok {turns : ℕ} (hroom : minStreamFrameSize + length ≤ maxLen)
    (h : appendLoop maxLen (turns + 1) c frames length = .ok (c', frames', l))
    (hle : (trimLast frames' l).2 ≤ maxLen) : c.TurnFits maxLen length := by
  intro id hid s hs
  obtain ⟨rest, hcons⟩ := List.head?_eq_some_iff.mp hid
  have hmin := minStreamFrameSize_le_offered hroom
  have hs' : c.streams id = some s := hs
  rw [appendLoop, if_neg (by omega)] at h
  refine ⟨?_, ?_⟩
  · intro hover
    have hpop := SendStream.popStreamFrame_of_overflows hmin hover
    simp [turn, hcons, hs', hpop] at h
  · intro e he
    by_contra hlong
    rcases s.popStreamFrame_pops c.conn hmin with ⟨_, -, hover⟩ | ⟨s', conn, f, more, hpop, hpops⟩
    · have hpop := SendStream.popStreamFrame_of_overflows hmin hover
      simp [turn, hcons, hs', hpop] at h
    have hf : f = some (.fec e) := by
      have he' : s.fecNext (offered maxLen length) = some e := he
      cases hpops with
      | nothing _ _ hnext _ | retransmitted _ _ hnext _ | new _ hnext _ _ _ _ _ _ => simp [hnext] at he'
      | fec _ hnext _ _ =>
        rw [hnext] at he'
        cases he'
        rfl
    subst hf
    simp only [turn, hcons, hs', hpop] at h
    -- no room is left, so the FEC frame is the last one
    have hend : frames' = frames ++ [.fec e] ∧ l = length + fecLength e := by
      cases turns with
      | zero =>
        simp only [appendLoop, Except.ok.injEq, Prod.mk.injEq] at h
        exact ⟨h.2.1.symm, h.2.2.symm⟩
      | succ turns =>
        rw [appendLoop, if_pos (by simp only [Frame.length]; omega)] at h
        simp only [Except.ok.injEq, Prod.mk.injEq] at h
        exact ⟨h.2.1.symm, h.2.2.symm⟩
    rw [hend.1, hend.2, trimLast_fec] at hle
    exact hlong hle

theorem fits_of_appendLoop (turns : ℕ)
    (h : appendLoop maxLen turns c frames length = .ok (c', frames', l))
    (hle : (trimLast frames' l).2 ≤ maxLen) : TurnsFit maxLen turns c length := by
  induction turns generalizing c frames length with
  | zero => trivial
  | succ turns ih =>
    intro hroom
    refine ⟨turn_fits_of_ok hroom h hle, ?_⟩
    intro c₁ f hok
    rw [appendLoop, if_neg (by omega), hok] at h
    cases f with
    | none => exact ih h
    | some g => exact ih h

end

/- A call returns frames of the returned length that fit into the packet, just if every turn
fits. -/
theorem appendStreamFrames_fits_iff (c : Framer) (maxLen : ℕ) :
    (∃ c' frames length, c.appendStreamFrames maxLen = .ok (c', frames, length) ∧
      total frames = length ∧ length ≤ maxLen) ↔
      TurnsFit maxLen c.streamQueue.length c 0 := by
  constructor
  · rintro ⟨c', frames, length, h, -, hle⟩
    unfold appendStreamFrames at h
    split at h
    · cases h
    rename_i c₁ frames₁ length₁ hloop
    simp only [Except.ok.injEq, Prod.mk.injEq] at h
    apply fits_of_appendLoop _ hloop
    rw [h.2]
    exact hle
  · intro hfits
    have hstart : (trimLast [] 0).2 ≤ maxLen := by
      rw [trimLast_nil]
      exact Nat.zero_le _
    have hnil : 0 = total [] := rfl
    obtain ⟨c', frames, hloop, hle⟩ := appendLoop_of_fits _ (le_refl _) hnil hstart hfits
    refine ⟨c', _, _, ?_, total_trimLast frames, hle⟩
    rw [appendStreamFrames, hloop]

def oneFecFrame : Framer where
  streams := fun id => if id = 0 then some { SendStream.new 0 with
    fec := { FecEncoder.new with
      transmissionQueue := [⟨0, 0, 1024, 16, 0, 1024, 4096, List.replicate 1024 0, false⟩] } }
    else none
  conn := ⟨0, 0, 0⟩
  activeStreams := {0}
  streamQueue := [0]

/- A FEC frame is admitted by its symbol size of 1024, and its encoding has 1035 bytes. -/
theorem appendStreamFrames_too_long :
    ∃ c' frames length, oneFecFrame.appendStreamFrames 1030 = .ok (c', frames, length) ∧
      total frames = length ∧ 1030 < length := by
  refine ⟨_, _, _, rfl, ?_, ?_⟩
  · decide +kernel
  · decide +kernel

end Framer

end Mp2bs.Quic
